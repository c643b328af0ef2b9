import Galvanize.HighApply
import Galvanize.Runs

/-! The order in which High applies the events of a stream. The receiver takes
bundles as they open: nothing compares their sequence numbers with what was
applied before. What is applied is a part of the journal from its start as long
as every bundle that gets in starts where the last one ended. -/
namespace Galvanize.HighLow
open List

variable {codec : Codec} {accepted : List String} {high next : High} {attempt : Attempt} {bundle : Bundle}

/-! ### One bundle -/

/-- A bundle of which no statement is refused applies all its events. -/
theorem applyBundle_ok {db after : HighDb} (done : applyBundle codec refuses db bundle = .ok after) :
    applyEvents codec db bundle.events = .ok after := by
  obtain ⟨_, _, loop⟩ := bind_ok done
  clear done
  generalize bundle.events = events at loop ⊢
  induction events generalizing db with
  | nil => exact loop
  | cons _ events ih =>
    obtain ⟨_, turn, rest⟩ := bind_ok loop
    obtain ⟨_, run, kept⟩ := bind_ok turn
    obtain ⟨_, _, same⟩ := bind_ok kept
    cases same
    rw [applyEvents, foldlM_cons, run]
    exact ih rest

/-- The highest sequence number of a stream that High has seen. -/
def High.highestSeen (high : High) (streamId : String) : Int :=
  ((high.streams.get? streamId).map StreamRow.highestSeen).getD 0

theorem highestSeen_register (streams : IndexMap String StreamRow) (streamId : String) :
    (((streams.upsert streamId fun held =>
        match held with
        | some row => { row with highestSeen := max row.highestSeen seen }
        | none => ⟨seen, 0⟩).get? streamId).map StreamRow.highestSeen).getD 0
      = match streams.get? streamId with
        | some row => max row.highestSeen seen
        | none => seen := by
  rw [IndexMap.get?_upsert, if_pos rfl]
  cases streams.get? streamId <;> rfl

/-- What the transaction of a bundle does if it commits: nothing for a bundle
that is registered, else its events are applied and its range is noted. -/
theorem processIncomingBundle_cases (done : processIncomingBundle codec attempt high bundle = .ok next) :
    bundle.validate codec = .ok () ∧ (next = high ∨ ((∀ row ∈ high.inbox, row.bundleId ≠ bundle.bundleId) ∧
          applyEvents codec high.db bundle.events = .ok next.db ∧
          (∀ row ∈ next.inbox, (∃ old ∈ high.inbox, old.sequenceLast = row.sequenceLast) ∨
            row.sequenceLast = bundle.sequenceLast) ∧ next.highestSeen bundle.streamId =
            match high.streams.get? bundle.streamId with
            | some row => max row.highestSeen bundle.sequenceLast
            | none => bundle.sequenceLast)) := by
  obtain ⟨_, _, done⟩ := bind_ok done
  obtain ⟨_, registers, done⟩ := bind_ok done
  obtain ⟨_, valid, registers⟩ := bind_ok registers
  obtain ⟨_, apply, done⟩ := bind_ok done
  obtain ⟨_, _, same⟩ := bind_ok done
  cases same
  refine ⟨valid, ?_⟩
  split at registers
  case isTrue known =>
    cases registers
    cases apply
    exact .inl rfl
  case isFalse unknown =>
    cases registers
    obtain ⟨db, ran, rfl⟩ := map_ok apply
    refine .inr ⟨?_, applyBundle_ok ran, ?_, highestSeen_register _ _⟩
    · intro row member same
      exact unknown (any_eq_true.mpr ⟨row, member, by simpa using same⟩)
    · intro row member
      obtain ⟨old, listed, rfl⟩ := mem_map.mp member
      have kept : (setDetail attempt.manifest bundle.bundleId old).sequenceLast = old.sequenceLast := by
        unfold setDetail
        split <;> rfl
      rw [kept]
      rcases mem_append.mp listed with held | new
      · exact .inl ⟨old, held, rfl⟩
      · rw [mem_singleton.mp new]
        exact .inr rfl

/-! ### The journal -/

/-- The events of a stream as Low wrote them: numbered from one. -/
def IsJournal (streamId : String) (journal : List Event) : Prop :=
  ∀ (i : Nat) event, journal[i]? = some event → event.streamId = streamId ∧ event.sequence = (i : Int) + 1

/-- A bundle with a part of the journal in it. -/
def PartOfJournal (streamId : String) (journal : List Event) (bundle : Bundle) : Prop :=
  bundle.streamId = streamId ∧ ∃ before after, journal = before ++ bundle.events ++ after

/-- What High has is what the first `count` events of the journal make of what it
had, and no bundle beyond them is registered. -/
structure AtPrefix (codec : Codec) (streamId : String) (journal : List Event) (initial : HighDb) (count : Nat)
    (high : High) : Prop where
  within : count ≤ journal.length
  applied : applyEvents codec initial (journal.take count) = .ok high.db
  seen : high.highestSeen streamId = count
  registered : ∀ row ∈ high.inbox, row.sequenceLast ≤ count

theorem matchesEvents_of_valid (valid : bundle.validate codec = .ok ()) : bundle.matchesEvents = true := by
  obtain ⟨_, _, rest⟩ := bind_ok valid
  obtain ⟨_, _, matched⟩ := bind_ok rest
  simpa using matched

variable {journal : List Event} {streamId : String}

/-- A valid bundle that is a part of the journal has the numbers of that part. -/
theorem range_of_part {before after : List Event} (numbered : IsJournal streamId journal)
    (valid : bundle.validate codec = .ok ()) (split : journal = before ++ bundle.events ++ after) :
    bundle.sequenceFirst = before.length + 1 ∧ bundle.sequenceLast = before.length + bundle.events.length := by
  have matched := matchesEvents_of_valid valid
  unfold Bundle.matchesEvents at matched
  cases events : bundle.events with
  | nil =>
    rw [events] at matched
    cases matched
  | cons first rest =>
    rw [events] at matched split
    have lastIs : (first :: rest).getLast? = some ((first :: rest).getLast (by simp)) := getLast?_eq_some_getLast _
    rw [lastIs] at matched
    simp only [head?_cons, Bool.and_eq_true, decide_eq_true_eq] at matched
    have firstAt : journal[before.length]? = some first := by simp [split]
    have lastAt : journal[before.length + rest.length]? = some ((first :: rest).getLast (by simp)) := by
      rw [split, append_assoc, getElem?_append_right (by omega), getElem?_append_left (by simp)]
      rw [getLast_eq_getElem, getElem?_eq_getElem (by simp)]
      simp
    constructor
    · rw [matched.1.2, (numbered _ _ firstAt).2]
    · rw [matched.2, (numbered _ _ lastAt).2]
      simp only [length_cons]
      omega

theorem applyEvents_append {db middle : HighDb} (before : applyEvents codec db first = .ok middle) :
    applyEvents codec db (first ++ second) = applyEvents codec middle second := by
  rw [applyEvents, foldlM_append]
  rw [applyEvents] at before
  rw [before]
  rfl

/-- The bundle starts where what High has seen of its stream ends. -/
def InOrder (high : High) (bundle : Bundle) : Prop := bundle.sequenceFirst = high.highestSeen bundle.streamId + 1

instance : Decidable (InOrder high bundle) :=
  inferInstanceAs (Decidable (bundle.sequenceFirst = high.highestSeen bundle.streamId + 1))

variable {initial : HighDb} {count : Nat}

section
variable (numbered : IsJournal streamId journal) (part : PartOfJournal streamId journal bundle)
  (before : AtPrefix codec streamId journal initial count high)
include numbered part before

/-- A bundle in order moves High on along the journal. -/
theorem atPrefix_process (ordered : (∀ row ∈ high.inbox, row.bundleId ≠ bundle.bundleId) → InOrder high bundle)
    (done : processIncomingBundle codec attempt high bundle = .ok next) :
    ∃ count', AtPrefix codec streamId journal initial count' next := by
  obtain ⟨rfl, front, _, split⟩ := part
  obtain ⟨valid, rfl | ⟨fresh, applied, registered, seen⟩⟩ := processIncomingBundle_cases done
  · exact ⟨count, before⟩
  · obtain ⟨first, last⟩ := range_of_part numbered valid split
    have start : front.length = count := by
      have same := ordered fresh
      rw [InOrder, first, before.seen] at same
      omega
    have takeFront : journal.take count = front := by
      rw [split, append_assoc, ← start, take_left]
    have takeMore : journal.take (count + bundle.events.length) = front ++ bundle.events := by
      rw [split, ← start, ← length_append, take_left]
    refine ⟨count + bundle.events.length, ?_, ?_, ?_, ?_⟩
    · rw [split]
      simp only [length_append]
      omega
    · have earlier := before.applied
      rw [takeFront] at earlier
      rw [takeMore, applyEvents_append earlier]
      exact applied
    · have held := before.seen
      rw [seen, last, start]
      unfold High.highestSeen at held
      cases row : high.streams.get? bundle.streamId with
      | none => simp
      | some _ =>
        simp only [row, Option.map_some, Option.getD_some] at held
        dsimp only
        rw [held, Int.max_eq_right (by omega)]
        omega
    · intro row member
      rcases registered row member with ⟨old, held, same⟩ | same
      · have bound := before.registered old held
        omega
      · omega

theorem atPrefix_receive
    (ordered : attempt.opens accepted high bundle = true → (∀ row ∈ high.inbox, row.bundleId ≠ bundle.bundleId) →
      InOrder high bundle) :
    ∃ count', AtPrefix codec streamId journal initial count' (receive codec accepted high attempt bundle) := by
  unfold receive
  split
  case isFalse => exact ⟨count, before⟩
  case isTrue opens =>
    split
    case h_1 next done => exact atPrefix_process numbered part before (ordered opens) done
    case h_2 => exact ⟨count, before⟩

end

/-! ### Every schedule -/

/-- In each turn, if the bundle gets in and is new, it is the next of its stream. -/
def Orderly (codec : Codec) (accepted : List String) (published : List (String × Bundle)) :
    High → List Attempt → Prop
  | _, [] => True
  | high, attempt :: attempts =>
    (∀ bundle, field? published attempt.manifest = some bundle → attempt.opens accepted high bundle = true →
      (∀ row ∈ high.inbox, row.bundleId ≠ bundle.bundleId) → InOrder high bundle) ∧
      Orderly codec accepted published (receiveFrom codec accepted published high attempt) attempts

/-- The turns of the receiver, in any order and any number. -/
def receiveAll (codec : Codec) (accepted : List String) (published : List (String × Bundle)) (high : High)
    (attempts : List Attempt) : High :=
  attempts.foldl (receiveFrom codec accepted published) high

theorem mem_of_field? (found : field? fields name = some value) : (name, value) ∈ fields := by
  obtain ⟨entry, is, rfl⟩ := Option.map_eq_some_iff.mp found
  obtain rfl : entry.1 = name := by simpa using find?_some is
  exact mem_of_find?_eq_some is

/-- The run lemma, from any point of the journal. -/
theorem atPrefix_receiveAll
    (numbered : IsJournal streamId journal) (parts : ∀ entry ∈ published, PartOfJournal streamId journal entry.2)
    (before : AtPrefix codec streamId journal initial count high)
    (orderly : Orderly codec accepted published high attempts) :
    ∃ count', AtPrefix codec streamId journal initial count' (receiveAll codec accepted published high attempts) := by
  induction attempts generalizing high count with
  | nil => exact ⟨count, before⟩
  | cons attempt attempts ih =>
    obtain ⟨ordered, later⟩ := orderly
    have turn :
      ∃ count', AtPrefix codec streamId journal initial count' (receiveFrom codec accepted published high attempt) := by
      unfold receiveFrom
      split
      case h_2 => exact ⟨count, before⟩
      case h_1 bundle found =>
        exact atPrefix_receive numbered (parts _ (mem_of_field? found)) before (ordered bundle found)
    obtain ⟨count', after⟩ := turn
    exact ih after later

/-- In every schedule of the receiver in which each bundle that gets in is the
next of its stream, whatever is listed, fetched, held, refused or retried in
between, High has at each point what the journal's first events make of what it
had, and no bundle has been applied before those below it. -/
theorem applied_in_journal_order (codec : Codec) (accepted : List String) (streamId : String) (journal : List Event)
    (published : List (String × Bundle)) (initial : HighDb) (streams : IndexMap String StreamRow)
    (attempts : List Attempt) (numbered : IsJournal streamId journal)
    (parts : ∀ entry ∈ published, PartOfJournal streamId journal entry.2) (untouched : streams.get? streamId = none)
    (orderly : Orderly codec accepted published ⟨initial, [], streams⟩ attempts) (turns : Nat) :
    ∃ count ≤ journal.length,
      applyEvents codec initial (journal.take count)
        = .ok (receiveAll codec accepted published ⟨initial, [], streams⟩ (attempts.take turns)).db ∧
      ∀ row ∈ (receiveAll codec accepted published ⟨initial, [], streams⟩ (attempts.take turns)).inbox,
        row.sequenceLast ≤ count := by
  have start : AtPrefix codec streamId journal initial 0 ⟨initial, [], streams⟩ := by
    refine ⟨Nat.zero_le _, rfl, ?_, ?_⟩
    · rw [High.highestSeen, untouched]
      rfl
    · intro row member
      cases member
  have shorter : ∀ (attempts : List Attempt) high, Orderly codec accepted published high attempts →
      ∀ turns, Orderly codec accepted published high (attempts.take turns) := by
    intro attempts
    induction attempts with
    | nil =>
      intro high _ turns
      rw [take_nil]
      trivial
    | cons _ attempts ih =>
      rintro high ⟨first, later⟩ turns
      cases turns with
      | zero => trivial
      | succ turns => exact ⟨first, ih _ later turns⟩
  obtain ⟨count, reached⟩ := atPrefix_receiveAll numbered parts start (shorter attempts _ orderly turns)
  exact ⟨count, reached.within, reached.applied, reached.registered⟩

/-! ### Two bundles under two schemas -/

/-- A write of one column of the user 1. -/
def userEvent (sequence : Int) (column : String) (value : Int) : Event where
  streamId := "low"
  sequence := sequence
  transactionId := "actor:1"
  table := "users"
  primaryKey := [("id", .integer 1)]
  operation := .upsert
  columns := [⟨column, .integer value⟩]
  sourceActor := "actor"
  committedAtMs := 0

def userJournal : List Event := [userEvent 1 "a" 1, userEvent 2 "b" 2]

/-- A bundle with one event. -/
def oneEvent (schemaHash : String) (event : Event) : Bundle where
  format := bundleFormat
  bundleId := schemaHash
  streamId := "low"
  sequenceFirst := event.sequence
  sequenceLast := event.sequence
  schemaHash := schemaHash
  replay := false
  events := [event]

/-- The schema changed on Low between the two events. -/
def userBundles : List (String × Bundle) :=
  [("first", oneEvent "old" (userEvent 1 "a" 1)), ("second", oneEvent "new" (userEvent 2 "b" 2))]

/-- A turn in which nothing fails. -/
def smoothly (manifest schemaHash : String) : Attempt where
  manifest := manifest
  inboxUnread := false
  fetchFails := false
  schemaHash := schemaHash
  openFails := false
  beginFails := false
  refuses := fun _ => false
  finishFails := false

def emptyDb : HighDb := ⟨∅, ∅⟩

theorem userJournal_numbered : IsJournal "low" userJournal := by
  intro i _ listed
  match i with
  | 0 | 1 =>
    cases listed
    exact ⟨rfl, rfl⟩
  | i + 2 => simp [userJournal] at listed

theorem userBundles_parts : ∀ entry ∈ userBundles, PartOfJournal "low" userJournal entry.2 := by
  intro entry listed
  simp only [userBundles, mem_cons, not_mem_nil, or_false] at listed
  rcases listed with rfl | rfl
  · exact ⟨rfl, [], [userEvent 2 "b" 2], rfl⟩
  · exact ⟨rfl, [userEvent 1 "a" 1], [], rfl⟩

/-- High follows the schema: both bundles get in, in order. -/
theorem followed_schema_in_order : ∃ count ≤ userJournal.length,
      applyEvents plainCodec emptyDb (userJournal.take count) = .ok (receiveAll plainCodec ["low"] userBundles
        ⟨emptyDb, [], ∅⟩ ([smoothly "first" "old", smoothly "second" "new"].take 2)).db ∧
      ∀ row ∈ (receiveAll plainCodec ["low"] userBundles ⟨emptyDb, [], ∅⟩
        ([smoothly "first" "old", smoothly "second" "new"].take 2)).inbox, row.sequenceLast ≤ count := by
  refine applied_in_journal_order plainCodec ["low"] "low" userJournal userBundles emptyDb ∅
    [smoothly "first" "old", smoothly "second" "new"] userJournal_numbered userBundles_parts rfl ⟨?_, ?_, trivial⟩ 2
  · intro bundle found _ _
    cases found
    rfl
  · intro bundle found _ _
    cases found
    decide

def rowsOf (result : Except Error HighDb) :
    List ((String × List (String × SqliteValue)) × List (String × SqliteValue)) :=
  match result with
  | .ok db => db.rows.entries
  | .error _ => []

/-- High is on the new schema already: the first bundle is held, the second one
is applied, and what High then has is no part of the journal from its start. -/
theorem held_bundle_is_passed :
    IsJournal "low" userJournal ∧ (∀ entry ∈ userBundles, PartOfJournal "low" userJournal entry.2) ∧
      ∀ count, applyEvents plainCodec emptyDb (userJournal.take count) ≠ .ok (receiveAll plainCodec ["low"] userBundles
        ⟨emptyDb, [], ∅⟩ [smoothly "first" "new", smoothly "second" "new"]).db := by
  refine ⟨userJournal_numbered, userBundles_parts, fun count same => ?_⟩
  have rows := congrArg rowsOf same
  match count with
  | 0 | 1 => exact absurd rows (by decide)
  | count + 2 =>
    have whole : userJournal.take (count + 2) = userJournal := take_of_length_le (by simp [userJournal])
    rw [whole] at rows
    exact absurd rows (by decide)

end Galvanize.HighLow
