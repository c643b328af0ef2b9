import Galvanize.ServeProofs

/-! What the answer to a need contains when every row could be read: which seqs its
chunks cover and which rows they carry. A selection of rows is cut into chunks
whose ranges tile the range asked for; the loops of `handle_need` add up what
each selection gives. -/
namespace Galvanize.ReplyContents
open ServeProofs SyncNeedProofs List StoredChange

variable {env : ServeEnv} {actorId : ActorId} {version lastSeq fuel start stop : Nat} {ts : Timestamp}
  {serving after : Serving} {chunked : ChunkedChanges} {range : CrsqlSeqRange}

/-- What a peer can learn from chunks. -/
inductive Fact where
  | covered (version seq : Nat)
  | carried (change : Change)

/-- The messages tell it, of this actor. -/
def Shows (actorId : ActorId) (sent : List ChangeV1) : Fact → Prop
  | .covered version seq => ∃ message ∈ sent, message.actorId = actorId ∧ message.versions = .single version ∧
      ∃ seqs, message.seqs = some seqs ∧ seq ∈ seqs
  | .carried change => ∃ message ∈ sent, ∃ parts, message.changeset.intoParts = some parts ∧
      change ∈ parts.changes

/-- What the rows of a version tell, sent as one range. -/
def Tells (version : Nat) (range : CrsqlSeqRange) (rows : List Change) : Fact → Prop
  | .covered own seq => own = version ∧ seq ∈ range
  | .carried change => change ∈ rows

theorem shows_sentChunk : Shows actorId (sentChunk serving actorId version lastSeq ts changes range).sent fact ↔
      Shows actorId serving.sent fact ∨ Tells version range (changes.rows version actorId) fact := by
  cases fact with
  | covered _ _ =>
    simp [Shows, sentChunk, Tells, ChangeV1.versions, ChangeV1.seqs, Changeset.versions, Changeset.seqs,
      or_and_right, exists_or, RangeInclusive.single, eq_comm]
  | carried _ =>
    simp [Shows, sentChunk, Tells, Changeset.intoParts, or_and_right, exists_or]

/-- The rows of a range, readable and in the order of their seqs. -/
structure Ordered (actorId : ActorId) (version start stop : Nat) (rows : List Change) : Prop where
  sorted : rows.Pairwise (fun a b => a.seq < b.seq)
  within : ∀ change ∈ rows, start ≤ change.seq ∧ change.seq ≤ stop
  own : ∀ change ∈ rows, change.siteId = actorId ∧ change.dbVersion = version

/-- An iterator at the start of a chunk, with these rows left. -/
structure At (chunked : ChunkedChanges) (start stop : Nat) (rows : List Change) : Prop where
  left : chunked.iter = rows.map .ok
  drained : chunked.changes = ∅
  open_ : chunked.done = false
  start : chunked.lastStartSeq = start
  stop : chunked.lastSeq = stop

theorem mem_rows_own {change : Change} (own : ∀ change ∈ taken, change.siteId = actorId ∧ change.dbVersion = version) :
    change ∈ (ChunkedChanges.gathered taken).rows version actorId ↔ change ∈ taken := by
  rw [ChunkedChanges.mem_rows_gathered]
  constructor
  · rintro ⟨other, listed, rfl⟩
    obtain ⟨rfl, rfl⟩ := own other listed
    exact listed
  · intro listed
    obtain ⟨rfl, rfl⟩ := own change listed
    exact ⟨change, listed, rfl⟩

theorem sendLoop_done (done : chunked.done = true)
    (ok : sendLoop env actorId version lastSeq ts fuel chunked serving = .ok after) : after = serving := by
  cases fuel with
  | zero =>
    cases ok
    rfl
  | succ fuel =>
    rw [sendLoop] at ok
    split at ok
    · cases ok
    · simp only [ChunkedChanges.next, done, if_true] at ok
      cases ok
      rfl

/-- Readable rows split into readable rows. -/
private theorem readable_split {rows taken : List Change} {rest : List (Except RowError Change)}
    (split : rows.map .ok = taken.map .ok ++ rest) : ∃ left, rest = left.map .ok ∧ rows = taken ++ left := by
  obtain ⟨_, left, rfl, sameTaken, sameRest⟩ := map_eq_append_iff.mp split
  have injective : Function.Injective (Except.ok : Change → Except RowError Change) := fun a b same => by
    cases same
    rfl
  exact ⟨left, sameRest.symm, by rw [map_injective_iff.mpr injective sameTaken]⟩

section
variable {rows : List Change} (at_ : At chunked start stop rows) (ordered : Ordered actorId version start stop rows)
include at_ ordered

/-- What a call of `next` gives when all rows can be read: the rest of the range with all
that is left, or a piece with the rows up to its end. -/
theorem next_ordered :
    (chunked.next.1 = some (.ok (ChunkedChanges.gathered rows, ⟨start, stop⟩)) ∧ chunked.next.2.done = true) ∨
    ∃ taken final rest, rows = taken ++ [final] ++ rest ∧ rest ≠ [] ∧
      chunked.next.1 = some (.ok (ChunkedChanges.gathered (taken ++ [final]), ⟨start, final.seq⟩)) ∧
      At chunked.next.2 (final.seq + 1) stop rest := by
  have turn := ChunkedChanges.next_turn fun _ => at_.drained
  generalize chunked.next = result at turn
  cases turn with
  | spent done =>
    rw [at_.open_] at done
    cases done
  | failed taken rest e later split =>
    rw [at_.left] at split
    obtain ⟨left, unreadable, _⟩ := readable_split split
    cases left with
    | nil | cons first left => cases unreadable
  | last taken rest later split ended done =>
    rw [at_.left] at split
    obtain ⟨left, rfl, rfl⟩ := readable_split split
    have all : left = [] := by
      rcases ended with none_ | ⟨change, listed, reached⟩
      · simpa using none_
      · -- rows are ascending and end at `stop`, so nothing follows the one that reaches it
        refine eq_nil_iff_forall_not_mem.mpr fun later inLeft => ?_
        have above := (pairwise_append.mp ordered.sorted).2.2 change listed later inLeft
        have below := (ordered.within later (by simp [inLeft])).2
        rw [at_.stop] at reached
        omega
    subst all
    left
    rw [at_.start, at_.stop, append_nil]
    exact ⟨rfl, done⟩
  | chunk taken final rest later split more left drained open_ starts stops =>
    rw [at_.left] at split
    obtain ⟨remaining, rfl, rfl⟩ := readable_split split
    right
    refine ⟨taken, final, remaining, rfl, fun none_ => more (by simp [none_]), by rw [at_.start], ?_⟩
    exact ⟨left, drained, open_, starts, stops.trans at_.stop⟩

/-- Chunks tile their range: together they tell what the whole selection does, unless it
is the whole version without a row. -/
theorem sendLoop_shows (enough : rows.length < fuel)
    (worth : ¬ (rows = [] ∧ start = 0 ∧ stop = lastSeq))
    (ok : sendLoop env actorId version lastSeq ts fuel chunked serving = .ok after) (fact : Fact) :
    Shows actorId after.sent fact ↔ Shows actorId serving.sent fact ∨ Tells version ⟨start, stop⟩ rows fact := by
  induction fuel generalizing chunked serving start rows with
  | zero => simp at enough
  | succ fuel ih =>
    have turn := @sendLoop_turn env actorId version lastSeq fuel ts serving chunked
    rw [ok] at turn
    generalize result : Except.ok after = r at turn
    cases turn with
    | halted e | timedOut changes seqs e chunk => cases result
    | ended silent =>
      rcases next_ordered at_ ordered with ⟨chunk, _⟩ | ⟨_, _, _, _, _, chunk, _⟩
      · exact absurd chunk (silent _)
      · exact absurd chunk (silent _)
    | skipped changes seqs chunk nothing =>
      obtain ⟨noRow, fromZero, toEnd⟩ := nothing
      rcases next_ordered at_ ordered with ⟨isChunk, _⟩ | ⟨taken, last, rest, _, _, isChunk, _⟩
      · rw [isChunk] at chunk
        cases chunk
        rw [ChunkedChanges.gathered_isEmpty] at noRow
        exact absurd ⟨by simpa using noRow, fromZero, toEnd⟩ worth
      · rw [isChunk] at chunk
        cases chunk
        rw [ChunkedChanges.gathered_isEmpty] at noRow
        simp at noRow
    | more changes seqs size chunk =>
      rcases next_ordered at_ ordered with ⟨isChunk, done⟩ | ⟨taken, last, rest, rfl, some_, isChunk, next⟩
      · rw [isChunk] at chunk
        cases chunk
        have resized : (chunked.next.2.setMaxBufSize size).done = true := done
        rw [sendLoop_done resized result.symm, shows_sentChunk]
        cases fact <;> simp only [Tells, mem_rows_own ordered.own]
      · rw [isChunk] at chunk
        cases chunk
        obtain ⟨_, sortedRest, between⟩ := pairwise_append.mp ordered.sorted
        have later : Ordered actorId version (last.seq + 1) stop rest :=
          ⟨sortedRest, fun change listed => ⟨between last (by simp) change listed,
            (ordered.within change (by simp [listed])).2⟩, fun change listed => ordered.own change (by simp [listed])⟩
        have resized : At (chunked.next.2.setMaxBufSize size) (last.seq + 1) stop rest :=
          ⟨next.left, next.drained, next.open_, next.start, next.stop⟩
        simp only [length_append, length_singleton] at enough
        rw [ih resized later (by omega) (fun none_ => some_ none_.1) result.symm, shows_sentChunk, or_assoc]
        refine or_congr_right ?_
        have inside := ordered.within last (by simp)
        cases fact with
        | covered own seq =>
          simp only [Tells, RangeInclusive.mem_mk]
          omega
        | carried change =>
          simp only [Tells, mem_rows_own fun change listed => ordered.own change (mem_append_left _ listed), mem_append]

end

/-- Every statement that runs delivers all its rows. -/
def Readable (env : ServeEnv) : Prop := ∀ count row, env.statement count ≠ some (.unreadable row)

/-- The rows of one selection: different seqs of one version, inside the range. -/
structure Selection (actorId : ActorId) (version : Nat) (range : CrsqlSeqRange) (rows : List StoredChange) : Prop where
  distinct : (rows.map (fun row => row.change.seq)).Nodup
  within : ∀ row ∈ rows, row.change.seq ∈ range
  own : ∀ row ∈ rows, row.change.siteId = actorId ∧ row.change.dbVersion = version

variable {rows : List StoredChange}

theorem Selection.ordered (selection : Selection actorId version range rows) :
    Ordered actorId version range.start range.stop ((bySeq rows).map change) where
  sorted := by
    have ascending : (bySeq rows).Pairwise (fun a b => a.change.seq ≤ b.change.seq) := pairwise_insertionSort _ _
    have different : (bySeq rows).Pairwise (fun a b => a.change.seq ≠ b.change.seq) := by
      have perm := (perm_insertionSort (fun a b : StoredChange => a.change.seq ≤ b.change.seq) rows).map
        (fun row => row.change.seq)
      exact pairwise_map.mp (perm.nodup_iff.mpr selection.distinct)
    exact pairwise_map.mpr (ascending.imp₂ (fun a b le ne => lt_of_le_of_ne le ne) different)
  within := by
    intro change listed
    obtain ⟨row, held, rfl⟩ := mem_map.mp listed
    exact selection.within row (mem_bySeq.mp held)
  own := by
    intro change listed
    obtain ⟨row, held, rfl⟩ := mem_map.mp listed
    exact selection.own row (mem_bySeq.mp held)

theorem sendRows_shows (readable : Readable env) (selection : Selection actorId version range rows)
    (worth : ¬ (rows = [] ∧ range.start = 0 ∧ range.stop = lastSeq))
    (ok : sendRows env serving rows actorId version range lastSeq ts = .ok after) (fact : Fact) :
    Shows actorId after.sent fact ↔ Shows actorId serving.sent fact ∨ Tells version range (rows.map change) fact := by
  obtain ⟨⟨running, iter⟩, isQuery, ok⟩ := bind_ok ok
  have opened : running.sent = serving.sent ∧ iter = ((bySeq rows).map change).map .ok := by
    rw [Serving.query] at isQuery
    split at isQuery
    · cases isQuery
      exact ⟨rfl, rfl⟩
    · cases isQuery
    · rename_i row isUnreadable
      exact absurd isUnreadable (readable _ _)
  obtain ⟨sameSent, rfl⟩ := opened
  have worthy : ¬ ((bySeq rows).map change = [] ∧ range.start = 0 ∧ range.stop = lastSeq) := by
    rintro ⟨none_, whole⟩
    refine worth ⟨eq_nil_iff_forall_not_mem.mpr fun row held => ?_, whole⟩
    have : row ∈ bySeq rows := mem_bySeq.mpr held
    rw [map_eq_nil_iff.mp none_] at this
    cases this
  have at_ : At (.new (((bySeq rows).map change).map .ok) range.start range.stop maxChangesByteSize)
      range.start range.stop ((bySeq rows).map change) := ⟨rfl, rfl, rfl, rfl, rfl⟩
  rw [sendLoop_shows at_ selection.ordered (by simp [ChunkedChanges.new]) worthy ok fact, sameSent]
  refine or_congr_right ?_
  cases fact with
  | covered _ _ => rfl
  | carried change => simp [Tells]

section
variable {engine : CrSqlite} {db : Database engine} {versions : CrsqlDbVersionRange} {seqs : List CrsqlSeqRange}

/-- What the chunks rely on: the stored rows of a version have different seqs, and its
buffered rows are not above the last seq recorded. -/
structure Sane (db : Database engine) (actorId : ActorId) : Prop where
  distinct : ∀ version, ((db.storedRows actorId version).map (fun row => row.change.seq)).Nodup
  below : ∀ version, ∀ row ∈ db.seqRows actorId version, ∀ stored ∈ db.bufferedRows actorId version,
    stored.change.seq ≤ row.lastSeq

theorem selection_stored (sane : Sane db actorId) {range : CrsqlSeqRange}
    (within : ∀ row ∈ db.storedRows actorId version, row.change.seq ∈ range) :
    Selection actorId version range (db.storedRows actorId version) where
  distinct := sane.distinct version
  within := within
  own := fun _ listed => (mem_versionRows.mp listed).2

theorem selection_between (distinct : (rows.map (fun row => row.change.seq)).Nodup)
    (own : ∀ row ∈ rows, row.change.siteId = actorId ∧ row.change.dbVersion = version) :
    Selection actorId version range (seqsBetween rows range) where
  distinct := List.Nodup.sublist (List.Sublist.map _ List.filter_sublist) distinct
  within := fun _ listed => (mem_seqsBetween.mp listed).2
  own := fun row listed => own row (mem_seqsBetween.mp listed).1

/-- Rows with different keys have, within a version, different seqs. -/
theorem versionRows_distinct (distinct : (rows.map key).Nodup) :
    ((versionRows rows actorId version).map (fun row => row.change.seq)).Nodup := by
  have keys : (versionRows rows actorId version).Pairwise (fun a b => a.key ≠ b.key) :=
    (pairwise_map.mp distinct).filter _
  refine pairwise_map.mpr (keys.imp_of_mem fun {a b} inA inB different same => different ?_)
  obtain ⟨_, siteA, versionA⟩ := mem_versionRows.mp inA
  obtain ⟨_, siteB, versionB⟩ := mem_versionRows.mp inB
  rw [key, key, siteA, siteB, versionA, versionB, same]

/-- What a `Full` need is told. -/
def FullTells (db : Database engine) (actorId : ActorId) (versions : CrsqlDbVersionRange) (fact : Fact) : Prop :=
  (∃ version ∈ versions, ∃ last ts, versionInfo (db.storedRows actorId version) = (some last, some ts) ∧
    Tells version ⟨0, last⟩ ((db.storedRows actorId version).map StoredChange.change) fact) ∨
  (∃ version ∈ versions, db.storedRows actorId version = [] ∧ db.isBuffered actorId version = true ∧
    ∃ row ∈ db.seqRows actorId version,
      Tells version row.range ((seqsBetween (db.bufferedRows actorId version) row.range).map StoredChange.change) fact)

/-- What a `Partial` need is told. -/
def PartialTells (db : Database engine) (actorId : ActorId) (version : Nat) (seqs : List CrsqlSeqRange)
    (fact : Fact) : Prop :=
  (db.storedRows actorId version ≠ [] ∧ ∃ range ∈ seqs,
    Tells version range ((seqsBetween (db.storedRows actorId version) range).map StoredChange.change) fact) ∨
  (db.storedRows actorId version = [] ∧ db.isBuffered actorId version = true ∧ ∃ range ∈ seqs,
    ∃ row ∈ db.seqRows actorId version, seqRowMatches row range = true ∧ Tells version (clamp range row.range)
      ((seqsBetween (db.bufferedRows actorId version) (clamp range row.range)).map StoredChange.change) fact)

section
variable (readable : Readable env) (sane : Sane db actorId)
include readable sane

section
variable {last : Nat} (isInfo : versionInfo (db.storedRows actorId version) = (some last, some ts))
include isInfo

theorem serveStored_shows (ok : serveStored env db actorId serving (version, last, ts) = .ok after) (fact : Fact) :
    Shows actorId after.sent fact ↔ Shows actorId serving.sent fact ∨
      Tells version ⟨0, last⟩ ((db.storedRows actorId version).map change) fact := by
  obtain ⟨_, isRunning, ok⟩ := bind_ok ok
  obtain ⟨⟨row, listed, _⟩, bound⟩ := @versionInfo_last _ last (by rw [isInfo])
  rw [sendRows_shows readable (selection_stored sane fun row listed => ⟨Nat.zero_le _, bound row listed⟩)
    (fun none_ => ne_nil_of_mem listed none_.1) ok fact, statement_ok isRunning]

theorem serveStoredRange_shows (ok : serveStoredRange env db actorId version last ts serving range = .ok after)
    (fact : Fact) :
    Shows actorId after.sent fact ↔ Shows actorId serving.sent fact ∨
      Tells version range ((seqsBetween (db.storedRows actorId version) range).map change) fact := by
  obtain ⟨⟨row, listed, isLast⟩, _⟩ := @versionInfo_last _ last (by rw [isInfo])
  refine sendRows_shows readable (selection_between (sane.distinct version)
    fun _ listed => (mem_versionRows.mp listed).2) ?_ ok fact
  rintro ⟨none_, start, stop⟩
  have inside := mem_seqsBetween.mpr ⟨listed, by rw [start]; exact Nat.zero_le _, by rw [stop, isLast]⟩
  exact ne_nil_of_mem inside none_

end

theorem serveSeqRow_shows
    {within : CrsqlSeqRange → CrsqlSeqRange} (listed : row ∈ db.seqRows actorId version)
    (buffered : db.isBuffered actorId version = true)
    (ok : serveSeqRow env db actorId version within serving row = .ok after) (fact : Fact) :
    Shows actorId after.sent fact ↔ Shows actorId serving.sent fact ∨ Tells version (within row.range)
      ((seqsBetween (db.bufferedRows actorId version) (within row.range)).map change) fact := by
  refine sendRows_shows readable (selection_between (versionRows_distinct db.buffered.distinct)
    fun _ listed => (mem_versionRows.mp listed).2) ?_ ok fact
  rintro ⟨none_, start, stop⟩
  -- a range that is the whole version has every buffered row in it
  have some_ : db.bufferedRows actorId version ≠ [] := by
    simpa [Database.isBuffered] using buffered
  obtain ⟨stored, held⟩ := exists_mem_of_ne_nil _ some_
  have inside := mem_seqsBetween.mpr
    ⟨held, by rw [start]; exact Nat.zero_le _, by rw [stop]; exact sane.below version row listed stored held⟩
  exact ne_nil_of_mem inside none_

theorem serveUnprocessed_shows (ok : serveUnprocessed env db actorId serving version = .ok after) (fact : Fact) :
    Shows actorId after.sent fact ↔ Shows actorId serving.sent fact ∨ (db.isBuffered actorId version = true ∧
      ∃ row ∈ db.seqRows actorId version, Tells version row.range
        ((seqsBetween (db.bufferedRows actorId version) row.range).map change) fact) := by
  obtain ⟨running, isRunning, ok⟩ := bind_ok ok
  obtain rfl := statement_ok isRunning
  split at ok
  · rename_i notBuffered
    cases ok
    simp only [Bool.not_eq_true'] at notBuffered
    simp [notBuffered]
  · rename_i isBuffered
    have buffered : db.isBuffered actorId version = true := by simpa using isBuffered
    obtain ⟨running, isRunning, ok⟩ := bind_ok ok
    obtain rfl := statement_ok isRunning
    rw [foldlM_adds (fun (state : Serving) => Shows actorId state.sent) _
      (fun row listed state next turn => serveSeqRow_shows readable sane listed buffered turn) ok fact]
    simp [buffered, id]

theorem serveFull_shows (ok : serveFull env db actorId serving versions = .ok after) (fact : Fact) :
    Shows actorId after.sent fact ↔ Shows actorId serving.sent fact ∨ FullTells db actorId versions fact := by
  obtain ⟨_, isServed, ok⟩ := bind_ok ok
  obtain ⟨_, isRunning, ok⟩ := bind_ok ok
  obtain rfl := statement_ok isRunning
  have stored := foldlM_adds (fun (state : Serving) => Shows actorId state.sent)
    (fun row fact => Tells row.1 ⟨0, row.2.1⟩ ((db.storedRows actorId row.1).map change) fact)
    (fun row listed state next turn => serveStored_shows readable sane (mem_storedVersions.mp listed).2 turn)
    isServed fact
  rw [foldlM_adds (fun (state : Serving) => Shows actorId state.sent) _
    (fun version _ state next turn => serveUnprocessed_shows readable sane turn) ok fact, stored, or_assoc]
  refine or_congr_right (or_congr ?_ ?_)
  · simp [mem_storedVersions, Database.storedRows, and_assoc, exists_and_left]
  · simp only [RangeInclusiveSet.mem_toList, mem_unprocessedVersions, Database.storedRows, and_assoc]

theorem serveBufferedRange_shows (buffered : db.isBuffered actorId version = true)
    (ok : serveBufferedRange env db actorId version serving range = .ok after) (fact : Fact) :
    Shows actorId after.sent fact ↔ Shows actorId serving.sent fact ∨ ∃ row ∈ db.seqRows actorId version,
      seqRowMatches row range = true ∧ Tells version (clamp range row.range)
        ((seqsBetween (db.bufferedRows actorId version) (clamp range row.range)).map change) fact := by
  obtain ⟨_, isRunning, ok⟩ := bind_ok ok
  obtain rfl := statement_ok isRunning
  rw [foldlM_adds (fun (state : Serving) => Shows actorId state.sent) _
    (fun row listed state next turn =>
      serveSeqRow_shows readable sane (mem_of_mem_filter listed) buffered turn) ok fact]
  simp [and_assoc]

theorem servePartial_shows (ok : servePartial env db actorId serving version seqs = .ok after) (fact : Fact) :
    Shows actorId after.sent fact ↔ Shows actorId serving.sent fact ∨ PartialTells db actorId version seqs fact := by
  obtain ⟨running, isRunning, answered⟩ := bind_ok ok
  obtain rfl := statement_ok isRunning
  rw [PartialTells]
  split at answered
  · rename_i found last ts rest isStored
    obtain ⟨same, isInfo⟩ := mem_storedVersions.mp (isStored ▸ mem_cons_self)
    obtain rfl : found = version := by simpa using same
    have some_ : db.storedRows actorId found ≠ [] := fun none_ => by
      rw [Database.storedRows, ← storedVersions_single_nil, isStored] at none_
      cases none_
    rw [foldlM_adds (fun (state : Serving) => Shows actorId state.sent) _
      (fun range _ state next turn => serveStoredRange_shows readable sane isInfo turn) answered fact]
    simp [some_, or_false]
  · rename_i isStored
    have none_ : db.storedRows actorId version = [] := storedVersions_single_nil.mp isStored
    obtain ⟨running, isRunning, answered⟩ := bind_ok answered
    simp only [none_, ne_eq, not_true_eq_false, false_and, true_and, false_or]
    split at answered
    · rename_i buffered
      rw [foldlM_adds (fun (state : Serving) => Shows actorId state.sent) _
        (fun range _ state next turn => serveBufferedRange_shows readable sane buffered turn) answered fact,
          markEmpty_sent, statement_ok isRunning]
      simp [buffered]
    · rename_i notBuffered
      cases answered
      rw [markEmpty_sent, statement_ok isRunning]
      simp [notBuffered, or_false]

/-- What a need is told by chunks. -/
def NeedTells (db : Database engine) (actorId : ActorId) : SyncNeedV1 → Fact → Prop
  | .full versions => FullTells db actorId versions
  | .partialVersion version seqs => PartialTells db actorId version seqs
  | .empty _ => fun _ => False

theorem handleNeed_shows (ok : handleNeed env db actorId need = .ok after) (fact : Fact) :
    Shows actorId after.sent fact ↔ NeedTells db actorId need fact := by
  obtain ⟨served, isServed, messages⟩ := handleNeed_ok ok
  have same : Shows actorId after.sent fact ↔ Shows actorId served.sent fact := by
    cases fact with
    | covered version _ =>
      simp only [Shows, messages, or_and_right, exists_or, or_iff_left_iff_imp]
      rintro ⟨message, ⟨range, _, rfl⟩, _, _, seqs, isSeqs, _⟩
      cases isSeqs
    | carried _ =>
      simp only [Shows, messages, or_and_right, exists_or, or_iff_left_iff_imp]
      rintro ⟨message, ⟨range, _, rfl⟩, _, isParts, _⟩
      cases isParts
  have nothing : ¬ Shows actorId ({ Serving.start with statements := 1 } : Serving).sent fact := by
    cases fact <;> simp [Shows, Serving.start]
  rw [same]
  cases need with
  | full _ => rw [serveFull_shows readable sane isServed fact, or_iff_right nothing, NeedTells]
  | partialVersion version seqs =>
    rw [servePartial_shows readable sane isServed fact, or_iff_right nothing, NeedTells]
  | empty ts =>
    cases isServed
    simp only [nothing, NeedTells]

end

end

end Galvanize.ReplyContents
