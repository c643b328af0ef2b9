import Galvanize.BufferedPaths
import Galvanize.CaptureAtomicity
import Galvanize.ProcessProofs

/-! The two paths of a buffered version leave the same tables and bookkeeping, and
differ in what they tell others: only the single transaction writes the journal of
a Low node and wakes subscriptions. -/
namespace Galvanize
open List

/-! ### Windows of rows -/

section Rows
variable {rows : List StoredChange}

/-- `ORDER BY seq`. -/
def SeqLe (a b : StoredChange) : Prop := a.change.seq ≤ b.change.seq

theorem sorted_bySeq : (bySeq rows).Pairwise SeqLe :=
  List.pairwise_insertionSort (fun a b : StoredChange => a.change.seq ≤ b.change.seq) rows

theorem isEmpty_bySeq : (bySeq rows).isEmpty = rows.isEmpty := by
  have perm := perm_insertionSort (fun a b : StoredChange => a.change.seq ≤ b.change.seq) rows
  exact perm.isEmpty_eq

theorem orderedInsert_least (least : ∀ other ∈ rows, SeqLe row other) :
    rows.orderedInsert (fun a b => a.change.seq ≤ b.change.seq) row = row :: rows := by
  cases rows with
  | nil => rfl
  | cons other rows => exact orderedInsert_cons_of_le _ _ (least other mem_cons_self)

theorem filter_orderedInsert (sorted : rows.Pairwise SeqLe) :
    (rows.orderedInsert (fun a b => a.change.seq ≤ b.change.seq) row).filter keep =
      if keep row then (rows.filter keep).orderedInsert (fun a b => a.change.seq ≤ b.change.seq) row
      else rows.filter keep := by
  induction rows with
  | nil => cases kept : keep row <;> simp [kept]
  | cons first rows ih =>
    obtain ⟨above, sorted⟩ := pairwise_cons.mp sorted
    by_cases least : row.change.seq ≤ first.change.seq
    · have all : ∀ other ∈ first :: rows, SeqLe row other := by
        intro other member
        rcases mem_cons.mp member with rfl | later
        · exact least
        · exact Nat.le_trans least (above other later)
      rw [orderedInsert_least all, filter_cons]
      cases keep row with
      | false => rfl
      | true => exact (orderedInsert_least fun other member => all other (mem_of_mem_filter member)).symm
    · have further := orderedInsert_of_not_le (fun a b : StoredChange => a.change.seq ≤ b.change.seq) rows least
      rw [further, filter_cons, ih sorted, filter_cons]
      cases keep first with
      | false => rfl
      | true =>
        cases keep row with
        | false => rfl
        | true => exact (orderedInsert_of_not_le (fun a b : StoredChange => a.change.seq ≤ b.change.seq) _ least).symm

theorem filter_bySeq (keep : StoredChange → Bool) (rows : List StoredChange) :
    bySeq (rows.filter keep) = (bySeq rows).filter keep := by
  induction rows with
  | nil => rfl
  | cons row rows ih =>
    have inserted : bySeq (row :: rows) = (bySeq rows).orderedInsert (fun a b => a.change.seq ≤ b.change.seq) row := rfl
    rw [inserted, filter_orderedInsert sorted_bySeq, ← ih, filter_cons]
    cases keep row with
    | false => rfl
    | true => rfl

/-- A window, and what is after it. -/
theorem window_append {first last : Nat} (sorted : rows.Pairwise SeqLe) (start : first ≤ last + 1) :
    rows.filter (fun row => first ≤ row.change.seq && row.change.seq ≤ last) ++
        rows.filter (fun row => last + 1 ≤ row.change.seq) = rows.filter fun row => first ≤ row.change.seq := by
  induction rows with
  | nil => rfl
  | cons row rows ih =>
    obtain ⟨above, sorted⟩ := pairwise_cons.mp sorted
    have tail := ih sorted
    by_cases early : row.change.seq ≤ last
    · by_cases inside : first ≤ row.change.seq
      · rw [filter_cons_of_pos (by simp [inside, early]), filter_cons_of_neg (by simp; omega),
          filter_cons_of_pos (by simpa using inside), cons_append, tail]
      · rw [filter_cons_of_neg (by simp [inside]), filter_cons_of_neg (by simp; omega),
          filter_cons_of_neg (by simpa using inside), tail]
    · have none : rows.filter (fun row => first ≤ row.change.seq && row.change.seq ≤ last) = [] := by
        rw [filter_eq_nil_iff]
        intro other member
        have later : row.change.seq ≤ other.change.seq := above other member
        simp only [Bool.and_eq_true, decide_eq_true_eq, not_and]
        omega
      rw [none] at tail
      rw [filter_cons_of_neg (by simp [early]), none, filter_cons_of_pos (by simp; omega),
        filter_cons_of_pos (by simp; omega), nil_append]
      exact congrArg _ tail

end Rows

/-- Changes may be inserted part by part. -/
structure CrSqlite.InsertsInParts (engine : CrSqlite) : Prop where
  insert_nil : ∀ store, engine.insertChanges store [] = (store, [])
  insert_append : ∀ store first second,
    engine.insertChanges store (first ++ second) =
      ((engine.insertChanges (engine.insertChanges store first).1 second).1,
        (engine.insertChanges store first).2 ++ (engine.insertChanges (engine.insertChanges store first).1 second).2)

namespace BufferedPaths
open HighLow

variable {engine : CrSqlite} {env : Env} {actorId : ActorId} {version : Nat} {state : State engine} {node : Node engine}

/-! ### The loop -/

/-- The rows of the version up to its `last_seq`: those the windows come to. -/
def rowsUpTo (actorId : ActorId) (version lastSeq : Nat) (db : Database engine) : List StoredChange :=
  (bySeq (versionRows db.buffered.rows actorId version)).filter fun row => row.change.seq ≤ lastSeq

/-- The rows of the version above its `last_seq`. -/
def rowsAbove (actorId : ActorId) (version lastSeq : Nat) (db : Database engine) : List StoredChange :=
  (bySeq (versionRows db.buffered.rows actorId version)).filter fun row => lastSeq + 1 ≤ row.change.seq

theorem rowsUpTo_append_rowsAbove (lastSeq : Nat) (db : Database engine) :
    rowsUpTo actorId version lastSeq db ++ rowsAbove actorId version lastSeq db =
      bySeq (versionRows db.buffered.rows actorId version) := by
  have split := @window_append _ 0 lastSeq (@sorted_bySeq (versionRows db.buffered.rows actorId version))
    (Nat.zero_le _)
  simp only [Nat.zero_le, decide_true, Bool.true_and, filter_true] at split
  exact split

/-- A window inserts rows that `rowsUpTo` has. -/
theorem insertBufferedRange_eq {first last lastSeq : Nat} (bounded : last ≤ lastSeq) (db : Database engine) :
    insertBufferedRange actorId version db first last =
      let rows := (rowsUpTo actorId version lastSeq db).filter fun row =>
        first ≤ row.change.seq && row.change.seq ≤ last
      ((engine.insertChanges db.crsql rows).1, (engine.insertChanges db.crsql rows).2.countP id) := by
  have same : (rowsUpTo actorId version lastSeq db).filter (fun row =>
        first ≤ row.change.seq && row.change.seq ≤ last) =
      (bySeq (versionRows db.buffered.rows actorId version)).filter fun row =>
        first ≤ row.change.seq && row.change.seq ≤ last := by
    rw [rowsUpTo, filter_filter]
    apply List.filter_congr
    intro row _
    by_cases inside : row.change.seq ≤ last
    · rw [decide_eq_true (inside.trans bounded), Bool.and_true]
    · rw [decide_eq_false inside, Bool.and_false, Bool.false_and]
  rw [insertBufferedRange, filter_bySeq, same]

/-- All windows from `chunkStart` on insert what one insertion of the rest does. -/
theorem applyChunks_eq (parts : engine.InsertsInParts) {chunkSize lastSeq fuel chunkStart total : Nat}
    {booked : BookedVersions} {tables : BookieTables}
    (finished : finishVersion actorId version node = .ok (booked, tables)) (left : chunkStart ≤ lastSeq)
    (enough : lastSeq < chunkStart + fuel) :
    applyChunks actorId version chunkSize lastSeq fuel chunkStart total node =
      let inserted := engine.insertChanges node.db.crsql ((rowsUpTo actorId version lastSeq node.db).filter
        fun row => chunkStart ≤ row.change.seq)
      some (.ok (total + inserted.2.countP id),
        ⟨{ node.db with crsql := inserted.1, tables }, node.bookie.insert actorId booked⟩) := by
  induction fuel generalizing chunkStart total node with
  | zero => omega
  | succ fuel ih =>
    have bounded : min (chunkStart + (chunkSize - 1)) lastSeq ≤ lastSeq := by omega
    rw [applyChunks, insertBufferedRange_eq bounded]
    dsimp only
    split
    · rename_i last
      have all : (rowsUpTo actorId version lastSeq node.db).filter (fun row =>
          chunkStart ≤ row.change.seq && row.change.seq ≤ min (chunkStart + (chunkSize - 1)) lastSeq) =
          (rowsUpTo actorId version lastSeq node.db).filter fun row => chunkStart ≤ row.change.seq := by
        apply List.filter_congr
        intro row member
        rw [last, (mem_filter.mp member).2, Bool.and_true]
      rw [all, finished]
    · rename_i more
      have split := @window_append _ chunkStart (min (chunkStart + (chunkSize - 1)) lastSeq)
        ((@sorted_bySeq (versionRows node.db.buffered.rows actorId version)).filter
          fun row => row.change.seq ≤ lastSeq) (by omega)
      rw [ih (by exact finished) (by omega) (by omega)]
      change some _ = some _
      rw [rowsUpTo, ← split, parts.insert_append, List.countP_append]
      dsimp only
      rw [Nat.add_assoc]
      rfl

/-! ### What is written to the journal and sent to handles -/

/-- A Low node captures a version exactly if it has rows of user tables. -/
theorem capture_eq_iff (crsql : engine.Store) (journal : List JournalRow) :
    capture env actorId version crsql journal = journal ↔
      env.low = none ∨ (tablePkGroups (versionChanges actorId version crsql)).entries = [] := by
  unfold capture
  cases env.low with
  | none => simp
  | some low =>
    obtain ⟨_, -, rows, smooth⟩ := @captureEvents_spec env.codec low ⟨false, false, false, fun _ => false⟩
      ⟨actorId, version, versionChanges actorId version crsql, env.nowMs⟩ journal
    have all := smooth.mpr (.inr ⟨rfl, rfl, rfl, fun _ _ => rfl⟩)
    dsimp only
    rw [rows, append_right_eq_self, ← length_eq_zero_iff, length_journalRows, length_map, all,
      take_length, length_eq_zero_iff]
    simp

/-- The messages that carry candidates. -/
def heard (notices : List (Nat × MatchCandidates)) : List (Nat × MatchCandidates) :=
  notices.filter fun notice => !notice.2.entries.isEmpty

theorem heard_append (first second : List (Nat × MatchCandidates)) :
    heard (first ++ second) = heard first ++ heard second := by
  rw [heard, filter_append]
  rfl

theorem heard_matchChanges_eq_nil :
    heard (matchChanges handles changes) = [] ↔ ∀ entry ∈ handles, (entry.2.candidates changes).entries = [] := by
  simp only [heard, matchChanges, List.filter_eq_nil_iff, List.forall_mem_map, Bool.not_eq_true', Bool.not_eq_false,
    List.isEmpty_iff]

/-! ### The two paths -/

/-- What a version inserts. -/
def inserted (actorId : ActorId) (version : Nat) (db : Database engine) : engine.Store × List Bool :=
  engine.insertChanges db.crsql (bySeq (versionRows db.buffered.rows actorId version))

/-- What the windows of a version insert. -/
def insertedUpTo (actorId : ActorId) (version lastSeq : Nat) (db : Database engine) : engine.Store × List Bool :=
  engine.insertChanges db.crsql (rowsUpTo actorId version lastSeq db)

theorem inserted_eq (parts : engine.InsertsInParts) (lastSeq : Nat) (db : Database engine) :
    (inserted actorId version db).1 =
      (engine.insertChanges (insertedUpTo actorId version lastSeq db).1 (rowsAbove actorId version lastSeq db)).1 := by
  rw [inserted, ← rowsUpTo_append_rowsAbove lastSeq, parts.insert_append]
  rfl

/-- Nobody but the database is concerned with the version, and all of the version lies
up to its `last_seq`: a row buffered above it changes nothing, the version is not
captured, and no handle has a candidate among its changes. -/
structure Quiet (env : Env) (actorId : ActorId) (version lastSeq : Nat) (db : Database engine) : Prop where
  bounded :
    (engine.insertChanges (insertedUpTo actorId version lastSeq db).1 (rowsAbove actorId version lastSeq db)).1 =
    (insertedUpTo actorId version lastSeq db).1
  uncaptured : env.low = none ∨ versionRows db.buffered.rows actorId version = [] ∨
    (tablePkGroups (versionChanges actorId version (inserted actorId version db).1)).entries = []
  unheard : (inserted actorId version db).2.any id = false ∨
    ∀ entry ∈ env.subs ++ env.updates,
      (entry.2.candidates (versionChanges actorId version (inserted actorId version db).1)).entries = []

/-- What one transaction does to a version that is complete. -/
theorem processFullyBufferedChanges_ok (parts : engine.InsertsInParts) {held : PartialVersion}
    (known : ((ensureActor actorId state.node).bookie.ensure actorId).partials[version]? = some held)
    (complete : held.isComplete = true)
    (done : processFullyBufferedChanges env actorId version state = (.ok impacted, one)) :
    ∃ booked tables, finishVersion actorId version (ensureActor actorId state.node) = .ok (booked, tables) ∧
      impacted = (inserted actorId version state.node.db).2.any id ∧
      one.node = ⟨{ state.node.db with crsql := (inserted actorId version state.node.db).1, tables },
        (ensureActor actorId state.node).bookie.insert actorId booked⟩ ∧
      one.clearBuf = state.clearBuf ++ [(actorId, version)] ∧
      one.journal = (if (versionRows state.node.db.buffered.rows actorId version).isEmpty then state.journal
        else capture env actorId version (inserted actorId version state.node.db).1 state.journal) ∧
      one.notices = state.notices ++
        if impacted then
          matchChanges (env.subs ++ env.updates)
            (versionChanges actorId version (inserted actorId version state.node.db).1)
        else [] := by
  rw [processFullyBufferedChanges] at done
  rw [known] at done
  dsimp only at done
  rw [complete] at done
  have same : (if (bySeq (versionRows (ensureActor actorId state.node).db.buffered.rows actorId version)).isEmpty = true
      then ((ensureActor actorId state.node).db.crsql, [])
      else engine.insertChanges (ensureActor actorId state.node).db.crsql
        (bySeq (versionRows (ensureActor actorId state.node).db.buffered.rows actorId version))) =
      inserted actorId version state.node.db := by
    split
    · rename_i empty
      have none : bySeq (versionRows state.node.db.buffered.rows actorId version) = [] := List.isEmpty_iff.mp empty
      rw [inserted, none, parts.insert_nil]
      rfl
    · rfl
  rw [if_neg (by decide), same] at done
  cases finished : finishVersion actorId version (ensureActor actorId state.node) with
  | error error =>
    rw [finished] at done
    cases done
  | ok written =>
    obtain ⟨booked, tables⟩ := written
    rw [finished] at done
    cases done
    refine ⟨booked, tables, rfl, rfl, rfl, rfl, ?_, ?_⟩
    · exact congrArg (fun empty : Bool => if empty then _ else _) isEmpty_bySeq
    · simp only [matchChanges, List.map_append]

/-- A complete version that one transaction applies is applied in windows of any size.
Tables and bookkeeping, the journal and what handles hear are the same exactly if
no row above `last_seq` changes anything and the version concerns neither. -/
theorem chunked_application_iff (env : Env) (parts : engine.InsertsInParts) (state one : State engine)
    (actorId : ActorId) (version chunkSize : Nat) (held : PartialVersion) (impacted : Bool)
    (known : (state.node.bookie.ensure actorId).partials[version]? = some held) (complete : held.isComplete = true)
    (done : processFullyBufferedChanges env actorId version state = (.ok impacted, one)) :
    ∃ total many, applyBufferedVersionInChunks actorId version chunkSize state = some (.ok (some total), many) ∧
      many.clearBuf = one.clearBuf ∧
      ((many.node = one.node ∧ many.journal = one.journal ∧ heard many.notices = heard one.notices) ↔
        Quiet env actorId version held.lastSeq state.node.db) := by
  have ensured : ((ensureActor actorId state.node).bookie.ensure actorId).partials[version]? = some held := by
    rw [ensureActor, ProcessProofs.ensure_insertIfNew]
    exact known
  obtain ⟨booked, tables, finished, rfl, nodeIs, clearIs, journalIs, noticesIs⟩ :=
    processFullyBufferedChanges_ok parts ensured complete done
  have loop := @applyChunks_eq _ _ _ (ensureActor actorId state.node) parts (max chunkSize 1) held.lastSeq
    (held.lastSeq + 1) 0 0 booked tables finished (by omega) (by omega)
  have all : (rowsUpTo actorId version held.lastSeq (ensureActor actorId state.node).db).filter
      (fun row => 0 ≤ row.change.seq) = rowsUpTo actorId version held.lastSeq state.node.db := by
    apply List.filter_eq_self.mpr
    intro row _
    exact decide_eq_true (Nat.zero_le _)
  rw [all] at loop
  have ran : applyBufferedVersionInChunks actorId version chunkSize state =
      some (.ok (some (0 + (insertedUpTo actorId version held.lastSeq state.node.db).2.countP id)),
        { state with
          node := ⟨{ state.node.db with crsql := (insertedUpTo actorId version held.lastSeq state.node.db).1, tables },
            (ensureActor actorId state.node).bookie.insert actorId booked⟩
          clearBuf := state.clearBuf ++ [(actorId, version)] }) := by
    rw [applyBufferedVersionInChunks]
    rw [ensured]
    dsimp only
    rw [complete, if_neg (by decide), loop]
    rfl
  refine ⟨_, _, ran, clearIs.symm, ?_⟩
  rw [nodeIs, journalIs, noticesIs, heard_append, List.self_eq_append_right]
  have tablesSame :
    (⟨{ state.node.db with crsql := (insertedUpTo actorId version held.lastSeq state.node.db).1, tables },
        (ensureActor actorId state.node).bookie.insert actorId booked⟩ : Node engine) =
      ⟨{ state.node.db with crsql := (inserted actorId version state.node.db).1, tables },
        (ensureActor actorId state.node).bookie.insert actorId booked⟩ ↔
      (engine.insertChanges (insertedUpTo actorId version held.lastSeq state.node.db).1
        (rowsAbove actorId version held.lastSeq state.node.db)).1 =
        (insertedUpTo actorId version held.lastSeq state.node.db).1 := by
    rw [inserted_eq parts held.lastSeq, eq_comm]
    simp
  have journal :
    (state.journal = if (versionRows state.node.db.buffered.rows actorId version).isEmpty then state.journal
        else capture env actorId version (inserted actorId version state.node.db).1 state.journal) ↔
      env.low = none ∨ versionRows state.node.db.buffered.rows actorId version = [] ∨
        (tablePkGroups (versionChanges actorId version (inserted actorId version state.node.db).1)).entries = [] := by
    by_cases empty : versionRows state.node.db.buffered.rows actorId version = []
    · simp [empty]
    · rw [if_neg (by rwa [List.isEmpty_iff]), eq_comm, capture_eq_iff]
      simp [empty]
  have notices : heard (if (inserted actorId version state.node.db).2.any id = true then
        matchChanges (env.subs ++ env.updates)
          (versionChanges actorId version (inserted actorId version state.node.db).1)
      else []) = [] ↔
      (inserted actorId version state.node.db).2.any id = false ∨ ∀ entry ∈ env.subs ++ env.updates,
        (entry.2.candidates (versionChanges actorId version (inserted actorId version state.node.db).1)).entries =
          [] := by
    cases (inserted actorId version state.node.db).2.any id with
    | false => simp [heard]
    | true => simp [heard_matchChanges_eq_nil]
  rw [tablesSame, journal, notices]
  exact ⟨fun all => ⟨all.1, all.2.1, all.2.2⟩, fun quiet => ⟨quiet.bounded, quiet.uncaptured, quiet.unheard⟩⟩

/-! ### Two users -/

theorem foldl_insertOne (rows : List StoredChange) (store : Lww.Store) (effects : List Bool) :
    rows.foldl Lww.insertOne (store, effects) =
      ((rows.foldl Lww.insertOne (store, [])).1, effects ++ (rows.foldl Lww.insertOne (store, [])).2) := by
  induction rows generalizing store effects with
  | nil => simp
  | cons row rows ih =>
    have turn : Lww.insertOne (store, effects) row =
        ((Lww.insertOne (store, []) row).1, effects ++ (Lww.insertOne (store, []) row).2) := rfl
    rw [foldl_cons, foldl_cons, turn]
    generalize Lww.insertOne (store, []) row = next
    obtain ⟨after, effect⟩ := next
    rw [ih after (effects ++ effect), ih after effect, append_assoc]

theorem insertsInParts_lww : Lww.engine.InsertsInParts where
  insert_nil := fun _ => rfl
  insert_append := by
    intro store first second
    change (first ++ second).foldl Lww.insertOne (store, []) = _
    rw [List.foldl_append, ← Prod.mk.eta (p := first.foldl Lww.insertOne (store, [])), foldl_insertOne]
    rfl

/-- The name of a user, at this position of a version of site 1. -/
def bufferedName (id : UInt8) (seq : Nat) :
    StoredChange := ⟨⟨"users", [1, 9, id], "name", .text "x", 1, 1, seq, 1, 1⟩, 5⟩

/-- Both names of a version are buffered. -/
def bufferedNames : State Lww.engine where
  node :=
    { db :=
        { crsql := Lww.empty
          tables := ∅
          buffered := ((∅ : Table StoredChange StoredChange.key).insertOrIgnore (bufferedName 1 0)).insertOrIgnore
            (bufferedName 2 1) }
      bookie := (∅ : Map ActorId BookedVersions).insert 1
        { BookedVersions.new 1 with
          partials := (∅ : Map Nat PartialVersion).insert 1 ⟨.ofRanges [⟨0, 1⟩], 1, 5⟩
          max := some 1 } }
  journal := []
  clearBuf := []
  notices := []

/-- A node without a link and without listeners. -/
def alone : Env := ⟨plainCodec, none, [], [], 0⟩

/-- Nobody listens: both ways end the same. -/
theorem names_applied_in_chunks :
    ∃ one total many, processFullyBufferedChanges alone 1 1 bufferedNames = (.ok true, one) ∧
      applyBufferedVersionInChunks 1 1 1 bufferedNames = some (.ok (some total), many) ∧ many.node = one.node ∧
      many.journal = one.journal ∧ heard many.notices = heard one.notices := by
  obtain ⟨total, many, chunked, -, told⟩ := chunked_application_iff alone insertsInParts_lww bufferedNames _ 1 1 1
    ⟨.ofRanges [⟨0, 1⟩], 1, 5⟩ true (by decide) (by decide) rfl
  have quiet : Quiet alone 1 1 1 bufferedNames.node.db := ⟨rfl, .inl rfl, .inr fun entry member => by cases member⟩
  obtain ⟨same, journal, notices⟩ := told.mpr quiet
  exact ⟨_, total, many, rfl, chunked, same, journal, notices⟩

/-- A Low node with a listener for the users. -/
def listening : Env := ⟨plainCodec, some usersLow, [], [(0, .updates "users")], 0⟩

/-- One transaction writes two events and tells the listener; two windows do neither. -/
theorem names_not_captured_in_chunks :
    ∃ one total many, processFullyBufferedChanges listening 1 1 bufferedNames = (.ok true, one) ∧
      applyBufferedVersionInChunks 1 1 1 bufferedNames = some (.ok (some total), many) ∧
      one.journal.length = 2 ∧ many.journal.length = 0 ∧
      (heard one.notices).length = 1 ∧ (heard many.notices).length = 0 := by
  refine ⟨_, _, _, rfl, rfl, ?_, ?_, ?_, ?_⟩
  · decide
  · decide
  · decide
  · decide

end BufferedPaths
end Galvanize
