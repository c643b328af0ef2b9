import Galvanize.LowCapture

/-! What the journal gains from a transaction on Low. The capture writes its
events one statement at a time into the transaction of the change, and the
callers go on after a failure: the transaction is atomic with its events exactly
where the capture cannot fail in between. -/
namespace Galvanize.HighLow
open List LowTransaction

variable {codec : Codec} {low : LowConfig} {journal before : List JournalRow} {tx next : LowTx}

/-! ### What a transaction should add -/

/-- The changed rows of some versions. -/
def changedRows (written : List WrittenVersion) : List (WrittenVersion × (String × List UInt8) × List Change) :=
  written.flatMap fun version => (tablePkGroups version.changes).entries.map fun group => (version, group)

/-- The events of changed rows, numbered one after the other. -/
def journalRows (codec : Codec) (low : LowConfig) (sequence : Int) :
    List (WrittenVersion × (String × List UInt8) × List Change) → List JournalRow
  | [] => []
  | (version, group) :: rest =>
    ⟨low.streamId, sequence + 1, captureEvent codec low version (sequence + 1) group, false, version.nowMs⟩ ::
      journalRows codec low (sequence + 1) rest

@[simp] theorem length_journalRows (sequence : Int)
    (rows : List (WrittenVersion × (String × List UInt8) × List Change)) :
    (journalRows codec low sequence rows).length = rows.length := by
  induction rows generalizing sequence with
  | nil => rfl
  | cons _ rows ih => simp [journalRows, ih]

theorem journalRows_append (sequence : Int) (rows more : List (WrittenVersion × (String × List UInt8) × List Change)) :
    journalRows codec low sequence (rows ++ more) =
      journalRows codec low sequence rows ++ journalRows codec low (sequence + rows.length) more := by
  induction rows generalizing sequence with
  | nil => simp [journalRows]
  | cons _ rows ih =>
    have shift : sequence + 1 + (rows.length : Int) = sequence + ((rows.length : Int) + 1) := by omega
    simp [journalRows, ih, shift]

theorem changedRows_append (written more : List WrittenVersion) :
    changedRows (written ++ more) = changedRows written ++ changedRows more :=
  List.flatMap_append

/-! ### Groups -/

/-- The change is of the row. -/
def belongsTo (key : String × List UInt8) (change : Change) : Bool := key = (change.table, change.pk)

theorem get?_foldl_groups (changes : List Change) (groups : IndexMap (String × List UInt8) (List Change))
    (key : String × List UInt8) :
    (changes.foldl (fun groups change => groups.upsert (change.table, change.pk) fun held =>
      held.getD [] ++ [change]) groups).get? key =
      if changes.filter (belongsTo key) = [] then groups.get? key
      else some ((groups.get? key).getD [] ++ changes.filter (belongsTo key)) := by
  induction changes generalizing groups with
  | nil => rfl
  | cons change changes ih =>
    rw [foldl_cons, ih, IndexMap.get?_upsert]
    by_cases own : key = (change.table, change.pk)
    · have kept : (change :: changes).filter (belongsTo key) = change :: changes.filter (belongsTo key) :=
        filter_cons_of_pos (by simpa [belongsTo] using own)
      rw [if_pos own, kept, if_neg (cons_ne_nil _ _), ← own]
      split
      case isTrue none => rw [none]
      case isFalse => simp
    · have left : (change :: changes).filter (belongsTo key) = changes.filter (belongsTo key) :=
        filter_cons_of_neg (by simpa [belongsTo] using own)
      rw [if_neg own, left]

/-- The group of a row: the changes of a user's table that belong to it. -/
theorem mem_entries {changes held : List Change} {key : String × List UInt8}
    (listed : (key, held) ∈ (tablePkGroups changes).entries) :
    held = (changes.filter fun change => !isInternal change.table).filter (belongsTo key) := by
  rw [← IndexMap.get?_eq_some, tablePkGroups, get?_foldl_groups] at listed
  split at listed
  case isTrue => cases listed
  case isFalse =>
    cases listed
    rfl

/-! ### Sequence numbers -/

theorem largest_concat (numbers : List Int) (number : Int) (above : ∀ other ∈ largest numbers, other < number) :
    largest (numbers ++ [number]) = some number := by
  induction numbers with
  | nil => rfl
  | cons first numbers ih =>
    have low : first < number ∧ ∀ other ∈ largest numbers, other < number := by
      simp only [largest] at above
      cases rest : largest numbers with
      | none =>
        rw [rest] at above
        exact ⟨above first rfl, by simp⟩
      | some other =>
        rw [rest] at above
        have both := above _ rfl
        constructor
        · split at both <;> omega
        · intro _ same
          cases same
          split at both <;> omega
    rw [cons_append, largest, ih low.2]
    simp only [Option.some.injEq, ite_eq_right_iff]
    omega

theorem lastSequence_concat (row : JournalRow) (own : row.streamId = low.streamId)
    (next : row.sequence = lastSequence low.streamId journal + 1) :
    lastSequence low.streamId (journal ++ [row]) = row.sequence := by
  have kept : [row].filter (fun row => row.streamId = low.streamId) = [row] := by simp [own]
  rw [lastSequence, filter_append, kept, map_append, map_singleton, largest_concat]
  · rfl
  · intro _ found
    rw [next, lastSequence, Option.mem_def.mp found]
    simp only [Option.getD_some]
    omega

theorem lastSequence_journalRows (rows : List (WrittenVersion × (String × List UInt8) × List Change)) :
    lastSequence low.streamId (journal ++ journalRows codec low (lastSequence low.streamId journal) rows) =
      lastSequence low.streamId journal + rows.length := by
  induction rows generalizing journal with
  | nil => simp [journalRows]
  | cons row rows ih =>
    obtain ⟨version, group⟩ := row
    let row : JournalRow := ⟨low.streamId, lastSequence low.streamId journal + 1,
      captureEvent codec low version (lastSequence low.streamId journal + 1) group, false, version.nowMs⟩
    have first : lastSequence low.streamId (journal ++ [row]) = lastSequence low.streamId journal + 1 :=
      lastSequence_concat row rfl rfl
    have later := @ih (journal ++ [row])
    rw [first, append_assoc, singleton_append] at later
    rw [journalRows, later, length_cons]
    omega

/-! ### One capture -/

/-- The capture of a version does not fail, or has nothing to write. -/
def Harmless (faults : CaptureFaults) (written : WrittenVersion) : Prop :=
  (tablePkGroups written.changes).entries = [] ∨
  (faults.readFails = false ∧ faults.sequenceFails = false ∧ faults.prepareFails = false ∧
    ∀ position < (tablePkGroups written.changes).entries.length, faults.eventFails position = false)

theorem captureGroups_spec (faults : CaptureFaults) (written : WrittenVersion) (position : Nat) (sequence : Int)
    (groups : List ((String × List UInt8) × List Change)) (journal : List JournalRow) : ∃ count ≤ groups.length,
      (captureGroups codec low faults written position sequence groups journal).1 =
        journal ++ journalRows codec low sequence ((groups.take count).map fun group => (written, group)) ∧
      (count = groups.length ↔ ∀ index < groups.length, faults.eventFails (position + index) = false) := by
  induction groups generalizing position sequence journal with
  | nil => exact ⟨0, Nat.le_refl 0, by simp [captureGroups, journalRows], by simp⟩
  | cons group groups ih =>
    rw [captureGroups]
    split
    case isTrue fails =>
      refine ⟨0, by simp, by simp [journalRows], by simp, fun smooth => ?_⟩
      have first := smooth 0 (by simp)
      rw [Nat.add_zero, fails] at first
      cases first
    case isFalse works =>
      obtain ⟨count, within, written, all⟩ := ih (position + 1) (sequence + 1) _
      refine ⟨count + 1, Nat.succ_le_succ within, ?_, ?_⟩
      · rw [written]
        simp [journalRows, captureEvent]
      · simp only [length_cons, Nat.add_right_cancel_iff, all]
        constructor
        · intro later index small
          cases index with
          | zero => simpa using works
          | succ index =>
            rw [show position + (index + 1) = position + 1 + index by omega]
            exact later index (by omega)
        · intro smooth index small
          rw [show position + 1 + index = position + (index + 1) by omega]
          exact smooth (index + 1) (by omega)

theorem captureEvents_spec (faults : CaptureFaults) (written : WrittenVersion) (journal : List JournalRow) :
    ∃ count ≤ (tablePkGroups written.changes).entries.length, (captureEvents codec low faults written journal).1 =
        journal ++ journalRows codec low (lastSequence low.streamId journal)
          (((tablePkGroups written.changes).entries.take count).map fun group => (written, group)) ∧
      (count = (tablePkGroups written.changes).entries.length ↔ Harmless faults written) := by
  have nothing (unharmed : Harmless faults written → (tablePkGroups written.changes).entries = []) :
      ∃ count ≤ (tablePkGroups written.changes).entries.length,
        journal = journal ++ journalRows codec low (lastSequence low.streamId journal)
          (((tablePkGroups written.changes).entries.take count).map fun group => (written, group)) ∧
        (count = (tablePkGroups written.changes).entries.length ↔ Harmless faults written) := by
    refine ⟨0, Nat.zero_le _, by simp [journalRows], fun none => .inl ?_, fun harmless => ?_⟩
    · exact length_eq_zero_iff.mp none.symm
    · rw [unharmed harmless]
      rfl
  rw [captureEvents]
  by_cases reads : faults.readFails = true
  · rw [if_pos reads]
    apply nothing
    rintro (none | ⟨works, -⟩)
    · exact none
    · rw [reads] at works
      cases works
  rw [if_neg reads]
  by_cases none : (tablePkGroups written.changes).entries.isEmpty = true
  · simp only [none, if_true]
    exact nothing fun _ => isEmpty_iff.mp none
  simp only [none, Bool.false_eq_true, if_false]
  have some : (tablePkGroups written.changes).entries ≠ [] := fun empty => none (isEmpty_iff.mpr empty)
  by_cases prepares : (faults.sequenceFails || faults.prepareFails) = true
  · rw [if_pos prepares]
    apply nothing
    rintro (none | ⟨-, sequenceWorks, prepareWorks, -⟩)
    · exact none
    · rw [sequenceWorks, prepareWorks] at prepares
      cases prepares
  rw [if_neg prepares]
  obtain ⟨count, within, journalled, all⟩ := @captureGroups_spec codec low faults written 0
    (lastSequence low.streamId journal) (tablePkGroups written.changes).entries journal
  refine ⟨count, within, journalled, all.trans ⟨fun works => ?_, ?_⟩⟩
  · simp only [Bool.or_eq_true, not_or, Bool.not_eq_true] at reads prepares
    exact .inr ⟨reads, prepares.1, prepares.2, fun position small => by simpa using works position small⟩
  · rintro (none | ⟨-, -, -, works⟩)
    · exact absurd none some
    · intro index small
      rw [Nat.zero_add]
      exact works index small

/-! ### A transaction -/

/-- The journal of a transaction has the events of some of the changed rows, and
of all of them exactly if the captures were sound. -/
def Progress (codec : Codec) (low : LowConfig) (before : List JournalRow) (tx : LowTx) (sound : Prop) : Prop :=
  ∃ taken, tx.journal = before ++ journalRows codec low (lastSequence low.streamId before) taken ∧
    ((sound ∧ taken = changedRows tx.written) ∨ (¬ sound ∧ taken.length < (changedRows tx.written).length))

theorem progress_start : Progress codec low journal ⟨journal, []⟩ True :=
  ⟨[], by simp [journalRows], .inl ⟨trivial, rfl⟩⟩

theorem progress_captured {sound : Prop} (faults : CaptureFaults) (written : WrittenVersion)
    (progress : Progress codec low before tx sound) :
    Progress codec low before (captured codec low faults written tx) (sound ∧ Harmless faults written) := by
  obtain ⟨taken, journalled, extent⟩ := progress
  obtain ⟨count, _, more, all⟩ := @captureEvents_spec codec low faults written tx.journal
  have grown : changedRows (tx.written ++ [written]) = changedRows tx.written ++
      (tablePkGroups written.changes).entries.map fun group => (written, group) := by
    simp [changedRows]
  refine ⟨taken ++ ((tablePkGroups written.changes).entries.take count).map fun group => (written, group), ?_, ?_⟩
  · rw [captured, more, journalled, lastSequence_journalRows, journalRows_append, append_assoc]
  · simp only [captured, grown]
    rcases extent with ⟨held, rfl⟩ | ⟨lost, _⟩
    · by_cases whole : count = (tablePkGroups written.changes).entries.length
      · left
        refine ⟨⟨held, all.mp whole⟩, ?_⟩
        rw [whole, take_length]
      · right
        refine ⟨fun both => whole (all.mpr both.2), ?_⟩
        simp only [length_append, length_map, length_take]
        omega
    · right
      refine ⟨fun both => lost both.1, ?_⟩
      simp only [length_append, length_map, length_take]
      omega

/-- A version that is not captured loses the events of its changed rows, if it has any. -/
theorem progress_uncaptured {sound : Prop} (written : WrittenVersion) (progress : Progress codec low before tx sound) :
    Progress codec low before { tx with written := tx.written ++ [written] }
      (sound ∧ (tablePkGroups written.changes).entries = []) := by
  obtain ⟨taken, journalled, extent⟩ := progress
  have grown : (changedRows (tx.written ++ [written])).length =
      (changedRows tx.written).length + (tablePkGroups written.changes).entries.length := by
    simp [changedRows]
  refine ⟨taken, journalled, ?_⟩
  by_cases none : (tablePkGroups written.changes).entries = []
  · rcases extent with ⟨held, rfl⟩ | ⟨lost, short⟩
    · exact .inl ⟨⟨held, none⟩, by simp [changedRows, none]⟩
    · refine .inr ⟨fun both => lost both.1, ?_⟩
      dsimp only
      omega
  · have some := length_pos_iff.mpr none
    refine .inr ⟨fun both => none both.2, ?_⟩
    rcases extent with ⟨-, rfl⟩ | ⟨-, short⟩
    · dsimp only
      omega
    · dsimp only
      omega

theorem progress_congr {sound other : Prop} (same : sound ↔ other) (progress : Progress codec low before tx sound) :
    Progress codec low before tx other := propext same ▸ progress

/-- A version of a batch does not reach the end of its savepoint. -/
def RemoteVersion.fails (version : RemoteVersion) : Bool := version.insertFails || version.finishFails

theorem processVersion_eq (version : RemoteVersion) (tx : LowTx) : processVersion codec low tx version =
      if version.fails then if version.endsTransaction then .error .failed else .ok tx
      else .ok (captured codec low version.capture version.written tx) := by
  obtain ⟨written, insertFails, capture, finishFails, endsTransaction⟩ := version
  cases insertFails <;> cases finishFails <;> rfl

/-- The loop over the versions of a batch. -/
theorem foldlM_processVersion {sound : Prop} (versions : List RemoteVersion)
    (progress : Progress codec low before tx sound) : (versions.foldlM (processVersion codec low) tx = .error .failed ∧
      ∃ version ∈ versions, version.fails = true ∧ version.endsTransaction = true) ∨
    (∃ next, versions.foldlM (processVersion codec low) tx = .ok next ∧
      (¬ ∃ version ∈ versions, version.fails = true ∧ version.endsTransaction = true) ∧ Progress codec low before next
        (sound ∧ ∀ version ∈ versions, version.fails = true ∨ Harmless version.capture version.written)) := by
  induction versions generalizing tx sound with
  | nil => exact .inr ⟨tx, rfl, by simp, progress_congr (by simp) progress⟩
  | cons version versions ih =>
    rw [foldlM_cons, processVersion_eq]
    by_cases fails : version.fails = true
    · rw [if_pos fails]
      by_cases ends : version.endsTransaction = true
      · rw [if_pos ends]
        exact .inl ⟨rfl, version, mem_cons_self, fails, ends⟩
      · rw [if_neg ends]
        rcases ih progress with ⟨failed, later, member, both⟩ | ⟨next, works, none, reached⟩
        · exact .inl ⟨failed, later, mem_cons_of_mem version member, both⟩
        · refine .inr ⟨next, works, ?_, progress_congr ?_ reached⟩
          · simpa [ends] using none
          · simp [fails]
    · rw [if_neg fails]
      rcases ih (progress_captured version.capture version.written progress) with
        ⟨failed, later, member, both⟩ | ⟨next, works, none, reached⟩
      · exact .inl ⟨failed, later, mem_cons_of_mem version member, both⟩
      · refine .inr ⟨next, works, ?_, progress_congr ?_ reached⟩
        · simpa [fails] using none
        · simp [fails, and_assoc]

/-- The transaction fails as a whole, or no capture in it loses an event; a window of a
version that is applied in chunks must have no changed row to capture. -/
def LowTransaction.Unharmed : LowTransaction → Prop
  | .localWrite write =>
    write.queryFails = true ∨ write.insertDbFails = true ∨ write.commitFails = true ∨
      Harmless write.capture write.written
  | .remote batch =>
    batch.bookkeepingFails = true ∨ batch.commitFails = true ∨
      (∃ version ∈ batch.versions, version.fails = true ∧ version.endsTransaction = true) ∨
      ∀ version ∈ batch.versions, version.fails = true ∨ Harmless version.capture version.written
  | .buffered version =>
    version.rowsPresent = false ∨ version.selectFails = true ∨ version.insertFails = true ∨
      version.bookkeepingFails = true ∨ version.commitFails = true ∨ Harmless version.capture version.written
  | .bufferedChunk chunk =>
    chunk.insertFails = true ∨ chunk.bookkeepingFails = true ∨ chunk.commitFails = true ∨
      (tablePkGroups chunk.written.changes).entries = []

/-- What `run` of a transaction gives: it fails, or it gets to its commit. -/
def Runs (codec : Codec) (low : LowConfig) (before : List JournalRow) (result : Except LowFailure LowTx)
    (unharmed : Prop) : Prop :=
  (result = .error .failed ∧ unharmed) ∨ ∃ tx, result = .ok tx ∧ Progress codec low before tx unharmed

section Runs
variable {unharmed later : Prop} {fails : Bool}

theorem runs_congr (same : unharmed ↔ later) (runs : Runs codec low before result unharmed) :
    Runs codec low before result later := propext same ▸ runs

theorem runs_check {rest : Unit → Except LowFailure LowTx} (runs : Runs codec low before (rest ()) unharmed) :
    Runs codec low before (check fails >>= rest) (fails = true ∨ unharmed) := by
  cases fails with
  | true => exact .inl ⟨rfl, .inl rfl⟩
  | false => exact runs_congr (by simp) runs

theorem runs_bind {rest : LowTx → Except LowFailure LowTx} (runs : Runs codec low before result unharmed)
    (stays : unharmed → later) (goes : ∀ tx, Progress codec low before tx unharmed →
      Runs codec low before (rest tx) later) : Runs codec low before (result >>= rest) later := by
  rcases runs with ⟨rfl, held⟩ | ⟨tx, rfl, progress⟩
  · exact .inl ⟨rfl, stays held⟩
  · exact goes tx progress

theorem runs_insertLocalChanges (write : LocalWrite) :
    Runs codec low journal (insertLocalChanges codec low write ⟨journal, []⟩)
      (write.queryFails = true ∨ write.insertDbFails = true ∨ Harmless write.capture write.written) := by
  apply runs_check
  split
  case isTrue none =>
    have harmless : Harmless write.capture write.written := by
      left
      rw [isEmpty_iff.mp none]
      rfl
    exact .inr ⟨_, rfl, progress_congr (by simp [harmless]) progress_start⟩
  case isFalse =>
    apply runs_check
    exact .inr ⟨_, rfl, progress_congr (by simp) (progress_captured write.capture write.written progress_start)⟩

theorem runs_localWrite (write : LocalWrite) :
    Runs codec low journal (write.run codec low ⟨journal, []⟩) (localWrite write).Unharmed := by
  have runs : Runs codec low journal (write.run codec low ⟨journal, []⟩) (write.commitFails = true ∨
      write.queryFails = true ∨ write.insertDbFails = true ∨ Harmless write.capture write.written) := by
    apply runs_bind (runs_insertLocalChanges write) .inr
    intro tx progress
    apply runs_check
    exact .inr ⟨tx, rfl, progress⟩
  apply runs_congr _ runs
  rw [LowTransaction.Unharmed]
  tauto

theorem runs_remote (batch : RemoteBatch) :
    Runs codec low journal (batch.run codec low ⟨journal, []⟩) (remote batch).Unharmed := by
  have versions : Runs codec low journal (batch.versions.foldlM (processVersion codec low) ⟨journal, []⟩)
      ((∃ version ∈ batch.versions, version.fails = true ∧ version.endsTransaction = true) ∨
        ∀ version ∈ batch.versions, version.fails = true ∨ Harmless version.capture version.written) := by
    rcases foldlM_processVersion batch.versions (@progress_start codec low journal) with
      ⟨failed, ended⟩ | ⟨next, works, none, reached⟩
    · exact .inl ⟨failed, .inl ended⟩
    · exact .inr ⟨next, works, progress_congr (by simp [none]) reached⟩
  apply runs_bind versions (fun held => .inr (.inr held))
  intro tx progress
  apply runs_check
  apply runs_check
  exact .inr ⟨tx, rfl, progress⟩

theorem runs_insertBuffered (version : BufferedVersion) :
    Runs codec low journal (insertBuffered codec low version ⟨journal, []⟩)
      (version.rowsPresent = false ∨ version.insertFails = true ∨ Harmless version.capture version.written) := by
  rw [insertBuffered]
  split
  case isTrue present =>
    have inserted : Runs codec low journal (do
        check version.insertFails
        .ok (captured codec low version.capture version.written ⟨journal, []⟩))
        (version.insertFails = true ∨ True ∧ Harmless version.capture version.written) := by
      apply runs_check
      exact .inr ⟨_, rfl, progress_captured version.capture version.written progress_start⟩
    exact runs_congr (by simp [present]) inserted
  case isFalse absent => exact .inr ⟨_, rfl, progress_congr (by simp [absent]) progress_start⟩

theorem runs_buffered (version : BufferedVersion) :
    Runs codec low journal (version.run codec low ⟨journal, []⟩) (buffered version).Unharmed := by
  have runs : Runs codec low journal (version.run codec low ⟨journal, []⟩) (version.selectFails = true ∨
      version.bookkeepingFails = true ∨ version.commitFails = true ∨
      version.rowsPresent = false ∨ version.insertFails = true ∨ Harmless version.capture version.written) := by
    apply runs_check
    apply runs_bind (runs_insertBuffered version) (fun held => .inr (.inr held))
    intro tx progress
    apply runs_check
    apply runs_check
    exact .inr ⟨tx, rfl, progress⟩
  apply runs_congr _ runs
  rw [LowTransaction.Unharmed]
  tauto

theorem runs_bufferedChunk (chunk : BufferedChunk) :
    Runs codec low journal (chunk.run ⟨journal, []⟩) (bufferedChunk chunk).Unharmed := by
  apply runs_check
  apply runs_check
  apply runs_check
  exact .inr ⟨_, rfl, progress_congr (by simp) (progress_uncaptured chunk.written progress_start)⟩

theorem runs_transaction (transaction : LowTransaction) :
    Runs codec low journal (transaction.run codec low ⟨journal, []⟩) transaction.Unharmed := by
  cases transaction with
  | localWrite write => exact runs_localWrite write
  | remote batch => exact runs_remote batch
  | buffered version => exact runs_buffered version
  | bufferedChunk chunk => exact runs_bufferedChunk chunk

end Runs

/-- Whatever becomes of a transaction, the journal gains numbered events at its
end, or nothing. -/
theorem outcome_journal (transaction : LowTransaction) : ∃ taken, (transaction.outcome codec low journal).journal =
      journal ++ journalRows codec low (lastSequence low.streamId journal) taken := by
  rw [outcome]
  rcases @runs_transaction codec low journal transaction with ⟨failed, -⟩ | ⟨tx, works, taken, journalled, -⟩
  · rw [failed]
    exact ⟨[], by simp [journalRows]⟩
  · rw [works]
    exact ⟨taken, journalled⟩

/-- The changes of a cell. -/
def cellChange (pk : List UInt8) (seq : Nat) : Change := ⟨"users", pk, "name", .integer 1, 1, 1, seq, 1, 1⟩

def usersLow : LowConfig := ⟨"low", fun _ => some ["id"], fun _ => "\uFFFD"⟩

/-- A local write of two rows. The `INSERT` of the second event fails. -/
def twoUsers : LocalWrite where
  written := ⟨1, 1, [cellChange [1, 9, 1] 0, cellChange [1, 9, 2] 1], 0⟩
  queryFails := false
  insertDbFails := false
  capture := ⟨false, false, false, fun position => position = 1⟩
  commitFails := false

end Galvanize.HighLow
