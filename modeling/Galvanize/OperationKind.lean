import Galvanize.CaptureAtomicity

/-! Whether a changed row is journalled as a deletion. cr-sqlite writes the
sentinel column when a row is deleted, and also when it is inserted with nothing
but its key or after a deletion; the capture takes every sentinel for a deletion,
where `handle_candidates` of `corro-types/src/updates.rs` asks for the parity of
the causal length. -/
namespace Galvanize.HighLow
open List

/-! ### What cr-sqlite reports of a version -/

/-- The changes of one version: those of one row carry its causal length, and a
row that is gone has lost its cells. -/
structure Reported (changes : List Change) : Prop where
  sameLength : ∀ change ∈ changes, ∀ other ∈ changes,
    change.table = other.table → change.pk = other.pk → change.cl = other.cl
  emptied : ∀ change ∈ changes, change.cl % 2 = 0 → change.cid = sentinel

inductive ChangeType where
  | update
  | delete
deriving DecidableEq

/-- The kind of a change in `handle_candidates`. -/
def changeType (cl : Int) : ChangeType := if cl % 2 = 0 then .delete else .update

/-- The row is gone after the transaction, by the changes captured of it. -/
def Deleted (changes : List Change) : Prop := ∃ change ∈ changes, changeType change.cl = .delete

/-- The sentinel is among the changes of a row only if the row is gone. -/
def SentinelDeletes (changes : List Change) : Prop :=
  ∀ change ∈ changes, change.cid = sentinel → changeType change.cl = .delete

theorem changeType_iff {cl : Int} : changeType cl = .delete ↔ cl % 2 = 0 := by simp [changeType]

/-! ### The kind of an event -/

section Kind
variable {codec : Codec} {low : LowConfig} {written : WrittenVersion} {sequence : Int}
  {group : (String × List UInt8) × List Change}

theorem operation_captureEvent :
    (captureEvent codec low written sequence group).operation = .delete ↔
      ∃ change ∈ group.2, change.cid = sentinel := by
  simp only [captureEvent, any_eq_true, decide_eq_true_eq]
  split
  case isTrue found => exact ⟨fun _ => found, fun _ => rfl⟩
  case isFalse none =>
    constructor
    · intro upsert
      cases upsert
    · exact fun found => absurd found none

theorem kind_iff (same : ∀ change ∈ group.2, ∀ other ∈ group.2, change.cl = other.cl)
    (emptied : ∀ change ∈ group.2, change.cl % 2 = 0 → change.cid = sentinel) :
    ((captureEvent codec low written sequence group).operation = .delete ↔ Deleted group.2) ↔
      SentinelDeletes group.2 := by
  rw [operation_captureEvent]
  constructor
  · intro right change listed isSentinel
    obtain ⟨other, otherListed, gone⟩ := right.mp ⟨change, listed, isSentinel⟩
    rwa [same change listed other otherListed]
  · intro deletes
    constructor
    · rintro ⟨change, listed, isSentinel⟩
      exact ⟨change, listed, deletes change listed isSentinel⟩
    · rintro ⟨change, listed, gone⟩
      exact ⟨change, listed, emptied change listed (changeType_iff.mp gone)⟩

end Kind

/-! ### The events of a transaction -/

section Transactions
variable {codec : Codec} {low : LowConfig} {before : List JournalRow} {tx next : LowTx}

/-- A row of the journal was there before, or is the event of a changed row. -/
def Sourced (codec : Codec) (low : LowConfig) (before : List JournalRow) (tx : LowTx) : Prop :=
  ∀ row ∈ tx.journal, row ∈ before ∨ ∃ changed ∈ changedRows tx.written,
    row.event = captureEvent codec low changed.1 row.sequence changed.2

theorem mem_journalRows {sequence : Int} {rows : List (WrittenVersion × (String × List UInt8) × List Change)}
    {row : JournalRow} (listed : row ∈ journalRows codec low sequence rows) :
    ∃ changed ∈ rows, row.event = captureEvent codec low changed.1 row.sequence changed.2 := by
  induction rows generalizing sequence with
  | nil => cases listed
  | cons changed rows ih =>
    rcases mem_cons.mp listed with rfl | later
    · exact ⟨changed, mem_cons_self, rfl⟩
    · obtain ⟨other, member, same⟩ := ih later
      exact ⟨other, mem_cons_of_mem _ member, same⟩

theorem sourced_captured (faults : CaptureFaults) (written : WrittenVersion) (sourced : Sourced codec low before tx) :
    Sourced codec low before (captured codec low faults written tx) := by
  obtain ⟨_, -, journalled, -⟩ := @captureEvents_spec codec low faults written tx.journal
  intro row listed
  rw [captured, journalled, mem_append] at listed
  rw [captured, changedRows_append]
  rcases listed with old | new
  · rcases sourced row old with held | ⟨changed, member, same⟩
    · exact .inl held
    · exact .inr ⟨changed, mem_append_left _ member, same⟩
  · obtain ⟨changed, member, same⟩ := mem_journalRows new
    obtain ⟨group, taken, rfl⟩ := mem_map.mp member
    refine .inr ⟨_, mem_append_right _ ?_, same⟩
    simp only [changedRows, flatMap_singleton, mem_map]
    exact ⟨group, mem_of_mem_take taken, rfl⟩

theorem sourced_processVersion (version : RemoteVersion) (sourced : Sourced codec low before tx)
    (done : processVersion codec low tx version = .ok next) : Sourced codec low before next := by
  rw [processVersion_eq] at done
  split at done
  · split at done <;> cases done
    exact sourced
  · cases done
    exact sourced_captured _ _ sourced

theorem sourced_run (transaction : LowTransaction) (sourced : Sourced codec low before tx)
    (done : transaction.run codec low tx = .ok next) : Sourced codec low before next := by
  cases transaction with
  | localWrite _ =>
    obtain ⟨middle, inserted, rest⟩ := bind_ok done
    obtain ⟨-, same⟩ := unit_bind_ok.mp rest
    cases same
    obtain ⟨-, rest⟩ := unit_bind_ok.mp inserted
    split at rest
    · cases rest
      exact sourced
    · obtain ⟨-, same⟩ := unit_bind_ok.mp rest
      cases same
      exact sourced_captured _ _ sourced
  | remote _ =>
    obtain ⟨middle, versions, rest⟩ := bind_ok done
    obtain ⟨-, rest⟩ := unit_bind_ok.mp rest
    obtain ⟨-, same⟩ := unit_bind_ok.mp rest
    cases same
    exact foldlM_invariant (Sourced codec low before) sourced
      (fun version _ _ _ kept step => sourced_processVersion version kept step) versions
  | buffered version =>
    obtain ⟨-, rest⟩ := unit_bind_ok.mp done
    obtain ⟨middle, inserted, rest⟩ := bind_ok rest
    obtain ⟨-, rest⟩ := unit_bind_ok.mp rest
    obtain ⟨-, same⟩ := unit_bind_ok.mp rest
    cases same
    rw [insertBuffered] at inserted
    split at inserted
    · obtain ⟨-, same⟩ := unit_bind_ok.mp inserted
      cases same
      exact sourced_captured _ _ sourced
    · cases inserted
      exact sourced
  | bufferedChunk chunk =>
    obtain ⟨-, rest⟩ := unit_bind_ok.mp done
    obtain ⟨-, rest⟩ := unit_bind_ok.mp rest
    obtain ⟨-, same⟩ := unit_bind_ok.mp rest
    cases same
    intro row listed
    rcases sourced row listed with held | ⟨changed, member, same⟩
    · exact .inl held
    · rw [changedRows_append]
      exact .inr ⟨changed, mem_append_left _ member, same⟩

theorem sourced_outcome (transaction : LowTransaction) (journal : List JournalRow) :
    ∀ row ∈ (transaction.outcome codec low journal).journal, row ∈ journal ∨
      ∃ changed ∈ changedRows (transaction.outcome codec low journal).written,
        row.event = captureEvent codec low changed.1 row.sequence changed.2 := by
  rw [LowTransaction.outcome]
  cases done : transaction.run codec low ⟨journal, []⟩ with
  | error _ => exact fun row listed => .inl listed
  | ok tx => exact sourced_run transaction (fun row listed => .inl listed) done

/-- The group of a changed row, as the version has it. -/
theorem group_of_changed {versions : List WrittenVersion}
    {changed : WrittenVersion × (String × List UInt8) × List Change}
    (member : changed ∈ changedRows versions) : changed.1 ∈ versions ∧
      ∀ change ∈ changed.2.2, change ∈ changed.1.changes ∧ changed.2.1 = (change.table, change.pk) := by
  obtain ⟨_, listed, inVersion⟩ := mem_flatMap.mp member
  obtain ⟨⟨key, _⟩, grouped, rfl⟩ := mem_map.mp inVersion
  have same := mem_entries grouped
  refine ⟨listed, fun change isHeld => ?_⟩
  rw [same, mem_filter, mem_filter] at isHeld
  exact ⟨isHeld.1.1, by simpa [belongsTo] using isHeld.2⟩

/-- For every transaction on Low: what it journals are the events of the rows it
changes, and the event of a changed row is a deletion exactly if the row is gone,
if and only if the sentinel is not among the changes of a row that is there. -/
theorem operation_kind_iff (codec : Codec) (low : LowConfig) (transaction : LowTransaction) (journal : List JournalRow)
    (reported : ∀ version ∈ (transaction.outcome codec low journal).written, Reported version.changes) :
    (∀ row ∈ (transaction.outcome codec low journal).journal, row ∈ journal ∨
      ∃ changed ∈ changedRows (transaction.outcome codec low journal).written,
        row.event = captureEvent codec low changed.1 row.sequence changed.2) ∧
    ∀ changed ∈ changedRows (transaction.outcome codec low journal).written, ∀ sequence,
      ((captureEvent codec low changed.1 sequence changed.2).operation = .delete ↔ Deleted changed.2.2) ↔
        SentinelDeletes changed.2.2 := by
  refine ⟨sourced_outcome transaction journal, fun changed member sequence => ?_⟩
  obtain ⟨listed, own⟩ := group_of_changed member
  have laws := reported changed.1 listed
  apply kind_iff
  · intro change held other otherHeld
    have same := (own change held).2.symm.trans (own other otherHeld).2
    rw [Prod.mk.injEq] at same
    exact laws.sameLength change (own change held).1 other (own other otherHeld).1 same.1 same.2
  · exact fun change held => laws.emptied change (own change held).1

end Transactions

/-! ### Rows that are there -/

/-- A local write of some changes in which nothing fails. -/
def smoothWrite (changes : List Change) : LowTransaction :=
  .localWrite ⟨⟨1, 1, changes, 0⟩, false, false, ⟨false, false, false, fun _ => false⟩, false⟩

/-- A user given a name. -/
def userNamed : List Change := [⟨"users", [1, 9, 1], "name", .integer 1, 1, 1, 0, 1, 1⟩]

theorem user_named_kind : Reported userNamed ∧
    ∀ changed ∈ changedRows ((smoothWrite userNamed).outcome plainCodec usersLow []).written, ∀ sequence,
      ((captureEvent plainCodec usersLow changed.1 sequence changed.2).operation = .delete ↔ Deleted changed.2.2) ↔
        SentinelDeletes changed.2.2 := by
  have reported : Reported userNamed := ⟨by decide, by decide⟩
  refine ⟨reported, (operation_kind_iff plainCodec usersLow (smoothWrite userNamed) [] ?_).2⟩
  intro _ listed
  cases mem_singleton.mp listed
  exact reported

/-- A tag, which is nothing but its key, inserted: its one change is the sentinel. -/
def tagInserted : List Change := [⟨"tags", [1, 9, 1], sentinel, .null, 1, 1, 0, 1, 1⟩]

/-- A user deleted and inserted again in one transaction: the causal length is
odd again, and the sentinel comes with the name. -/
def userReplaced : List Change :=
  [⟨"users", [1, 9, 1], sentinel, .null, 3, 2, 0, 1, 3⟩, ⟨"users", [1, 9, 1], "name", .integer 1, 1, 2, 1, 1, 3⟩]

/-- Both are what cr-sqlite reports of a row that is there, and both are
journalled as deletions. -/
theorem insert_captured_as_delete :
    (Reported tagInserted ∧ ¬ Deleted tagInserted ∧
      ((smoothWrite tagInserted).outcome plainCodec usersLow []).journal.map (fun row => row.event.operation) =
        [.delete]) ∧
    (Reported userReplaced ∧ ¬ Deleted userReplaced ∧
      ((smoothWrite userReplaced).outcome plainCodec usersLow []).journal.map (fun row => row.event.operation) =
        [.delete]) := by
  refine ⟨⟨⟨by decide, by decide⟩, ?_, by decide⟩, ⟨by decide, by decide⟩, ?_, by decide⟩ <;> unfold Deleted <;> decide

end Galvanize.HighLow
