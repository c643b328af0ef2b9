import Galvanize.RestartRecovery
import Galvanize.ServeProofs

/-! When a sync server declares a version empty. It infers that from the absence
of rows in three tables, not from the bookkeeping: a version above its maximum,
and a version it holds in part of which no row has come, look the same as one
that is known to be empty. -/
namespace Galvanize.EmptyReplies
open BookedVersions BookieProofs BookieMirror RestartRecovery ServeProofs SyncNeedProofs
open AcceptedChanges (freshNode cell whole)

variable {engine : CrSqlite} {node : Node engine} {actor : ActorId} {version : Nat} {need : SyncNeedV1}

/-- The database is consistent with the bookkeeping: the gap and seq rows mirror
it, stored rows belong to versions held whole, and buffered rows of a version
held in part to the seqs recorded for it. -/
structure Consistent (node : Node engine) : Prop where
  mirrored : Mirrored node.bookie node.db.tables
  lastSeqs : ∀ row ∈ node.db.tables.seqs, ∀ held,
    (node.bookie.ensure row.siteId).partials[row.dbVersion]? = some held → row.lastSeq = held.lastSeq
  nonempty : ∀ (actor : ActorId) (version : Nat) held, (node.bookie.ensure actor).partials[version]? = some held →
    ∃ seq, seq ∈ held.seqs
  bounded : ∀ row ∈ node.db.tables.seqs.rows, row.endSeq ≤ row.lastSeq
  stored : ∀ row ∈ engine.changes node.db.crsql, 1 ≤ row.change.dbVersion ∧
    (node.bookie.ensure row.change.siteId).containsVersion row.change.dbVersion = true ∧
      (node.bookie.ensure row.change.siteId).partials[row.change.dbVersion]?.isNone = true
  distinct : ((engine.changes node.db.crsql).map StoredChange.key).Nodup
  buffered : ∀ row ∈ node.db.buffered.rows,
    ∀ held ∈ (node.bookie.ensure row.change.siteId).partials[row.change.dbVersion]?, row.change.seq ∈ held.seqs

theorem consistent_of_recoverable (recoverable : Recoverable node)
    (bounded : ∀ row ∈ node.db.tables.seqs.rows, row.endSeq ≤ row.lastSeq)
    (stored : ∀ row ∈ engine.changes node.db.crsql, 1 ≤ row.change.dbVersion ∧
      (node.bookie.ensure row.change.siteId).containsVersion row.change.dbVersion = true ∧
        (node.bookie.ensure row.change.siteId).partials[row.change.dbVersion]?.isNone = true)
    (distinct : ((engine.changes node.db.crsql).map StoredChange.key).Nodup) (buffered : ∀ row ∈ node.db.buffered.rows,
      ∀ held ∈ (node.bookie.ensure row.change.siteId).partials[row.change.dbVersion]?, row.change.seq ∈ held.seqs) :
    Consistent node where
  mirrored := recoverable.mirrored
  lastSeqs := fun row stored held is => (recoverable.rows row stored held is).1
  nonempty := recoverable.nonempty
  bounded := bounded
  stored := stored
  distinct := distinct
  buffered := buffered

namespace Consistent

section
variable (consistent : Consistent node)
include consistent

theorem inGaps_iff : node.db.inGaps actor version = true ↔ version ∈ (node.bookie.ensure actor).needed := by
  simp only [Database.inGaps, List.any_eq_true, decide_eq_true_eq]
  constructor
  · rintro ⟨row, stored, rfl, inside⟩
    exact ⟨row.range, (consistent.mirrored.gaps row).mp stored, inside⟩
  · rintro ⟨r, held, inside⟩
    exact ⟨⟨actor, r.start, r.stop⟩, (consistent.mirrored.gaps ⟨actor, r.start, r.stop⟩).mpr held, rfl, inside⟩

/-- The seq rows of a version are the ranges recorded for it. -/
theorem seqRow_iff : (∃ row ∈ node.db.seqRows actor version, row.range = r) ↔
      ∃ held, (node.bookie.ensure actor).partials[version]? = some held ∧ r ∈ held.seqs.ranges := by
  have mirror := consistent.mirrored.seqs actor version r
  simp only [SeqRow.tuple, Prod.mk.injEq] at mirror
  have rows : (∃ row ∈ node.db.seqRows actor version, row.range = r) ↔
      r ∈ (seqsOf (node.bookie.ensure actor).partials[version]?).ranges := by
    rw [← mirror]
    constructor
    · rintro ⟨row, listed, rfl⟩
      obtain ⟨stored, own, same⟩ := mem_seqRows.mp listed
      exact ⟨row, stored, own, same, rfl, rfl⟩
    · rintro ⟨row, stored, own, same, start, stop⟩
      refine ⟨row, mem_seqRows.mpr ⟨stored, own, same⟩, ?_⟩
      rw [SeqRow.range, start, stop]
  rw [rows]
  cases (node.bookie.ensure actor).partials[version]? with
  | none | some held => simp [seqsOf]

theorem seqRows_nil_iff : node.db.seqRows actor version = [] ↔
    (node.bookie.ensure actor).partials[version]? = none := by
  constructor
  · intro none_
    cases is : (node.bookie.ensure actor).partials[version]? with
    | none => rfl
    | some held =>
      obtain ⟨seq, r, stored, _⟩ := consistent.nonempty actor version held is
      obtain ⟨row, listed, _⟩ := consistent.seqRow_iff.mpr ⟨held, is, stored⟩
      rw [none_] at listed
      cases listed
  · intro none_
    refine List.eq_nil_iff_forall_not_mem.mpr fun row listed => ?_
    obtain ⟨held, is, _⟩ := consistent.seqRow_iff.mp ⟨row, listed, rfl⟩
    rw [none_] at is
    cases is

/-- A version with stored rows is held whole. -/
theorem of_stored (some_ : node.db.storedRows actor version ≠ []) :
    Reaches (node.bookie.ensure actor).max version ∧ version ∉ (node.bookie.ensure actor).needed ∧
      (node.bookie.ensure actor).partials[version]? = none := by
  obtain ⟨row, listed⟩ := List.exists_mem_of_ne_nil _ some_
  obtain ⟨held, rfl, rfl⟩ := mem_versionRows.mp listed
  obtain ⟨_, contains, notPartial⟩ := consistent.stored row held
  obtain ⟨notNeeded, low⟩ := containsVersion_iff.mp contains
  refine ⟨?_, notNeeded, Option.isNone_iff_eq_none.mp notPartial⟩
  exact (le_getD_iff.mp low).resolve_left (by omega)

end

end Consistent

/-- What a server must know to call a version empty. -/
structure KnownEmpty (node : Node engine) (actor : ActorId) (version : Nat) : Prop where
  reached : Reaches (node.bookie.ensure actor).max version
  noGap : node.db.inGaps actor version = false
  noRow : node.db.storedRows actor version = []
  notPartial : node.db.seqRows actor version = []

/-- **Empty replies.** A consistent server declares only versions empty that it knows to
be, whatever happens while it serves, exactly when each version asked for is in a
gap, has a buffered row, or is at most its maximum and not held in part. -/
theorem empty_replies_known_iff (engine : CrSqlite) (node : Node engine) (consistent : Consistent node)
    (actor : ActorId) (need : SyncNeedV1) (valid : need.validate = .ok ()) :
    (∀ env version, DeclaresEmpty (answerNeed env node actor need) actor version → KnownEmpty node actor version) ↔
      (passesFilter node.bookie actor need = true → ∀ version, Mentions need version →
        version ∈ (node.bookie.ensure actor).needed ∨ node.db.isBuffered actor version = true ∨
          (Reaches (node.bookie.ensure actor).max version ∧ (node.bookie.ensure actor).partials[version]? = none)) := by
  constructor
  · intro known passes version mentioned
    by_cases needed : version ∈ (node.bookie.ensure actor).needed
    · exact .inl needed
    cases buffered : node.db.isBuffered actor version with
    | true => exact .inr (.inl rfl)
    | false =>
      have noGap : node.db.inGaps actor version = false :=
        Bool.eq_false_iff.mpr fun inGaps => needed (consistent.inGaps_iff.mp inGaps)
      by_cases stored : node.db.storedRows actor version = []
      · -- nothing in any table, so an undisturbed call declares the version
        obtain ⟨_, ok⟩ := @handleNeed_calm actor engine node.db need valid
        have declared : DeclaresEmpty (answerNeed .calm node actor need) actor version := by
          rw [answerNeed, if_pos passes, ok]
          exact (handleNeed_declares_iff ok).mpr ⟨mentioned, stored, buffered, noGap⟩
        have empty := known .calm version declared
        exact .inr (.inr ⟨empty.reached, consistent.seqRows_nil_iff.mp empty.notPartial⟩)
      · obtain ⟨reached, _, notPartial⟩ := consistent.of_stored stored
        exact .inr (.inr ⟨reached, notPartial⟩)
  · intro safe env version declared
    rw [answerNeed] at declared
    split at declared
    · rename_i passes
      obtain ⟨mentioned, noRow, notBuffered, noGap⟩ := handleNeed_declares declared
      rcases safe passes version mentioned with needed | buffered | ⟨reached, notPartial⟩
      · rw [consistent.inGaps_iff.mpr needed] at noGap
        cases noGap
      · rw [buffered] at notBuffered
        cases notBuffered
      · exact ⟨reached, noGap, noRow, consistent.seqRows_nil_iff.mpr notPartial⟩
    · obtain ⟨_, listed, _⟩ := declared
      cases listed

/-- A server that has version 1 of an actor and nothing after it. -/
def oneVersion : List (Faults × List ChangeV1) := [(.none, [whole])]

/-- A chunk of version 1 in which no row is left. -/
def rowlessChunk : List (Faults × List ChangeV1) := [(.none, [⟨1, .fullV2 1 1 ∅ 1 ⟨0, 0⟩ 5⟩])]

theorem consistent_oneVersion : Consistent (runBatches freshNode oneVersion) :=
  consistent_of_recoverable (recoverable_run Lww.tracksVersions (recoverable_fresh rfl) ⟨by decide, trivial⟩)
    (by decide) (by decide) (by decide) (by decide)

theorem consistent_rowlessChunk : Consistent (runBatches freshNode rowlessChunk) :=
  consistent_of_recoverable (recoverable_run Lww.tracksVersions (recoverable_fresh rfl) ⟨by decide, trivial⟩)
    (by decide) (by decide) (by decide) (by decide)

/-- A server on which version 2 has overwritten what version 1 wrote. -/
def secondVersion : Node Lww.engine := runBatches freshNode
  (oneVersion ++ [(.none, [⟨1, .full 2 [{ cell 2 0 with colVersion := 2 }] ⟨0, 0⟩ 0 6⟩])])

theorem consistent_secondVersion : Consistent secondVersion :=
  consistent_of_recoverable (recoverable_run Lww.tracksVersions (recoverable_fresh rfl) ⟨by decide, by decide, trivial⟩)
    (by decide) (by decide) (by decide) (by decide)

/-- Asked for both, the server declares the first one empty, and knows it to be. -/
theorem empty_reply_for_overwritten_version : Consistent secondVersion ∧
    DeclaresEmpty (answerNeed .calm secondVersion 1 (.full ⟨1, 2⟩)) 1 1 ∧ KnownEmpty secondVersion 1 1 := by
  have declared : DeclaresEmpty (answerNeed .calm secondVersion 1 (.full ⟨1, 2⟩)) 1 1 :=
    ⟨⟨1, .empty ⟨1, 1⟩ none⟩, by decide, rfl, ⟨1, 1⟩, none, rfl, by decide⟩
  refine ⟨consistent_secondVersion, declared, ?_⟩
  refine (empty_replies_known_iff _ _ consistent_secondVersion 1 (.full ⟨1, 2⟩) (by decide)).mpr ?_ .calm 1 declared
  rintro _ version ⟨_, high⟩
  refine .inr (.inr ⟨⟨2, by decide, high⟩, ?_⟩)
  rw [show (secondVersion.bookie.ensure 1).partials = ∅ by decide]
  rfl

/-- A range that straddles the maximum of the server, and a version held in part of
which no row has come: both are declared empty. -/
theorem unknown_versions_declared_empty : (Consistent (runBatches freshNode oneVersion) ∧
      passesFilter (runBatches freshNode oneVersion).bookie 1 (.full ⟨1, 2⟩) = true ∧
      ⟨1, .empty ⟨2, 2⟩ none⟩ ∈ answerNeed .calm (runBatches freshNode oneVersion) 1 (.full ⟨1, 2⟩) ∧
      ((runBatches freshNode oneVersion).bookie.ensure 1).max = some 1) ∧
    (Consistent (runBatches freshNode rowlessChunk) ∧
      passesFilter (runBatches freshNode rowlessChunk).bookie 1 (.full ⟨1, 1⟩) = true ∧
      ⟨1, .empty ⟨1, 1⟩ none⟩ ∈ answerNeed .calm (runBatches freshNode rowlessChunk) 1 (.full ⟨1, 1⟩) ∧
      (runBatches freshNode rowlessChunk).db.tables.seqs.rows = [⟨1, 1, 0, 0, 1, 5⟩]) :=
  ⟨⟨consistent_oneVersion, by decide, by decide, by decide⟩,
    consistent_rowlessChunk, by decide, by decide, by decide⟩

end Galvanize.EmptyReplies
