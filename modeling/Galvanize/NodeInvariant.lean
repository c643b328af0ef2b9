import Galvanize.NodeSteps
import Galvanize.ProcessProofs
import Galvanize.Reload

/-! What the steps of a node do to the bookkeeping of each actor, said once:
outside of a restart it moves in one of three ways, and a restart reads it back
from the tables. From that, what holds in every state a node can reach. -/
namespace Galvanize.NodeInvariant
open BookedVersions BookieProofs BookieMirror ProcessProofs Reload

variable {engine : CrSqlite} {node : Node engine} {self actor : ActorId} {bv after : BookedVersions}
  {version : Nat}

/-- One move of an actor's bookkeeping. -/
inductive Moves (bv : BookedVersions) : BookedVersions → Prop where
  /-- a batch: the entries processed for the actor, perhaps none -/
  | batch (processed : List Processed) (proper : ∀ entry ∈ processed, entry.1.start ≤ entry.1.stop) :
      Moves bv (bv.computeAndApply processed).1
  /-- a local version -/
  | inserted (versions : RangeInclusiveSet) : Moves bv (bv.computeAndApplyGaps versions).1
  /-- a partial version that has been applied -/
  | applied (versions : RangeInclusiveSet) :
      Moves bv ((bv.computeAndApplyGaps versions).1.computeAndApplyClearPartials versions).1

theorem Moves.rest : Moves bv bv := by
  have same : bv = (bv.computeAndApply []).1 := by rw [computeAndApply_nil]
  exact same ▸ .batch [] (by simp)

private theorem moves_changes :
    Moves (node.bookie.ensure actor) ((processMultipleChanges faults node changes).1.bookie.ensure actor) := by
  cases result : processMultipleChanges faults node changes with
  | mk _ outcome =>
    cases outcome with
    | error error =>
      rw [processMultipleChanges_error result actor]
      exact .rest
    | ok outcome =>
      obtain ⟨processed, handles, moved⟩ := processMultipleChanges_actor result actor
      rw [moved]
      refine .batch processed fun entry listed => ?_
      obtain ⟨_, _, unknown, rfl, _⟩ := handles_entries handles listed
      exact proper_of_unknown unknown

variable {written : BookedVersions × BookieTables} {tables : BookieTables}

theorem executeChanges_ok (ok : bv.executeChanges changes tables = .ok written) : written.1 = bv := by
  unfold executeChanges at ok
  split at ok <;> cases ok
  rfl

theorem insertDb_ok {versions : RangeInclusiveSet} (ok : bv.insertDb tables versions = .ok written) :
    written.1 = (bv.computeAndApplyGaps versions).1 := by
  exact executeChanges_ok ok

theorem clearPartials_ok {versions : RangeInclusiveSet} (ok : bv.clearPartials tables versions = .ok written) :
    written.1 = (bv.computeAndApplyClearPartials versions).1 := by
  unfold clearPartials at ok
  exact executeChanges_ok ok

/-- What a local transaction comes to: nothing, rows under no version of their own, or a
version that is recorded. -/
inductive LocalWrite (self : ActorId) (node : Node engine) (tx : engine.Write) :
    Node engine × Except ChangeError (Option InsertChangesInfo) → Prop where
  | failed (error : ChangeError) : LocalWrite self node tx (node, .error error)
  | silent (none_ : versionRows (engine.changes (engine.write node.db.crsql self tx)) self
        (engine.peekNextDbVersion node.db.crsql self) = []) :
      LocalWrite self node tx ({ node with db := { node.db with crsql := engine.write node.db.crsql self tx } },
        .ok none)
  | recorded (last : Nat) (ts : Timestamp) (bv : BookedVersions) (tables : BookieTables)
      (isInfo : versionInfo (versionRows (engine.changes (engine.write node.db.crsql self tx)) self
        (engine.peekNextDbVersion node.db.crsql self)) = (some last, some ts))
      (inserted : (node.bookie.ensure self).insertDb node.db.tables
        (.ofRanges [.single (engine.peekNextDbVersion node.db.crsql self)]) = .ok (bv, tables)) :
      LocalWrite self node tx
        (⟨{ node.db with crsql := engine.write node.db.crsql self tx, tables }, node.bookie.insert self bv⟩,
          .ok (some ⟨engine.peekNextDbVersion node.db.crsql self, last, ts⟩))

variable {fails : Bool}

theorem insertLocalChanges_cases {tx : engine.Write} :
    LocalWrite self node tx (insertLocalChanges fails self node tx) := by
  unfold insertLocalChanges
  dsimp only
  split
  · exact .failed _
  split
  · rename_i last ts isInfo
    split
    · exact .failed _
    · rename_i bv tables inserted
      exact .recorded last ts bv tables isInfo inserted
  · rename_i noInfo
    refine .silent ?_
    by_contra some_
    obtain ⟨last, ts, isInfo⟩ := versionInfo_some some_
    exact noInfo last ts isInfo

/-- A local transaction leaves an actor's bookkeeping alone or inserts a version. -/
theorem write_related {related : BookedVersions → BookedVersions → Prop} (rest : ∀ bv, related bv bv)
    (inserts : ∀ bv versions, related bv (bv.computeAndApplyGaps versions).1) :
    related (node.bookie.ensure actor) ((insertLocalChanges fails self node tx).1.bookie.ensure actor) := by
  have written := @insertLocalChanges_cases _ node self fails tx
  generalize insertLocalChanges fails self node tx = result at written
  cases written with
  | failed error | silent none_ => exact rest _
  | recorded _ ts bv _ _ inserted =>
    have moved := insertDb_ok inserted
    dsimp only at moved
    rw [ensure_insert, moved]
    split
    · rename_i same
      exact same ▸ inserts _ _
    · exact rest _

/-- What applying a buffered version comes to: nothing, or its rows are applied and it is
no longer partial. -/
inductive AppliesBuffered (node : Node engine) (actorId : ActorId) (version : Nat) : Node engine → Prop where
  | idle (bookie : Bookie) (same : ∀ actor, bookie.ensure actor = node.bookie.ensure actor) :
      AppliesBuffered node actorId version ⟨node.db, bookie⟩
  | applied (held : PartialVersion) (rows : List StoredChange) (crsql : engine.Store)
    (middle last : BookedVersions × BookieTables)
      (bookie : Bookie) (is : (node.bookie.ensure actorId).partials[version]? = some held)
      (complete : held.isComplete = true) (own : ∀ row ∈ rows, row ∈ node.db.buffered)
      (isCrsql : crsql = node.db.crsql ∨ crsql = (engine.insertChanges node.db.crsql rows).1)
      (inserted : (node.bookie.ensure actorId).insertDb node.db.tables (.ofRanges [.single version]) = .ok middle)
      (isLast : middle.1.clearPartials middle.2 (.ofRanges [.single version]) = .ok last)
      (same : ∀ actor, bookie.ensure actor = if actorId = actor then last.1 else node.bookie.ensure actor) :
      AppliesBuffered node actorId version ⟨{ node.db with crsql, tables := last.2 }, bookie⟩

theorem processFullyBufferedChanges_cases :
    AppliesBuffered node actor version (processFullyBufferedChanges fails node actor version).1 := by
  have ensured : ∀ other, Bookie.ensure (node.bookie.insertIfNew actor (.new actor)) other =
      node.bookie.ensure other := fun other => ensure_insertIfNew
  unfold processFullyBufferedChanges
  dsimp only
  rw [ensured]
  split
  · exact .idle _ ensured
  rename_i held is
  split
  · exact .idle _ ensured
  rename_i complete
  split
  · exact .idle _ ensured
  split
  · exact .idle _ ensured
  · rename_i bv tables written
    obtain ⟨middle, inserted, cleared⟩ := bind_ok written
    refine .applied held (bySeq (versionRows node.db.buffered.rows actor version)) _ middle (bv, tables) _ is
      (by simpa using complete) (fun row listed => ?_) ?_ inserted cleared fun other => ?_
    · exact (mem_versionRows.mp (mem_bySeq.mp listed)).1
    · split
      · exact .inl rfl
      · exact .inr rfl
    · rw [ensure_insert, ensured]

/-- Applying a buffered version leaves an actor's bookkeeping alone or inserts the version
and clears what was partial of it. -/
theorem fullyBuffered_related {related : BookedVersions → BookedVersions → Prop} (rest : ∀ bv, related bv bv)
    (applies : ∀ bv versions, related bv ((bv.computeAndApplyGaps versions).1.computeAndApplyClearPartials
      versions).1) : related (node.bookie.ensure actor)
      ((processFullyBufferedChanges fails node other version).1.bookie.ensure actor) := by
  have outcome := @processFullyBufferedChanges_cases _ node other version fails
  generalize (processFullyBufferedChanges fails node other version).1 = after at outcome
  cases outcome with
  | idle bookie same =>
    rw [same]
    exact rest _
  | applied _ _ _ _ _ bookie is _ _ _ inserted isLast same =>
    rw [same]
    split
    · rename_i isOther
      rw [← isOther, clearPartials_ok isLast, insertDb_ok inserted]
      exact applies _ _
    · exact rest _

/-- Every step but a restart moves each actor's bookkeeping. -/
theorem step_moves {step : NodeStep engine} (running : step ≠ .restart) :
    Moves (node.bookie.ensure actor) ((node.step self step).bookie.ensure actor) := by
  cases step with
  | changes _ changes => exact moves_changes
  | write fails tx => exact write_related (fun _ => .rest) fun _ => .inserted
  | fullyBuffered fails other _ => exact fullyBuffered_related (fun _ => .rest) fun _ => .applied
  | clearBuffered _ other _ => exact .rest
  | restart => exact absurd rfl running

/-- A restart reads an actor back, or forgets one that nothing lists. -/
theorem restart_cases : (restart node).bookie.ensure actor =
      fromConn node.db.tables (engine.dbVersions node.db.crsql) actor ∨
    (restart node).bookie.ensure actor = .new actor := by
  classical
  simp only [restart]
  rw [Bookie.ensure, getElem_loadAllFromConn]
  split
  · exact .inl rfl
  · exact .inr rfl

/-- Partial versions are not above the maximum. -/
def Keyed (bv : BookedVersions) : Prop :=
  ∀ (version : Nat) held, bv.partials[version]? = some held → Reaches bv.max version

theorem Moves.keyed (moves : Moves bv after) (keyed : Keyed bv) : Keyed after := by
  intro version held is
  cases moves with
  | batch processed proper =>
    rw [reaches_computeAndApply proper]
    by_cases noChunks : chunksOf version processed = []
    · rw [computeAndApply_no_chunks noChunks] at is
      split at is
      · cases is
      · exact .inl (keyed version held is)
    · obtain ⟨_, listed⟩ := List.exists_mem_of_ne_nil _ noChunks
      exact .inr ⟨version, mem_processedVersions_of_chunk proper listed, le_rfl⟩
  | inserted versions =>
    exact reaches_max.mpr (.inl (keyed version held is))
  | applied versions =>
    rw [clearPartials_partials, computeAndApplyGaps_partials] at is
    split at is
    · cases is
    · exact reaches_max.mpr (.inl (keyed version held is))

theorem keyed_fromConn {dbVersions : Map ActorId Nat} :
    Keyed (fromConn tables dbVersions actor) := fun version held is =>
  fromConn_reaches.mpr (.inr ⟨version, held, is, le_rfl⟩)

/-- In every state a node reaches, partial versions are not above the maximum. -/
theorem keyed_run {steps : List (NodeStep engine)} :
    Keyed (((Node.fresh store).run self steps).bookie.ensure actor) := by
  have kept : ∀ (steps : List (NodeStep engine)) (node : Node engine), (∀ actor, Keyed (node.bookie.ensure actor)) →
      ∀ actor, Keyed ((node.run self steps).bookie.ensure actor) := by
    intro steps
    induction steps with
    | nil => exact fun _ keyed => keyed
    | cons first _ ih =>
      intro node keyed
      refine ih (node.step self first) fun actor => ?_
      by_cases running : first = .restart
      · subst running
        rcases @restart_cases engine node actor with loaded | forgotten
        · exact loaded ▸ keyed_fromConn
        · intro version held is
          simp only [Node.step, forgotten, new_partials] at is
          simp at is
      · exact (step_moves running).keyed (keyed actor)
  refine kept steps _ (fun actor version held is => ?_) actor
  simp [Node.fresh] at is

end Galvanize.NodeInvariant
