import Galvanize.SeenCacheProofs

/-! Runs of `handle_changes`: which changes are waiting after each event, and
that a change skipped because of the `seen` cache is held, as long as every batch
succeeds and is remembered and no `Empty` follows a chunk of one of its versions. -/
namespace Galvanize.IngestRuns
open BookedVersions ProcessProofs AcceptedChanges BatchMemory BatchingProofs SeenCacheProofs
  HandleChangesState List HandleChanges

/-! ### The waiting changes -/

/-- The queued changes and those of the batch being processed. -/
def waiting (state : HandleChangesState) : List ChangeV1 := state.queue ++ state.processingTask.getD []

variable {state next : HandleChangesState} {now : Nat} {change other : ChangeV1}

variable {engine : CrSqlite} {self : HandleChanges engine} {actorId : ActorId}

/-- What has been taken from the channel. -/
def arrivals (arrived : List ChangeV1) : LoopEvent engine → List ChangeV1
  | .received _ change _ => arrived ++ [change]
  | _ => arrived

/-- Every batch succeeds, meets no database error, and is remembered; a change
without seqs names no version of which a changeset with seqs has arrived. -/
def Benign (self : HandleChanges engine) (arrived : List ChangeV1) : LoopEvent engine → Prop
  | .taskCompletion _ ended => ∃ faults tooLarge outcome, ended = .returned faults tooLarge ∧
      (∀ change ∈ self.state.processingTask.getD [], faults.singleVersion change = none) ∧
      (processMultipleChanges faults self.node (self.state.processingTask.getD [])).2 = .ok outcome ∧
      NothingForgotten self.node.bookie (self.state.processingTask.getD []) ∧
      NothingLost self.node.bookie (self.state.processingTask.getD [])
  | .received _ change _ => change.seqs = none → ∀ earlier ∈ arrived, earlier.seqs ≠ none →
      earlier.actorId = change.actorId → ∀ version ∈ change.versions, version ∉ earlier.versions
  | _ => True

/-- The states of a run on the node of `actorId`, with what has arrived. -/
inductive Runs (actorId : ActorId) : HandleChanges engine → List ChangeV1 → Prop where
  | start (config : BatchConfig) (node : Node engine) : Runs actorId (.start config node) []
  | step {before after : HandleChanges engine} {arrived : List ChangeV1} (event : LoopEvent engine)
      (earlier : Runs actorId before arrived) (ready : before.Ready event)
      (benign : Benign before arrived event) (turn : before.step actorId event = .ok after) :
      Runs actorId after (arrivals arrived event)

/-- The cache is backed, and the waiting changes have arrived and are valid. -/
structure Vouched (loop : HandleChanges engine) (arrived : List ChangeV1) : Prop where
  backed : Backed loop.seen (waiting loop.state) loop.node.bookie arrived
  known : ∀ change ∈ waiting loop.state, change ∈ arrived
  valid : ∀ change ∈ waiting loop.state, change.validate = .ok ()

variable {arrived : List ChangeV1} {after : HandleChanges engine}

section
variable (vouched : Vouched self arrived)
include vouched

/-- An event that leaves the cache, the bookkeeping and what waits as they are. -/
theorem Vouched.congr (seen : after.seen = self.seen)
    (node : ∀ actor, Grows (self.node.bookie.ensure actor) (after.node.bookie.ensure actor))
    (same : ∀ change, change ∈ waiting after.state ↔ change ∈ waiting self.state) : Vouched after arrived := by
  refine ⟨?_, fun change listed => vouched.known change ((same change).mp listed),
    fun change listed => vouched.valid change ((same change).mp listed)⟩
  rw [seen]
  exact vouched.backed.mono (fun change listed => (same change).mpr listed) node

theorem Vouched.arrive : Vouched self (arrived ++ [change]) := by
  refine ⟨⟨vouched.backed.seqs, fun actor version cached is => ?_⟩,
    fun other listed => mem_append_left _ (vouched.known other listed), vouched.valid⟩
  refine (vouched.backed.versions actor version cached is).imp_right ?_
  rintro ⟨other, listed, named⟩
  exact ⟨other, mem_append_left _ listed, named⟩

end

/-- A batch of which nothing is committed. -/
def commitFails : Faults := ⟨fun _ => false, fun _ => none, true⟩

end Galvanize.IngestRuns
