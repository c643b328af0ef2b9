import Galvanize.AcceptedChanges
import Galvanize.NodeInvariant

/-! The loop that deletes buffered rows (`clear_buffered_meta_loop`,
`corro-agent/src/agent/util.rs`): the requests it is sent and the orphaned rows it looks
for, its check of a request against the bookie, and the task it spawns for each request,
which deletes a limited number of rows at a time until few are left. -/
namespace Galvanize.BufferClearing
open AcceptedChanges NodeInvariant List

variable {engine : CrSqlite}

/-! ### The loop -/

/-- What comes through `rx_partials`. -/
structure ClearRequest where
  actorId : ActorId
  versions : CrsqlDbVersionRange
deriving DecidableEq

namespace ClearRequest
variable (request : ClearRequest)

/-- `site_id = ? AND db_version >= ? AND db_version <= ?` -/
def matching (row : StoredChange) : Bool :=
  row.change.siteId = request.actorId ∧ row.change.dbVersion ∈ request.versions

/-- The versions that the check of a request warns of. Its `continue` goes on with the next
version. -/
def stillPartial (bookie : Bookie) : List Nat :=
  request.versions.toList.filter fun version => ((bookie.ensure request.actorId).getPartial version).isSome

/-- No version of the request is partial. -/
def NonePartial (bookie : Bookie) : Prop :=
  ∀ version ∈ request.versions, (bookie.ensure request.actorId).getPartial version = none

end ClearRequest

/-- `TO_CLEAR_COUNT` -/
def toClearCount : Nat := 1000

/-- The rows of a query that has no order of its own, in the order of its scan. -/
def scanned (scan : StoredChange → Nat) (rows : List StoredChange) : List StoredChange :=
  rows.insertionSort fun row other => scan row ≤ scan other

/-- The keys that the inner `SELECT .. LIMIT ?` lists. -/
def toClear (scan : StoredChange → Nat) (db : Database engine) (request : ClearRequest) : List (ActorId × Nat × Nat) :=
  ((scanned scan (db.buffered.select request.matching)).take toClearCount).map StoredChange.key

/-- The transaction of a task, with `buf_count`. -/
def clearBuffered (scan : StoredChange → Nat) (node : Node engine) (request : ClearRequest) : Node engine × Nat :=
  let keys := toClear scan node.db request
  ({ node with db := { node.db with buffered := node.db.buffered.delete fun row => row.key ∈ keys } },
    node.db.buffered.deleted fun row => row.key ∈ keys)

/-- `find_orphaned_buffered_changes`: a buffered version without bookkeeping of its seqs. -/
def findOrphanedBufferedChanges (scan : StoredChange → Nat) (db : Database engine) : Option ClearRequest :=
  (scanned scan (db.buffered.select fun row => ¬ ∃ seq ∈ db.tables.seqs.rows,
    seq.siteId = row.change.siteId ∧ seq.dbVersion = row.change.dbVersion)).head?.map fun row =>
      ⟨row.change.siteId, .single row.change.dbVersion⟩

/-- `check_buffered_meta_to_clear` -/
def checkBufferedMetaToClear (db : Database engine) (request : ClearRequest) : Bool :=
  db.buffered.rows.any request.matching

/-- A node with the loop. -/
structure Clearing (engine : CrSqlite) where
  node : Node engine
  queue : List ClearRequest
  /-- The requests of the tasks that have not ended. -/
  tasks : List ClearRequest
  /-- What the check has warned of. -/
  warned : List (ActorId × Nat)

/-- The steps of the rest of the node. -/
def NodeStep.clears : NodeStep engine → Bool
  | .clearBuffered _ _ _ => true
  | _ => false

def NodeStep.restarts : NodeStep engine → Bool
  | .restart => true
  | _ => false

inductive Event (engine : CrSqlite) where
  | node (step : { step : NodeStep engine // NodeStep.clears step = false })
  /-- A request is put into the channel. -/
  | send (request : ClearRequest)
  | receive
  /-- The interval ticks. -/
  | retry (scan : StoredChange → Nat)
  /-- A task runs its transaction. -/
  | clear (task : Nat) (scan : StoredChange → Nat) (fails : Bool)
  /-- The tripwire ends a task. -/
  | stop (task : Nat)

namespace Clearing
variable (state : Clearing engine)

/-- The check of a request, and the task. -/
def spawn (request : ClearRequest) : Clearing engine :=
  { state with
    tasks := state.tasks ++ [request]
    warned := state.warned ++ (request.stillPartial state.node.bookie).map fun version => (request.actorId, version) }

/-- What the loop, a task or the rest of the node does. -/
def step (self : ActorId) : Event engine → Clearing engine
  | .node step =>
    let node := state.node.step self step.1
    if NodeStep.restarts step.1 then ⟨node, [], [], []⟩ else { state with node }
  | .send request => { state with queue := state.queue ++ [request] }
  | .receive =>
    match state.queue with
    | [] => state
    | request :: queue => { state with queue }.spawn request
  | .retry scan =>
    match findOrphanedBufferedChanges scan state.node.db with
    | none => state
    | some request => state.spawn request
  | .clear task scan fails =>
    match state.tasks[task]? with
    | none => state
    | some request =>
      if fails then state
      else
        let cleared := clearBuffered scan state.node request
        { state with
          node := cleared.1
          tasks := if cleared.2 < toClearCount then state.tasks.eraseIdx task else state.tasks }
  | .stop task => { state with tasks := state.tasks.eraseIdx task }

end Clearing

/-! ### One transaction -/

/-- All rows of the versions that are partial in the bookie are still there. -/
def KeepsPartials (before after : Node engine) : Prop :=
  ∀ actor version, ((before.bookie.ensure actor).getPartial version).isSome →
    (∀ row ∈ before.db.buffered, row.change.siteId = actor → row.change.dbVersion = version → row ∈ after.db.buffered) ∧
    ∀ row ∈ before.db.tables.seqs, row.siteId = actor → row.dbVersion = version → row ∈ after.db.tables.seqs

theorem KeepsPartials.refl (node : Node engine) : KeepsPartials node node :=
  fun _ _ _ => ⟨fun _ listed _ _ => listed, fun _ listed _ _ => listed⟩

variable {scan : StoredChange → Nat} {node : Node engine} {request : ClearRequest} {state : Clearing engine}

theorem mem_scanned {rows : List StoredChange} {row : StoredChange} : row ∈ scanned scan rows ↔ row ∈ rows :=
  (perm_insertionSort (fun row other => scan row ≤ scan other) rows).mem_iff

theorem matching_of_toClear {key : ActorId × Nat × Nat} (listed : key ∈ toClear scan node.db request) :
    ∃ row ∈ node.db.buffered, row.key = key ∧ request.matching row = true := by
  obtain ⟨row, taken, rfl⟩ := mem_map.mp listed
  obtain ⟨held, fits⟩ := Table.mem_select.mp (mem_scanned.mp (mem_of_mem_take taken))
  exact ⟨row, held, rfl, fits⟩

/-- Rows of other versions than the requested ones are not touched. -/
theorem keepsPartials_clearBuffered (none : request.NonePartial node.bookie) :
    KeepsPartials node (clearBuffered scan node request).1 := by
  intro actor version held
  refine ⟨?_, fun _ listed _ _ => listed⟩
  rintro row listed rfl rfl
  refine Table.mem_delete.mpr ⟨listed, decide_eq_false fun isPicked => ?_⟩
  obtain ⟨other, -, same, fits⟩ := matching_of_toClear isPicked
  obtain ⟨site, inside⟩ := of_decide_eq_true fits
  obtain ⟨sameSite, sameVersion, -⟩ : other.change.siteId = row.change.siteId ∧
      other.change.dbVersion = row.change.dbVersion ∧ other.change.seq = row.change.seq := by
    simpa [StoredChange.key] using same
  rw [← sameSite, ← sameVersion, site, none _ inside] at held
  cases held

theorem clearBuffered_count : (clearBuffered scan node request).2 = (toClear scan node.db request).length := by
  have distinct := ((perm_insertionSort (fun row other => scan row ≤ scan other)
    (node.db.buffered.select request.matching)).map StoredChange.key).nodup_iff.mpr
      (node.db.buffered.distinct.sublist (filter_sublist.map StoredChange.key))
  refine Table.deleted_eq_length StoredChange.key (fun row => decide_eq_true_iff) ?_ ?_ ?_
  · exact distinct.sublist ((take_sublist _ _).map _)
  · intro key listed
    obtain ⟨row, held, same, -⟩ := matching_of_toClear listed
    exact ⟨row, held, same⟩
  · exact fun row held other otherHeld same => Table.eq_of_key held otherHeld same

/-- A task ends when there is nothing left to clear. -/
theorem cleared_when_few (few : (clearBuffered scan node request).2 < toClearCount) :
    checkBufferedMetaToClear (clearBuffered scan node request).1.db request = false := by
  rw [clearBuffered_count, toClear, length_map, length_take] at few
  have all : (scanned scan (node.db.buffered.select request.matching)).take toClearCount =
      scanned scan (node.db.buffered.select request.matching) := take_of_length_le (by omega)
  refine any_eq_false.mpr fun row left fits => ?_
  obtain ⟨listed, kept⟩ := Table.mem_delete.mp left
  refine of_decide_eq_false kept ?_
  rw [toClear, all]
  exact mem_map_of_mem (mem_scanned.mpr (Table.mem_select.mpr ⟨listed, fits⟩))

/-! ### Runs -/

/-- What a step may not do: take up a request with a version that the check warns of, or make
a version partial that a task is there to clear. -/
def Event.InOrder (self : ActorId) (state : Clearing engine) : Event engine → Prop
  | .node step => NodeStep.restarts step.1 = true ∨
    ∀ request ∈ state.tasks, request.NonePartial (state.node.step self step.1).bookie
  | .receive => ∀ request ∈ state.queue.head?, request.stillPartial state.node.bookie = []
  | .retry scan => ∀ request ∈ findOrphanedBufferedChanges scan state.node.db,
    request.stillPartial state.node.bookie = []
  | _ => True

/-- The step is one of the loop or of its tasks. -/
def Event.ofLoop : Event engine → Bool
  | .node _ => false
  | _ => true

/-- No task is there for a version that is partial. -/
def Sound (state : Clearing engine) : Prop := ∀ request ∈ state.tasks, request.NonePartial state.node.bookie

theorem stillPartial_nil {bookie : Bookie} (silent : request.stillPartial bookie = []) :
    request.NonePartial bookie := by
  intro version inside
  have quiet := filter_eq_nil_iff.mp silent version (RangeInclusive.mem_toList.mpr inside)
  simpa using quiet

theorem sound_spawn (sound : Sound state) (silent : request.stillPartial state.node.bookie = []) :
    Sound (state.spawn request) := by
  intro other member
  rcases mem_append.mp member with old | new
  · exact sound other old
  · rw [mem_singleton.mp new]
    exact stillPartial_nil silent

theorem sound_step {self : ActorId} {event : Event engine} (sound : Sound state) (inOrder : event.InOrder self state) :
    Sound (state.step self event) := by
  cases event with
  | node step =>
    rw [Clearing.step]
    split
    · exact fun _ none => absurd none not_mem_nil
    · rename_i runs
      exact inOrder.resolve_left runs
  | send _ => exact sound
  | receive =>
    rw [Clearing.step]
    cases waiting : state.queue with
    | nil => exact sound
    | cons request queue =>
      exact sound_spawn sound (inOrder request (by rw [waiting]; rfl))
  | retry scan =>
    rw [Clearing.step]
    cases found : findOrphanedBufferedChanges scan state.node.db with
    | none => exact sound
    | some request => exact sound_spawn sound (inOrder request found)
  | clear task scan fails =>
    rw [Clearing.step]
    split
    · exact sound
    · split
      · exact sound
      · intro request member
        dsimp only at member
        split at member
        · exact sound request (mem_of_mem_eraseIdx member)
        · exact sound request member
  | stop task => exact fun request member => sound request (mem_of_mem_eraseIdx member)

/-- A step of the loop or of a task keeps the rows of partial versions. -/
theorem keepsPartials_step {self : ActorId} {event : Event engine} (sound : Sound state) (own : event.ofLoop = true) :
    KeepsPartials state.node (state.step self event).node := by
  cases event with
  | node step => cases own
  | send _ | stop _ => exact .refl _
  | receive | retry scan =>
    rw [Clearing.step]
    split <;> exact .refl _
  | clear task scan fails =>
    rw [Clearing.step]
    split
    · exact .refl _
    · rename_i request running
      split
      · exact .refl _
      · exact keepsPartials_clearBuffered (sound request (mem_of_getElem? running))

/-- In every run of a node and its loop in which the check warns of nothing and no version
becomes partial that a task is there to clear, the loop and its tasks delete no rows of a
version that is partial in the bookie. -/
theorem partial_rows_kept (self : ActorId) (node : Node engine) (queue : List ClearRequest)
    (events : List (Event engine)) (inOrder : ∀ before event, before ++ [event] <+: events →
      event.InOrder self (before.foldl (Clearing.step · self) ⟨node, queue, [], []⟩)) :
    ∀ before event, before ++ [event] <+: events → event.ofLoop = true →
      KeepsPartials (before.foldl (Clearing.step · self) ⟨node, queue, [], []⟩).node
        ((before ++ [event]).foldl (Clearing.step · self) ⟨node, queue, [], []⟩).node := by
  intro before event leads own
  have start : Sound (⟨node, queue, [], []⟩ : Clearing engine) := fun _ none => absurd none not_mem_nil
  have sound := throughout start (fun _ _ sound suits => sound_step sound suits) inOrder before
    ((prefix_append before [event]).trans leads)
  rw [foldl_concat]
  exact keepsPartials_step sound own

/-! ### Halves of versions -/

/-- The first half of version 2. -/
def halfOfSecond : ChangeV1 := ⟨1, .full 2 [cell 2 0] ⟨0, 0⟩ 1 5⟩

/-- A batch of changes as a step of the node. -/
def received (changes : List ChangeV1) : Event Lww.engine := .node ⟨.changes .none changes, rfl⟩

/-- Version 1 comes in two halves and is applied, the first half of version 2 comes, and version
1 is cleared. -/
def appliedAndCleared : List (Event Lww.engine) :=
  [received [firstHalf, secondHalf], .node ⟨.fullyBuffered false 1 1, rfl⟩, received [halfOfSecond],
    .send ⟨1, .single 1⟩, .receive, .clear 0 (fun _ => 0) false]

theorem half_version_kept :
    let after (count : Nat) :=
      ((appliedAndCleared.take count).foldl (Clearing.step · 2) ⟨freshNode, [], [], []⟩ : Clearing _)
    ((after 5).node.bookie.ensure 1).getPartial 2 ≠ none ∧ (after 5).node.db.buffered.rows.length = 3 ∧
      (after 6).node.db.buffered.rows.length = 1 ∧ (after 6).tasks = [] ∧
        KeepsPartials (after 5).node (after 6).node := by
  refine ⟨by decide +kernel, by decide +kernel, by decide +kernel, by decide +kernel, ?_⟩
  refine partial_rows_kept 2 freshNode [] appliedAndCleared ?_ (appliedAndCleared.take 5) (.clear 0 (fun _ => 0) false)
    (List.prefix_rfl) rfl
  refine kept_cons (.inr fun _ none => absurd none not_mem_nil)
    (kept_cons (.inr fun _ none => absurd none not_mem_nil) ?_)
  refine kept_cons (.inr fun _ none => absurd none not_mem_nil)
    (kept_cons trivial (kept_cons ?_ (kept_cons trivial kept_nil)))
  intro request waiting
  cases Option.mem_some.mp waiting
  decide +kernel

/-- The first half of version 1 has come when a request for the version is taken up. The check
warns of it, and its row is deleted all the same. -/
theorem half_version_cleared :
    let after (count : Nat) :=
      (([received [firstHalf], .send ⟨1, .single 1⟩, .receive, .clear 0 (fun _ => 0) false].take
      count).foldl (Clearing.step · 2) ⟨freshNode, [], [], []⟩ : Clearing _)
    (after 3).warned = [(1, 1)] ∧ (after 3).node.db.buffered.rows.length = 1 ∧
      ((after 4).node.bookie.ensure 1).getPartial 1 ≠ none ∧ (after 4).node.db.buffered.rows = [] := by
  decide +kernel

end Galvanize.BufferClearing
