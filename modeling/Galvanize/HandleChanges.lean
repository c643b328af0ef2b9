import Galvanize.NodeSteps

/-! `HandleChangesState` and `handle_changes` (`corro-agent/src/agent/handlers.rs`):
incoming changes are queued and applied in batches by one background task at a
time. A cache of what was queued lately, `seen`, keeps duplicates out. Instants
are numbers of milliseconds, handed to each handler. -/
namespace Galvanize

/-- `apply_queue_batch_threshold_ratio`, a fraction above zero and at most one. -/
structure ThresholdRatio where
  num : Nat
  den : Nat
  positive : 0 < num
  atMostOne : num ≤ den

/-- The part of the configuration the batching reads. -/
structure BatchConfig where
  maxQueueLen : Nat
  minBatchSize : Nat
  stepBase : Nat
  maxBatchSize : Nat
  batchThresholdRatio : ThresholdRatio
  txTimeout : Nat

structure HandleChangesState where
  config : BatchConfig
  queue : List ChangeV1
  bufCost : Nat
  currentBatchSize : Nat
  /-- The batch a spawned task is processing. -/
  processingTask : Option (List ChangeV1)
  /-- Whether a timeout is running. -/
  maxWait : Bool
  halvedAt : Option Nat
  /-- `assert_always!(.., "Timeout with too many changes")` reports, and goes on. -/
  tooManyChanges : Bool

/-- How a spawned task ends. -/
inductive TaskResult where
  | ok
  /-- `ChangeError`; the flag is `is_oom_error() || is_interrupt_error()`. -/
  | error (tooLarge : Bool)
  | panicked
deriving DecidableEq

/-- What stops the loop: `unreachable!("Must spawn a batch")`, and `clamp` called
with a minimum above its maximum. -/
inductive Panic where
  | mustSpawn
  | clamp
deriving DecidableEq

/-- `usize::MAX`. -/
def usizeMax : Nat := 0xFFFFFFFFFFFFFFFF

/-- `size.clamp(min_batch_size, max_batch_size)`. -/
def BatchConfig.clamp (self : BatchConfig) (size : Nat) : Except Panic Nat :=
  if self.maxBatchSize < self.minBatchSize then .error .clamp
  else if size < self.minBatchSize then .ok self.minBatchSize
  else if self.maxBatchSize < size then .ok self.maxBatchSize
  else .ok size

namespace HandleChangesState

def new (config : BatchConfig) : HandleChangesState :=
  { config, queue := [], bufCost := 0, currentBatchSize := config.minBatchSize
    processingTask := none, maxWait := true, halvedAt := none, tooManyChanges := false }

variable (self : HandleChangesState) (now : Nat)

/-- `in_grace_period`: a batch was halved less than a transaction timeout ago. -/
def inGracePeriod : Bool :=
  self.halvedAt.any (fun halved => now - halved < self.config.txTimeout)

/-- `calculate_batch_size`: the size grows with the cost by powers of two, and
not at all during the grace period. -/
def calculateBatchSize (now cost : Nat) : Except Panic Nat :=
  let config := self.config
  let computed :=
    if config.stepBase = 0 ∨ cost < config.stepBase then .ok config.minBatchSize
    else config.clamp (config.stepBase * (1 <<< (cost / config.stepBase).log2))
  computed.map (fun computed => if self.inGracePeriod now then min computed self.currentBatchSize else computed)

/-- `batch_threshold`. -/
def batchThreshold : Nat :=
  self.currentBatchSize * self.config.batchThresholdRatio.num / self.config.batchThresholdRatio.den

/-- The loop of `drain_and_spawn`: changes leave the queue until their cost
reaches the target. Gives the batch, its cost and the rest of the queue. -/
def drain (target : Nat) : Nat → List ChangeV1 → List ChangeV1 × Nat × List ChangeV1
  | batchCost, [] => ([], batchCost, [])
  | batchCost, change :: rest =>
    if target ≤ batchCost + change.processingCost then
      ([change], batchCost + change.processingCost, rest)
    else
      let (batch, cost, left) := drain target (batchCost + change.processingCost) rest
      (change :: batch, cost, left)

/-- `drain_and_spawn`. -/
def drainAndSpawn (targetSize : Nat) : HandleChangesState × Option Nat :=
  if self.processingTask.isSome then (self, none)
  else
    let (batch, batchCost, rest) := drain targetSize 0 self.queue
    let self := { self with queue := rest, bufCost := self.bufCost - batchCost }
    if batch.isEmpty then (self, none)
    else ({ self with processingTask := some batch }, some batchCost)

/-- `drain_and_spawn` where the code says a batch must be spawned. -/
def mustSpawn (targetSize : Nat) : Except Panic HandleChangesState :=
  match self.drainAndSpawn targetSize with
  | (_, none) => .error .mustSpawn
  | (self, some _) => .ok self

/-- The batch size for what is queued, if that is more than a batch. -/
def burstSize : Except Panic Nat :=
  if self.currentBatchSize < self.bufCost then self.calculateBatchSize now self.bufCost
  else .ok self.currentBatchSize

/-- Check whether to burst, then spawn. -/
def burstAndSpawn : Except Panic HandleChangesState := do
  let size ← self.burstSize now
  mustSpawn { self with currentBatchSize := size } size

/-- A batch that was too large for the database halves the batch size. -/
def noteResult (result : TaskResult) : HandleChangesState :=
  if result = .error true then
    { self with currentBatchSize := max (self.currentBatchSize / 2) self.config.minBatchSize
                halvedAt := some now }
  else self

/-- `handle_task_completion`. -/
def handleTaskCompletion (result : TaskResult) :
    Except Panic HandleChangesState :=
  let self := { self.noteResult now result with processingTask := none }
  if self.batchThreshold ≤ self.bufCost then self.burstAndSpawn now
  else .ok { self with maxWait := true }

/-- `handle_timeout`. -/
def handleTimeout : Except Panic HandleChangesState :=
  let self := { self with maxWait := false }
  if !self.queue.isEmpty then do
    let actualCost := self.bufCost
    let self := { self with tooManyChanges := self.tooManyChanges || !(actualCost < self.batchThreshold) }
    let self ← self.mustSpawn usizeMax
    let size ← self.calculateBatchSize now actualCost
    .ok { self with currentBatchSize := size }
  else if self.processingTask.isNone && !self.maxWait then do
    let size ← self.calculateBatchSize now 0
    .ok { self with currentBatchSize := size, maxWait := true }
  else .ok self

/-- `maybe_drop_old_change`: the oldest change leaves a full queue. -/
def maybeDropOldChange : HandleChangesState × Option ChangeV1 :=
  if self.config.maxQueueLen ≤ self.queue.length then
    match self.queue with
    | [] => (self, none)
    | dropped :: rest =>
      ({ self with queue := rest, bufCost := self.bufCost - dropped.processingCost }, some dropped)
  else (self, none)

/-- `while let Some(dropped) = maybe_drop_old_change()`, at most `turns` times. -/
def dropLoop : Nat → HandleChangesState → HandleChangesState × List ChangeV1
  | 0, self => (self, [])
  | turns + 1, self =>
    match self.maybeDropOldChange with
    | (self, none) => (self, [])
    | (self, some dropped) =>
      let (self, others) := dropLoop turns self
      (self, dropped :: others)

/-- The whole loop: there are no more changes to drop than are queued. -/
def dropOldChanges : HandleChangesState × List ChangeV1 := dropLoop self.queue.length self

/-- `handle_new_change`. -/
def handleNewChange (change : ChangeV1) : Except Panic HandleChangesState :=
  let self := { self with queue := self.queue ++ [change], bufCost := self.bufCost + change.processingCost }
  if self.batchThreshold ≤ self.bufCost ∧ self.processingTask = none then
    { self with maxWait := false }.burstAndSpawn now
  else .ok self

end HandleChangesState

/-! ### The loop -/

/-- `seen`: the seqs queued lately, by actor and version. -/
abbrev SeenCache := IndexMap (ActorId × Nat) RangeInclusiveSet

namespace SeenCache
variable (seen : SeenCache)

/-- Whether a change is skipped: all its seqs are cached or, without seqs, all
its versions have an entry. -/
def skips (change : ChangeV1) : Bool :=
  match change.seqs with
  | some seqs =>
    match seen.get? (change.actorId, change.versions.start) with
    | some seenSeqs => seqs.toList.all (fun seq => decide (seq ∈ seenSeqs))
    | none => false
  | none => change.versions.toList.all (fun version => seen.containsKey (change.actorId, version))

/-- The entry of one version of a dropped change, if there is one: its seqs are
cut out or, without seqs, the entry goes. -/
def forgetVersion (dropped : ChangeV1) (seen : SeenCache) (version : Nat) : SeenCache :=
  if seen.containsKey (dropped.actorId, version) then
    match dropped.seqs with
    | some seqs => seen.upsert (dropped.actorId, version) (fun held => (held.getD ∅).remove seqs)
    | none => seen.swapRemove (dropped.actorId, version)
  else seen

def forget (dropped : ChangeV1) : SeenCache :=
  dropped.versions.toList.foldl (forgetVersion dropped) seen

/-- `entry(..).or_default()`, extended by the seqs of the change. -/
def registerVersion (change : ChangeV1) (seen : SeenCache) (version : Nat) : SeenCache :=
  seen.upsert (change.actorId, version) (fun held =>
    match change.seqs with
    | some seqs => (held.getD ∅).extend [seqs]
    | none => held.getD ∅)

def register (change : ChangeV1) : SeenCache :=
  change.versions.toList.foldl (registerVersion change) seen

/-- The maintenance tick: a cache above its limit keeps its latest tenth. -/
def maintain (maxSeenCacheLen : Nat) : SeenCache :=
  let keep := if 10 < maxSeenCacheLen then max 10 (maxSeenCacheLen / 10) else 0
  if maxSeenCacheLen < seen.entries.length then seen.drainFirst (seen.entries.length - keep) else seen

end SeenCache

/-- The loop, the node it works on and what it has passed on to its peers. -/
structure HandleChanges (engine : CrSqlite) where
  state : HandleChangesState
  seen : SeenCache
  node : Node engine
  rebroadcast : List ChangeV1

inductive ChangeSource where
  | broadcast
  | sync
deriving DecidableEq

/-- How the call of `process_multiple_changes` ends: it returns, with an error
that counts as too large or not, or it panics and leaves nothing behind. -/
inductive BatchEnd where
  | returned (faults : Faults) (tooLarge : Bool)
  | panicked

/-- What the select loop can take up next, and what other tasks do to the node. -/
inductive LoopEvent (engine : CrSqlite) where
  | maintenance
  | taskCompletion (now : Nat) (ended : BatchEnd)
  | received (now : Nat) (change : ChangeV1) (source : ChangeSource)
  | timeout (now : Nat)
  | elsewhere (step : NodeStep engine)

namespace HandleChanges
variable {engine : CrSqlite}

/-- `handle_changes` starts on a node. -/
def start (config : BatchConfig) (node : Node engine) : HandleChanges engine := ⟨.new config, ∅, node, []⟩

/-- The branches of the select loop that are armed. Other tasks write, apply
buffered versions and clear buffered rows; only this loop processes changes. -/
def Ready (self : HandleChanges engine) : LoopEvent engine → Prop
  | .taskCompletion _ _ => self.state.processingTask.isSome
  | .timeout _ => self.state.maxWait = true
  | .elsewhere (.changes _ _) => False
  | .elsewhere .restart => False
  | _ => True

/-- What a batch does to the node, and how its task ends. -/
def finish (node : Node engine) (batch : List ChangeV1) : BatchEnd → Node engine × TaskResult
  | .panicked => (node, .panicked)
  | .returned faults tooLarge =>
    match processMultipleChanges faults node batch with
    | (node, .ok _) => (node, .ok)
    | (node, .error .panicked) => (node, .panicked)
    | (node, .error _) => (node, .error tooLarge)

/-- The tests a received change has to pass before it is queued. -/
def admits (actorId : ActorId) (self : HandleChanges engine) (change : ChangeV1) : Bool :=
  change.validate.isOk && change.actorId != actorId && !self.seen.skips change &&
    !self.node.bookie[change.actorId]?.any (fun booked => booked.containsAll change.versions change.seqs)

/-- A change that is queued: the queue and the cache lose what is too old, then
both take the change up. -/
def enqueue (self : HandleChanges engine) (now : Nat) (change : ChangeV1) (source : ChangeSource) :
    Except Panic (HandleChanges engine) :=
  let (state, dropped) := self.state.dropOldChanges
  let seen := (dropped.foldl SeenCache.forget self.seen).register change
  let rebroadcast := if source = .broadcast ∧ !change.isEmpty then self.rebroadcast ++ [change]
    else self.rebroadcast
  (state.handleNewChange now change).map (fun state => { self with state, seen, rebroadcast })

/-- One turn of the loop on the node of `actorId`. -/
def step (actorId : ActorId) (self : HandleChanges engine) :
    LoopEvent engine → Except Panic (HandleChanges engine)
  | .maintenance => .ok { self with seen := self.seen.maintain self.state.config.maxQueueLen }
  | .taskCompletion now ended =>
    let (node, result) := finish self.node (self.state.processingTask.getD []) ended
    (self.state.handleTaskCompletion now result).map (fun state => { self with state, node })
  | .received now change source =>
    if self.admits actorId change then self.enqueue now change source else .ok self
  | .timeout now => (self.state.handleTimeout now).map (fun state => { self with state })
  | .elsewhere step => .ok { self with node := self.node.step actorId step }

end HandleChanges

end Galvanize
