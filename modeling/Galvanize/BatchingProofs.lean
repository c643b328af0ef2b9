import Galvanize.HandleChanges

/-! The batching of incoming changes as a state machine. A batch is spawned as
soon as enough is queued and no batch is being processed, so that a timeout
finds less than the threshold. All of this stands on the threshold of the
smallest batch being at least one: below that, a batch that ends with nothing
queued finds the threshold reached and has nothing to spawn. -/
namespace Galvanize.BatchingProofs
open HandleChangesState

/-- What the select loop hands to `HandleChangesState`. -/
inductive BatchEvent where
  | newChange (now : Nat) (change : ChangeV1)
  | taskCompletion (now : Nat) (result : TaskResult)
  | timeout (now : Nat)

/-- A completion comes from a running task, a timeout from a running timer. -/
def Armed (state : HandleChangesState) : BatchEvent → Prop
  | .newChange _ _ => True
  | .taskCompletion _ _ => state.processingTask.isSome
  | .timeout _ => state.maxWait = true

def stepBatch (state : HandleChangesState) : BatchEvent → Except Panic HandleChangesState
  | .newChange now change => state.dropOldChanges.1.handleNewChange now change
  | .taskCompletion now result => state.handleTaskCompletion now result
  | .timeout now => state.handleTimeout now

/-- The states a configuration can lead to. -/
inductive Reached (config : BatchConfig) : HandleChangesState → Prop where
  | start : Reached config (.new config)
  | step {before after : HandleChangesState} {event : BatchEvent} (earlier : Reached config before)
      (armed : Armed before event) (turn : stepBatch before event = .ok after) : Reached config after

/-- The cost of a queue. -/
def totalCost : List ChangeV1 → Nat
  | [] => 0
  | change :: rest => change.processingCost + totalCost rest

@[simp] theorem totalCost_append : totalCost (left ++ right) = totalCost left + totalCost right := by
  induction left with
  | nil => simp [totalCost]
  | cons _ _ ih => simp [totalCost, ih, Nat.add_assoc]

/-- The batching is in order: the cost is that of the queue, the queue is not too
long, the batch size is within its limits, and either a batch is being processed
or a timeout is running. -/
structure InOrder (state : HandleChangesState) : Prop where
  cost : state.bufCost = totalCost state.queue
  length : state.queue.length ≤ max 1 state.config.maxQueueLen
  oneOf : state.processingTask.isSome ≠ state.maxWait
  low : state.config.minBatchSize ≤ state.currentBatchSize
  high : state.currentBatchSize ≤ state.config.maxBatchSize
  notTooMany : state.tooManyChanges = false

variable {config : BatchConfig} {state next : HandleChangesState} {now : Nat}

/-! ### The parts -/

/-- A drain cuts the queue in two; only an empty queue gives an empty batch. -/
theorem drain_eq {target cost : Nat} {queue : List ChangeV1} :
    queue = (drain target cost queue).1 ++ (drain target cost queue).2.2 ∧
      (drain target cost queue).2.1 = cost + totalCost (drain target cost queue).1 ∧
      ((drain target cost queue).1 = [] → queue = []) := by
  induction queue generalizing cost with
  | nil => simp [drain, totalCost]
  | cons first _ ih =>
    simp only [drain]
    split
    · simp [totalCost]
    · obtain ⟨cut, costs, _⟩ := @ih (cost + first.processingCost)
      refine ⟨?_, ?_, by simp⟩
      · simpa using cut
      · simp only [costs, totalCost]
        omega

/-- With no task and a queue, a batch is spawned from the front of the queue. -/
theorem mustSpawn_ok {target : Nat} (idle : state.processingTask = none) (queued : state.queue ≠ []) :
    ∃ batch rest, state.queue = batch ++ rest ∧ batch ≠ [] ∧ state.mustSpawn target =
      .ok { state with queue := rest, bufCost := state.bufCost - totalCost batch, processingTask := some batch } := by
  obtain ⟨cut, costs, empty⟩ := @drain_eq target 0 state.queue
  have some_ : (drain target 0 state.queue).1 ≠ [] := fun none => queued (empty none)
  refine ⟨_, _, cut, some_, ?_⟩
  simp [mustSpawn, drainAndSpawn, idle, some_, costs]

/-- Nothing is spawned from an empty queue. -/
theorem mustSpawn_empty (empty : state.queue = []) : state.mustSpawn target = .error .mustSpawn := by
  cases busy : state.processingTask <;> simp [mustSpawn, drainAndSpawn, empty, drain, busy]

theorem clamp_bounds {size : Nat} (ordered : config.minBatchSize ≤ config.maxBatchSize) :
    ∃ clamped, config.clamp size = .ok clamped ∧ config.minBatchSize ≤ clamped ∧ clamped ≤ config.maxBatchSize := by
  unfold BatchConfig.clamp
  rw [if_neg (by omega)]
  split
  · exact ⟨_, rfl, le_rfl, ordered⟩
  · split
    · exact ⟨_, rfl, ordered, le_rfl⟩
    · exact ⟨_, rfl, by omega, by omega⟩

theorem calculateBatchSize_bounds {cost : Nat} (ordered : state.config.minBatchSize ≤ state.config.maxBatchSize)
    (low : state.config.minBatchSize ≤ state.currentBatchSize) : ∃ size, state.calculateBatchSize now cost = .ok size ∧
      state.config.minBatchSize ≤ size ∧ size ≤ state.config.maxBatchSize := by
  have computed : ∃ size, (if state.config.stepBase = 0 ∨ cost < state.config.stepBase then
        .ok state.config.minBatchSize
      else state.config.clamp (state.config.stepBase * (1 <<< (cost / state.config.stepBase).log2))) =
        Except.ok size ∧ state.config.minBatchSize ≤ size ∧ size ≤ state.config.maxBatchSize := by
    split
    · exact ⟨_, rfl, le_rfl, ordered⟩
    · exact clamp_bounds ordered
  obtain ⟨size, is, above, below⟩ := computed
  simp only [calculateBatchSize, is, Except.map]
  refine ⟨_, rfl, ?_, ?_⟩
  · split
    · exact le_min above low
    · exact above
  · split
    · exact le_trans (min_le_left _ _) below
    · exact below

/-! ### One event -/

/-- What every event keeps, whoever is to spawn next. -/
structure Sound (config : BatchConfig) (state : HandleChangesState) : Prop where
  same : state.config = config
  cost : state.bufCost = totalCost state.queue
  length : state.queue.length ≤ max 1 config.maxQueueLen
  low : config.minBatchSize ≤ state.currentBatchSize
  high : state.currentBatchSize ≤ config.maxBatchSize
  notTooMany : state.tooManyChanges = false

/-- Between events: a running timer means that less than the threshold is queued. -/
structure Settled (config : BatchConfig) (state : HandleChangesState) : Prop extends Sound config state where
  oneOf : state.processingTask.isSome ≠ state.maxWait
  below : state.maxWait = true → state.bufCost < state.batchThreshold

theorem Settled.inOrder (settled : Settled config state) : InOrder state := by
  obtain ⟨⟨rfl, cost, length, low, high, notTooMany⟩, oneOf, _⟩ := settled
  exact ⟨cost, length, oneOf, low, high, notTooMany⟩

/-- A state whose timer is stopped and whose task runs is settled. -/
theorem Sound.settled (sound : Sound config state) (busy : state.processingTask.isSome)
    (stopped : state.maxWait = false) : Settled config state :=
  ⟨sound, by simp [busy, stopped], by simp [stopped]⟩

/-- The threshold of a larger batch is not lower. -/
theorem threshold_positive
    (smallest : 1 ≤ config.minBatchSize * config.batchThresholdRatio.num / config.batchThresholdRatio.den)
    (sound : Sound config state) : 1 ≤ state.batchThreshold := by
  unfold batchThreshold
  rw [sound.same]
  apply le_trans smallest
  apply Nat.div_le_div_right
  exact Nat.mul_le_mul_right _ sound.low

/-- Something queued can be spawned. -/
theorem Sound.mustSpawn (sound : Sound config state) (idle : state.processingTask = none)
    (queued : state.queue ≠ []) (target : Nat) :
    ∃ next, state.mustSpawn target = .ok next ∧ Sound config next ∧ next.processingTask.isSome ∧
      next.maxWait = state.maxWait := by
  obtain ⟨_, _, cut, _, spawned⟩ := @mustSpawn_ok state target idle queued
  refine ⟨_, spawned, ⟨sound.same, ?_, ?_, sound.low, sound.high, sound.notTooMany⟩, rfl, rfl⟩
  · have cost := sound.cost
    rw [cut, totalCost_append] at cost
    simp only [cost]
    omega
  · have length := sound.length
    rw [cut, List.length_append] at length
    exact le_trans (Nat.le_add_left _ _) length

section
variable (ordered : config.minBatchSize ≤ config.maxBatchSize) (sound : Sound config state)
include ordered sound

theorem Sound.calculate (now cost : Nat) : ∃ size, state.calculateBatchSize now cost = .ok size ∧
      Sound config { state with currentBatchSize := size } := by
  obtain ⟨rfl, cost_, length, low, _, notTooMany⟩ := sound
  obtain ⟨size, is, above, below⟩ := @calculateBatchSize_bounds state now cost ordered low
  exact ⟨size, is, ⟨rfl, cost_, length, above, below, notTooMany⟩⟩

theorem Sound.burst (idle : state.processingTask = none) (stopped : state.maxWait = false) (queued : state.queue ≠ []) :
    ∃ next, state.burstAndSpawn now = .ok next ∧ Settled config next := by
  have sized : ∃ size, state.burstSize now = .ok size ∧ Sound config { state with currentBatchSize := size } := by
    unfold burstSize
    split
    · exact sound.calculate ordered now state.bufCost
    · exact ⟨_, rfl, sound⟩
  obtain ⟨size, is, resized⟩ := sized
  obtain ⟨next, spawned, after, busy, timer⟩ := resized.mustSpawn idle queued size
  refine ⟨next, ?_, after.settled busy (timer.trans stopped)⟩
  rw [burstAndSpawn, is]
  exact spawned

end

/-- A cost at or above a positive threshold is the cost of something. -/
theorem Sound.queued
    (smallest : 1 ≤ config.minBatchSize * config.batchThresholdRatio.num / config.batchThresholdRatio.den)
    (sound : Sound config state) (reached : state.batchThreshold ≤ state.bufCost) : state.queue ≠ [] := by
  intro empty
  have positive := threshold_positive smallest sound
  have nothing := sound.cost
  rw [empty, totalCost] at nothing
  omega

section
variable (ordered : config.minBatchSize ≤ config.maxBatchSize)
  (smallest : 1 ≤ config.minBatchSize * config.batchThresholdRatio.num / config.batchThresholdRatio.den)
  (settled : Settled config state)
include ordered smallest settled

theorem settled_taskCompletion (busy : state.processingTask.isSome) (result : TaskResult) :
    ∃ next, state.handleTaskCompletion now result = .ok next ∧ Settled config next := by
  have stopped : state.maxWait = false := by
    have one := settled.oneOf
    rw [busy] at one
    simpa using one.symm
  -- the emergency halving leaves the size within its limits
  have sound : Sound config (state.noteResult now result) := by
    unfold noteResult
    split
    · obtain ⟨rfl, cost, length, low, high, notTooMany⟩ := settled.toSound
      exact ⟨rfl, cost, length, le_max_right _ _, max_le (le_trans (Nat.div_le_self _ _) high) ordered, notTooMany⟩
    · exact settled.toSound
  have idle : Sound config { state.noteResult now result with processingTask := none } :=
    ⟨sound.same, sound.cost, sound.length, sound.low, sound.high, sound.notTooMany⟩
  have timer : (state.noteResult now result).maxWait = false := by
    unfold noteResult
    split <;> exact stopped
  unfold handleTaskCompletion
  dsimp only
  split
  · rename_i reached
    exact idle.burst ordered rfl timer (idle.queued smallest reached)
  · rename_i below
    exact ⟨_, rfl, ⟨⟨idle.same, idle.cost, idle.length, idle.low, idle.high, idle.notTooMany⟩,
      by simp, fun _ => Nat.lt_of_not_le below⟩⟩

theorem settled_timeout (waiting : state.maxWait = true) :
    ∃ next, state.handleTimeout now = .ok next ∧ Settled config next := by
  have idle : state.processingTask = none := by
    have one := settled.oneOf
    rw [waiting] at one
    simpa using one
  have few := settled.below waiting
  have sound : Sound config { state with maxWait := false } :=
    ⟨settled.same, settled.cost, settled.length, settled.low, settled.high, settled.notTooMany⟩
  by_cases empty : state.queue = []
  · obtain ⟨size, is, resized⟩ := sound.calculate ordered now 0
    refine ⟨{ state with currentBatchSize := size, maxWait := true }, ?_,
      ⟨⟨resized.same, resized.cost, resized.length, resized.low, resized.high, resized.notTooMany⟩,
        by simp [idle], fun _ => ?_⟩⟩
    · unfold handleTimeout
      rw [if_neg (by simp [empty]), if_pos (by simp [idle]), is]
      rfl
    · have positive := threshold_positive smallest resized
      have nothing := settled.cost
      rw [empty, totalCost] at nothing
      rw [nothing]
      exact positive
  · -- the assertion is met, as less than the threshold is queued
    have asserted : Sound config { state with
        maxWait := false
        tooManyChanges :=
          state.tooManyChanges || !(state.bufCost < batchThreshold { state with maxWait := false }) } := by
      refine ⟨settled.same, settled.cost, settled.length, settled.low, settled.high, ?_⟩
      simp only [settled.notTooMany, Bool.false_or, Bool.not_eq_false', decide_eq_true_eq]
      exact few
    obtain ⟨next, spawned, after, busy, timer⟩ := asserted.mustSpawn idle empty usizeMax
    obtain ⟨size, is, resized⟩ := after.calculate ordered now state.bufCost
    refine ⟨{ next with currentBatchSize := size }, ?_, resized.settled busy timer⟩
    unfold handleTimeout
    rw [if_pos (by simpa using empty)]
    dsimp only
    rw [spawned]
    change (next.calculateBatchSize now state.bufCost >>= _) = _
    rw [is]
    rfl

end

/-! ### The queue -/

theorem settled_maybeDrop (settled : Settled config state) : Settled config state.maybeDropOldChange.1 := by
  unfold maybeDropOldChange
  split
  · split
    · exact settled
    · rename_i dropped rest queue
      have cost := settled.cost
      have length := settled.length
      rw [queue] at cost length
      simp only [totalCost, List.length_cons] at cost length
      have same : state.bufCost - dropped.processingCost = totalCost rest := by omega
      refine ⟨⟨settled.same, same, by dsimp only; omega, settled.low, settled.high, settled.notTooMany⟩,
        settled.oneOf, fun waiting => ?_⟩
      have few := settled.below waiting
      simp only [batchThreshold] at few ⊢
      omega
  · exact settled

theorem settled_dropLoop {turns : Nat} (settled : Settled config state) : Settled config (dropLoop turns state).1 := by
  induction turns generalizing state with
  | zero => exact settled
  | succ turns ih =>
    have once := settled_maybeDrop settled
    simp only [dropLoop]
    split
    · rename_i after is
      rw [is] at once
      exact once
    · rename_i after dropped is
      rw [is] at once
      exact ih once

/-- After the drop loop there is room for one more change, or the queue is empty. -/
theorem dropLoop_room {turns : Nat} (enough : state.queue.length ≤ turns) :
    (dropLoop turns state).1.queue = [] ∨ (dropLoop turns state).1.queue.length < state.config.maxQueueLen := by
  induction turns generalizing state with
  | zero => exact .inl (List.eq_nil_of_length_eq_zero (Nat.le_zero.mp enough))
  | succ turns ih =>
    cases queue : state.queue with
    | nil =>
      left
      simp [dropLoop, maybeDropOldChange, queue]
    | cons first rest =>
      by_cases full : state.config.maxQueueLen ≤ state.queue.length
      · rw [queue] at full enough
        have later := @ih { state with queue := rest, bufCost := state.bufCost - first.processingCost }
          (Nat.le_of_succ_le_succ enough)
        simpa only [dropLoop, maybeDropOldChange, queue, if_pos full] using later
      · right
        simp only [dropLoop, maybeDropOldChange, if_neg full]
        exact Nat.lt_of_not_le full

theorem settled_newChange (ordered : config.minBatchSize ≤ config.maxBatchSize)
    (settled : Settled config state) (change : ChangeV1) :
    ∃ next, stepBatch state (.newChange now change) = .ok next ∧ Settled config next := by
  have room := @dropLoop_room state _ le_rfl
  have dropped := @settled_dropLoop _ state state.queue.length settled
  change ∃ next, (dropLoop state.queue.length state).1.handleNewChange now change = .ok next ∧ _
  generalize (dropLoop state.queue.length state).1 = before at room dropped ⊢
  rw [settled.same] at room
  have pushed : Sound config { before with queue := before.queue ++ [change],
                                           bufCost := before.bufCost + change.processingCost } := by
    refine ⟨dropped.same, ?_, ?_, dropped.low, dropped.high, dropped.notTooMany⟩
    · simp [totalCost, dropped.cost]
    · rcases room with empty | short
      · simp [empty]
      · simp only [List.length_append, List.length_singleton]
        exact le_trans short (Nat.le_max_right _ _)
  simp only [handleNewChange]
  split
  · rename_i ready
    have stopped : Sound config { before with queue := before.queue ++ [change],
                                              bufCost := before.bufCost + change.processingCost,
                                              maxWait := false } :=
      ⟨pushed.same, pushed.cost, pushed.length, pushed.low, pushed.high, pushed.notTooMany⟩
    exact stopped.burst ordered ready.2 rfl (by simp)
  · rename_i notReady
    refine ⟨_, rfl, ⟨pushed, dropped.oneOf, fun waiting => ?_⟩⟩
    have idle : before.processingTask = none := by
      have one := dropped.oneOf
      rw [show before.maxWait = true from waiting] at one
      simpa using one
    exact Nat.lt_of_not_le fun reached => notReady ⟨reached, idle⟩

/-! ### Whole runs -/

section
variable (ordered : config.minBatchSize ≤ config.maxBatchSize)
  (smallest : 1 ≤ config.minBatchSize * config.batchThresholdRatio.num / config.batchThresholdRatio.den)
include ordered smallest

theorem settled_step (settled : Settled config state) (armed : Armed state event) :
    ∃ next, stepBatch state event = .ok next ∧ Settled config next := by
  cases event with
  | newChange now change => exact settled_newChange ordered settled change
  | taskCompletion now result => exact settled_taskCompletion ordered smallest settled armed result
  | timeout now => exact settled_timeout ordered smallest settled armed

theorem settled_reached (reached : Reached config state) : Settled config state := by
  induction reached with
  | start =>
    refine ⟨⟨rfl, rfl, Nat.zero_le _, le_rfl, ordered, rfl⟩, by simp [HandleChangesState.new], fun _ => ?_⟩
    exact smallest
  | step _ armed turn ih =>
    obtain ⟨_, is, settled⟩ := settled_step ordered smallest ih armed
    rw [is] at turn
    cases turn
    exact settled

end

/-- One cleared version. -/
def oneCleared : ChangeV1 := ⟨1, .empty (.single 1) none⟩

/-- With a threshold of zero, a batch that ends with nothing queued brings the loop down. -/
theorem zero_threshold_panics (positive : 1 ≤ config.minBatchSize)
    (zero : config.minBatchSize * config.batchThresholdRatio.num / config.batchThresholdRatio.den = 0) :
    ∃ spawned, stepBatch (.new config) (.newChange 0 oneCleared) = .ok spawned ∧
      spawned.processingTask = some [oneCleared] ∧ stepBatch spawned (.taskCompletion 0 .ok) = .error .mustSpawn := by
  have cost : oneCleared.processingCost = 1 := rfl
  have small : ¬ config.minBatchSize < 1 := by omega
  have drained : drain config.minBatchSize 0 [oneCleared] = ([oneCleared], 1, []) := by
    simp only [drain, cost]
    split <;> rfl
  refine ⟨{ HandleChangesState.new config with processingTask := some [oneCleared], maxWait := false }, ?_, rfl, ?_⟩
  · simp [stepBatch, dropOldChanges, dropLoop, handleNewChange, HandleChangesState.new, batchThreshold, zero,
      burstAndSpawn, burstSize, cost, small, mustSpawn, drainAndSpawn, drained, bind, Except.bind]
  · simp [stepBatch, handleTaskCompletion, noteResult, HandleChangesState.new, batchThreshold, zero, burstAndSpawn,
      burstSize, bind, Except.bind, mustSpawn_empty]

/-- **When the batching holds together.** For a configuration with
`1 ≤ min_batch_size ≤ max_batch_size`, every state the select loop can lead to is
in order and no event panics there, if and only if the threshold of the smallest
batch is at least one. -/
theorem batching_in_order_iff (config : BatchConfig) (positive : 1 ≤ config.minBatchSize)
    (ordered : config.minBatchSize ≤ config.maxBatchSize) : (∀ state, Reached config state → InOrder state ∧
      ∀ event, Armed state event → ∃ next, stepBatch state event = .ok next) ↔
    1 ≤ config.minBatchSize * config.batchThresholdRatio.num / config.batchThresholdRatio.den := by
  constructor
  · intro holds
    by_contra below
    obtain ⟨spawned, first, busy, panics⟩ := zero_threshold_panics positive (Nat.eq_zero_of_not_pos below)
    have reached : Reached config spawned := @Reached.step config _ _ (.newChange 0 oneCleared) .start trivial first
    obtain ⟨next, ok⟩ := (holds spawned reached).2 (.taskCompletion 0 .ok) (by simp [Armed, busy])
    rw [panics] at ok
    cases ok
  · intro smallest state reached
    have settled := settled_reached ordered smallest reached
    refine ⟨settled.inOrder, fun event armed => ?_⟩
    obtain ⟨next, is, _⟩ := settled_step ordered smallest settled armed
    exact ⟨next, is⟩

/-- Ninety percent. -/
def nineTenths : ThresholdRatio := ⟨9, 10, by decide, by decide⟩

/-- The shipped configuration, but for its queue length. -/
def shippedConfig : BatchConfig := ⟨20000, 100, 500, 16000, nineTenths, 60000⟩

theorem shipped_config_in_order : 1 ≤ shippedConfig.minBatchSize ∧ ∀ state, Reached shippedConfig state →
    InOrder state ∧ ∀ event, Armed state event → ∃ next, stepBatch state event = .ok next :=
  ⟨by decide, (batching_in_order_iff shippedConfig (by decide) (by decide)).mpr (by decide)⟩

/-- Batches of one change. -/
def singleConfig : BatchConfig := ⟨20000, 1, 500, 16000, nineTenths, 60000⟩

/-- Batches of one change and a ratio of nine tenths: the first change is spawned,
and when its batch has been applied the loop panics. -/
theorem batch_of_one_panics : 1 ≤ singleConfig.minBatchSize ∧ singleConfig.minBatchSize ≤ singleConfig.maxBatchSize ∧
    ∃ spawned, stepBatch (.new singleConfig) (.newChange 0 oneCleared) = .ok spawned ∧
      Armed spawned (.taskCompletion 0 .ok) ∧ stepBatch spawned (.taskCompletion 0 .ok) = .error .mustSpawn :=
  ⟨by decide, by decide, _, rfl, rfl, rfl⟩

end Galvanize.BatchingProofs
