import Galvanize.Subscription

/-! The change ids a subscriber is sent. They count up by one from where its
stream starts as long as every hand-over is clean: the change being sent is not
one the receiver came too late for, nothing delivered from the database is still
under way when the buffering is cancelled, the buffering does not lag, and no
change that was sent is rolled back. -/
namespace Galvanize.StreamContinuity
open List Option

/-! ### The matcher and its channels -/

variable {hub next : Hub} {position : Nat}

/-- The id of the last change handed to the channel. -/
def emitted (hub : Hub) : Nat := hub.restoredTo + (changeIds (hub.log ++ hub.evtChannel)).length

/-- The changes a receiver at this position has still to read. -/
def unread (hub : Hub) (position : Nat) : List Nat := changeIds (hub.log.drop position ++ hub.evtChannel)

@[simp] theorem changeIds_append : changeIds (left ++ right) = changeIds left ++ changeIds right :=
    List.filterMap_append

variable {id : Nat}

@[simp] theorem changeIds_change : changeIds [.change id] = [id] := rfl

@[simp] theorem changeIds_other : changeIds [.other] = [] := rfl

structure HubSound (hub : Hub) : Prop where
  rows : ∃ first, 1 ≤ first ∧ Consecutive first (hub.changes ++ hub.uncommitted)
  events : Consecutive (hub.restoredTo + 1) (changeIds (hub.log ++ hub.evtChannel))
  sent : emitted hub ≤ hub.lastId
  sentAll : hub.closing = false → emitted hub = hub.lastId
  noting : ∀ id, hub.noting = some id → id = hub.lastId ∧ id = hub.lastChangeSent + 1 ∧ hub.restoredTo < id
  noted : hub.noting = none → hub.lastChangeSent = hub.lastId

/-- What a step of the matcher or the relay is to a receiver: nothing, or one more
change, with the next id. -/
structure HubMoves (hub next : Hub) : Prop where
  log : hub.log.length ≤ next.log.length
  known : ∀ position, position ≤ hub.log.length → hub.log.take position = next.log.take position
  moves : (hub.lastId ≤ next.lastId ∧ emitted next = emitted hub ∧
      ∀ position, position ≤ hub.log.length → unread next position = unread hub position) ∨
    (next.lastId = hub.lastId + 1 ∧ emitted next = emitted hub + 1 ∧ emitted hub = hub.lastId ∧
      ∀ position, position ≤ hub.log.length → unread next position = unread hub position ++ [hub.lastId + 1])

variable {ids : List Nat}

theorem getLast_consecutive (consecutive : Consecutive first ids) (some_ : ids ≠ []) :
    ids.getLast?.getD 0 + 1 = first + ids.length := by
  rw [getLast?_eq_getLast_of_ne_nil some_, getD_some]
  have split := dropLast_append_getLast some_
  rw [← split, consecutive_append] at consecutive
  obtain ⟨_, last, _⟩ := consecutive
  rw [last, length_dropLast]
  have positive := length_pos_iff.mpr some_
  omega

theorem consecutive_next (rows : ∃ first, 1 ≤ first ∧ Consecutive first ids) :
    ∃ first, 1 ≤ first ∧ Consecutive first (ids ++ [ids.getLast?.getD 0 + 1]) := by
  obtain ⟨first, positive, consecutive⟩ := rows
  by_cases none_ : ids = []
  · subst none_
    exact ⟨1, Nat.le_refl _, rfl, trivial⟩
  · refine ⟨first, positive, consecutive_append.mpr ⟨consecutive, ?_, trivial⟩⟩
    exact getLast_consecutive consecutive none_

theorem lastId_push : ({ hub with uncommitted := hub.uncommitted ++ [hub.lastId + 1] } : Hub).lastId =
    hub.lastId + 1 := by
  simp [Hub.lastId]

/-- Purging keeps the last id and a gapless table. -/
theorem purge_rows {bound : Nat} (rows : ∃ first, 1 ≤ first ∧ Consecutive first ids)
    (low : bound ≤ ids.getLast?.getD 0) :
    (∃ first, 1 ≤ first ∧ Consecutive first (ids.filter (fun id => !(id < bound)))) ∧
      (ids.filter (fun id => !(id < bound))).getLast?.getD 0 = ids.getLast?.getD 0 := by
  obtain ⟨first, positive, consecutive⟩ := rows
  by_cases none_ : ids = []
  · subst none_
    exact ⟨⟨1, Nat.le_refl _, trivial⟩, rfl⟩
  · have last := getLast_consecutive consecutive none_
    by_cases all : bound ≤ first
    · have every : ids.filter (fun id => !(id < bound)) = ids := by
        rw [filter_eq_self]
        intro id listed
        have bounds := consecutive.mem listed
        simp only [Bool.not_eq_true', decide_eq_false_iff_not]
        omega
      rw [every]
      exact ⟨⟨first, positive, consecutive⟩, rfl⟩
    · obtain ⟨before, rfl⟩ : ∃ before, bound = before + 1 := ⟨bound - 1, by omega⟩
      have same : (fun id => !decide (id < before + 1)) = (fun id => decide (before < id)) := by
        funext id
        by_cases below : id < before + 1
        · simp [below, show ¬ before < id by omega]
        · simp [below, show before < id by omega]
      rw [same]
      obtain ⟨kept, length⟩ := consecutive.filter_above (show first ≤ before + 1 by omega)
      have some_ : ids.filter (before < ·) ≠ [] := by
        intro empty
        rw [empty, length_nil] at length
        omega
      refine ⟨⟨before + 1, by omega, kept⟩, ?_⟩
      have keptLast := getLast_consecutive kept some_
      omega

/-- No change that was sent is rolled back. -/
def KeepsSent (hub : Hub) (action : HubAction) : Prop := action = .rollback → hub.uncommitted = []

/-- A step that touches neither the table nor the events. -/
theorem hubMoves_same (log : next.log = hub.log) (channel : changeIds next.evtChannel = changeIds hub.evtChannel)
    (restored : next.restoredTo = hub.restoredTo) (last : hub.lastId ≤ next.lastId) : HubMoves hub next := by
  refine ⟨Nat.le_of_eq (by rw [log]), fun position _ => by rw [log], .inl ⟨last, ?_, fun position _ => ?_⟩⟩
  · simp only [emitted, restored, log, changeIds_append, channel]
  · simp only [unread, log, changeIds_append, channel]

section Actions
variable (sound : HubSound hub)
include sound

private theorem hub_sendOther (turn : hub.step .sendOther = some next) :
    HubSound next ∧ HubMoves hub next := by
  simp only [Hub.step, ite_none_left_eq_some, some.injEq] at turn
  obtain ⟨_, rfl⟩ := turn
  have same : emitted { hub with evtChannel := hub.evtChannel ++ [.other] } = emitted hub := by simp [emitted]
  refine ⟨⟨sound.rows, ?_, same ▸ sound.sent, fun open_ => same ▸ sound.sentAll open_, sound.noting, sound.noted⟩,
    hubMoves_same rfl (by simp) rfl (Nat.le_refl _)⟩
  simpa using sound.events

private theorem hub_insertAndSend (turn : hub.step .insertAndSend = some next) :
    HubSound next ∧ HubMoves hub next := by
  simp only [Hub.step, ite_none_left_eq_some, some.injEq, not_or, Bool.not_eq_true] at turn
  obtain ⟨⟨open_, idle⟩, rfl⟩ := turn
  have noNote : hub.noting = none := by simpa using idle
  have all := sound.sentAll open_
  have last : Hub.lastId { hub with
      uncommitted := hub.uncommitted ++ [hub.lastId + 1]
      evtChannel := hub.evtChannel ++ [.change (hub.lastId + 1)]
      noting := some (hub.lastId + 1) } = hub.lastId + 1 := lastId_push
  have more : emitted { hub with
      uncommitted := hub.uncommitted ++ [hub.lastId + 1]
      evtChannel := hub.evtChannel ++ [.change (hub.lastId + 1)]
      noting := some (hub.lastId + 1) } = emitted hub + 1 := by
    simp [emitted, Nat.add_assoc]
  refine ⟨⟨?_, ?_, Nat.le_of_eq (by rw [more, last, all]), fun _ => by rw [more, last, all], ?_, by simp⟩,
    ⟨Nat.le_refl _, fun _ _ => rfl, .inr ⟨last, more, all, fun position _ => by simp [unread]⟩⟩⟩
  · have grown := consecutive_next sound.rows
    rw [List.append_assoc] at grown
    exact grown
  · have events := sound.events
    simp only [changeIds_append, changeIds_change, ← List.append_assoc] at events ⊢
    refine consecutive_append.mpr ⟨events, ?_, trivial⟩
    simp only [emitted, changeIds_append] at all
    omega
  · intro id is
    obtain rfl := some.inj is
    refine ⟨last.symm, ?_, ?_⟩
    · rw [sound.noted noNote]
    · have lower : hub.restoredTo ≤ emitted hub := Nat.le_add_right _ _
      dsimp only
      omega

private theorem hub_insertSilently (turn : hub.step .insertSilently = some next) :
    HubSound next ∧ HubMoves hub next := by
  simp only [Hub.step, ite_none_left_eq_some, some.injEq, Bool.not_eq_true] at turn
  obtain ⟨idle, rfl⟩ := turn
  have noNote : hub.noting = none := by simpa using idle
  have last : Hub.lastId { hub with
      closing := true
      uncommitted := hub.uncommitted ++ [hub.lastId + 1]
      noting := some (hub.lastId + 1) } = hub.lastId + 1 := lastId_push
  have upper := sound.sent
  have lower : hub.restoredTo ≤ emitted hub := Nat.le_add_right _ _
  refine ⟨⟨?_, sound.events, ?_, by simp, ?_, by simp⟩, hubMoves_same rfl rfl rfl (by rw [last]; omega)⟩
  · have grown := consecutive_next sound.rows
    rw [List.append_assoc] at grown
    exact grown
  · rw [last]
    exact Nat.le_succ_of_le upper
  · intro id is
    obtain rfl := some.inj is
    refine ⟨last.symm, by rw [sound.noted noNote], ?_⟩
    dsimp only
    omega

private theorem hub_note (turn : hub.step .note = some next) :
    HubSound next ∧ HubMoves hub next := by
  simp only [Hub.step, map_eq_some_iff] at turn
  obtain ⟨id, is, rfl⟩ := turn
  obtain ⟨isLast, _, _⟩ := sound.noting id is
  exact ⟨⟨sound.rows, sound.events, sound.sent, sound.sentAll, by simp, fun _ => isLast⟩,
    hubMoves_same rfl rfl rfl (Nat.le_refl _)⟩

private theorem hub_commit (turn : hub.step .commit = some next) :
    HubSound next ∧ HubMoves hub next := by
  simp only [Hub.step, ite_none_left_eq_some, some.injEq, Bool.not_eq_true] at turn
  obtain ⟨idle, rfl⟩ := turn
  have last : Hub.lastId { hub with changes := hub.changes ++ hub.uncommitted, uncommitted := [] } = hub.lastId := by
    simp [Hub.lastId]
  refine ⟨⟨by simpa using sound.rows, sound.events, last ▸ sound.sent,
    fun open_ => (sound.sentAll open_).trans last.symm,
    ?_, fun none_ => (sound.noted none_).trans last.symm⟩, hubMoves_same rfl rfl rfl (Nat.le_of_eq last.symm)⟩
  intro id is
  rw [last]
  exact sound.noting id is

private theorem hub_rollback (keeps : KeepsSent hub .rollback) (turn : hub.step .rollback = some next) :
    HubSound next ∧ HubMoves hub next := by
  simp only [Hub.step, ite_none_left_eq_some, some.injEq, Bool.not_eq_true] at turn
  obtain ⟨idle, rfl⟩ := turn
  have same : { hub with uncommitted := [] } = hub := by
    rw [← keeps rfl]
  rw [same]
  exact ⟨sound, hubMoves_same rfl rfl rfl (Nat.le_refl _)⟩

private theorem hub_purge (turn : hub.step .purge = some next) :
    HubSound next ∧ HubMoves hub next := by
  simp only [Hub.step, ite_none_right_eq_some, some.injEq, List.isEmpty_iff] at turn
  obtain ⟨nothing, rfl⟩ := turn
  have rows := sound.rows
  rw [nothing, List.append_nil] at rows
  obtain ⟨kept, keptLast⟩ := @purge_rows hub.changes (hub.maxChangeId - 500) rows (Nat.sub_le _ _)
  have last : Hub.lastId { hub with changes := hub.changes.filter (fun id => !(id < hub.maxChangeId - 500)) } =
      hub.lastId := by
    simp only [Hub.lastId, nothing, List.append_nil]
    exact keptLast
  refine ⟨⟨?_, sound.events, last ▸ sound.sent, fun open_ => (sound.sentAll open_).trans last.symm,
    ?_, fun none_ => (sound.noted none_).trans last.symm⟩, hubMoves_same rfl rfl rfl (Nat.le_of_eq last.symm)⟩
  · rw [nothing, List.append_nil]
    exact kept
  · intro id is
    rw [last]
    exact sound.noting id is

private theorem hub_relay (turn : hub.step .relay = some next) :
    HubSound next ∧ HubMoves hub next := by
  simp only [Hub.step] at turn
  cases channel : hub.evtChannel with
  | nil => simp [channel] at turn
  | cons event rest =>
    rw [channel] at turn
    obtain rfl := some.inj turn
    have events : hub.log ++ [event] ++ rest = hub.log ++ hub.evtChannel := by simp [channel]
    have same : emitted { hub with evtChannel := rest, log := hub.log ++ [event] } = emitted hub := by
      simp only [emitted, events]
    refine ⟨⟨sound.rows, ?_, same ▸ sound.sent, fun open_ => same ▸ sound.sentAll open_, sound.noting, sound.noted⟩,
      ⟨by simp, fun position within => (List.take_append_of_le_length within).symm, .inl ⟨Nat.le_refl _, same, ?_⟩⟩⟩
    · dsimp only
      rw [events]
      exact sound.events
    · intro position within
      simp [unread, List.drop_append_of_le_length within, channel]

theorem hub_step (keeps : KeepsSent hub action) (turn : hub.step action = some next) :
    HubSound next ∧ HubMoves hub next := by
  cases action with
  | sendOther => exact hub_sendOther sound turn
  | insertAndSend => exact hub_insertAndSend sound turn
  | insertSilently => exact hub_insertSilently sound turn
  | note => exact hub_note sound turn
  | commit => exact hub_commit sound turn
  | rollback => exact hub_rollback sound keeps turn
  | purge => exact hub_purge sound turn
  | relay => exact hub_relay sound turn

end Actions

/-! ### The subscriber -/

variable {sub after : Subscriber} {first : Nat}

/-- The id delivered last, or the start. -/
def reached (sub : Subscriber) : Nat := sub.start + sub.delivered.length

/-- What is taken from the broadcast and not yet sent. -/
def held (sub : Subscriber) : List Nat := sub.pendingEvent.toList ++ sub.queue

/-- Whether the next id due is known to be held or under way, by phase: `first`
is the first id that is. -/
def Due (sub : Subscriber) (first : Nat) : Prop :=
  match sub.phase with
  | .catchingUp changeId _ => first ≤ changeId + 1
  | .caughtUp => first ≤ reached sub + 1
  | .draining => first ≤ reached sub + 1
  | .forwarding => first ≤ reached sub + 1
  | _ => True

/-- Which task and which buffer go with a phase. -/
def Staged (sub : Subscriber) : Prop :=
  match sub.phase with
  | .starting => sub.pendingEvent = none ∧ sub.delivered = [] ∧ sub.cancelled = false
  | .checking => sub.pendingEvent = none ∧ sub.cancelled = false
  | .draining => sub.pendingEvent = none ∧ sub.cancelled = true
  | .forwarding => sub.pendingEvent = none ∧ sub.queue = [] ∧ sub.task = .finished
  | _ => sub.cancelled = false

/-- A stream under way. What is held and what is unread are consecutive up to the
last change sent; once the buffering has ended, all that is unread is new. -/
structure Flow (hub : Hub) (sub : Subscriber) (first : Nat) : Prop where
  position : sub.position ≤ hub.log.length
  delivered : Consecutive (sub.start + 1) sub.delivered
  held : Consecutive first (held sub)
  sent : first + (StreamContinuity.held sub).length ≤ emitted hub + 1
  coming : sub.task ≠ .failed → Consecutive (first + (StreamContinuity.held sub).length) (unread hub sub.position) ∧
    first + (StreamContinuity.held sub).length + (unread hub sub.position).length = emitted hub + 1
  last : sub.phase ≠ .starting → sub.phase ≠ .forwarding → sub.lastChangeId = reached sub
  bounded : sub.phase ≠ .starting → reached sub ≤ hub.lastId
  due : Due sub first
  staged : Staged sub
  fresh : sub.task = .finished → sub.cancelled = true ∧ ∀ id ∈ unread hub sub.position, reached sub < id

theorem Flow.not_finished (flow : Flow hub sub first) (notCancelled : sub.cancelled = false) :
    sub.task ≠ .finished := by
  intro finished
  have cancelled := (flow.fresh finished).1
  rw [notCancelled] at cancelled
  cases cancelled

/-- In every phase what has been delivered is consecutive; a stream under way flows. -/
inductive Sound (hub : Hub) (sub : Subscriber) : Prop where
  | idle (is : sub = .idle)
  | ended (is : sub.phase = .ended) (delivered : Consecutive (sub.start + 1) sub.delivered)
  | flowing (first : Nat) (flow : Flow hub sub first)

theorem Sound.delivered (sound : Sound hub sub) : Consecutive (sub.start + 1) sub.delivered := by
  cases sound with
  | idle is =>
    subst is
    trivial
  | ended is delivered => exact delivered
  | flowing _ flow => exact flow.delivered

theorem Sound.flow (sound : Sound hub sub) (underWay : sub.phase ≠ .idle) (notEnded : sub.phase ≠ .ended) :
    ∃ first, Flow hub sub first := by
  cases sound with
  | idle is =>
    subst is
    exact absurd rfl underWay
  | ended is _ => exact absurd is notEnded
  | flowing first flow => exact ⟨first, flow⟩

/-- A step of the matcher or the relay. -/
theorem Flow.hubMoves (flow : Flow hub sub first) (moves : HubMoves hub next) : Flow next sub first := by
  have position := Nat.le_trans flow.position moves.log
  rcases moves.moves with ⟨last, same, unreads⟩ | ⟨last, _, all, unreads⟩
  · have unchanged := unreads sub.position flow.position
    refine ⟨position, flow.delivered, flow.held, same ▸ flow.sent, ?_, flow.last,
      fun started => Nat.le_trans (flow.bounded started) last, flow.due, flow.staged, ?_⟩
    · rw [unchanged, same]
      exact flow.coming
    · rw [unchanged]
      exact flow.fresh
  · have grown := unreads sub.position flow.position
    refine ⟨position, flow.delivered, flow.held, Nat.le_trans flow.sent (by omega), fun alive => ?_, flow.last,
      fun started => Nat.le_trans (flow.bounded started) (by omega), flow.due, flow.staged, fun finished => ?_⟩
    · obtain ⟨consecutive, _⟩ := flow.coming alive
      rw [grown, length_append, length_singleton]
      exact ⟨consecutive_append.mpr ⟨consecutive, by omega, trivial⟩, by omega⟩
    · obtain ⟨cancelled, new⟩ := flow.fresh finished
      refine ⟨cancelled, fun id listed => ?_⟩
      rw [grown] at listed
      rcases mem_append.mp listed with old | added
      · exact new id old
      · -- the stream is past its start once the buffering has ended
        have started : sub.phase ≠ .starting := by
          intro starting
          have staged := flow.staged
          simp only [Staged, starting] at staged
          rw [staged.2.2] at cancelled
          cases cancelled
        have bounded := flow.bounded started
        rw [mem_singleton.mp added]
        omega

theorem sound_hub (sound : Sound hub sub) (moves : HubMoves hub next) : Sound next sub := by
  cases sound with
  | idle is => exact .idle is
  | ended is delivered => exact .ended is delivered
  | flowing first flow => exact .flowing first (flow.hubMoves moves)

/-! ### The buffering task -/

theorem unread_read (is : hub.log[position]? = some event) :
    unread hub position = event.changeId.toList ++ unread hub (position + 1) := by
  have drop := List.drop_eq_getElem_cons (List.getElem?_eq_some_iff.mp is).1
  rw [(List.getElem?_eq_some_iff.mp is).2] at drop
  rw [unread, unread, drop, List.cons_append, changeIds, List.filterMap_cons]
  cases event <;> rfl

/-- The first unread change is the one after those held. -/
theorem Flow.unread_head {rest : List Nat} (flow : Flow hub sub first) (alive : sub.task ≠ .failed)
    (is : unread hub sub.position = id :: rest) : id = first + (StreamContinuity.held sub).length ∧
      Consecutive (first + (StreamContinuity.held sub).length + 1) rest ∧
      first + (StreamContinuity.held sub).length + 1 + rest.length = emitted hub + 1 := by
  obtain ⟨consecutive, length⟩ := flow.coming alive
  rw [is, consecutive_cons] at consecutive
  rw [is, length_cons] at length
  exact ⟨consecutive.1, consecutive.2, by omega⟩

theorem staged_queue {queue : List Nat} {place : Nat} (staged : Staged sub) (notForwarding : sub.phase ≠ .forwarding) :
    Staged { sub with queue, position := place } := by
  unfold Staged at staged ⊢
  cases phase : sub.phase with
  | forwarding => exact absurd phase notForwarding
  | _ => simpa [phase] using staged

theorem flow_bufferReceive (flow : Flow hub sub first) (notForwarding : sub.phase ≠ .forwarding)
    (turn : sub.bufferReceive hub = some after) : Flow hub after first := by
  simp only [Subscriber.bufferReceive, ite_none_left_eq_some, not_or, not_not, map_eq_some_iff] at turn
  obtain ⟨⟨buffering, _⟩, event, is, turn⟩ := turn
  have alive : sub.task ≠ .failed := by simp [buffering]
  have within : sub.position + 1 ≤ hub.log.length := (List.getElem?_eq_some_iff.mp is).1
  have read := unread_read is
  cases isId : event.changeId with
  | none =>
    rw [isId] at turn read
    obtain rfl := turn
    refine ⟨within, flow.delivered, flow.held, flow.sent, fun _ => ?_, flow.last, flow.bounded, flow.due,
      staged_queue flow.staged notForwarding, fun finished => ?_⟩
    · have coming := flow.coming alive
      rw [read] at coming
      exact coming
    · rw [buffering] at finished
      cases finished
  | some id =>
    rw [isId] at turn read
    rw [toList_some, List.singleton_append] at read
    obtain ⟨isNext, consecutive, length⟩ := flow.unread_head alive read
    dsimp only at turn
    split at turn
    · subst turn
      have grown : StreamContinuity.held { sub with position := sub.position + 1, queue := sub.queue ++ [id] } =
          StreamContinuity.held sub ++ [id] := by simp [StreamContinuity.held]
      refine ⟨within, flow.delivered, ?_, ?_, fun _ => ?_, flow.last, flow.bounded, flow.due,
        staged_queue flow.staged notForwarding, fun finished => ?_⟩
      · rw [grown, consecutive_append]
        exact ⟨flow.held, isNext, trivial⟩
      · rw [grown, List.length_append, List.length_singleton]
        omega
      · rw [grown, List.length_append, List.length_singleton]
        exact ⟨consecutive, by dsimp only; omega⟩
      · rw [show sub.task = .finished from finished] at buffering
        cases buffering
    · subst turn
      refine ⟨within, flow.delivered, flow.held, flow.sent, fun alive => absurd rfl alive, flow.last, flow.bounded,
        flow.due, ?_, fun finished => by cases finished⟩
      have staged := @staged_queue sub sub.queue (sub.position + 1) flow.staged notForwarding
      unfold Staged at staged ⊢
      cases phase : sub.phase with
      | forwarding => exact absurd phase notForwarding
      | _ => simpa [phase] using staged

theorem flow_bufferCancel (flow : Flow hub sub first) (cancelled : sub.cancelled = true)
    (alive : sub.task ≠ .failed) (notFinished : sub.task ≠ .finished)
    (new : sub.phase = .draining → ∀ id ∈ unread hub sub.position, sub.lastChangeId < id) :
    Flow hub { sub with task := .finished } first := by
  have staged := flow.staged
  unfold Staged at staged
  have draining : sub.phase = .draining := by
    cases phase : sub.phase <;> simp [phase, cancelled] at staged
    · rfl
    · exact absurd staged.2.2 notFinished
  have last := flow.last (by simp [draining]) (by simp [draining])
  refine ⟨flow.position, flow.delivered, flow.held, flow.sent, fun _ => flow.coming alive, flow.last, flow.bounded,
    flow.due, ?_, fun _ => ⟨cancelled, fun id listed => ?_⟩⟩
  · unfold Staged
    simpa [draining] using staged
  · change reached sub < id
    rw [← last]
    exact new draining id listed

/-! ### Catching up -/

/-- The database gives the changes after an id, up to the last one committed. -/
theorem changesSince_ok (sound : HubSound hub) (is : hub.changesSince since = some ids) :
    Consecutive (since + 1) ids ∧ (since ≤ hub.lastId → since + ids.length ≤ hub.lastId) := by
  obtain ⟨start, _, rows⟩ := sound.rows
  obtain ⟨committed, _⟩ := consecutive_append.mp rows
  simp only [Hub.changesSince, ite_none_left_eq_some, some.injEq] at is
  obtain ⟨kept, rfl⟩ := is
  by_cases none_ : hub.changes = []
  · simp [none_]
  · have begins : start ≤ since + 1 := by
      cases list : hub.changes with
      | nil => exact absurd list none_
      | cons _ _ =>
        rw [list] at committed kept
        rw [← committed.1]
        simpa using kept
    obtain ⟨consecutive, length⟩ := committed.filter_above begins
    refine ⟨consecutive, fun low => ?_⟩
    rw [length]
    have some_ : hub.changes ++ hub.uncommitted ≠ [] := by simp [none_]
    have last := getLast_consecutive rows some_
    rw [length_append] at last
    refine Nat.max_le.mpr ⟨low, ?_⟩
    change start + hub.changes.length - 1 ≤ (hub.changes ++ hub.uncommitted).getLast?.getD 0
    omega

theorem maxChangeId_le (sound : HubSound hub) : hub.maxChangeId ≤ hub.lastId := by
  obtain ⟨_, _, rows⟩ := sound.rows
  obtain ⟨committed, _⟩ := consecutive_append.mp rows
  by_cases none_ : hub.changes = []
  · simp [Hub.maxChangeId, none_]
  · have some_ : hub.changes ++ hub.uncommitted ≠ [] := by simp [none_]
    have last := getLast_consecutive rows some_
    have max := getLast_consecutive committed none_
    rw [length_append] at last
    change hub.changes.getLast?.getD 0 ≤ (hub.changes ++ hub.uncommitted).getLast?.getD 0
    omega

variable {cut : Option Nat}

/-- Catching up from the id reached leads on, or ends the stream. -/
theorem sound_catchUpFrom {phase : CatchUpPhase} (hubSound : HubSound hub)
    (delivered : Consecutive (sub.start + 1) sub.delivered) (bounded : reached sub ≤ hub.lastId)
    (leads : ∀ ids, Consecutive (reached sub + 1) ids → reached sub + ids.length ≤ hub.lastId →
      Sound hub { sub with phase, delivered := sub.delivered ++ ids, lastChangeId := reached sub + ids.length }) :
     Sound hub (sub.catchUpFrom hub (reached sub) cut phase) := by
  unfold Subscriber.catchUpFrom
  cases is : hub.changesSince (reached sub) with
  | none => exact .ended rfl delivered
  | some ids =>
    obtain ⟨consecutive, length⟩ := changesSince_ok hubSound is
    have due : reached sub + 1 = sub.start + 1 + sub.delivered.length := by
      unfold reached
      omega
    cases cut with
    | some count =>
      refine .ended rfl (consecutive_append.mpr ⟨delivered, ?_⟩)
      rw [← due]
      exact consecutive.take count
    | none =>
      have goes := leads ids consecutive (length bounded)
      rw [← consecutive.foldl_max] at goes
      exact goes

theorem sound_attempt {changeId attempts : Nat} (hubSound : HubSound hub) (flow : Flow hub sub first)
    (phase : sub.phase = .catchingUp changeId attempts) : Sound hub (sub.attempt hub cut changeId attempts) := by
  have last := flow.last (by simp [phase]) (by simp [phase])
  have bounded := flow.bounded (by simp [phase])
  have due := flow.due
  have staged := flow.staged
  simp only [Due, phase] at due
  simp only [Staged, phase] at staged
  unfold Subscriber.attempt
  split
  · exact .ended rfl flow.delivered
  split
  · rw [last]
    refine sound_catchUpFrom hubSound flow.delivered bounded fun ids consecutive length => .flowing first ?_
    have more : reached { sub with phase := .catchingUp changeId (attempts + 1), delivered := sub.delivered ++ ids,
                                   lastChangeId := reached sub + ids.length } = reached sub + ids.length := by
      simp [reached, Nat.add_assoc]
    refine ⟨flow.position, consecutive_append.mpr ⟨flow.delivered, ?_⟩, flow.held, flow.sent, flow.coming,
      fun _ _ => more.symm, fun _ => more ▸ length, due, staged, fun finished => ?_⟩
    · rw [show sub.start + 1 + sub.delivered.length = reached sub + 1 by unfold reached; omega]
      exact consecutive
    · exact absurd finished (flow.not_finished staged)
  · rename_i caughtUp
    refine .flowing first ⟨flow.position, flow.delivered, flow.held, flow.sent, flow.coming, fun _ _ => last,
      fun _ => bounded, ?_, staged, fun finished => ?_⟩
    · change first ≤ reached sub + 1
      omega
    · exact absurd finished (flow.not_finished staged)

/-- The first look into the buffer. An empty buffer is compared with
`last_change_id_sent`, which may be one behind. -/
theorem sound_tryRecv (hubSound : HubSound hub) (flow : Flow hub sub first) (phase : sub.phase = .checking)
    (inTime : sub.queue = [] → ∀ id, hub.noting = some id → id ∉ changeIds (hub.log.take sub.position)) :
    Sound hub (sub.tryRecv hub) := by
  have last := flow.last (by simp [phase]) (by simp [phase])
  have bounded := flow.bounded (by simp [phase])
  have staged := flow.staged
  simp only [Staged, phase] at staged
  obtain ⟨noPending, notCancelled⟩ := staged
  have notFinished := flow.not_finished notCancelled
  unfold Subscriber.tryRecv
  cases queue : sub.queue with
  | cons id rest =>
    have same : StreamContinuity.held { sub with queue := rest, pendingEvent := some id, phase := .catchingUp id 0 } =
        StreamContinuity.held sub := by simp [StreamContinuity.held, noPending, queue]
    have isFirst : id = first := by
      have held := flow.held
      rw [StreamContinuity.held, noPending, queue] at held
      exact held.1
    refine .flowing first ⟨flow.position, flow.delivered, same ▸ flow.held, same ▸ flow.sent, same ▸ flow.coming,
      fun _ _ => last, fun _ => bounded, ?_, notCancelled, fun finished => absurd finished notFinished⟩
    change first ≤ id + 1
    omega
  | nil =>
    dsimp only
    split
    · exact .ended rfl flow.delivered
    rename_i alive
    -- whatever was sent before the receiver joined has been noted
    have noted : first ≤ hub.lastChangeSent + 1 := by
      obtain ⟨_, length⟩ := flow.coming alive
      have sent := hubSound.sent
      cases noting : hub.noting with
      | none =>
        have noted := hubSound.noted noting
        omega
      | some id =>
        obtain ⟨_, _, _⟩ := hubSound.noting id noting
        by_cases behind : emitted hub < id
        · omega
        · have all : id ∈ changeIds (hub.log ++ hub.evtChannel) := by
            have events := hubSound.events
            have count : emitted hub = hub.restoredTo + (changeIds (hub.log ++ hub.evtChannel)).length := rfl
            have some_ : changeIds (hub.log ++ hub.evtChannel) ≠ [] := by
              intro empty
              rw [empty, length_nil] at count
              omega
            have lastEvent := getLast_consecutive events some_
            rw [getLast?_eq_getLast_of_ne_nil some_, getD_some] at lastEvent
            have isGetLast : id = (changeIds (hub.log ++ hub.evtChannel)).getLast some_ := by omega
            rw [isGetLast]
            exact getLast_mem some_
          have stillUnread : id ∈ unread hub sub.position := by
            rw [← take_append_drop sub.position hub.log, append_assoc, changeIds_append] at all
            exact (mem_append.mp all).resolve_left (inTime queue id noting)
          have positive := length_pos_of_mem stillUnread
          omega
    have flowing : ∀ next, Due { sub with phase := next } first → Staged { sub with phase := next } →
        next ≠ .starting → next ≠ .forwarding → Sound hub { sub with phase := next } := by
      intro next due staged _ _
      exact .flowing first ⟨flow.position, flow.delivered, flow.held, flow.sent, flow.coming, fun _ _ => last,
        fun _ => bounded, due, staged, fun finished => absurd finished notFinished⟩
    rw [← queue]
    split
    · rename_i upToDate
      refine flowing .caughtUp ?_ notCancelled (by simp) (by simp)
      change first ≤ reached sub + 1
      omega
    · exact flowing (.catchingUp hub.lastChangeSent 0) noted notCancelled (by simp) (by simp)

/-! ### Sending what was buffered -/

/-- A change that is due, or was delivered before. -/
theorem sendIfRecent_reached (last : sub.lastChangeId = reached sub)
    (delivered : Consecutive (sub.start + 1) sub.delivered) (due : id ≤ reached sub + 1) :
    Consecutive ((sub.sendIfRecent id).start + 1) (sub.sendIfRecent id).delivered ∧
      (sub.sendIfRecent id).lastChangeId = reached (sub.sendIfRecent id) ∧
      reached (sub.sendIfRecent id) = max (reached sub) id := by
  unfold Subscriber.sendIfRecent
  split
  · rename_i recent
    have more : reached { sub with delivered := sub.delivered ++ [id], lastChangeId := id } = reached sub + 1 := by
      simp [reached, Nat.add_assoc]
    rw [more]
    have isDue : id = reached sub + 1 := by omega
    refine ⟨consecutive_append.mpr ⟨delivered, ?_, trivial⟩, isDue, by omega⟩
    change id = sub.start + 1 + sub.delivered.length
    rw [isDue]
    unfold reached
    omega
  · exact ⟨delivered, last, by omega⟩

section
variable (hubSound : HubSound hub) (flow : Flow hub sub first)
include hubSound flow

/-- The change held first is sent or skipped, and the stream flows on after it. -/
theorem Flow.consume {rest : List Nat} (is : StreamContinuity.held sub = id :: rest) (due : first ≤ reached sub + 1)
    (last : sub.lastChangeId = reached sub) (bounded : reached sub ≤ hub.lastId) :
    Flow hub { sub.sendIfRecent id with queue := rest, pendingEvent := none, cancelled := true, phase := .draining }
      (first + 1) := by
  have held := flow.held
  rw [is] at held
  obtain ⟨rfl, held⟩ := held
  have length : (StreamContinuity.held sub).length = rest.length + 1 := by rw [is, List.length_cons]
  have sent := flow.sent
  have lastId := hubSound.sent
  obtain ⟨delivered, lastAfter, _⟩ := sendIfRecent_reached last flow.delivered due
  have position : (sub.sendIfRecent id).position = sub.position := by
    unfold Subscriber.sendIfRecent
    split <;> rfl
  have task : (sub.sendIfRecent id).task = sub.task := by
    unfold Subscriber.sendIfRecent
    split <;> rfl
  refine ⟨position ▸ flow.position, delivered, held, ?_, fun alive => ?_, fun _ _ => lastAfter,
    fun _ => ?_, ?_, ⟨rfl, rfl⟩, ?_⟩
  · change id + 1 + rest.length ≤ emitted hub + 1
    omega
  · have coming := flow.coming (task ▸ alive)
    rw [length, show id + (rest.length + 1) = id + 1 + rest.length by omega] at coming
    rw [position]
    exact coming
  · change reached (sub.sendIfRecent id) ≤ hub.lastId
    omega
  · change id + 1 ≤ reached (sub.sendIfRecent id) + 1
    omega
  · intro finished
    have isFinished := task ▸ finished
    refine ⟨rfl, fun other listed => ?_⟩
    rw [position] at listed
    have new := (flow.fresh isFinished).2 other listed
    have later := ((flow.coming (by simp [isFinished])).1.mem listed).1
    change reached (sub.sendIfRecent id) < other
    omega

theorem flow_sendPending (phase : sub.phase = .caughtUp)
    (turn : sub.step hub .sendPending = some after) : ∃ first, Flow hub after first := by
  have last := flow.last (by simp [phase]) (by simp [phase])
  have bounded := flow.bounded (by simp [phase])
  have due := flow.due
  simp only [Due, phase] at due
  simp only [Subscriber.step, phase, if_true, some.injEq] at turn
  subst turn
  cases pending : sub.pendingEvent with
  | some id =>
    have queue : (sub.sendIfRecent id).queue = sub.queue := by
      unfold Subscriber.sendIfRecent
      split <;> rfl
    have next := @Flow.consume hub id sub first hubSound flow sub.queue (by simp [held, pending]) due last bounded
    rw [← queue] at next
    exact ⟨first + 1, next⟩
  | none =>
    refine ⟨first, ⟨flow.position, flow.delivered, ?_, ?_, ?_, fun _ _ => last, fun _ => bounded, due, ⟨rfl, rfl⟩,
      fun finished => ?_⟩⟩
    · simpa [held, pending] using flow.held
    · simpa [held, pending] using flow.sent
    · simpa [held, pending] using flow.coming
    · exact ⟨rfl, (flow.fresh finished).2⟩

theorem flow_drain (turn : sub.step hub .drain = some after) : ∃ first, Flow hub after first := by
  simp only [Subscriber.step, ite_none_right_eq_some] at turn
  obtain ⟨phase, turn⟩ := turn
  have last := flow.last (by simp [phase]) (by simp [phase])
  have bounded := flow.bounded (by simp [phase])
  have due := flow.due
  have staged := flow.staged
  simp only [Due, phase] at due
  simp only [Staged, phase] at staged
  cases queue : sub.queue with
  | nil => simp [queue] at turn
  | cons id rest =>
    rw [queue] at turn
    obtain rfl := some.inj turn
    have next := @Flow.consume hub id sub first hubSound flow rest (by simp [held, staged, queue]) due last bounded
    have same : Subscriber.sendIfRecent { sub with queue := rest } id = { sub.sendIfRecent id with
        queue := rest, pendingEvent := none, cancelled := true, phase := .draining } := by
      unfold Subscriber.sendIfRecent
      split <;> simp [phase, staged]
    rw [same]
    exact ⟨first + 1, next⟩

end

theorem sound_awaitQueue (flow : Flow hub sub first) (turn : sub.step hub .awaitQueue = some after) :
    Sound hub after := by
  simp only [Subscriber.step, ite_none_right_eq_some] at turn
  obtain ⟨⟨phase, empty⟩, turn⟩ := turn
  have bounded := flow.bounded (by simp [phase])
  have due := flow.due
  have staged := flow.staged
  simp only [Due, phase] at due
  simp only [Staged, phase] at staged
  split at turn
  · rename_i finished
    obtain rfl := some.inj turn
    exact .flowing first ⟨flow.position, flow.delivered, flow.held, flow.sent, flow.coming,
      fun _ again => absurd rfl again,
      fun _ => bounded, due, ⟨staged.1, empty, finished⟩, flow.fresh⟩
  · obtain rfl := some.inj turn
    exact .ended rfl flow.delivered
  · cases turn

/-! ### Forwarding -/

theorem due_forwarding (phase : sub.phase = .forwarding) : Due sub first ↔ first ≤ reached sub + 1 := by
  simp only [Due, phase]

theorem staged_forwarding (phase : sub.phase = .forwarding) :
    Staged sub ↔ sub.pendingEvent = none ∧ sub.queue = [] ∧ sub.task = .finished := by
  simp only [Staged, phase]

section
variable (hubSound : HubSound hub)
include hubSound

theorem sound_forward (flow : Flow hub sub first) (phase : sub.phase = .forwarding)
    (turn : sub.forward hub = some after) : Sound hub after := by
  have bounded := flow.bounded (by simp [phase])
  have due := (due_forwarding phase).mp flow.due
  obtain ⟨noPending, empty, finished⟩ := (staged_forwarding phase).mp flow.staged
  obtain ⟨cancelled, new⟩ := flow.fresh finished
  have nothing : held sub = [] := by simp [held, noPending, empty]
  unfold Subscriber.forward at turn
  split at turn
  · obtain rfl := some.inj turn
    exact .ended rfl flow.delivered
  obtain ⟨event, is, turn⟩ := map_eq_some_iff.mp turn
  have within : sub.position + 1 ≤ hub.log.length := (List.getElem?_eq_some_iff.mp is).1
  have read := unread_read is
  cases isId : event.changeId with
  | none =>
    rw [isId] at turn read
    subst turn
    refine .flowing first ⟨within, flow.delivered, flow.held, flow.sent, ?_, fun _ again => absurd phase again,
      fun _ => bounded, flow.due, flow.staged, ?_⟩
    · have coming := flow.coming
      rw [read] at coming
      exact coming
    · have fresh := flow.fresh
      rw [read] at fresh
      exact fresh
  | some id =>
    rw [isId] at turn read
    subst turn
    obtain ⟨isNext, consecutive, length⟩ := flow.unread_head (by simp [finished]) read
    rw [nothing, List.length_nil, Nat.add_zero] at isNext consecutive length
    have recent := new id (by rw [read]; exact List.mem_cons_self)
    have sent := hubSound.sent
    have more : reached { sub with position := sub.position + 1, delivered := sub.delivered ++ [id] } =
      reached sub + 1 := by
      simp [reached, Nat.add_assoc]
    have nothingAfter : held { sub with position := sub.position + 1, delivered := sub.delivered ++ [id] } = [] :=
      nothing
    have dueAfter := @due_forwarding { sub with position := sub.position + 1, delivered := sub.delivered ++ [id] }
      (first + 1) phase
    have stagedAfter := @staged_forwarding
      { sub with position := sub.position + 1, delivered := sub.delivered ++ [id] } phase
    refine .flowing (first + 1) ⟨within, consecutive_append.mpr ⟨flow.delivered, ?_, trivial⟩, ?_, ?_, fun _ => ?_,
      fun _ again => absurd phase again, fun _ => ?_, dueAfter.mpr ?_,
      stagedAfter.mpr ⟨noPending, empty, finished⟩, fun _ => ⟨cancelled, fun other listed => ?_⟩⟩
    · change id = sub.start + 1 + sub.delivered.length
      unfold reached at due recent
      omega
    · rw [nothingAfter]
      trivial
    · rw [nothingAfter, List.length_nil]
      omega
    · rw [nothingAfter, List.length_nil, Nat.add_zero]
      exact ⟨consecutive, length⟩
    · rw [more]
      omega
    · rw [more]
      omega
    · rw [more]
      have later := (consecutive.mem listed).1
      omega

/-! ### Joining -/

theorem sound_join : Sound hub { Subscriber.idle with params, phase := .starting, position := hub.log.length } := by
  have all : (changeIds hub.log).length + (changeIds hub.evtChannel).length + hub.restoredTo = emitted hub := by
    simp only [emitted, changeIds_append, length_append]
    omega
  have events := hubSound.events
  rw [changeIds_append, consecutive_append] at events
  refine .flowing (hub.restoredTo + 1 + (changeIds hub.log).length) ⟨Nat.le_refl _, trivial, trivial, ?_, fun _ => ?_,
    fun again => absurd rfl again, fun again => absurd rfl again, trivial, ⟨rfl, rfl, rfl⟩,
      fun finished => by cases finished⟩
  · change _ + 0 ≤ _
    omega
  · simp only [unread, drop_length, nil_append]
    exact ⟨events.2, by change _ + 0 + _ = _; omega⟩

theorem sound_joinCreated (created : hub.restoredTo = 0) (unsent : hub.log = []) :
    Sound hub { Subscriber.idle with
      params := ⟨none, skipRows⟩, phase := .forwarding, task := .finished, cancelled := true } := by
  have events := hubSound.events
  have all : (changeIds hub.evtChannel).length = emitted hub := by simp [emitted, unsent, created]
  rw [created, unsent, nil_append] at events
  refine .flowing 1 ⟨Nat.zero_le _, trivial, trivial, ?_, fun _ => ?_, fun _ again => absurd rfl again,
    fun _ => Nat.zero_le _, Nat.le_refl _, ⟨rfl, rfl, rfl⟩, fun _ => ⟨rfl, fun id listed => ?_⟩⟩
  · exact Nat.le_add_left _ _
  · simp only [unread, unsent, drop_nil, nil_append]
    exact ⟨events, by change 1 + 0 + _ = _; omega⟩
  · simp only [unread, unsent, drop_nil, nil_append] at listed
    exact (events.mem listed).1

end

/-! ### Runs -/

/-- A matcher that was just created or restored. -/
structure Restored (hub : Hub) : Prop where
  rows : ∃ first, 1 ≤ first ∧ Consecutive first hub.changes
  upToDate : hub.restoredTo = hub.maxChangeId
  noted : hub.lastChangeSent = hub.maxChangeId
  idle : hub.uncommitted = [] ∧ hub.noting = none ∧ hub.closing = false ∧ hub.evtChannel = [] ∧ hub.log = []

theorem Restored.sound (restored : Restored hub) : HubSound hub := by
  obtain ⟨_, upToDate, noted, uncommitted, noting, _, channel, log⟩ := restored
  have last : hub.lastId = hub.maxChangeId := by simp [Hub.lastId, Hub.maxChangeId, uncommitted]
  have sent : emitted hub = hub.lastId := by simp [emitted, channel, log, changeIds, upToDate, last]
  refine ⟨by rwa [uncommitted, append_nil], by simp [channel, log, changeIds], Nat.le_of_eq sent, fun _ => sent,
    fun id is => ?_, fun _ => noted.trans last.symm⟩
  rw [noting] at is
  cases is

/-- The hand-overs are clean. The buffering does not lag; when it is cancelled,
nothing delivered before is unread; the `from` id has been handed out; when an
empty buffer is found, the change just being sent was not broadcast before the
receiver joined; and no change that was sent is rolled back. -/
def Orderly (state : SubscriptionState) : SubscriptionAction → Prop
  | .hub action => KeepsSent state.hub action
  | .subscriber .bufferLag => False
  | .subscriber .bufferCancel => state.subscriber.phase = .draining →
      ∀ id ∈ unread state.hub state.subscriber.position, state.subscriber.lastChangeId < id
  | .subscriber (.catchUp _) => ∀ id, state.subscriber.params.fromId = some id → id ≤ state.hub.lastId
  | .subscriber .tryRecv => state.subscriber.queue = [] → ∀ id, state.hub.noting = some id →
      id ∉ changeIds (state.hub.log.take state.subscriber.position)
  | _ => True

/-- The states of a run whose steps are all orderly. -/
inductive OrderlyRun : SubscriptionState → Prop where
  | start (hub : Hub) (restored : Restored hub) : OrderlyRun ⟨hub, .idle⟩
  | step {before after : SubscriptionState} (action : SubscriptionAction) (earlier : OrderlyRun before)
      (orderly : Orderly before action) (turn : before.step action = some after) : OrderlyRun after

/-- The first catch-up fixes where the stream starts. -/
theorem sound_catchUp (hubSound : HubSound hub) (flow : Flow hub sub first) (phase : sub.phase = .starting)
    (handedOut : ∀ id, sub.params.fromId = some id → id ≤ hub.lastId)
    (turn : sub.step hub (.catchUp cut) = some after) : Sound hub after := by
  have staged := flow.staged
  simp only [Staged, phase] at staged
  obtain ⟨noPending, nothing, notCancelled⟩ := staged
  have notFinished := flow.not_finished notCancelled
  simp only [Subscriber.step, phase, if_true] at turn
  split at turn
  · rename_i id isFrom
    obtain rfl := some.inj turn
    have begins : reached { sub with start := id + 1 } = id + 1 := by simp [reached, nothing]
    have leads := @sound_catchUpFrom hub { sub with start := id + 1 } cut .checking hubSound (by rw [nothing]; trivial)
      (by rw [begins]; exact handedOut _ isFrom) fun ids consecutive length => by
        rw [begins] at consecutive length ⊢
        refine .flowing first ⟨flow.position, ?_, flow.held, flow.sent, flow.coming, fun _ _ => ?_,
          fun _ => ?_, trivial,
          ⟨noPending, notCancelled⟩, fun finished => absurd finished notFinished⟩
        · dsimp only
          rw [nothing, nil_append]
          exact consecutive
        · simp [reached, nothing]
        · simpa [reached, nothing] using length
    rw [begins] at leads
    exact leads
  · obtain rfl := some.inj turn
    refine .flowing first ⟨flow.position, ?_, flow.held, flow.sent, flow.coming, fun _ _ => ?_, fun _ => ?_, trivial,
      ⟨noPending, notCancelled⟩, fun finished => absurd finished notFinished⟩
    · dsimp only
      rw [nothing]
      trivial
    · simp [reached, nothing]
    · simpa [reached, nothing] using maxChangeId_le hubSound

theorem sound_subscriber (hubSound : HubSound hub) (sound : Sound hub sub)
    (orderly : Orderly ⟨hub, sub⟩ (.subscriber action)) (turn : sub.step hub action = some after) :
    Sound hub after := by
  cases action with
  | join _ =>
    simp only [Subscriber.step, ite_none_right_eq_some, some.injEq] at turn
    obtain ⟨_, rfl⟩ := turn
    exact sound_join hubSound
  | joinCreated _ =>
    simp only [Subscriber.step, ite_none_right_eq_some, some.injEq] at turn
    obtain ⟨⟨_, created, unsent⟩, rfl⟩ := turn
    exact sound_joinCreated hubSound created unsent
  | bufferReceive =>
    simp only [Subscriber.step, ite_none_left_eq_some, not_or] at turn
    obtain ⟨⟨underWay, notForwarding, notEnded⟩, turn⟩ := turn
    obtain ⟨first, flow⟩ := sound.flow underWay notEnded
    exact .flowing first (flow_bufferReceive flow notForwarding turn)
  | bufferLag => cases orderly
  | bufferCancel =>
    simp only [Subscriber.step, ite_none_right_eq_some, some.injEq] at turn
    obtain ⟨⟨cancelled, running⟩, rfl⟩ := turn
    cases sound with
    | idle is =>
      subst is
      cases cancelled
    | ended is delivered => exact .ended is delivered
    | flowing first flow =>
      have alive : sub.task ≠ .failed := by rcases running with is | is <;> simp [is]
      have notFinished : sub.task ≠ .finished := by rcases running with is | is <;> simp [is]
      exact .flowing first (flow_bufferCancel flow cancelled alive notFinished orderly)
  | catchUp cut =>
    by_cases phase : sub.phase = .starting
    · obtain ⟨first, flow⟩ := sound.flow (by simp [phase]) (by simp [phase])
      exact sound_catchUp hubSound flow phase orderly turn
    · simp [Subscriber.step, phase] at turn
  | tryRecv =>
    simp only [Subscriber.step, ite_none_right_eq_some, some.injEq] at turn
    obtain ⟨phase, rfl⟩ := turn
    obtain ⟨first, flow⟩ := sound.flow (by simp [phase]) (by simp [phase])
    exact sound_tryRecv hubSound flow phase orderly
  | attempt cut =>
    simp only [Subscriber.step] at turn
    split at turn
    · rename_i changeId attempts phase
      obtain rfl := some.inj turn
      obtain ⟨first, flow⟩ := sound.flow (by simp [phase]) (by simp [phase])
      exact sound_attempt hubSound flow phase
    · cases turn
  | sendPending =>
    by_cases phase : sub.phase = .caughtUp
    · obtain ⟨first, flow⟩ := sound.flow (by simp [phase]) (by simp [phase])
      obtain ⟨next, flowing⟩ := flow_sendPending hubSound flow phase turn
      exact .flowing next flowing
    · simp [Subscriber.step, phase] at turn
  | drain =>
    by_cases phase : sub.phase = .draining
    · obtain ⟨first, flow⟩ := sound.flow (by simp [phase]) (by simp [phase])
      obtain ⟨next, flowing⟩ := flow_drain hubSound flow turn
      exact .flowing next flowing
    · simp [Subscriber.step, phase] at turn
  | awaitQueue =>
    by_cases phase : sub.phase = .draining
    · obtain ⟨first, flow⟩ := sound.flow (by simp [phase]) (by simp [phase])
      exact sound_awaitQueue flow turn
    · simp [Subscriber.step, phase] at turn
  | forward =>
    simp only [Subscriber.step, ite_none_right_eq_some] at turn
    obtain ⟨phase, turn⟩ := turn
    obtain ⟨first, flow⟩ := sound.flow (by simp [phase]) (by simp [phase])
    exact sound_forward hubSound flow phase turn
  | hangUp =>
    obtain rfl := some.inj turn
    exact .ended rfl sound.delivered

theorem orderlyRun_sound (run : OrderlyRun state) : HubSound state.hub ∧ Sound state.hub state.subscriber := by
  induction run with
  | start hub restored => exact ⟨restored.sound, .idle rfl⟩
  | step action _ orderly turn ih =>
    obtain ⟨hubSound, sound⟩ := ih
    cases action with
    | hub action =>
      obtain ⟨next, moved, rfl⟩ := map_eq_some_iff.mp turn
      obtain ⟨nextSound, moves⟩ := hub_step hubSound orderly moved
      exact ⟨nextSound, sound_hub sound moves⟩
    | subscriber action =>
      obtain ⟨next, moved, rfl⟩ := map_eq_some_iff.mp turn
      exact ⟨hubSound, sound_subscriber hubSound sound orderly moved⟩

/-- **No gap and no repetition.** In every run of a subscription whose hand-overs
are clean, whatever the interleaving of the matcher, the relay, the buffering
task and the catch-up, the change ids sent to a subscriber count up by one from
where its stream starts. -/
theorem delivered_ids_consecutive (state : SubscriptionState) (run : OrderlyRun state) :
    Consecutive (state.subscriber.start + 1) state.subscriber.delivered :=
  (orderlyRun_sound run).2.delivered

/-- A subscription that was just created. -/
def newHub : Hub := ⟨0, [], [], none, 0, false, [], []⟩

theorem newHub_restored : Restored newHub := ⟨⟨1, Nat.le_refl _, trivial⟩, rfl, rfl, rfl, rfl, rfl, rfl, rfl⟩

/-- A subscriber joins, a change is sent and buffered, then committed and caught up
with; a second one is forwarded. -/
theorem caught_up_stream_consecutive : ∃ state, OrderlyRun state ∧ state.subscriber.delivered = [1, 2] ∧
    Consecutive (state.subscriber.start + 1) state.subscriber.delivered := by
  have joined := OrderlyRun.step (.subscriber (.join ⟨none, false⟩)) (.start newHub newHub_restored) trivial rfl
  have started := OrderlyRun.step (.subscriber (.catchUp none)) joined (by intro id is; cases is) rfl
  have sent := OrderlyRun.step (.hub .insertAndSend) started (by intro is; cases is) rfl
  have relayed := OrderlyRun.step (.hub .relay) sent (by intro is; cases is) rfl
  have buffered := OrderlyRun.step (.subscriber .bufferReceive) relayed trivial rfl
  have looked := OrderlyRun.step (.subscriber .tryRecv) buffered (by intro empty; cases empty) rfl
  have noted := OrderlyRun.step (.hub .note) looked (by intro is; cases is) rfl
  have committed := OrderlyRun.step (.hub .commit) noted (by intro is; cases is) rfl
  have caughtUp := OrderlyRun.step (.subscriber (.attempt none)) committed trivial rfl
  have checked := OrderlyRun.step (.subscriber (.attempt none)) caughtUp trivial rfl
  have cancelled := OrderlyRun.step (.subscriber .sendPending) checked trivial rfl
  have finished := OrderlyRun.step (.subscriber .bufferCancel) cancelled (by intro _ id listed; cases listed) rfl
  have forwarding := OrderlyRun.step (.subscriber .awaitQueue) finished trivial rfl
  have second := OrderlyRun.step (.hub .insertAndSend) forwarding (by intro is; cases is) rfl
  have relayedSecond := OrderlyRun.step (.hub .relay) second (by intro is; cases is) rfl
  have forwarded := OrderlyRun.step (.subscriber .forward) relayedSecond trivial rfl
  exact ⟨_, forwarded, rfl, delivered_ids_consecutive _ forwarded⟩

/-- The state after these actions, if all of them can be taken. -/
def runActions (actions : List SubscriptionAction) : Option SubscriptionState :=
  actions.foldlM SubscriptionState.step ⟨newHub, .idle⟩

/-- What `catch_up_sub` does when it finds nothing to catch up with. -/
def nothingToCatchUp (params : SubParams) : List SubscriptionAction :=
  [.subscriber (.join params), .subscriber (.catchUp none), .subscriber .tryRecv, .subscriber .sendPending,
    .subscriber .bufferCancel, .subscriber .awaitQueue]

/-- Three streams that go wrong. A change is committed and read from the database
while its event is still in the channel: it is sent again. An event is broadcast
before the subscriber joins, and `last_change_id_sent` is still behind: it is
never sent. The `from` id lies ahead of the subscription: older ids follow it. -/
theorem delivered_ids_not_consecutive :
    (∃ state, runActions ([.hub .insertAndSend, .hub .note, .hub .commit] ++ nothingToCatchUp ⟨none, false⟩ ++
        [.hub .relay, .subscriber .forward]) = some state ∧
      state.subscriber.start = 1 ∧ state.subscriber.delivered = [1]) ∧
    (∃ state, runActions ([.hub .insertAndSend, .hub .relay] ++ nothingToCatchUp ⟨none, false⟩ ++
        [.hub .note, .hub .commit, .hub .insertAndSend, .hub .relay, .subscriber .forward]) = some state ∧
      state.subscriber.start = 0 ∧ state.subscriber.delivered = [2]) ∧
    ∃ state, runActions (nothingToCatchUp ⟨some 5, false⟩ ++
        [.hub .insertAndSend, .hub .relay, .subscriber .forward]) = some state ∧
      state.subscriber.start = 5 ∧ state.subscriber.delivered = [1] :=
  ⟨⟨_, rfl, rfl, rfl⟩, ⟨_, rfl, rfl, rfl⟩, ⟨_, rfl, rfl, rfl⟩⟩

end Galvanize.StreamContinuity
