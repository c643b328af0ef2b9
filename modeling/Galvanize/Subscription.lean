import Galvanize.Consecutive

/-! One subscription and one of its subscribers (`corro-types/src/pubsub.rs`,
`corro-agent/src/api/public/pubsub.rs`). The matcher numbers changes, hands each
to a channel, and commits them later; a relay puts them on a broadcast channel.
A subscriber first catches up from the database while a task buffers what the
broadcast brings, then sends what was buffered, then forwards. Only the ids of
changes matter here; columns, rows and errors are `other` events. -/
namespace Galvanize

/-- `QueryEventMeta`. -/
inductive QueryEventMeta where
  | change (id : Nat)
  | other
deriving DecidableEq

def QueryEventMeta.changeId : QueryEventMeta → Option Nat
  | change id => some id
  | other => none

/-- The ids of the changes among events. -/
def changeIds (events : List QueryEventMeta) : List Nat := events.filterMap QueryEventMeta.changeId

/-! ### The matcher and its channels -/

structure Hub where
  /-- `MAX(id)` when the matcher was created or restored. -/
  restoredTo : Nat
  /-- The committed rows of `changes`, by id. -/
  changes : List Nat
  /-- The rows of the open transaction. -/
  uncommitted : List Nat
  /-- The id that was handed out last, while `last_change_tx` is still behind. -/
  noting : Option Nat
  /-- `last_change_tx`. -/
  lastChangeSent : Nat
  /-- The last candidates are handled without sending. -/
  closing : Bool
  /-- `evt_tx`, read by `process_sub_channel`. -/
  evtChannel : List QueryEventMeta
  /-- All that was ever broadcast. -/
  log : List QueryEventMeta

inductive HubAction where
  /-- `Columns`, `Row`, `EndOfQuery` or `Error`. -/
  | sendOther
  /-- `INSERT INTO changes .. RETURNING id`, then `blocking_send`. -/
  | insertAndSend
  /-- The insert of the last candidates, where `skip_send` is set. -/
  | insertSilently
  /-- `last_change_tx.send`. -/
  | note
  | commit
  /-- A row of which the cells cannot be read: `handle_candidates` returns and
  the transaction is dropped. -/
  | rollback
  /-- `purge_old_changes`. -/
  | purge
  /-- One turn of `process_sub_channel`. -/
  | relay

namespace Hub
variable (self : Hub)

/-- `AUTOINCREMENT`. -/
def lastId : Nat := (self.changes ++ self.uncommitted).getLast?.getD 0

/-- `SELECT COALESCE(MAX(id), 0) FROM changes`. -/
def maxChangeId : Nat := self.changes.getLast?.getD 0

/-- `changes_since`: the changes above an id, unless older ones are deleted. -/
def changesSince (since : Nat) : Option (List Nat) :=
  if since + 1 < self.changes.head?.getD 0 then none else some (self.changes.filter (since < ·))

/-- The matcher (`cmd_loop`) and its channels. -/
def step : HubAction → Option Hub
  | .sendOther => if self.closing then none else some { self with evtChannel := self.evtChannel ++ [.other] }
  | .insertAndSend =>
    if self.closing ∨ self.noting.isSome then none
    else some { self with
      uncommitted := self.uncommitted ++ [self.lastId + 1]
      evtChannel := self.evtChannel ++ [.change (self.lastId + 1)]
      noting := some (self.lastId + 1) }
  | .insertSilently =>
    if self.noting.isSome then none
    else some { self with
      closing := true
      uncommitted := self.uncommitted ++ [self.lastId + 1]
      noting := some (self.lastId + 1) }
  | .note => self.noting.map (fun id => { self with lastChangeSent := id, noting := none })
  | .commit =>
    if self.noting.isSome then none
    else some { self with changes := self.changes ++ self.uncommitted, uncommitted := [] }
  | .rollback => if self.noting.isSome then none else some { self with uncommitted := [] }
  | .purge =>
    if self.uncommitted.isEmpty then
      some { self with changes := self.changes.filter (fun id => !(id < self.maxChangeId - 500)) }
    else none
  | .relay =>
    match self.evtChannel with
    | [] => none
    | event :: rest => some { self with evtChannel := rest, log := self.log ++ [event] }

end Hub

/-! ### A subscriber -/

structure SubParams where
  fromId : Option Nat
  skipRows : Bool

/-- Where `catch_up_sub` stands. -/
inductive CatchUpPhase where
  | idle
  /-- before the first catch-up -/
  | starting
  /-- before the first look into the buffer -/
  | checking
  /-- catching up to a change id, after so many attempts -/
  | catchingUp (changeId attempts : Nat)
  /-- before the pending event is sent and the buffering cancelled -/
  | caughtUp
  | draining
  /-- `forward_sub_to_sender` -/
  | forwarding
  | ended
deriving DecidableEq

/-- The buffering task. -/
inductive BufferTask where
  | buffering
  /-- The receiver gave an error: its select branch is disabled until the cancellation. -/
  | disabled
  /-- The buffer was full; the receiver is gone. -/
  | failed
  | finished
deriving DecidableEq

structure Subscriber where
  params : SubParams
  phase : CatchUpPhase
  task : BufferTask
  /-- How far the broadcast receiver has read. -/
  position : Nat
  queue : List Nat
  pendingEvent : Option Nat
  cancelled : Bool
  lastChangeId : Nat
  /-- The id after which changes are due. -/
  start : Nat
  /-- The change ids sent to the subscriber. -/
  delivered : List Nat

/-- The room of a `broadcast::channel(10240)`, which is rounded up to a power of two. -/
def broadcastCapacity : Nat := 16384

/-- The room of the buffer, `mpsc::channel(10240)`. -/
def bufferCapacity : Nat := 10240

inductive SubscriberAction where
  /-- `catch_up_sub` is spawned with a new receiver. -/
  | join (params : SubParams)
  /-- The subscriber that creates the subscription forwards from the beginning. -/
  | joinCreated (skipRows : Bool)
  /-- The buffering task reads an event, finds that it lags, or sees the cancellation. -/
  | bufferReceive
  | bufferLag
  | bufferCancel
  /-- The first catch-up; `cut` is how much is sent if sending fails. -/
  | catchUp (cut : Option Nat)
  | tryRecv
  | attempt (cut : Option Nat)
  | sendPending
  | drain
  | awaitQueue
  | forward
  /-- The receiving side is gone, the subscription cancelled or a channel closed. -/
  | hangUp

namespace Subscriber

def idle : Subscriber :=
  { params := ⟨none, false⟩, phase := .idle, task := .buffering, position := 0, queue := []
    pendingEvent := none, cancelled := false, lastChangeId := 0, start := 0, delivered := [] }

variable (self : Subscriber) (hub : Hub)

/-- `catch_up_sub_from` with an id. -/
def catchUpFrom (since : Nat) (cut : Option Nat) (next : CatchUpPhase) : Subscriber :=
  match hub.changesSince since with
  | none => { self with phase := .ended }
  | some ids =>
    match cut with
    | some count => { self with phase := .ended, delivered := self.delivered ++ ids.take count }
    | none =>
      { self with phase := next, delivered := self.delivered ++ ids, lastChangeId := ids.foldl max since }

/-- Send a change if it is more recent. -/
def sendIfRecent (id : Nat) : Subscriber :=
  if self.lastChangeId < id then { self with delivered := self.delivered ++ [id], lastChangeId := id } else self

def bufferReceive : Option Subscriber :=
  if self.task ≠ .buffering ∨ broadcastCapacity < hub.log.length - self.position then none
  else hub.log[self.position]?.map (fun event =>
    let self := { self with position := self.position + 1 }
    match event.changeId with
    | none => self
    | some id =>
      if self.queue.length < bufferCapacity then { self with queue := self.queue ++ [id] }
      else { self with task := .failed })

/-- `queue_rx.try_recv`: the first buffered change, or `last_change_id_sent`. -/
def tryRecv : Subscriber :=
  match self.queue with
  | id :: rest => { self with queue := rest, pendingEvent := some id, phase := .catchingUp id 0 }
  | [] =>
    if self.task = .failed then { self with phase := .ended }
    else if hub.lastChangeSent ≤ self.lastChangeId then { self with phase := .caughtUp }
    else { self with phase := .catchingUp hub.lastChangeSent 0 }

/-- One turn of the loop of five attempts, or what follows it. -/
def attempt (cut : Option Nat) (changeId attempts : Nat) : Subscriber :=
  if attempts = 5 then { self with phase := .ended }
  else if self.lastChangeId + 1 ≤ changeId then
    self.catchUpFrom hub self.lastChangeId cut (.catchingUp changeId (attempts + 1))
  else { self with phase := .caughtUp }

/-- One event of `forward_sub_to_sender`. -/
def forward : Option Subscriber :=
  if broadcastCapacity < hub.log.length - self.position then some { self with phase := .ended }
  else hub.log[self.position]?.map (fun event =>
    let self := { self with position := self.position + 1 }
    match event.changeId with
    | none => self
    | some id => { self with delivered := self.delivered ++ [id] })

def step (hub : Hub) (self : Subscriber) : SubscriberAction → Option Subscriber
  | .join params =>
    if self.phase = .idle then some { idle with params, phase := .starting, position := hub.log.length } else none
  | .joinCreated skipRows =>
    if self.phase = .idle ∧ hub.restoredTo = 0 ∧ hub.log = [] then
      some { idle with params := ⟨none, skipRows⟩, phase := .forwarding, task := .finished, cancelled := true }
    else none
  | .bufferReceive =>
    if self.phase = .idle ∨ self.phase = .forwarding ∨ self.phase = .ended then none else self.bufferReceive hub
  | .bufferLag =>
    if self.task = .buffering ∧ broadcastCapacity < hub.log.length - self.position then
      some { self with position := hub.log.length - broadcastCapacity, task := .disabled }
    else none
  | .bufferCancel =>
    if self.cancelled ∧ (self.task = .buffering ∨ self.task = .disabled) then some { self with task := .finished }
    else none
  | .catchUp cut =>
    if self.phase = .starting then
      match self.params.fromId with
      | some (id + 1) => some ({ self with start := id + 1 }.catchUpFrom hub (id + 1) cut .checking)
      -- the rows, or nothing, and the id they are up to date with
      | _ => some { self with start := hub.maxChangeId, lastChangeId := hub.maxChangeId, phase := .checking }
    else none
  | .tryRecv => if self.phase = .checking then some (self.tryRecv hub) else none
  | .attempt cut =>
    match self.phase with
    | .catchingUp changeId attempts => some (self.attempt hub cut changeId attempts)
    | _ => none
  | .sendPending =>
    if self.phase = .caughtUp then
      let self := match self.pendingEvent with
        | some id => self.sendIfRecent id
        | none => self
      some { self with pendingEvent := none, cancelled := true, phase := .draining }
    else none
  | .drain =>
    if self.phase = .draining then
      match self.queue with
      | id :: rest => some ({ self with queue := rest }.sendIfRecent id)
      | [] => none
    else none
  | .awaitQueue =>
    if self.phase = .draining ∧ self.queue = [] then
      match self.task with
      | .finished => some { self with phase := .forwarding }
      | .failed => some { self with phase := .ended }
      | _ => none
    else none
  | .forward => if self.phase = .forwarding then self.forward hub else none
  | .hangUp => some { self with phase := .ended }

end Subscriber

/-- The subscription with one subscriber. -/
structure SubscriptionState where
  hub : Hub
  subscriber : Subscriber

inductive SubscriptionAction where
  | hub (action : HubAction)
  | subscriber (action : SubscriberAction)

def SubscriptionState.step (self : SubscriptionState) : SubscriptionAction → Option SubscriptionState
  | .hub action => (self.hub.step action).map (fun hub => { self with hub })
  | .subscriber action => (self.subscriber.step self.hub action).map (fun subscriber => { self with subscriber })

end Galvanize
