import Galvanize.Members
import Galvanize.WireFormat

/-! The cluster id of a node and the copies of it. `SetId` stores a new id in the agent; the
handler of an incoming connection (`spawn_unipayload_handler`) and the Plumtree
`send_messages_loop` go on with the id they read when they were started. -/
namespace Galvanize.ClusterIsolation
open Option

structure Node where
  clusterId : ClusterId
  /-- The copy in the handler of each open incoming connection. -/
  handlers : Nat → Option ClusterId
  /-- The copy in the loop that encodes Plumtree messages, once it runs. -/
  sendLoop : Option ClusterId

/-- What carries a cluster id: the payload of a unidirectional stream, or `SyncStart`. -/
inductive Message where
  | uni (payload : UniPayload)
  | syncStart (actorId : ActorId) (clusterId : ClusterId)

def Message.clusterId : Message → ClusterId
  | .uni (.v1 _ clusterId) => clusterId
  | .syncStart _ clusterId => clusterId

namespace Node

/-- The message a node makes of a payload. `handle_broadcasts` and `parallel_sync` read the
agent's id each time. -/
def encode (self : Node) : UniPayloadV1 ⊕ ActorId → Option Message
  | .inl (.broadcast data) => some (.uni (.v1 (.broadcast data) self.clusterId))
  | .inl (.plumtree data) => self.sendLoop.map fun clusterId => .uni (.v1 (.plumtree data) clusterId)
  | .inr actorId => some (.syncStart actorId self.clusterId)

/-- Whether a message that comes over a connection passes the check of its cluster id;
`serve_sync` compares with the agent's. -/
def accepts (self : Node) (connection : Nat) : Message → Bool
  | .uni (.v1 _ clusterId) => self.handlers connection = some clusterId
  | .syncStart _ clusterId => clusterId = self.clusterId

end Node

/-- The nodes by their actor ids. -/
abbrev Nodes := ActorId → Node

inductive Event where
  | setId (at_ : ActorId) (clusterId : ClusterId)
  | connected (at_ : ActorId) (connection : Nat)
  | closed (at_ : ActorId) (connection : Nat)
  | startSendLoop (at_ : ActorId)

namespace Event

def node : Event → ActorId
  | setId at_ _ | connected at_ _ | closed at_ _ | startSendLoop at_ => at_

/-- What an event makes of its node. -/
def apply (self : Node) : Event → Node
  | setId _ clusterId => { self with clusterId }
  | connected _ connection => { self with handlers := Function.update self.handlers connection self.clusterId }
  | closed _ connection => { self with handlers := Function.update self.handlers connection none }
  | startSendLoop _ => { self with sendLoop := self.clusterId }

end Event

def step (nodes : Nodes) (event : Event) : Nodes := Function.update nodes event.node (event.apply (nodes event.node))

/-- The nodes when they start: no connection is open and no loop runs. -/
def boot (ids : ActorId → ClusterId) : Nodes := fun id => ⟨ids id, fun _ => none, none⟩

/-- Every message a node would accept or encode now carries its id, and so no message that
one of two nodes with different ids would encode is one the other would accept. -/
def Isolated (nodes : Nodes) : Prop :=
  (∀ id connection message, (nodes id).accepts connection message → message.clusterId = (nodes id).clusterId) ∧
  (∀ id content message, (nodes id).encode content = some message → message.clusterId = (nodes id).clusterId) ∧
  ∀ one other, (nodes one).clusterId ≠ (nodes other).clusterId → ∀ content message,
    (nodes one).encode content = some message → ∀ connection, (nodes other).accepts connection message = false

/-- Every copy of the node's id is its id. -/
def Node.Current (self : Node) : Prop :=
  (∀ connection copy, self.handlers connection = some copy → copy = self.clusterId) ∧
  ∀ copy, self.sendLoop = some copy → copy = self.clusterId

/-- A new id is set only where no connection is open and the loop does not run. -/
def Event.Harmless (nodes : Nodes) : Event → Prop
  | .setId at_ clusterId => clusterId = (nodes at_).clusterId ∨
    (∀ connection, (nodes at_).handlers connection = none) ∧ (nodes at_).sendLoop = none
  | _ => True

theorem Node.Current.encode {self : Node} (current : self.Current) (is : self.encode content = some message) :
    message.clusterId = self.clusterId := by
  cases content with
  | inr _ =>
    cases is
    rfl
  | inl payload =>
    cases payload with
    | broadcast data =>
      cases is
      rfl
    | plumtree data =>
      obtain ⟨copy, running, rfl⟩ := map_eq_some_iff.mp is
      exact current.2 copy running

theorem Node.Current.accepts {self : Node} (current : self.Current) (passes : self.accepts connection message) :
    message.clusterId = self.clusterId := by
  cases message with
  | syncStart _ clusterId => exact of_decide_eq_true passes
  | uni payload =>
    cases payload with
    | v1 _ clusterId => exact current.1 connection clusterId (of_decide_eq_true passes)

def anyPayload : UniPayloadV1 := .plumtree (.v1 (.prune 0 none))

/-- A copy that is not the node's id shows: with messages of its id the node accepts or
encodes what carries another. -/
theorem isolated_iff {nodes : Nodes} : Isolated nodes ↔ ∀ id, (nodes id).Current := by
  constructor
  · intro isolated id
    refine ⟨fun connection copy held => ?_, fun copy running => ?_⟩
    · exact isolated.1 id connection (.uni (.v1 anyPayload copy)) (decide_eq_true held)
    · exact isolated.2.1 id (.inl anyPayload) _ (congrArg (Option.map _) running)
  · intro current
    refine ⟨fun id _ _ => (current id).accepts, fun id _ _ => (current id).encode, ?_⟩
    intro one other different _ _ encoded connection
    rw [Bool.eq_false_iff]
    intro passes
    exact different (((current one).encode encoded).symm.trans ((current other).accepts passes))

theorem current_step_iff {nodes : Nodes} (current : ∀ id, (nodes id).Current) (event : Event) :
    (∀ id, (step nodes event id).Current) ↔ event.Harmless nodes := by
  have own : (∀ id, (step nodes event id).Current) ↔ (event.apply (nodes event.node)).Current := by
    constructor
    · intro all
      have here := all event.node
      rwa [step, Function.update_self] at here
    · intro here id
      by_cases same : id = event.node
      · rwa [step, same, Function.update_self]
      · rw [step, Function.update_of_ne same]
        exact current id
  obtain ⟨handlers, running⟩ := current event.node
  -- a connection that opens or closes
  have updated : ∀ connection (value : Option ClusterId), (∀ copy, value = some copy →
    copy = (nodes event.node).clusterId) →
      ∀ other copy, Function.update (nodes event.node).handlers connection value other = some copy →
        copy = (nodes event.node).clusterId := by
    intro connection value new other copy is
    rw [Function.update_apply] at is
    split at is
    · exact new copy is
    · exact handlers other copy is
  rw [own]
  cases event with
  | startSendLoop id => exact iff_of_true ⟨handlers, fun copy is => (some.inj is).symm⟩ trivial
  | connected id connection =>
    exact iff_of_true ⟨updated connection _ fun copy is => (some.inj is).symm, running⟩ trivial
  | closed id connection => exact iff_of_true ⟨updated connection none fun copy is => (by cases is), running⟩ trivial
  | setId id clusterId =>
    -- a copy that was current before is so after only if the id is the same
    constructor
    · rintro ⟨newHandlers, newRunning⟩
      by_cases same : clusterId = (nodes id).clusterId
      · exact .inl same
      · refine .inr ⟨fun connection => ?_, ?_⟩
        · refine eq_none_iff_forall_ne_some.mpr fun copy is => same ?_
          exact (newHandlers connection copy is).symm.trans (handlers connection copy is)
        · refine eq_none_iff_forall_ne_some.mpr fun copy is => same ?_
          exact (newRunning copy is).symm.trans (running copy is)
    · rintro (rfl | ⟨closed, stopped⟩)
      · exact ⟨handlers, running⟩
      · refine ⟨fun connection copy is => ?_, fun copy is => ?_⟩
        · cases (closed connection).symm.trans is
        · cases stopped.symm.trans is

/-- In every run the nodes are isolated throughout exactly if a new id is only ever set at a
node without open connections whose Plumtree loop does not run. -/
theorem isolated_throughout_iff (ids : ActorId → ClusterId) (events : List Event) :
    (∀ before, before <+: events → Isolated (before.foldl step (boot ids))) ↔
      ∀ before event, before ++ [event] <+: events → event.Harmless (before.foldl step (boot ids)) := by
  have start : ∀ id, (boot ids id).Current := fun id => ⟨fun _ _ no => (by cases no), fun _ no => by cases no⟩
  simp only [isolated_iff]
  exact @throughout_iff _ _ step (boot ids) (fun nodes => ∀ id, (nodes id).Current) Event.Harmless start
    (fun _ event current => current_step_iff current event) events

/-- After `SetId` a node still accepts over a connection that was open what carries its old
id, and its Plumtree messages still carry the old id. -/
theorem old_id_still_used :
    let nodes := [.connected 0 0, .startSendLoop 0, .setId 0 2].foldl step (boot fun _ => 1)
    (nodes 0).clusterId = 2 ∧ (nodes 0).accepts 0 (.uni (.v1 anyPayload 1)) = true ∧
      (nodes 0).encode (.inl anyPayload) = some (.uni (.v1 anyPayload 1)) := by
  exact ⟨rfl, rfl, rfl⟩

end Galvanize.ClusterIsolation
