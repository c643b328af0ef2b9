import Galvanize.BigEndian
import Galvanize.Members

/-! `corro-agent/src/broadcast/mod.rs`: the loop that sends changes to other nodes. A change
is handed to the members of the nearest ring at once, and is buffered with others into a
pending broadcast, which goes to a few random members each round until it has had its rounds. -/
namespace Galvanize

/-- `Members::ring0`: the addresses of the nearest ring. -/
def Members.ring0 (self : Members) (clusterId : ClusterId) : List SocketAddr :=
  self.states.toList.filterMap fun (_, state) =>
    if state.ring = some 0 ∧ state.clusterId = clusterId then some state.addr else none

namespace Broadcasting

structure PendingBroadcast where
  payload : List UInt8
  isLocal : Bool
  sentTo : List SocketAddr
  sendCount : Nat
deriving DecidableEq

def PendingBroadcast.new (payload : List UInt8) : PendingBroadcast := ⟨payload, false, [], 0⟩

def PendingBroadcast.newLocal (payload : List UInt8) : PendingBroadcast := ⟨payload, true, [], 0⟩

/-- The two values that the loop reads from the configuration of the membership protocol. -/
structure FocaConfig where
  maxTransmissions : Nat
  numIndirectProbes : Nat
  transmits : 0 < maxTransmissions
  transmissions_byte : maxTransmissions ≤ 255
  probes : 0 < numIndirectProbes

/-- What the loop asks of its surroundings, by how often it has asked before. -/
structure World where
  members : Nat → Members
  clusterId : Nat → ClusterId
  config : Nat → FocaConfig
  -- whether the limiter has the capacity for so many bytes at the moment
  grants : Nat → Nat → Bool
  -- `choose_multiple` of the random generator
  choose : Nat → List SocketAddr → Nat → List SocketAddr
  choose_length : ∀ now peers count, (choose now peers count).length = min count peers.length
  choose_mem : ∀ now peers count addr, addr ∈ choose now peers count → addr ∈ peers

structure Options where
  actorId : ActorId
  bcastCutoff : Nat
  maxQueueLen : Nat

/-- `MAX_INFLIGHT_BROADCAST`. -/
def maxInflightBroadcast : Nat := 500

/-- `max_frame_length` of the codec. -/
def maxFrameLength : Nat := 10 * 1024 * 1024

/-- The quota of the limiter, in bytes per second, which is also its burst. -/
def bytesPerSec : Nat := 10 * 1024 * 1024

inductive TransmitError where
  | tooBig (len : Nat)
  | insufficientCapacity
  | quotaExceeded
deriving DecidableEq

variable (world : World) (options : Options)

/-- `try_transmit_uni`: the transmission is spawned if the limiter lets the payload pass. -/
def tryTransmitUni (now : Nat) (payload : List UInt8) : Except TransmitError Unit :=
  if payload.length = 0 ∨ 4294967295 < payload.length then .error (.tooBig payload.length)
  else if bytesPerSec < payload.length then .error .insufficientCapacity
  else if world.grants now payload.length then .ok ()
  else .error .quotaExceeded

/-- How many peers a pending broadcast goes to, and how often, are worked out once a turn. -/
structure Plan where
  prevRateLimited : Bool
  membersCount : Nat
  ring0Count : Nat
  config : FocaConfig

namespace Plan

def dynamicCount (self : Plan) : Nat := (self.membersCount - self.ring0Count) / (self.config.maxTransmissions * 10)

def count (self : Plan) : Nat := max self.config.numIndirectProbes self.dynamicCount

def chooseCount (self : Plan) : Nat :=
  if self.prevRateLimited then min self.count (self.dynamicCount / 2) else self.count

def maxTransmissions (self : Plan) : Nat :=
  if self.prevRateLimited then self.config.maxTransmissions / 2 else self.config.maxTransmissions

end Plan

/-- One round of a pending broadcast, for the history of the loop: what it was, the peers it
could go to, the peers it was handed to, what became of it, and whether it waits for more. -/
structure Round where
  plan : Plan
  startedAt : Nat
  before : PendingBroadcast
  eligible : List SocketAddr
  handed : List SocketAddr
  after : PendingBroadcast
  requeued : Bool

/-- The state of the loop. The front of a queue is the head of its list. -/
structure Loop where
  bcastBuf : List UInt8
  localBcastBuf : List UInt8
  toBroadcast : List PendingBroadcast
  toLocalBroadcast : List (List UInt8)
  idlePendings : List PendingBroadcast
  -- transmissions that are on their way, the length of the join set
  inflight : Nat
  rateLimited : Bool
  -- how often the world has been asked
  now : Nat
  -- the history, which the loop never reads
  rounds : List Round

def Loop.new : Loop := ⟨[], [], [], [], [], 0, false, 0, []⟩

variable (state : Loop)

/-! ### The branches of the select -/

inductive Branch where
  -- the encoded message, unless it could not be compressed or encoded
  | broadcast (isLocal : Bool) (encoded : Option (List UInt8))
  -- no sender is left
  | closed
  -- a transmission has ended
  | joined
  | broadcastDeadline
  -- the sleep of an idle pending broadcast is over
  | wokePendingBroadcast (position : Nat)
  | tripped
  | metrics

/-- What the loop does after its match on the branch. -/
inductive Flow where
  | stop
  -- `continue`, without sending anything
  | skip (state : Loop)
  | proceed (state : Loop)

/-- The length-delimited codec. -/
def encodeFrame (data : List UInt8) : Option (List UInt8) :=
  if maxFrameLength < data.length then none else some (BigEndian.toBytes 4 data.length ++ data)

/-- A full buffer becomes a pending broadcast. -/
def flush : Loop :=
  if options.bcastCutoff ≤ state.bcastBuf.length then
    { state with bcastBuf := [], toBroadcast := PendingBroadcast.new state.bcastBuf :: state.toBroadcast }
  else state

/-- A full buffer of local changes becomes a pending broadcast. -/
def flushLocal : Loop :=
  if options.bcastCutoff ≤ state.localBcastBuf.length then
    { state with localBcastBuf := [], toBroadcast := PendingBroadcast.newLocal state.localBcastBuf ::
      state.toBroadcast }
  else state

def handleBroadcast (isLocal : Bool) (data : List UInt8) : Flow :=
  match isLocal, encodeFrame data with
  | true, none => .skip state
  | true, some payload =>
    .proceed (flushLocal options
      { state with
        localBcastBuf := state.localBcastBuf ++ payload
        toLocalBroadcast := payload :: state.toLocalBroadcast })
  -- what is buffered goes with the frame that is too long
  | false, none => .skip { state with bcastBuf := [] }
  | false, some payload => .proceed (flush options { state with bcastBuf := state.bcastBuf ++ payload })

def handleDeadline : Loop :=
  let ours := if state.bcastBuf = [] then [] else [PendingBroadcast.new state.bcastBuf]
  let locals := if state.localBcastBuf = [] then [] else [PendingBroadcast.newLocal state.localBcastBuf]
  { state with bcastBuf := [], localBcastBuf := [], toBroadcast := locals ++ ours ++ state.toBroadcast }

def handleBranch : Branch → Flow
  | .closed => .stop
  | .joined => .skip { state with inflight := state.inflight - 1 }
  | .broadcastDeadline => .proceed (handleDeadline state)
  | .broadcast _ none => .skip state
  | .broadcast isLocal (some data) => handleBroadcast options state isLocal data
  | .wokePendingBroadcast position =>
    match state.idlePendings[position]? with
    | some woke =>
      .proceed { state with
        toBroadcast := woke :: state.toBroadcast
        idlePendings := state.idlePendings.eraseIdx position }
    | none => .skip state
  | .tripped => .stop
  | .metrics => .proceed state

/-! ### Local broadcasts -/

/-- The variables of the loop over the nearest ring for one payload. -/
structure LocalRound where
  now : Nat
  inflight : Nat
  ring0 : List SocketAddr
  ring0Count : Nat
  spawnCount : Nat
  rateLimited : Bool

def transmitLocal (world : World) (payload : List UInt8) : List SocketAddr → LocalRound → LocalRound
  | [], self => self
  | addr :: rest, self =>
    if maxInflightBroadcast ≤ self.inflight then self
    else
      let met := { self with now := self.now + 1, ring0Count := self.ring0Count + 1, ring0 := addr :: self.ring0 }
      match tryTransmitUni world self.now payload with
      | .ok () =>
        transmitLocal world payload rest { met with inflight := met.inflight + 1, spawnCount := met.spawnCount + 1 }
      | .error .quotaExceeded => { met with rateLimited := true }
      | .error _ => transmitLocal world payload rest met

/-- The loop over the queue of local payloads; it also gives the nearest ring as it was met. -/
def drainLocal (world : World) : List (List UInt8) → List SocketAddr → Loop → Loop × List SocketAddr
  | [], ring0, state => ({ state with toLocalBroadcast := [] }, ring0)
  | payload :: rest, ring0, state =>
    if state.inflight < maxInflightBroadcast then
      let peers := (world.members state.now).ring0 (world.clusterId state.now)
      let sent := transmitLocal world payload peers ⟨state.now + 1, state.inflight, ring0, 0, 0, state.rateLimited⟩
      let state := { state with now := sent.now, inflight := sent.inflight, rateLimited := sent.rateLimited }
      if sent.rateLimited ∧ sent.spawnCount = 0 ∧ 0 < sent.ring0Count then
        ({ state with toLocalBroadcast := payload :: rest }, sent.ring0)
      else drainLocal world rest sent.ring0 state
    else ({ state with toLocalBroadcast := payload :: rest }, ring0)

/-! ### Pending broadcasts -/

/-- The members that a pending broadcast may go to. -/
def eligiblePeers (members : Members) (clusterId : ClusterId) (actorId : ActorId) (ring0 : List SocketAddr)
    (pending : PendingBroadcast) : List SocketAddr :=
  members.states.toList.filterMap fun (memberId, state) =>
    if memberId = actorId ∨ state.clusterId ≠ clusterId ∨ (pending.isLocal ∧ state.addr ∈ ring0) ∨
        state.addr ∈ pending.sentTo then none
    else some state.addr

/-- The peers that the payload is handed to, and how often the world has been asked then. A
peer for which the limiter has no quota left ends the round. -/
def transmitTo (world : World) (payload : List UInt8) : Nat → List SocketAddr → Nat × List SocketAddr
  | now, [] => (now, [])
  | now, addr :: rest =>
    match tryTransmitUni world now payload with
    | .ok () =>
      let later := transmitTo world payload (now + 1) rest
      (later.1, addr :: later.2)
    | .error .quotaExceeded => (now + 1, [])
    | .error _ => transmitTo world payload (now + 1) rest

/-- The count goes up, unless the byte is full, whether or not anything was handed over. -/
def counted (pending : PendingBroadcast) : PendingBroadcast :=
  if pending.sendCount < 255 then { pending with sendCount := pending.sendCount + 1 } else pending

/-- Whether a broadcast that has been counted waits for another round. -/
def requeues (plan : Plan) (pending : PendingBroadcast) : Bool :=
  decide (pending.sendCount < 255 ∧ pending.sendCount + 1 < plan.maxTransmissions)

/-- The body of the loop over the pending broadcasts. -/
def broadcastPending (ring0 : List SocketAddr) (plan : Plan) (state : Loop)
    (pending : PendingBroadcast) : Loop :=
  let eligible := eligiblePeers (world.members state.now) (world.clusterId state.now) options.actorId ring0 pending
  let peers := world.choose state.now eligible (min plan.chooseCount (maxInflightBroadcast - state.inflight))
  let sent := transmitTo world pending.payload (state.now + 1) peers
  let after := counted { pending with sentTo := sent.2 ++ pending.sentTo }
  let round := ⟨plan, state.now + 1, pending, eligible, sent.2, after, requeues plan pending⟩
  { state with
    now := sent.1
    inflight := state.inflight + sent.2.length
    idlePendings := if requeues plan pending then after :: state.idlePendings else state.idlePendings
    rounds := round :: state.rounds }

def drainPending (world : World) (options : Options) (ring0 : List SocketAddr) (plan : Plan) :
    List PendingBroadcast → Loop → Loop
  | [], state => { state with toBroadcast := [] }
  | pending :: rest, state =>
    if state.inflight < maxInflightBroadcast then
      drainPending world options ring0 plan rest (broadcastPending world options ring0 plan state pending)
    else { state with toBroadcast := pending :: rest }

def planOf (prevRateLimited : Bool) (now : Nat) : Plan :=
  let members := world.members now
  ⟨prevRateLimited, members.states.size, (members.ring0 (world.clusterId now)).length, world.config now⟩

/-- Nothing pending is sent in a turn that was limited with the local payloads. -/
def sendPending (ring0 : List SocketAddr) (prevRateLimited : Bool)
    (state : Loop) : Loop :=
  if state.rateLimited = false ∧ state.toBroadcast ≠ [] ∧ state.inflight < maxInflightBroadcast then
    drainPending world options ring0 (planOf world prevRateLimited state.now) state.toBroadcast
      { state with now := state.now + 1 }
  else state

/-- `max_by_key` on the number of rounds: the last of those with the most. -/
def mostSent : List PendingBroadcast → Nat → Option (Nat × Nat) → Option (Nat × Nat)
  | [], _, best => best
  | pending :: rest, position, best =>
    match best with
    | some (_, most) =>
      mostSent rest (position + 1) (if most ≤ pending.sendCount then some (position, pending.sendCount) else best)
    | none => mostSent rest (position + 1) (some (position, pending.sendCount))

/-- `drop_oldest_broadcast`. -/
def dropOldestBroadcast : Loop :=
  if options.maxQueueLen < state.toBroadcast.length + state.toLocalBroadcast.length then
    match mostSent state.toBroadcast 0 none with
    | some (position, _) => { state with toBroadcast := state.toBroadcast.eraseIdx position }
    | none => { state with toLocalBroadcast := state.toLocalBroadcast.dropLast }
  else state

/-! ### Turns -/

/-- What follows the match on the branch. -/
def sendAll : Loop :=
  let drained := drainLocal world state.toLocalBroadcast [] { state with rateLimited := false }
  dropOldestBroadcast options (sendPending world options drained.2 state.rateLimited drained.1)

/-- `handle_broadcasts`, for the branches that its select takes. -/
def handleBroadcasts (world : World) (options : Options) : List Branch → Loop → Loop
  | [], state => state
  | branch :: rest, state =>
    match handleBranch options state branch with
    | .stop => state
    | .skip state => handleBroadcasts world options rest state
    | .proceed state => handleBroadcasts world options rest (sendAll world options state)

end Broadcasting
end Galvanize
