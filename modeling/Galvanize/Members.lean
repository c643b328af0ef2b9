import Galvanize.BaseTypes

/-! `corro-types/src/members.rs`: the members of the cluster as a node knows them, an index
of their addresses, and the ring of each by the round-trip times to its address. -/
namespace Galvanize

/-- A socket address, by its place in their order. -/
abbrev SocketAddr := Nat

abbrev MemberId := Nat

abbrev ClusterId := Nat

/-- `Actor`: the identity of a node in one of its lives. -/
structure Actor where
  id : ActorId
  addr : SocketAddr
  ts : Timestamp
  clusterId : ClusterId
  memberId : Option MemberId
deriving DecidableEq

structure MemberState where
  addr : SocketAddr
  ts : Timestamp
  clusterId : ClusterId
  ring : Option Nat
  lastSyncTs : Option Timestamp
  memberId : Option MemberId
deriving DecidableEq

namespace MemberState

def new (addr : SocketAddr) (ts : Timestamp) (clusterId : ClusterId) (memberId : Option MemberId) : MemberState :=
  ⟨addr, ts, clusterId, none, none, memberId⟩

def toActor (self : MemberState) (id : ActorId) : Actor := ⟨id, self.addr, self.ts, self.clusterId, self.memberId⟩

end MemberState

/-! ### Rings -/

/-- `RING_BUCKETS`, in milliseconds. -/
def ringBuckets : List (Nat × Nat) := [(0, 6), (6, 15), (15, 50), (50, 100), (100, 200), (200, 300)]

/-- `RTT_WINDOW`. -/
def rttWindow : Nat := 20

/-- `RING_HYSTERESIS_MS`. -/
def ringHysteresisMs : Nat := 2

/-- `bucket_for`: what is beyond the last bucket belongs to it. -/
def bucketFor (rttMs : Nat) : Nat :=
  (ringBuckets.findIdx? fun bucket => decide (bucket.1 ≤ rttMs ∧ rttMs < bucket.2)).getD (ringBuckets.length - 1)

/-- `ring_with_hysteresis`: a step to the next ring needs some distance from the boundary. -/
def ringWithHysteresis (current : Option Nat) (rttMs : Nat) : Nat :=
  let target := bucketFor rttMs
  match current with
  | none => target
  | some current =>
    let bucket := ringBuckets.getD current (0, 0)
    if target = current ∨ current + 1 < target ∨ target + 1 < current then target
    else if current < target then
      if bucket.2 + ringHysteresisMs ≤ rttMs then current + 1 else current
    else if rttMs + ringHysteresisMs ≤ bucket.1 then current - 1
    else current

/-- `Rtt`: the last samples, the newest first. -/
structure Rtt where
  buf : List Nat
deriving DecidableEq

namespace Rtt

def pushFront (self : Rtt) (ms : Nat) : Rtt := ⟨(ms :: self.buf).take rttWindow⟩

def maxMs (self : Rtt) : Option Nat := self.buf.max?

end Rtt

/-! ### Members -/

structure Members where
  memberId : Option MemberId
  states : Map ActorId MemberState
  byAddr : Map SocketAddr ActorId
  rtts : Map SocketAddr Rtt

inductive MemberAddedResult where
  | newMember (state : MemberState)
  | removed
  | updated (state : MemberState)
  | ignored
deriving DecidableEq

namespace Members

def new (memberId : Option MemberId) : Members := ⟨memberId, ∅, ∅, ∅⟩

variable (self : Members) (addr : SocketAddr)

def get (id : ActorId) : Option MemberState := self.states[id]?

/-- The member at an address with samples gets its ring. -/
def recalculateRings : Members :=
  match self.byAddr[addr]?, self.rtts[addr]?.bind Rtt.maxMs with
  | some actorId, some max =>
    { self with states := self.states.modify actorId fun state =>
      { state with ring := some (ringWithHysteresis state.ring max) } }
  | _, _ => self

/-- `Duration` in nanoseconds, as milliseconds. -/
def millis (rtt : Nat) : Nat := rtt % 1000000000 / 1000000 + rtt / 1000000000 * 1000

def addRtt (rtt : Nat) : Members :=
  let samples := (self.rtts[addr]?.getD ⟨[]⟩).pushFront (millis rtt)
  { self with rtts := self.rtts.insert addr samples }.recalculateRings addr

section
-- what `to_duration` makes of a timestamp; timestamps of the same duration count as equal
variable (clock : Timestamp → Nat)

/-- `add_member`. -/
def addMember (self : Members) (actor : Actor) : Members × MemberAddedResult :=
  if actor.memberId ≠ self.memberId then
    ({ self with states := self.states.erase actor.id, byAddr := self.byAddr.erase actor.addr },
      if self.states.contains actor.id then .removed else .ignored)
  else
    match self.states[actor.id]? with
    | none =>
      let member := MemberState.new actor.addr actor.ts actor.clusterId actor.memberId
      ({ self with
          states := self.states.insert actor.id member
          byAddr := self.byAddr.insert actor.addr actor.id }.recalculateRings actor.addr, .newMember member)
    | some member =>
      if clock member.ts < clock actor.ts then
        let renewed :=
          { member with addr := actor.addr, ts := actor.ts, clusterId := actor.clusterId, memberId := actor.memberId }
        ({ self with states := self.states.insert actor.id renewed }, .updated renewed)
      else (self, .ignored)

/-- `remove_member`: only the life that is known of ends. -/
def removeMember (self : Members) (actor : Actor) : Members × Bool :=
  match self.states[actor.id]? with
  | some member =>
    if clock member.ts = clock actor.ts then
      ({ self with byAddr := self.byAddr.erase actor.addr, states := self.states.erase actor.id }, true)
    else (self, false)
  | none => (self, false)

end

/-! ### The two maps of an operation -/

/-- The address that is recorded of an actor. -/
def addrOf (id : ActorId) : Option SocketAddr := self.states[id]?.map MemberState.addr

/-- The actor that the index names for an address. -/
def actorAt : Option ActorId := self.byAddr[addr]?

end Members
end Galvanize
