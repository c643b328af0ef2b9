import Mathlib.Data.List.Sort
import Mathlib.Data.List.Lattice
import Galvanize.IndexMap
import Galvanize.IndexSet

/-! The peer sets of a Plumtree node: which peers it knows, which of them get full
payloads, which only get digests, and which are pinned as ring neighbours. Time is
counted in nanoseconds. -/
namespace Galvanize.Plumtree

/-- How the crate was compiled. A development build checks arithmetic and runs the debug
assertions; a release build wraps around and skips them. -/
inductive Build where
  | dev
  | release
deriving DecidableEq

/-- Why an operation does not return. -/
inductive Fault where
  | overflow
  | emptyRange
  | assertion
deriving DecidableEq

def usizeMax : Nat := 18446744073709551615

def roundMax : Nat := 4294967295

/-- A result that has to stay below a bound: checked, or wrapped around. -/
def Build.fit (build : Build) (max value : Nat) : Except Fault Nat :=
  match build with
  | .dev => if value ≤ max then .ok value else .error .overflow
  | .release => .ok (value % (max + 1))

/-- Subtraction of machine words. -/
def Build.sub (build : Build) (left right : Nat) : Except Fault Nat :=
  match build with
  | .dev => if right ≤ left then .ok (left - right) else .error .overflow
  | .release => .ok (if right ≤ left then left - right else left + (usizeMax + 1) - right)

/-- Where a peer stands by its round-trip time. -/
structure RttInfo where
  ring : Option Nat
deriving DecidableEq

def RttInfo.default : RttInfo := ⟨none⟩

inductive RingBucket where
  | near
  | mid
  | far
deriving DecidableEq

def RingBucket.of (info : RttInfo) : RingBucket :=
  match info.ring with
  | some 0 | some 1 => .near
  | some 2 | some 3 => .mid
  | _ => .far

/-- Percentages of the target fanout. -/
structure EagerRatios where
  nearPct : Nat
  midPct : Nat
  farPct : Nat
deriving DecidableEq

def EagerRatios.default : EagerRatios := ⟨50, 30, 20⟩

def EagerRatios.valid (ratios : EagerRatios) : Prop := ratios.nearPct + ratios.midPct + ratios.farPct = 100

instance (ratios : EagerRatios) : Decidable ratios.valid := inferInstanceAs (Decidable (_ = _))

structure Config where
  ihaveTimeout : Nat
  optimizationThreshold : Option Nat
  numEager : Option Nat
  minLazy : Option Nat
  maxLazy : Option Nat
  pruneThreshold : Nat
  maxCachedPayloads : Nat
  pruneThrottle : Option Nat
  eagerRatios : EagerRatios
  ringLockedRadius : Nat
deriving DecidableEq

def Config.default : Config where
  ihaveTimeout := 1000000000
  optimizationThreshold := some 3
  numEager := none
  minLazy := none
  maxLazy := none
  pruneThreshold := 1
  maxCachedPayloads := 8192
  pruneThrottle := some 1000000000
  eagerRatios := EagerRatios.default
  ringLockedRadius := 1

/-- `ring_locked_radius.max(1)`. -/
def Config.radius (config : Config) : Nat := max config.ringLockedRadius 1

structure FanoutTargets where
  numEager : Nat
  minLazy : Nat
  maxLazy : Nat
deriving DecidableEq

/-- `round(log10(known + 1) * 3)`, at least 3. The rounded value is at least `k + 1` exactly
if `known + 1` reaches the `2 * k + 1`-th power of the sixth root of ten. -/
def autoEager (known : Nat) : Nat :=
  max ((List.range 60).countP fun k => decide (Nat.pow 10 (2 * k + 1) ≤ Nat.pow (known + 1) 6)) 3

/-- The defaults of both lazy limits are computed even when they are not used. -/
def resolveFanout (build : Build) (known : Nat) (config : Config) : Except Fault FanoutTargets := do
  let numEager := config.numEager.getD (autoEager known)
  let triple ← build.fit usizeMax (numEager * 3)
  let double ← build.fit usizeMax (numEager * 2)
  .ok ⟨numEager, config.minLazy.getD (triple / 2), config.maxLazy.getD double⟩

/-- Observable protocol events. -/
inductive Notification (N I : Type) where
  | peerMovedToEager (peer : N)
  | peerDroppedFromEager (peer : N)
  | peerMovedToLazy (peer : N)
  | peerEvictedFromLazy (peer : N)
  | duplicateMessage (id : I)
  | payloadNotCached (id : I)
  | messageMissing (count : Nat)
  | pruneSuppressed (peer : N)
  | rebalance
deriving DecidableEq

/-- What one operation draws from the random number generator, and in which order it finds
the peers of a hash set. -/
structure Dice (N : Type) where
  index : Nat → Nat
  index_lt : ∀ {size : Nat}, 0 < size → index size < size
  shuffle : List N → List N
  shuffle_perm : ∀ peers : List N, (shuffle peers).Perm peers
  choose : List N → Option N
  choose_mem : ∀ {peers : List N} {peer : N}, choose peers = some peer → peer ∈ peers
  choose_some : ∀ {peers : List N}, peers ≠ [] → (choose peers).isSome

/-- The peer sets of one node, with what decides about them. -/
structure Overlay (N : Type) where
  localId : N
  config : Config
  eager : IndexSet N
  lazy : IndexSet N
  known : IndexSet N
  ringLocked : IndexSet N
  peerTopology : IndexMap N RttInfo
  pendingTopology : IndexMap N (RttInfo × Nat)
  needsRebalance : Bool
  fanout : FanoutTargets

namespace Overlay
variable {N I : Type} [LinearOrder N]

/-- A node that knows nobody yet. -/
def new (build : Build) (localId : N) (config : Config) : Except Fault (Overlay N) := do
  let fanout ← resolveFanout build 0 config
  .ok {
    localId
    config
    eager := ∅
    lazy := ∅
    known := ∅
    ringLocked := ∅
    peerTopology := ∅
    pendingTopology := ∅
    needsRebalance := false
    fanout }

variable (build : Build) (dice : Dice N) (self : Overlay N) (peer : N) (info : RttInfo)

/-- `maybe_recompute_fanout`. -/
def maybeRecomputeFanout : Except Fault (Overlay N × Bool) :=
  if self.config.numEager.isSome then .ok (self, false)
  else do
    let fresh ← resolveFanout build self.known.size self.config
    .ok ({ self with fanout := fresh }, decide (fresh ≠ self.fanout))

def commitTopology : Overlay N :=
  { self with
    peerTopology := self.peerTopology.upsert peer fun _ => info
    known := self.known.insert peer
    pendingTopology := self.pendingTopology.shiftRemove peer }

def peerBucket : RingBucket :=
  RingBucket.of ((self.peerTopology.get? peer).getD RttInfo.default)

/-- All peers and the node itself, sorted. -/
def ring : List N := (self.known.items ++ [self.localId]).insertionSort (· ≤ ·)

def position : Nat := self.ring.idxOf self.localId

/-- The peer some places along the ring. -/
def ringAt (place : Nat) : N := (self.ring[place % self.ring.length]?).getD self.localId

def lockUnlessLocal (locked : IndexSet N) (peer : N) : IndexSet N :=
  if peer = self.localId then locked else locked.insert peer

/-- The two neighbours at one distance. -/
def lockNeighbors (locked : IndexSet N) (distance : Nat) : Except Fault (IndexSet N) := do
  let after := self.ringAt (self.position + distance)
  let back ← build.sub (self.position + self.ring.length) distance
  let before := self.ringAt back
  .ok (self.lockUnlessLocal (self.lockUnlessLocal locked after) before)

/-- `set_ring_neighbors`. -/
def setRingNeighbors : Except Fault (Overlay N) :=
  if self.ring.length ≤ 1 then .ok { self with ringLocked := ∅ }
  else do
    let locked ← (List.range' 1 self.config.radius).foldlM (lockNeighbors build self) ∅
    .ok { self with ringLocked := locked }

/-- How many peers to take from each bucket. -/
structure BucketTargets where
  near : Nat
  mid : Nat
  far : Nat

def BucketTargets.get (targets : BucketTargets) : RingBucket → Nat
  | .near => targets.near
  | .mid => targets.mid
  | .far => targets.far

/-- The rounded-up shares, cut to what the buckets hold, and the rest given to the near and
then to the middle bucket. -/
def bucketTargets (numEager nearCap midCap farCap : Nat) (ratios : EagerRatios) :
    Except Fault BucketTargets :=
  if build = .dev ∧ ¬ratios.valid then .error .assertion
  else do
    let nearShare ← build.fit usizeMax (numEager * ratios.nearPct)
    let midShare ← build.fit usizeMax (numEager * ratios.midPct)
    let near := min ((nearShare + 99) / 100) nearCap
    let mid := min ((midShare + 99) / 100) midCap
    let far := min (numEager - (near + mid)) farCap
    let near := min nearCap (numEager - (mid + far))
    let mid := min midCap (numEager - (near + far))
    .ok ⟨near, mid, far⟩

/-- One of the three `bucket_pools`. -/
def bucketPool (bucket : RingBucket) : List N :=
  dice.shuffle (self.known.items.filter fun peer =>
    decide (peer ∉ self.eager ∧ peer ∉ self.lazy ∧ self.peerBucket peer = bucket))

/-- How many ring neighbours a bucket holds. -/
def lockedIn (bucket : RingBucket) : Nat :=
  self.ringLocked.items.countP fun peer => decide (self.peerBucket peer = bucket)

/-- Each bucket gives its first peers to the eager set and the next ones to the lazy set. -/
def takePeers (pool : RingBucket → List N) (eagers lazies : RingBucket → Nat) : Overlay N :=
  let eagerFrom bucket := (pool bucket).take (eagers bucket)
  let lazyFrom bucket := ((pool bucket).drop (eagers bucket)).take (lazies bucket)
  { self with
    eager := ((self.eager.extend (eagerFrom .near)).extend (eagerFrom .mid)).extend (eagerFrom .far)
    lazy := ((self.lazy.extend (lazyFrom .near)).extend (lazyFrom .mid)).extend (lazyFrom .far) }

/-- Ring neighbours are always eager. -/
def pinLocked : Overlay N := { self with eager := self.eager.extend self.ringLocked.items }

/-- The part of `rebalance` that splits more peers than the fanout over both sets. Ring
neighbours count toward the eager target of their bucket. -/
def selectPeers (before : Overlay N) : Except Fault (Overlay N) := do
  let self := before.pinLocked
  let pool := self.bucketPool dice
  let targets ← bucketTargets build self.fanout.numEager
    ((pool .near).length + self.lockedIn .near) ((pool .mid).length + self.lockedIn .mid)
    ((pool .far).length + self.lockedIn .far) self.config.eagerRatios
  let eagers bucket := targets.get bucket - self.lockedIn bucket
  let lazies ← bucketTargets build self.fanout.minLazy
    ((pool .near).length - eagers .near) ((pool .mid).length - eagers .mid)
    ((pool .far).length - eagers .far) self.config.eagerRatios
  .ok (self.takePeers pool eagers lazies.get)

def clearSelection : Overlay N := { self with eager := ∅, lazy := ∅, ringLocked := ∅ }

/-- `rebalance`: both sets are emptied and selected again. -/
def rebalance : Except Fault (Overlay N) :=
  if self.known.size = 0 then .ok self.clearSelection
  else do
    let locked ← self.clearSelection.setRingNeighbors build
    if locked.known.size ≤ locked.fanout.numEager then
      .ok { locked with eager := locked.eager.extend locked.known.items }
    else locked.selectPeers build dice

def moveToEager : Overlay N × List (Notification N I) :=
  if peer ∈ self.eager ∨ peer ∉ self.known then (self, [])
  else
    ({ self with eager := self.eager.insert peer, lazy := self.lazy.remove peer }, [.peerMovedToEager peer])

/-- `insert_into_lazy`: when the set is full a random peer leaves it. -/
def insertIntoLazy : Except Fault (Overlay N × List (Notification N I)) :=
  if peer ∈ self.lazy then .ok (self, [])
  else if self.lazy.size < self.fanout.maxLazy then
    .ok ({ self with lazy := self.lazy.insert peer }, [.peerMovedToLazy peer])
  else if self.lazy.size = 0 then .error .emptyRange
  else
    match self.lazy.items[dice.index self.lazy.size]? with
    | some evicted =>
      .ok ({ self with lazy := (self.lazy.remove evicted).insert peer },
        [.peerMovedToLazy peer, .peerEvictedFromLazy evicted])
    | none => .ok (self, [])

def moveToLazy : Except Fault (Overlay N × List (Notification N I)) :=
  if peer ∈ self.ringLocked then .ok (self, [])
  else if peer ∈ self.lazy ∨ peer ∉ self.known then .ok (self, [])
  else do
    let dropped := { self with eager := self.eager.remove peer }
    let (inserted, notices) ← dropped.insertIntoLazy dice peer
    .ok (inserted, (if peer ∈ self.eager then [.peerDroppedFromEager peer] else []) ++ notices)

def ensureInLazy : Except Fault (Overlay N × List (Notification N I)) :=
  if peer ∈ self.eager ∨ peer ∈ self.lazy ∨ peer ∉ self.known then .ok (self, [])
  else self.insertIntoLazy dice peer

/-- `force_eager`, for simulations. -/
def forceEager : Overlay N :=
  if peer ∈ self.known then { self with lazy := self.lazy.remove peer, eager := self.eager.insert peer } else self

/-- The peers of a bulk addition, without the node itself. -/
def commitAll (peers : List (N × RttInfo)) : Overlay N :=
  peers.foldl
    (fun (held : Overlay N) entry => if entry.1 = held.localId then held else held.commitTopology entry.1 entry.2) self

/-- `add_peers_bulk_with_rtt`. -/
def addPeersBulkWithRtt (peers : List (N × RttInfo)) :
    Except Fault (Overlay N × List (Notification N I)) := do
  let (resized, _) ← (self.commitAll peers).maybeRecomputeFanout build
  let balanced ← resized.rebalance build dice
  .ok (balanced, [.rebalance])

def addPeersBulk (peers : List N) :
    Except Fault (Overlay N × List (Notification N I)) :=
  self.addPeersBulkWithRtt build dice (peers.map fun peer => (peer, RttInfo.default))

/-- A new peer is eager while there is room. -/
def placePeer : Except Fault (Overlay N × List (Notification N I)) :=
  if self.eager.size < self.fanout.numEager then .ok (self.moveToEager peer) else self.insertIntoLazy dice peer

def peerUp (rtt : Option RttInfo) :
    Except Fault (Overlay N × List (Notification N I)) :=
  if peer = self.localId ∨ peer ∈ self.known then .ok (self, [])
  else do
    let (resized, _) ← (self.commitTopology peer (rtt.getD RttInfo.default)).maybeRecomputeFanout build
    let (placed, notices) ← resized.placePeer dice peer
    .ok ({ placed with needsRebalance := true }, notices)

/-- `RING_EXTRA_CONFIRMATIONS`. -/
def ringExtraConfirmations : Nat := 8

/-- How often in a row the new bucket of a peer has been seen. -/
def confirmations : Nat :=
  match self.pendingTopology.get? peer with
  | some (pending, count) => if RingBucket.of pending = RingBucket.of info then count + 1 else 1
  | none => 1

/-- One update, and whether the topology changed. -/
def updateTopology : Overlay N × Bool :=
  match self.peerTopology.get? peer with
  | none => (self.commitTopology peer info, true)
  | some existing =>
    if existing.ring.isNone ∧ info.ring.isSome then
      -- The first ring of a peer is taken at once.
      ({ self with
          pendingTopology := self.pendingTopology.shiftRemove peer
          peerTopology := self.peerTopology.upsert peer fun _ => info },
        decide (RingBucket.of info ≠ RingBucket.of existing))
    else if RingBucket.of info = RingBucket.of existing then
      ({ self with pendingTopology := self.pendingTopology.shiftRemove peer }, false)
    else if ringExtraConfirmations ≤ self.confirmations peer info then (self.commitTopology peer info, true)
    else
      ({ self with
          pendingTopology := self.pendingTopology.upsert peer fun _ => (info, self.confirmations peer info) }, false)

/-- The loop over the updates, and whether one of them changed the topology. -/
def updateTopologies : Overlay N → List (N × RttInfo) → Overlay N × Bool
  | self, [] => (self, false)
  | self, (peer, info) :: rest =>
    let first := self.updateTopology peer info
    let later := first.1.updateTopologies rest
    (later.1, first.2 || later.2)

def recomputeUnlessCount (count : Nat) (self : Overlay N) : Except Fault (Overlay N × Bool) :=
  if self.known.size = count then .ok (self, false) else self.maybeRecomputeFanout build

/-- The deferred `rebalance`, if one is due. -/
def rebalanceIfDue (changed : Bool) (self : Overlay N) :
    Except Fault (Overlay N × List (Notification N I)) :=
  if self.needsRebalance ∨ changed then do
    let balanced ← self.rebalance build dice
    .ok ({ balanced with needsRebalance := false }, [.rebalance])
  else .ok (self, [])

/-- `update_peer_topology`: the local id is not left out here. -/
def updatePeerTopology (updates : List (N × RttInfo)) :
    Except Fault (Overlay N × List (Notification N I)) := do
  let updated := self.updateTopologies updates
  let (resized, _) ← updated.1.recomputeUnlessCount build self.known.size
  resized.rebalanceIfDue build dice updated.2

/-- `peer_down`: the fanout is only looked at again for a peer that was in neither set. -/
def peerDown : Except Fault (Overlay N) :=
  let left := { self with
    eager := self.eager.remove peer
    lazy := self.lazy.remove peer
    known := self.known.remove peer
    ringLocked := self.ringLocked.remove peer
    pendingTopology := self.pendingTopology.shiftRemove peer }
  if peer ∈ self.eager ∨ peer ∈ self.lazy then .ok { left with needsRebalance := true }
  else do
    let (resized, changed) ← left.maybeRecomputeFanout build
    .ok { resized with needsRebalance := resized.needsRebalance || changed }

end Overlay
end Galvanize.Plumtree
