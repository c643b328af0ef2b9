import Mathlib.Data.List.Basic
import Galvanize.Overlay

/-! The Plumtree protocol of one node: gossip that is forwarded along eager links,
digests on lazy links, and timers that graft what was announced and never came. -/
namespace Galvanize.Plumtree

structure IHaveDigest (I : Type) where
  id : I
  round : Nat
deriving DecidableEq

structure GraftRequest (I : Type) where
  id : I
  round : Nat
deriving DecidableEq

/-- `PlumtreeMsg`, with the fields of its four kinds. -/
inductive PlumtreeMsg (N I P : Type) where
  | gossip (round : Nat) (sender : N) (payload : P)
  | ihave (sender : N) (digests : List (IHaveDigest I))
  | graft (sender : N) (send : Bool) (requests : List (GraftRequest I))
  | prune (sender : N) (triggeredBy : Option I)
deriving DecidableEq

/-- The one timer, `IHaveTimeoutBatch`. -/
structure Timer (N I : Type) where
  ids : List I
  retries : Nat
  senders : List N
deriving DecidableEq

/-- What an operation asks of the runtime. -/
inductive Effect (N I P : Type) where
  | send (recipient : N) (msg : PlumtreeMsg N I P)
  | sendAll (peers : List N) (msg : PlumtreeMsg N I P)
  | deliver (payload : P)
  | schedule (timer : Timer N I) (after : Nat)
  | notify (notification : Notification N I)
deriving DecidableEq

structure MissingEntry (N : Type) where
  ihaveSender : N
  round : Nat
deriving DecidableEq

/-- The traits of message ids and payloads, and the store of the seen ids. -/
structure Protocol (N I P S : Type) where
  idOrigin : I → N
  messageId : P → I
  origin : P → N
  contains : S → I → Bool
  observe : S → I → Nat → Option Nat × S
  evictIfNeeded : S → S

structure PlumtreeState (N I P S : Type) extends Overlay N where
  lazyQueue : List (IHaveDigest I)
  missing : IndexMap I (MissingEntry N)
  seen : S
  cache : IndexMap I (P × Nat)
  pruneThrottle : IndexMap N Nat

/-- What the runtime and the random number generator give to one operation. -/
structure Surround (N : Type) where
  build : Build
  now : Nat
  dice : Dice N

/-- The last instant the clock can name, in nanoseconds. -/
def instantMax : Nat := 9223372036854775807999999999

namespace PlumtreeState
variable {N I P S : Type} [LinearOrder N] [DecidableEq I]

/-- `new_with_store`. -/
def new (build : Build) (localId : N) (config : Config) (seen : S) : Except Fault (PlumtreeState N I P S) := do
  let overlay ← Overlay.new build localId config
  .ok { toOverlay := overlay, lazyQueue := [], missing := ∅, seen, cache := ∅, pruneThrottle := ∅ }

section
variable (self : PlumtreeState N I P S)

/-- An operation on the peer sets alone. -/
def withOverlay (result : Except Fault (Overlay N × List (Notification N I))) :
    Except Fault (PlumtreeState N I P S × List (Effect N I P)) := do
  let (overlay, notices) ← result
  .ok ({ self with toOverlay := overlay }, notices.map .notify)

/-- `PruneThrottle::throttled`. -/
def throttled (peer : N) (now : Nat) : Bool :=
  match self.pruneThrottle.get? peer with
  | some until_ => decide (now < until_)
  | none => false

/-- `PruneThrottle::record`: an instant beyond the clock stops the operation in every build. -/
def recordThrottle (peer : N) (now ttl : Nat) : Except Fault (PlumtreeState N I P S) :=
  if now + ttl ≤ instantMax then
    .ok { self with pruneThrottle := self.pruneThrottle.upsert peer fun _ => now + ttl }
  else .error .overflow

/-- `PruneThrottle::clear_expired`. -/
def clearExpired (now : Nat) : PlumtreeState N I P S :=
  { self with
    pruneThrottle := ⟨self.pruneThrottle.entries.filter fun entry => decide (now < entry.2),
      self.pruneThrottle.distinct.sublist (List.filter_sublist.map _)⟩ }

def enqueueIHave (id : I) (round : Nat) : PlumtreeState N I P S :=
  { self with lazyQueue := self.lazyQueue ++ [⟨id, round⟩] }

def cacheInsert (id : I) (payload : P) (round : Nat) : PlumtreeState N I P S :=
  { self with cache := self.cache.upsert id fun _ => (payload, round) }

end

section
variable (proto : Protocol N I P S) (around : Surround N) (self : PlumtreeState N I P S) (sender : N)
  (id : I)

/-- The throttle of a sender that is about to be pruned, where one is configured. -/
def throttlePrunes : Except Fault (PlumtreeState N I P S) :=
  match self.config.pruneThrottle with
  | some ttl => self.recordThrottle sender around.now ttl
  | none => .ok self

/-- The prune that answers one duplicate too many. -/
def pruneSender :
    Except Fault (PlumtreeState N I P S × List (Effect N I P)) := do
  let recorded ← self.throttlePrunes around sender
  let (moved, effects) ← recorded.withOverlay (recorded.moveToLazy around.dice sender)
  .ok (moved, .send sender (.prune self.localId (some id)) :: effects)

/-- What `handle_gossip` does with a message that was seen before. -/
def duplicateGossip (duplicates : Nat) :
    Except Fault (PlumtreeState N I P S × List (Effect N I P)) :=
  if self.config.pruneThreshold < duplicates ∧ sender ∉ self.ringLocked then
    if self.config.pruneThrottle.isSome ∧ self.throttled sender around.now then
      .ok (self, [.notify (.pruneSuppressed sender), .notify (.duplicateMessage id)])
    else do
      let (pruned, effects) ← self.pruneSender around sender id
      .ok (pruned, effects ++ [.notify (.duplicateMessage id)])
  else .ok (self, [.notify (.duplicateMessage id)])

/-- The eager peers a new message goes on to. -/
def forwardPeers (sender origin : N) : List N :=
  self.eager.items.filter fun peer => decide (peer ≠ sender ∧ peer ≠ self.localId ∧ origin ≠ peer)

/-- The graft toward a peer that announced the message much closer to its origin. -/
def optimizationGraft (round : Nat) :
    Except Fault (List (Effect N I P)) :=
  match self.missing.get? id, self.config.optimizationThreshold with
  | some entry, some threshold => do
    let reached ← around.build.fit roundMax (entry.round + threshold)
    .ok (if reached < round ∧ entry.ihaveSender ≠ sender then
      [.send entry.ihaveSender (.graft self.localId false [⟨id, entry.round⟩])]
    else [])
  | _, _ => .ok []

/-- The message on its way along the tree. The addition saturates: the last round is passed
on as it is. -/
def forwardGossip (round : Nat) (sender : N) (payload : P) : List (Effect N I P) :=
  let nextRound := min (round + 1) roundMax
  let peers := self.forwardPeers sender (proto.origin payload)
  if peers = [] then [] else [.sendAll peers (.gossip nextRound self.localId payload)]

/-- What `handle_gossip` does with a message that is new. -/
def newGossip (round : Nat) (sender : N) (payload : P) :
    Except Fault (PlumtreeState N I P S × List (Effect N I P)) := do
  let id := proto.messageId payload
  let cached := self.cacheInsert id payload round
  let forward := cached.forwardGossip proto round sender payload
  let (placed, notices) ← cached.withOverlay (cached.ensureInLazy around.dice sender)
  let grafts ← placed.optimizationGraft around sender id round
  let found := { placed with missing := placed.missing.shiftRemove id }
  .ok (found.enqueueIHave id round, .deliver payload :: (forward ++ notices ++ grafts))

def noteSeen (round : Nat) : PlumtreeState N I P S :=
  { self with seen := (proto.observe self.seen id round).2 }

/-- A payload is new, or one duplicate more. -/
def handleGossip (round : Nat) (sender : N) (payload : P) :
    Except Fault (PlumtreeState N I P S × List (Effect N I P)) :=
  if proto.origin payload = self.localId then .ok (self, [])
  else
    let noted := self.noteSeen proto (proto.messageId payload) round
    match (proto.observe self.seen (proto.messageId payload) round).1 with
    | some duplicates => noted.duplicateGossip around sender (proto.messageId payload) duplicates
    | none => noted.newGossip proto around round sender payload

/-- A digest that announces nothing that is wanted. -/
def ignoresDigest : Bool :=
  decide (proto.idOrigin id = self.localId) || proto.contains self.seen id || self.missing.containsKey id

/-- One digest of an announcement, with the ids that are new. -/
def noteDigest (held : PlumtreeState N I P S × List I) (digest : IHaveDigest I) :
    PlumtreeState N I P S × List I :=
  if held.1.ignoresDigest proto digest.id then held
  else
    ({ held.1 with missing := held.1.missing.upsert digest.id fun _ => ⟨sender, digest.round⟩ },
      held.2 ++ [digest.id])

/-- The announcing peer, and one other eager peer to fall back on. -/
def graftSenders : List N :=
  sender :: (around.dice.choose (self.eager.items.filter fun peer => decide (peer ≠ sender))).toList

/-- Announced ids that are not held wait for a timer. -/
def handleIHave (digests : List (IHaveDigest I)) :
    PlumtreeState N I P S × List (Effect N I P) :=
  let noted := digests.foldl (noteDigest proto sender) (self, [])
  (noted.1,
    if noted.2 = [] then []
    else [.schedule ⟨noted.2, 0, self.graftSenders around sender⟩ self.config.ihaveTimeout])

/-- The answer to one request of a graft. -/
def answerRequest (request : GraftRequest I) : Effect N I P :=
  match self.cache.get? request.id with
  | some (payload, round) => .send sender (.gossip round self.localId payload)
  | none => .notify (.payloadNotCached request.id)

/-- The asking peer becomes eager and is answered. -/
def handleGraft (send : Bool) (requests : List (GraftRequest I)) :
    PlumtreeState N I P S × List (Effect N I P) :=
  let moved := self.moveToEager (I := I) sender
  ({ self with toOverlay := moved.1 },
    moved.2.map .notify ++ if send then requests.map (self.answerRequest sender) else [])

/-- The peer becomes lazy, unless the ring needs it. -/
def handlePrune :
    Except Fault (PlumtreeState N I P S × List (Effect N I P)) :=
  if sender ∈ self.ringLocked then .ok (self, [])
  else self.withOverlay (self.moveToLazy around.dice sender)

def handleShutdown : List (Effect N I P) :=
  [.sendAll self.eager.items (.prune self.localId none)]

/-- `broadcast`: the store of seen ids is not told. -/
def broadcast (payload : P) : PlumtreeState N I P S × List (Effect N I P) :=
  ((self.cacheInsert id payload 0).enqueueIHave id 0,
    [.sendAll (self.eager.items.filter fun peer => decide (peer ≠ self.localId)) (.gossip 0 self.localId payload)])

/-- One id of a timer, with the requests so far. -/
def collectRequest (held : PlumtreeState N I P S × List (GraftRequest I)) (id : I) :
    PlumtreeState N I P S × List (GraftRequest I) :=
  if proto.idOrigin id = held.1.localId ∨ proto.contains held.1.seen id then
    ({ held.1 with missing := held.1.missing.shiftRemove id }, held.2)
  else
    match held.1.missing.get? id with
    | some entry => (held.1, held.2 ++ [⟨id, entry.round⟩])
    | none => held

/-- `chunks(size)`. -/
def chunks {α : Type} (size : Nat) : Nat → List α → List (List α)
  | 0, _ => []
  | _, [] => []
  | fuel + 1, items => items.take size :: chunks size fuel (items.drop size)

/-- `3 * 60` seconds. -/
def graftTtl : Nat := 180000000000

/-- What follows the grafts: another try with the next sender, or giving up. -/
def afterGrafts (requested : List I) (retries : Nat) (senders : List N) :
    PlumtreeState N I P S × List (Effect N I P) :=
  if retries + 1 < senders.length % (roundMax + 1) then
    (self, [.schedule ⟨requested, retries + 1, senders⟩ self.config.ihaveTimeout])
  else
    ({ self with missing := requested.foldl (fun missing id => missing.shiftRemove id) self.missing },
      [.notify (.messageMissing requested.length)])

/-- The grafts of one timer, ten requests each, and what follows. -/
def graftFrom (sendTo : N) (requests : List (GraftRequest I)) (retries : Nat) (senders : List N) :
    Except Fault (PlumtreeState N I P S × List (Effect N I P)) :=
  if requests = [] then .ok (self, [])
  else do
    let grafts := (chunks 10 requests.length requests).map fun chunk => .send sendTo (.graft self.localId true chunk)
    let recorded ← self.recordThrottle sendTo around.now graftTtl
    let left := recorded.afterGrafts (requests.map (·.id)) retries senders
    .ok (left.1, grafts ++ left.2)

/-- `handle_ihave_timeout`: the number of senders is compared as a 32-bit word. -/
def timerFired (timer : Timer N I) :
    Except Fault (PlumtreeState N I P S × List (Effect N I P)) :=
  if timer.senders.length % (roundMax + 1) ≤ timer.retries then .ok (self, [])
  else
    match timer.senders[timer.retries]? with
    | none => .ok (self, [])
    | some sendTo =>
      let collected := timer.ids.foldl (collectRequest proto) (self, [])
      collected.1.graftFrom around sendTo collected.2 timer.retries timer.senders

def tick : PlumtreeState N I P S × List (Effect N I P) :=
  ({ self with lazyQueue := [] },
    if self.lazy.items = [] ∨ self.lazyQueue = [] then []
    else [.sendAll self.lazy.items (.ihave self.localId self.lazyQueue)])

/-- `cache_evict_if_needed`. -/
def cacheEvictIfNeeded : PlumtreeState N I P S :=
  { self with
    seen := proto.evictIfNeeded self.seen
    cache := self.cache.drainFirst (self.cache.entries.length - self.config.maxCachedPayloads) }.clearExpired around.now

end
end PlumtreeState

/-- The public operations. -/
inductive Op (N I P : Type) where
  | gossip (round : Nat) (sender : N) (payload : P)
  | ihave (sender : N) (digests : List (IHaveDigest I))
  | graft (sender : N) (send : Bool) (requests : List (GraftRequest I))
  | prune (sender : N)
  | shutdown
  | broadcast (id : I) (payload : P)
  | timerFired (timer : Timer N I)
  | tick
  | addPeersBulk (peers : List N)
  | addPeersBulkWithRtt (peers : List (N × RttInfo))
  | peerUp (peer : N) (rtt : Option RttInfo)
  | updatePeerTopology (updates : List (N × RttInfo))
  | peerDown (peer : N)
  | forceEager (peer : N)
  | cacheEvictIfNeeded

section
variable {N I P S : Type} [LinearOrder N] [DecidableEq I]

/-- One public operation. -/
def PlumtreeState.apply (proto : Protocol N I P S) (around : Surround N) (self : PlumtreeState N I P S) :
    Op N I P → Except Fault (PlumtreeState N I P S × List (Effect N I P))
  | .gossip round sender payload => self.handleGossip proto around round sender payload
  | .ihave sender digests => .ok (self.handleIHave proto around sender digests)
  | .graft sender send requests => .ok (self.handleGraft sender send requests)
  | .prune sender => self.handlePrune around sender
  | .shutdown => .ok (self, self.handleShutdown)
  | .broadcast id payload => .ok (self.broadcast id payload)
  | .timerFired timer => self.timerFired proto around timer
  | .tick => .ok self.tick
  | .addPeersBulk peers => self.withOverlay (self.toOverlay.addPeersBulk around.build around.dice peers)
  | .addPeersBulkWithRtt peers => self.withOverlay (self.toOverlay.addPeersBulkWithRtt around.build around.dice peers)
  | .peerUp peer rtt => self.withOverlay (self.toOverlay.peerUp around.build around.dice peer rtt)
  | .updatePeerTopology updates =>
    self.withOverlay (self.toOverlay.updatePeerTopology around.build around.dice updates)
  | .peerDown peer => self.withOverlay ((self.toOverlay.peerDown around.build peer).map (·, []))
  | .forceEager peer => .ok ({ self with toOverlay := self.toOverlay.forceEager peer }, [])
  | .cacheEvictIfNeeded => .ok (self.cacheEvictIfNeeded proto around, [])

end

/-! ### Numbers as nodes, ids and payloads -/

/-- Messages are numbers, a hundred of them for each origin; the ids seen so far are kept
with how often each came again. -/
def numbered : Protocol Nat Nat Nat (IndexMap Nat Nat) where
  idOrigin id := id / 100
  messageId payload := payload
  origin payload := payload / 100
  contains seen id := seen.containsKey id
  observe seen id _ := ((seen.get? id).map (· + 1), seen.upsert id fun count => count.elim 0 (· + 1))
  evictIfNeeded seen := seen

/-- A generator that always draws the first. -/
def firstDice : Dice Nat where
  index _ := 0
  index_lt positive := positive
  shuffle peers := peers
  shuffle_perm := List.Perm.refl
  choose peers := peers.head?
  choose_mem := List.mem_of_mem_head?
  choose_some := List.isSome_head?.mpr

/-- A development build at the start of the clock. -/
def devAround : Surround Nat := ⟨.dev, 0, firstDice⟩

end Galvanize.Plumtree
