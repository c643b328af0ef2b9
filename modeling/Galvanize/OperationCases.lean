import Galvanize.OverlayProofs
import Galvanize.Plumtree

/-! What one public operation can do: which messages it delivers, which timers it
schedules, what it asks of whom, and what becomes of the seen and the missing ids. -/
namespace Galvanize.Plumtree

namespace Overlay
variable {N I : Type} [LinearOrder N] {self : Overlay N}

/-! ### What the parts of an operation leave alone -/

omit [LinearOrder N] in
theorem maybeRecomputeFanout_frame {after : Overlay N × Bool} (ok : self.maybeRecomputeFanout build = .ok after) :
    ∃ fanout, after.1 = { self with fanout } := by
  rcases ite_eq_iff.mp ok with ⟨-, ok⟩ | ⟨-, ok⟩
  · cases ok
    exact ⟨_, rfl⟩
  · obtain ⟨fanout, -, same⟩ := bind_ok ok
    cases same
    exact ⟨_, rfl⟩

theorem setRingNeighbors_frame {after : Overlay N} (ok : self.setRingNeighbors build = .ok after) :
    ∃ locked, after = { self with ringLocked := locked } := by
  rcases ite_eq_iff.mp ok with ⟨-, ok⟩ | ⟨-, ok⟩
  · cases ok
    exact ⟨_, rfl⟩
  · obtain ⟨locked, -, same⟩ := bind_ok ok
    cases same
    exact ⟨_, rfl⟩

theorem selectPeers_frame {after : Overlay N} (ok : self.selectPeers build dice = .ok after) :
    Reselected self after := by
  obtain ⟨_, -, rest⟩ := bind_ok ok
  obtain ⟨_, -, same⟩ := bind_ok rest
  cases same
  exact ⟨_, _, rfl⟩

theorem rebalance_frame {after : Overlay N} (ok : self.rebalance build dice = .ok after) : Rebalanced self after := by
  rcases ite_eq_iff.mp ok with ⟨-, ok⟩ | ⟨-, ok⟩
  · cases ok
    exact ⟨_, _, _, rfl⟩
  · obtain ⟨_, isRinged, rest⟩ := bind_ok ok
    obtain ⟨_, same⟩ := setRingNeighbors_frame isRinged
    rcases ite_eq_iff.mp rest with ⟨-, rest⟩ | ⟨-, rest⟩
    · cases rest
      rw [same]
      exact ⟨_, _, _, rfl⟩
    · obtain ⟨_, _, selected⟩ := selectPeers_frame rest
      rw [selected, same]
      exact ⟨_, _, _, rfl⟩

theorem moveToEager_frame (peer : N) : ∃ eager lazy, (self.moveToEager (I := I) peer).1 =
    { self with eager, lazy } := by
  unfold moveToEager
  split
  · exact ⟨_, _, rfl⟩
  · exact ⟨_, _, rfl⟩

variable {after : Overlay N × List (Notification N I)} {peer : N}

theorem placePeer_frame (ok : self.placePeer dice peer = .ok after) : Reselected self after.1 := by
  rcases ite_eq_iff.mp ok with ⟨-, ok⟩ | ⟨-, ok⟩
  · cases ok
    exact moveToEager_frame peer
  · obtain ⟨lazy, same⟩ := insertIntoLazy_frame ok
    exact ⟨_, lazy, same⟩

/-- A due `rebalance` and its flag. -/
theorem rebalanceIfDue_frame (ok : self.rebalanceIfDue build dice changed = .ok after) :
    ∃ due, Rebalanced { self with needsRebalance := due } after.1 := by
  rcases ite_eq_iff.mp ok with ⟨due, ok⟩ | ⟨due, ok⟩
  · obtain ⟨_, rebalanced, same⟩ := bind_ok ok
    obtain ⟨_, _, _, rfl⟩ := rebalance_frame rebalanced
    cases same
    exact ⟨_, _, _, _, rfl⟩
  · cases ok
    exact ⟨_, _, _, _, rfl⟩

/-! ### The node stays the same -/

theorem moveToEager_localId (peer : N) : (self.moveToEager (I := I) peer).1.localId = self.localId := by
  obtain ⟨_, _, same⟩ := @moveToEager_frame N I _ self peer
  rw [same]

theorem moveToLazy_localId (ok : self.moveToLazy dice peer = .ok after) : after.1.localId = self.localId := by
  unfold moveToLazy at ok
  by_cases locked : peer ∈ self.ringLocked
  · rw [if_pos locked] at ok
    cases ok
    rfl
  rw [if_neg locked] at ok
  rcases ite_eq_iff.mp ok with ⟨-, ok⟩ | ⟨-, ok⟩
  · cases ok
    rfl
  · obtain ⟨_, isInserted, same⟩ := bind_ok ok
    obtain ⟨_, kept⟩ := insertIntoLazy_frame isInserted
    cases same
    rw [kept]

theorem addPeersBulkWithRtt_localId
    (ok : self.addPeersBulkWithRtt build dice peers = .ok after) : after.1.localId = self.localId := by
  obtain ⟨_, recomputed, rest⟩ := bind_ok ok
  obtain ⟨_, rebalanced, same⟩ := bind_ok rest
  obtain ⟨_, sized⟩ := maybeRecomputeFanout_frame recomputed
  obtain ⟨_, _, _, kept⟩ := rebalance_frame rebalanced
  cases same
  rw [kept, sized]
  exact (joined_commitAll peers).localId

theorem peerUp_localId (ok : self.peerUp build dice peer rtt = .ok after) : after.1.localId = self.localId := by
  rcases ite_eq_iff.mp ok with ⟨-, ok⟩ | ⟨-, ok⟩
  · cases ok
    rfl
  · obtain ⟨_, recomputed, rest⟩ := bind_ok ok
    obtain ⟨_, isPlaced, same⟩ := bind_ok rest
    obtain ⟨_, sized⟩ := maybeRecomputeFanout_frame recomputed
    obtain ⟨_, _, kept⟩ := placePeer_frame isPlaced
    cases same
    rw [kept, sized]
    rfl

omit [LinearOrder N] in
theorem recomputeUnlessCount_frame {count : Nat} {after : Overlay N × Bool}
    (ok : self.recomputeUnlessCount build count = .ok after) : ∃ fanout, after.1 = { self with fanout } := by
  rcases ite_eq_iff.mp ok with ⟨-, ok⟩ | ⟨-, ok⟩
  · cases ok
    exact ⟨_, rfl⟩
  · exact maybeRecomputeFanout_frame ok

theorem updatePeerTopology_frame (ok : self.updatePeerTopology build dice updates = .ok after) :
    ∃ fanout needsRebalance eager lazy ringLocked,
      after.1 = { (self.updateTopologies updates).1 with fanout, needsRebalance, eager, lazy, ringLocked } := by
  obtain ⟨_, recomputed, rest⟩ := bind_ok ok
  obtain ⟨due, eager, lazy, locked, same⟩ := rebalanceIfDue_frame rest
  obtain ⟨fanout, isResized⟩ := recomputeUnlessCount_frame recomputed
  rw [isResized] at same
  exact ⟨fanout, due, eager, lazy, locked, same⟩

theorem updatePeerTopology_localId
    (ok : self.updatePeerTopology build dice updates = .ok after) : after.1.localId = self.localId := by
  obtain ⟨_, _, _, _, _, kept⟩ := updatePeerTopology_frame ok
  obtain ⟨_, _, _, updated, -⟩ := updateTopologies_frame self updates
  rw [kept, updated]

theorem peerDown_localId {after : Overlay N} (ok : self.peerDown build peer = .ok after) :
    after.localId = self.localId := by
  rcases ite_eq_iff.mp ok with ⟨-, ok⟩ | ⟨-, ok⟩
  · cases ok
    rfl
  · obtain ⟨_, recomputed, same⟩ := bind_ok ok
    obtain ⟨_, sized⟩ := maybeRecomputeFanout_frame recomputed
    cases same
    rw [sized]

end Overlay

/-! ### Effects -/

section
variable {N I P : Type}

def Effect.delivered : Effect N I P → Option P
  | .deliver payload => some payload
  | _ => none

def Effect.scheduled : Effect N I P → Option (Timer N I)
  | .schedule timer _ => some timer
  | _ => none

/-- The payloads a graft asks for, and of whom. -/
def Effect.requested : Effect N I P → List (N × I)
  | .send peer (.graft _ true requests) => requests.map fun request => (peer, request.id)
  | _ => []

def deliveries (effects : List (Effect N I P)) : List P := effects.filterMap Effect.delivered

def timers (effects : List (Effect N I P)) : List (Timer N I) := effects.filterMap Effect.scheduled

def requests (effects : List (Effect N I P)) : List (N × I) := effects.flatMap Effect.requested

variable {effects more : List (Effect N I P)}

theorem deliveries_append : deliveries (effects ++ more) = deliveries effects ++ deliveries more :=
    List.filterMap_append

theorem timers_append : timers (effects ++ more) = timers effects ++ timers more := List.filterMap_append

theorem requests_append : requests (effects ++ more) = requests effects ++ requests more := List.flatMap_append

/-- Nothing is delivered, scheduled or asked for. -/
structure Quiet (effects : List (Effect N I P)) : Prop where
  deliveries : deliveries effects = []
  timers : timers effects = []
  requests : requests effects = []

theorem quiet_nil : Quiet ([] : List (Effect N I P)) := ⟨rfl, rfl, rfl⟩

theorem Quiet.append (first : Quiet effects) (second : Quiet more) : Quiet (effects ++ more) where
  deliveries := by rw [deliveries_append, first.deliveries, second.deliveries, List.append_nil]
  timers := by rw [timers_append, first.timers, second.timers, List.append_nil]
  requests := by rw [requests_append, first.requests, second.requests, List.append_nil]

theorem Quiet.cons {effect : Effect N I P} (own : Quiet [effect]) (rest : Quiet effects) : Quiet (effect :: effects) :=
  own.append rest

theorem quiet_map {items : List α} {effect : α → Effect N I P} (each : ∀ item, Quiet [effect item]) :
    Quiet (items.map effect) := by
  induction items with
  | nil => exact quiet_nil
  | cons first _ ih => exact (each first).cons ih

theorem quiet_notices (notices : List (Notification N I)) : Quiet (notices.map (.notify : _ → Effect N I P)) :=
  quiet_map fun _ => ⟨rfl, rfl, rfl⟩

end

namespace PlumtreeState
variable {N I P S : Type} [LinearOrder N] [DecidableEq I]
variable {proto : Protocol N I P S} {around : Surround N} {self after : PlumtreeState N I P S}
    {effects : List (Effect N I P)}

/-! ### One operation -/

omit [LinearOrder N] [DecidableEq I] in
theorem withOverlay_ok (ok : self.withOverlay result = .ok (after, effects)) :
    ∃ overlay notices, result = .ok (overlay, notices) ∧ after = { self with toOverlay := overlay } ∧
      effects = notices.map .notify := by
  obtain ⟨⟨overlay, notices⟩, isResult, same⟩ := bind_ok ok
  cases same
  exact ⟨overlay, notices, isResult, rfl, rfl⟩

/-- Nothing but the peer sets, the throttle, the cache and the queue may have changed, and
nothing is delivered, scheduled or asked for. -/
structure Calm (before after : PlumtreeState N I P S) (effects : List (Effect N I P)) : Prop where
  localId : after.localId = before.localId
  missing : after.missing = before.missing
  quiet : Quiet effects

omit [LinearOrder N] [DecidableEq I] in
theorem withOverlay_calm (ok : self.withOverlay result = .ok (after, effects))
    (kept : ∀ overlay, result = .ok overlay → overlay.1.localId = self.localId) : Calm self after effects := by
  obtain ⟨overlay, notices, isResult, rfl, rfl⟩ := withOverlay_ok ok
  exact ⟨kept _ isResult, rfl, quiet_notices notices⟩

variable {sender : N}

omit [DecidableEq I] in
theorem throttlePrunes_ok (ok : self.throttlePrunes around sender = .ok after) :
    ∃ throttle, after = { self with pruneThrottle := throttle } := by
  unfold throttlePrunes at ok
  cases configured : self.config.pruneThrottle with
  | none =>
    rw [configured] at ok
    cases ok
    exact ⟨_, rfl⟩
  | some _ =>
    rw [configured] at ok
    rcases ite_eq_iff.mp ok with ⟨-, ok⟩ | ⟨-, ok⟩
    · cases ok
      exact ⟨_, rfl⟩
    · cases ok

omit [DecidableEq I] in
theorem duplicateGossip_calm {id : I}
    (ok : self.duplicateGossip around sender id duplicates = .ok (after, effects)) : Calm self after effects := by
  have noted : Quiet [(.notify (.duplicateMessage id) : Effect N I P)] := ⟨rfl, rfl, rfl⟩
  rcases ite_eq_iff.mp ok with ⟨-, ok⟩ | ⟨-, ok⟩
  · rcases ite_eq_iff.mp ok with ⟨-, ok⟩ | ⟨-, ok⟩
    · cases ok
      exact ⟨rfl, rfl, Quiet.cons ⟨rfl, rfl, rfl⟩ noted⟩
    · obtain ⟨⟨_, _⟩, prunes, same⟩ := bind_ok ok
      obtain ⟨_, throttles, rest⟩ := bind_ok prunes
      obtain ⟨_, rfl⟩ := throttlePrunes_ok throttles
      obtain ⟨⟨_, _⟩, moves, sends⟩ := bind_ok rest
      have calm := withOverlay_calm moves fun _ => Overlay.moveToLazy_localId
      cases sends
      cases same
      exact ⟨calm.localId, calm.missing, (Quiet.cons ⟨rfl, rfl, rfl⟩ calm.quiet).append noted⟩
  · cases ok
    exact ⟨rfl, rfl, noted⟩

variable {round : Nat}

theorem optimizationGraft_cases {id : I} (ok : self.optimizationGraft around sender id round = .ok grafts) :
    grafts = [] ∨ ∃ peer asked, grafts = [.send peer (.graft self.localId false asked)] := by
  unfold optimizationGraft at ok
  cases entry : self.missing.get? id with
  | none =>
    rw [entry] at ok
    cases ok
    exact .inl rfl
  | some _ =>
    cases threshold : self.config.optimizationThreshold with
    | none =>
      rw [entry, threshold] at ok
      cases ok
      exact .inl rfl
    | some _ =>
      rw [entry, threshold] at ok
      obtain ⟨_, -, same⟩ := bind_ok ok
      cases same
      split
      · exact .inr ⟨_, _, rfl⟩
      · exact .inl rfl

theorem optimizationGraft_quiet {id : I}
    (ok : self.optimizationGraft around sender id round = .ok grafts) : Quiet grafts := by
  rcases optimizationGraft_cases ok with rfl | ⟨peer, asked, rfl⟩
  · exact quiet_nil
  · exact ⟨rfl, rfl, rfl⟩

omit [DecidableEq I] in
theorem forwardGossip_quiet (round : Nat) (sender : N) (payload : P) :
    Quiet (self.forwardGossip proto round sender payload) := by
  unfold forwardGossip
  dsimp only
  split
  · exact quiet_nil
  · exact ⟨rfl, rfl, rfl⟩

variable {payload : P}

/-- A new message: the stages of its way through the node. -/
theorem newGossip_ok (ok : self.newGossip proto around round sender payload = .ok (after, effects)) :
    ∃ lazy notices grafts, self.toOverlay.ensureInLazy around.dice sender =
      .ok ({ self.toOverlay with lazy }, notices) ∧
      self.optimizationGraft around sender (proto.messageId payload) round = .ok grafts ∧ after = { self with
        lazy := lazy
        cache := self.cache.upsert (proto.messageId payload) fun _ => (payload, round)
        missing := self.missing.shiftRemove (proto.messageId payload)
        lazyQueue := self.lazyQueue ++ [⟨proto.messageId payload, round⟩] } ∧
      effects =
        .deliver payload :: (self.forwardGossip proto round sender payload ++ notices.map .notify ++ grafts) := by
  obtain ⟨⟨_, _⟩, places, rest⟩ := bind_ok ok
  obtain ⟨grafts, isGrafts, same⟩ := bind_ok rest
  obtain ⟨_, notices, ensured, rfl, rfl⟩ := withOverlay_ok places
  obtain ⟨lazy, rfl⟩ := Overlay.ensureInLazy_frame ensured
  cases same
  exact ⟨lazy, notices, grafts, ensured, isGrafts, rfl, rfl⟩

/-- The first receipt of a message of another node. -/
structure Receipt (proto : Protocol N I P S) (before after : PlumtreeState N I P S)
    (effects : List (Effect N I P)) (payload : P) : Prop where
  localId : after.localId = before.localId
  foreign : proto.origin payload ≠ before.localId
  seen : ∃ round, (proto.observe before.seen (proto.messageId payload) round).1 = none ∧
    after.seen = (proto.observe before.seen (proto.messageId payload) round).2
  missing : after.missing = before.missing.shiftRemove (proto.messageId payload)
  deliveries : deliveries effects = [payload]
  timers : timers effects = []
  requests : requests effects = []

theorem newGossip_receipt (foreign : proto.origin payload ≠ self.localId)
    (new : (proto.observe self.seen (proto.messageId payload) round).1 = none)
    (ok : (self.noteSeen proto (proto.messageId payload) round).newGossip proto around round sender payload =
      .ok (after, effects)) : Receipt proto self after effects payload := by
  obtain ⟨_, notices, _, -, isGrafts, rfl, rfl⟩ := newGossip_ok ok
  have rest := ((@forwardGossip_quiet N I P S _ proto (self.noteSeen proto (proto.messageId payload) round) round sender
    payload).append (quiet_notices notices)).append (optimizationGraft_quiet isGrafts)
  exact ⟨rfl, foreign, ⟨round, new, rfl⟩, rfl, congrArg (payload :: ·) rest.deliveries, rest.timers, rest.requests⟩

theorem handleGossip_cases (ok : self.handleGossip proto around round sender payload = .ok (after, effects)) :
    Calm self after effects ∨ Receipt proto self after effects payload := by
  rcases ite_eq_iff.mp ok with ⟨own, ok⟩ | ⟨own, ok⟩
  · cases ok
    exact .inl ⟨rfl, rfl, quiet_nil⟩
  · cases observed : (proto.observe self.seen (proto.messageId payload) round).1 with
    | some _ =>
      rw [observed] at ok
      have calm := duplicateGossip_calm ok
      exact .inl ⟨calm.localId, calm.missing, calm.quiet⟩
    | none =>
      rw [observed] at ok
      exact .inr (newGossip_receipt own observed ok)

theorem handleGraft_calm (sender : N) (send : Bool) (asked : List (GraftRequest I)) :
    Calm self (self.handleGraft sender send asked).1 (self.handleGraft (P := P) sender send asked).2 := by
  refine ⟨Overlay.moveToEager_localId sender, rfl, (quiet_notices _).append ?_⟩
  cases send with
  | false => exact quiet_nil
  | true =>
    apply quiet_map
    intro _
    unfold answerRequest
    split
    · exact ⟨rfl, rfl, rfl⟩
    · exact ⟨rfl, rfl, rfl⟩

omit [DecidableEq I] in
theorem handlePrune_calm (ok : self.handlePrune around sender = .ok (after, effects)) : Calm self after effects := by
  rcases ite_eq_iff.mp ok with ⟨-, ok⟩ | ⟨-, ok⟩
  · cases ok
    exact ⟨rfl, rfl, quiet_nil⟩
  · exact withOverlay_calm ok fun _ => Overlay.moveToLazy_localId

omit [LinearOrder N] [DecidableEq I] in
theorem tick_calm : Calm self self.tick.1 (self.tick (P := P)).2 := by
  refine ⟨rfl, rfl, ?_⟩
  unfold tick
  split
  · exact quiet_nil
  · exact ⟨rfl, rfl, rfl⟩

/-- What a public operation can do. -/
inductive Outcome (proto : Protocol N I P S) (around : Surround N) (before : PlumtreeState N I P S) :
    Op N I P → PlumtreeState N I P S → List (Effect N I P) → Prop where
  | calm {op : Op N I P} {after : PlumtreeState N I P S} {effects : List (Effect N I P)} :
      Calm before after effects → Outcome proto around before op after effects
  | receipt {round : Nat} {sender : N} {payload : P} {after : PlumtreeState N I P S} {effects : List (Effect N I P)} :
      Receipt proto before after effects payload →
        Outcome proto around before (.gossip round sender payload) after effects
  | announcement {sender : N} {digests : List (IHaveDigest I)} :
      Outcome proto around before (.ihave sender digests) (before.handleIHave proto around sender digests).1
        (before.handleIHave proto around sender digests).2
  | timer {timer : Timer N I} {after : PlumtreeState N I P S} {effects : List (Effect N I P)} :
      before.timerFired proto around timer = .ok (after, effects) →
        Outcome proto around before (.timerFired timer) after effects

theorem apply_outcome (ok : self.apply proto around op = .ok (after, effects)) :
    Outcome proto around self op after effects := by
  cases op with
  | gossip _ sender payload =>
    rcases handleGossip_cases ok with calm | receipt
    · exact .calm calm
    · exact .receipt receipt
  | ihave sender _ =>
    cases ok
    exact .announcement
  | graft sender send asked =>
    cases ok
    exact .calm (handleGraft_calm sender send asked)
  | prune sender => exact .calm (handlePrune_calm ok)
  | shutdown | broadcast id payload =>
    cases ok
    exact .calm ⟨rfl, rfl, ⟨rfl, rfl, rfl⟩⟩
  | timerFired timer => exact .timer ok
  | tick =>
    cases ok
    exact .calm tick_calm
  | addPeersBulk peers
  | addPeersBulkWithRtt peers => exact .calm (withOverlay_calm ok fun _ => Overlay.addPeersBulkWithRtt_localId)
  | peerUp peer _ => exact .calm (withOverlay_calm ok fun _ => Overlay.peerUp_localId)
  | updatePeerTopology _ => exact .calm (withOverlay_calm ok fun _ => Overlay.updatePeerTopology_localId)
  | peerDown peer =>
    apply Outcome.calm (withOverlay_calm ok _)
    intro _ left
    obtain ⟨_, down, same⟩ := map_ok left
    rw [← same]
    exact Overlay.peerDown_localId down
  | forceEager peer =>
    cases ok
    refine .calm ⟨?_, rfl, quiet_nil⟩
    unfold Overlay.forceEager
    split <;> rfl
  | cacheEvictIfNeeded =>
    cases ok
    exact .calm ⟨rfl, rfl, quiet_nil⟩

/-! ### Announcements and timers leave the peers alone -/

theorem handleIHave_overlay (sender : N) (digests : List (IHaveDigest I)) :
    (self.handleIHave proto around sender digests).1.toOverlay = self.toOverlay := by
  have kept (held : PlumtreeState N I P S × List I) :
      (digests.foldl (noteDigest proto sender) held).1.toOverlay = held.1.toOverlay := by
    induction digests generalizing held with
    | nil => rfl
    | cons _ _ ih =>
      rw [List.foldl_cons, ih]
      unfold noteDigest
      split <;> rfl
  exact kept (self, [])

theorem collectRequest_overlay (ids : List I) (held : PlumtreeState N I P S × List (GraftRequest I)) :
    (ids.foldl (collectRequest proto) held).1.toOverlay = held.1.toOverlay := by
  induction ids generalizing held with
  | nil => rfl
  | cons _ _ ih =>
    rw [List.foldl_cons, ih]
    unfold collectRequest
    split
    · rfl
    · split <;> rfl

omit [LinearOrder N] in
theorem afterGrafts_overlay (requested : List I) (retries : Nat) (senders : List N) :
    (self.afterGrafts (P := P) requested retries senders).1.toOverlay = self.toOverlay := by
  unfold afterGrafts
  split <;> rfl

theorem graftFrom_ok {asked : List (GraftRequest I)}
    (ok : self.graftFrom around sendTo asked retries senders = .ok (after, effects)) :
    (asked = [] ∧ after = self ∧ effects = []) ∨ asked ≠ [] ∧ ∃ throttle,
        after = (({ self with pruneThrottle := throttle } : PlumtreeState N I P S).afterGrafts (P := P)
          (asked.map (·.id)) retries senders).1 ∧
        effects = ((chunks 10 asked.length asked).map fun chunk => .send sendTo (.graft self.localId true chunk)) ++
          (({ self with pruneThrottle := throttle } : PlumtreeState N I P S).afterGrafts (asked.map (·.id)) retries
            senders).2 := by
  rcases ite_eq_iff.mp ok with ⟨none, ok⟩ | ⟨none, ok⟩
  · cases ok
    exact .inl ⟨none, rfl, rfl⟩
  · obtain ⟨_, records, same⟩ := bind_ok ok
    rcases ite_eq_iff.mp records with ⟨-, records⟩ | ⟨-, records⟩
    · cases records
      cases same
      exact .inr ⟨none, _, rfl, rfl⟩
    · cases records

/-- A timer that still has a sender to try, or one that does nothing. -/
theorem timerFired_ok (ok : self.timerFired proto around timer = .ok (after, effects)) :
    (timer.senders.length % (roundMax + 1) ≤ timer.retries ∧ after = self ∧ effects = []) ∨
      ∃ sendTo, timer.senders[timer.retries]? = some sendTo ∧ timer.retries < timer.senders.length % (roundMax + 1) ∧
        (timer.ids.foldl (collectRequest proto) (self, [])).1.graftFrom around sendTo
          (timer.ids.foldl (collectRequest proto) (self, [])).2 timer.retries timer.senders = .ok (after, effects) := by
  rcases ite_eq_iff.mp ok with ⟨spent, ok⟩ | ⟨spent, ok⟩
  · cases ok
    exact .inl ⟨spent, rfl, rfl⟩
  · have inside := (Nat.lt_of_not_le spent).trans_le (Nat.mod_le _ _)
    rw [List.getElem?_eq_getElem inside] at ok
    exact .inr ⟨_, List.getElem?_eq_getElem inside, Nat.lt_of_not_le spent, ok⟩

theorem timerFired_overlay (ok : self.timerFired proto around timer = .ok (after, effects)) :
    after.toOverlay = self.toOverlay := by
  rcases timerFired_ok ok with ⟨-, rfl, -⟩ | ⟨_, -, -, grafts⟩
  · rfl
  · have kept := @collectRequest_overlay N I P S _ _ proto timer.ids (self, [])
    rcases graftFrom_ok grafts with ⟨-, rfl, -⟩ | ⟨-, _, rfl, -⟩
    · exact kept
    · exact (afterGrafts_overlay _ _ _).trans kept

theorem Outcome.localId (outcome : Outcome proto around self op after effects) : after.localId = self.localId := by
  cases outcome with
  | calm calm => exact calm.localId
  | receipt receipt => exact receipt.localId
  | announcement => exact congrArg Overlay.localId (handleIHave_overlay _ _)
  | timer fired => exact congrArg Overlay.localId (timerFired_overlay fired)

/-! ### Deliveries -/

theorem handleIHave_deliveries (sender : N) (digests : List (IHaveDigest I)) :
    deliveries (self.handleIHave proto around sender digests).2 = [] := by
  unfold handleIHave
  dsimp only
  split <;> rfl

theorem timerFired_deliveries (ok : self.timerFired proto around timer = .ok (after, effects)) :
    deliveries effects = [] := by
  rcases timerFired_ok ok with ⟨-, -, rfl⟩ | ⟨_, -, -, grafts⟩
  · rfl
  rcases graftFrom_ok grafts with ⟨-, -, rfl⟩ | ⟨-, _, -, rfl⟩
  · rfl
  · rw [deliveries_append]
    unfold deliveries afterGrafts
    split
    · simp [Effect.delivered, Function.comp_def]
    · simp [Effect.delivered, Function.comp_def]

/-- Only the first receipt of a message of another node delivers anything. -/
theorem Outcome.deliveries (outcome : Outcome proto around self op after effects) :
    deliveries effects = [] ∨ ∃ payload, Receipt proto self after effects payload := by
  cases outcome with
  | calm calm => exact .inl calm.quiet.deliveries
  | receipt receipt => exact .inr ⟨_, receipt⟩
  | announcement => exact .inl (handleIHave_deliveries _ _)
  | timer fired => exact .inl (timerFired_deliveries fired)

end PlumtreeState
end Galvanize.Plumtree
