import Galvanize.OperationCases

/-! Runs of the public operations, and what the peer sets look like after each of them. -/
namespace Galvanize.Plumtree
open Overlay

namespace PlumtreeState
variable {N I P S : Type} [LinearOrder N] [DecidableEq I]
variable {proto : Protocol N I P S} {around : Surround N} {self : PlumtreeState N I P S}

/-- An operation returns, with healthy peer sets. -/
def Returns (result : Except Fault (PlumtreeState N I P S × List (Effect N I P))) : Prop :=
  ∃ after, result = .ok after ∧ after.1.Healthy

omit [LinearOrder N] [DecidableEq I] in
theorem withOverlay_returns
    (ok : ∃ after, result = .ok after ∧ after.1.Healthy) : Returns (self.withOverlay result) := by
  apply bind_returns ok
  rintro ⟨_, _⟩ healthy
  exact ⟨_, rfl, healthy⟩

/-! ### Gossip -/

variable {sender : N}

section
variable (healthy : self.Healthy)
    (clock : ∀ ttl, self.config.pruneThrottle = some ttl → around.now + ttl ≤ instantMax)
include healthy clock

omit [DecidableEq I] in
/-- The deadline of a throttle is an instant the clock can name. -/
theorem throttlePrunes_returns : ∃ after, self.throttlePrunes around sender = .ok after ∧ after.Healthy := by
  unfold throttlePrunes
  cases throttle : self.config.pruneThrottle with
  | none => exact ⟨_, rfl, healthy⟩
  | some ttl => exact ⟨_, if_pos (clock ttl throttle), healthy⟩

omit [DecidableEq I] in
theorem duplicateGossip_returns {id : I} : Returns (self.duplicateGossip around sender id duplicates) := by
  unfold duplicateGossip
  split
  · split
    · exact ⟨_, rfl, healthy⟩
    · have pruned : Returns (self.pruneSender around sender id) := by
        apply bind_returns (throttlePrunes_returns healthy clock)
        intro _ healthyRecorded
        apply bind_returns (withOverlay_returns (moveToLazy_ok healthyRecorded sender))
        rintro ⟨_, effects⟩ healthyMoved
        exact ⟨_, rfl, healthyMoved⟩
      apply bind_returns pruned
      rintro ⟨_, effects⟩ healthyAfter
      exact ⟨_, rfl, healthyAfter⟩
  · exact ⟨_, rfl, healthy⟩

end

/-- The round of an announcement and the threshold add up within a round. -/
def RoundsFit (self : PlumtreeState N I P S) (id : I) : Prop :=
  ∀ entry threshold, self.missing.get? id = some entry → self.config.optimizationThreshold = some threshold →
    entry.round + threshold ≤ roundMax

variable {round : Nat}

theorem optimizationGraft_returns_iff {id : I} :
    (∃ grafts : List (Effect N I P), self.optimizationGraft around sender id round = .ok grafts) ↔
      (around.build = .dev → self.RoundsFit id) := by
  unfold optimizationGraft
  constructor
  · rintro ⟨grafts, ok⟩ dev entry threshold announced limit
    rw [announced, limit] at ok
    obtain ⟨_, fits, -⟩ := bind_ok ok
    exact fit_returns_iff.mp ⟨_, fits⟩ dev
  · intro fits
    split
    case h_1 announced limit =>
      obtain ⟨_, fitted⟩ := fit_returns_iff.mpr fun dev => fits dev _ _ announced limit
      exact ⟨_, bind_ok_iff.mpr ⟨_, fitted, rfl⟩⟩
    · exact ⟨_, rfl⟩

variable {payload : P}

theorem newGossip_returns_iff : (∃ result, self.newGossip proto around round sender payload = .ok result) ↔
      (∃ after, self.toOverlay.ensureInLazy (I := I) around.dice sender = .ok after) ∧
        ∃ grafts : List (Effect N I P), self.optimizationGraft around sender (proto.messageId payload) round =
          .ok grafts := by
  constructor
  · rintro ⟨⟨after, _⟩, ok⟩
    obtain ⟨lazy, notices, grafts, ensured, isGrafts, -⟩ := newGossip_ok ok
    exact ⟨⟨_, ensured⟩, ⟨_, isGrafts⟩⟩
  · rintro ⟨⟨⟨_, notices⟩, ensured⟩, ⟨grafts, isGrafts⟩⟩
    obtain ⟨lazy, same⟩ := Overlay.ensureInLazy_frame ensured
    cases same
    have placed : (self.cacheInsert (proto.messageId payload) payload round).withOverlay
        (self.toOverlay.ensureInLazy around.dice sender) = .ok _ := bind_ok_iff.mpr ⟨_, ensured, rfl⟩
    exact ⟨_, bind_ok_iff.mpr ⟨_, placed, bind_ok_iff.mpr ⟨grafts, isGrafts, rfl⟩⟩⟩

section
variable (healthy : self.Healthy)
include healthy

theorem newGossip_returns
    (fits : self.RoundsFit (proto.messageId payload)) : Returns (self.newGossip proto around round sender payload) := by
  obtain ⟨⟨_, _⟩, ensured, healthyAfter⟩ := @ensureInLazy_ok N I _ around.dice self.toOverlay healthy sender
  obtain ⟨⟨_, _⟩, ok⟩ := newGossip_returns_iff.mpr ⟨⟨_, ensured⟩, optimizationGraft_returns_iff.mpr fun _ => fits⟩
  obtain ⟨_, _, _, again, -, rfl, -⟩ := newGossip_ok ok
  cases ensured.symm.trans again
  exact ⟨_, ok, healthyAfter⟩

/-- What a gossip needs: a new message whose announcement has a round that can still be
compared, a duplicate whose prune can be throttled. -/
structure GossipRoom (proto : Protocol N I P S) (around : Surround N) (state : PlumtreeState N I P S)
    (round : Nat) (payload : P) : Prop where
  rounds : (proto.observe state.seen (proto.messageId payload) round).1 = none →
    state.RoundsFit (proto.messageId payload)
  clock : (proto.observe state.seen (proto.messageId payload) round).1 ≠ none →
    ∀ ttl, state.config.pruneThrottle = some ttl → around.now + ttl ≤ instantMax

theorem handleGossip_returns (room : proto.origin payload = self.localId ∨ GossipRoom proto around self round payload) :
    Returns (self.handleGossip proto around round sender payload) := by
  unfold handleGossip
  split
  · exact ⟨_, rfl, healthy⟩
  case isFalse foreign =>
    have fits := room.resolve_left foreign
    have noted : (self.noteSeen proto (proto.messageId payload) round).Healthy := healthy
    cases observed : (proto.observe self.seen (proto.messageId payload) round).1 with
    | none => exact newGossip_returns noted (fits.rounds observed)
    | some _ =>
      apply duplicateGossip_returns noted
      exact fits.clock (by simp [observed])

/-! ### Timers -/

theorem graftFrom_returns {requests : List (GraftRequest I)} (clock : around.now + graftTtl ≤ instantMax) :
    Returns (self.graftFrom around sendTo requests retries senders) := by
  unfold graftFrom
  split
  · exact ⟨_, rfl, healthy⟩
  · rw [recordThrottle, if_pos clock]
    refine ⟨_, rfl, ?_⟩
    rw [afterGrafts_overlay]
    exact healthy

theorem timerFired_returns (clock : around.now + graftTtl ≤ instantMax) :
    Returns (self.timerFired proto around timer) := by
  unfold timerFired
  split
  · exact ⟨_, rfl, healthy⟩
  cases timer.senders[timer.retries]? with
  | none => exact ⟨_, rfl, healthy⟩
  | some _ =>
    have kept := @collectRequest_overlay N I P S _ _ proto timer.ids (self, [])
    exact graftFrom_returns (kept ▸ healthy) clock

/-! ### Runs -/

/-- The room a bulk addition needs on the ring. -/
def BulkRoom (self : Overlay N) (peers : List (N × RttInfo)) : Prop :=
  (self.known.extend (self.joining peers)).size = 0 ∨ self.RingRoom (self.known.extend (self.joining peers))

/-- What the operations need of their arguments, the clock and the state they meet. -/
def Admissible (proto : Protocol N I P S) (around : Surround N) (self : PlumtreeState N I P S) : Op N I P → Prop
  | .gossip round _ payload => proto.origin payload = self.localId ∨ GossipRoom proto around self round payload
  | .timerFired _ => around.now + graftTtl ≤ instantMax
  | .addPeersBulk peers => BulkRoom self.toOverlay (peers.map fun peer => (peer, RttInfo.default))
  | .addPeersBulkWithRtt peers => BulkRoom self.toOverlay peers
  | .peerUp peer _ => peer = self.localId ∨ peer ∈ self.known ∨ self.LazyRoom (self.known.size + 1)
  | .updatePeerTopology updates => self.TopologyRoom updates
  | .peerDown peer => peer ∈ self.eager ∨ peer ∈ self.lazy ∨ self.LazyRoom (self.known.remove peer).size
  | _ => True

theorem apply_returns (admissible : self.Admissible proto around op) : Returns (self.apply proto around op) := by
  cases op with
  | gossip _ sender payload => exact handleGossip_returns healthy admissible
  | ihave sender digests => exact ⟨_, rfl, (handleIHave_overlay sender digests).symm ▸ healthy⟩
  | graft sender _ _ => exact ⟨_, rfl, moveToEager_healthy healthy sender⟩
  | prune sender =>
    simp only [PlumtreeState.apply, handlePrune]
    split
    · exact ⟨_, rfl, healthy⟩
    · exact withOverlay_returns (moveToLazy_ok healthy sender)
  | shutdown | broadcast id payload => exact ⟨_, rfl, healthy⟩
  | timerFired _ => exact timerFired_returns healthy admissible
  | tick => exact ⟨_, rfl, healthy⟩
  | addPeersBulk peers
  | addPeersBulkWithRtt peers => exact withOverlay_returns (addPeersBulkWithRtt_ok healthy admissible)
  | peerUp peer _ => exact withOverlay_returns (peerUp_ok healthy admissible)
  | updatePeerTopology _ => exact withOverlay_returns (updatePeerTopology_ok healthy admissible)
  | peerDown peer =>
    obtain ⟨_, ok, healthyAfter⟩ := @peerDown_ok N _ around.build self.toOverlay peer healthy admissible
    exact withOverlay_returns ⟨_, congrArg (Except.map (·, [])) ok, healthyAfter⟩
  | forceEager peer => exact ⟨_, rfl, forceEager_healthy healthy peer⟩
  | cacheEvictIfNeeded => exact ⟨_, rfl, healthy⟩

/-- One operation after the other. -/
def run (proto : Protocol N I P S) (self : PlumtreeState N I P S) (steps : List (Surround N × Op N I P)) :
    Except Fault (PlumtreeState N I P S) :=
  steps.foldlM (fun state step => (state.apply proto step.1 step.2).map Prod.fst) self

/-- Every operation of a run meets what it needs. -/
def AdmissibleRun (proto : Protocol N I P S) : PlumtreeState N I P S → List (Surround N × Op N I P) → Prop
  | _, [] => True
  | self, (around, op) :: rest =>
    self.Admissible proto around op ∧
      ∀ after, self.apply proto around op = .ok after → AdmissibleRun proto after.1 rest

theorem run_returns (admissible : AdmissibleRun proto self steps) :
    ∃ final, self.run proto steps = .ok final ∧ final.Healthy := by
  induction steps generalizing self with
  | nil => exact ⟨self, rfl, healthy⟩
  | cons _ _ ih =>
    obtain ⟨here, later⟩ := admissible
    obtain ⟨after, ok, healthyAfter⟩ := apply_returns healthy here
    obtain ⟨final, ran, healthyFinal⟩ := ih healthyAfter (later after ok)
    refine ⟨final, ?_, healthyFinal⟩
    rw [run, List.foldlM_cons, ok]
    exact ran

end

omit [DecidableEq I] [LinearOrder N] in
theorem new_returns {config : Config} (sound : config.Sound) (build : Build) (localId : N) (seen : S) :
    ∃ start : PlumtreeState N I P S, PlumtreeState.new build localId config seen = .ok start ∧ start.Healthy := by
  have overlay : ∃ overlay : Overlay N, Overlay.new build localId config = .ok overlay ∧ overlay.Healthy := by
    rw [Overlay.new, resolveFanout_ok sound]
    refine ⟨_, rfl, sound, ⟨0, rfl⟩, WellFormed.of ?_ ?_ ?_ ?_ IndexSet.not_mem_empty (Nat.zero_le _)⟩
    · exact IndexSet.forall_mem_empty
    · exact IndexSet.forall_mem_empty
    · exact IndexSet.forall_mem_empty
    · exact IndexSet.forall_mem_empty
  apply bind_returns overlay
  intro _ healthy
  exact ⟨_, rfl, healthy⟩

/-- With a sound configuration a node starts with well-formed peer sets, and every run
whose operations meet what they need returns, with well-formed peer sets: as the start of
such a run is one too, that is so after each operation. -/
theorem admissible_runs_stay_well_formed {config : Config} (sound : config.Sound)
    (proto : Protocol N I P S) (build : Build) (localId : N) (seen : S) :
    ∃ start : PlumtreeState N I P S, PlumtreeState.new build localId config seen = .ok start ∧ start.WellFormed ∧
      ∀ steps, AdmissibleRun proto start steps → ∃ final, start.run proto steps = .ok final ∧ final.WellFormed := by
  obtain ⟨start, ok, healthy⟩ := @new_returns N I P S config sound build localId seen
  refine ⟨start, ok, healthy.wellFormed, fun steps admissible => ?_⟩
  obtain ⟨final, ran, healthyFinal⟩ := run_returns healthy admissible
  exact ⟨final, ran, healthyFinal.wellFormed⟩

/-- A run of a new node in a development build. -/
def runNew (config : Config) (ops : List (Op Nat Nat Nat)) :
    Except Fault (PlumtreeState Nat Nat Nat (IndexMap Nat Nat)) := do
  let start ← PlumtreeState.new .dev 0 config ∅
  start.run numbered (ops.map (devAround, ·))

theorem two_peers_well_formed :
    ∃ start final : PlumtreeState Nat Nat Nat (IndexMap Nat Nat), PlumtreeState.new .dev 0 Config.default ∅ =
      .ok start ∧
      start.run numbered [(devAround, .addPeersBulk [1, 2]), (devAround, .prune 1), (devAround, .tick)] = .ok final ∧
      final.WellFormed := by
  obtain ⟨start, ok, -, keeps⟩ := admissible_runs_stay_well_formed Config.default_sound numbered .dev 0 ∅
  have admissible : AdmissibleRun numbered start
      [(devAround, .addPeersBulk [1, 2]), (devAround, .prune 1), (devAround, .tick)] := by
    cases ok
    refine ⟨.inr ?_, fun _ _ => ⟨trivial, fun _ _ => ⟨trivial, fun _ _ => trivial⟩⟩⟩
    unfold RingRoom
    decide
  obtain ⟨final, ran, wellFormed⟩ := keeps _ admissible
  exact ⟨start, final, ok, ran, wellFormed⟩

/-- The node itself among its peers after a round of updates that names it; a lazy set above
its limit after the fanout shrank, or where the smallest size is above the largest; a radius
larger than the ring; nobody to evict; an announced round next to the last one. -/
theorem peer_sets_break : (∃ final, runNew Config.default [.updatePeerTopology [(0, RttInfo.default)]] = .ok final ∧
      final.localId ∈ final.known ∧ final.localId ∈ final.eager) ∧
    (∃ final, runNew Config.default [.addPeersBulk (List.range' 1 14), .prune 3, .peerDown 12] = .ok final ∧
      final.fanout.maxLazy < final.lazy.size) ∧
    (∃ final, runNew { Config.default with numEager := some 1, minLazy := some 5, maxLazy := some 2 }
        [.addPeersBulk (List.range' 1 8)] = .ok final ∧ final.fanout.maxLazy < final.lazy.size) ∧
    runNew { Config.default with ringLockedRadius := 3 } [.addPeersBulk [1]] = .error .overflow ∧
    runNew { Config.default with numEager := some 1, maxLazy := some 0 } [.peerUp 1 none, .peerUp 2 none] =
      .error .emptyRange ∧
    runNew Config.default [.ihave 1 [⟨100, 4294967295⟩], .gossip 7 2 100] = .error .overflow := by
  refine ⟨⟨_, rfl, ?_⟩, ⟨_, rfl, ?_⟩, ⟨_, rfl, ?_⟩, rfl, rfl, rfl⟩
  · decide
  · decide
  · decide

end PlumtreeState
end Galvanize.Plumtree
