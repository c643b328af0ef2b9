import Galvanize.OverlayRuns

/-! What the membership operations leave behind: whether the fanout fits the number of
known peers, and whether a round of topology updates takes back a peer that went down. -/
namespace Galvanize.Plumtree
open List RingBucket

theorem resolveFanout_adaptive (adaptive : config.numEager = none) (build : Build) (known : Nat) :
    resolveFanout build known config = .ok (config.targets known) := by
  have most := autoEager_le known
  have triple : (config.numEager.getD (autoEager known)) * 3 ≤ usizeMax := by
    rw [adaptive]
    change autoEager known * 3 ≤ 18446744073709551615
    omega
  have double : (config.numEager.getD (autoEager known)) * 2 ≤ usizeMax := by omega
  rw [resolveFanout, fit_ok triple, fit_ok double]
  rfl

namespace Overlay
variable {N I : Type} [LinearOrder N] {build : Build} {dice : Dice N} {self : Overlay N}

/-! ### The fanout of an adaptive configuration -/

/-- The cached targets are those of the number of known peers. -/
def FanoutCurrent (overlay : Overlay N) : Prop :=
  ∀ build, resolveFanout build overlay.known.size overlay.config = .ok overlay.fanout

omit [LinearOrder N] in
theorem maybeRecomputeFanout_adaptive (adaptive : self.config.numEager = none) {after : Overlay N × Bool}
    (ok : self.maybeRecomputeFanout build = .ok after) :
    after.1 = { self with fanout := self.config.targets self.known.size } := by
  have unset : ¬self.config.numEager.isSome = true := by simp [adaptive]
  rw [maybeRecomputeFanout, if_neg unset, resolveFanout_adaptive adaptive] at ok
  cases ok
  rfl

/-- The sizes that matter to the fanout are those of another overlay. -/
structure SameSizes (before after : Overlay N) : Prop where
  config : after.config = before.config
  known : after.known.size = before.known.size
  fanout : after.fanout = before.fanout

omit [LinearOrder N] in
theorem SameSizes.current_iff {after : Overlay N} (same : SameSizes self after) :
    after.FanoutCurrent ↔ self.FanoutCurrent := by
  unfold FanoutCurrent
  rw [same.config, same.known, same.fanout]

/-- What an operation of an adaptive configuration leaves: the same configuration, and
targets that are those of the known peers. -/
structure Refitted (before after : Overlay N) : Prop where
  config : after.config = before.config
  current : after.FanoutCurrent

omit [LinearOrder N] in
/-- A selection after the fanout was computed anew. -/
theorem refitted_of_recomputed (adaptive : self.config.numEager = none) {after : Overlay N}
    (ok : self.maybeRecomputeFanout build = .ok resized) (same : SameSizes resized.1 after) : Refitted self after := by
  have isResized := maybeRecomputeFanout_adaptive adaptive ok
  constructor
  · rw [same.config, isResized]
  · rw [same.current_iff, isResized]
    intro build
    exact resolveFanout_adaptive adaptive build self.known.size

omit [LinearOrder N] in
theorem Rebalanced.sameSizes {after : Overlay N} (rebalanced : Rebalanced self after) : SameSizes self after := by
  obtain ⟨_, _, _, same⟩ := rebalanced
  rw [same]
  exact ⟨rfl, rfl, rfl⟩

variable {after : Overlay N × List (Notification N I)} (adaptive : self.config.numEager = none)
include adaptive

theorem addPeersBulkWithRtt_refitted (ok : self.addPeersBulkWithRtt build dice peers = .ok after) :
    Refitted self after.1 := by
  have kept := (@joined_commitAll N _ self peers).config
  obtain ⟨_, recomputed, rest⟩ := bind_ok ok
  obtain ⟨_, rebalanced, same⟩ := bind_ok rest
  cases same
  have refitted := refitted_of_recomputed (kept ▸ adaptive) recomputed (rebalance_frame rebalanced).sameSizes
  exact ⟨refitted.config.trans kept, refitted.current⟩

variable (current : self.FanoutCurrent)
include current

theorem peerUp_refitted (ok : self.peerUp build dice peer rtt = .ok after) :
    Refitted self after.1 := by
  rcases ite_eq_iff.mp ok with ⟨-, ok⟩ | ⟨-, ok⟩
  · cases ok
    exact ⟨rfl, current⟩
  · obtain ⟨_, recomputed, rest⟩ := bind_ok ok
    obtain ⟨placed, isPlaced, same⟩ := bind_ok rest
    obtain ⟨_, _, selected⟩ := placePeer_frame isPlaced
    cases same
    have refitted :
      Refitted (self.commitTopology peer (rtt.getD RttInfo.default)) { placed.1 with needsRebalance := true } := by
      apply refitted_of_recomputed _ recomputed
      · rw [selected]
        exact ⟨rfl, rfl, rfl⟩
      · exact adaptive
    exact ⟨refitted.config, refitted.current⟩

theorem updatePeerTopology_refitted (ok : self.updatePeerTopology build dice updates = .ok after) :
    Refitted self after.1 := by
  obtain ⟨_, _, _, updated, -⟩ := updateTopologies_frame self updates
  have config : (self.updateTopologies updates).1.config = self.config := by rw [updated]
  have fanout : (self.updateTopologies updates).1.fanout = self.fanout := by rw [updated]
  obtain ⟨resized, recomputed, rest⟩ := bind_ok ok
  obtain ⟨due, rebalanced⟩ := rebalanceIfDue_frame rest
  have flagged := rebalanced.sameSizes
  have selected : SameSizes resized.1 after.1 := ⟨flagged.config, flagged.known, flagged.fanout⟩
  rcases ite_eq_iff.mp recomputed with ⟨count, recomputed⟩ | ⟨count, recomputed⟩
  · cases recomputed
    have same : SameSizes self (self.updateTopologies updates).1 := ⟨config, count, fanout⟩
    exact ⟨selected.config.trans config, selected.current_iff.mpr (same.current_iff.mpr current)⟩
  · have refitted := refitted_of_recomputed (config ▸ adaptive) recomputed selected
    exact ⟨refitted.config.trans config, refitted.current⟩

/-- Whether the targets are the same without a peer, or are looked at again when it goes: they
are for a peer in neither set. -/
def MayLeave (self : Overlay N) (peer : N) : Prop :=
  peer ∈ self.eager ∨ peer ∈ self.lazy →
    ∀ build, resolveFanout build (self.known.remove peer).size self.config =
      resolveFanout build self.known.size self.config

theorem peerDown_current_iff {after : Overlay N} (ok : self.peerDown build peer = .ok after) :
    after.config = self.config ∧ (after.FanoutCurrent ↔ self.MayLeave peer) := by
  rcases ite_eq_iff.mp ok with ⟨placed, ok⟩ | ⟨placed, ok⟩
  · cases ok
    refine ⟨rfl, ?_, ?_⟩
    · intro currentAfter _ build
      exact (currentAfter build).trans (current build).symm
    · intro may build
      exact (may placed build).trans (current build)
  · obtain ⟨_, recomputed, same⟩ := bind_ok ok
    cases same
    have refitted := refitted_of_recomputed (by exact adaptive) recomputed ⟨rfl, rfl, rfl⟩
    refine ⟨refitted.config, ?_, ?_⟩
    · intro _ was
      exact absurd was placed
    · intro _
      exact refitted.current

end Overlay

/-! ### Runs of membership operations -/

/-- The operations by which peers come, go and move. -/
def Op.Membership {N I P : Type} : Op N I P → Prop
  | .addPeersBulk _ | .addPeersBulkWithRtt _ | .peerUp _ _ | .updatePeerTopology _ | .peerDown _ => True
  | _ => False

namespace PlumtreeState
variable {N I P S : Type} [LinearOrder N] [DecidableEq I] {proto : Protocol N I P S} {around : Surround N}
  {self : PlumtreeState N I P S}

/-- What an operation needs so that the fanout stays current. -/
def KeepsFanout (self : PlumtreeState N I P S) : Op N I P → Prop
  | .peerDown peer => self.MayLeave peer
  | _ => True

theorem apply_current_iff (adaptive : self.config.numEager = none) (current : self.FanoutCurrent)
    (membership : op.Membership) {after : PlumtreeState N I P S}
    (ok : self.apply proto around op = .ok (after, effects)) :
    after.config = self.config ∧ (after.FanoutCurrent ↔ self.KeepsFanout op) := by
  have always {overlay : Overlay N} (refitted : self.Refitted overlay) :
      overlay.config = self.config ∧ (overlay.FanoutCurrent ↔ True) :=
    ⟨refitted.config, iff_true_intro refitted.current⟩
  cases op with
  | addPeersBulk peers | addPeersBulkWithRtt peers =>
    obtain ⟨overlay, notices, returned, rfl, -⟩ := withOverlay_ok ok
    exact always (Overlay.addPeersBulkWithRtt_refitted adaptive returned)
  | peerUp peer _ =>
    obtain ⟨overlay, notices, returned, rfl, -⟩ := withOverlay_ok ok
    exact always (Overlay.peerUp_refitted adaptive current returned)
  | updatePeerTopology _ =>
    obtain ⟨overlay, notices, returned, rfl, -⟩ := withOverlay_ok ok
    exact always (Overlay.updatePeerTopology_refitted adaptive current returned)
  | peerDown peer =>
    obtain ⟨overlay, notices, returned, rfl, -⟩ := withOverlay_ok ok
    obtain ⟨_, isLeft, same⟩ := map_ok returned
    cases same
    exact Overlay.peerDown_current_iff adaptive current isLeft
  | _ => cases membership

/-- One more operation. -/
theorem run_concat {final : PlumtreeState N I P S} : self.run proto (steps ++ [(around, op)]) = .ok final ↔
      ∃ state effects, self.run proto steps = .ok state ∧ state.apply proto around op = .ok (final, effects) := by
  constructor
  · intro ran
    obtain ⟨state, before, last⟩ := foldlM_concat_ok.mp ran
    obtain ⟨⟨_, effects⟩, applied, same⟩ := map_ok last
    cases same
    exact ⟨state, effects, before, applied⟩
  · rintro ⟨state, effects, before, applied⟩
    apply foldlM_concat_ok.mpr
    exact ⟨state, before, congrArg (Except.map Prod.fst) applied⟩

section Histories
variable {steps : List (Surround N × Op N I P)}

/-- Every state a run goes through has a current fanout. -/
def StaysCurrent (proto : Protocol N I P S) (self : PlumtreeState N I P S) (steps : List (Surround N × Op N I P)) :
    Prop :=
  ∀ before rest state, steps = before ++ rest → self.run proto before = .ok state → state.FanoutCurrent

/-- Every operation of a run meets `KeepsFanout` in the state it starts from. -/
def KeepsFanouts (proto : Protocol N I P S) (self : PlumtreeState N I P S) (steps : List (Surround N × Op N I P)) :
    Prop :=
  ∀ before step rest state, steps = before ++ step :: rest → self.run proto before = .ok state →
    state.KeepsFanout step.2

/-- What every operation of a run leaves, in the state it comes to, holds of every state of the run. -/
theorem run_invariant (holds : PlumtreeState N I P S → Prop) (start : holds self)
    (each : ∀ before step rest state after effects, steps = before ++ step :: rest → self.run proto before = .ok state →
      holds state → state.apply proto step.1 step.2 = .ok (after, effects) → holds after)
    {before rest : List (Surround N × Op N I P)} (split : steps = before ++ rest)
    (ran : self.run proto before = .ok state) : holds state := by
  induction before using reverseRecOn generalizing state rest with
  | nil =>
    cases ran
    exact start
  | append_singleton before step ih =>
    obtain ⟨middle, effects, first, applied⟩ := run_concat.mp ran
    rw [append_assoc] at split
    exact each before step rest middle state effects split first (ih split first) applied

/-- A peer of one of the sets goes without a fault. -/
theorem peerDown_placed {peer : N} (placed : peer ∈ self.eager ∨ peer ∈ self.lazy) :
    ∃ after, self.apply proto around (.peerDown peer) = .ok after := by
  change ∃ after, self.withOverlay ((self.toOverlay.peerDown around.build peer).map (·, [])) = .ok after
  unfold Overlay.peerDown
  rw [if_pos placed]
  exact ⟨_, rfl⟩

end Histories

/-- With `num_eager` unset, over any membership operations of a new node: the cached
fanout is that of the known peers after each of them, exactly if no peer goes from the
eager or the lazy set whose departure changes the targets. -/
theorem fanout_current_iff {config : Config} (adaptive : config.numEager = none) (proto : Protocol N I P S)
    (build : Build)
    (localId : N) (seen : S) {new : PlumtreeState N I P S} (isNew : PlumtreeState.new build localId config seen =
      .ok new) (steps : List (Surround N × Op N I P)) (membership : ∀ step ∈ steps, step.2.Membership) :
    new.StaysCurrent proto steps ↔ new.KeepsFanouts proto steps := by
  have starts : new.config.numEager = none ∧ new.FanoutCurrent := by
    obtain ⟨_, isOverlay, same⟩ := bind_ok isNew
    obtain ⟨_, resolved, isFanout⟩ := bind_ok isOverlay
    cases isFanout
    cases same
    refine ⟨adaptive, fun other => ?_⟩
    rw [resolveFanout_adaptive adaptive] at resolved
    exact (resolveFanout_adaptive adaptive other 0).trans resolved
  have isMember {before rest : List (Surround N × Op N I P)} {step : Surround N × Op N I P} (split : steps =
    before ++ step :: rest) : step.2.Membership := membership step (split ▸ mem_append_right _ mem_cons_self)
  constructor
  · rintro currents before ⟨around, op⟩ rest state split ran
    have config : state.config = new.config := by
      refine run_invariant (·.config = new.config) rfl (fun before step rest state after effects split ran kept
        applied => ?_) split ran
      have current := currents before _ state split ran
      exact (apply_current_iff (kept ▸ starts.1) current (isMember split) applied).1.trans kept
    cases op with
    | peerDown peer =>
      intro placed
      obtain ⟨⟨after, effects⟩, applied⟩ := @peerDown_placed N I P S _ _ proto around state peer placed
      have reached := run_concat.mpr ⟨state, effects, ran, applied⟩
      have currentAfter := currents _ rest after (by rw [split, append_assoc]; rfl) reached
      have current := currents before _ state split ran
      exact (apply_current_iff (config ▸ starts.1) current (isMember split) applied).2.mp currentAfter placed
    | _ => trivial
  · intro keeps before rest state split ran
    have kept : state.config = new.config ∧ state.FanoutCurrent := by
      refine run_invariant (fun state => state.config = new.config ∧ state.FanoutCurrent) ⟨rfl, starts.2⟩
        (fun before step rest state after effects split ran kept applied => ?_) split ran
      obtain ⟨config, currentAfter⟩ := apply_current_iff (kept.1 ▸ starts.1) kept.2 (isMember split) applied
      exact ⟨config.trans kept.1, currentAfter.mpr (keeps before step rest state split ran)⟩
    exact kept.2

/-- Two peers come and one goes; the targets are the same for one and for two. -/
theorem small_cluster_current :
    ∃ new : PlumtreeState Nat Nat Nat (IndexMap Nat Nat), PlumtreeState.new .dev 0 Config.default ∅ = .ok new ∧
      new.StaysCurrent numbered [(devAround, .addPeersBulk [1, 2]), (devAround, .peerDown 1)] := by
  have same : Config.default.targets 1 = Config.default.targets 2 := by decide +kernel
  refine ⟨_, rfl,
    (@fanout_current_iff Nat Nat Nat (IndexMap Nat Nat) _ _ Config.default rfl numbered .dev 0 ∅ _ rfl _ ?_).mpr ?_⟩
  · simp [Op.Membership]
  · intro before _ _ _ split ran
    rcases before with _ | ⟨first, _ | ⟨second, before⟩⟩
    · cases split
      trivial
    · cases split
      cases ran
      intro _ build
      change resolveFanout build 1 Config.default = resolveFanout build 2 Config.default
      rw [resolveFanout_adaptive rfl, resolveFanout_adaptive rfl, same]
    · simp at split

/-- One of fourteen peers goes: the targets stay those of fourteen. -/
theorem departure_leaves_fanout :
    ∃ final, runNew Config.default [.addPeersBulk (List.range' 1 14), .peerDown 1] = .ok final ∧
      final.known.size = 13 ∧ final.fanout.numEager = 4 ∧ ¬final.FanoutCurrent := by
  have resolves : resolveFanout .dev 13 Config.default = .ok ⟨3, 4, 6⟩ := rfl
  refine ⟨_, rfl, ?_, ?_, ?_⟩
  · rfl
  · rfl
  · intro current
    cases resolves.symm.trans (current .dev)

end PlumtreeState

/-! ### Peers that went down and are in the updates -/

/-- How often in a row a bucket has been seen, with what is pending for the peer. -/
def seenInRow (pending : Option (RttInfo × Nat)) (info : RttInfo) : Nat :=
  match pending with
  | some (earlier, count) => if RingBucket.of earlier = RingBucket.of info then count + 1 else 1
  | none => 1

/-- Whether the updates of one peer make it a known one, by what is recorded of it: the first
is enough if nothing is, and else the eighth in a row for another bucket. The first ring and
an update for the same bucket start the count anew. -/
def adopted : Option RttInfo → Option (RttInfo × Nat) → List RttInfo → Bool
  | _, _, [] => false
  | none, _, _ :: _ => true
  | some recorded, pending, info :: rest =>
    if recorded.ring.isNone ∧ info.ring.isSome then adopted (some info) none rest
    else if RingBucket.of info = RingBucket.of recorded then adopted (some recorded) none rest
    else if Overlay.ringExtraConfirmations ≤ seenInRow pending info then true
    else adopted (some recorded) (some (info, seenInRow pending info)) rest

/-- The updates of one peer. -/
def ownUpdates {N : Type} [DecidableEq N] (updates : List (N × RttInfo)) (peer : N) : List RttInfo :=
  (updates.filter fun entry => decide (entry.1 = peer)).map Prod.snd

namespace Overlay
variable {N I : Type} [LinearOrder N] {self : Overlay N}

variable {updates : List (N × RttInfo)}

/-- The loop makes a peer known exactly by the peer's own updates. -/
theorem mem_updateTopologies : peer ∈ (self.updateTopologies updates).1.known ↔ peer ∈ self.known ∨
        adopted (self.peerTopology.get? peer) (self.pendingTopology.get? peer) (ownUpdates updates peer) = true := by
  induction updates generalizing self with
  | nil => simp [updateTopologies, ownUpdates, adopted]
  | cons first rest ih =>
    obtain ⟨named, info⟩ := first
    change peer ∈ ((self.updateTopology named info).1.updateTopologies rest).1.known ↔ _
    by_cases own : named = peer
    · subst own
      have ownFirst : ownUpdates ((named, info) :: rest) named = info :: ownUpdates rest named := by simp [ownUpdates]
      rw [ownFirst]
      have commits : (self.updateTopology named info).1 = self.commitTopology named info →
          named ∈ ((self.updateTopology named info).1.updateTopologies rest).1.known := by
        intro committed
        obtain ⟨_, _, _, updated, kept⟩ := updateTopologies_frame (self.updateTopology named info).1 rest
        rw [updated]
        apply kept
        rw [committed]
        exact IndexSet.mem_insert.mpr (.inl rfl)
      cases recorded : self.peerTopology.get? named with
      | none =>
        have taken := commits (by rw [updateTopology, recorded])
        simp [adopted, taken]
      | some existing =>
        rw [adopted]
        by_cases firstRing : existing.ring.isNone ∧ info.ring.isSome
        · rw [if_pos firstRing, updateTopology, recorded]
          dsimp only
          rw [if_pos firstRing, ih, IndexMap.get?_upsert, if_pos rfl, IndexMap.get?_shiftRemove, if_pos rfl]
        rw [if_neg firstRing]
        by_cases sameBucket : of info = of existing
        · rw [if_pos sameBucket, updateTopology, recorded]
          dsimp only
          rw [if_neg firstRing, if_pos sameBucket, ih, recorded, IndexMap.get?_shiftRemove, if_pos rfl]
        rw [if_neg sameBucket]
        by_cases confirmed : ringExtraConfirmations ≤ self.confirmations named info
        · have taken : named ∈ ((self.updateTopology named info).1.updateTopologies rest).1.known := by
            apply commits
            rw [updateTopology, recorded]
            dsimp only
            rw [if_neg firstRing, if_neg sameBucket, if_pos confirmed]
          rw [if_pos (show _ ≤ seenInRow _ _ from confirmed)]
          exact iff_of_true taken (.inr rfl)
        · rw [if_neg (show ¬_ ≤ seenInRow _ _ from confirmed), updateTopology, recorded]
          dsimp only
          rw [if_neg firstRing, if_neg sameBucket, if_neg confirmed, ih, recorded, IndexMap.get?_upsert, if_pos rfl]
          rfl
    · have different : peer ≠ named := fun same => own same.symm
      obtain ⟨topology, pending, known⟩ := @updateTopology_other N _ self named peer info different
      have others : ownUpdates ((named, info) :: rest) peer = ownUpdates rest peer := by simp [ownUpdates, own]
      rw [ih, topology, pending, known, others]

/-! ### When a peer moves to another bucket -/

variable {observed : List RingBucket} {build : Build}

/-- What is counted are the last observations. -/
def Counts (self : Overlay N) (peer : N) (observed : List RingBucket) : Prop :=
  ∀ info n, RingBucket.of info ≠ self.peerBucket peer → (replicate n (RingBucket.of info) <:+ observed ↔
    n < self.confirmations peer info)

/-- An observation is taken if it is the first one or the first with a ring, of the bucket that the peer is in, or the
eighth in a row. -/
def Settles (self : Overlay N) (peer : N) (info : RttInfo) : Prop :=
  (∀ existing, self.peerTopology.get? peer = some existing → existing.ring.isNone ∧ info.ring.isSome) ∨
    RingBucket.of info = self.peerBucket peer ∨ ringExtraConfirmations ≤ self.confirmations peer info

theorem updateTopology_own (info : RttInfo) :
    (self.Settles peer info → (self.updateTopology peer info).1.peerBucket peer = of info ∧
      (self.updateTopology peer info).1.pendingTopology.get? peer = none) ∧
    (¬self.Settles peer info → (self.updateTopology peer info).1.peerBucket peer = self.peerBucket peer ∧
      (self.updateTopology peer info).1.pendingTopology.get? peer = some (info, self.confirmations peer info)) := by
  unfold updateTopology Settles
  cases held : self.peerTopology.get? peer with
  | none => simp [commitTopology, peerBucket, IndexMap.get?_upsert, IndexMap.get?_shiftRemove]
  | some _ =>
    dsimp only
    split_ifs <;> simp_all [commitTopology, peerBucket, IndexMap.get?_upsert, IndexMap.get?_shiftRemove]

theorem replicate_suffix_concat {α : Type} {item last : α} {items : List α} {n : Nat} :
    replicate (n + 1) item <:+ items ++ [last] ↔ last = item ∧ replicate n item <:+ items := by
  rw [replicate_succ', suffix_concat_iff]
  constructor
  · rintro (nothing | ⟨_, same, inside⟩)
    · simp at nothing
    · obtain ⟨rfl, ends⟩ := append_inj' same rfl
      cases ends
      exact ⟨rfl, inside⟩
  · rintro ⟨rfl, inside⟩
    exact .inr ⟨_, rfl, inside⟩

theorem counts_updateTopology (counts : self.Counts peer observed) (info : RttInfo) :
    (self.updateTopology peer info).1.Counts peer (observed ++ [of info]) := by
  intro given n different
  by_cases settles : self.Settles peer info
  · obtain ⟨own, pending⟩ := (updateTopology_own info).1 settles
    rw [own] at different
    cases n <;> simp [replicate_suffix_concat, confirmations, pending, different.symm]
  · obtain ⟨own, pending⟩ := (updateTopology_own info).2 settles
    rw [own] at different
    by_cases same : of info = of given
    · have more : (self.updateTopology peer info).1.confirmations peer given = self.confirmations peer info + 1 := by
        rw [confirmations, pending]
        exact if_pos same
      rw [← same] at different ⊢
      cases n with
      | zero => simp [more]
      | succ n =>
        rw [more, replicate_suffix_concat, Nat.add_lt_add_iff_right, ← counts info n different]
        exact and_iff_right rfl
    · cases n <;> simp [replicate_suffix_concat, confirmations, pending, same]

theorem Counts.congr {after : Overlay N} (counts : self.Counts peer observed)
    (topology : after.peerTopology.get? peer = self.peerTopology.get? peer)
    (pending : after.pendingTopology.get? peer = self.pendingTopology.get? peer) : after.Counts peer observed := by
  simpa only [Counts, peerBucket, confirmations, topology, pending] using counts

theorem counts_updateTopologies (counts : self.Counts peer observed) :
    (self.updateTopologies updates).1.Counts peer (observed ++ (ownUpdates updates peer).map of) := by
  induction updates generalizing self observed with
  | nil => simpa [updateTopologies, ownUpdates] using counts
  | cons first _ ih =>
    obtain ⟨named, info⟩ := first
    by_cases own : named = peer
    · subst own
      have later := ih (counts_updateTopology counts info)
      simpa [updateTopologies, ownUpdates] using later
    · have different : peer ≠ named := fun same => own same.symm
      obtain ⟨topology, pending, -⟩ := @updateTopology_other N _ self named peer info different
      have later := ih (counts.congr topology pending)
      simpa [updateTopologies, ownUpdates, own] using later

/-- Rounds of topology updates, one after the other. -/
def updateRounds (I : Type) (build : Build) (self : Overlay N) (rounds : List (Dice N × List (N × RttInfo))) :
    Except Fault (Overlay N) :=
  rounds.foldlM (fun held round => (held.updatePeerTopology (I := I) build round.1 round.2).map Prod.fst) self

variable {rounds : List (Dice N × List (N × RttInfo))}

theorem counts_updateRounds (counts : self.Counts peer observed) (ran : self.updateRounds I build rounds = .ok state) :
    state.Counts peer (observed ++ (ownUpdates (rounds.flatMap Prod.snd) peer).map of) := by
  induction rounds generalizing self observed with
  | nil =>
    cases ran
    simpa [ownUpdates] using counts
  | cons _ _ ih =>
    obtain ⟨_, turn, later⟩ := foldlM_cons_ok ran
    obtain ⟨after, ok, rfl⟩ := map_ok turn
    obtain ⟨_, _, _, _, _, frame⟩ := updatePeerTopology_frame ok
    have counted : after.1.Counts peer _ := (counts_updateTopologies counts).congr (by rw [frame]) (by rw [frame])
    have all := ih counted later
    simpa [ownUpdates] using all

/-- In any rounds of topology updates, from a node that has no count for the peer: the next observation of a peer that
has a ring moves it to another bucket exactly if it is the eighth in a row of that bucket. -/
theorem bucket_moves_iff (I : Type) (build : Build) (self : Overlay N) (peer : N)
    (idle : self.pendingTopology.get? peer = none) (rounds : List (Dice N × List (N × RttInfo))) (state : Overlay N)
    (ran : self.updateRounds I build rounds = .ok state) (earlier : List (N × RttInfo)) (existing : RttInfo)
    (held : (state.updateTopologies earlier).1.peerTopology.get? peer = some existing) (measured : existing.ring.isSome)
    (info : RttInfo) (bucket : RingBucket) (other : bucket ≠ (state.updateTopologies earlier).1.peerBucket peer) :
    ((state.updateTopologies earlier).1.updateTopology peer info).1.peerBucket peer = bucket ↔
      replicate 8 bucket <:+ (ownUpdates (rounds.flatMap Prod.snd ++ earlier ++ [(peer, info)]) peer).map
        RingBucket.of := by
  have start : self.Counts peer [] := by
    intro info n _
    simp [confirmations, idle]
  have counts : (state.updateTopologies earlier).1.Counts peer _ :=
    counts_updateTopologies (counts_updateRounds start ran)
  generalize (state.updateTopologies earlier).1 = before at *
  have history : (ownUpdates (rounds.flatMap Prod.snd ++ earlier ++ [(peer, info)]) peer).map of =
      [] ++ (ownUpdates (rounds.flatMap Prod.snd) peer).map of ++ (ownUpdates earlier peer).map of ++
        [of info] := by
    simp [ownUpdates]
  rw [history, replicate_suffix_concat]
  by_cases settles : before.Settles peer info
  · rw [((updateTopology_own info).1 settles).1]
    constructor
    · rintro rfl
      rcases settles with first | same | eighth
      · simp [Option.isNone_iff_eq_none.mp (first existing held).1] at measured
      · exact absurd same other
      · exact ⟨rfl, (counts info 7 other).mpr eighth⟩
    · exact And.left
  · rw [((updateTopology_own info).2 settles).1]
    refine iff_of_false other.symm ?_
    rintro ⟨rfl, seven⟩
    exact settles (.inr (.inr ((counts info 7 other).mp seven)))

/-- The eighth observation of a far ring moves a near peer. -/
theorem eighth_observation_moves : ∃ new state : Overlay Nat, Overlay.new .dev 0 Config.default = .ok new ∧
    new.updateRounds Nat .dev [(devAround.dice, (1, ⟨some 0⟩) :: replicate 7 (1, ⟨some 5⟩))] = .ok state ∧
      (state.updateTopology 1 ⟨some 5⟩).1.peerBucket 1 = .far := by
  have reached : ∃ new state : Overlay Nat, Overlay.new .dev 0 Config.default = .ok new ∧
      new.updateRounds Nat .dev [(devAround.dice, (1, ⟨some 0⟩) :: replicate 7 (1, ⟨some 5⟩))] = .ok state ∧
      new.pendingTopology.get? 1 = none ∧ state.peerTopology.get? 1 = some ⟨some 0⟩ := ⟨_, _, rfl, rfl, rfl, rfl⟩
  obtain ⟨new, state, isNew, ran, idle, held⟩ := reached
  have near : state.peerBucket 1 = .near := by
    rw [peerBucket, held]
    rfl
  refine ⟨new, state, isNew, ran,
    (bucket_moves_iff Nat .dev new 1 idle _ state ran [] _ held rfl ⟨some 5⟩ .far ?_).mpr ?_⟩
  · exact fun same => nomatch same.trans near
  · exact ⟨[.near], rfl⟩

end Overlay

namespace PlumtreeState
variable {N I P S : Type} [LinearOrder N] [DecidableEq I] {proto : Protocol N I P S} {around : Surround N}
  {self : PlumtreeState N I P S}

/-- After a round of topology updates every peer it names is known, exactly if each of them
was known before or is adopted by its own updates. -/
theorem refresh_restores_iff (proto : Protocol N I P S) (around : Surround N) (self after : PlumtreeState N I P S)
    (updates : List (N × RttInfo)) (effects : List (Effect N I P))
    (ok : self.apply proto around (.updatePeerTopology updates) = .ok (after, effects)) :
    (∀ peer ∈ updates.map Prod.fst, peer ≠ self.localId → peer ∈ after.known) ↔
      ∀ peer ∈ updates.map Prod.fst, peer ≠ self.localId → peer ∈ self.known ∨
          adopted (self.peerTopology.get? peer) (self.pendingTopology.get? peer) (ownUpdates updates peer) = true := by
  obtain ⟨overlay, notices, returned, rfl, -⟩ := withOverlay_ok ok
  obtain ⟨_, _, _, _, _, frame⟩ := Overlay.updatePeerTopology_frame returned
  have known : overlay.known = (self.toOverlay.updateTopologies updates).1.known := by
    change (overlay, notices).1.known = _
    rw [frame]
  apply forall₂_congr
  intro peer _
  apply imp_congr_right
  intro _
  rw [known, Overlay.mem_updateTopologies]

/-- A peer that went down is taken back by its eighth update for another bucket. -/
theorem eighth_update_restores : ∃ down after effects,
      runNew Config.default [.peerUp 1 (some ⟨some 5⟩), .peerDown 1] = .ok down ∧ 1 ∉ down.known ∧
      down.apply numbered devAround (.updatePeerTopology (List.replicate 8 (1, ⟨some 0⟩))) = .ok (after, effects) ∧
      1 ∈ after.known := by
  have returns : ∃ down, runNew Config.default [.peerUp 1 (some ⟨some 5⟩), .peerDown 1] = .ok down ∧ 1 ∉ down.known ∧
      adopted (down.peerTopology.get? 1) (down.pendingTopology.get? 1) (replicate 8 ⟨some 0⟩) = true ∧
      ∃ after, down.apply numbered devAround (.updatePeerTopology (replicate 8 (1, ⟨some 0⟩))) = .ok after :=
    ⟨_, rfl, by decide, rfl, _, rfl⟩
  obtain ⟨down, isDown, unknown, taken, ⟨after, effects⟩, ok⟩ := returns
  refine ⟨down, after, effects, isDown, unknown, ok, ?_⟩
  have foreign : down.localId = 0 := by
    cases isDown
    rfl
  apply (refresh_restores_iff numbered devAround down after _ effects ok).mpr
  · intro peer named _
    have same : peer = 1 := by simpa using named
    subst same
    exact .inr taken
  · decide
  · rw [foreign]
    decide

/-- A peer that went down and is announced again with the ring it had is not taken back. -/
theorem refresh_loses_peer :
    ∃ final, runNew Config.default [.peerUp 1 none, .peerDown 1, .updatePeerTopology [(1, RttInfo.default)]] =
      .ok final ∧ 1 ∉ final.known := by
  refine ⟨_, rfl, ?_⟩
  decide

end PlumtreeState
end Galvanize.Plumtree
