import Mathlib.Data.List.Perm.Subperm
import Mathlib.Order.Defs.LinearOrder
import Galvanize.RingProofs

/-! What the operations on the peer sets keep, and what they need in order to return. -/
namespace Galvanize.Plumtree
open List
open IndexSet (mem_remove mem_insert forall_mem_empty not_mem_empty)

/-- The fanout targets in plain numbers. -/
def Config.targets (config : Config) (known : Nat) : FanoutTargets :=
  let numEager := config.numEager.getD (autoEager known)
  ⟨numEager, config.minLazy.getD (numEager * 3 / 2), config.maxLazy.getD (numEager * 2)⟩

/-- Targets that stay within machine words, with room in the lazy set. -/
structure FanoutTargets.Sound (ratios : EagerRatios) (targets : FanoutTargets) : Prop where
  triple : targets.numEager * 3 ≤ usizeMax
  eagerShares : targets.numEager * ratios.nearPct ≤ usizeMax ∧ targets.numEager * ratios.midPct ≤ usizeMax
  lazyShares : targets.minLazy * ratios.nearPct ≤ usizeMax ∧ targets.minLazy * ratios.midPct ≤ usizeMax
  ordered : targets.minLazy ≤ targets.maxLazy
  room : 0 < targets.maxLazy

/-- A configuration whose targets are sound at every cluster size. -/
structure Config.Sound (config : Config) : Prop where
  ratios : config.eagerRatios.valid
  targets : ∀ known, (config.targets known).Sound config.eagerRatios

theorem resolveFanout_ok (sound : config.Sound) (known : Nat) :
    resolveFanout build known config = .ok (config.targets known) := by
  have triple : (config.numEager.getD (autoEager known)) * 3 ≤ usizeMax := (sound.targets known).triple
  have double : (config.numEager.getD (autoEager known)) * 2 ≤ usizeMax := by omega
  rw [resolveFanout, fit_ok triple, fit_ok double]
  rfl

theorem autoEager_le (known : Nat) : autoEager known ≤ 60 := by
  apply max_le
  · exact (countP_le_length).trans (by simp)
  · omega

theorem le_autoEager (known : Nat) : 3 ≤ autoEager known := le_max_right _ _

/-- The configuration nobody touched is sound. -/
theorem Config.default_sound : Config.default.Sound where
  ratios := rfl
  targets known := by
    have most := autoEager_le known
    have least := le_autoEager known
    constructor <;> simp [Config.targets, Config.default, EagerRatios.default, usizeMax] <;> omega

namespace Overlay
variable {N I : Type} [LinearOrder N] {build : Build} {dice : Dice N} {self : Overlay N}

/-- The peer sets fit together. -/
structure WellFormed (overlay : Overlay N) : Prop where
  disjoint : ∀ peer ∈ overlay.eager, peer ∉ overlay.lazy
  eagerKnown : ∀ peer ∈ overlay.eager, peer ∈ overlay.known
  lazyKnown : ∀ peer ∈ overlay.lazy, peer ∈ overlay.known
  lockedKnown : ∀ peer ∈ overlay.ringLocked, peer ∈ overlay.known
  lockedEager : ∀ peer ∈ overlay.ringLocked, peer ∈ overlay.eager
  foreign : overlay.localId ∉ overlay.eager ∧ overlay.localId ∉ overlay.lazy ∧ overlay.localId ∉ overlay.known ∧
    overlay.localId ∉ overlay.ringLocked
  limited : overlay.lazy.size ≤ overlay.fanout.maxLazy

omit [LinearOrder N] in
theorem WellFormed.of (disjoint : ∀ peer ∈ self.eager, peer ∉ self.lazy)
    (eagerKnown : ∀ peer ∈ self.eager, peer ∈ self.known) (lazyKnown : ∀ peer ∈ self.lazy, peer ∈ self.known)
    (lockedEager : ∀ peer ∈ self.ringLocked, peer ∈ self.eager) (foreign : self.localId ∉ self.known)
    (limited : self.lazy.size ≤ self.fanout.maxLazy) : self.WellFormed where
  disjoint := disjoint
  eagerKnown := eagerKnown
  lazyKnown := lazyKnown
  lockedKnown peer locked := eagerKnown peer (lockedEager peer locked)
  lockedEager := lockedEager
  foreign := ⟨fun held => foreign (eagerKnown _ held), fun held => foreign (lazyKnown _ held), foreign,
    fun held => foreign (eagerKnown _ (lockedEager _ held))⟩
  limited := limited

/-- What holds between operations: the sets fit together and the targets come from the
configuration. -/
structure Healthy (overlay : Overlay N) : Prop where
  sound : overlay.config.Sound
  resolved : ∃ known, overlay.fanout = overlay.config.targets known
  wellFormed : overlay.WellFormed

omit [LinearOrder N] in
theorem Healthy.fanout_sound (healthy : self.Healthy) : self.fanout.Sound self.config.eagerRatios := by
  obtain ⟨known, same⟩ := healthy.resolved
  rw [same]
  exact healthy.sound.targets known

/-! ### The fanout -/

/-- The targets after `maybe_recompute_fanout`. -/
def currentFanout (self : Overlay N) : FanoutTargets :=
  if self.config.numEager.isSome then self.fanout else self.config.targets self.known.size

def refit (self : Overlay N) : Overlay N := { self with fanout := self.currentFanout }

omit [LinearOrder N] in
theorem maybeRecomputeFanout_ok (sound : self.config.Sound) :
    ∃ after, self.maybeRecomputeFanout build = .ok after ∧ after.1 = self.refit := by
  unfold maybeRecomputeFanout refit currentFanout
  split
  · exact ⟨_, rfl, rfl⟩
  · rw [resolveFanout_ok sound]
    exact ⟨_, rfl, rfl⟩

omit [LinearOrder N] in
theorem currentFanout_resolved (resolved : ∃ known, self.fanout = self.config.targets known) :
    ∃ known, self.currentFanout = self.config.targets known := by
  unfold currentFanout
  split
  · exact resolved
  · exact ⟨_, rfl⟩

/-! ### Bucket targets -/

theorem bucketTargets_ok (valid : ratios.valid)
    (fits : num * ratios.nearPct ≤ usizeMax ∧ num * ratios.midPct ≤ usizeMax) :
    ∃ targets, bucketTargets build num nearCap midCap farCap ratios = .ok targets ∧
      targets.near + targets.mid + targets.far ≤ num := by
  rw [bucketTargets, if_neg (fun refused => refused.2 valid), fit_ok fits.1, fit_ok fits.2]
  refine ⟨_, rfl, ?_⟩
  dsimp only
  omega

/-- For every target, all capacities and all valid ratios: no bucket gives more than it holds,
and together they give the target or all they hold, if the shares can be computed. -/
theorem bucket_split_iff (valid : ratios.valid) :
    (∃ targets, bucketTargets build num nearCap midCap farCap ratios = .ok targets ∧
      targets.near ≤ nearCap ∧ targets.mid ≤ midCap ∧ targets.far ≤ farCap ∧
      targets.near + targets.mid + targets.far = min num (nearCap + midCap + farCap)) ↔
    (build = .dev → num * ratios.nearPct ≤ usizeMax ∧ num * ratios.midPct ≤ usizeMax) := by
  rw [bucketTargets, if_neg (fun refused => refused.2 valid)]
  constructor
  · rintro ⟨_, ok, -⟩ dev
    obtain ⟨_, near, rest⟩ := bind_ok ok
    obtain ⟨_, mid, -⟩ := bind_ok rest
    exact ⟨fit_returns_iff.mp ⟨_, near⟩ dev, fit_returns_iff.mp ⟨_, mid⟩ dev⟩
  · intro fits
    obtain ⟨nearShare, near⟩ := fit_returns_iff.mpr fun dev => (fits dev).1
    obtain ⟨midShare, mid⟩ := fit_returns_iff.mpr fun dev => (fits dev).2
    rw [near, mid]
    refine ⟨_, rfl, ?_⟩
    dsimp only
    omega

theorem ten_peers_split : ∃ targets, bucketTargets .dev 10 2 9 4 .default = .ok targets ∧
      targets.near ≤ 2 ∧ targets.mid ≤ 9 ∧ targets.far ≤ 4 ∧ targets.near + targets.mid + targets.far =
        min 10 (2 + 9 + 4) := by
  refine (bucket_split_iff ?_).mpr fun _ => ?_
  · rfl
  · simp [EagerRatios.default, usizeMax]

/-- Half of the machine words, fifty times. -/
theorem large_target_breaks : EagerRatios.default.valid ∧
    bucketTargets .dev 9223372036854775808 2 9 4 .default = .error .overflow := ⟨rfl, rfl⟩

variable {peer : N}

theorem mem_bucketPool : peer ∈ self.bucketPool dice bucket ↔
      peer ∈ self.known ∧ peer ∉ self.eager ∧ peer ∉ self.lazy ∧ self.peerBucket peer = bucket := by
  rw [bucketPool, (dice.shuffle_perm _).mem_iff, mem_filter, decide_eq_true_eq]
  rfl

theorem mem_extend_buckets {set : IndexSet N} {items : RingBucket → List N} :
    peer ∈ ((set.extend (items .near)).extend (items .mid)).extend (items .far) ↔
      peer ∈ set ∨ ∃ bucket, peer ∈ items bucket := by
  simp only [IndexSet.mem_extend]
  constructor
  · rintro (((held | near) | mid) | far)
    · exact .inl held
    · exact .inr ⟨_, near⟩
    · exact .inr ⟨_, mid⟩
    · exact .inr ⟨_, far⟩
  · rintro (held | ⟨bucket, listed⟩)
    · exact .inl (.inl (.inl held))
    · cases bucket with
      | near => exact .inl (.inl (.inr listed))
      | mid => exact .inl (.inr listed)
      | far => exact .inr listed

theorem size_extend_buckets_le (set : IndexSet N) (items : RingBucket → List N) :
    (((set.extend (items .near)).extend (items .mid)).extend (items .far)).size ≤
      set.size + (items .near).length + (items .mid).length + (items .far).length := by
  have near := set.size_extend_le (items .near)
  have mid := (set.extend (items .near)).size_extend_le (items .mid)
  have far := ((set.extend (items .near)).extend (items .mid)).size_extend_le (items .far)
  omega

/-! ### Rebalancing -/

/-- What a selection starts from: nobody is eager or lazy, and the ring neighbours are set. -/
structure Cleared (overlay : Overlay N) : Prop where
  eager : overlay.eager = ∅
  lazy : overlay.lazy = ∅
  lockedKnown : ∀ peer ∈ overlay.ringLocked, peer ∈ overlay.known
  foreign : overlay.localId ∉ overlay.known
  sound : overlay.config.Sound
  resolved : ∃ known, overlay.fanout = overlay.config.targets known

/-- Nothing but the two peer sets was chosen anew. -/
def Reselected (before after : Overlay N) : Prop := ∃ eager lazy, after = { before with eager := eager, lazy := lazy }

variable {eagers lazies : RingBucket → Nat}

theorem mem_takePeers_eager : peer ∈ (self.takePeers pool eagers lazies).eager ↔
      peer ∈ self.eager ∨ ∃ bucket, peer ∈ (pool bucket).take (eagers bucket) :=
  @mem_extend_buckets N _ peer self.eager fun bucket => (pool bucket).take (eagers bucket)

theorem mem_takePeers_lazy : peer ∈ (self.takePeers pool eagers lazies).lazy ↔
      peer ∈ self.lazy ∨ ∃ bucket, peer ∈ ((pool bucket).drop (eagers bucket)).take (lazies bucket) :=
  @mem_extend_buckets N _ peer self.lazy fun bucket => ((pool bucket).drop (eagers bucket)).take (lazies bucket)

theorem size_takePeers_lazy_le :
    (self.takePeers pool eagers lazies).lazy.size ≤ self.lazy.size + lazies .near + lazies .mid + lazies .far := by
  have sizes := size_extend_buckets_le self.lazy fun bucket => ((pool bucket).drop (eagers bucket)).take (lazies bucket)
  simp only [length_take] at sizes
  simp only [takePeers]
  omega

/-- Peers taken from the pools: nobody is taken twice, and the lazy set is as large as
asked at most. -/
theorem takePeers_wellFormed (lazyEmpty : self.lazy = ∅) (eagerKnown : ∀ peer ∈ self.eager, peer ∈ self.known)
    (lockedEager : ∀ peer ∈ self.ringLocked, peer ∈ self.eager) (foreign : self.localId ∉ self.known)
    (few : lazies .near + lazies .mid + lazies .far ≤ self.fanout.maxLazy) :
    (self.takePeers (self.bucketPool dice) eagers lazies).WellFormed := by
  apply WellFormed.of
  · intro peer eager lazy
    rw [mem_takePeers_eager] at eager
    rw [mem_takePeers_lazy, lazyEmpty] at lazy
    obtain ⟨bucket, later⟩ := lazy.resolve_left not_mem_empty
    have dropped := mem_of_mem_take later
    obtain ⟨-, notEager, -, ofBucket⟩ := mem_bucketPool.mp (mem_of_mem_drop dropped)
    obtain ⟨other, first⟩ := eager.resolve_left notEager
    obtain ⟨-, -, -, ofOther⟩ := mem_bucketPool.mp (mem_of_mem_take first)
    -- A peer stands in the pool of its own bucket only, and there only once.
    obtain rfl : other = bucket := ofOther.symm.trans ofBucket
    have distinct : (self.bucketPool dice other).Nodup :=
      (dice.shuffle_perm _).nodup_iff.mpr (self.known.nodup.filter _)
    exact disjoint_take_drop distinct le_rfl first dropped
  · intro peer eager
    rcases mem_takePeers_eager.mp eager with held | ⟨bucket, taken⟩
    · exact eagerKnown peer held
    · exact (mem_bucketPool.mp (mem_of_mem_take taken)).1
  · intro peer lazy
    rw [mem_takePeers_lazy, lazyEmpty] at lazy
    obtain ⟨bucket, taken⟩ := lazy.resolve_left not_mem_empty
    exact (mem_bucketPool.mp (mem_of_mem_drop (mem_of_mem_take taken))).1
  · intro peer locked
    exact mem_takePeers_eager.mpr (.inl (lockedEager peer locked))
  · exact foreign
  · apply size_takePeers_lazy_le.trans
    rw [lazyEmpty, IndexSet.size_empty]
    simpa [takePeers] using few

theorem selectPeers_ok (cleared : self.Cleared) :
    ∃ after, self.selectPeers build dice = .ok after ∧ Reselected self after ∧ after.WellFormed := by
  obtain ⟨known, resolved⟩ := cleared.resolved
  have fanout := resolved ▸ cleared.sound.targets known
  have pinned (peer : N) : peer ∈ self.pinLocked.eager ↔ peer ∈ self.ringLocked := by
    rw [pinLocked, IndexSet.mem_extend, cleared.eager]
    simp [IndexSet.mem_iff]
  apply bind_returns (bucketTargets_ok cleared.sound.ratios fanout.eagerShares)
  intro targets _
  apply bind_returns (bucketTargets_ok cleared.sound.ratios fanout.lazyShares)
  intro _ few
  refine ⟨_, rfl, ⟨_, _, rfl⟩, takePeers_wellFormed cleared.lazy ?_ ?_ cleared.foreign (few.trans fanout.ordered)⟩
  · intro peer eager
    exact cleared.lockedKnown peer ((pinned peer).mp eager)
  · intro peer locked
    exact (pinned peer).mpr locked

/-- The radius reaches no further back than the ring does: the last neighbour before the
node is looked up by a difference of machine words. -/
def RingRoom (self : Overlay N) (known : IndexSet N) : Prop :=
  self.config.radius ≤ known.items.countP (fun peer => decide (peer < self.localId)) + known.size + 1

theorem setRingNeighbors_returns (some : self.known.size ≠ 0) (room : self.RingRoom self.known) :
    ∃ after, self.setRingNeighbors build = .ok after ∧
      ∃ locked, after = { self with ringLocked := locked } ∧ ∀ peer ∈ locked, peer ∈ self.known := by
  have returns : ∃ after, self.setRingNeighbors build = .ok after := by
    cases build with
    | release => exact setRingNeighbors_release
    | dev =>
      apply (setRingNeighbors_dev_iff some).mpr
      rw [position_eq, length_ring]
      exact room
  obtain ⟨after, ok⟩ := returns
  obtain ⟨locked, same, within⟩ := setRingNeighbors_ok some ok
  exact ⟨after, ok, locked, same, fun peer listed => ((within peer).mp listed).known⟩

/-- Nothing but the three selected sets was chosen anew. -/
def Rebalanced (before after : Overlay N) : Prop :=
  ∃ eager lazy ringLocked, after = { before with eager := eager, lazy := lazy, ringLocked := ringLocked }

section
variable (sound : self.config.Sound) (resolved : ∃ known, self.fanout = self.config.targets known)
    (foreign : self.localId ∉ self.known) (room : self.known.size = 0 ∨ self.RingRoom self.known)
include sound resolved foreign room

theorem rebalance_ok : ∃ after, self.rebalance build dice = .ok after ∧ Rebalanced self after ∧ after.WellFormed := by
  unfold rebalance
  by_cases nobody : self.known.size = 0
  · rw [if_pos nobody]
    refine ⟨_, rfl, ⟨_, _, _, rfl⟩, WellFormed.of ?_ ?_ ?_ ?_ foreign (Nat.zero_le _)⟩
    · exact forall_mem_empty
    · exact forall_mem_empty
    · exact forall_mem_empty
    · exact forall_mem_empty
  · rw [if_neg nobody]
    apply bind_returns (@setRingNeighbors_returns N _ build self.clearSelection nobody (room.resolve_left nobody))
    rintro _ ⟨locked, rfl, lockedKnown⟩
    split
    · refine ⟨_, rfl, ⟨_, _, _, rfl⟩, WellFormed.of ?_ ?_ ?_ ?_ foreign (Nat.zero_le _)⟩
      · intro _ _
        exact not_mem_empty
      · intro peer eager
        exact (IndexSet.mem_extend.mp eager).resolve_left not_mem_empty
      · exact forall_mem_empty
      · intro peer held
        exact IndexSet.mem_extend.mpr (.inr (lockedKnown peer held))
    · have cleared : ({ self.clearSelection with ringLocked := locked } : Overlay N).Cleared :=
        ⟨rfl, rfl, lockedKnown, foreign, sound, resolved⟩
      obtain ⟨after, ok, ⟨eager, _, rfl⟩, wellFormed⟩ := @selectPeers_ok N _ build dice _ cleared
      exact ⟨_, ok, ⟨_, _, _, rfl⟩, wellFormed⟩

theorem rebalance_healthy : ∃ after, self.rebalance build dice = .ok after ∧ after.Healthy := by
  obtain ⟨_, ok, ⟨_, _, _, rfl⟩, wellFormed⟩ := rebalance_ok sound resolved foreign room
  exact ⟨_, ok, sound, resolved, wellFormed⟩

end

/-! ### Single peers -/

section
variable (healthy : self.Healthy)
include healthy

/-- A known peer taken out of the lazy set and made eager. -/
theorem Healthy.promote (known : peer ∈ self.known) :
    ({ self with eager := self.eager.insert peer, lazy := self.lazy.remove peer } : Overlay N).Healthy := by
  have held := healthy.wellFormed
  refine ⟨healthy.sound, healthy.resolved, WellFormed.of ?_ ?_ ?_ ?_ held.foreign.2.2.1 ?_⟩
  · intro other eager lazy
    obtain ⟨different, lazy⟩ := mem_remove.mp lazy
    exact held.disjoint other ((mem_insert.mp eager).resolve_left different) lazy
  · intro other eager
    rcases mem_insert.mp eager with rfl | before
    · exact known
    · exact held.eagerKnown other before
  · intro other lazy
    exact held.lazyKnown other (mem_remove.mp lazy).2
  · intro other locked
    exact mem_insert.mpr (.inr (held.lockedEager other locked))
  · exact (self.lazy.size_remove_le peer).trans held.limited

theorem moveToEager_healthy (peer : N) : (self.moveToEager (I := I) peer).1.Healthy := by
  unfold moveToEager
  split
  · exact healthy
  case isFalse moves =>
    have known : peer ∈ self.known := by tauto
    exact healthy.promote known

theorem forceEager_healthy (peer : N) : (self.forceEager peer).Healthy := by
  unfold forceEager
  split
  case isTrue known => exact healthy.promote known
  case isFalse _ => exact healthy

omit [LinearOrder N] in
/-- A lazy set that only grew by a known peer that is not eager. -/
theorem Healthy.withLazy {lazy : IndexSet N} (known : peer ∈ self.known)
    (notEager : peer ∉ self.eager) (grown : ∀ other ∈ lazy, other = peer ∨ other ∈ self.lazy)
    (limited : lazy.size ≤ self.fanout.maxLazy) : ({ self with lazy } : Overlay N).Healthy := by
  have held := healthy.wellFormed
  refine ⟨healthy.sound, healthy.resolved, WellFormed.of ?_ held.eagerKnown ?_ held.lockedEager
    held.foreign.2.2.1 limited⟩
  · intro other eager isLazy
    rcases grown other isLazy with rfl | before
    · exact notEager eager
    · exact held.disjoint other eager before
  · intro other isLazy
    rcases grown other isLazy with rfl | before
    · exact known
    · exact held.lazyKnown other before

/-- With room for one lazy peer at least there is always one to evict. -/
theorem insertIntoLazy_ok (known : peer ∈ self.known) (notEager : peer ∉ self.eager) :
    ∃ after, self.insertIntoLazy (I := I) dice peer = .ok after ∧ after.1.Healthy := by
  have limited := healthy.wellFormed.limited
  have room := healthy.fanout_sound.room
  unfold insertIntoLazy
  split
  · exact ⟨_, rfl, healthy⟩
  split
  case isTrue free =>
    refine ⟨_, rfl, healthy.withLazy known notEager (fun other => mem_insert.mp) ?_⟩
    exact (self.lazy.size_insert_le peer).trans free
  case isFalse full =>
    rw [if_neg (by omega)]
    have inside : dice.index self.lazy.size < self.lazy.items.length := dice.index_lt (by omega)
    rw [getElem?_eq_getElem inside]
    refine ⟨_, rfl, healthy.withLazy known notEager ?_ ?_⟩
    · intro other listed
      rcases mem_insert.mp listed with same | before
      · exact .inl same
      · exact .inr (mem_remove.mp before).2
    · have evicted : self.lazy.items[dice.index self.lazy.size] ∈ self.lazy := getElem_mem inside
      have smaller := IndexSet.size_remove_of_mem evicted
      have larger := (self.lazy.remove self.lazy.items[dice.index self.lazy.size]).size_insert_le peer
      omega

theorem moveToLazy_ok (peer : N) : ∃ after, self.moveToLazy (I := I) dice peer = .ok after ∧ after.1.Healthy := by
  have held := healthy.wellFormed
  unfold moveToLazy
  split
  · exact ⟨_, rfl, healthy⟩
  case isFalse unlocked =>
  split
  · exact ⟨_, rfl, healthy⟩
  case isFalse moves =>
    obtain ⟨-, known⟩ : peer ∉ self.lazy ∧ peer ∈ self.known := by tauto
    have dropped : ({ self with eager := self.eager.remove peer } : Overlay N).Healthy := by
      refine ⟨healthy.sound, healthy.resolved, WellFormed.of ?_ ?_ held.lazyKnown ?_ held.foreign.2.2.1 held.limited⟩
      · intro other eager
        exact held.disjoint other (mem_remove.mp eager).2
      · intro other eager
        exact held.eagerKnown other (mem_remove.mp eager).2
      · intro other locked
        have different : other ≠ peer := fun same => unlocked (same ▸ locked)
        exact mem_remove.mpr ⟨different, held.lockedEager other locked⟩
    have gone : peer ∉ self.eager.remove peer := fun eager => (mem_remove.mp eager).1 rfl
    apply bind_returns (insertIntoLazy_ok dropped known gone)
    rintro ⟨after, _⟩ healthyAfter
    exact ⟨_, rfl, healthyAfter⟩

theorem ensureInLazy_ok (peer : N) : ∃ after, self.ensureInLazy (I := I) dice peer = .ok after ∧ after.1.Healthy := by
  unfold ensureInLazy
  split
  · exact ⟨_, rfl, healthy⟩
  case isFalse moves =>
    have places : peer ∉ self.eager ∧ peer ∉ self.lazy ∧ peer ∈ self.known := by tauto
    exact insertIntoLazy_ok healthy places.2.2 places.1

end

/-- Only the lazy set changes. -/
theorem insertIntoLazy_frame {after : Overlay N × List (Notification N I)}
    (ok : self.insertIntoLazy dice peer = .ok after) : ∃ lazy, after.1 = { self with lazy } := by
  unfold insertIntoLazy at ok
  by_cases held : peer ∈ self.lazy
  · rw [if_pos held] at ok
    cases ok
    exact ⟨_, rfl⟩
  rw [if_neg held] at ok
  by_cases free : self.lazy.size < self.fanout.maxLazy
  · rw [if_pos free] at ok
    cases ok
    exact ⟨_, rfl⟩
  rw [if_neg free] at ok
  by_cases nobody : self.lazy.size = 0
  · rw [if_pos nobody] at ok
    cases ok
  rw [if_neg nobody] at ok
  cases drawn : self.lazy.items[dice.index self.lazy.size]? with
  | none | some evicted =>
    rw [drawn] at ok
    cases ok
    exact ⟨_, rfl⟩

theorem ensureInLazy_frame {after : Overlay N × List (Notification N I)}
    (ok : self.ensureInLazy dice peer = .ok after) : ∃ lazy, after.1 = { self with lazy } := by
  rcases ite_eq_iff.mp ok with ⟨-, ok⟩ | ⟨-, ok⟩
  · cases ok
    exact ⟨_, rfl⟩
  · exact insertIntoLazy_frame ok

/-! ### Membership -/

/-- Peers other than the node itself were added; nothing else that matters changed. -/
structure Joined (before after : Overlay N) : Prop where
  eager : after.eager = before.eager
  lazy : after.lazy = before.lazy
  ringLocked : after.ringLocked = before.ringLocked
  known : ∀ peer ∈ before.known, peer ∈ after.known
  foreign : before.localId ∉ before.known → before.localId ∉ after.known
  localId : after.localId = before.localId
  config : after.config = before.config
  fanout : after.fanout = before.fanout

omit [LinearOrder N] in
theorem Joined.refl (overlay : Overlay N) : Joined overlay overlay := ⟨rfl, rfl, rfl, fun _ => id, id, rfl, rfl, rfl⟩

omit [LinearOrder N] in
theorem Joined.trans (first : Joined a b) (second : Joined b c) : Joined a c where
  eager := second.eager.trans first.eager
  lazy := second.lazy.trans first.lazy
  ringLocked := second.ringLocked.trans first.ringLocked
  known peer held := second.known peer (first.known peer held)
  foreign unknown := first.localId ▸ second.foreign (first.localId ▸ first.foreign unknown)
  localId := second.localId.trans first.localId
  config := second.config.trans first.config
  fanout := second.fanout.trans first.fanout

theorem joined_commitTopology (foreign : peer ≠ self.localId) (info : RttInfo) :
    Joined self (self.commitTopology peer info) where
  eager := rfl
  lazy := rfl
  ringLocked := rfl
  known _ held := mem_insert.mpr (.inr held)
  foreign unknown held := (mem_insert.mp held).elim (fun same => foreign same.symm) unknown
  localId := rfl
  config := rfl
  fanout := rfl

variable {after : Overlay N}

omit [LinearOrder N] in
theorem Joined.wellFormed (joined : Joined self after) (held : self.WellFormed) : after.WellFormed := by
  obtain ⟨eager, lazy, locked, known, foreign, same, -, fanout⟩ := joined
  apply WellFormed.of
  · rw [eager, lazy]
    exact held.disjoint
  · rw [eager]
    exact fun peer isEager => known peer (held.eagerKnown peer isEager)
  · rw [lazy]
    exact fun peer isLazy => known peer (held.lazyKnown peer isLazy)
  · rw [locked, eager]
    exact held.lockedEager
  · rw [same]
    exact foreign held.foreign.2.2.1
  · rw [lazy, fanout]
    exact held.limited

omit [LinearOrder N] in
theorem Joined.healthy (joined : Joined self after) (healthy : self.Healthy) : after.Healthy where
  sound := joined.config ▸ healthy.sound
  resolved := by
    rw [joined.config, joined.fanout]
    exact healthy.resolved
  wellFormed := joined.wellFormed healthy.wellFormed

/-- The peers a bulk addition brings. -/
def joining (self : Overlay N) (peers : List (N × RttInfo)) : List N :=
  (peers.map Prod.fst).filter fun peer => decide (peer ≠ self.localId)

theorem commitAll_cons (first : N × RttInfo) (rest : List (N × RttInfo)) : self.commitAll (first :: rest) =
      (if first.1 = self.localId then self else self.commitTopology first.1 first.2).commitAll rest := rfl

theorem joined_commitAll (peers : List (N × RttInfo)) : Joined self (self.commitAll peers) := by
  induction peers generalizing self with
  | nil => exact Joined.refl self
  | cons first _ ih =>
    rw [commitAll_cons]
    split
    · exact ih
    case isFalse foreign => exact (joined_commitTopology foreign first.2).trans ih

theorem known_commitAll (peers : List (N × RttInfo)) :
    (self.commitAll peers).known = self.known.extend (self.joining peers) := by
  induction peers generalizing self with
  | nil => rfl
  | cons first _ ih =>
    rw [commitAll_cons]
    by_cases own : first.1 = self.localId
    · rw [if_pos own, ih]
      simp [joining, own]
    · rw [if_neg own, ih, joining, joining, map_cons, filter_cons_of_pos (by simpa using own)]
      rfl

theorem RingRoom.of_joined {known : IndexSet N} (joined : Joined self after) (room : self.RingRoom known) :
    after.RingRoom known := by
  unfold RingRoom
  rw [joined.config, joined.localId]
  exact room

theorem addPeersBulkWithRtt_ok (healthy : self.Healthy)
    (room : (self.known.extend (self.joining peers)).size = 0 ∨
      self.RingRoom (self.known.extend (self.joining peers))) :
    ∃ after, self.addPeersBulkWithRtt (I := I) build dice peers = .ok after ∧ after.1.Healthy := by
  have joined := @joined_commitAll N _ self peers
  have held := joined.healthy healthy
  have roomJoined :
    (self.commitAll peers).known.size = 0 ∨ (self.commitAll peers).RingRoom (self.commitAll peers).known := by
    rw [known_commitAll]
    exact room.imp id (RingRoom.of_joined joined)
  apply bind_returns (maybeRecomputeFanout_ok held.sound)
  rintro ⟨_, _⟩ rfl
  apply bind_returns (@rebalance_healthy N _ build dice (self.commitAll peers).refit held.sound
    (currentFanout_resolved held.resolved) held.wellFormed.foreign.2.2.1 roomJoined)
  intro _ healthyAfter
  exact ⟨_, rfl, healthyAfter⟩

omit [LinearOrder N] in
/-- A recomputed fanout that still has room for the lazy peers. -/
theorem Healthy.refit (healthy : self.Healthy) (fits : self.lazy.size ≤ self.currentFanout.maxLazy) :
    self.refit.Healthy := by
  have held := healthy.wellFormed
  exact ⟨healthy.sound, currentFanout_resolved healthy.resolved,
    WellFormed.of held.disjoint held.eagerKnown held.lazyKnown held.lockedEager held.foreign.2.2.1 fits⟩

/-- The lazy peers fit the targets of a cluster size, where the fanout follows it. -/
def LazyRoom (self : Overlay N) (known : Nat) : Prop :=
  self.config.numEager = none → self.lazy.size ≤ (self.config.targets known).maxLazy

omit [LinearOrder N] in
theorem LazyRoom.fits {size : Nat} (room : self.LazyRoom size) (same : self.known.size = size)
    (limited : self.lazy.size ≤ self.fanout.maxLazy) : self.lazy.size ≤ self.currentFanout.maxLazy := by
  unfold currentFanout
  split
  · exact limited
  case isFalse unset =>
    rw [same]
    exact room (by simpa using unset)

theorem placePeer_ok (healthy : self.Healthy) (known : peer ∈ self.known) (notEager : peer ∉ self.eager) :
    ∃ after, self.placePeer (I := I) dice peer = .ok after ∧ after.1.Healthy := by
  unfold placePeer
  split
  · exact ⟨_, rfl, moveToEager_healthy healthy peer⟩
  · exact insertIntoLazy_ok healthy known notEager

omit [LinearOrder N] in
theorem Healthy.flag (healthy : self.Healthy) (due : Bool) :
    ({ self with needsRebalance := due } : Overlay N).Healthy := by
  have held := healthy.wellFormed
  exact ⟨healthy.sound, healthy.resolved,
    WellFormed.of held.disjoint held.eagerKnown held.lazyKnown held.lockedEager held.foreign.2.2.1 held.limited⟩

theorem peerUp_ok (healthy : self.Healthy)
    (room : peer = self.localId ∨ peer ∈ self.known ∨ self.LazyRoom (self.known.size + 1)) :
    ∃ after, self.peerUp (I := I) build dice peer rtt = .ok after ∧ after.1.Healthy := by
  unfold peerUp
  split
  · exact ⟨_, rfl, healthy⟩
  case isFalse new =>
    obtain ⟨foreign, unknown⟩ : peer ≠ self.localId ∧ peer ∉ self.known := by tauto
    have held := (joined_commitTopology foreign (rtt.getD RttInfo.default)).healthy healthy
    have size := IndexSet.size_insert_of_not_mem unknown
    have lazies : self.LazyRoom (self.known.size + 1) := by tauto
    have fits :=
      @LazyRoom.fits N (self.commitTopology peer (rtt.getD RttInfo.default)) _ lazies size held.wellFormed.limited
    apply bind_returns (maybeRecomputeFanout_ok held.sound)
    rintro ⟨_, _⟩ rfl
    apply bind_returns (placePeer_ok (held.refit fits) (mem_insert.mpr (.inl rfl))
      (fun eager => unknown (healthy.wellFormed.eagerKnown peer eager)))
    rintro ⟨_, _⟩ healthyAfter
    exact ⟨_, rfl, healthyAfter.flag true⟩

/-- One update adds its peer or leaves the peers alone; a peer without an entry is added. -/
theorem updateTopology_cases (peer : N) (info : RttInfo) :
    (self.updateTopology peer info = (self.commitTopology peer info, true)) ∨ self.peerTopology.get? peer ≠ none ∧
        ∃ peerTopology pendingTopology, (self.updateTopology peer info).1 =
            { self with peerTopology, pendingTopology } ∧
          ∀ other, other ≠ peer → peerTopology.get? other = self.peerTopology.get? other ∧
            pendingTopology.get? other = self.pendingTopology.get? other := by
  unfold updateTopology
  cases held : self.peerTopology.get? peer with
  | none => exact .inl rfl
  | some _ =>
    dsimp only
    split
    · refine .inr ⟨by simp, _, _, rfl, fun other different => ?_⟩
      rw [IndexMap.get?_upsert, if_neg different, IndexMap.get?_shiftRemove, if_neg different]
      exact ⟨rfl, rfl⟩
    split
    · refine .inr ⟨by simp, _, _, rfl, fun other different => ⟨rfl, ?_⟩⟩
      rw [IndexMap.get?_shiftRemove, if_neg different]
    split
    · exact .inl rfl
    · refine .inr ⟨by simp, _, _, rfl, fun other different => ⟨rfl, ?_⟩⟩
      rw [IndexMap.get?_upsert, if_neg different]

theorem joined_updateTopology (foreign : peer ≠ self.localId) (info : RttInfo) :
    Joined self (self.updateTopology peer info).1 := by
  rcases @updateTopology_cases N _ self peer info with committed | ⟨-, topology, pending, same, -⟩
  · rw [committed]
    exact joined_commitTopology foreign info
  · rw [same]
    exact ⟨rfl, rfl, rfl, fun _ => id, id, rfl, rfl, rfl⟩

theorem known_updateTopology (unchanged : (self.updateTopology peer info).2 = false) :
    (self.updateTopology peer info).1.known = self.known := by
  rcases @updateTopology_cases N _ self peer info with committed | ⟨-, topology, pending, same, -⟩
  · rw [committed] at unchanged
    cases unchanged
  · rw [same]

variable {updates : List (N × RttInfo)}

/-- A round of updates changes what is known of the peers and forgets none. -/
theorem updateTopologies_frame (self : Overlay N) (updates : List (N × RttInfo)) : ∃ known peerTopology pendingTopology,
      (self.updateTopologies updates).1 = { self with known, peerTopology, pendingTopology } ∧
        ∀ peer ∈ self.known, peer ∈ known := by
  induction updates generalizing self with
  | nil => exact ⟨_, _, _, rfl, fun _ => id⟩
  | cons first _ ih =>
    obtain ⟨known, topology, pending, whole, kept⟩ := ih (self.updateTopology first.1 first.2).1
    refine ⟨known, topology, pending, whole.trans ?_, fun peer held => kept peer ?_⟩
    all_goals rcases @updateTopology_cases N _ self first.1 first.2 with committed | ⟨-, _, _, same, -⟩
    · rw [committed]
      rfl
    · rw [same]
    · rw [committed]
      exact mem_insert.mpr (.inr held)
    · rw [same]
      exact held

theorem joined_updateTopologies (foreign : ∀ entry ∈ updates, entry.1 ≠ self.localId) :
    Joined self (self.updateTopologies updates).1 := by
  induction updates generalizing self with
  | nil => exact Joined.refl self
  | cons first _ ih =>
    obtain ⟨own, others⟩ := forall_mem_cons.mp foreign
    have joined := joined_updateTopology own first.2
    exact joined.trans (ih (joined.localId.symm ▸ others))

/-- A new peer changes the topology. -/
theorem known_updateTopologies (unchanged : (self.updateTopologies updates).2 = false) :
    (self.updateTopologies updates).1.known = self.known := by
  induction updates generalizing self with
  | nil => rfl
  | cons _ _ ih =>
    obtain ⟨here, later⟩ := Bool.or_eq_false_iff.mp unchanged
    exact (ih later).trans (known_updateTopology here)

/-- The peers that a round of updates is the first to name. -/
def announced (self : Overlay N) (updates : List (N × RttInfo)) : List N :=
  (updates.map Prod.fst).filter fun peer => decide (self.peerTopology.get? peer = none)

/-- An update of one peer is nothing to another. -/
theorem updateTopology_other (info : RttInfo) (different : other ≠ peer) :
    (self.updateTopology peer info).1.peerTopology.get? other = self.peerTopology.get? other ∧
      (self.updateTopology peer info).1.pendingTopology.get? other = self.pendingTopology.get? other ∧
      (other ∈ (self.updateTopology peer info).1.known ↔ other ∈ self.known) := by
  rcases @updateTopology_cases N _ self peer info with committed | ⟨-, topology, pending, same, others⟩
  · rw [committed, commitTopology, IndexMap.get?_upsert, if_neg different, IndexMap.get?_shiftRemove, if_neg different,
      mem_insert, or_iff_right different]
    exact ⟨rfl, rfl, Iff.rfl⟩
  · rw [same]
    exact ⟨(others other different).1, (others other different).2, Iff.rfl⟩

theorem new_updateTopology (new : self.peerTopology.get? peer = none) :
    peer ∈ (self.updateTopology peer info).1.known := by
  rcases @updateTopology_cases N _ self peer info with committed | ⟨held, -⟩
  · rw [committed]
    exact mem_insert.mpr (.inl rfl)
  · exact absurd new held

theorem announced_known (foreign : ∀ entry ∈ updates, entry.1 ≠ self.localId) :
    ∀ peer ∈ self.announced updates, peer ∈ (self.updateTopologies updates).1.known := by
  induction updates generalizing self with
  | nil =>
    intro peer listed
    cases listed
  | cons first _ ih =>
    obtain ⟨own, others⟩ := forall_mem_cons.mp foreign
    have joined := joined_updateTopology own first.2
    have othersAfter := joined.localId.symm ▸ others
    intro peer listed
    obtain ⟨named, new⟩ := mem_filter.mp listed
    rw [decide_eq_true_eq] at new
    by_cases here : peer = first.1
    · subst here
      exact (joined_updateTopologies othersAfter).known first.1 (new_updateTopology new)
    · apply ih othersAfter
      have later := (mem_cons.mp named).resolve_left here
      exact mem_filter.mpr ⟨later, by rw [decide_eq_true_eq, (updateTopology_other first.2 here).1, new]⟩

/-- More peers never take the room away. -/
theorem RingRoom.mono {known larger : IndexSet N} (room : self.RingRoom known)
    (within : ∀ peer ∈ known, peer ∈ larger) : self.RingRoom larger := by
  have subperm : known.items.Subperm larger.items := subperm_of_subset known.nodup within
  have before := subperm.countP_le fun peer => decide (peer < self.localId)
  have sizes : known.size ≤ larger.size := subperm.length_le
  unfold RingRoom at room ⊢
  omega

omit [LinearOrder N] in
theorem recomputeUnlessCount_ok (sound : self.config.Sound) (count : Nat) :
    ∃ after, self.recomputeUnlessCount build count = .ok after ∧
      (self.known.size ≠ count ∧ after.1 = self.refit ∨ after.1 = self) := by
  unfold recomputeUnlessCount
  split
  case isTrue _ => exact ⟨_, rfl, .inr rfl⟩
  case isFalse different =>
    obtain ⟨after, ok, same⟩ := @maybeRecomputeFanout_ok N build self sound
    exact ⟨after, ok, .inl ⟨different, same⟩⟩

theorem rebalanceIfDue_ok (sound : self.config.Sound) (resolved : ∃ known, self.fanout = self.config.targets known)
    (foreign : self.localId ∉ self.known) {changed : Bool}
    (room : self.needsRebalance ∨ changed → self.known.size = 0 ∨ self.RingRoom self.known)
    (idle : changed = false → self.WellFormed) :
    ∃ after, self.rebalanceIfDue (I := I) build dice changed = .ok after ∧ after.1.Healthy := by
  unfold rebalanceIfDue
  split
  case isTrue due =>
    apply bind_returns (rebalance_healthy sound resolved foreign (room due))
    intro _ healthy
    exact ⟨_, rfl, healthy.flag false⟩
  case isFalse kept =>
    have unchanged : changed = false := by simp_all
    exact ⟨_, rfl, sound, resolved, idle unchanged⟩

/-- What a round of updates needs: it does not name the node itself, and the ring has room
if anything may be selected anew. -/
structure TopologyRoom (overlay : Overlay N) (updates : List (N × RttInfo)) : Prop where
  foreign : ∀ entry ∈ updates, entry.1 ≠ overlay.localId
  room : updates = [] ∧ (overlay.needsRebalance = false ∨ overlay.known.size = 0) ∨
    overlay.RingRoom (overlay.known.extend (overlay.announced updates))

theorem updatePeerTopology_ok (healthy : self.Healthy) (room : self.TopologyRoom updates) :
    ∃ after, self.updatePeerTopology (I := I) build dice updates = .ok after ∧ after.1.Healthy := by
  have joined := joined_updateTopologies room.foreign
  have held := joined.healthy healthy
  have foreign := held.wellFormed.foreign.2.2.1
  have ringRoom : (self.updateTopologies updates).1.needsRebalance ∨ (self.updateTopologies updates).2 →
      (self.updateTopologies updates).1.known.size = 0 ∨
        (self.updateTopologies updates).1.RingRoom (self.updateTopologies updates).1.known := by
    intro due
    rcases room.room with ⟨rfl, quiet⟩ | enough
    · left
      rcases quiet with calm | nobody
      · simp [updateTopologies, calm] at due
      · exact nobody
    · right
      apply (RingRoom.of_joined joined enough).mono
      intro peer known
      rcases IndexSet.mem_extend.mp known with before | new
      · exact joined.known peer before
      · exact announced_known room.foreign peer new
  apply bind_returns (recomputeUnlessCount_ok held.sound self.known.size)
  rintro ⟨_, _⟩ (⟨different, same⟩ | same)
  · cases same
    apply @rebalanceIfDue_ok N I _ build dice (self.updateTopologies updates).1.refit held.sound
      (currentFanout_resolved held.resolved) foreign _ ringRoom
    intro unchanged
    -- Another number of peers means that one was added, which changes the topology.
    exact absurd (congrArg IndexSet.size (known_updateTopologies unchanged)) different
  · cases same
    exact rebalanceIfDue_ok held.sound held.resolved foreign ringRoom fun _ => held.wellFormed

/-- The node without one peer. -/
theorem Healthy.without (healthy : self.Healthy) (peer : N) :
    ({ self with
      eager := self.eager.remove peer
      lazy := self.lazy.remove peer
      known := self.known.remove peer
      ringLocked := self.ringLocked.remove peer
      pendingTopology := self.pendingTopology.shiftRemove peer } : Overlay N).Healthy := by
  have held := healthy.wellFormed
  refine ⟨healthy.sound, healthy.resolved, WellFormed.of ?_ ?_ ?_ ?_ ?_ ?_⟩
  · intro other eager lazy
    exact held.disjoint other (mem_remove.mp eager).2 (mem_remove.mp lazy).2
  · intro other eager
    obtain ⟨different, eager⟩ := mem_remove.mp eager
    exact mem_remove.mpr ⟨different, held.eagerKnown other eager⟩
  · intro other lazy
    obtain ⟨different, lazy⟩ := mem_remove.mp lazy
    exact mem_remove.mpr ⟨different, held.lazyKnown other lazy⟩
  · intro other locked
    obtain ⟨different, locked⟩ := mem_remove.mp locked
    exact mem_remove.mpr ⟨different, held.lockedEager other locked⟩
  · intro known
    exact held.foreign.2.2.1 (mem_remove.mp known).2
  · exact (self.lazy.size_remove_le peer).trans held.limited

theorem peerDown_ok (healthy : self.Healthy)
    (room : peer ∈ self.eager ∨ peer ∈ self.lazy ∨ self.LazyRoom (self.known.remove peer).size) :
    ∃ after, self.peerDown build peer = .ok after ∧ after.Healthy := by
  have held := healthy.without peer
  unfold peerDown
  split
  · exact ⟨_, rfl, held.flag true⟩
  case isFalse neither =>
    have lazies : self.LazyRoom (self.known.remove peer).size := by tauto
    have fits := fun unset => (self.lazy.size_remove_le peer).trans (lazies unset)
    apply bind_returns (maybeRecomputeFanout_ok held.sound)
    rintro ⟨_, _⟩ rfl
    exact ⟨_, rfl, (held.refit (LazyRoom.fits fits rfl held.wellFormed.limited)).flag _⟩

end Overlay
end Galvanize.Plumtree
