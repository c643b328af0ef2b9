import Mathlib.Tactic.Common
import Galvanize.Overlay
import Galvanize.Runs

/-! What `set_ring_neighbors` locks, and when it returns. -/
namespace Galvanize.Plumtree
open List

theorem fit_ok {build : Build} {max value : Nat} (fits : value ≤ max) : build.fit max value = .ok value := by
  cases build with
  | dev => exact if_pos fits
  | release => exact congrArg Except.ok (Nat.mod_eq_of_lt (Nat.lt_succ_of_le fits))

theorem fit_returns_iff {build : Build} {max value : Nat} :
    (∃ fitted, build.fit max value = .ok fitted) ↔ (build = .dev → value ≤ max) := by
  constructor
  · rintro ⟨_, ok⟩ rfl
    by_contra large
    cases ok.symm.trans (if_neg large)
  · intro fits
    cases build with
    | dev => exact ⟨_, if_pos (fits rfl)⟩
    | release => exact ⟨_, rfl⟩

theorem sub_dev_ok_iff : (∃ value, Build.dev.sub left right = .ok value) ↔ right ≤ left := by
  unfold Build.sub
  by_cases fits : right ≤ left <;> simp [fits]

/-- A difference that does not go below zero is the same in both builds. -/
theorem sub_ok {build : Build} (fits : right ≤ left) : build.sub left right = .ok (left - right) := by
  cases build with
  | dev => exact if_pos fits
  | release => exact congrArg Except.ok (if_pos fits)

/-- An element of a sorted list stands after the smaller ones. -/
theorem idxOf_eq_countP_lt [LinearOrder α] {items : List α} (sorted : items.Pairwise (· ≤ ·)) (listed : item ∈ items) :
    items.idxOf item = items.countP fun other => decide (other < item) := by
  induction items with
  | nil => cases listed
  | cons first rest ih =>
    obtain ⟨least, later⟩ := pairwise_cons.mp sorted
    by_cases here : first = item
    · subst here
      have none : rest.countP (fun other => decide (other < first)) = 0 := by
        apply countP_eq_zero.mpr
        intro other member
        simpa using least other member
      rw [idxOf_cons_self, countP_cons, none]
      simp
    · have after := (mem_cons.mp listed).resolve_left (Ne.symm here)
      have smaller := lt_of_le_of_ne (least item after) here
      rw [idxOf_cons_ne _ here, ih later after, countP_cons_of_pos (by simpa using smaller)]

namespace Overlay
variable {N : Type} [LinearOrder N] {build : Build} {self : Overlay N}

theorem ring_perm : self.ring.Perm (self.known.items ++ [self.localId]) := List.perm_insertionSort _ _

variable {peer : N}

theorem mem_ring : peer ∈ self.ring ↔ peer ∈ self.known ∨ peer = self.localId := by
  rw [ring_perm.mem_iff, mem_append, mem_singleton]
  rfl

theorem length_ring : self.ring.length = self.known.size + 1 := by
  rw [ring_perm.length_eq, length_append, length_singleton]
  rfl

theorem local_mem_ring : self.localId ∈ self.ring := mem_ring.mpr (.inr rfl)

theorem position_lt : self.position < self.ring.length := List.idxOf_lt_length_of_mem local_mem_ring

theorem ringAt_mem (place : Nat) : self.ringAt place ∈ self.ring := by
  have inside : place % self.ring.length < self.ring.length := Nat.mod_lt _ (by rw [length_ring]; omega)
  unfold ringAt
  rw [getElem?_eq_getElem inside, Option.getD_some]
  exact getElem_mem inside

/-- A peer at one distance, on either side. -/
def Neighbor (build : Build) (self : Overlay N) (distance : Nat) (peer : N) : Prop :=
  peer ≠ self.localId ∧
    (peer = self.ringAt (self.position + distance) ∨
      ∃ back, build.sub (self.position + self.ring.length) distance = .ok back ∧ peer = self.ringAt back)

variable {distance : Nat}

theorem Neighbor.known (near : Neighbor build self distance peer) : peer ∈ self.known := by
  obtain ⟨foreign, rfl | ⟨_, -, rfl⟩⟩ := near
  · exact (mem_ring.mp (ringAt_mem _)).resolve_right foreign
  · exact (mem_ring.mp (ringAt_mem _)).resolve_right foreign

theorem mem_lockUnlessLocal :
    other ∈ self.lockUnlessLocal locked peer ↔ other ∈ locked ∨ (other ≠ self.localId ∧ other = peer) := by
  unfold lockUnlessLocal
  by_cases own : peer = self.localId
  · rw [if_pos own, own]
    tauto
  · rw [if_neg own, IndexSet.mem_insert]
    constructor
    · rintro (rfl | held)
      · exact .inr ⟨own, rfl⟩
      · exact .inl held
    · rintro (held | ⟨-, rfl⟩)
      · exact .inr held
      · exact .inl rfl

theorem mem_lockNeighbors {next : IndexSet N} (ok : lockNeighbors build self locked distance = .ok next)
    (peer : N) : peer ∈ next ↔ peer ∈ locked ∨ Neighbor build self distance peer := by
  obtain ⟨_, isBack, same⟩ := bind_ok ok
  cases same
  rw [mem_lockUnlessLocal, mem_lockUnlessLocal]
  simp only [Neighbor, isBack, Except.ok.injEq, exists_eq_left']
  tauto

theorem lockNeighbors_ok_iff : (∃ next, lockNeighbors build self locked distance = .ok next) ↔
      ∃ back, build.sub (self.position + self.ring.length) distance = .ok back := by
  constructor
  · rintro ⟨next, ok⟩
    obtain ⟨back, isBack, -⟩ := bind_ok ok
    exact ⟨back, isBack⟩
  · rintro ⟨back, isBack⟩
    exact ⟨_, bind_ok_iff.mpr ⟨back, isBack, rfl⟩⟩

theorem foldlM_lockNeighbors_ok_iff {distances : List Nat} :
    (∃ next, distances.foldlM (lockNeighbors build self) locked = .ok next) ↔
      ∀ distance ∈ distances, ∃ back, build.sub (self.position + self.ring.length) distance = .ok back := by
  constructor
  · rintro ⟨next, ok⟩
    induction distances generalizing locked with
    | nil => simp
    | cons _ _ ih =>
      obtain ⟨middle, turn, later⟩ := foldlM_cons_ok ok
      rw [forall_mem_cons]
      exact ⟨lockNeighbors_ok_iff.mp ⟨middle, turn⟩, ih later⟩
  · intro each
    exact foldlM_ok fun distance listed held => lockNeighbors_ok_iff.mpr (each distance listed)

/-- The peers within the radius, on either side. -/
def WithinRadius (build : Build) (self : Overlay N) (peer : N) : Prop :=
  ∃ distance, 1 ≤ distance ∧ distance ≤ self.config.radius ∧ Neighbor build self distance peer

theorem WithinRadius.known (within : WithinRadius build self peer) : peer ∈ self.known := by
  obtain ⟨_, -, -, near⟩ := within
  exact near.known

/-- With one peer at least, exactly the peers within the radius are locked, and nothing
else changes. -/
theorem setRingNeighbors_ok {after : Overlay N} (some : self.known.size ≠ 0)
    (ok : self.setRingNeighbors build = .ok after) :
    ∃ locked, after = { self with ringLocked := locked } ∧ ∀ peer, peer ∈ locked ↔ WithinRadius build self peer := by
  have long : ¬self.ring.length ≤ 1 := by rw [length_ring]; omega
  rw [setRingNeighbors, if_neg long] at ok
  obtain ⟨locked, walked, same⟩ := bind_ok ok
  cases same
  refine ⟨locked, rfl, fun peer => ?_⟩
  have adds := foldlM_adds _ _ (fun distance _ _ _ turn => mem_lockNeighbors turn) walked peer
  rw [adds]
  simp only [IndexSet.not_mem_empty, false_or, mem_range'_1, WithinRadius]
  constructor
  · rintro ⟨distance, ⟨least, most⟩, near⟩
    exact ⟨distance, least, by omega, near⟩
  · rintro ⟨distance, least, most, near⟩
    exact ⟨distance, ⟨least, by omega⟩, near⟩

theorem radius_pos {config : Config} : 1 ≤ config.radius := Nat.le_max_right _ _

/-- A development build returns if the radius does not reach back beyond the start. -/
theorem setRingNeighbors_dev_iff (some : self.known.size ≠ 0) :
    (∃ after, self.setRingNeighbors .dev = .ok after) ↔ self.config.radius ≤ self.position + self.ring.length := by
  have long : ¬self.ring.length ≤ 1 := by rw [length_ring]; omega
  rw [setRingNeighbors, if_neg long]
  have walks : (∃ after, (range' 1 self.config.radius).foldlM (lockNeighbors .dev self) ∅ = .ok after) ↔
      self.config.radius ≤ self.position + self.ring.length := by
    rw [foldlM_lockNeighbors_ok_iff]
    simp only [sub_dev_ok_iff, mem_range'_1]
    constructor
    · intro each
      have positive := @radius_pos self.config
      exact each self.config.radius ⟨positive, by omega⟩
    · rintro fits distance ⟨-, _⟩
      omega
  rw [← walks]
  constructor
  · rintro ⟨after, ok⟩
    obtain ⟨locked, walked, -⟩ := bind_ok ok
    exact ⟨locked, walked⟩
  · rintro ⟨locked, walked⟩
    exact ⟨_, bind_ok_iff.mpr ⟨locked, walked, rfl⟩⟩

/-- A release build always returns. -/
theorem setRingNeighbors_release : ∃ after, self.setRingNeighbors .release = .ok after := by
  unfold setRingNeighbors
  split
  · exact ⟨_, rfl⟩
  · apply ok_bind
    · apply foldlM_lockNeighbors_ok_iff.mpr
      intro _ _
      exact ⟨_, rfl⟩
    · intro _
      exact ⟨_, rfl⟩

/-- The place of the node on the ring is the number of peers before it. -/
theorem position_eq : self.position = self.known.items.countP fun peer => decide (peer < self.localId) := by
  have sorted : self.ring.Pairwise (· ≤ ·) := pairwise_insertionSort _ _
  rw [position, idxOf_eq_countP_lt sorted local_mem_ring, ring_perm.countP_eq, countP_append, countP_singleton]
  simp

end Overlay
end Galvanize.Plumtree
