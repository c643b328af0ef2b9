import Mathlib.Order.Interval.Finset.Nat
import Mathlib.Algebra.Order.Group.Nat

/-! Places on a circle: how far one is ahead of another, and how many lie within a reach. -/
namespace Galvanize.Circle

/-- How many steps forward lead from one place to the other. -/
def ahead (size a b : Nat) : Nat := (b + size - a) % size

/-- Two places within a number of steps of each other, in either direction. -/
def Near (size reach a b : Nat) : Prop := a ≠ b ∧ (ahead size a b ≤ reach ∨ ahead size b a ≤ reach)

instance (size reach a b : Nat) : Decidable (Near size reach a b) := inferInstanceAs (Decidable (_ ∧ _))

variable {size reach a b : Nat}

theorem Near.symm (near : Near size reach a b) : Near size reach b a := ⟨near.1.symm, near.2.symm⟩

theorem ahead_lt (inside : a < size) : ahead size a b < size := Nat.mod_lt _ (Nat.zero_lt_of_lt inside)

section
variable (aInside : a < size) (bInside : b < size)
include aInside bInside

/-- Forward from a place to a later one, or around the start to an earlier one. -/
theorem ahead_eq : ahead size a b = if a ≤ b then b - a else b + size - a := by
  unfold ahead
  split
  · have wraps : b + size - a = b - a + size := by omega
    rw [wraps, Nat.add_mod_right]
    exact Nat.mod_eq_of_lt (by omega)
  · exact Nat.mod_eq_of_lt (by omega)

theorem ahead_pos (different : a ≠ b) : 1 ≤ ahead size a b := by
  rw [ahead_eq aInside bInside]
  split <;> omega

/-- Back and forth make one full turn. -/
theorem ahead_add_ahead (different : a ≠ b) : ahead size a b + ahead size b a = size := by
  rw [ahead_eq aInside bInside, ahead_eq bInside aInside]
  split <;> split <;> omega

/-- Going forward by the distance arrives. -/
theorem add_ahead : (a + ahead size a b) % size = b := by
  rw [ahead_eq aInside bInside]
  split
  · rw [show a + (b - a) = b by omega, Nat.mod_eq_of_lt bInside]
  · rw [show a + (b + size - a) = b + size by omega, Nat.add_mod_right, Nat.mod_eq_of_lt bInside]

end

/-- Less than a full turn leads that far ahead. -/
theorem ahead_add (inside : a < size) (small : steps < size) : ahead size a ((a + steps) % size) = steps := by
  rw [ahead_eq inside (Nat.mod_lt _ (Nat.zero_lt_of_lt inside))]
  by_cases wraps : a + steps < size
  · rw [Nat.mod_eq_of_lt wraps, if_pos (by omega)]
    omega
  · rw [Nat.mod_eq_sub_mod (by omega), Nat.mod_eq_of_lt (by omega), if_neg (by omega)]
    omega

theorem ahead_add_le (inside : a < size) (steps : Nat) : ahead size a ((a + steps) % size) ≤ steps := by
  by_cases small : steps < size
  · exact (ahead_add inside small).le
  · exact (ahead_lt inside).le.trans (Nat.le_of_not_lt small)

/-- Stepping back by a distance shorter than a turn arrives where stepping forward by it
leads back from. -/
theorem back_mod (aInside : a < size) (bInside : b < size) : (a + size - ahead size b a) % size = b := by
  rw [ahead_eq bInside aInside]
  split
  · rw [show a + size - (a - b) = b + size by omega, Nat.add_mod_right, Nat.mod_eq_of_lt bInside]
  · rw [show a + size - (a + size - b) = b by omega, Nat.mod_eq_of_lt bInside]

theorem ahead_back_le (inside : a < size) (fits : distance ≤ a + size) :
    ahead size ((a + size - distance) % size) a ≤ distance := by
  have back : ((a + size - distance) % size + distance) % size = a := by
    rw [Nat.mod_add_mod, Nat.sub_add_cancel fits, Nat.add_mod_right, Nat.mod_eq_of_lt inside]
  have start : (a + size - distance) % size < size := Nat.mod_lt _ (Nat.zero_lt_of_lt inside)
  have most := ahead_add_le start distance
  rwa [back] at most

theorem near_succ (positive : 1 ≤ reach) (inside : a + 1 < size) : Near size reach a (a + 1) := by
  refine ⟨by omega, .inl ?_⟩
  rw [ahead_eq (by omega) inside, if_pos (by omega)]
  omega

/-- Within a reach of half the circle everybody is near; below that, as many on each side
as the reach has steps. -/
theorem card_steps (some : 1 ≤ size) :
    ((Finset.Icc 1 (size - 1)).filter fun steps => steps ≤ reach ∨ size - steps ≤ reach).card = min (2 * reach)
    (size - 1) := by
  by_cases whole : size - 1 ≤ 2 * reach
  · have all : (Finset.Icc 1 (size - 1)).filter (fun steps => steps ≤ reach ∨ size - steps ≤ reach) =
      Finset.Icc 1 (size - 1) := by
      apply Finset.filter_true_of_mem
      intro steps _
      omega
    rw [all, Nat.card_Icc]
    omega
  · have sides : (Finset.Icc 1 (size - 1)).filter (fun steps => steps ≤ reach ∨ size - steps ≤ reach) =
        Finset.Icc 1 reach ∪ Finset.Icc (size - reach) (size - 1) := by
      ext steps
      simp only [Finset.mem_filter, Finset.mem_Icc, Finset.mem_union]
      omega
    have apart : Disjoint (Finset.Icc 1 reach) (Finset.Icc (size - reach) (size - 1)) := by
      rw [Finset.disjoint_left]
      intro steps before after
      have low := Finset.mem_Icc.mp before
      have high := Finset.mem_Icc.mp after
      omega
    rw [sides, Finset.card_union_of_disjoint apart, Nat.card_Icc, Nat.card_Icc]
    omega

theorem card_near (inside : a < size) :
    ((Finset.range size).filter (Near size reach a)).card = min (2 * reach) (size - 1) := by
  rw [← card_steps (by omega : 1 ≤ size)]
  apply Finset.card_bij' (fun b _ => ahead size a b) (fun steps _ => (a + steps) % size)
  · intro b listed
    obtain ⟨ranged, different, near⟩ := Finset.mem_filter.mp listed
    have bInside := Finset.mem_range.mp ranged
    have turn := ahead_add_ahead inside bInside different
    have least := ahead_pos inside bInside different
    have other := ahead_pos bInside inside different.symm
    rw [Finset.mem_filter, Finset.mem_Icc]
    omega
  · intro steps listed
    obtain ⟨ranged, near⟩ := Finset.mem_filter.mp listed
    obtain ⟨least, _⟩ := Finset.mem_Icc.mp ranged
    have bInside : (a + steps) % size < size := Nat.mod_lt _ (Nat.zero_lt_of_lt inside)
    have distance : ahead size a ((a + steps) % size) = steps := ahead_add inside (by omega)
    have different : a ≠ (a + steps) % size := by
      intro same
      rw [← same, ahead_eq inside inside] at distance
      simp only [le_refl, if_true, Nat.sub_self] at distance
      omega
    have turn := ahead_add_ahead inside bInside different
    rw [Finset.mem_filter, Finset.mem_range]
    refine ⟨bInside, different, ?_⟩
    omega
  · intro b listed
    obtain ⟨ranged, -⟩ := Finset.mem_filter.mp listed
    exact add_ahead inside (Finset.mem_range.mp ranged)
  · intro steps listed
    obtain ⟨ranged, -⟩ := Finset.mem_filter.mp listed
    have bounds := Finset.mem_Icc.mp ranged
    exact ahead_add inside (by omega)

end Galvanize.Circle
