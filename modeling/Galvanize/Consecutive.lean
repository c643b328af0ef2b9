import Mathlib.Data.List.Basic

/-! Lists of consecutive numbers. Nothing here knows what is numbered. -/
namespace Galvanize
open List

/-- The list counts up by one from `first`. -/
def Consecutive : Nat → List Nat → Prop
  | _, [] => True
  | first, id :: rest => id = first ∧ Consecutive (first + 1) rest

instance : ∀ (first : Nat) (ids : List Nat), Decidable (Consecutive first ids)
  | _, [] => inferInstanceAs (Decidable True)
  | first, id :: rest =>
    have := instDecidableConsecutive (first + 1) rest
    inferInstanceAs (Decidable (id = first ∧ Consecutive (first + 1) rest))

variable {first id since : Nat} {ids more : List Nat}

@[simp] theorem consecutive_nil : Consecutive first [] := trivial

@[simp] theorem consecutive_cons : Consecutive first (id :: ids) ↔ id = first ∧ Consecutive (first + 1) ids :=
  Iff.rfl

theorem consecutive_append :
    Consecutive first (ids ++ more) ↔ Consecutive first ids ∧ Consecutive (first + ids.length) more := by
  induction ids generalizing first with
  | nil => simp
  | cons id rest ih =>
    simp only [cons_append, consecutive_cons, ih, length_cons, and_assoc]
    rw [show first + 1 + rest.length = first + (rest.length + 1) by omega]

theorem Consecutive.mem (consecutive : Consecutive first ids) (listed : id ∈ ids) :
    first ≤ id ∧ id < first + ids.length := by
  induction ids generalizing first with
  | nil => cases listed
  | cons _ _ ih =>
    obtain ⟨rfl, later⟩ := consecutive
    rw [length_cons]
    rcases mem_cons.mp listed with rfl | member
    · omega
    · have bounds := ih later member
      omega

theorem Consecutive.take (consecutive : Consecutive first ids) (count : Nat) : Consecutive first (ids.take count) := by
  rw [← take_append_drop count ids, consecutive_append] at consecutive
  exact consecutive.1

/-- The greatest of consecutive numbers and the one before them. -/
theorem Consecutive.foldl_max (consecutive : Consecutive (since + 1) ids) :
    ids.foldl max since = since + ids.length := by
  induction ids generalizing since with
  | nil => rfl
  | cons _ _ ih =>
    obtain ⟨rfl, later⟩ := consecutive
    rw [foldl_cons, Nat.max_eq_right (Nat.le_succ since), ih later, length_cons]
    omega

/-- What lies above a number that the list begins at or before. -/
theorem Consecutive.filter_above (consecutive : Consecutive first ids) (before : first ≤ since + 1) :
    Consecutive (since + 1) (ids.filter (since < ·)) ∧
      since + (ids.filter (since < ·)).length = max since (first + ids.length - 1) := by
  induction ids generalizing first with
  | nil =>
    simp only [filter_nil, length_nil, consecutive_nil, true_and]
    omega
  | cons head rest ih =>
    obtain ⟨rfl, later⟩ := consecutive
    rw [length_cons]
    by_cases above : since < head
    · have same : head = since + 1 := by omega
      have every : rest.filter (since < ·) = rest := by
        rw [filter_eq_self]
        intro id listed
        have bounds := later.mem listed
        simp only [decide_eq_true_eq]
        omega
      rw [filter_cons_of_pos (by simpa using above), every, length_cons]
      refine ⟨⟨same, same ▸ later⟩, ?_⟩
      omega
    · obtain ⟨kept, length⟩ := ih later (by omega)
      rw [filter_cons_of_neg (by simpa using above)]
      refine ⟨kept, ?_⟩
      omega

end Galvanize
