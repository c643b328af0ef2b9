import Mathlib.Data.List.Nodup

/-! A set as the list of its elements, without repetitions. The order is the one in
which they came in; what removal does to it is left open by taking the element out
in place. -/
namespace Galvanize

structure IndexSet (α : Type) where
  items : List α
  nodup : items.Nodup
deriving DecidableEq

namespace IndexSet
variable {α : Type}

instance : EmptyCollection (IndexSet α) := ⟨⟨[], List.nodup_nil⟩⟩

instance : Membership α (IndexSet α) := ⟨fun set item => item ∈ set.items⟩

instance [DecidableEq α] (set : IndexSet α) (item : α) : Decidable (item ∈ set) :=
  inferInstanceAs (Decidable (item ∈ set.items))

variable {set : IndexSet α} {item : α}

theorem mem_iff : item ∈ set ↔ item ∈ set.items := Iff.rfl

@[simp] theorem not_mem_empty : item ∉ (∅ : IndexSet α) := List.not_mem_nil

theorem forall_mem_empty {holds : α → Prop} : ∀ item ∈ (∅ : IndexSet α), holds item :=
  fun _ held => absurd held not_mem_empty

@[simp] theorem items_empty : (∅ : IndexSet α).items = [] := rfl

def size (set : IndexSet α) : Nat := set.items.length

@[simp] theorem size_empty : (∅ : IndexSet α).size = 0 := rfl

variable [DecidableEq α]

omit [DecidableEq α] in
theorem nodup_append_singleton {items : List α} (nodup : items.Nodup) (new : item ∉ items) : (items ++ [item]).Nodup :=
  List.Nodup.append nodup (List.nodup_singleton item) (by simpa using new)

def insert (set : IndexSet α) (item : α) : IndexSet α :=
  if held : item ∈ set.items then set else ⟨set.items ++ [item], nodup_append_singleton set.nodup held⟩

@[simp] theorem mem_insert : other ∈ set.insert item ↔ other = item ∨ other ∈ set := by
  unfold insert
  split
  case isTrue held =>
    constructor
    · exact .inr
    · rintro (rfl | listed)
      · exact held
      · exact listed
  case isFalse _ => simp [mem_iff, or_comm]

theorem size_insert_le (set : IndexSet α) (item : α) : (set.insert item).size ≤ set.size + 1 := by
  unfold insert
  split
  case isTrue _ => exact Nat.le_succ _
  case isFalse _ => simp [size]

theorem size_insert_of_not_mem (new : item ∉ set) : (set.insert item).size = set.size + 1 := by
  have absent : item ∉ set.items := new
  simp [insert, absent, size]

def remove (set : IndexSet α) (item : α) : IndexSet α := ⟨set.items.erase item, set.nodup.erase item⟩

@[simp] theorem mem_remove : other ∈ set.remove item ↔ other ≠ item ∧ other ∈ set :=
  set.nodup.mem_erase_iff

theorem size_remove_le (set : IndexSet α) (item : α) : (set.remove item).size ≤ set.size := List.length_erase_le

theorem size_remove_of_mem (held : item ∈ set) : (set.remove item).size + 1 = set.size := by
  have shorter : (set.remove item).size = set.size - 1 := List.length_erase_of_mem held
  have some : 0 < set.size := List.length_pos_of_mem held
  omega

def extend (set : IndexSet α) (items : List α) : IndexSet α := items.foldl insert set

@[simp] theorem mem_extend {items : List α} : other ∈ set.extend items ↔ other ∈ set ∨ other ∈ items := by
  unfold extend
  induction items generalizing set with
  | nil => simp
  | cons _ items ih =>
    rw [List.foldl_cons, ih, mem_insert, List.mem_cons]
    tauto

theorem size_extend_le (set : IndexSet α) (items : List α) : (set.extend items).size ≤ set.size + items.length := by
  unfold extend
  induction items generalizing set with
  | nil => simp
  | cons item items ih =>
    have rest := ih (set.insert item)
    have one := size_insert_le set item
    rw [List.foldl_cons, List.length_cons]
    omega

end IndexSet
end Galvanize
