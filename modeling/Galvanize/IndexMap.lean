import Mathlib.Data.List.Nodup
import Mathlib.Data.List.Induction

/-! A map that remembers the order in which its keys were first inserted. -/
namespace Galvanize
open List

/-- Update the entry of a key in place, or append one. -/
def upsertEntry {κ ν : Type} [DecidableEq κ] (key : κ) (change : Option ν → ν) :
    List (κ × ν) → List (κ × ν)
  | [] => [(key, change none)]
  | (held, value) :: rest =>
    if held = key then (held, change (some value)) :: rest
    else (held, value) :: upsertEntry key change rest

section
variable {κ ν : Type} [DecidableEq κ] {key : κ} {change : Option ν → ν}

variable {entries : List (κ × ν)}

theorem upsertEntry_keys : (upsertEntry key change entries).map Prod.fst =
      if key ∈ entries.map Prod.fst then entries.map Prod.fst else entries.map Prod.fst ++ [key] := by
  induction entries with
  | nil => simp [upsertEntry]
  | cons first rest ih =>
    obtain ⟨held, _⟩ := first
    simp only [upsertEntry]
    by_cases same : held = key
    · simp [same]
    · have different : key ≠ held := fun equal => same equal.symm
      rw [if_neg same, map_cons, ih]
      by_cases later : key ∈ rest.map Prod.fst <;> simp [later, different]

theorem upsertEntry_nodup (distinct : (entries.map Prod.fst).Nodup) :
    ((upsertEntry key change entries).map Prod.fst).Nodup := by
  rw [upsertEntry_keys]
  split
  · exact distinct
  · rename_i missing
    exact List.Nodup.append distinct (nodup_singleton key) (by simpa using missing)

/-- What an update appends to the items under its own key is appended to all of them, if
nothing is under the other keys. -/
theorem flatMap_upsertEntry {β : Type} {items : κ → ν → List β} {extra : List β}
    (distinct : (entries.map Prod.fst).Nodup)
    (own : ∀ held, items key (change held) = (held.map (items key)).getD [] ++ extra)
    (elsewhere : extra = [] ∨ ∀ other, other ≠ key → ∀ value, items other value = []) :
    (upsertEntry key change entries).flatMap (fun entry => items entry.1 entry.2) =
      entries.flatMap (fun entry => items entry.1 entry.2) ++ extra := by
  induction entries with
  | nil => simp [upsertEntry, own]
  | cons first rest ih =>
    obtain ⟨held, value⟩ := first
    obtain ⟨new, distinct⟩ := nodup_cons.mp distinct
    simp only [upsertEntry]
    by_cases same : held = key
    · subst same
      rw [if_pos rfl, flatMap_cons, flatMap_cons, own, Option.map_some, Option.getD_some, append_assoc, append_assoc]
      congr 1
      rcases elsewhere with rfl | nothing
      · rw [append_nil, nil_append]
      · have none : rest.flatMap (fun entry => items entry.1 entry.2) = [] := by
          rw [flatMap_eq_nil_iff]
          intro entry listed
          refine nothing entry.1 (fun equal => new ?_) entry.2
          exact mem_map.mpr ⟨entry, listed, equal⟩
        rw [none, append_nil, nil_append]
    · rw [if_neg same, flatMap_cons, flatMap_cons, ih distinct, append_assoc]

/-- Take the entry of a key out, the last entry filling its place. -/
def swapRemoveEntry {κ ν : Type} [DecidableEq κ] (key : κ) : List (κ × ν) → List (κ × ν)
  | [] => []
  | (held, value) :: rest =>
    if held = key then
      match rest.getLast? with
      | none => []
      | some last => last :: rest.dropLast
    else (held, value) :: swapRemoveEntry key rest

theorem swapRemoveEntry_perm : (swapRemoveEntry key entries).Perm (entries.eraseP (fun entry => entry.1 = key)) := by
  induction entries with
  | nil => exact .refl _
  | cons first rest ih =>
    obtain ⟨held, _⟩ := first
    by_cases same : held = key
    · simp only [swapRemoveEntry, eraseP_cons, same, decide_true, cond_true]
      cases rest using reverseRecOn with
      | nil => exact .refl _
      | append_singleton earlier last =>
        simpa using (perm_append_singleton last earlier).symm
    · simp only [swapRemoveEntry, eraseP_cons, same, decide_false, cond_false]
      exact ih.cons _

theorem swapRemoveEntry_nodup (distinct : (entries.map Prod.fst).Nodup) :
    ((swapRemoveEntry key entries).map Prod.fst).Nodup := by
  have smaller : (entries.eraseP (fun entry => entry.1 = key)).Sublist entries := eraseP_sublist
  exact ((swapRemoveEntry_perm.map Prod.fst).nodup_iff).mpr (distinct.sublist (smaller.map Prod.fst))

theorem mem_swapRemoveEntry (distinct : (entries.map Prod.fst).Nodup) :
    (other, value) ∈ swapRemoveEntry key entries ↔ other ≠ key ∧ (other, value) ∈ entries := by
  rw [swapRemoveEntry_perm.mem_iff]
  induction entries with
  | nil => simp
  | cons first _ ih =>
    obtain ⟨missing, later⟩ := nodup_cons.mp distinct
    obtain ⟨held, _⟩ := first
    by_cases same : held = key
    · subst same
      simp only [eraseP_cons, decide_true, cond_true, mem_cons, Prod.mk.injEq]
      constructor
      · intro listed
        refine ⟨?_, .inr listed⟩
        rintro rfl
        exact missing (mem_map.mpr ⟨_, listed, rfl⟩)
      · rintro ⟨different, ⟨equal, _⟩ | listed⟩
        · exact absurd equal different
        · exact listed
    · simp only [eraseP_cons, same, decide_false, cond_false, mem_cons, Prod.mk.injEq, ih later]
      constructor
      · rintro (⟨rfl, rfl⟩ | ⟨different, listed⟩)
        · exact ⟨same, .inl ⟨rfl, rfl⟩⟩
        · exact ⟨different, .inr listed⟩
      · rintro ⟨different, ⟨rfl, rfl⟩ | listed⟩
        · exact .inl ⟨rfl, rfl⟩
        · exact .inr ⟨different, listed⟩

end

/-- Entries under distinct keys, in insertion order. -/
structure IndexMap (κ ν : Type) where
  entries : List (κ × ν)
  distinct : (entries.map Prod.fst).Nodup
deriving DecidableEq

namespace IndexMap

variable {κ ν : Type}

instance : EmptyCollection (IndexMap κ ν) := ⟨⟨[], by simp⟩⟩

instance : Inhabited (IndexMap κ ν) := ⟨∅⟩

@[simp] theorem entries_empty : (∅ : IndexMap κ ν).entries = [] := rfl

def isEmpty (self : IndexMap κ ν) : Bool := self.entries.isEmpty

variable [DecidableEq κ] (self : IndexMap κ ν)

def containsKey (key : κ) : Bool := self.entries.any (fun entry => entry.1 = key)

/-- `get(key)`. -/
def get? (key : κ) : Option ν := (self.entries.find? (fun entry => entry.1 = key)).map Prod.snd

/-- `swap_remove(key)`: the last entry takes the place of the removed one. -/
def swapRemove (key : κ) : IndexMap κ ν :=
  ⟨swapRemoveEntry key self.entries, swapRemoveEntry_nodup self.distinct⟩

/-- `drain(..count)`: the oldest entries leave. -/
def drainFirst (count : Nat) : IndexMap κ ν :=
  ⟨self.entries.drop count, (self.distinct).sublist ((List.drop_sublist count self.entries).map Prod.fst)⟩

/-- The map without a key, the order of the others kept. -/
def shiftRemove (key : κ) : IndexMap κ ν :=
  ⟨self.entries.filter fun entry => decide (entry.1 ≠ key), self.distinct.sublist (List.filter_sublist.map _)⟩

/-- `entry(key)`, then `change` applied to what is there or to nothing. -/
def upsert (key : κ) (change : Option ν → ν) : IndexMap κ ν :=
  ⟨upsertEntry key change self.entries, upsertEntry_nodup self.distinct⟩

variable {self} {key : κ}

@[simp] theorem upsert_isEmpty {change : Option ν → ν} : (self.upsert key change).isEmpty = false := by
  cases entries : self.entries with
  | nil => simp [upsert, isEmpty, entries, upsertEntry]
  | cons _ _ =>
    simp only [upsert, isEmpty, entries, upsertEntry]
    split <;> rfl

theorem containsKey_iff : self.containsKey key = true ↔ ∃ value, self.get? key = some value := by
  rw [← Option.isSome_iff_exists, containsKey, get?, Option.isSome_map, find?_isSome, any_eq_true]

theorem get?_eq_some : self.get? key = some value ↔ (key, value) ∈ self.entries := by
  simp only [get?, Option.map_eq_some_iff]
  constructor
  · rintro ⟨found, is, rfl⟩
    obtain rfl : found.1 = key := by simpa using find?_some is
    exact mem_of_find?_eq_some is
  · intro listed
    have some_ : (self.entries.find? (fun entry => entry.1 = key)).isSome :=
      find?_isSome.mpr ⟨(key, value), listed, by simp⟩
    obtain ⟨found, is⟩ := Option.isSome_iff_exists.mp some_
    have same : found.1 = key := by simpa using find?_some is
    have one := inj_on_of_nodup_map self.distinct (mem_of_find?_eq_some is) listed same
    exact ⟨found, is, by rw [one]⟩

variable {other : κ}

theorem get?_upsert {change : Option ν → ν} : (self.upsert key change).get? other =
      if other = key then some (change (self.get? key)) else self.get? other := by
  simp only [get?, upsert]
  induction self.entries with
  | nil => by_cases same : other = key <;> simp [upsertEntry, same, Ne.symm]
  | cons first _ ih =>
    obtain ⟨held, _⟩ := first
    simp only [upsertEntry]
    by_cases same : held = key <;> by_cases asked : other = key <;> by_cases here : held = other <;>
      simp_all

theorem get?_swapRemove : (self.swapRemove key).get? other = if other = key then none else self.get? other := by
  refine Option.ext fun value => ?_
  rw [get?_eq_some, swapRemove, mem_swapRemoveEntry self.distinct]
  by_cases same : other = key <;> simp [same, get?_eq_some]

theorem get?_shiftRemove : (self.shiftRemove key).get? other = if other = key then none else self.get? other := by
  split
  case isTrue same =>
    rw [same, get?, Option.map_eq_none_iff, find?_eq_none]
    intro entry member
    simpa using (mem_filter.mp member).2
  case isFalse different =>
    have same (entries : List (κ × ν)) : ((entries.filter fun entry => decide (entry.1 ≠ key)).find? fun entry =>
        decide (entry.1 = other)) = entries.find? fun entry => decide (entry.1 = other) := by
      rw [find?_filter]
      congr 1
      funext entry
      by_cases own : entry.1 = other <;> simp [own, different]
    simp only [get?, shiftRemove, same]

/-- What is left after a drain was there before. -/
theorem get?_drainFirst {count : Nat} (held : (self.drainFirst count).get? key = some value) :
    self.get? key = some value := by
  rw [get?_eq_some] at held ⊢
  exact mem_of_mem_drop held

end IndexMap

end Galvanize
