import Mathlib.Logic.Function.Basic
import Mathlib.Data.Option.Basic
import Std.Data.ExtTreeMap

/-! Two partial maps that are each other's inverse, and what an update of one or both of
them has to respect for them to stay so. Nothing here knows what is mapped to what. -/
namespace Galvanize
open Std.ExtTreeMap Function

section
variable {κ ν : Type} [Ord κ] [Std.TransOrd κ] [Std.LawfulEqOrd κ] {map : Std.ExtTreeMap κ ν} {key : κ}

theorem getElem?_erase_of_ne (different : other ≠ key) : (map.erase key)[other]? = map[other]? := by
  rw [getElem?_erase, if_neg fun same => different (Std.LawfulEqOrd.compare_eq_iff_eq.mp same).symm]

theorem getElem?_insert_of_ne (different : other ≠ key) : (map.insert key value)[other]? = map[other]? := by
  rw [getElem?_insert, if_neg fun same => different (Std.LawfulEqOrd.compare_eq_iff_eq.mp same).symm]

variable [DecidableEq κ]

theorem lookup_erase :
    (fun other => (map.erase key)[other]?) = Function.update (fun other => map[other]?) key none := by
  funext other
  by_cases own : other = key
  · rw [own, update_self, getElem?_erase_self]
  · rw [update_of_ne own, getElem?_erase_of_ne own]

theorem lookup_insert :
    (fun other => (map.insert key value)[other]?) = Function.update (fun other => map[other]?) key (some value) := by
  funext other
  by_cases own : other = key
  · rw [own, update_self, getElem?_insert_self]
  · rw [update_of_ne own, getElem?_insert_of_ne own]

end

/-- Each map has exactly the entries of the other, turned around. -/
def Inverse {κ ν : Type} (index : κ → Option ν) (table : ν → Option κ) : Prop :=
  ∀ key value, index key = some value ↔ table value = some key

namespace Inverse
variable {κ ν : Type} [DecidableEq κ] [DecidableEq ν] {table : ν → Option κ} {key : κ}

/-- Taking a key out of the index and a value out of the table keeps them apart from each
other only where they belong together. -/
theorem erase_iff (mirrored : Inverse index table) :
    Inverse (Function.update index key none) (Function.update table value none) ↔
      index key = (table value).map fun _ => value := by
  constructor
  · intro kept
    cases held : table value with
    | none =>
      cases found : index key with
      | none => rfl
      | some other =>
        -- the value found under the key has lost its entry
        have forth := (mirrored key other).mp found
        have different : other ≠ value := by
          rintro rfl
          rw [held] at forth
          cases forth
        have still : Function.update table value none other = some key := by
          rw [update_of_ne different, forth]
        have gone := (kept key other).mpr still
        rw [update_self] at gone
        cases gone
    | some old =>
      have back := (mirrored old value).mpr held
      by_cases same : old = key
      · rw [← same, back]
        rfl
      · have still : Function.update index key none old = some value := by
          rw [update_of_ne same, back]
        have gone := (kept old value).mp still
        rw [update_self] at gone
        cases gone
  · intro together other held
    by_cases sameKey : other = key
    · subst sameKey
      rw [update_self]
      constructor
      · intro impossible
        cases impossible
      · intro found
        by_cases sameValue : held = value
        · rw [sameValue, update_self] at found
          cases found
        · rw [update_of_ne sameValue] at found
          have back := (mirrored other held).mpr found
          rw [together] at back
          obtain ⟨-, -, isValue⟩ := Option.map_eq_some_iff.mp back
          exact absurd isValue.symm sameValue
    · rw [update_of_ne sameKey]
      by_cases sameValue : held = value
      · subst sameValue
        rw [update_self]
        constructor
        · intro found
          have forth := (mirrored other held).mp found
          rw [forth] at together
          exact absurd (Option.some.inj (((mirrored key held).mp together).symm.trans forth)).symm sameKey
        · intro impossible
          cases impossible
      · rw [update_of_ne sameValue]
        exact mirrored other held

/-- A new value takes a key if the key is free. -/
theorem insert_iff (mirrored : Inverse index table) (new : table value = none) :
    Inverse (Function.update index key (some value)) (Function.update table value (some key)) ↔ index key = none := by
  constructor
  · intro kept
    cases found : index key with
    | none => rfl
    | some other =>
      have forth := (mirrored key other).mp found
      have different : other ≠ value := by
        rintro rfl
        rw [new] at forth
        cases forth
      have still : Function.update table value (some key) other = some key := by
        rw [update_of_ne different, forth]
      have taken := (kept key other).mpr still
      rw [update_self] at taken
      cases taken
      exact absurd rfl different
  · intro free other held
    by_cases sameKey : other = key
    · subst sameKey
      rw [update_self]
      by_cases sameValue : held = value
      · rw [sameValue, update_self]
        exact ⟨fun _ => rfl, fun _ => rfl⟩
      · rw [update_of_ne sameValue, ← mirrored other held, free]
        constructor
        · intro same
          cases same
          exact absurd rfl sameValue
        · intro impossible
          cases impossible
    · rw [update_of_ne sameKey]
      by_cases sameValue : held = value
      · subst sameValue
        rw [update_self, mirrored other held, new]
        constructor
        · intro impossible
          cases impossible
        · intro same
          cases same
          exact absurd rfl sameKey
      · rw [update_of_ne sameValue]
        exact mirrored other held

omit [DecidableEq κ] in
/-- A value that moves in the table alone has to stay where it is. -/
theorem move_iff (mirrored : Inverse index table) (held : table value = some old) :
    Inverse index (Function.update table value (some key)) ↔ old = key := by
  constructor
  · intro kept
    have back := (kept old value).mp ((mirrored old value).mpr held)
    rw [update_self] at back
    exact (Option.some.inj back).symm
  · rintro rfl
    rw [← held, update_eq_self]
    exact mirrored

end Inverse
end Galvanize
