import Mathlib.Data.List.Basic

/-! Inner and left joins of a first table with further ones, evaluated table by
table from the left. A tuple has one part for each table: the row it takes from
there, or `none` where a left join found no match. Nothing here knows what the
rows are. -/
namespace Galvanize
open List Option

/-- One `[LEFT] JOIN … ON`. The constraint sees the tuple built so far. -/
structure Join (α : Type) where
  left : Bool
  on : List (Option α) → α → Bool

namespace Join

variable {α : Type}

/-- The rows of a table that match a tuple. -/
def found (join : Join α) (rows : List α) (tuple : List (Option α)) : List α := rows.filter (join.on tuple)

/-- The tuple with one more part, in every way the join allows. -/
def extend (join : Join α) (rows : List α) (tuple : List (Option α)) : List (List (Option α)) :=
  if join.left && (join.found rows tuple).isEmpty then [tuple ++ [none]]
  else (join.found rows tuple).map fun row => tuple ++ [some row]

end Join

variable {α : Type} {rows other : Nat → List α} {join : Join α} {joins : List (Join α)}
  {tuple whole : List (Option α)} {row : α} {part : Option α}

/-- All that a tuple grows to. The next table is the one at the tuple's length. -/
def complete (rows : Nat → List α) : List (Join α) → List (Option α) → List (List (Option α))
  | [], tuple => [tuple]
  | join :: joins, tuple => (join.extend (rows tuple.length) tuple).flatMap (complete rows joins)

/-- `FROM` the first table with its joins. -/
def tuples (rows : Nat → List α) (joins : List (Join α)) : List (List (Option α)) :=
  (rows 0).flatMap fun row => complete rows joins [some row]

/-- How one more part comes about. -/
def Join.Allows (join : Join α) (rows : List α) (tuple : List (Option α)) : Option α → Prop
  | some row => row ∈ rows ∧ join.on tuple row = true
  | none => join.left = true ∧ ∀ row ∈ rows, join.on tuple row = false

theorem mem_found {rows : List α} : row ∈ join.found rows tuple ↔ row ∈ rows ∧ join.on tuple row = true :=
  List.mem_filter

theorem found_isEmpty {rows : List α} :
    (join.found rows tuple).isEmpty = true ↔ ∀ row ∈ rows, join.on tuple row = false := by
  simp [Join.found]

theorem mem_extend {rows : List α} :
    whole ∈ join.extend rows tuple ↔ ∃ part, join.Allows rows tuple part ∧ whole = tuple ++ [part] := by
  unfold Join.extend
  split
  case isTrue unmatched =>
    obtain ⟨left, empty⟩ := Bool.and_eq_true_iff.mp unmatched
    have silent := found_isEmpty.mp empty
    rw [mem_singleton]
    constructor
    · rintro rfl
      exact ⟨none, ⟨left, silent⟩, rfl⟩
    · rintro ⟨_ | row, allowed, rfl⟩
      · rfl
      · exact absurd allowed.2 (by simp [silent row allowed.1])
  case isFalse matched =>
    rw [List.mem_map]
    constructor
    · rintro ⟨row, member, rfl⟩
      exact ⟨some row, mem_found.mp member, rfl⟩
    · rintro ⟨_ | row, allowed, rfl⟩
      · exact absurd (Bool.and_eq_true_iff.mpr ⟨allowed.1, found_isEmpty.mpr allowed.2⟩) matched
      · exact ⟨row, mem_found.mpr allowed, rfl⟩

section
variable (member : whole ∈ complete rows joins tuple)
include member

end

section
variable (member : whole ∈ tuples rows joins)
include member

end

end Galvanize
