import Galvanize.RangeSet
import Std.Data.ExtTreeMap

/-! The identifiers and counters every part of the agent shares
(`corro-base-types`, `corro-types/src/actor.rs`). `CrsqlDbVersion`, the
per-actor number of a transaction, and `CrsqlSeq`, the position of a change
inside its version, are `u64` newtypes there and `Nat` here. Functions that add
to them are given in machine words too, in `WireArithmetic` and `GapArithmetic`,
with the exact condition under which the two agree. -/
namespace Galvanize

/-- `ActorId`: a UUID. -/
abbrev ActorId := BitVec 128

-- maps are keyed by actor everywhere, so the laws of their order are found here first
instance : Std.TransCmp (compare : ActorId → ActorId → Ordering) := BitVec.instTransOrd

instance : Std.LawfulEqCmp (compare : ActorId → ActorId → Ordering) := BitVec.instLawfulEqOrd

/-- `Timestamp`: an NTP64 clock reading. -/
abbrev Timestamp := Nat

/-- `CrsqlDbVersionRange`, which converts to and from `RangeInclusive`. -/
abbrev CrsqlDbVersionRange := RangeInclusive

/-- `CrsqlSeqRange`, which converts to and from `RangeInclusive`. -/
abbrev CrsqlSeqRange := RangeInclusive

/-- `BTreeMap` and `HashMap`. A `HashMap` is iterated in key order here, which
is one of the orders the hasher may produce. -/
abbrev Map (κ ν : Type) [Ord κ] := Std.ExtTreeMap κ ν

/-- `cmp::max(current, Some(value))`, where `None` is the least value. -/
def maxOption (current : Option Nat) (value : Nat) : Option Nat :=
  match current with
  | none => some value
  | some held => some (max held value)

@[simp] theorem maxOption_none (value : Nat) : maxOption none value = some value := rfl

@[simp] theorem maxOption_some (held value : Nat) : maxOption (some held) value = some (max held value) := rfl

/-- The maximum is at or above this version. -/
def Reaches (max : Option Nat) (version : Nat) : Prop := ∃ m, max = some m ∧ version ≤ m

@[simp] theorem reaches_none {version : Nat} : ¬ Reaches none version := by simp [Reaches]

@[simp] theorem reaches_some {m version : Nat} : Reaches (some m) version ↔ version ≤ m := by
  simp [Reaches]

theorem reaches_maxOption {max : Option Nat} {value version : Nat} :
    Reaches (maxOption max value) version ↔ Reaches max version ∨ version ≤ value := by
  cases max with
  | none => simp
  | some m => simp

theorem reaches_optionMax {version : Nat} : Reaches (max a b) version ↔ Reaches a version ∨ Reaches b version := by
  cases a with
  | none => simp
  | some m =>
    cases b with
    | none => simp
    | some n => simp

theorem reaches_listMax {values : List Nat} {version : Nat} :
    Reaches values.max? version ↔ ∃ value ∈ values, version ≤ value := by
  cases greatest : values.max? with
  | none => simp [List.max?_eq_none_iff.mp greatest]
  | some m =>
    obtain ⟨member, bound⟩ := List.max?_eq_some_iff.mp greatest
    rw [reaches_some]
    constructor
    · exact fun low => ⟨m, member, low⟩
    · rintro ⟨value, listed, low⟩
      exact le_trans low (bound value listed)

/-- A maximum is determined by the versions it reaches. -/
theorem reaches_ext (same : ∀ version, Reaches a version ↔ Reaches b version) : a = b := by
  cases a with
  | none =>
    cases b with
    | none => rfl
    | some m => simpa using same m
  | some n =>
    cases b with
    | none => simpa using same n
    | some m =>
      have left := same n
      have right := same m
      simp only [reaches_some] at left right
      exact congrArg some (by omega)

theorem eq_some_iff_reaches {max : Option Nat} : max = some m ↔ Reaches max m ∧ ¬ Reaches max (m + 1) := by
  cases max with
  | none => simp
  | some n =>
    simp only [Option.some.injEq, reaches_some]
    omega

theorem lt_getD_iff {max : Option Nat} {x : Nat} : max.getD 0 < x ↔ 1 ≤ x ∧ ¬ Reaches max x := by
  cases max with
  | none =>
    simp only [Option.getD_none, reaches_none, not_false_eq_true, and_true]
    omega
  | some m =>
    simp only [Option.getD_some, reaches_some]
    omega

theorem le_getD_iff {max : Option Nat} : x ≤ max.getD 0 ↔ x = 0 ∨ Reaches max x := by
  have := @lt_getD_iff max x
  by_cases reached : Reaches max x
  · simp only [reached, not_true_eq_false, and_false, iff_false] at this
    simp only [reached, or_true, iff_true]
    omega
  · simp only [reached, not_false_eq_true, and_true] at this
    simp only [reached, or_false]
    omega

end Galvanize
