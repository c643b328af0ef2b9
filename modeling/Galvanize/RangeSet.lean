import Mathlib.Order.Lattice
import Mathlib.Data.List.Sort
import Mathlib.Tactic.Tauto

/-! Coalescing sets of naturals, kept as an ordered list of inclusive ranges of
which no two overlap or touch. The list is canonical: a set has one
representation, so equality of sets is equality of their members, and the
stored ranges are exactly the maximal intervals of the set. Nothing here knows
what the numbers count. -/
namespace Galvanize
open List

/-- `start..=stop`. A range whose start lies above its stop has no members. -/
structure RangeInclusive where
  start : Nat
  stop : Nat
deriving DecidableEq, Repr

variable {r : RangeInclusive} {x : Nat} {a b : RangeInclusive}

namespace RangeInclusive

instance : Membership Nat RangeInclusive := ⟨fun r x => r.start ≤ x ∧ x ≤ r.stop⟩

theorem mem_def : x ∈ r ↔ r.start ≤ x ∧ x ≤ r.stop := Iff.rfl

instance (r : RangeInclusive) (x : Nat) : Decidable (x ∈ r) := inferInstanceAs (Decidable (r.start ≤ x ∧ x ≤ r.stop))

/-- `value..=value`. -/
def single (value : Nat) : RangeInclusive := ⟨value, value⟩

@[simp] theorem mem_single : x ∈ single value ↔ x = value := by
  simp only [single, mem_def]
  omega

@[simp] theorem mem_mk {a b : Nat} : x ∈ (⟨a, b⟩ : RangeInclusive) ↔ a ≤ x ∧ x ≤ b := Iff.rfl

/-- The members in ascending order. -/
def toList (r : RangeInclusive) : List Nat := List.range' r.start (r.stop + 1 - r.start)

@[simp] theorem mem_toList : x ∈ r.toList ↔ x ∈ r := by
  simp only [toList, mem_range'_1, mem_def]
  omega

/-- How many members there are. -/
def len (r : RangeInclusive) : Nat := r.stop + 1 - r.start

/-- The two ranges share a member. -/
def Overlaps (a b : RangeInclusive) : Prop := a.start ≤ b.stop ∧ b.start ≤ a.stop

/-- The ranges have no common member. -/
def Apart (a b : RangeInclusive) : Prop := ∀ x, x ∈ a → x ∉ b

instance (a b : RangeInclusive) : Decidable (a.Overlaps b) :=
  inferInstanceAs (Decidable (a.start ≤ b.stop ∧ b.start ≤ a.stop))

theorem overlaps_of_mem (left : x ∈ a) (right : x ∈ b) : a.Overlaps b := by
  simp only [mem_def] at left right
  exact ⟨by omega, by omega⟩

end RangeInclusive

/-- Every range has a member, and each range ends before the next one starts
with at least one number between them. -/
def Canonical (ranges : List RangeInclusive) : Prop :=
  (∀ r ∈ ranges, r.start ≤ r.stop) ∧ ranges.Pairwise (fun a b => a.stop + 1 < b.start)

instance (ranges : List RangeInclusive) : Decidable (Canonical ranges) := inferInstanceAs (Decidable (_ ∧ _))

theorem canonical_cons {rest : List RangeInclusive} :
    Canonical (r :: rest) ↔ r.start ≤ r.stop ∧ (∀ s ∈ rest, r.stop + 1 < s.start) ∧ Canonical rest := by
  simp only [Canonical, mem_cons, forall_eq_or_imp, pairwise_cons]
  tauto

variable {ranges : List RangeInclusive}

theorem canonical_unique (canonical : Canonical ranges) (heldA : a ∈ ranges) (heldB : b ∈ ranges)
    (close : a.start ≤ b.stop + 1 ∧ b.start ≤ a.stop + 1) : a = b := by
  induction ranges with
  | nil => cases heldA
  | cons s _ ih =>
    obtain ⟨_, apart, tail⟩ := canonical_cons.mp canonical
    rcases mem_cons.mp heldA with sameA | laterA <;>
      rcases mem_cons.mp heldB with sameB | laterB
    · rw [sameA, sameB]
    · have := apart b laterB
      subst sameA
      omega
    · have := apart a laterA
      subst sameB
      omega
    · exact ih tail laterA laterB

/-- Some listed range has `x` as a member. -/
def Covers (ranges : List RangeInclusive) (x : Nat) : Prop := ∃ r ∈ ranges, x ∈ r

@[simp] theorem covers_nil : ¬ Covers [] x := by simp [Covers]

@[simp] theorem covers_cons {rest : List RangeInclusive} :
    Covers (r :: rest) x ↔ x ∈ r ∨ Covers rest x := by simp [Covers]

@[simp] theorem covers_append : Covers (left ++ right) x ↔ Covers left x ∨ Covers right x := by
  simp [Covers, or_and_right, exists_or]

/-- Insert a range, absorbing every stored range it overlaps or touches. -/
def insertInto (r : RangeInclusive) : List RangeInclusive → List RangeInclusive
  | [] => [r]
  | s :: rest =>
    if r.stop + 1 < s.start then r :: s :: rest
    else if s.stop + 1 < r.start then s :: insertInto r rest
    else insertInto ⟨min r.start s.start, max r.stop s.stop⟩ rest

/-- Cut a range out, keeping what remains of each stored range on either side. -/
def removeFrom (r : RangeInclusive) : List RangeInclusive → List RangeInclusive
  | [] => []
  | s :: rest =>
    (if s.start < r.start then [⟨s.start, min s.stop (r.start - 1)⟩] else []) ++
      (if r.stop < s.stop then [⟨max s.start (r.stop + 1), s.stop⟩] else []) ++
      removeFrom r rest

theorem covers_insertInto (proper : r.start ≤ r.stop) (valid : ∀ s ∈ ranges, s.start ≤ s.stop) :
    Covers (insertInto r ranges) x ↔ x ∈ r ∨ Covers ranges x := by
  induction ranges generalizing r with
  | nil => simp [insertInto]
  | cons s rest ih =>
    have later : ∀ t ∈ rest, t.start ≤ t.stop := fun t member => valid t (by simp [member])
    simp only [insertInto]
    split
    · simp
    · split
      · simp only [covers_cons, ih proper later]
        tauto
      · rename_i left right
        rw [ih (by dsimp only; omega) later, covers_cons]
        simp only [RangeInclusive.mem_def]
        -- the absorbed range touches the new one, so their hull is their union
        have hull : (min r.start s.start ≤ x ∧ x ≤ max r.stop s.stop) ↔
            (r.start ≤ x ∧ x ≤ r.stop) ∨ (s.start ≤ x ∧ x ≤ s.stop) := by omega
        rw [hull, or_assoc]

theorem insertInto_starts_above (first : bound < r.start) (above : ∀ s ∈ ranges, bound < s.start) :
    ∀ t ∈ insertInto r ranges, bound < t.start := by
  induction ranges generalizing r with
  | nil => simpa [insertInto] using first
  | cons s rest ih =>
    have own := above s (by simp)
    have later : ∀ t ∈ rest, bound < t.start := fun t member => above t (by simp [member])
    simp only [insertInto]
    split
    · simpa [first, own] using later
    · split
      · simpa [own] using ih first later
      · exact ih (by dsimp only; omega) later

theorem canonical_insertInto (proper : r.start ≤ r.stop) (canonical : Canonical ranges) :
    Canonical (insertInto r ranges) := by
  induction ranges generalizing r with
  | nil => simpa [insertInto, Canonical] using proper
  | cons s _ ih =>
    obtain ⟨own, apart, tail⟩ := canonical_cons.mp canonical
    simp only [insertInto]
    split
    · rename_i before
      refine canonical_cons.mpr ⟨proper, ?_, canonical⟩
      intro t member
      rcases mem_cons.mp member with rfl | member
      · exact before
      · have := apart t member
        omega
    · split
      · rename_i after
        exact canonical_cons.mpr ⟨own, insertInto_starts_above after apart, ih proper tail⟩
      · exact ih (by dsimp only; omega) tail

theorem covers_removeFrom (proper : r.start ≤ r.stop) : Covers (removeFrom r ranges) x ↔ Covers ranges x ∧ x ∉ r := by
  induction ranges with
  | nil => simp [removeFrom]
  | cons s _ ih =>
    simp only [removeFrom, covers_append, ih, covers_cons, RangeInclusive.mem_def]
    have pieces : (Covers (if s.start < r.start then
          [(⟨s.start, min s.stop (r.start - 1)⟩ : RangeInclusive)] else []) x ∨
        Covers (if r.stop < s.stop then
          [(⟨max s.start (r.stop + 1), s.stop⟩ : RangeInclusive)] else []) x) ↔
        (s.start ≤ x ∧ x ≤ s.stop) ∧ ¬ (r.start ≤ x ∧ x ≤ r.stop) := by
      split <;> split <;>
        simp only [covers_cons, covers_nil, RangeInclusive.mem_def, or_false, false_or, false_iff] <;> omega
    rw [pieces, ← or_and_right]

theorem removeFrom_within : ∀ t ∈ removeFrom r ranges, ∃ s ∈ ranges, s.start ≤ t.start ∧ t.stop ≤ s.stop := by
  induction ranges with
  | nil => simp [removeFrom]
  | cons s _ ih =>
    intro t member
    simp only [removeFrom, mem_append] at member
    rcases member with (left | right) | later
    · split at left
      · obtain rfl := mem_singleton.mp left
        exact ⟨s, by simp, le_rfl, min_le_left _ _⟩
      · cases left
    · split at right
      · obtain rfl := mem_singleton.mp right
        exact ⟨s, by simp, le_max_left _ _, le_rfl⟩
      · cases right
    · obtain ⟨old, held, bounds⟩ := ih t later
      exact ⟨old, by simp [held], bounds⟩

theorem canonical_removeFrom (proper : r.start ≤ r.stop) (canonical : Canonical ranges) :
    Canonical (removeFrom r ranges) := by
  induction ranges with
  | nil => simp [removeFrom, Canonical]
  | cons s rest ih =>
    obtain ⟨own, apart, tail⟩ := canonical_cons.mp canonical
    have later : ∀ t ∈ removeFrom r rest, s.stop + 1 < t.start := by
      intro t member
      obtain ⟨old, held, _⟩ := removeFrom_within t member
      have := apart old held
      omega
    have kept := ih tail
    simp only [removeFrom]
    -- at most two pieces of `s` remain, and the removed range separates them
    split <;> split <;>
      simp
    · refine canonical_cons.mpr ⟨by dsimp only; omega, ?_, canonical_cons.mpr ⟨by dsimp only; omega, later, kept⟩⟩
      intro t member
      rcases mem_cons.mp member with rfl | member
      · dsimp only
        omega
      · have := later t member
        dsimp only
        omega
    · refine canonical_cons.mpr ⟨by dsimp only; omega, ?_, kept⟩
      intro t member
      have := later t member
      dsimp only
      omega
    · exact canonical_cons.mpr ⟨by dsimp only; omega, later, kept⟩
    · exact kept

/-- A coalescing set of naturals. -/
structure RangeInclusiveSet where
  ranges : List RangeInclusive
  canonical : Canonical ranges
deriving DecidableEq

namespace RangeInclusiveSet

variable {s t : RangeInclusiveSet} {r : RangeInclusive} {x : Nat}

instance : Membership Nat RangeInclusiveSet := ⟨fun s x => Covers s.ranges x⟩

theorem mem_def : x ∈ s ↔ ∃ r ∈ s.ranges, x ∈ r := Iff.rfl

instance (s : RangeInclusiveSet) (x : Nat) : Decidable (x ∈ s) := inferInstanceAs (Decidable (∃ r ∈ s.ranges, x ∈ r))

def empty : RangeInclusiveSet := ⟨[], by simp [Canonical]⟩

instance : EmptyCollection RangeInclusiveSet := ⟨empty⟩

instance : Inhabited RangeInclusiveSet := ⟨empty⟩

@[simp] theorem ranges_empty : (∅ : RangeInclusiveSet).ranges = [] := rfl

@[simp] theorem not_mem_empty : x ∉ (∅ : RangeInclusiveSet) := covers_nil

section
variable (s : RangeInclusiveSet) (r : RangeInclusive) (ranges : List RangeInclusive)

/-- Insert a range. A range with no members leaves the set as it is. -/
def insert : RangeInclusiveSet :=
  if proper : r.start ≤ r.stop then ⟨insertInto r s.ranges, canonical_insertInto proper s.canonical⟩
  else s

/-- Remove a range. A range with no members leaves the set as it is. -/
def remove : RangeInclusiveSet :=
  if proper : r.start ≤ r.stop then ⟨removeFrom r s.ranges, canonical_removeFrom proper s.canonical⟩
  else s

/-- Insert every listed range in turn. -/
def extend : RangeInclusiveSet := ranges.foldl insert s

/-- Remove every listed range in turn. -/
def removeAll : RangeInclusiveSet := ranges.foldl remove s

def ofRanges : RangeInclusiveSet := (∅ : RangeInclusiveSet).extend ranges

/-- The stored ranges that share a member with `r`, whole and in order. -/
def overlapping : List RangeInclusive :=
  s.ranges.filter (fun old => old.Overlaps r)

/-- The stored range that has `x` as a member. -/
def get (x : Nat) : Option RangeInclusive := s.ranges.find? (fun old => decide (x ∈ old))

/-- The maximal pieces of `outer` that the set leaves uncovered, in order. -/
def gaps (outer : RangeInclusive) : RangeInclusiveSet := (ofRanges [outer]).removeAll s.ranges

def isEmpty : Bool := s.ranges.isEmpty

/-- The parts of a range that are stored. -/
def intersections : List RangeInclusive :=
  (s.overlapping r).map (fun old => ⟨max r.start old.start, min r.stop old.stop⟩)

/-- The members in ascending order. -/
def toList : List Nat := s.ranges.flatMap RangeInclusive.toList

end

@[simp] theorem mem_toList : x ∈ s.toList ↔ x ∈ s := by
  simp [toList, mem_def]

@[simp] theorem mem_insert : x ∈ s.insert r ↔ x ∈ r ∨ x ∈ s := by
  unfold insert
  split
  · rename_i proper
    exact covers_insertInto proper s.canonical.1
  · rename_i inverted
    simp only [RangeInclusive.mem_def]
    constructor
    · exact .inr
    · rintro (outside | held)
      · omega
      · exact held

@[simp] theorem mem_remove : x ∈ s.remove r ↔ x ∈ s ∧ x ∉ r := by
  unfold remove
  split
  · rename_i proper
    exact covers_removeFrom proper
  · rename_i inverted
    simp only [RangeInclusive.mem_def, iff_self_and]
    omega

@[simp] theorem mem_extend : x ∈ s.extend ranges ↔ x ∈ s ∨ ∃ r ∈ ranges, x ∈ r := by
  unfold extend
  induction ranges generalizing s with
  | nil => simp
  | cons r _ ih =>
    rw [foldl_cons, ih]
    simp only [mem_insert, mem_cons, exists_eq_or_imp]
    tauto

@[simp] theorem mem_removeAll : x ∈ s.removeAll ranges ↔ x ∈ s ∧ ∀ r ∈ ranges, x ∉ r := by
  unfold removeAll
  induction ranges generalizing s with
  | nil => simp
  | cons r _ ih =>
    rw [foldl_cons, ih]
    simp [mem_remove, and_assoc]

@[simp] theorem mem_ofRanges : x ∈ ofRanges ranges ↔ ∃ r ∈ ranges, x ∈ r := by simp [ofRanges]

theorem mem_extend_set : x ∈ s.extend t.ranges ↔ x ∈ s ∨ x ∈ t := by
  rw [mem_extend, mem_def (s := t)]

theorem mem_removeAll_set : x ∈ s.removeAll t.ranges ↔ x ∈ s ∧ x ∉ t := by
  rw [mem_removeAll, mem_def (s := t)]
  simp

@[simp] theorem mem_gaps : x ∈ s.gaps outer ↔ x ∈ outer ∧ x ∉ s := by
  rw [gaps, mem_removeAll_set]
  simp

variable {old : RangeInclusive}

@[simp] theorem mem_overlapping : old ∈ s.overlapping r ↔ old ∈ s.ranges ∧ old.Overlaps r := by simp [overlapping]

theorem mem_intersections : (∃ part ∈ s.intersections r, x ∈ part) ↔ x ∈ r ∧ x ∈ s := by
  simp only [intersections, mem_map, mem_overlapping, RangeInclusive.Overlaps, mem_def, RangeInclusive.mem_def]
  constructor
  · rintro ⟨_, ⟨old, ⟨held, _⟩, rfl⟩, inside⟩
    dsimp only at inside
    exact ⟨by omega, old, held, by omega⟩
  · rintro ⟨_, old, held, inside⟩
    refine ⟨_, ⟨old, ⟨held, by omega⟩, rfl⟩, ?_⟩
    dsimp only
    omega

theorem intersections_proper (proper : r.start ≤ r.stop) : ∀ part ∈ s.intersections r, part.start ≤ part.stop := by
  simp only [intersections, mem_map, mem_overlapping, RangeInclusive.Overlaps]
  rintro _ ⟨old, ⟨held, _⟩, rfl⟩
  have := s.canonical.1 old held
  exact le_min (max_le proper (by omega)) (max_le (by omega) this)

/-- The parts of a range do not meet. -/
theorem intersections_apart : (s.intersections r).Pairwise RangeInclusive.Apart := by
  refine pairwise_map.mpr ((s.canonical.2.filter _).imp ?_)
  intro a b _ x inA inB
  simp only [RangeInclusive.mem_def] at inA inB
  omega

theorem ranges_apart (s : RangeInclusiveSet) : s.ranges.Pairwise RangeInclusive.Apart :=
  s.canonical.2.imp fun before x inA inB => by
    simp only [RangeInclusive.mem_def] at inA inB
    omega

/-- The parts of ranges that do not meet do not meet. -/
theorem flatMap_intersections_apart (apart : ranges.Pairwise RangeInclusive.Apart) :
    (ranges.flatMap s.intersections).Pairwise RangeInclusive.Apart := by
  refine pairwise_flatMap.mpr ⟨fun r _ => intersections_apart, apart.imp ?_⟩
  intro a b apart part inA other inB x insidePart insideOther
  exact apart x (mem_intersections.mp ⟨part, inA, insidePart⟩).1 (mem_intersections.mp ⟨other, inB, insideOther⟩).1

/-- Two stored ranges with a common member, or with members one apart, are the
same stored range. -/
theorem stored_unique (heldA : a ∈ s.ranges) (heldB : b ∈ s.ranges)
    (close : a.start ≤ b.stop + 1 ∧ b.start ≤ a.stop + 1) : a = b :=
  canonical_unique s.canonical heldA heldB close

theorem get_eq_some : s.get x = some old ↔ old ∈ s.ranges ∧ x ∈ old := by
  constructor
  · intro found
    exact ⟨mem_of_find?_eq_some found, by simpa using find?_some found⟩
  · rintro ⟨held, inside⟩
    cases found : s.get x with
    | none =>
      have := find?_eq_none.mp found old held
      simp [inside] at this
    | some other =>
      have otherHeld := mem_of_find?_eq_some found
      have otherInside : x ∈ other := by simpa using find?_some found
      simp only [RangeInclusive.mem_def] at inside otherInside
      rw [stored_unique otherHeld held ⟨by omega, by omega⟩]

/-- A stored range is an interval of the set that cannot be widened. -/
def MaximalRange (holds : Nat → Prop) (r : RangeInclusive) : Prop :=
  r.start ≤ r.stop ∧ (∀ x ∈ r, holds x) ∧ ¬ holds (r.stop + 1) ∧
    ∀ before, before + 1 = r.start → ¬ holds before

/-- The stored ranges are exactly the maximal intervals of the set. -/
theorem mem_ranges_iff : r ∈ s.ranges ↔ MaximalRange (· ∈ s) r := by
  constructor
  · intro held
    have proper := s.canonical.1 r held
    refine ⟨proper, fun x inside => ⟨r, held, inside⟩, ?_, ?_⟩
    · rintro ⟨other, otherHeld, inside⟩
      simp only [RangeInclusive.mem_def] at inside
      have same := stored_unique held otherHeld ⟨by omega, by omega⟩
      subst same
      omega
    · rintro before adjacent ⟨other, otherHeld, inside⟩
      simp only [RangeInclusive.mem_def] at inside
      have same := stored_unique held otherHeld ⟨by omega, by omega⟩
      subst same
      omega
  · rintro ⟨proper, inside, above, below⟩
    obtain ⟨stored, held, first⟩ := inside r.start ⟨le_rfl, proper⟩
    simp only [RangeInclusive.mem_def] at first
    -- the stored range around the start can stop neither short of `r` nor beyond it
    have stopSame : stored.stop = r.stop := by
      by_contra different
      rcases Nat.lt_or_gt_of_ne different with short | beyond
      · obtain ⟨_, nextHeld, nextInside⟩ := inside (stored.stop + 1) ⟨by omega, by omega⟩
        simp only [RangeInclusive.mem_def] at nextInside
        have same := stored_unique held nextHeld ⟨by omega, by omega⟩
        subst same
        omega
      · exact above ⟨stored, held, by simp only [RangeInclusive.mem_def]; omega⟩
    have startSame : stored.start = r.start := by
      by_contra different
      exact below (r.start - 1) (by omega) ⟨stored, held, by simp only [RangeInclusive.mem_def]; omega⟩
    have same : stored = r := by
      cases stored
      cases r
      simp_all
    exact same ▸ held

private theorem ranges_sorted (s : RangeInclusiveSet) : s.ranges.Pairwise (fun a b => a.start < b.start) :=
  s.canonical.2.imp_of_mem fun heldA _ before => by
    have := s.canonical.1 _ heldA
    omega

/-- Whatever keeps the starts of the stored ranges keeps them distinct. -/
theorem nodup_map_ranges (startOf : β → Nat) (is : ∀ r, startOf (f r) = r.start) : (s.ranges.map f).Nodup :=
  List.pairwise_map.mpr ((ranges_sorted s).imp fun before same =>
    before.ne (by rw [← is, ← is, same]))

/-- A set is determined by its members. -/
@[ext] theorem ext (same : ∀ x, x ∈ s ↔ x ∈ t) : s = t := by
  have stored : ∀ r, r ∈ s.ranges ↔ r ∈ t.ranges := by
    intro r
    simp only [mem_ranges_iff, MaximalRange, same]
  have lists : s.ranges = t.ranges := by
    exact (ranges_sorted s).eq_of_mem_iff (ranges_sorted t) stored
  cases s
  cases t
  simp_all

/-- Trading some stored ranges for the ranges of another set. When nothing that
stays overlaps or touches what comes in, the stored ranges of the result are
the ranges that stay together with the ranges that come in, unmerged. -/
theorem ranges_replace {old new result : RangeInclusiveSet} {dropped : RangeInclusive → Prop}
    (members : ∀ x, x ∈ result ↔ (∃ r ∈ old.ranges, ¬ dropped r ∧ x ∈ r) ∨ x ∈ new)
    (apart : ∀ r ∈ old.ranges, ¬ dropped r → ∀ x ∈ new, x + 1 < r.start ∨ r.stop + 1 < x) :
    ∀ r, r ∈ result.ranges ↔ (r ∈ old.ranges ∧ ¬ dropped r) ∨ r ∈ new.ranges := by
  have stays : ∀ r ∈ old.ranges, ¬ dropped r → r ∈ result.ranges := by
    intro r held kept
    obtain ⟨proper, inside, above, below⟩ := mem_ranges_iff.mp held
    refine mem_ranges_iff.mpr ⟨proper, fun x member => (members x).mpr (.inl ⟨r, held, kept, member⟩), ?_, ?_⟩
    · intro member
      rcases (members _).mp member with (⟨other, otherHeld, _, member⟩ | incoming)
      · exact above ⟨other, otherHeld, member⟩
      · have := apart r held kept _ incoming
        omega
    · intro before adjacent member
      rcases (members _).mp member with (⟨other, otherHeld, _, member⟩ | incoming)
      · exact below before adjacent ⟨other, otherHeld, member⟩
      · have := apart r held kept _ incoming
        omega
  have comes : ∀ r ∈ new.ranges, r ∈ result.ranges := by
    intro r held
    obtain ⟨proper, inside, above, below⟩ := mem_ranges_iff.mp held
    refine mem_ranges_iff.mpr ⟨proper, fun x member => (members x).mpr (.inr (inside x member)), ?_, ?_⟩
    · intro member
      rcases (members _).mp member with (⟨other, otherHeld, kept, member⟩ | incoming)
      · have := apart other otherHeld kept r.stop (inside r.stop ⟨proper, le_rfl⟩)
        simp only [RangeInclusive.mem_def] at member
        omega
      · exact above incoming
    · intro before adjacent member
      rcases (members _).mp member with (⟨other, otherHeld, kept, member⟩ | incoming)
      · have := apart other otherHeld kept r.start (inside r.start ⟨le_rfl, proper⟩)
        simp only [RangeInclusive.mem_def] at member
        omega
      · exact below before adjacent incoming
  intro r
  constructor
  · intro held
    have proper := result.canonical.1 r held
    have first : r.start ∈ result := ⟨r, held, le_rfl, proper⟩
    rcases (members r.start).mp first with ⟨other, otherHeld, kept, member⟩ | ⟨other, otherHeld, member⟩
    · have same := stored_unique held (stays other otherHeld kept)
        (by simp only [RangeInclusive.mem_def] at member; omega)
      exact .inl ⟨same ▸ otherHeld, same ▸ kept⟩
    · have same := stored_unique held (comes other otherHeld)
        (by simp only [RangeInclusive.mem_def] at member; omega)
      exact .inr (same ▸ otherHeld)
  · rintro (⟨held, kept⟩ | held)
    · exact stays r held kept
    · exact comes r held

/-- `after` is `before` with whole stored ranges taken out and the ranges of
`come` put in, none of them merging with what stays. -/
structure Exchanged (before after : RangeInclusiveSet) (gone : List RangeInclusive)
    (come : RangeInclusiveSet) : Prop where
  held : ∀ r ∈ gone, r ∈ before.ranges
  result : ∀ r, r ∈ after.ranges ↔ (r ∈ before.ranges ∧ r ∉ gone) ∨ r ∈ come.ranges
  fresh : ∀ r ∈ come.ranges, r ∈ before.ranges → r ∈ gone

theorem exchanged_of_apart {before after come : RangeInclusiveSet} (held : ∀ r ∈ gone, r ∈ before.ranges)
    (members : ∀ x, x ∈ after ↔ (x ∈ before ∧ ∀ r ∈ gone, x ∉ r) ∨ x ∈ come)
    (apart : ∀ r ∈ before.ranges, r ∉ gone → ∀ x ∈ come, x + 1 < r.start ∨ r.stop + 1 < x) :
    Exchanged before after gone come := by
  have kept : ∀ x, (x ∈ before ∧ ∀ r ∈ gone, x ∉ r) ↔ ∃ r ∈ before.ranges, r ∉ gone ∧ x ∈ r := by
    intro x
    constructor
    · rintro ⟨⟨r, stored, inside⟩, outside⟩
      exact ⟨r, stored, fun member => outside r member inside, inside⟩
    · rintro ⟨r, stored, stays, inside⟩
      refine ⟨⟨r, stored, inside⟩, fun other member otherInside => ?_⟩
      simp only [RangeInclusive.mem_def] at inside otherInside
      have same := stored_unique stored (held other member) ⟨by omega, by omega⟩
      exact stays (same ▸ member)
  refine ⟨held, ranges_replace (fun x => (members x).trans (or_congr (kept x) Iff.rfl)) apart, ?_⟩
  intro r incoming stored
  by_contra stays
  have proper := before.canonical.1 r stored
  have := apart r stored stays r.start ⟨r, incoming, le_rfl, proper⟩
  omega

/-- What comes in starts where nothing that stays starts. -/
theorem Exchanged.start_ne {before after come : RangeInclusiveSet}
    (exchanged : Exchanged before after gone come) (incoming : r ∈ come.ranges) (stored : old ∈ before.ranges)
    (stays : old ∉ gone) : old.start ≠ r.start := by
  intro _
  have oldAfter := (exchanged.result old).mpr (.inl ⟨stored, stays⟩)
  have newAfter := (exchanged.result r).mpr (.inr incoming)
  have properOld := before.canonical.1 old stored
  have properNew := come.canonical.1 r incoming
  obtain rfl := stored_unique oldAfter newAfter ⟨by omega, by omega⟩
  exact stays (exchanged.fresh old incoming stored)

end RangeInclusiveSet

end Galvanize
