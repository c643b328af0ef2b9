import Galvanize.Bookie
import Galvanize.Runs

/-! What a batch does to the bookkeeping of one actor. `computeAndApplyGaps`
works on whole stored ranges, a stale maximum and a gap that includes the
received start; the lemmas here say which versions are needed afterwards, in
terms of which were needed before and which the batch holds. Every later module
uses these and never unfolds the computation again. -/
namespace Galvanize.BookieProofs
open BookedVersions List Std.ExtTreeMap RangeInclusiveSet

variable {bv : BookedVersions} {r : RangeInclusive} {x : Nat}

/-- The stored range overlaps the received one or lies right beside it. -/
def Touches (old received : RangeInclusive) : Prop := old.start ≤ received.stop + 1 ∧ received.start ≤ old.stop + 1

variable {s : RangeInclusiveSet}

theorem stored_subset {t : RangeInclusiveSet} {chosen : RangeInclusive → Prop}
    (members : ∀ x, x ∈ t ↔ ∃ old ∈ s.ranges, chosen old ∧ x ∈ old) :
    ∀ old, old ∈ t.ranges ↔ old ∈ s.ranges ∧ chosen old := by
  have replaced := @RangeInclusiveSet.ranges_replace s ∅ t (fun old => ¬ chosen old) (by simpa using members) (by simp)
  simpa using replaced

theorem mem_computeOverlappingRanges (proper : r.start ≤ r.stop) :
    x ∈ computeOverlappingRanges s r ↔ ∃ old ∈ s.ranges, Touches old r ∧ x ∈ old := by
  have before : x ∈ (if 0 < r.start then
        ((∅ : RangeInclusiveSet).extend (s.overlapping r)).extend (s.get (r.start - 1)).toList
        else (∅ : RangeInclusiveSet).extend (s.overlapping r)) ↔
      (∃ old ∈ s.overlapping r, x ∈ old) ∨ (0 < r.start ∧ ∃ old, s.get (r.start - 1) = some old ∧ x ∈ old) := by
    split <;> simp_all
  simp only [computeOverlappingRanges, RangeInclusiveSet.mem_extend, before, Option.mem_toList,
    get_eq_some, mem_overlapping]
  constructor
  · rintro ((⟨old, ⟨held, overlaps⟩, inside⟩ | ⟨_, old, ⟨held, around⟩, inside⟩) |
      ⟨old, ⟨held, around⟩, inside⟩)
    · exact ⟨old, held, by have := overlaps; simp only [RangeInclusive.Overlaps] at this; constructor <;> omega, inside⟩
    · exact ⟨old, held, by simp only [RangeInclusive.mem_def] at around; constructor <;> omega, inside⟩
    · exact ⟨old, held, by simp only [RangeInclusive.mem_def] at around; constructor <;> omega, inside⟩
  · rintro ⟨old, held, ⟨low, _⟩, inside⟩
    have own := s.canonical.1 old held
    by_cases above : r.stop + 1 ∈ old
    · exact .inr ⟨old, ⟨held, above⟩, inside⟩
    · by_cases below : 0 < r.start ∧ r.start - 1 ∈ old
      · exact .inl (.inr ⟨below.1, old, ⟨held, below.2⟩, inside⟩)
      · refine .inl (.inl ⟨old, ⟨held, ?_⟩, inside⟩)
        simp only [RangeInclusive.mem_def] at above below
        simp only [RangeInclusive.Overlaps]
        omega

variable {old : RangeInclusive}

/-- Collecting touched ranges in a coalescing set merges none of them. -/
theorem ranges_computeOverlappingRanges (proper : r.start ≤ r.stop) :
    old ∈ (computeOverlappingRanges s r).ranges ↔ old ∈ s.ranges ∧ Touches old r :=
  stored_subset (fun _ => mem_computeOverlappingRanges proper) old

variable {ranges : List RangeInclusive}

theorem mem_insertDistinct {set : List RangeInclusive} : r ∈ insertDistinct set ranges ↔ r ∈ set ∨ r ∈ ranges := by
  unfold insertDistinct
  induction ranges generalizing set with
  | nil => simp
  | cons _ _ ih =>
    simp only [foldl_cons, ih, mem_insert_iff, mem_cons]
    tauto

theorem nodup_insertDistinct {set : List RangeInclusive} (distinct : set.Nodup) :
    (insertDistinct set ranges).Nodup := by
  induction ranges generalizing set with
  | nil => exact distinct
  | cons _ _ ih => exact ih (distinct.insert)

/-- The gap that `compute_gaps_change` opens below a received range. -/
def opensGap (bv : BookedVersions) (received : RangeInclusive) : Prop := bv.max.getD 0 + 1 < received.start

/-- The stored gaps that a received range rewrites: those it touches and those
the opened gap overlaps. -/
def Rewrites (bv : BookedVersions) (received old : RangeInclusive) : Prop :=
  Touches old received ∨
    (opensGap bv received ∧ old.Overlaps ⟨bv.max.getD 0 + 1, received.start⟩)

theorem gapsStep_insertSet (proper : r.start ≤ r.stop) : x ∈ (gapsStep bv changes r).insertSet ↔ x ∈ changes.insertSet ∨
      (∃ old ∈ bv.needed.ranges, Rewrites bv r old ∧ x ∈ old) ∨
      (opensGap bv r ∧ bv.max.getD 0 + 1 ≤ x ∧ x ≤ r.start) := by
  have touched : (∃ old ∈ (computeOverlappingRanges bv.needed r).ranges, x ∈ old) ↔
      ∃ old ∈ bv.needed.ranges, Touches old r ∧ x ∈ old := by
    rw [← mem_def, mem_computeOverlappingRanges proper]
  simp only [gapsStep, Rewrites, opensGap]
  split
  · rename_i opens
    simp only [RangeInclusiveSet.mem_extend, mem_insert, touched, opens, true_and,
      mem_overlapping, RangeInclusive.mem_mk]
    constructor
    · rintro ((gap | held | ⟨old, stored, touch, inside⟩) | ⟨old, ⟨stored, overlaps⟩, inside⟩)
      · exact .inr (.inr gap)
      · exact .inl held
      · exact .inr (.inl ⟨old, stored, .inl touch, inside⟩)
      · exact .inr (.inl ⟨old, stored, .inr overlaps, inside⟩)
    · rintro (held | ⟨old, stored, touch | overlaps, inside⟩ | gap)
      · exact .inl (.inr (.inl held))
      · exact .inl (.inr (.inr ⟨old, stored, touch, inside⟩))
      · exact .inr ⟨old, ⟨stored, overlaps⟩, inside⟩
      · exact .inl (.inl gap)
  · rename_i closed
    simp [RangeInclusiveSet.mem_extend, touched, closed]

theorem gapsStep_removeRanges (proper : r.start ≤ r.stop) :
    old ∈ (gapsStep bv changes r).removeRanges ↔ old ∈ changes.removeRanges ∨
      (old ∈ bv.needed.ranges ∧ Rewrites bv r old) := by
  simp only [gapsStep, Rewrites, opensGap]
  split
  · rename_i opens
    simp only [mem_insertDistinct, ranges_computeOverlappingRanges proper, opens, true_and, mem_overlapping]
    tauto
  · rename_i closed
    simp [mem_insertDistinct, ranges_computeOverlappingRanges proper, closed]

theorem gapsStep_removeRanges_nodup (distinct : changes.removeRanges.Nodup) :
    (gapsStep bv changes r).removeRanges.Nodup := by
  simp only [gapsStep]
  split
  · exact nodup_insertDistinct (nodup_insertDistinct distinct)
  · exact nodup_insertDistinct distinct

theorem gapsStep_max : (gapsStep bv changes r).max = maxOption changes.max r.stop := by
  simp only [gapsStep]
  split <;> rfl

/-- What the loop over a batch collects, from any accumulator. -/
theorem foldl_gapsStep (proper : ∀ r ∈ ranges, r.start ≤ r.stop) :
    (∀ x, x ∈ (ranges.foldl bv.gapsStep changes).insertSet ↔ x ∈ changes.insertSet ∨
      ∃ r ∈ ranges, (∃ old ∈ bv.needed.ranges, Rewrites bv r old ∧ x ∈ old) ∨
        (opensGap bv r ∧ bv.max.getD 0 + 1 ≤ x ∧ x ≤ r.start)) ∧
    (∀ old, old ∈ (ranges.foldl bv.gapsStep changes).removeRanges ↔ old ∈ changes.removeRanges ∨
      ∃ r ∈ ranges, old ∈ bv.needed.ranges ∧ Rewrites bv r old) ∧
    (ranges.foldl bv.gapsStep changes).max = ranges.foldl (fun held r => maxOption held r.stop) changes.max := by
  induction ranges generalizing changes with
  | nil => simp
  | cons first _ ih =>
    have own := proper first (by simp)
    obtain ⟨inserted, removed, greatest⟩ := @ih (gapsStep bv changes first)
      (fun r member => proper r (by simp [member]))
    refine ⟨fun x => ?_, fun old => ?_, ?_⟩
    · rw [foldl_cons, inserted, gapsStep_insertSet own]
      simp [or_assoc]
    · rw [foldl_cons, removed, gapsStep_removeRanges own]
      simp [or_assoc]
    · rw [foldl_cons, greatest, gapsStep_max, foldl_cons]

/-- Some version of the batch rewrites this stored gap. -/
def Rewritten (bv : BookedVersions) (batch : RangeInclusiveSet) (old : RangeInclusive) : Prop :=
  ∃ r ∈ batch.ranges, Rewrites bv r old

theorem mem_removeRanges :
    old ∈ (bv.computeGapsChange batch).removeRanges ↔ old ∈ bv.needed.ranges ∧ Rewritten bv batch old := by
  simp only [computeGapsChange, (foldl_gapsStep batch.canonical.1).2.1 old, Rewritten]
  constructor
  · rintro (absent | ⟨r, held, stored, rewrites⟩)
    · cases absent
    · exact ⟨stored, r, held, rewrites⟩
  · rintro ⟨stored, r, held, rewrites⟩
    exact .inr ⟨r, held, stored, rewrites⟩

theorem removeRanges_nodup : (bv.computeGapsChange batch).removeRanges.Nodup := by
  simp only [computeGapsChange]
  generalize batch.ranges = ranges
  have collected : ∀ (ranges : List RangeInclusive) (changes : GapsChanges),
      changes.removeRanges.Nodup → (ranges.foldl bv.gapsStep changes).removeRanges.Nodup := by
    intro ranges
    induction ranges with
    | nil => exact fun _ distinct => distinct
    | cons _ _ ih => exact fun _ distinct => ih _ (gapsStep_removeRanges_nodup distinct)
  exact collected ranges _ nodup_nil

theorem mem_insertSet : x ∈ (bv.computeGapsChange batch).insertSet ↔ x ∉ batch ∧
      ((∃ old ∈ bv.needed.ranges, Rewritten bv batch old ∧ x ∈ old) ∨ (bv.max.getD 0 < x ∧ ∃ y ∈ batch, x < y)) := by
  simp only [computeGapsChange, mem_removeAll_set, (foldl_gapsStep batch.canonical.1).1 x, not_mem_empty, false_or]
  constructor
  · rintro ⟨⟨r, held, ⟨old, stored, rewrites, inside⟩ | ⟨_, low, _⟩⟩, outside⟩
    · exact ⟨outside, .inl ⟨old, stored, ⟨r, held, rewrites⟩, inside⟩⟩
    · have proper := batch.canonical.1 r held
      have startHeld : r.start ∈ batch := ⟨r, held, le_rfl, proper⟩
      have notStart : x ≠ r.start := fun same => outside (same ▸ startHeld)
      exact ⟨outside, .inr ⟨by omega, r.start, startHeld, by omega⟩⟩
  · rintro ⟨outside, ⟨old, stored, ⟨r, held, rewrites⟩, inside⟩ | ⟨low, y, ⟨r, held, inside⟩, _⟩⟩
    · exact ⟨⟨r, held, .inl ⟨old, stored, rewrites, inside⟩⟩, outside⟩
    · have below : x < r.start := by
        by_contra within
        simp only [RangeInclusive.mem_def] at inside
        exact outside ⟨r, held, by simp only [RangeInclusive.mem_def]; omega⟩
      exact ⟨⟨r, held, .inr ⟨by simp only [opensGap]; omega, by omega, by omega⟩⟩, outside⟩

/-- The needed versions after a batch: those needed before and those the batch
jumps over, less those it holds. No assumption on the state before. -/
theorem mem_needed : x ∈ (bv.computeAndApplyGaps batch).1.needed ↔ x ∉ batch ∧
      (x ∈ bv.needed ∨ (bv.max.getD 0 < x ∧ ∃ y ∈ batch, x < y)) := by
  simp only [computeAndApplyGaps, mem_extend_set, mem_removeAll, mem_insertSet, mem_removeRanges]
  constructor
  · rintro (⟨⟨old, stored, inside⟩, untouched⟩ | ⟨outside, ⟨old, stored, _, inside⟩ | jumped⟩)
    · refine ⟨?_, .inl ⟨old, stored, inside⟩⟩
      rintro ⟨r, held, received⟩
      refine untouched old ⟨stored, r, held, .inl ?_⟩ inside
      simp only [RangeInclusive.mem_def] at inside received
      exact ⟨by omega, by omega⟩
    · exact ⟨outside, .inl ⟨old, stored, inside⟩⟩
    · exact ⟨outside, .inr jumped⟩
  · rintro ⟨outside, ⟨old, stored, inside⟩ | jumped⟩
    · by_cases rewritten : Rewritten bv batch old
      · exact .inr ⟨outside, .inl ⟨old, stored, rewritten, inside⟩⟩
      · refine .inl ⟨⟨old, stored, inside⟩, ?_⟩
        rintro other ⟨otherStored, otherRewritten⟩ otherInside
        simp only [RangeInclusive.mem_def] at inside otherInside
        have same := stored_unique stored otherStored ⟨by omega, by omega⟩
        exact rewritten (same ▸ otherRewritten)
    · exact .inr ⟨outside, .inr jumped⟩

variable {version : Nat}

theorem reaches_foldl {max : Option Nat} : Reaches (ranges.foldl (fun held r => maxOption held r.stop) max) version ↔
      Reaches max version ∨ ∃ r ∈ ranges, version ≤ r.stop := by
  induction ranges generalizing max with
  | nil => simp
  | cons _ _ ih =>
    simp [ih, reaches_maxOption, or_assoc]

theorem reaches_max :
    Reaches (bv.computeAndApplyGaps batch).1.max version ↔ Reaches bv.max version ∨ ∃ y ∈ batch, version ≤ y := by
  simp only [computeAndApplyGaps, computeGapsChange, (foldl_gapsStep batch.canonical.1).2.2, reaches_foldl]
  refine or_congr Iff.rfl ⟨?_, ?_⟩
  · rintro ⟨r, held, below⟩
    exact ⟨r.stop, ⟨r, held, batch.canonical.1 r held, le_rfl⟩, below⟩
  · rintro ⟨y, ⟨r, held, inside⟩, below⟩
    simp only [RangeInclusive.mem_def] at inside
    exact ⟨r, held, by omega⟩

@[simp] theorem computeAndApplyGaps_partials : (bv.computeAndApplyGaps batch).1.partials = bv.partials := rfl

@[simp] theorem computeAndApplyGaps_actorId : (bv.computeAndApplyGaps batch).1.actorId = bv.actorId := rfl

theorem containsVersion_iff : bv.containsVersion version = true ↔ version ∉ bv.needed ∧ version ≤ bv.max.getD 0 := by
  simp [containsVersion, mem_def, RangeInclusive.mem_def]

theorem contains_iff {seqs : Option CrsqlSeqRange} :
    bv.contains version seqs = true ↔ bv.containsVersion version = true ∧ ∀ held, bv.partials[version]? = some held →
        ∃ checked, seqs = some checked ∧ ∀ seq ∈ checked, seq ∈ held.seqs := by
  rw [contains.eq_def, Bool.and_eq_true]
  refine and_congr Iff.rfl ?_
  cases seqs with
  | none =>
    cases held : bv.partials[version]? with
    | none | some got => simp [contains_eq_isSome_getElem?, held]
  | some checked => cases bv.partials[version]? <;> simp

theorem containsAll_iff {versions : CrsqlDbVersionRange} {seqs : Option CrsqlSeqRange} :
    bv.containsAll versions seqs = true ↔ ∀ version ∈ versions, bv.contains version seqs = true := by
  simp [containsAll]

/-! ### Partial versions -/

variable {version other : Nat} {chunk : PartialVersion}

/-- What `insert_partial` leaves under a version: the seqs are united, the
`last_seq` and `ts` recorded first stay. -/
def mergePartial (held : Option PartialVersion) (chunk : PartialVersion) : PartialVersion :=
  match held with
  | none => chunk
  | some got => { got with seqs := got.seqs.extend chunk.seqs.ranges }

@[simp] theorem mergePartial_none : mergePartial none chunk = chunk := rfl

theorem mem_mergePartial {held : Option PartialVersion} :
    seq ∈ (mergePartial held chunk).seqs ↔ (∃ got, held = some got ∧ seq ∈ got.seqs) ∨ seq ∈ chunk.seqs := by
  cases held with
  | none => simp [mergePartial]
  | some got =>
    simp only [mergePartial, mem_extend_set, Option.some.injEq, exists_eq_left']

theorem insertPartial_partials : (bv.insertPartial version chunk).1.partials[other]? =
      if version = other then some (mergePartial bv.partials[version]? chunk)
      else bv.partials[other]? := by
  unfold insertPartial mergePartial
  cases bv.partials[version]? <;> simp [Std.ExtTreeMap.getElem?_insert]

theorem insertPartial_reaches : Reaches (bv.insertPartial version chunk).1.max x ↔
      Reaches bv.max x ∨ (bv.partials[version]? = none ∧ x ≤ version) := by
  unfold insertPartial
  cases bv.partials[version]? with
  | none => simp [reaches_maxOption]
  | some _ => simp

@[simp] theorem insertPartial_needed : (bv.insertPartial version chunk).1.needed = bv.needed := by
  unfold insertPartial
  cases bv.partials[version]? <;> rfl

@[simp] theorem insertPartial_actorId : (bv.insertPartial version chunk).1.actorId = bv.actorId := by
  unfold insertPartial
  cases bv.partials[version]? <;> rfl

variable {given : List (Nat × PartialVersion)}

theorem insertPartials_eq_foldl :
    (bv.insertPartials given).1 = given.foldl (fun bv entry => (bv.insertPartial entry.1 entry.2).1) bv := by
  have folded : ∀ (given : List (Nat × PartialVersion)) (bv : BookedVersions) (completed : List Nat),
      (given.foldl mergeStep (bv, completed)).1 =
        given.foldl (fun bv entry => (bv.insertPartial entry.1 entry.2).1) bv := by
    intro given
    induction given with
    | nil => exact fun _ _ => rfl
    | cons _ _ ih => exact fun _ _ => ih _ _
  exact folded given bv []

/-- Merging a batch whose versions are distinct merges each of them once. -/
theorem insertPartials_partials (distinct : given.Pairwise (fun a b => a.1 ≠ b.1)) :
    (∀ chunk, (version, chunk) ∈ given →
      (bv.insertPartials given).1.partials[version]? = some (mergePartial bv.partials[version]? chunk)) ∧
    ((∀ chunk, (version, chunk) ∉ given) → (bv.insertPartials given).1.partials[version]? = bv.partials[version]?) := by
  rw [insertPartials_eq_foldl]
  induction given generalizing bv with
  | nil => simp
  | cons first _ ih =>
    obtain ⟨firstNew, restDistinct⟩ := pairwise_cons.mp distinct
    obtain ⟨present, absent⟩ := @ih (bv.insertPartial first.1 first.2).1 restDistinct
    simp only [foldl_cons]
    constructor
    · intro chunk member
      rcases mem_cons.mp member with rfl | later
      · rw [absent (fun chunk again => firstNew _ again rfl), insertPartial_partials, if_pos rfl]
      · rw [present chunk later, insertPartial_partials, if_neg (firstNew _ later)]
    · intro missing
      have notFirst : first.1 ≠ version := by
        rintro rfl
        exact missing first.2 (by simp)
      rw [absent (fun chunk member => missing chunk (by simp [member])), insertPartial_partials, if_neg notFirst]

theorem insertPartials_reaches (below : ∀ entry ∈ given, Reaches bv.max entry.1) :
    Reaches (bv.insertPartials given).1.max x ↔ Reaches bv.max x := by
  rw [insertPartials_eq_foldl]
  induction given generalizing bv with
  | nil => rfl
  | cons first _ ih =>
    have same : ∀ x, Reaches (bv.insertPartial first.1 first.2).1.max x ↔ Reaches bv.max x := by
      intro x
      rw [insertPartial_reaches]
      constructor
      · rintro (held | ⟨_, low⟩)
        · exact held
        · obtain ⟨m, is, _⟩ := below first (by simp)
          exact ⟨m, is, by omega⟩
      · exact .inl
    rw [foldl_cons, ih (fun entry member => (same _).mpr (below entry (by simp [member]))), same]

theorem insertPartials_needed : (bv.insertPartials given).1.needed = bv.needed := by
  rw [insertPartials_eq_foldl]
  induction given generalizing bv with
  | nil => rfl
  | cons _ _ ih => rw [foldl_cons, ih, insertPartial_needed]

theorem insertPartials_actorId : (bv.insertPartials given).1.actorId = bv.actorId := by
  rw [insertPartials_eq_foldl]
  induction given generalizing bv with
  | nil => rfl
  | cons _ _ ih => rw [foldl_cons, ih, insertPartial_actorId]

theorem getElem_foldl_erase {held : Map Nat ν} {versions : List Nat} :
    (versions.foldl (fun held v => held.erase v) held)[version]? =
      if version ∈ versions then none else held[version]? := by
  induction versions generalizing held with
  | nil => simp
  | cons first rest ih =>
    rw [foldl_cons, ih, getElem?_erase]
    by_cases later : version ∈ rest
    · simp [later]
    · by_cases same : first = version
      · simp [same]
      · have notSame := Ne.symm same
        simp [later, same, notSame]

theorem mem_clearVersions {versions : RangeInclusiveSet} : version ∈ (bv.computeAndApplyClearPartials versions).2 ↔
      version ∈ versions ∧ ∃ held, bv.partials[version]? = some held := by
  simp only [computeAndApplyClearPartials, mem_filter, mem_flatMap,
    RangeInclusive.mem_toList, ← mem_def, Std.ExtTreeMap.contains_iff_mem,
    Std.ExtTreeMap.mem_iff_isSome_getElem?, Option.isSome_iff_exists]

/-- Clearing forgets exactly the partial versions inside the cleared ranges. -/
theorem clearPartials_partials {versions : RangeInclusiveSet} :
    (bv.computeAndApplyClearPartials versions).1.partials[version]? =
      if version ∈ versions then none else bv.partials[version]? := by
  have cleared := @mem_clearVersions bv version versions
  simp only [computeAndApplyClearPartials] at cleared ⊢
  rw [getElem_foldl_erase]
  by_cases inside : version ∈ versions
  · cases held : bv.partials[version]? with
    | none => simp
    | some got => rw [if_pos (cleared.mpr ⟨inside, got, held⟩), if_pos inside]
  · rw [if_neg (fun member => inside (cleared.mp member).1), if_neg inside]

/-- The chunks of one version in a batch, in order. -/
def chunksOf (version : Nat) (processed : List Processed) : List PartialVersion :=
  processed.filterMap (fun entry => if entry.1.start = version then entry.2 else none)

theorem mem_chunksOf :
    chunk ∈ chunksOf version processed ↔ ∃ versions, (versions, some chunk) ∈ processed ∧ versions.start = version := by
  simp only [chunksOf, mem_filterMap, Option.ite_none_right_eq_some, Prod.exists]
  constructor
  · rintro ⟨versions, _, member, same, rfl⟩
    exact ⟨versions, member, same⟩
  · rintro ⟨versions, member, same⟩
    exact ⟨versions, some chunk, member, same, rfl⟩

/-- Chunks of one version united under the first of them. -/
def unite (chunks : List PartialVersion) : Option PartialVersion :=
  chunks.foldl (fun held chunk => some (mergePartial held chunk)) none

variable {chunks : List PartialVersion}

private theorem foldl_merge {held : Option PartialVersion} :
    (chunks.foldl (fun held chunk => some (mergePartial held chunk)) held = none ↔ held = none ∧ chunks = []) ∧
    ∀ united, chunks.foldl (fun held chunk => some (mergePartial held chunk)) held = some united →
      (∀ seq, seq ∈ united.seqs ↔ (∃ got, held = some got ∧ seq ∈ got.seqs) ∨ ∃ chunk ∈ chunks, seq ∈ chunk.seqs) ∧
      ∀ first, (held.toList ++ chunks).head? = some first → united.lastSeq = first.lastSeq ∧ united.ts = first.ts := by
  induction chunks generalizing held with
  | nil =>
    refine ⟨by simp, fun united is => ?_⟩
    obtain rfl : held = some united := is
    simp
  | cons next _ ih =>
    obtain ⟨absent, present⟩ := @ih (some (mergePartial held next))
    refine ⟨by simp [absent], fun united is => ?_⟩
    obtain ⟨seqs, first⟩ := present united is
    refine ⟨fun seq => ?_, fun head is => ?_⟩
    · rw [seqs seq]
      simp [mem_mergePartial, or_assoc]
    · have origin := first (mergePartial held next) (by simp)
      cases held with
      | none =>
        obtain rfl : next = head := by simpa using is
        exact origin
      | some got =>
        obtain rfl : got = head := by simpa using is
        exact origin

theorem unite_eq_none : unite chunks = none ↔ chunks = [] := by
  simp [unite, foldl_merge.1]

theorem mem_unite (is : unite chunks = some united) : seq ∈ united.seqs ↔ ∃ chunk ∈ chunks, seq ∈ chunk.seqs := by
  have := (foldl_merge.2 united is).1 seq
  simpa using this

theorem unite_head (is : unite chunks = some united)
    (head : chunks.head? = some first) : united.lastSeq = first.lastSeq ∧ united.ts = first.ts :=
  (foldl_merge.2 united is).2 first (by simpa using head)

/-- The map of partial entries holds, for each version, its chunks united. -/
theorem partialVersions_eq : (partialVersions processed)[version]? = unite (chunksOf version processed) := by
  have folded : ∀ (processed : List Processed) (acc : Map Nat PartialVersion),
      (processed.foldl gatherPartial acc)[version]? =
        (chunksOf version processed).foldl (fun held chunk => some (mergePartial held chunk))
          acc[version]? := by
    intro processed
    induction processed with
    | nil => exact fun _ => rfl
    | cons entry _ ih =>
      intro acc
      rw [foldl_cons, ih]
      obtain ⟨versions, known⟩ := entry
      cases known with
      | none => simp [chunksOf, gatherPartial]
      | some p =>
        by_cases same : versions.start = version
        · subst same
          cases held : acc[versions.start]? <;> simp [chunksOf, gatherPartial, held, mergePartial]
        · cases held : acc[versions.start]? <;>
            simp [chunksOf, gatherPartial, held, same, Std.ExtTreeMap.getElem?_insert]
  have start := folded processed ∅
  rwa [Std.ExtTreeMap.getElem?_empty] at start

/-! ### A whole batch -/

variable {processed : List Processed}

theorem mem_processedVersions : x ∈ processedVersions processed ↔ ∃ entry ∈ processed, x ∈ entry.1 := by
  simp [processedVersions]

theorem mem_completeVersions :
    x ∈ completeVersions processed ↔ ∃ versions, (versions, none) ∈ processed ∧ x ∈ versions := by
  simp only [completeVersions, mem_ofRanges, mem_filterMap, Prod.exists]
  constructor
  · rintro ⟨versions, ⟨entry, known, member, is⟩, inside⟩
    cases known with
    | none =>
      obtain rfl : entry = versions := by simpa using is
      exact ⟨entry, member, inside⟩
    | some _ => simp at is
  · rintro ⟨versions, member, inside⟩
    exact ⟨versions, ⟨versions, none, member, by simp⟩, inside⟩

theorem mem_needed_computeAndApply : x ∈ (bv.computeAndApply processed).1.needed ↔ x ∉ processedVersions processed ∧
      (x ∈ bv.needed ∨ (bv.max.getD 0 < x ∧ ∃ y ∈ processedVersions processed, x < y)) := by
  rw [← mem_needed]
  simp only [computeAndApply, computeAndApplyPartials, insertPartials_needed, computeAndApplyClearPartials]

theorem computeAndApply_actorId : (bv.computeAndApply processed).1.actorId = bv.actorId := by
  simp only [computeAndApply, computeAndApplyPartials, insertPartials_actorId,
    computeAndApplyClearPartials, computeAndApplyGaps_actorId]

/-- A partial entry names a version of its own range, so merging it never moves
the maximum past what the gap computation already made it. -/
theorem reaches_computeAndApply (proper : ∀ entry ∈ processed, entry.1.start ≤ entry.1.stop) :
    Reaches (bv.computeAndApply processed).1.max x ↔ Reaches bv.max x ∨ ∃ y ∈ processedVersions processed, x ≤ y := by
  rw [← reaches_max]
  simp only [computeAndApply, computeAndApplyPartials]
  rw [insertPartials_reaches]
  · rfl
  · intro entry member
    have given := mem_toList_iff_getElem?_eq_some.mp member
    rw [partialVersions_eq] at given
    cases chunks : chunksOf entry.1 processed with
    | nil => simp [chunks, unite] at given
    | cons chunk _ =>
      obtain ⟨versions, listed, start⟩ := mem_chunksOf.mp (chunks ▸ mem_cons_self : chunk ∈ chunksOf entry.1 processed)
      refine reaches_max.mpr (.inr ⟨versions.start, ?_, by omega⟩)
      exact mem_processedVersions.mpr ⟨_, listed, le_rfl, proper _ listed⟩

/-- What a batch leaves of one partial version: complete entries clear it first,
then the chunks of the batch are merged into what is left. -/
theorem computeAndApply_partials : (bv.computeAndApply processed).1.partials[version]? =
      let cleared := if version ∈ completeVersions processed then none else bv.partials[version]?
      match unite (chunksOf version processed) with
      | none => cleared
      | some united => some (mergePartial cleared united) := by
  obtain ⟨present, absent⟩ := @insertPartials_partials
    (computeAndApplyClearPartials (bv.computeAndApplyGaps (processedVersions processed)).1
      (completeVersions processed)).1 version _ toList_distinct
  simp only [computeAndApply, computeAndApplyPartials]
  cases united : unite (chunksOf version processed) with
  | none =>
    rw [absent, clearPartials_partials, computeAndApplyGaps_partials]
    intro chunk member
    have given := Std.ExtTreeMap.mem_toList_iff_getElem?_eq_some.mp member
    rw [partialVersions_eq, united] at given
    cases given
  | some chunk =>
    rw [present chunk, clearPartials_partials, computeAndApplyGaps_partials]
    exact Std.ExtTreeMap.mem_toList_iff_getElem?_eq_some.mpr (by rw [partialVersions_eq, united])

theorem mem_processedVersions_of_chunk (proper : ∀ entry ∈ processed, entry.1.start ≤ entry.1.stop)
    (listed : chunk ∈ chunksOf version processed) : version ∈ processedVersions processed := by
  obtain ⟨_, entry, start⟩ := mem_chunksOf.mp listed
  have upright := proper _ entry
  simp only [mem_processedVersions]
  refine ⟨_, entry, ?_⟩
  simp only [RangeInclusive.mem_def] at upright ⊢
  omega

/-- A version with chunks in the batch is partial afterwards. -/
theorem computeAndApply_chunks (chunks : chunksOf version processed ≠ []) :
    ∃ merged, (bv.computeAndApply processed).1.partials[version]? = some merged ∧ ∀ seq, seq ∈ merged.seqs ↔
        (version ∉ completeVersions processed ∧ ∃ held, bv.partials[version]? = some held ∧ seq ∈ held.seqs) ∨
        ∃ chunk ∈ chunksOf version processed, seq ∈ chunk.seqs := by
  rw [computeAndApply_partials]
  cases united : unite (chunksOf version processed) with
  | none => exact absurd (unite_eq_none.mp united) chunks
  | some chunk =>
    refine ⟨_, rfl, fun seq => ?_⟩
    rw [mem_mergePartial, mem_unite united]
    by_cases complete : version ∈ completeVersions processed <;> simp [complete]

/-- A version without chunks in the batch stays as it was unless it is cleared. -/
theorem computeAndApply_no_chunks (chunks : chunksOf version processed = []) :
    (bv.computeAndApply processed).1.partials[version]? =
      if version ∈ completeVersions processed then none else bv.partials[version]? := by
  rw [computeAndApply_partials, unite_eq_none.mpr chunks]

/-- The versions of a batch are known afterwards, and so is what was known. -/
theorem containsVersion_computeAndApply (proper : ∀ entry ∈ processed, entry.1.start ≤ entry.1.stop)
    (known : version ∈ processedVersions processed ∨ bv.containsVersion version = true) :
    (bv.computeAndApply processed).1.containsVersion version = true := by
  rw [containsVersion_iff, mem_needed_computeAndApply, le_getD_iff, reaches_computeAndApply proper]
  rcases known with received | known
  · exact ⟨fun missing => missing.1 received, .inr (.inr ⟨version, received, le_rfl⟩)⟩
  · obtain ⟨notNeeded, below⟩ := containsVersion_iff.mp known
    refine ⟨?_, (le_getD_iff.mp below).imp_right .inl⟩
    rintro ⟨_, needed | ⟨_, _⟩⟩
    · exact notNeeded needed
    · omega

end Galvanize.BookieProofs
