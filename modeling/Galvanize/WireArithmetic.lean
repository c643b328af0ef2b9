import Galvanize.WellFormedMessages
import Galvanize.RequestDistribution

/-! The arithmetic that is done with ranges from the wire, in 64 bits: how much a peer
needs, what a change costs, which gaps a version leaves. The readers only exclude inverted
ranges, so the ends may be anything that a `u64` can hold. -/
namespace Galvanize
open Plumtree (Build Fault)
open ByteCodec RangeInclusive List

/-! ### Computations in machine words -/

/-- A computation has this result in every build exactly if it is safe; a development build
that returns at all was safe. -/
structure Computes {α : Type} (run : Build → Except Fault α) (value : α) (safe : Prop) : Prop where
  exact : safe → ∀ build, run build = .ok value
  checked : ∀ other, run .dev = .ok other → safe

namespace Computes
variable {α β : Type} {run : Build → Except Fault α} {value : α}

theorem iff (computes : Computes run value safe) : (∀ build, run build = .ok value) ↔ safe :=
  ⟨fun each => computes.checked value (each .dev), computes.exact⟩

theorem congr (computes : Computes run value safe) (same : safe ↔ safer) : Computes run value safer where
  exact is := computes.exact (same.mpr is)
  checked other ok := same.mp (computes.checked other ok)

theorem pure (value : α) : Computes (fun _ => .ok value) value True where
  exact _ _ := rfl
  checked _ _ := trivial

theorem bind {next : Build → α → Except Fault β} (first : Computes run value safe)
    (second : safe → Computes (fun build => next build value) result safer) :
    Computes (fun build => run build >>= next build) result (safe ∧ safer) where
  exact both build := by
    rw [first.exact both.1]
    exact (second both.1).exact both.2 build
  checked other ok := by
    obtain ⟨middle, isMiddle, rest⟩ := bind_ok ok
    have is := first.checked middle isMiddle
    cases isMiddle.symm.trans (first.exact is .dev)
    exact ⟨is, (second is).checked other rest⟩

theorem map (computes : Computes run value safe) (f : α → β) :
    Computes (fun build => (run build).map f) (f value) safe where
  exact is build := by
    rw [computes.exact is]
    rfl
  checked other ok := by
    obtain ⟨middle, isMiddle, -⟩ := map_ok ok
    exact computes.checked middle isMiddle

theorem fit (max value : Nat) : Computes (fun build => build.fit max value) value (value ≤ max) where
  exact small build := by
    cases build with
    | dev => exact if_pos small
    | release => exact congrArg Except.ok (Nat.mod_eq_of_lt (Nat.lt_succ_of_le small))
  checked other ok := by
    by_contra large
    change (if value ≤ max then Except.ok value else Except.error Fault.overflow) = _ at ok
    rw [if_neg large] at ok
    cases ok

theorem sub (left right : Nat) : Computes (fun build => build.sub left right) (left - right) (right ≤ left) where
  exact small build := by
    cases build with
    | dev => exact if_pos small
    | release => exact congrArg Except.ok (if_pos small)
  checked other ok := by
    by_contra large
    change (if right ≤ left then Except.ok (left - right) else Except.error Fault.overflow) = _ at ok
    rw [if_neg large] at ok
    cases ok

/-- A loop is safe if each of its turns is. -/
theorem foldlM {step : Build → β → α → Except Fault β} {turn : α → Prop} {items : List α}
    (each : ∀ state, ∀ item ∈ items, Computes (fun build => step build state item) (plain state item) (turn item))
    (state : β) :
    Computes (fun build => items.foldlM (step build) state) (items.foldl plain state) (∀ item ∈ items, turn item) := by
  induction items generalizing state with
  | nil => exact (pure state).congr ⟨fun _ _ listed => absurd listed not_mem_nil, fun _ => trivial⟩
  | cons first _ ih =>
    have later := ih fun state item listed => each state item (mem_cons_of_mem _ listed)
    simp only [foldlM_cons, foldl_cons, forall_mem_cons]
    exact (each state first mem_cons_self).bind fun _ => later _

end Computes

/-- The sum of the sizes. -/
def sumOf {α : Type} (size : α → Nat) : List α → Nat
  | [] => 0
  | item :: rest => size item + sumOf size rest

/-- `sum`, term by term. -/
def sumBy {α : Type} (build : Build) (term : α → Except Fault Nat) : List α → Nat → Except Fault Nat
  | [], total => .ok total
  | item :: rest, total => do
    let value ← term item
    let next ← build.fit u64Max (total + value)
    sumBy build term rest next

/-- A sum is safe if its terms are and the whole of it fits: no part of it is larger. -/
theorem Computes.sumBy {term : Build → α → Except Fault Nat} {size : α → Nat} {safe : α → Prop} {items : List α}
    (each : ∀ item ∈ items, Computes (fun build => term build item) (size item) (safe item)) (start : total ≤ u64Max) :
    Computes (fun build => Galvanize.sumBy build (term build) items total) (total + sumOf size items)
      ((∀ item ∈ items, safe item) ∧ total + sumOf size items ≤ u64Max) := by
  induction items generalizing total with
  | nil =>
    refine (Computes.pure total).congr ⟨fun _ => ⟨?_, start⟩, fun _ => trivial⟩
    exact fun _ listed => absurd listed not_mem_nil
  | cons first _ ih =>
    rw [forall_mem_cons, sumOf, ← Nat.add_assoc]
    refine ((each first mem_cons_self).bind fun _ => (Computes.fit u64Max (total + size first)).bind fun small =>
      ih (fun item listed => each item (mem_cons_of_mem _ listed)) small).congr ?_
    constructor
    · rintro ⟨own, -, others, fits⟩
      exact ⟨⟨own, others⟩, fits⟩
    · rintro ⟨⟨own, others⟩, fits⟩
      exact ⟨own, Nat.le_trans (Nat.le_add_right _ _) fits, others, fits⟩

/-! ### Ranges -/

variable (build : Build)

/-- `(end - start) + 1`. -/
def RangeInclusive.countIn (range : RangeInclusive) : Except Fault Nat := do
  let between ← build.sub range.stop range.start
  build.fit u64Max (between + 1)

theorem RangeInclusive.computes_count {range : RangeInclusive} (ordered : range.Ordered) :
    Computes (fun build => range.countIn build) range.len (range.len ≤ u64Max) := by
  have isLen : range.stop - range.start + 1 = range.len := by
    have upright : range.start ≤ range.stop := ordered
    unfold len
    omega
  have computes : Computes (fun build => range.countIn build) (range.stop - range.start + 1)
      (range.start ≤ range.stop ∧ range.stop - range.start + 1 ≤ u64Max) :=
    (Computes.sub range.stop range.start).bind fun _ => Computes.fit u64Max _
  rw [isLen] at computes
  exact computes.congr (and_iff_right ordered)

/-- `len`. -/
def RangeInclusive.lenIn (range : RangeInclusive) : Except Fault Nat :=
  if range.start ≤ range.stop then build.fit u64Max (range.stop - range.start + 1) else .ok 0

theorem RangeInclusive.computes_len (range : RangeInclusive) :
    Computes (fun build => range.lenIn build) range.len (range.len ≤ u64Max) := by
  unfold lenIn
  by_cases ordered : range.start ≤ range.stop
  · have isLen : range.stop - range.start + 1 = range.len := by
      unfold len
      omega
    simp only [if_pos ordered, isLen]
    exact Computes.fit u64Max range.len
  · have isLen : range.len = 0 := by
      unfold len
      omega
    simp only [if_neg ordered, isLen]
    exact (Computes.pure 0).congr ⟨fun _ => Nat.zero_le _, fun _ => trivial⟩

theorem le_sumOf {α : Type} {size : α → Nat} {items : List α} {item : α} (listed : item ∈ items) :
    size item ≤ sumOf size items := by
  induction items with
  | nil => cases listed
  | cons _ _ ih =>
    rcases mem_cons.mp listed with rfl | later
    · exact Nat.le_add_right _ _
    · exact Nat.le_add_left_of_le (ih later)

/-- The ranges of a list are counted if all of them together can be. -/
theorem RangeInclusive.computes_total {ranges : List RangeInclusive} (ordered : ∀ range ∈ ranges, range.Ordered) :
    Computes (fun build => sumBy build (·.countIn build) ranges 0) (sumOf len ranges) (sumOf len ranges ≤ u64Max) := by
  have computes := Computes.sumBy (fun range listed => computes_count (ordered range listed)) (Nat.zero_le u64Max)
  rw [Nat.zero_add] at computes
  refine computes.congr (and_iff_right_of_imp fun fits range listed => ?_)
  exact Nat.le_trans (le_sumOf listed) fits

/-! ### What a peer needs -/

namespace SyncStateV1

variable (state : SyncStateV1)

/-- The ranges of the versions that are needed as a whole. -/
def needRanges : List RangeInclusive := state.need.toList.flatMap (·.2)

/-- The ranges of the seqs that are needed of partial versions. -/
def partialRanges : List RangeInclusive :=
  state.partialNeed.toList.flatMap fun entry => entry.2.toList.flatMap (·.2)

/-- `need_len`: fifty seqs are about one chunk. -/
def needLen : Except Fault Nat := do
  let versions ← sumBy build (·.countIn build) state.needRanges 0
  let seqs ← sumBy build (·.countIn build) state.partialRanges 0
  build.fit u64Max (versions + seqs / 50)

def needLenForActor (actorId : ActorId) : Except Fault Nat := do
  let versions ← sumBy build (·.countIn build) (state.needFor actorId) 0
  build.fit u64Max (versions + (state.partialNeedFor actorId).size)

variable {state}

theorem computes_needLen (ordered : ∀ range ∈ state.ranges, range.Ordered) : Computes (fun build => state.needLen build)
      (sumOf len state.needRanges + sumOf len state.partialRanges / 50)
      (sumOf len state.needRanges + sumOf len state.partialRanges / 50 ≤ u64Max ∧
        sumOf len state.partialRanges ≤ u64Max) := by
  have versions :=
    @RangeInclusive.computes_total state.needRanges fun range listed => ordered range (mem_append_left _ listed)
  have seqs :=
    @RangeInclusive.computes_total state.partialRanges fun range listed => ordered range (mem_append_right _ listed)
  have whole : Computes (fun build => state.needLen build) _ (_ ∧ _ ∧ _) :=
    versions.bind fun _ => seqs.bind fun _ => Computes.fit u64Max _
  refine whole.congr ?_
  constructor
  · rintro ⟨-, fits, whole⟩
    exact ⟨whole, fits⟩
  · rintro ⟨whole, fits⟩
    exact ⟨Nat.le_trans (Nat.le_add_right _ _) whole, fits, whole⟩

theorem mem_needFor {actorId : ActorId} {range : RangeInclusive} (listed : range ∈ state.needFor actorId) :
    range ∈ state.ranges := by
  unfold needFor at listed
  cases found : state.need[actorId]? with
  | none =>
    rw [found] at listed
    cases listed
  | some ranges =>
    rw [found] at listed
    apply mem_append_left
    exact mem_flatMap.mpr ⟨(actorId, ranges), Std.ExtTreeMap.mem_toList_iff_getElem?_eq_some.mpr found, listed⟩

theorem computes_needLenForActor (ordered : ∀ range ∈ state.ranges, range.Ordered) (actorId : ActorId) :
    Computes (fun build => state.needLenForActor build actorId)
      (sumOf len (state.needFor actorId) + (state.partialNeedFor actorId).size)
      (sumOf len (state.needFor actorId) + (state.partialNeedFor actorId).size ≤ u64Max) := by
  have versions :=
    @RangeInclusive.computes_total (state.needFor actorId) fun range listed => ordered range (mem_needFor listed)
  have whole : Computes (fun build => state.needLenForActor build actorId) _ (_ ∧ _) :=
    versions.bind fun _ => Computes.fit u64Max _
  refine whole.congr ?_
  exact and_iff_right_of_imp fun whole => Nat.le_trans (Nat.le_add_right _ _) whole

end SyncStateV1

/-- `count`. -/
def SyncNeedV1.countIn : SyncNeedV1 → Except Fault Nat
  | .full versions => versions.lenIn build
  | .partialVersion _ _ => .ok 1
  | .empty _ => .ok 1

theorem SyncNeedV1.computes_count (need : SyncNeedV1) :
    Computes (fun build => need.countIn build) need.count (∀ versions, need = .full versions →
      versions.len ≤ u64Max) := by
  cases need with
  | full versions =>
    refine versions.computes_len.congr ⟨?_, fun each => each versions rfl⟩
    intro small _ same
    cases same
    exact small
  | partialVersion version seqs | empty ts =>
    refine (Computes.pure 1).congr ⟨fun _ versions same => ?_, fun _ => trivial⟩
    cases same

/-- The splitting of a need ends unless its range runs up to the last number. -/
theorem chunkNeed_ends_iff (ordered : ∀ range ∈ need.ranges, range.Ordered) :
    (∃ fuel chunks, chunkNeed fuel need = some chunks) ↔ ∀ versions, need = .full versions →
      versions.stop < u64Max := by
  cases need with
  | full versions =>
    constructor
    · rintro ⟨fuel, chunks, ok⟩ other same
      cases same
      by_contra endless
      have never := @RequestDistribution.collect_endless fuel (chunkedIter versions 10) (ordered versions mem_cons_self)
        (Nat.le_of_not_lt endless)
      rw [chunkNeed, never] at ok
      cases ok
    · intro each
      have ends := @RequestDistribution.collect_ends (versions.stop + 1 - versions.start + 1) (chunkedIter versions 10)
        (each versions rfl) (Nat.succ_pos 9) (Nat.lt_succ_self _)
      obtain ⟨ranges, isRanges⟩ := Option.isSome_iff_exists.mp ends
      exact ⟨_, ranges.map .full, by rw [chunkNeed, isRanges]; rfl⟩
  | partialVersion version seqs | empty ts =>
    refine ⟨fun _ versions same => ?_, fun _ => ⟨0, _, rfl⟩⟩
    cases same

/-! ### What a change costs -/

/-- `len` of the changes of a `FullV2`. -/
def ChangesetPerTable.lenIn (changes : ChangesetPerTable) : Except Fault Nat :=
  sumBy build (fun table => sumBy build (fun row => .ok row.2.length) table.2.entries 0) changes.entries 0

def Changeset.processingCostIn : Changeset → Except Fault Nat
  | .empty versions _ => (versions.lenIn build).map fun len => min len 20
  | .emptySet versions _ => sumBy build (fun range => (range.lenIn build).map fun len => min len 20) versions 0
  | .full _ changes _ _ _ => .ok changes.length
  | .fullV2 _ _ changes _ _ _ => changes.lenIn build

/-- What a change costs can be counted: no range of cleared versions has all the numbers
there are, and the changes of the tables are not too many. -/
def Changeset.Countable : Changeset → Prop
  | .empty versions _ => versions.len ≤ u64Max
  | .emptySet versions _ => ∀ range ∈ versions, range.len ≤ u64Max
  | .full _ _ _ _ _ => True
  | .fullV2 actorId version changes lastSeq seqs ts => (Changeset.fullV2 actorId version changes lastSeq
    seqs ts).len ≤ u64Max

section
variable {α : Type} {size : α → Nat} {items : List α}

theorem foldl_add_sumOf : items.foldl (fun total item => total + size item) total = total + sumOf size items := by
  induction items generalizing total with
  | nil => rfl
  | cons _ _ ih => rw [foldl_cons, ih, sumOf, Nat.add_assoc]

theorem sumOf_le {bound : Nat} (each : ∀ item, size item ≤ bound) : sumOf size items ≤ bound * items.length := by
  induction items with
  | nil => exact Nat.zero_le _
  | cons first _ ih =>
    rw [sumOf, length_cons, Nat.mul_succ, Nat.add_comm]
    exact Nat.add_le_add ih (each first)

theorem length_flatMap_sumOf : (items.flatMap f).length = sumOf (fun item => (f item).length) items := by
  induction items with
  | nil => rfl
  | cons _ _ ih => rw [flatMap_cons, length_append, ih, sumOf]

end

theorem RangeInclusive.computes_cost (range : RangeInclusive) :
    Computes (fun build => (range.lenIn build).map fun len => min len 20) (min range.len 20) (range.len ≤ u64Max) :=
  range.computes_len.map fun len => min len 20

theorem ChangesetPerTable.computes_len (changes : ChangesetPerTable) :
    Computes (fun build => changes.lenIn build)
      (sumOf (fun table => sumOf (·.2.length) table.2.entries) changes.entries)
      (sumOf (fun table => sumOf (·.2.length) table.2.entries) changes.entries ≤ u64Max) := by
  have rows : ∀ table ∈ changes.entries,
      Computes (fun build => sumBy build (fun row : List UInt8 × List ColumnChange => .ok row.2.length)
        table.2.entries 0) (sumOf (·.2.length) table.2.entries) (sumOf (·.2.length) table.2.entries ≤ u64Max) := by
    intro table _
    have computes := Computes.sumBy (fun row (_ : row ∈ table.2.entries) => Computes.pure row.2.length)
      (Nat.zero_le u64Max)
    rw [Nat.zero_add] at computes
    exact computes.congr (and_iff_right fun _ _ => trivial)
  have whole := Computes.sumBy rows (Nat.zero_le u64Max)
  rw [Nat.zero_add] at whole
  refine whole.congr (and_iff_right_of_imp fun fits table listed => ?_)
  have part := @le_sumOf _ (fun table : String × ChangesetPerTablePk => sumOf (·.2.length) table.2.entries) _ _ listed
  exact Nat.le_trans part fits

theorem Changeset.computes_cost {changeset : Changeset} (accepted : Wire.changeset.Accepted changeset) :
    Computes (fun build => changeset.processingCostIn build) changeset.processingCost changeset.Countable := by
  cases changeset with
  | empty versions ts => exact versions.computes_cost
  | emptySet versions ts =>
    have held :
      (kind (pair (list Wire.range) Wire.u64) Wire.emptySetKind).Accepted (Wire.emptySetKind.build (versions, ts)) :=
      accepted_enum rfl accepted
    have short : versions.length < 4294967296 := (accepted_kind.mp held).1.1
    have small : sumOf (fun range : RangeInclusive => min range.len 20) versions ≤ u64Max := by
      have bounded := @sumOf_le _ (fun range : RangeInclusive => min range.len 20) versions 20 fun _ =>
        Nat.min_le_right _ _
      unfold u64Max
      omega
    have whole := Computes.sumBy (fun range (_ : range ∈ versions) => range.computes_cost) (Nat.zero_le u64Max)
    rw [Nat.zero_add, ← Nat.zero_add (sumOf _ _), ← foldl_add_sumOf] at whole
    refine whole.congr ⟨And.left, fun each => ⟨each, ?_⟩⟩
    rw [foldl_add_sumOf, Nat.zero_add]
    exact small
  | full version changes seqs lastSeq ts => exact Computes.pure changes.length
  | fullV2 actorId version changes lastSeq seqs ts =>
    have isLen : sumOf (fun table => sumOf (·.2.length) table.2.entries) changes.entries =
        (Changeset.fullV2 actorId version changes lastSeq seqs ts).len := by
      simp only [Changeset.len, length_flatMap_sumOf]
    have whole := ChangesetPerTable.computes_len changes
    rw [isLen] at whole
    exact whole

/-! ### Which gaps a version leaves -/

/-- `compute_overlapping_ranges`, with the two neighbours looked up by their ends. -/
def computeOverlappingRangesIn (checkRanges : RangeInclusiveSet) (range : RangeInclusive) :
    Except Fault RangeInclusiveSet := do
  let overlapping := (∅ : RangeInclusiveSet).extend (checkRanges.overlapping range)
  let overlapping :=
    if 0 < range.start then overlapping.extend (checkRanges.get (range.start - 1)).toList
    else overlapping
  let following ← build.fit u64Max (range.stop + 1)
  .ok (overlapping.extend (checkRanges.get following).toList)

theorem computes_overlapping (checkRanges : RangeInclusiveSet) (range : RangeInclusive) :
    Computes (fun build => computeOverlappingRangesIn build checkRanges range)
      (computeOverlappingRanges checkRanges range) (range.stop < u64Max) := by
  have whole : Computes (fun build => computeOverlappingRangesIn build checkRanges range) _ (_ ∧ _) :=
    (Computes.fit u64Max (range.stop + 1)).bind fun _ => Computes.pure _
  exact whole.congr (and_iff_left trivial)

namespace BookedVersions

/-- What one range of `compute_gaps_change` does, once its neighbours and the first version
above the maximum are known. -/
def gapsFrom (self : BookedVersions) (changes : GapsChanges) (versions : RangeInclusive)
    (overlappingRanges : RangeInclusiveSet) (gapStart : Nat) : GapsChanges :=
  let max := maxOption changes.max versions.stop
  let insertSet := changes.insertSet.extend overlappingRanges.ranges
  let removeRanges := insertDistinct changes.removeRanges overlappingRanges.ranges
  if gapStart < versions.start then
    let range : RangeInclusive := ⟨gapStart, versions.start⟩
    let covered := self.needed.overlapping range
    { max
      insertSet := (insertSet.insert range).extend covered
      removeRanges := insertDistinct removeRanges covered }
  else { max, insertSet, removeRanges }

def gapsStepIn (self : BookedVersions) (changes : GapsChanges) (versions : RangeInclusive) :
    Except Fault GapsChanges := do
  let overlappingRanges ← computeOverlappingRangesIn build self.needed versions
  let gapStart ← build.fit u64Max (self.max.getD 0 + 1)
  .ok (self.gapsFrom changes versions overlappingRanges gapStart)

/-- `compute_gaps_change`. -/
def computeGapsChangeIn (self : BookedVersions) (versions : RangeInclusiveSet) : Except Fault GapsChanges := do
  let changes ← versions.ranges.foldlM (self.gapsStepIn build) ⟨self.max, ∅, []⟩
  .ok { changes with insertSet := changes.insertSet.removeAll versions.ranges }

theorem computes_gapsStep (self : BookedVersions) (changes : GapsChanges) (versions : RangeInclusive) :
    Computes (fun build => self.gapsStepIn build changes versions) (self.gapsStep changes versions)
      (versions.stop < u64Max ∧ self.max.getD 0 < u64Max) := by
  have whole : Computes (fun build => self.gapsStepIn build changes versions) _ (_ ∧ _ ∧ _) :=
    (computes_overlapping self.needed versions).bind fun _ => (Computes.fit u64Max (self.max.getD 0 + 1)).bind
      fun _ => Computes.pure _
  exact whole.congr (and_congr_right fun _ => and_iff_left trivial)

theorem computes_gapsChange (self : BookedVersions) (versions : RangeInclusiveSet) :
    Computes (fun build => self.computeGapsChangeIn build versions) (self.computeGapsChange versions)
      (∀ range ∈ versions.ranges, range.stop < u64Max ∧ self.max.getD 0 < u64Max) := by
  have whole : Computes (fun build => self.computeGapsChangeIn build versions) _ (_ ∧ _) :=
    (Computes.foldlM (fun changes range _ => self.computes_gapsStep changes range) _).bind fun _ => Computes.pure _
  exact whole.congr (and_iff_left trivial)

end BookedVersions

/-! ### Values from the wire -/

/-- In every build the numbers are the right ones, and the splitting of a need ends, exactly
under these conditions: what is counted together has to fit into 64 bits, no need may run up
to the last number, and neither may a version or the greatest version that is known. -/
theorem wire_arithmetic_iff (bytes : List UInt8) (booked : BookedVersions) (versions : RangeInclusiveSet) :
    (∀ state, Wire.syncStateV1.read.run bytes = .ok state → ((∀ build, state.needLen build =
          .ok (sumOf RangeInclusive.len state.needRanges + sumOf RangeInclusive.len state.partialRanges / 50)) ↔
        sumOf RangeInclusive.len state.needRanges + sumOf RangeInclusive.len state.partialRanges / 50 ≤ u64Max ∧
          sumOf RangeInclusive.len state.partialRanges ≤ u64Max) ∧
      ∀ actorId, (∀ build, state.needLenForActor build actorId =
          .ok (sumOf RangeInclusive.len (state.needFor actorId) + (state.partialNeedFor actorId).size)) ↔
        sumOf RangeInclusive.len (state.needFor actorId) + (state.partialNeedFor actorId).size ≤ u64Max) ∧
    (∀ need, Wire.syncNeedV1.read.run bytes = .ok need →
      ((∀ build, need.countIn build = .ok need.count) ↔ ∀ versions, need = .full versions → versions.len ≤ u64Max) ∧
      ((∃ fuel chunks, chunkNeed fuel need = some chunks) ↔ ∀ versions, need = .full versions →
        versions.stop < u64Max)) ∧ (∀ change, Wire.changeV1.read.run bytes = .ok change →
      ((∀ build, change.changeset.processingCostIn build = .ok change.processingCost) ↔ change.changeset.Countable)) ∧
    ((∀ build, booked.computeGapsChangeIn build versions = .ok (booked.computeGapsChange versions)) ↔
      ∀ range ∈ versions.ranges, range.stop < u64Max ∧ booked.max.getD 0 < u64Max) := by
  refine ⟨?_, ?_, ?_, (booked.computes_gapsChange versions).iff⟩
  · intro state ok
    have ordered := state.validate_ranges (Wire.syncStateV1.yields.run ok).2
    exact ⟨(state.computes_needLen ordered).iff, fun actorId => (state.computes_needLenForActor ordered actorId).iff⟩
  · intro need ok
    have ordered := need.validate_ranges (Wire.syncNeedV1.yields.run ok).2
    exact ⟨need.computes_count.iff, chunkNeed_ends_iff ordered⟩
  · intro change ok
    exact (Changeset.computes_cost (Wire.changeV1.yields.run ok).1.2).iff

/-- All the numbers there are, as a need. -/
def allVersions : RangeInclusive := ⟨0, u64Max⟩

def needBytes (stop : UInt8) : List UInt8 := List.replicate 12 0 ++ List.replicate 8 stop

/-- A need for all versions is decoded; it cannot be counted, and its splitting never ends.
The same range as cleared versions has no cost, and the bookkeeping cannot take it. -/
theorem last_number_overflows : Wire.syncNeedV1.read.run (needBytes 255) = .ok (.full allVersions) ∧
      (SyncNeedV1.full allVersions).countIn .dev = .error .overflow ∧
      (∀ fuel, chunkNeed fuel (.full allVersions) = none) ∧
      Wire.changeV1.read.run (List.replicate 16 0 ++ needBytes 255 ++ [0]) = .ok ⟨0, .empty allVersions none⟩ ∧
      (Changeset.empty allVersions none).processingCostIn .dev = .error .overflow ∧
      (BookedVersions.new 0).computeGapsChangeIn .dev (.ofRanges [allVersions]) = .error .overflow := by
  refine ⟨rfl, rfl, fun fuel => ?_, rfl, rfl, rfl⟩
  have never := @RequestDistribution.collect_endless fuel (chunkedIter allVersions 10) (Nat.zero_le _) le_rfl
  rw [chunkNeed, never]
  rfl

/-- Most versions there are, from the first one on. -/
def mostVersions : RangeInclusive := ⟨0, 0xfefefefefefefefe⟩

/-- A need for most versions is counted and split. -/
theorem most_versions_counted : Wire.syncNeedV1.read.run (needBytes 0xfe) = .ok (.full mostVersions) ∧
      (∀ build, (SyncNeedV1.full mostVersions).countIn build = .ok 0xfefefefefefefeff) ∧
      ∃ fuel chunks, chunkNeed fuel (.full mostVersions) = some chunks := by
  have decoded : Wire.syncNeedV1.read.run (needBytes 0xfe) = .ok (.full mostVersions) := rfl
  obtain ⟨counts, ends⟩ := (wire_arithmetic_iff (needBytes 0xfe) (.new 0) ∅).2.1 _ decoded
  refine ⟨decoded, counts.mpr ?_, ends.mpr ?_⟩
  · intro versions same
    cases same
    decide
  · intro versions same
    cases same
    decide

end Galvanize
