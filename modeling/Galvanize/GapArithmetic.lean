import Galvanize.BookieInvariant
import Galvanize.WireArithmetic

/-! The gap bookkeeping in machine words. A batch that ends at the last `u64` makes
`compute_overlapping_ranges` and `compute_gaps_change` add one to it: a development build
stops there, and a release build goes on with version zero. Below that number both builds
compute what `Bookie` says over natural numbers, and the gap invariant with it. -/
namespace Galvanize
open Plumtree (Build Fault)
open List

/-- A loop over items, each with a result of its own, is safe if each of its turns is. -/
theorem Computes.mapM {α β : Type} {f : Build → α → Except Fault β} {plain : α → β} {turn : α → Prop} {items : List α}
    (each : ∀ item, Computes (fun build => f build item) (plain item) (turn item)) :
    Computes (fun build => items.mapM (f build)) (items.map plain) (∀ item ∈ items, turn item) := by
  induction items with
  | nil => exact (pure []).congr ⟨fun _ _ listed => absurd listed not_mem_nil, fun _ => trivial⟩
  | cons first items ih =>
    simp only [mapM_cons, map_cons, forall_mem_cons]
    exact (each first).bind fun _ => ih.map (plain first :: ·)

namespace BookedVersions
variable (build : Build) (self : BookedVersions)

/-! ### The calls -/

/-- `compute_and_apply_gaps`. -/
def computeAndApplyGapsIn (dbVersions : RangeInclusiveSet) : Except Fault (BookedVersions × GapsChanges) := do
  let gaps ← self.computeGapsChangeIn build dbVersions
  .ok ({ self with
      needed := (self.needed.removeAll gaps.removeRanges).extend gaps.insertSet.ranges
      max := gaps.max },
    gaps)

def partialsStepIn (existing : PartialVersion) (changes : PartialChanges) (seq : RangeInclusive) :
    Except Fault PartialChanges := do
  let ranges ← computeOverlappingRangesIn build existing.seqs seq
  .ok
    { insertSeqs := changes.insertSeqs.extend ranges.ranges
      removeSeqs := changes.removeSeqs.extend ranges.ranges }

/-- `compute_partials_change`. -/
def computePartialsChangeIn (version : Nat) (given : PartialVersion) : Except Fault PartialChanges := do
  let touched ←
    match self.partials[version]? with
    | some existing => given.seqs.ranges.foldlM (partialsStepIn build existing) ⟨∅, ∅⟩
    | none => .ok ⟨∅, ∅⟩
  .ok { touched with insertSeqs := touched.insertSeqs.extend given.seqs.ranges }

def computedPartialIn (entry : Nat × PartialVersion) : Except Fault ComputedPartialSeqChange := do
  let changes ← self.computePartialsChangeIn build entry.1 entry.2
  .ok { version := entry.1, changes, lastSeq := entry.2.lastSeq, ts := entry.2.ts }

/-- `compute_and_apply_partials`. -/
def computeAndApplyPartialsIn (given : Map Nat PartialVersion) :
    Except Fault (BookedVersions × List ComputedPartialSeqChange × List Nat) := do
  let partialSeqChanges ← given.toList.mapM (self.computedPartialIn build)
  let (bv, completed) := self.insertPartials given.toList
  .ok (bv, partialSeqChanges, completed)

/-- `compute_and_apply`. -/
def computeAndApplyIn (processed : List Processed) : Except Fault (BookedVersions × ComputedChanges × List Nat) := do
  let (bv, gaps) ← self.computeAndApplyGapsIn build (processedVersions processed)
  let (bv, clearVersions) := bv.computeAndApplyClearPartials (completeVersions processed)
  let (bv, partialSeqChanges, completed) ← bv.computeAndApplyPartialsIn build (partialVersions processed)
  .ok (bv, { actorId := self.actorId, gaps, clearVersions, partialSeqChanges }, completed)

/-! ### When they are exact -/

/-- No end of the batch, and not the maximum, is the last number. -/
def GapsFit (versions : RangeInclusiveSet) : Prop :=
  ∀ range ∈ versions.ranges, range.stop < u64Max ∧ self.max.getD 0 < u64Max

/-- No chunk of a version that is held in part ends at the last number. -/
def SeqsFit (given : Map Nat PartialVersion) : Prop :=
  ∀ entry ∈ given.toList, self.partials[entry.1]? ≠ none → ∀ seq ∈ entry.2.seqs.ranges, seq.stop < u64Max

theorem computes_computeAndApplyGaps (versions : RangeInclusiveSet) :
    Computes (fun build => self.computeAndApplyGapsIn build versions) (self.computeAndApplyGaps versions)
      (self.GapsFit versions) := by
  have whole : Computes (fun build => self.computeAndApplyGapsIn build versions) _ (_ ∧ _) :=
    (self.computes_gapsChange versions).bind fun _ => Computes.pure _
  exact whole.congr (and_iff_left trivial)

theorem computes_partialsStep (existing : PartialVersion) (changes : PartialChanges) (seq : RangeInclusive) :
    Computes (fun build => partialsStepIn build existing changes seq) (partialsStep existing changes seq)
      (seq.stop < u64Max) := by
  have whole : Computes (fun build => partialsStepIn build existing changes seq) _ (_ ∧ _) :=
    (computes_overlapping existing.seqs seq).bind fun _ => Computes.pure _
  exact whole.congr (and_iff_left trivial)

theorem computes_computePartialsChange (version : Nat) (given : PartialVersion) :
    Computes (fun build => self.computePartialsChangeIn build version given) (self.computePartialsChange version given)
      (self.partials[version]? ≠ none → ∀ seq ∈ given.seqs.ranges, seq.stop < u64Max) := by
  unfold computePartialsChangeIn computePartialsChange
  cases self.partials[version]? with
  | none =>
    exact (Computes.pure _).congr ⟨fun _ held => absurd rfl held, fun _ => trivial⟩
  | some existing =>
    have loop :=
      @Computes.foldlM _ _ _ _ _ given.seqs.ranges (fun changes seq _ => computes_partialsStep existing changes seq)
        ⟨∅, ∅⟩
    have whole := loop.map fun touched => { touched with insertSeqs := touched.insertSeqs.extend given.seqs.ranges }
    exact whole.congr ⟨fun fits _ => fits, fun fits => fits (Option.some_ne_none existing)⟩

theorem computes_computedPartial (entry : Nat × PartialVersion) :
    Computes (fun build => self.computedPartialIn build entry)
      ⟨entry.1, self.computePartialsChange entry.1 entry.2, entry.2.lastSeq, entry.2.ts⟩
      (self.partials[entry.1]? ≠ none → ∀ seq ∈ entry.2.seqs.ranges, seq.stop < u64Max) :=
  (self.computes_computePartialsChange entry.1 entry.2).map fun changes =>
    ComputedPartialSeqChange.mk entry.1 changes entry.2.lastSeq entry.2.ts

theorem computes_computeAndApplyPartials (given : Map Nat PartialVersion) :
    Computes (fun build => self.computeAndApplyPartialsIn build given) (self.computeAndApplyPartials given)
      (self.SeqsFit given) := by
  have whole : Computes (fun build => self.computeAndApplyPartialsIn build given) _ (_ ∧ _) :=
    (Computes.mapM self.computes_computedPartial).bind fun _ => Computes.pure _
  exact whole.congr (and_iff_left trivial)

/-- The state `compute_and_apply` comes to its partial versions with. -/
def beforePartials (processed : List Processed) : BookedVersions :=
  ((self.computeAndApplyGaps (processedVersions processed)).1.computeAndApplyClearPartials
    (completeVersions processed)).1

theorem computes_computeAndApply (processed : List Processed) :
    Computes (fun build => self.computeAndApplyIn build processed) (self.computeAndApply processed)
      (self.GapsFit (processedVersions processed) ∧
        (self.beforePartials processed).SeqsFit (partialVersions processed)) := by
  have whole : Computes (fun build => self.computeAndApplyIn build processed) _ (_ ∧ _ ∧ _) :=
    (self.computes_computeAndApplyGaps (processedVersions processed)).bind fun _ =>
      ((self.beforePartials processed).computes_computeAndApplyPartials (partialVersions processed)).bind fun _ =>
        Computes.pure _
  exact whole.congr (and_congr_right fun _ => and_iff_left trivial)

end BookedVersions

/-! ### Runs -/

namespace BookieInvariant

/-- A call as a build computes it. -/
def Call.applyIn (build : Build) (bv : BookedVersions) : Call → Except Fault BookedVersions
  | gaps versions => (bv.computeAndApplyGapsIn build versions).map Prod.fst
  | entries processed => (bv.computeAndApplyIn build processed).map Prod.fst

def runIn (build : Build) (bv : BookedVersions) (calls : List Call) : Except Fault BookedVersions :=
  calls.foldlM (Call.applyIn build) bv

/-- The call has nothing to do with the last number: neither the ends of its versions nor the
maximum it finds, nor the seqs of a chunk it adds to others. -/
def Call.Fits (bv : BookedVersions) : Call → Prop
  | gaps versions => bv.GapsFit versions
  | entries processed => bv.GapsFit (BookedVersions.processedVersions processed) ∧
    (bv.beforePartials processed).SeqsFit (BookedVersions.partialVersions processed)

theorem Call.computes_apply (bv : BookedVersions) (call : Call) :
    Computes (fun build => call.applyIn build bv) (call.apply bv) (call.Fits bv) := by
  cases call with
  | gaps versions => exact (bv.computes_computeAndApplyGaps versions).map Prod.fst
  | entries processed => exact (bv.computes_computeAndApply processed).map Prod.fst

theorem computes_run (bv : BookedVersions) (calls : List Call) :
    Computes (fun build => runIn build bv calls) (run bv calls)
    (∀ before call, before ++ [call] <+: calls → call.Fits (run bv before)) := by
  induction calls generalizing bv with
  | nil => exact (Computes.pure bv).congr ⟨fun _ => kept_nil, fun _ => trivial⟩
  | cons first calls ih =>
    have whole :
      Computes (fun build => first.applyIn build bv >>= (runIn build · calls)) (run bv (first :: calls)) (_ ∧ _) :=
      (first.computes_apply bv).bind fun _ => ih (first.apply bv)
    simp only [runIn, foldlM_cons]
    refine whole.congr ⟨fun both => kept_cons both.1 both.2,
      fun each => ⟨each [] first ?_, fun before call leads => ?_⟩⟩
    · exact prefix_append [first] calls
    · exact each (first :: before) call (cons_prefix_cons.mpr ⟨rfl, leads⟩)

/-- What the bookkeeping is after the calls: its maximum is the greatest end handed over, and
it needs exactly the versions from one to the maximum that no batch had, so not the maximum. -/
structure GapInvariant (calls : List Call) (bv : BookedVersions) : Prop where
  max : ∀ m, bv.max = some m ↔ IsGreatest (ends calls) m
  needed : ∀ version, version ∈ bv.needed ↔
    (1 ≤ version ∧ ∃ m, bv.max = some m ∧ version ≤ m) ∧ ∀ call ∈ calls, version ∉ call.versions
  maxKnown : ∀ m, bv.max = some m → m ∉ bv.needed

/-- Batches handed to an empty `BookedVersions` are taken in every build, with the gap invariant
after them, exactly if no batch has to do with the last number. -/
theorem gap_invariant_iff (actorId : ActorId) (calls : List Call) (proper : ∀ call ∈ calls, call.Proper) :
    (∀ build, ∃ after, runIn build (.new actorId) calls = .ok after ∧ GapInvariant calls after) ↔
      ∀ before call, before ++ [call] <+: calls → call.Fits (run (.new actorId) before) := by
  have computes := computes_run (.new actorId) calls
  constructor
  · intro each
    obtain ⟨after, ran, -⟩ := each .dev
    exact computes.checked after ran
  · intro fits build
    obtain ⟨max, needed, maxKnown⟩ := needed_is_what_the_batches_lack actorId calls proper
    exact ⟨_, computes.exact fits build, max, needed, maxKnown⟩

/-- Batches out of order, and one that ends just below the last number. -/
def threeBatches : List Call :=
  [.gaps (.ofRanges [⟨9, 10⟩, ⟨5, 5⟩]), .entries [(⟨2, 5⟩, none)], .gaps (.ofRanges [⟨u64Max - 1, u64Max - 1⟩])]

theorem gap_invariant_near_the_end :
    (∃ after, runIn .dev (.new 7) threeBatches = .ok after ∧ GapInvariant threeBatches after) ∧
      ∃ after, runIn .release (.new 7) threeBatches = .ok after ∧ GapInvariant threeBatches after := by
  have each := (gap_invariant_iff 7 threeBatches (by simp [threeBatches, Call.Proper])).mpr
  refine ⟨each ?_ .dev, each ?_ .release⟩
  all_goals refine kept_cons ?_ (kept_cons ⟨?_, ?_⟩ (kept_cons ?_ kept_nil))
  all_goals
    simp only [Call.Fits, BookedVersions.GapsFit, BookedVersions.SeqsFit]
    decide

/-- After all versions from one on, a batch with version ten: a development build stops at the
first batch, and a release build needs versions zero to nine. -/
theorem last_version_makes_gaps :
    let calls := [Call.gaps (.ofRanges [⟨1, u64Max⟩]), Call.gaps (.ofRanges [⟨10, 10⟩])]
    runIn .dev (.new 7) calls = .error .overflow ∧
      ∃ after, runIn .release (.new 7) calls = .ok after ∧ after.max = some u64Max ∧ after.needed.ranges = [⟨0, 9⟩] ∧
        ¬GapInvariant calls after := by
  refine ⟨rfl, _, rfl, rfl, rfl, fun invariant => ?_⟩
  have zero := ((invariant.needed 0).mp ⟨⟨0, 9⟩, mem_singleton_self _, by decide⟩).1.1
  omega

end BookieInvariant
end Galvanize
