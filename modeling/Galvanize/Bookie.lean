import Galvanize.BaseTypes

/-! `corro-types/src/bookie.rs`: what a node knows about the versions of one
actor, and how a batch of processed versions changes it. The in-memory update
and the rows to write are computed together; `BookieDb` carries the rows to the
tables. -/
namespace Galvanize

/-- `agent.rs::PartialVersion`: the sequences of a version received so far. -/
structure PartialVersion where
  seqs : RangeInclusiveSet
  lastSeq : Nat
  ts : Timestamp
deriving DecidableEq

namespace PartialVersion

def fullRange (self : PartialVersion) : RangeInclusive := ⟨0, self.lastSeq⟩

def isComplete (self : PartialVersion) : Bool := (self.seqs.gaps self.fullRange).isEmpty

end PartialVersion

/-- `BookedVersions`: everything at or below `max` is known unless it is
`needed`, and a version in `partials` is known but incomplete. -/
structure BookedVersions where
  actorId : ActorId
  partials : Map Nat PartialVersion
  needed : RangeInclusiveSet
  max : Option Nat
deriving DecidableEq

/-- `GapsChanges`: the gap ranges to delete and to insert, in memory and in
`__corro_bookkeeping_gaps`. `remove_ranges` is a `HashSet`, a list without
repetitions here. -/
structure GapsChanges where
  max : Option Nat
  insertSet : RangeInclusiveSet
  removeRanges : List RangeInclusive

/-- `PartialChanges`: the same for the seq ranges of one version. -/
structure PartialChanges where
  removeSeqs : RangeInclusiveSet
  insertSeqs : RangeInclusiveSet

structure ComputedPartialSeqChange where
  version : Nat
  changes : PartialChanges
  lastSeq : Nat
  ts : Timestamp

structure ComputedChanges where
  actorId : ActorId
  gaps : GapsChanges
  clearVersions : List Nat
  partialSeqChanges : List ComputedPartialSeqChange

/-- `compute_overlapping_ranges`: the stored ranges that overlap `range`, the
one that ends just before it and the one that starts just after it. -/
def computeOverlappingRanges (checkRanges : RangeInclusiveSet) (range : RangeInclusive) : RangeInclusiveSet :=
  let overlapping := (∅ : RangeInclusiveSet).extend (checkRanges.overlapping range)
  let overlapping :=
    if 0 < range.start then overlapping.extend (checkRanges.get (range.start - 1)).toList
    else overlapping
  overlapping.extend (checkRanges.get (range.stop + 1)).toList

/-- `HashSet::extend`. -/
def insertDistinct (set ranges : List RangeInclusive) : List RangeInclusive :=
  ranges.foldl (fun set range => set.insert range) set

namespace BookedVersions

def new (actorId : ActorId) : BookedVersions := ⟨actorId, ∅, ∅, none⟩

@[simp] theorem new_actorId (actorId : ActorId) : (new actorId).actorId = actorId := rfl

@[simp] theorem new_partials (actorId : ActorId) : (new actorId).partials = ∅ := rfl

@[simp] theorem new_needed (actorId : ActorId) : (new actorId).needed = ∅ := rfl

@[simp] theorem new_max (actorId : ActorId) : (new actorId).max = none := rfl

variable (self : BookedVersions) (version : Nat)

/-- `contains_version`: at or below `max` and in no needed range. -/
def containsVersion : Bool :=
  !self.needed.ranges.any (fun range => range.start ≤ version && version ≤ range.stop) &&
    self.max.getD 0 ≥ version

def getPartial : Option PartialVersion := self.partials[version]?

/-- `contains`: without `seqs` the question is about the whole version, which a
partial version does not answer. -/
def contains (seqs : Option CrsqlSeqRange) : Bool :=
  self.containsVersion version &&
    match seqs with
    | some checkSeqs =>
      match self.partials[version]? with
      | some known => checkSeqs.toList.all (fun seq => decide (seq ∈ known.seqs))
      -- known and not partial: fully applied or cleared
      | none => true
    | none => !self.partials.contains version

def containsAll (versions : CrsqlDbVersionRange) (seqs : Option CrsqlSeqRange) : Bool :=
  versions.toList.all (fun version => self.contains version seqs)

def last : Option Nat := self.max

/-- `insert_partial`: the first chunk of a version fixes `last_seq` and `ts`;
later ones only add their seqs. Returns the merged partial version. -/
def insertPartial (given : PartialVersion) : BookedVersions × PartialVersion :=
  match self.partials[version]? with
  | none =>
    ({ self with max := maxOption self.max version, partials := self.partials.insert version given },
      given)
  | some got =>
    let merged := { got with seqs := got.seqs.extend given.seqs.ranges }
    ({ self with partials := self.partials.insert version merged }, merged)

/-- The condition `insert_partial` asserts: "last_seq matches for partial version". -/
def lastSeqMatches (given : PartialVersion) : Bool :=
  match self.partials[version]? with
  | none => true
  | some got => got.lastSeq == given.lastSeq

/-- That condition for each of these versions, merged one after the other. -/
def mergesMatch (self : BookedVersions) : List (Nat × PartialVersion) → Bool
  | [] => true
  | (version, given) :: rest =>
    self.lastSeqMatches version given && (self.insertPartial version given).1.mergesMatch rest

/-- One turn of the first loop of `compute_gaps_change`. The maximum compared
with is `self.max`, whatever earlier ranges of the batch did to `changes.max`. -/
def gapsStep (changes : GapsChanges) (versions : RangeInclusive) : GapsChanges :=
  let max := maxOption changes.max versions.stop
  let overlappingRanges := computeOverlappingRanges self.needed versions
  let insertSet := changes.insertSet.extend overlappingRanges.ranges
  let removeRanges := insertDistinct changes.removeRanges overlappingRanges.ranges
  let currentMax := self.max.getD 0
  let gapStart := currentMax + 1
  if gapStart < versions.start then
    -- the gap ends at the received start itself, which is subtracted at the end
    let range : RangeInclusive := ⟨gapStart, versions.start⟩
    let covered := self.needed.overlapping range
    { max
      insertSet := (insertSet.insert range).extend covered
      removeRanges := insertDistinct removeRanges covered }
  else { max, insertSet, removeRanges }

/-- `compute_gaps_change`. -/
def computeGapsChange (versions : RangeInclusiveSet) : GapsChanges :=
  let changes := versions.ranges.foldl self.gapsStep ⟨self.max, ∅, []⟩
  { changes with insertSet := changes.insertSet.removeAll versions.ranges }

/-- One turn of the loop of `compute_partials_change`. -/
def partialsStep (existing : PartialVersion) (changes : PartialChanges) (seq : RangeInclusive) : PartialChanges :=
  let ranges := computeOverlappingRanges existing.seqs seq
  { insertSeqs := changes.insertSeqs.extend ranges.ranges
    removeSeqs := changes.removeSeqs.extend ranges.ranges }

/-- `compute_partials_change`. -/
def computePartialsChange (given : PartialVersion) : PartialChanges :=
  let touched : PartialChanges :=
    match self.partials[version]? with
    | some existing => given.seqs.ranges.foldl (partialsStep existing) ⟨∅, ∅⟩
    | none => ⟨∅, ∅⟩
  { touched with insertSeqs := touched.insertSeqs.extend given.seqs.ranges }

/-- `compute_and_apply_gaps`. -/
def computeAndApplyGaps (dbVersions : RangeInclusiveSet) : BookedVersions × GapsChanges :=
  let gaps := self.computeGapsChange dbVersions
  ({ self with
      needed := (self.needed.removeAll gaps.removeRanges).extend gaps.insertSet.ranges
      max := gaps.max },
    gaps)

/-- `compute_and_apply_clear_partials`. -/
def computeAndApplyClearPartials (versions : RangeInclusiveSet) : BookedVersions × List Nat :=
  let clearVersions :=
    (versions.ranges.flatMap RangeInclusive.toList).filter (fun v => self.partials.contains v)
  ({ self with partials := clearVersions.foldl (fun partials v => partials.erase v) self.partials },
    clearVersions)

/-- One turn of the merge loop of `compute_and_apply_partials`. -/
def mergeStep (state : BookedVersions × List Nat) (entry : Nat × PartialVersion) : BookedVersions × List Nat :=
  let (bv, merged) := state.1.insertPartial entry.1 entry.2
  (bv, if merged.isComplete then state.2 ++ [entry.1] else state.2)

def insertPartials (given : List (Nat × PartialVersion)) : BookedVersions × List Nat :=
  given.foldl mergeStep (self, [])

/-- `compute_and_apply_partials`: every row change is computed before the first
version is merged. -/
def computeAndApplyPartials (given : Map Nat PartialVersion) :
    BookedVersions × List ComputedPartialSeqChange × List Nat :=
  let partialSeqChanges := given.toList.map (fun (version, chunk) =>
    { version, changes := self.computePartialsChange version chunk
      lastSeq := chunk.lastSeq, ts := chunk.ts : ComputedPartialSeqChange })
  let (bv, completed) := self.insertPartials given.toList
  (bv, partialSeqChanges, completed)

/-- A processed change: its versions, and what is known of it if it is partial. -/
abbrev Processed := CrsqlDbVersionRange × Option PartialVersion

variable (processed : List Processed)

def processedVersions : RangeInclusiveSet := .ofRanges (processed.map Prod.fst)

def completeVersions : RangeInclusiveSet :=
  .ofRanges (processed.filterMap (fun (versions, chunk) =>
    if chunk.isNone then some versions else none))

/-- One turn of the fold that gathers the partial entries of a batch: chunks of
one version are united under the `last_seq` and `ts` of the first. -/
def gatherPartial (acc : Map Nat PartialVersion) (entry : Processed) : Map Nat PartialVersion :=
  match entry.2 with
  | some p =>
    match acc[entry.1.start]? with
    | some existing =>
      acc.insert entry.1.start { existing with seqs := existing.seqs.extend p.seqs.ranges }
    | none => acc.insert entry.1.start p
  | none => acc

def partialVersions : Map Nat PartialVersion := processed.foldl gatherPartial ∅

/-- `compute_and_apply`: gaps, then clears, then partials. -/
def computeAndApply :
    BookedVersions × ComputedChanges × List Nat :=
  let (bv, gaps) := self.computeAndApplyGaps (processedVersions processed)
  let (bv, clearVersions) := bv.computeAndApplyClearPartials (completeVersions processed)
  let (bv, partialSeqChanges, completed) := bv.computeAndApplyPartials (partialVersions processed)
  (bv, { actorId := self.actorId, gaps, clearVersions, partialSeqChanges }, completed)

/-- Whether every assertion made on the way through `compute_and_apply` holds. -/
def assertionsHold : Bool :=
  let (bv, _) := self.computeAndApplyGaps (processedVersions processed)
  let (bv, _) := bv.computeAndApplyClearPartials (completeVersions processed)
  bv.mergesMatch (partialVersions processed).toList

end BookedVersions

end Galvanize
