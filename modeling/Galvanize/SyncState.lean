import Galvanize.BookieDb

/-! `corro-types/src/sync.rs`: what a node tells a peer about its bookkeeping,
and what it asks for once it has the peer's answer. -/
namespace Galvanize

/-- `SyncNeedV1`. -/
inductive SyncNeedV1 where
  | full (versions : CrsqlDbVersionRange)
  | partialVersion (version : Nat) (seqs : List CrsqlSeqRange)
  | empty (ts : Option Timestamp)
deriving DecidableEq

inductive SyncNeedValidationError where
  | invertedFull (start stop : Nat)
  | invertedPartial (version start stop : Nat)
deriving DecidableEq

def SyncNeedValidationError.message : SyncNeedValidationError → String
  | invertedFull start stop =>
    s!"invalid full sync range: start {start} is greater than end {stop}"
  | invertedPartial version start stop =>
    s!"invalid partial sync range at version {version}: start {start} is greater than end {stop}"

/-- The first inverted range is reported. -/
def validateRanges {ε : Type} (error : Nat → Nat → ε) (ranges : List RangeInclusive) : Except ε Unit :=
  match ranges.find? (fun r => r.stop < r.start) with
  | some r => .error (error r.start r.stop)
  | none => .ok ()

namespace SyncNeedV1

def validate : SyncNeedV1 → Except SyncNeedValidationError Unit
  | full versions => validateRanges .invertedFull [versions]
  | partialVersion version seqs => validateRanges (.invertedPartial version) seqs
  | empty _ => .ok ()

def count : SyncNeedV1 → Nat
  | full versions => versions.stop + 1 - versions.start
  | partialVersion _ _ => 1
  | empty _ => 1

end SyncNeedV1

/-- `SyncStateV1`. -/
structure SyncStateV1 where
  actorId : ActorId
  heads : Map ActorId Nat
  need : Map ActorId (List RangeInclusive)
  partialNeed : Map ActorId (Map Nat (List RangeInclusive))
  lastClearedTs : Option Timestamp

inductive SyncStateValidationError where
  | invertedNeed (actorId : ActorId) (start stop : Nat)
  | invertedPartialNeed (actorId : ActorId) (version start stop : Nat)
deriving DecidableEq

def SyncStateValidationError.message : SyncStateValidationError → String
  | invertedNeed actorId start stop =>
    let actor := actorId.toHex
    s!"invalid need range for actor {actor}: start {start} is greater than end {stop}"
  | invertedPartialNeed actorId version start stop =>
    let actor := actorId.toHex
    s!"invalid partial need range for actor {actor} at version {version}: start {start} is greater than end {stop}"

namespace SyncStateV1
variable (self other : SyncStateV1) (actorId : ActorId)

def validate : Except SyncStateValidationError Unit := do
  self.need.toList.forM (fun (actorId, ranges) => validateRanges (.invertedNeed actorId) ranges)
  self.partialNeed.toList.forM (fun (actorId, partials) =>
    partials.toList.forM (fun (version, ranges) =>
      validateRanges (.invertedPartialNeed actorId version) ranges))

def needFor : List RangeInclusive := self.need[actorId]?.getD []

def partialNeedFor : Map Nat (List RangeInclusive) :=
  self.partialNeed[actorId]?.getD ∅

/-- "all the versions they fully have" -/
def haves (head : Nat) : RangeInclusiveSet :=
  let haves : RangeInclusiveSet := .ofRanges [⟨1, head⟩]
  let haves := haves.removeAll (self.needFor actorId)
  haves.removeAll ((self.partialNeedFor actorId).toList.map (fun entry => .single entry.1))

/-- The seqs a peer has of a version it holds in part. Neither side says what the
last seq is: the greatest seq one of them lacks stands in for it. -/
def seqHaves (ours theirs : List RangeInclusive) : RangeInclusiveSet :=
  match max (theirs.map RangeInclusive.stop).max? (ours.map RangeInclusive.stop).max? with
  | some stop => (RangeInclusiveSet.ofRanges [⟨0, stop⟩]).removeAll theirs
  | none => ∅

/-- The part of `compute_available_needs` for a version we hold in part. -/
def partialNeeds (other : SyncStateV1) (actorId : ActorId) (haves : RangeInclusiveSet)
    (entry : Nat × List RangeInclusive) : List SyncNeedV1 :=
  if entry.1 ∈ haves then [.partialVersion entry.1 entry.2]
  else
    match (other.partialNeedFor actorId)[entry.1]? with
    | some theirs =>
      let seqs := entry.2.flatMap (seqHaves entry.2 theirs).intersections
      if seqs.isEmpty then [] else [.partialVersion entry.1 seqs]
    | none => []

/-- The versions above our head. -/
def missing (head : Nat) : List SyncNeedV1 :=
  match self.heads[actorId]? with
  | some ourHead => if head > ourHead then [.full ⟨ourHead + 1, head⟩] else []
  | none => [.full ⟨1, head⟩]

/-- The turn of `compute_available_needs` for one head of the peer. -/
def needsOf (head : Nat) : List SyncNeedV1 :=
  if actorId = self.actorId ∨ head = 0 then []
  else
    let haves := other.haves actorId head
    (self.needFor actorId).flatMap (fun range => (haves.intersections range).map .full) ++
      (self.partialNeedFor actorId).toList.flatMap (other.partialNeeds actorId haves) ++
      self.missing actorId head

/-- `compute_available_needs`. An actor without needs gets no entry. -/
def computeAvailableNeeds :
    Except SyncStateValidationError (Map ActorId (List SyncNeedV1)) := do
  self.validate
  other.validate
  return other.heads.toList.foldl (fun needs (actorId, head) =>
    match self.needsOf other actorId head with
    | [] => needs
    | listed => needs.insert actorId listed) ∅

end SyncStateV1

/-- The seqs a version lacks. -/
def PartialVersion.lacked (self : PartialVersion) : List RangeInclusive := (self.seqs.gaps self.fullRange).ranges

/-- One turn of `generate_sync`: an actor without a maximum is left out. -/
def syncStep (state : SyncStateV1) (entry : ActorId × BookedVersions) : SyncStateV1 :=
  match entry.2.last with
  | none => state
  | some last =>
    let need := entry.2.needed.ranges
    -- a partial version that is effectively complete is not listed
    let partials := entry.2.partials.toList.filter (fun (_, held) => !held.isComplete)
    { state with
      heads := state.heads.insert entry.1 last
      need := if need.isEmpty then state.need else state.need.insert entry.1 need
      partialNeed := partials.foldl (fun map (version, held) =>
        map.alter entry.1 (fun versions =>
          some ((versions.getD ∅).insert version held.lacked))) state.partialNeed }

/-- `generate_sync`. -/
def generateSync (bookie : Bookie) (selfActorId : ActorId) : SyncStateV1 :=
  bookie.toList.foldl syncStep ⟨selfActorId, ∅, ∅, ∅, none⟩

end Galvanize
