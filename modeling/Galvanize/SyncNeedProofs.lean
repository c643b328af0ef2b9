import Galvanize.BookieProofs
import Galvanize.SyncState

/-! What the needs computed from two sync states ask for, in terms of the two
bookkeeping states behind them. A sync state holds heads, gaps and the seqs that
partial versions lack; the first lemmas say exactly which, and every later one
works on the bookkeeping. -/
namespace Galvanize.SyncNeedProofs
open BookedVersions BookieProofs SyncStateV1 Std.ExtTreeMap Option RangeInclusiveSet

variable {bookie ours theirs : Bookie} {self other actor : ActorId} {version seq : Nat}
  {need : SyncNeedV1}

/-! ### What a node tells -/

/-- The seqs each incomplete version lacks. -/
def lackedSeqs (bv : BookedVersions) : Map Nat (List RangeInclusive) :=
  (bv.partials.toList.filter (fun (_, held) => !held.isComplete)).foldl
    (fun map (version, held) => map.insert version held.lacked) ∅

variable {bv : BookedVersions}

theorem getElem_lackedSeqs : (lackedSeqs bv)[version]? =
    (bv.partials[version]?.filter (fun held => !held.isComplete)).map (fun held => held.lacked) := by
  obtain ⟨present, absent⟩ := @foldl_view _ _ _ _
    (fun (map : Map Nat (List RangeInclusive)) (entry : Nat × PartialVersion) =>
      map.insert entry.1 entry.2.lacked) (fun map version => map[version]?)
    (fun _ held _ => some held.lacked)
    (fun map version held => by simp) (fun map version held other different => by
      simp [getElem?_insert, different])
    (bv.partials.toList.filter (fun (_, held) => !held.isComplete)) (toList_distinct.filter _) ∅ version
  simp only [List.mem_filter, mem_toList_iff_getElem?_eq_some, Bool.not_eq_true'] at present absent
  cases held : bv.partials[version]? with
  | none => exact (absent fun held' listed => by simp [held] at listed).trans (by simp)
  | some got =>
    cases complete : got.isComplete with
    | true =>
      refine (absent fun held' listed => ?_).trans (by simp [complete])
      obtain ⟨is, incomplete⟩ := listed
      rw [held, some.injEq] at is
      rw [is, incomplete] at complete
      cases complete
    | false => exact (present got ⟨held, complete⟩).trans (by simp [complete])

/-- What a sync state says of one actor. -/
structure Told where
  head : Option Nat
  need : List RangeInclusive
  partialNeed : Map Nat (List RangeInclusive)

def told (state : SyncStateV1) (actor : ActorId) : Told :=
  ⟨state.heads[actor]?, state.needFor actor, state.partialNeedFor actor⟩

private theorem foldl_alter {entries : List (Nat × PartialVersion)}
    {map : Map ActorId (Map Nat (List RangeInclusive))} :
    (entries.foldl (fun map (version, held) => map.alter actor (fun versions =>
      some ((versions.getD ∅).insert version held.lacked))) map)[other]?.getD ∅ =
      if actor = other then entries.foldl (fun map (version, held) =>
        map.insert version held.lacked) (map[other]?.getD ∅)
      else map[other]?.getD ∅ := by
  induction entries generalizing map with
  | nil => simp
  | cons _ _ ih =>
    rw [List.foldl_cons, ih, getElem?_alter]
    by_cases same : actor = other
    · simp [same]
    · simp [same]

variable {state : SyncStateV1}

private theorem told_syncStep : told (syncStep state (actor, bv)) other =
      if actor = other then
        match bv.max with
        | none => told state other
        | some last => ⟨some last,
          if bv.needed.ranges.isEmpty then state.needFor other else bv.needed.ranges,
          (bv.partials.toList.filter (fun (_, held) => !held.isComplete)).foldl (fun map (version, held) =>
            map.insert version held.lacked) (state.partialNeedFor other)⟩
      else told state other := by
  unfold syncStep
  simp only [last]
  cases bv.max with
  | none => simp
  | some last =>
    simp only [told, needFor, partialNeedFor, foldl_alter, getElem?_insert, Std.LawfulEqOrd.compare_eq_iff_eq]
    by_cases same : actor = other
    · simp only [same, if_true]
      split <;> simp
    · simp only [same, if_false]
      split <;> simp [getElem?_insert, same]

/-- **What `generate_sync` tells** of an actor: nothing without a maximum, otherwise
the maximum, the needed ranges and the seqs that incomplete versions lack. -/
theorem told_generateSync : told (generateSync bookie self) actor =
    match (bookie.ensure actor).max with
    | none => ⟨none, [], ∅⟩
    | some last => ⟨some last, (bookie.ensure actor).needed.ranges, lackedSeqs (bookie.ensure actor)⟩ := by
  have folded := @foldl_toList_view _ _ _ _ syncStep (fun state => told state)
    (fun _ bv before =>
      match bv.max with
      | none => before
      | some last => ⟨some last, if bv.needed.ranges.isEmpty then before.need else bv.needed.ranges,
        (bv.partials.toList.filter (fun (_, held) => !held.isComplete)).foldl (fun map (version, held) =>
          map.insert version held.lacked) before.partialNeed⟩) _ _ _ bookie
    (fun state key value => by rw [told_syncStep, if_pos rfl]; rfl)
    (fun state key value other different => by rw [told_syncStep, if_neg different])
    ⟨self, ∅, ∅, ∅, none⟩ actor
  rw [generateSync, folded, Bookie.ensure]
  cases bookie[actor]? with
  | none => rfl
  | some bv =>
    simp only [getD_some]
    cases bv.max with
    | none => rfl
    | some last =>
      simp only [told, needFor, partialNeedFor, lackedSeqs, getElem?_empty, getD_none, Told.mk.injEq,
        true_and, and_true]
      split
      · rename_i nothing
        exact (List.isEmpty_iff.mp nothing).symm
      · rfl

/-! ### What a node asks for -/

theorem validateRanges_ok {ranges : List RangeInclusive} :
    validateRanges error ranges = .ok () ↔ ∀ r ∈ ranges, r.start ≤ r.stop := by
  unfold validateRanges
  cases found : ranges.find? (fun r => r.stop < r.start) with
  | none =>
    simp only [true_iff]
    intro r member
    simpa using List.find?_eq_none.mp found r member
  | some r =>
    simp only [reduceCtorEq, false_iff, not_forall]
    refine ⟨r, List.mem_of_find?_eq_some found, ?_⟩
    simpa using List.find?_some found

/-- A state is valid if every range in it has a member. -/
theorem validate_iff : state.validate = .ok () ↔ (∀ actor, ∀ r ∈ (told state actor).need, r.start ≤ r.stop) ∧
      ∀ actor (version : Nat) ranges, (told state actor).partialNeed[version]? = some ranges →
        ∀ r ∈ ranges, r.start ≤ r.stop := by
  have needs : state.need.toList.forM (fun entry => validateRanges (SyncStateValidationError.invertedNeed entry.1)
      entry.2) = .ok () ↔
      ∀ actor, ∀ r ∈ (told state actor).need, r.start ≤ r.stop := by
    simp only [forM_ok_iff, validateRanges_ok, told, needFor]
    constructor
    · intro each actor r member
      cases held : state.need[actor]? with
      | none => simp [held] at member
      | some ranges =>
        rw [held] at member
        exact each (actor, ranges) (mem_toList_iff_getElem?_eq_some.mpr held) r member
    · intro each entry listed r member
      apply each entry.1 r
      rw [mem_toList_iff_getElem?_eq_some.mp listed]
      exact member
  have partials : state.partialNeed.toList.forM (fun entry => entry.2.toList.forM (fun given =>
        validateRanges (SyncStateValidationError.invertedPartialNeed entry.1 given.1) given.2)) = .ok () ↔
      ∀ actor (version : Nat) ranges, (told state actor).partialNeed[version]? = some ranges →
        ∀ r ∈ ranges, r.start ≤ r.stop := by
    simp only [forM_ok_iff, validateRanges_ok, told, partialNeedFor]
    constructor
    · intro each actor version ranges is
      cases held : state.partialNeed[actor]? with
      | none => simp [held] at is
      | some versions =>
        rw [held] at is
        exact each (actor, versions) (mem_toList_iff_getElem?_eq_some.mpr held) (version, ranges)
          (mem_toList_iff_getElem?_eq_some.mpr is)
    · intro each entry listed given inEntry
      apply each entry.1 given.1 given.2
      rw [mem_toList_iff_getElem?_eq_some.mp listed]
      exact mem_toList_iff_getElem?_eq_some.mp inEntry
  rw [← needs, ← partials]
  constructor
  · intro valid
    obtain ⟨_, first, second⟩ := bind_ok valid
    exact ⟨first, second⟩
  · rintro ⟨first, second⟩
    exact (congrArg (· >>= fun _ => _) first).trans second

theorem validate_generateSync : (generateSync bookie self).validate = .ok () := by
  refine validate_iff.mpr ⟨fun actor r member => ?_, fun actor version ranges is r member => ?_⟩
  · rw [told_generateSync] at member
    split at member
    · cases member
    · exact (bookie.ensure actor).needed.canonical.1 r member
  · rw [told_generateSync] at is
    split at is
    · simp at is
    · simp only [getElem_lackedSeqs, map_eq_some_iff] at is
      obtain ⟨held, _, rfl⟩ := is
      exact (held.seqs.gaps held.fullRange).canonical.1 r member

variable {peer : SyncStateV1}

/-- The needs of an actor, if the peer told its head. -/
theorem computeAvailableNeeds_ok (valid : state.validate = .ok ()) (peerValid : peer.validate = .ok ()) :
    ∃ needs, state.computeAvailableNeeds peer = .ok needs ∧ ∀ actor, needs[actor]? =
      peer.heads[actor]?.bind (fun head =>
        if state.needsOf peer actor head = [] then none else some (state.needsOf peer actor head)) := by
  unfold computeAvailableNeeds
  rw [valid, peerValid]
  refine ⟨_, rfl, fun actor => ?_⟩
  refine Eq.trans (@foldl_toList_view _ _ _ _ _ (fun needs actor => needs[actor]?)
    (fun actor head before => if state.needsOf peer actor head = [] then before
      else some (state.needsOf peer actor head)) _ _ _ peer.heads
    (fun needs actor head => by
      dsimp only
      split
      · rename_i nothing
        rw [if_pos nothing]
      · rename_i something
        rw [if_neg something, getElem?_insert_self])
    (fun needs actor head other different => by
      dsimp only
      split
      · rfl
      · simp [getElem?_insert, different])
    ∅ actor) ?_
  cases peer.heads[actor]? with
  | none => simp
  | some head => simp

/-- Needs that were computed are those of the turn for the peer's head, and both states were valid. -/
theorem computed_needs {needs : Map ActorId (List SyncNeedV1)} {listed : List SyncNeedV1}
    (computed : state.computeAvailableNeeds peer = .ok needs) (is : needs[actor]? = some listed) :
    state.validate = .ok () ∧ ∃ head, listed = state.needsOf peer actor head := by
  have valid : state.validate = .ok () ∧ peer.validate = .ok () := by
    obtain ⟨_, valid, rest⟩ := bind_ok computed
    obtain ⟨_, peerValid, _⟩ := bind_ok rest
    exact ⟨valid, peerValid⟩
  obtain ⟨same, isSame, each⟩ := computeAvailableNeeds_ok valid.1 valid.2
  obtain rfl : same = needs := by simpa [computed] using isSame.symm
  rw [each, bind_eq_some_iff] at is
  obtain ⟨head, _, isListed⟩ := is
  split at isListed
  · cases isListed
  · cases isListed
    exact ⟨valid.1, head, rfl⟩

theorem validate_full {part : RangeInclusive} (proper : part.start ≤ part.stop) :
    (SyncNeedV1.full part).validate = .ok () :=
  validateRanges_ok.mpr (by simpa using proper)

/-- A valid state asks for ranges that have members, whatever the peer told. -/
theorem needsOf_upright (valid : state.validate = .ok ())
    (listed : need ∈ state.needsOf peer actor head) : need.validate = .ok () ∧ ∀ ts, need ≠ .empty ts := by
  obtain ⟨needValid, partialValid⟩ := validate_iff.mp valid
  simp only [needsOf] at listed
  split at listed
  · cases listed
  rename_i asks
  simp only [List.mem_append, List.mem_flatMap, List.mem_map] at listed
  rcases listed with (⟨range, isRange, part, isPart, rfl⟩ | ⟨entry, isEntry, inPart⟩) | above
  · have proper := intersections_proper (needValid actor range isRange) part isPart
    exact ⟨validate_full proper, by simp⟩
  · have properSeqs := partialValid actor entry.1 entry.2 (mem_toList_iff_getElem?_eq_some.mp isEntry)
    simp only [partialNeeds] at inPart
    split at inPart
    · obtain rfl := List.mem_singleton.mp inPart
      exact ⟨validateRanges_ok.mpr properSeqs, by simp⟩
    split at inPart
    · split at inPart
      · cases inPart
      · obtain rfl := List.mem_singleton.mp inPart
        refine ⟨validateRanges_ok.mpr fun r inSeqs => ?_, by simp⟩
        obtain ⟨range, isRange, isPart⟩ := List.mem_flatMap.mp inSeqs
        exact intersections_proper (properSeqs range isRange) r isPart
    · cases inPart
  · simp only [missing] at above
    split at above
    · split at above
      · rename_i less
        obtain rfl := List.mem_singleton.mp above
        exact ⟨validate_full less, by simp⟩
      · cases above
    · obtain rfl := List.mem_singleton.mp above
      exact ⟨validate_full (by simp only; omega), by simp⟩

/-- The version is recorded, and if it is recorded in part then all of it. -/
def FullyHas (bv : BookedVersions) (version : Nat) : Prop :=
  bv.containsVersion version = true ∧
    ∀ held, bv.partials[version]? = some held → held.isComplete = true

variable {held : PartialVersion}

theorem mem_lacked : (∃ r ∈ held.lacked, seq ∈ r) ↔ seq ≤ held.lastSeq ∧ seq ∉ held.seqs := by
  have gaps : (∃ r ∈ held.lacked, seq ∈ r) ↔ seq ∈ held.seqs.gaps held.fullRange := Iff.rfl
  rw [gaps, mem_gaps]
  simp [PartialVersion.fullRange, RangeInclusive.mem_def]

theorem mem_lackedSeqs {ranges : List RangeInclusive} : (lackedSeqs bv)[version]? = some ranges ↔
      ∃ held, bv.partials[version]? = some held ∧ held.isComplete = false ∧ ranges = held.lacked := by
  simp [getElem_lackedSeqs, and_assoc, eq_comm (a := ranges)]

section
variable {head last : Nat} {peer : ActorId}

theorem told_some (is : (bookie.ensure actor).max = some head) : told (generateSync bookie self) actor =
      ⟨some head, (bookie.ensure actor).needed.ranges, lackedSeqs (bookie.ensure actor)⟩ := by
  rw [told_generateSync, is]

theorem told_none (unset : (bookie.ensure actor).max = none) :
    told (generateSync bookie self) actor = ⟨none, [], ∅⟩ := by
  rw [told_generateSync, unset]

/-- What is left of the peer's head without its gaps and incomplete versions is
what it fully has. -/
theorem mem_haves (is : (theirs.ensure actor).max = some head) :
    version ∈ (generateSync theirs peer).haves actor head ↔ 1 ≤ version ∧ FullyHas (theirs.ensure actor) version := by
  have tells := @told_some theirs peer actor head is
  have need : (generateSync theirs peer).needFor actor = _ := congrArg Told.need tells
  have partials : (generateSync theirs peer).partialNeedFor actor = _ := congrArg Told.partialNeed tells
  simp only [haves, need, partials, FullyHas, containsVersion_iff, is, getD_some,
    mem_removeAll, mem_ofRanges, List.mem_singleton, exists_eq_left, List.mem_map, Prod.exists,
    mem_toList_iff_getElem?_eq_some, mem_lackedSeqs]
  constructor
  · rintro ⟨⟨inside, notNeeded⟩, notListed⟩
    have notIn : version ∉ (theirs.ensure actor).needed := by
      rintro ⟨r, held, within⟩
      exact notNeeded r held within
    refine ⟨inside.1, ⟨notIn, inside.2⟩, fun held isHeld => ?_⟩
    by_contra incomplete
    exact notListed (.single version) ⟨version, held.lacked, ⟨held, isHeld, by simpa using incomplete, rfl⟩, rfl⟩
      (by simp)
  · rintro ⟨positive, ⟨notNeeded, low⟩, complete⟩
    refine ⟨⟨⟨positive, low⟩, fun r held within => notNeeded ⟨r, held, within⟩⟩, ?_⟩
    rintro _ ⟨_, _, ⟨held, isHeld, incomplete, _⟩, rfl⟩ same
    rw [RangeInclusive.mem_single] at same
    subst same
    rw [complete held isHeld] at incomplete
    cases incomplete

theorem mem_seqHaves {ours theirs : List RangeInclusive} :
    seq ∈ seqHaves ours theirs ↔ (∃ r ∈ theirs ++ ours, seq ≤ r.stop) ∧ ∀ r ∈ theirs, seq ∉ r := by
  have bound : (∃ r ∈ theirs ++ ours, seq ≤ r.stop) ↔
      Reaches (max (theirs.map RangeInclusive.stop).max? (ours.map RangeInclusive.stop).max?) seq := by
    simp [reaches_optionMax, reaches_listMax, or_and_right, exists_or]
  rw [bound, seqHaves]
  split
  · rename_i stop is
    simp [is, RangeInclusive.mem_def]
  · rename_i is
    simp [is]

/-- What one range of a need asks for: versions, and of each the seqs if it names any. -/
abbrev Request := CrsqlDbVersionRange × Option CrsqlSeqRange

def requests : SyncNeedV1 → List Request
  | .full versions => [(versions, none)]
  | .partialVersion version seqs => seqs.map (fun r => (.single version, some r))
  | .empty _ => []

def Asks (request : Request) (version seq : Nat) : Prop := version ∈ request.1 ∧ ∀ r, request.2 = some r → seq ∈ r

/-- The need asks for this seq of this version. -/
def AsksFor (need : SyncNeedV1) (version seq : Nat) : Prop := ∃ request ∈ requests need, Asks request version seq

@[simp] theorem asksFor_full {versions : CrsqlDbVersionRange} :
    AsksFor (.full versions) version seq ↔ version ∈ versions := by
  simp [AsksFor, requests, Asks]

@[simp] theorem asksFor_partialVersion {seqs : List CrsqlSeqRange} :
    AsksFor (.partialVersion own seqs) version seq ↔ version = own ∧ ∃ r ∈ seqs, seq ∈ r := by
  simp only [AsksFor, requests, List.mem_map, Asks]
  constructor
  · rintro ⟨_, ⟨r, listed, rfl⟩, same, inside⟩
    exact ⟨by simpa using same, r, listed, inside r rfl⟩
  · rintro ⟨rfl, r, listed, inside⟩
    exact ⟨_, ⟨r, listed, rfl⟩, by simp, by simpa using inside⟩

/-- The versions a need mentions. -/
def Mentions : SyncNeedV1 → Nat → Prop
  | .full versions, version => version ∈ versions
  | .partialVersion own _, version => version = own
  | .empty _, _ => False

theorem generateSync_actorId : (generateSync bookie self).actorId = self := by
  have kept : ∀ (entries : List (ActorId × BookedVersions)) (state : SyncStateV1),
      (entries.foldl syncStep state).actorId = state.actorId := by
    intro entries
    induction entries with
    | nil => exact fun _ => rfl
    | cons _ _ ih =>
      intro state
      rw [List.foldl_cons, ih, syncStep]
      split <;> rfl
  exact kept _ _

/-- The needs of one actor once the peer has told its head. -/
theorem needsOf_eq (different : actor ≠ self) (positive : head ≠ 0) (state : SyncStateV1) :
    (generateSync ours self).needsOf state actor head = (told (generateSync ours self) actor).need.flatMap (fun range =>
        ((state.haves actor head).intersections range).map .full) ++
      (told (generateSync ours self) actor).partialNeed.toList.flatMap
        (state.partialNeeds actor (state.haves actor head)) ++
      (generateSync ours self).missing actor head := by
  rw [needsOf, generateSync_actorId, if_neg (by simp [different, positive])]
  rfl

/-- The needs two nodes arrive at, actor by actor. -/
theorem available_needs : ∃ needs,
    (generateSync ours self).computeAvailableNeeds (generateSync theirs peer) = .ok needs ∧
      ∀ actor, needs[actor]? = (theirs.ensure actor).max.bind (fun head =>
        if (generateSync ours self).needsOf (generateSync theirs peer) actor head = [] then none
        else some ((generateSync ours self).needsOf (generateSync theirs peer) actor head)) := by
  obtain ⟨needs, ok, listed⟩ := computeAvailableNeeds_ok (@validate_generateSync ours self)
    (@validate_generateSync theirs peer)
  refine ⟨needs, ok, fun actor => ?_⟩
  have head : (generateSync theirs peer).heads[actor]? = (theirs.ensure actor).max := by
    have tells : (generateSync theirs peer).heads[actor]? = _ :=
      congrArg Told.head (@told_generateSync theirs peer actor)
    rw [tells]
    cases (theirs.ensure actor).max <;> rfl
  rw [listed, head]

/-- An actor has needs only if it is not us and the peer has told a head for it. -/
theorem available_cases {needs : Map ActorId (List SyncNeedV1)}
    (listed : needs[actor]? = (theirs.ensure actor).max.bind (fun head =>
      if (generateSync ours self).needsOf (generateSync theirs peer) actor head = [] then none
      else some ((generateSync ours self).needsOf (generateSync theirs peer) actor head))) :
    needs[actor]? = none ∨ ∃ head, (theirs.ensure actor).max = some head ∧ actor ≠ self ∧ head ≠ 0 ∧
      needs[actor]?.getD [] = (generateSync ours self).needsOf (generateSync theirs peer) actor head := by
  cases is : (theirs.ensure actor).max with
  | none => exact .inl (by rw [listed, is]; rfl)
  | some head =>
    rw [is, bind_some] at listed
    by_cases skipped : actor = self ∨ head = 0
    · left
      rw [listed, needsOf, generateSync_actorId, if_pos skipped, if_pos rfl]
    · rw [not_or] at skipped
      refine .inr ⟨head, rfl, skipped.1, skipped.2, ?_⟩
      rw [listed]
      split
      · rename_i nothing
        rw [nothing, getD_none]
      · rfl

/-- The seqs asked for of a version that the peer holds in part as well: those we
lack, unless the peer lacks them too. -/
theorem partialNeeds_cases {haves : RangeInclusiveSet} (is : (theirs.ensure actor).max = some head) :
    (generateSync theirs peer).partialNeeds actor haves (version, held.lacked) =
      if version ∈ haves then [.partialVersion version held.lacked]
      else
        match (theirs.ensure actor).partials[version]?.filter (fun other => !other.isComplete) with
        | some other =>
          let seqs := held.lacked.flatMap (seqHaves held.lacked other.lacked).intersections
          if seqs.isEmpty then [] else [.partialVersion version seqs]
        | none => [] := by
  have partials : (generateSync theirs peer).partialNeedFor actor = _ :=
    congrArg Told.partialNeed (@told_some theirs peer actor head is)
  simp only [partialNeeds, partials, getElem_lackedSeqs]
  cases (theirs.ensure actor).partials[version]?.filter (fun other => !other.isComplete) <;> rfl

theorem missing_some (is : (ours.ensure actor).max = some last) :
    (generateSync ours self).missing actor head = if head > last then [.full ⟨last + 1, head⟩] else [] := by
  have tells : (generateSync ours self).heads[actor]? = some last :=
    congrArg Told.head (@told_some ours self actor last is)
  simp only [missing, tells]

theorem missing_none (unset : (ours.ensure actor).max = none) :
    (generateSync ours self).missing actor head = [.full ⟨1, head⟩] := by
  have tells : (generateSync ours self).heads[actor]? = none := congrArg Told.head (@told_none ours self actor unset)
  simp only [missing, tells]

theorem mem_sharedSeqs {other : PartialVersion} :
    (∃ r ∈ held.lacked.flatMap (seqHaves held.lacked other.lacked).intersections, seq ∈ r) ↔
      (seq ≤ held.lastSeq ∧ seq ∉ held.seqs) ∧ ¬ (seq ≤ other.lastSeq ∧ seq ∉ other.seqs) := by
  rw [← mem_lacked, ← mem_lacked]
  simp only [List.mem_flatMap]
  constructor
  · rintro ⟨part, ⟨r, listed, isPart⟩, inside⟩
    obtain ⟨within, has⟩ := mem_intersections.mp ⟨part, isPart, inside⟩
    exact ⟨⟨r, listed, within⟩, fun ⟨gap, isGap, inGap⟩ => (mem_seqHaves.mp has).2 gap isGap inGap⟩
  · rintro ⟨⟨r, listed, within⟩, notLacked⟩
    have has := mem_seqHaves.mpr ⟨⟨r, List.mem_append_right _ listed, within.2⟩,
        fun gap isGap inGap => notLacked ⟨gap, isGap, inGap⟩⟩
    obtain ⟨part, isPart, inside⟩ := mem_intersections.mpr ⟨within, has⟩
    exact ⟨part, ⟨r, listed, isPart⟩, inside⟩

/-! ### The three parts of the needs -/

/-- The needs for our gaps. -/
def gapNeeds (ours theirs : Bookie) (peer actor : ActorId) (head : Nat) : List SyncNeedV1 :=
  (ours.ensure actor).needed.ranges.flatMap (fun range =>
    (((generateSync theirs peer).haves actor head).intersections range).map .full)

/-- The needs for our incomplete versions. -/
def seqNeeds (ours theirs : Bookie) (peer actor : ActorId) (head : Nat) : List SyncNeedV1 :=
  (lackedSeqs (ours.ensure actor)).toList.flatMap
    ((generateSync theirs peer).partialNeeds actor ((generateSync theirs peer).haves actor head))

/-- The need for what is above our head. -/
def headNeeds (last head : Nat) : List SyncNeedV1 := if head > last then [.full ⟨last + 1, head⟩] else []

theorem mem_headNeeds : need ∈ headNeeds last head ↔ last < head ∧ need = .full ⟨last + 1, head⟩ := by
  unfold headNeeds
  split <;> simp_all

section
variable (different : actor ≠ self) (positive : head ≠ 0)
include different positive

theorem needsOf_some (ourMax : (ours.ensure actor).max = some last) :
    (generateSync ours self).needsOf (generateSync theirs peer) actor head =
      gapNeeds ours theirs peer actor head ++ seqNeeds ours theirs peer actor head ++ headNeeds last head := by
  rw [needsOf_eq different positive, told_some ourMax, missing_some ourMax]
  rfl

theorem needsOf_none (unset : (ours.ensure actor).max = none) :
    (generateSync ours self).needsOf (generateSync theirs peer) actor head = [.full ⟨1, head⟩] := by
  rw [needsOf_eq different positive, told_none unset, missing_none unset]
  rfl

end

section
variable (is : (theirs.ensure actor).max = some head)
include is

theorem mem_gapNeeds (listed : need ∈ gapNeeds ours theirs peer actor head) :
    ∃ part, need = .full part ∧ part.start ≤ part.stop ∧ ∀ version ∈ part,
      version ∈ (ours.ensure actor).needed ∧ 1 ≤ version ∧ FullyHas (theirs.ensure actor) version := by
  obtain ⟨r, stored, inParts⟩ := List.mem_flatMap.mp listed
  obtain ⟨part, isPart, rfl⟩ := List.mem_map.mp inParts
  refine ⟨part, rfl, intersections_proper
    ((ours.ensure actor).needed.canonical.1 r stored) part isPart, fun version inside => ?_⟩
  obtain ⟨within, offered⟩ := mem_intersections.mp ⟨part, isPart, inside⟩
  exact ⟨⟨r, stored, within⟩, (mem_haves is).mp offered⟩

/-- A version we need and the peer fully has is asked for. -/
theorem gapNeeds_cover (needed : version ∈ (ours.ensure actor).needed) (positive : 1 ≤ version)
    (has : FullyHas (theirs.ensure actor) version) :
    ∃ part, .full part ∈ gapNeeds ours theirs peer actor head ∧ version ∈ part := by
  obtain ⟨r, stored, within⟩ := needed
  have offered : version ∈ (generateSync theirs peer).haves actor head := (mem_haves is).mpr ⟨positive, has⟩
  obtain ⟨part, isPart, inside⟩ := mem_intersections.mpr ⟨within, offered⟩
  exact ⟨part, List.mem_flatMap.mpr ⟨r, stored, List.mem_map.mpr ⟨part, isPart, rfl⟩⟩, inside⟩

end

section
variable (is : (theirs.ensure actor).max = some head) (isHeld : (ours.ensure actor).partials[version]? = some held)
  (incomplete : held.isComplete = false)
include is isHeld incomplete

/-- So are the seqs we lack of a version it fully has. -/
theorem seqNeeds_cover (positive : 1 ≤ version) (has : FullyHas (theirs.ensure actor) version) :
    .partialVersion version held.lacked ∈ seqNeeds ours theirs peer actor head := by
  refine List.mem_flatMap.mpr ⟨(version, held.lacked), ?_, ?_⟩
  · exact mem_toList_iff_getElem?_eq_some.mpr (mem_lackedSeqs.mpr ⟨held, isHeld, incomplete, rfl⟩)
  · rw [partialNeeds_cases is, if_pos ((mem_haves is).mpr ⟨positive, has⟩)]
    exact List.mem_cons_self

/-- And the seqs we lack and the peer has of a version both hold in part. -/
theorem seqNeeds_share {other : PartialVersion} (isOther : (theirs.ensure actor).partials[version]? = some other)
    (otherIncomplete : other.isComplete = false) (bound : seq ≤ held.lastSeq) (lacked : seq ∉ held.seqs)
    (has : seq ∈ other.seqs) : ∃ need ∈ seqNeeds ours theirs peer actor head, AsksFor need version seq := by
  have notFull : version ∉ (generateSync theirs peer).haves actor head := by
    rw [mem_haves is]
    rintro ⟨_, _, complete⟩
    rw [complete other isOther] at otherIncomplete
    cases otherIncomplete
  obtain ⟨r, listed, inside⟩ := (@mem_sharedSeqs seq held other).mpr ⟨⟨bound, lacked⟩, fun lacks => lacks.2 has⟩
  refine ⟨.partialVersion version (held.lacked.flatMap (seqHaves held.lacked other.lacked).intersections),
    List.mem_flatMap.mpr ⟨(version, held.lacked), ?_, ?_⟩, asksFor_partialVersion.mpr ⟨rfl, r, listed, inside⟩⟩
  · exact mem_toList_iff_getElem?_eq_some.mpr (mem_lackedSeqs.mpr ⟨held, isHeld, incomplete, rfl⟩)
  · rw [partialNeeds_cases is, if_neg notFull, isOther]
    have some : ¬ (held.lacked.flatMap (seqHaves held.lacked other.lacked).intersections).isEmpty = true := by
      rw [List.isEmpty_iff]
      exact List.ne_nil_of_mem listed
    simp only [Option.filter, otherIncomplete, Bool.not_false, if_true, some]
    exact List.mem_cons_self

end

end

end Galvanize.SyncNeedProofs
