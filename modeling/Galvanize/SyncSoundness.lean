import Galvanize.NodeInvariant
import Galvanize.SyncNeedProofs

/-! What a node asks a peer for is nothing it has and nothing twice, as long as
no version it needs is above its own head or partly there. A run keeps it so,
unless a restart forgets part of the maximum. -/
namespace Galvanize.SyncSoundness
open BookedVersions BookieProofs BookieInvariant SyncNeedProofs NodeInvariant List Std.ExtTreeMap RangeInclusiveSet

variable {ours theirs : Bookie} {self peer actor : ActorId} {version seq head last : Nat} {need : SyncNeedV1}

/-- The bookkeeping has this seq of this version. -/
def Has (bv : BookedVersions) (version seq : Nat) : Prop :=
  match bv.partials[version]? with
  | some held => seq ∈ held.seqs
  | none => bv.containsVersion version = true

/-- No seq of a version is in both requests. -/
def Separate (a b : Request) : Prop := ∀ version seq, Asks a version seq → ¬ Asks b version seq

/-- The needs of a node are sound. -/
structure Sound (us : ActorId) (ours theirs : Bookie) (needs : Map ActorId (List SyncNeedV1)) : Prop where
  other : ∀ (actor : ActorId) listed, needs[actor]? = some listed → actor ≠ us
  upright : ∀ actor : ActorId, ∀ need ∈ needs[actor]?.getD [], need.validate = .ok ()
  /-- nothing above the head of the peer -/
  headed : ∀ actor : ActorId, ∀ need ∈ needs[actor]?.getD [], ∀ version, Mentions need version →
    Reaches (theirs.ensure actor).max version
  /-- nothing we have -/
  lacked : ∀ actor : ActorId, ∀ need ∈ needs[actor]?.getD [], ∀ version seq, AsksFor need version seq →
    ¬ Has (ours.ensure actor) version seq
  /-- nothing twice -/
  once : ∀ actor : ActorId, ((needs[actor]?.getD []).flatMap requests).Pairwise Separate

/-- No version that the peer could send is needed although it is above our head, or
although we have recorded part of it. -/
def Unrepeated (self : ActorId) (ours theirs : Bookie) : Prop :=
  ∀ (actor : ActorId) version last, actor ≠ self → (ours.ensure actor).max = some last →
    version ∈ (ours.ensure actor).needed → 1 ≤ version → FullyHas (theirs.ensure actor) version →
      version ≤ last ∧ (ours.ensure actor).partials[version]? = none

/-! ### What is asked of an incomplete version -/

/-- The seqs asked for are some we lack, each once. -/
structure SeqNeed (ours theirs : Bookie) (actor : ActorId) (version : Nat) (held : PartialVersion)
    (seqs : List CrsqlSeqRange) : Prop where
  isHeld : (ours.ensure actor).partials[version]? = some held
  proper : ∀ r ∈ seqs, r.start ≤ r.stop
  apart : seqs.Pairwise RangeInclusive.Apart
  lacked : ∀ r ∈ seqs, ∀ seq ∈ r, seq ∉ held.seqs
  headed : Reaches (theirs.ensure actor).max version

private theorem partialNeeds_shape {held : PartialVersion} (is : (theirs.ensure actor).max = some head)
    (keyed : Keyed (theirs.ensure actor)) (isHeld : (ours.ensure actor).partials[version]? = some held) :
    (generateSync theirs peer).partialNeeds actor
        ((generateSync theirs peer).haves actor head) (version, held.lacked) = [] ∨
      ∃ seqs, SeqNeed ours theirs actor version held seqs ∧
        (generateSync theirs peer).partialNeeds actor
          ((generateSync theirs peer).haves actor head) (version, held.lacked) = [.partialVersion version seqs] := by
  have canonical := (held.seqs.gaps held.fullRange).canonical
  have lacks : ∀ r ∈ held.lacked, ∀ seq ∈ r, seq ∉ held.seqs := fun r listed seq inside =>
    (mem_lacked.mp ⟨r, listed, inside⟩).2
  rw [partialNeeds_cases is]
  split
  · rename_i offered
    obtain ⟨_, has⟩ := (mem_haves is).mp offered
    refine .inr ⟨held.lacked, ⟨isHeld, canonical.1, ranges_apart _, lacks, ?_⟩, rfl⟩
    have low := (containsVersion_iff.mp has.1).2
    rw [is] at low ⊢
    exact reaches_some.mpr low
  · split
    · rename_i other isOther
      dsimp only
      split
      · exact .inl rfl
      · refine .inr ⟨_, ⟨isHeld, fun part listed => ?_, flatMap_intersections_apart
          (ranges_apart _), fun part listed seq inside => ?_, ?_⟩, rfl⟩
        · obtain ⟨r, isLacked, isPart⟩ := mem_flatMap.mp listed
          exact intersections_proper (canonical.1 r isLacked) part isPart
        · exact (mem_sharedSeqs.mp ⟨part, listed, inside⟩).1.2
        · exact keyed version other (Option.filter_eq_some_iff.mp isOther).1
    · exact .inl rfl

theorem mem_seqNeeds (is : (theirs.ensure actor).max = some head) (keyed : Keyed (theirs.ensure actor))
    (listed : need ∈ seqNeeds ours theirs peer actor head) :
    ∃ version held seqs, need = .partialVersion version seqs ∧ SeqNeed ours theirs actor version held seqs := by
  obtain ⟨⟨version, _⟩, entry, inNeeds⟩ := mem_flatMap.mp listed
  obtain ⟨held, isHeld, _, rfl⟩ := mem_lackedSeqs.mp (mem_toList_iff_getElem?_eq_some.mp entry)
  rcases @partialNeeds_shape ours theirs peer actor version head held is keyed isHeld with nothing | ⟨seqs, shape, is⟩
  · rw [nothing] at inNeeds
    cases inNeeds
  · rw [is, mem_singleton] at inNeeds
    exact ⟨version, held, seqs, inNeeds, shape⟩

/-! ### Nothing twice -/

private theorem gapNeeds_once : ((gapNeeds ours theirs peer actor head).flatMap requests).Pairwise Separate := by
  have flat : (gapNeeds ours theirs peer actor head).flatMap requests = ((ours.ensure actor).needed.ranges.flatMap
        ((generateSync theirs peer).haves actor head).intersections).map (fun part => (part, none)) := by
    simp only [gapNeeds, flatMap_assoc, map_flatMap, flatMap_map, requests]
    refine flatMap_congr fun range _ => ?_
    induction ((generateSync theirs peer).haves actor head).intersections range with
    | nil => rfl
    | cons _ _ ih => simp [ih]
  rw [flat, pairwise_map]
  refine (flatMap_intersections_apart (ranges_apart _)).imp ?_
  intro a b apart version _ inA inB
  exact apart version inA.1 inB.1

private theorem seqs_once {seqs : List CrsqlSeqRange} (apart : seqs.Pairwise RangeInclusive.Apart) :
    (requests (.partialVersion version seqs)).Pairwise Separate := by
  refine pairwise_map.mpr (apart.imp ?_)
  intro a b apart version seq inA inB
  exact apart seq (inA.2 a rfl) (inB.2 b rfl)

private theorem seqNeeds_once (is : (theirs.ensure actor).max = some head) (keyed : Keyed (theirs.ensure actor)) :
    ((seqNeeds ours theirs peer actor head).flatMap requests).Pairwise Separate := by
  rw [seqNeeds, flatMap_assoc]
  refine pairwise_flatMap.mpr ⟨fun ⟨version, lacked⟩ entry => ?_, ?_⟩
  · obtain ⟨held, isHeld, _, rfl⟩ := mem_lackedSeqs.mp (mem_toList_iff_getElem?_eq_some.mp entry)
    rcases @partialNeeds_shape ours theirs peer actor version head held is keyed isHeld with nothing | ⟨seqs, shape, is⟩
    · simp [nothing]
    · simpa [is] using seqs_once shape.apart
  · refine List.Pairwise.imp_of_mem ?_ toList_distinct
    rintro ⟨version, _⟩ ⟨_, _⟩ entry otherEntry different a inA b inB v seq asksA asksB
    obtain ⟨held, isHeld, _, rfl⟩ := mem_lackedSeqs.mp (mem_toList_iff_getElem?_eq_some.mp entry)
    obtain ⟨_, isOther, _, rfl⟩ := mem_lackedSeqs.mp (mem_toList_iff_getElem?_eq_some.mp otherEntry)
    have own : ∀ {version : Nat} {held : PartialVersion} {request : Request},
        (ours.ensure actor).partials[version]? = some held →
        request ∈ ((generateSync theirs peer).partialNeeds actor
          ((generateSync theirs peer).haves actor head) (version, held.lacked)).flatMap requests →
        Asks request v seq → v = version := by
      intro version held request isHeld listed asks
      rcases @partialNeeds_shape ours theirs peer actor version head held is keyed isHeld with
        nothing | ⟨seqs, shape, is⟩
      · simp [nothing] at listed
      · simp only [is, flatMap_cons, flatMap_nil, append_nil, requests, mem_map] at listed
        obtain ⟨r, _, rfl⟩ := listed
        simpa [Asks] using asks.1
    exact different ((own isHeld inA asksA).symm.trans (own isOther inB asksB))

/-! ### Soundness -/

private theorem asks_of_mem {needs : List SyncNeedV1} {request : Request}
    (listed : request ∈ needs.flatMap requests) (asks : Asks request version seq) :
    ∃ need ∈ needs, AsksFor need version seq := by
  obtain ⟨need, isNeed, isRequest⟩ := mem_flatMap.mp listed
  exact ⟨need, isNeed, request, isRequest, asks⟩

/-- The needs for gaps, for incomplete versions and above our head do not meet. -/
private theorem needs_once (is : (theirs.ensure actor).max = some head)
    (keyed : Keyed (theirs.ensure actor)) (ourKeyed : Keyed (ours.ensure actor))
    (ourMax : (ours.ensure actor).max = some last)
    (unrepeated : ∀ version ∈ (ours.ensure actor).needed, 1 ≤ version → FullyHas (theirs.ensure actor) version →
      version ≤ last ∧ (ours.ensure actor).partials[version]? = none) :
    ((gapNeeds ours theirs peer actor head ++ seqNeeds ours theirs peer actor head ++
      headNeeds last head).flatMap requests).Pairwise Separate := by
  rw [flatMap_append, flatMap_append]
  refine pairwise_append.mpr ⟨pairwise_append.mpr ⟨gapNeeds_once, seqNeeds_once is keyed, ?_⟩, ?_, ?_⟩
  · intro a inA b inB version seq asksA asksB
    obtain ⟨need, listed, asks⟩ := asks_of_mem inA asksA
    obtain ⟨_, otherListed, otherAsks⟩ := asks_of_mem inB asksB
    obtain ⟨part, rfl, _, inside⟩ := mem_gapNeeds is listed
    obtain ⟨own, held, seqs, rfl, shape⟩ := mem_seqNeeds is keyed otherListed
    obtain ⟨rfl, _⟩ := asksFor_partialVersion.mp otherAsks
    obtain ⟨needed, positive, has⟩ := inside version (asksFor_full.mp asks)
    have none := (unrepeated version needed positive has).2
    rw [shape.isHeld] at none
    cases none
  · unfold headNeeds
    split <;> simp [requests]
  · intro a inA b inB version seq asksA asksB
    have above : last < version := by
      obtain ⟨need, listed, asks⟩ := asks_of_mem inB asksB
      obtain ⟨_, rfl⟩ := mem_headNeeds.mp listed
      exact (asksFor_full.mp asks).1
    rcases mem_append.mp inA with gap | partly
    · obtain ⟨need, listed, asks⟩ := asks_of_mem gap asksA
      obtain ⟨part, rfl, _, inside⟩ := mem_gapNeeds is listed
      obtain ⟨needed, positive, has⟩ := inside version (asksFor_full.mp asks)
      have := (unrepeated version needed positive has).1
      omega
    · obtain ⟨need, listed, asks⟩ := asks_of_mem partly asksA
      obtain ⟨own, held, seqs, rfl, shape⟩ := mem_seqNeeds is keyed listed
      obtain ⟨rfl, _⟩ := asksFor_partialVersion.mp asks
      have reached := ourKeyed version held shape.isHeld
      rw [ourMax, reaches_some] at reached
      omega

private theorem not_has (keyed : Keyed bv) (above : bv.max.getD 0 < version) : ¬ Has bv version seq := by
  intro has
  unfold Has at has
  split at has
  · rename_i held isHeld
    have := le_getD_iff.mpr (.inr (keyed version held isHeld))
    omega
  · have := (containsVersion_iff.mp has).2
    omega

section
variable (different : actor ≠ self) (is : (theirs.ensure actor).max = some head) (positive : head ≠ 0)
  (keyed : Keyed (theirs.ensure actor))
  (listed : need ∈ (generateSync ours self).needsOf (generateSync theirs peer) actor head)
include different is positive keyed listed

/-- No need of an actor mentions a version above the head of the peer, whatever our own
bookkeeping. -/
private theorem needsOf_headed (mentions : Mentions need version) : Reaches (theirs.ensure actor).max version := by
  cases ourMax : (ours.ensure actor).max with
  | none =>
    rw [needsOf_none different positive ourMax, mem_singleton] at listed
    subst listed
    rw [is, reaches_some]
    exact mentions.2
  | some _ =>
    rw [needsOf_some different positive ourMax, mem_append, mem_append] at listed
    rcases listed with (gap | partly) | above
    · obtain ⟨_, rfl, _, offered⟩ := mem_gapNeeds is gap
      have low := (containsVersion_iff.mp (offered version mentions).2.2.1).2
      rw [is] at low ⊢
      exact reaches_some.mpr low
    · obtain ⟨own, _, _, rfl, shape⟩ := mem_seqNeeds is keyed partly
      obtain rfl : version = own := mentions
      exact shape.headed
    · obtain ⟨_, rfl⟩ := mem_headNeeds.mp above
      rw [is, reaches_some]
      exact mentions.2

private theorem needsOf_lacked (ourKeyed : Keyed (ours.ensure actor)) (unrepeated : Unrepeated self ours theirs)
    (asks : AsksFor need version seq) : ¬ Has (ours.ensure actor) version seq := by
  cases ourMax : (ours.ensure actor).max with
  | none =>
    rw [needsOf_none different positive ourMax, mem_singleton] at listed
    subst listed
    refine not_has ourKeyed ?_
    rw [ourMax]
    exact (asksFor_full.mp asks).1
  | some last =>
    rw [needsOf_some different positive ourMax, mem_append, mem_append] at listed
    rcases listed with (gap | partly) | above
    · obtain ⟨_, rfl, _, offered⟩ := mem_gapNeeds is gap
      obtain ⟨needed, atLeast, full⟩ := offered version (asksFor_full.mp asks)
      have none := (unrepeated actor version last different ourMax needed atLeast full).2
      intro has
      rw [Has, none] at has
      exact (containsVersion_iff.mp has).1 needed
    · obtain ⟨own, _, _, rfl, shape⟩ := mem_seqNeeds is keyed partly
      obtain ⟨rfl, r, isRange, inside⟩ := asksFor_partialVersion.mp asks
      intro has
      rw [Has, shape.isHeld] at has
      exact shape.lacked r isRange seq inside has
    · obtain ⟨_, rfl⟩ := mem_headNeeds.mp above
      refine not_has ourKeyed ?_
      rw [ourMax]
      exact (asksFor_full.mp asks).1

end

private theorem sound_of_unrepeated {needs : Map ActorId (List SyncNeedV1)}
    (keyed : ∀ actor, Keyed (theirs.ensure actor)) (ourKeyed : ∀ actor, Keyed (ours.ensure actor))
    (asked : ∀ actor : ActorId, needs[actor]? = none ∨ ∃ head, (theirs.ensure actor).max = some head ∧
      actor ≠ self ∧ head ≠ 0 ∧
      needs[actor]?.getD [] = (generateSync ours self).needsOf (generateSync theirs peer) actor head)
    (unrepeated : Unrepeated self ours theirs) : Sound self ours theirs needs := by
  have each : ∀ actor : ActorId, ∀ need ∈ needs[actor]?.getD [], ∃ head,
      (theirs.ensure actor).max = some head ∧ actor ≠ self ∧ head ≠ 0 ∧
      need ∈ (generateSync ours self).needsOf (generateSync theirs peer) actor head := by
    intro actor need listed
    rcases asked actor with nothing | ⟨head, is, different, positive, same⟩
    · rw [nothing] at listed
      cases listed
    · exact ⟨head, is, different, positive, same ▸ listed⟩
  refine ⟨fun actor listed held => ?_, fun actor need listed => ?_, fun actor need listed => ?_,
    fun actor need listed version seq asks => ?_, fun actor => ?_⟩
  · rcases asked actor with nothing | ⟨head, is, different, _⟩
    · rw [nothing] at held
      cases held
    · exact different
  · obtain ⟨head, is, different, positive, isNeed⟩ := each actor need listed
    exact (needsOf_upright validate_generateSync isNeed).1
  · obtain ⟨head, is, different, positive, isNeed⟩ := each actor need listed
    exact fun version => needsOf_headed different is positive (keyed actor) isNeed
  · obtain ⟨head, is, different, positive, isNeed⟩ := each actor need listed
    exact needsOf_lacked different is positive (keyed actor) isNeed (ourKeyed actor) unrepeated asks
  · rcases asked actor with nothing | ⟨head, is, different, positive, same⟩
    · simp [nothing]
    · rw [same]
      cases ourMax : (ours.ensure actor).max with
      | none =>
        rw [needsOf_none different positive ourMax]
        simp [requests]
      | some last =>
        rw [needsOf_some different positive ourMax]
        exact needs_once is (keyed actor) (ourKeyed actor) ourMax
          fun version needed atLeast full => unrepeated actor version last different ourMax needed atLeast full

/-- A version with no seq at all is not complete. -/
private theorem incomplete_of_none {held : PartialVersion} (nothing : ∀ seq, seq ∉ held.seqs) :
    held.isComplete = false := by
  by_contra complete
  have zero : 0 ∈ held.seqs.gaps held.fullRange := by
    simp [RangeInclusiveSet.mem_gaps, nothing, PartialVersion.fullRange, RangeInclusive.mem_def]
  obtain ⟨r, stored, _⟩ := zero
  have empty : (held.seqs.gaps held.fullRange).ranges = [] := by
    simpa [PartialVersion.isComplete, RangeInclusiveSet.isEmpty] using complete
  rw [empty] at stored
  cases stored

private theorem unrepeated_of_sound {needs : Map ActorId (List SyncNeedV1)}
    (asked : ∀ (actor : ActorId) head, (theirs.ensure actor).max = some head →
      needs[actor]?.getD [] = (generateSync ours self).needsOf (generateSync theirs peer) actor head)
    (sound : Sound self ours theirs needs) : Unrepeated self ours theirs := by
  intro actor version last different ourMax needed positive full
  obtain ⟨head, is, low⟩ : ∃ head, (theirs.ensure actor).max = some head ∧ version ≤ head := by
    rcases le_getD_iff.mp (containsVersion_iff.mp full.1).2 with zero | reached
    · omega
    · exact reached
  have list := asked actor head is
  rw [needsOf_some different (by omega) ourMax] at list
  obtain ⟨part, isGap, inside⟩ := @gapNeeds_cover ours theirs actor version head peer is needed positive full
  have once := sound.once actor
  rw [list, flatMap_append, flatMap_append] at once
  obtain ⟨front, _, acrossHead⟩ := pairwise_append.mp once
  obtain ⟨_, _, acrossSeqs⟩ := pairwise_append.mp front
  have gapRequest : (part, none) ∈ (gapNeeds ours theirs peer actor head).flatMap requests :=
    mem_flatMap.mpr ⟨.full part, isGap, mem_cons_self⟩
  have asks : ∀ seq, Asks (part, none) version seq := fun seq => ⟨inside, fun r is => by cases is⟩
  refine ⟨?_, ?_⟩
  · by_contra above
    have headRequest : (⟨last + 1, head⟩, none) ∈ (headNeeds last head).flatMap requests :=
      mem_flatMap.mpr ⟨_, mem_headNeeds.mpr ⟨by omega, rfl⟩, mem_cons_self⟩
    exact acrossHead _ (mem_append_left _ gapRequest) _ headRequest version 0 (asks 0)
      ⟨⟨Nat.not_le.mp above, low⟩, fun r is => by cases is⟩
  · cases isHeld : (ours.ensure actor).partials[version]? with
    | none => rfl
    | some held =>
      exfalso
      by_cases nothing : ∀ seq, seq ∉ held.seqs
      · -- nothing of it is recorded, so its first seq is asked for once more
        have isSeq := @seqNeeds_cover ours theirs actor version held head peer is isHeld
          (incomplete_of_none nothing) positive full
        obtain ⟨r, isLacked, zero⟩ := mem_lacked.mpr ⟨Nat.zero_le held.lastSeq, nothing 0⟩
        have seqRequest : (.single version, some r) ∈ (seqNeeds ours theirs peer actor head).flatMap requests :=
          mem_flatMap.mpr ⟨_, isSeq, mem_map.mpr ⟨r, isLacked, rfl⟩⟩
        exact acrossSeqs _ gapRequest _ seqRequest version 0 (asks 0) ⟨by simp, fun r' is => by cases is; exact zero⟩
      · obtain ⟨seq, has⟩ := not_forall_not.mp nothing
        refine sound.lacked actor (.full part) ?_ version seq (asksFor_full.mpr inside) ?_
        · rw [list]
          exact mem_append_left _ (mem_append_left _ isGap)
        · rw [Has, isHeld]
          exact has

/-! ### Runs that keep it so -/

/-- Everything needed is below the maximum and nothing of it is recorded. -/
structure Tidy (bv : BookedVersions) : Prop where
  keyed : Keyed bv
  below : ∀ version ∈ bv.needed, Reaches bv.max version
  apart : ∀ (version : Nat) held, bv.partials[version]? = some held → version ∉ bv.needed

private theorem tidy_extend {after : BookedVersions} (tidy : Tidy bv) (keyed : Keyed after)
    (step : Extends bv batch after) (partials : ∀ (version : Nat) held, after.partials[version]? = some held →
      version ∈ batch ∨ ∃ old, bv.partials[version]? = some old) : Tidy after := by
  refine ⟨keyed, fun version needed => ?_, fun version held is needed => ?_⟩
  · rw [step.reached]
    obtain ⟨_, old | ⟨_, y, received, _⟩⟩ := (step.missing version).mp needed
    · exact .inl (tidy.below version old)
    · exact .inr ⟨y, received, by omega⟩
  · obtain ⟨outside, before⟩ := (step.missing version).mp needed
    rcases partials version held is with received | ⟨old, isOld⟩
    · exact outside received
    · rcases before with wasNeeded | ⟨above, _⟩
      · exact tidy.apart version old isOld wasNeeded
      · exact (lt_getD_iff.mp above).2 (tidy.keyed version old isOld)

theorem tidy_of_moves {bv after : BookedVersions} (moves : Moves bv after) (tidy : Tidy bv) : Tidy after := by
  have keyed := moves.keyed tidy.keyed
  cases moves with
  | batch processed proper =>
    refine tidy_extend tidy keyed (extends_entries proper) fun version held is => ?_
    by_cases noChunks : chunksOf version processed = []
    · rw [computeAndApply_no_chunks noChunks] at is
      split at is
      · cases is
      · exact .inr ⟨held, is⟩
    · obtain ⟨_, listed⟩ := exists_mem_of_ne_nil _ noChunks
      exact .inl (mem_processedVersions_of_chunk proper listed)
  | inserted versions =>
    exact tidy_extend tidy keyed extends_gaps fun version held is => .inr ⟨held, is⟩
  | applied versions =>
    refine tidy_extend tidy keyed ⟨fun _ => reaches_max, fun _ => mem_needed⟩ fun version held is => ?_
    rw [clearPartials_partials, computeAndApplyGaps_partials] at is
    split at is
    · cases is
    · exact .inr ⟨held, is⟩

/-- Every restart of the run gives back the bookkeeping it finds. -/
def Faithful {engine : CrSqlite} (self : ActorId) : Node engine → List (NodeStep engine) → Prop
  | _, [] => True
  | node, step :: rest =>
    (step = .restart → ∀ actor, (restart node).bookie.ensure actor = node.bookie.ensure actor) ∧
      Faithful self (node.step self step) rest

theorem tidy_run {engine : CrSqlite} {node : Node engine} {steps : List (NodeStep engine)}
    (tidy : ∀ actor, Tidy (node.bookie.ensure actor)) (faithful : Faithful self node steps) :
    ∀ actor, Tidy ((node.run self steps).bookie.ensure actor) := by
  induction steps generalizing node with
  | nil => exact tidy
  | cons first _ ih =>
    obtain ⟨reloads, later⟩ := faithful
    refine ih (fun actor => ?_) later
    by_cases running : first = .restart
    · rw [running, Node.step, reloads running actor]
      exact tidy actor
    · exact tidy_of_moves (step_moves running) (tidy actor)

/-- A run whose restarts are faithful asks for nothing twice, whoever the peer is. -/
theorem unrepeated_run {engine : CrSqlite} {store : engine.Store} {steps : List (NodeStep engine)}
    (faithful : Faithful self (Node.fresh store) steps) :
    Unrepeated self ((Node.fresh store).run self steps).bookie theirs := by
  have tidy := tidy_run (fun actor => ⟨by simp [Keyed, Node.fresh], by simp [Node.fresh],
    by simp [Node.fresh]⟩) faithful
  intro actor version _ _ ourMax needed _ _
  constructor
  · have reached := (tidy actor).below version needed
    rwa [ourMax, reaches_some] at reached
  · cases isHeld : (((Node.fresh store).run self steps).bookie.ensure actor).partials[version]? with
    | none => rfl
    | some held => exact absurd needed ((tidy actor).apart version held isHeld)

/-- **Sync need soundness.** From any states two nodes can reach, the needs are
sound if and only if no version that the peer fully has is needed by us although
it is above our head or partly recorded. -/
theorem available_needs_sound_iff (engine peerEngine : CrSqlite) (self peer : ActorId)
    (store : engine.Store) (peerStore : peerEngine.Store) (steps : List (NodeStep engine))
    (peerSteps : List (NodeStep peerEngine)) (ours theirs : Bookie)
    (reached : ours = ((Node.fresh store).run self steps).bookie)
    (peerReached : theirs = ((Node.fresh peerStore).run peer peerSteps).bookie) :
    ∃ needs, (generateSync ours self).computeAvailableNeeds (generateSync theirs peer) = .ok needs ∧
      (Sound self ours theirs needs ↔ Unrepeated self ours theirs) := by
  obtain ⟨needs, ok, listed⟩ := @available_needs ours theirs self peer
  refine ⟨needs, ok, fun sound => ?_, fun unrepeated => ?_⟩
  · refine @unrepeated_of_sound ours theirs self peer needs (fun actor head is => ?_) sound
    rw [listed, is, Option.bind_some]
    split
    · rename_i nothing
      rw [nothing, Option.getD_none]
    · rfl
  · exact sound_of_unrepeated (fun actor => peerReached ▸ keyed_run) (fun actor => reached ▸ keyed_run)
      (fun actor => available_cases (listed actor)) unrepeated

/-- A chunk of version 5 of actor 3. -/
def fifthChunk : ChangeV1 := ⟨3, .full 5 [⟨"t", [1], "c", .integer 1, 1, 5, 0, 3, 1⟩] ⟨0, 0⟩ 1 5⟩

/-- Version 3 whole, a chunk of version 5, then version 5 declared empty. -/
def fifthEmptied : List (NodeStep Lww.engine) :=
  [.changes .none [⟨3, .empty ⟨3, 3⟩ none⟩], .changes .none [fifthChunk],
    .changes .none [⟨3, .empty ⟨5, 5⟩ none⟩]]

/-- A peer that has ten versions. -/
def tenVersions : Bookie :=
  ((Node.fresh Lww.empty).run 2 [.changes .none [⟨3, .empty ⟨1, 10⟩ none⟩]] : Node Lww.engine).bookie

theorem needs_sound_before_restart :
    ∃ needs, (generateSync ((Node.fresh Lww.empty).run 1 fifthEmptied).bookie 1).computeAvailableNeeds
        (generateSync tenVersions 2) = .ok needs ∧
      Sound 1 ((Node.fresh Lww.empty).run 1 fifthEmptied).bookie tenVersions needs := by
  obtain ⟨needs, ok, sound⟩ := available_needs_sound_iff Lww.engine Lww.engine 1 2 Lww.empty Lww.empty
    fifthEmptied [.changes .none [⟨3, .empty ⟨1, 10⟩ none⟩]] _ tenVersions rfl rfl
  exact ⟨needs, ok, sound.mpr (unrepeated_run (by simp [fifthEmptied, Faithful]))⟩

/-- After a restart the maximum is 3 and version 4 is still needed: it is asked for as
a gap and again as part of what is above the head. -/
theorem needs_repeat_after_restart :
    (((generateSync ((Node.fresh Lww.empty).run 1 (fifthEmptied ++ [.restart])).bookie 1).computeAvailableNeeds
      (generateSync tenVersions 2)).toOption.bind (fun needs => needs[(3 : ActorId)]?)) =
        some [.full ⟨1, 2⟩, .full ⟨4, 4⟩, .full ⟨4, 10⟩] ∧
    ∀ needs, (generateSync ((Node.fresh Lww.empty).run 1 (fifthEmptied ++ [.restart])).bookie
        1).computeAvailableNeeds (generateSync tenVersions 2) = .ok needs →
      ¬ Sound 1 ((Node.fresh Lww.empty).run 1 (fifthEmptied ++ [.restart])).bookie tenVersions needs := by
  have listed : (((generateSync ((Node.fresh Lww.empty).run 1
      (fifthEmptied ++ [.restart])).bookie 1).computeAvailableNeeds (generateSync tenVersions 2)).toOption.bind
        (fun needs => needs[(3 : ActorId)]?)) = some [.full ⟨1, 2⟩, .full ⟨4, 4⟩, .full ⟨4, 10⟩] := by decide
  refine ⟨listed, fun needs ok sound => ?_⟩
  have once := sound.once 3
  rw [ok] at listed
  have found : needs[(3 : ActorId)]? = some [.full ⟨1, 2⟩, .full ⟨4, 4⟩, .full ⟨4, 10⟩] := listed
  rw [found] at once
  have apart : Separate (⟨4, 4⟩, none) (⟨4, 10⟩, none) := by
    simp only [Option.getD_some, flatMap_cons, flatMap_nil, requests, singleton_append,
      append_nil, pairwise_cons] at once
    exact once.2.1 _ (by simp)
  exact apart 4 0 (by simp [Asks, RangeInclusive.mem_def]) (by simp [Asks, RangeInclusive.mem_def])

end Galvanize.SyncSoundness
