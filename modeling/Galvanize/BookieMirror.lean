import Galvanize.BookieInvariant
import Galvanize.BookieDb

/-! The tables mirror the bookkeeping. Memory is updated by set algebra while
the database is updated by deleting and inserting exact tuples, computed before
either changes. Both end up with the same maximal ranges because every range
that the new ones would merge with is listed for deletion. -/
namespace Galvanize.BookieMirror
open BookedVersions BookieProofs BookieInvariant RangeInclusiveSet List BookieDbParams ComputedPartialSeqChange

variable {bv : BookedVersions} {processed : List Processed}

/-! ### What a batch exchanges in memory -/

/-- A stored gap that the batch does not rewrite is not even adjacent to what
the batch opens. Below the opened gap this rests on the maximum not being
needed: a gap that ended there would be adjacent without overlapping. -/
private theorem kept_gap_apart (settled : Settled bv)
    (stored : r ∈ bv.needed.ranges) (kept : r ∉ (bv.computeGapsChange batch).removeRanges)
    (incoming : x ∈ (bv.computeGapsChange batch).insertSet) : x + 1 < r.start ∨ r.stop + 1 < x := by
  have proper := bv.needed.canonical.1 r stored
  have untouched : ¬ Rewritten bv batch r := fun rewritten => kept (mem_removeRanges.mpr ⟨stored, rewritten⟩)
  obtain ⟨outside, ⟨old, oldStored, oldRewritten, inside⟩ | ⟨_, y, ⟨s, held, received⟩, _⟩⟩ :=
    mem_insertSet.mp incoming
  · by_contra near
    simp only [RangeInclusive.mem_def] at inside
    have same := stored_unique stored oldStored ⟨by omega, by omega⟩
    exact untouched (same ▸ oldRewritten)
  · have below : x < s.start := by
      by_contra within
      simp only [RangeInclusive.mem_def] at received
      exact outside ⟨s, held, by simp only [RangeInclusive.mem_def]; omega⟩
    have opens : opensGap bv s := by
      simp only [opensGap]
      omega
    have notTouching : ¬ Touches r s := fun touches => untouched ⟨s, held, .inl touches⟩
    have notOverlapping : ¬ r.Overlaps ⟨bv.max.getD 0 + 1, s.start⟩ := fun overlaps =>
      untouched ⟨s, held, .inr ⟨opens, overlaps⟩⟩
    have notMax : r.stop ≠ bv.max.getD 0 := by
      intro same
      have needed : r.stop ∈ bv.needed := ⟨r, stored, proper, le_refl _⟩
      exact settled (same ▸ needed)
    simp only [Touches, RangeInclusive.Overlaps] at notTouching notOverlapping
    omega

theorem exchanged_needed (settled : Settled bv) : Exchanged bv.needed (bv.computeAndApplyGaps batch).1.needed
      (bv.computeGapsChange batch).removeRanges (bv.computeGapsChange batch).insertSet := by
  refine exchanged_of_apart (fun r member => (mem_removeRanges.mp member).1) (fun x => ?_)
    (fun r stored kept x incoming => kept_gap_apart settled stored kept incoming)
  simp only [computeAndApplyGaps, mem_extend_set, mem_removeAll]

/-- The recorded seqs of a version; none when it is not partial. -/
def seqsOf : Option PartialVersion → RangeInclusiveSet
  | some held => held.seqs
  | none => ∅

theorem mem_seqsOf_mergePartial {held : Option PartialVersion} :
    seq ∈ (mergePartial held chunk).seqs ↔ seq ∈ seqsOf held ∨ seq ∈ chunk.seqs := by
  cases held with
  | none => simp [seqsOf]
  | some _ => simp [seqsOf, mem_mergePartial]

variable {version : Nat} {chunk : PartialVersion}

/-- The recorded range touches a received one. -/
def TouchedBy (chunk : PartialVersion) (old : RangeInclusive) : Prop :=
  ∃ received ∈ chunk.seqs.ranges, Touches old received

private theorem foldl_partialsStep {existing : PartialVersion} {ranges : List RangeInclusive}
    {changes : PartialChanges} {x : Nat} (proper : ∀ r ∈ ranges, r.start ≤ r.stop) :
    (x ∈ (ranges.foldl (partialsStep existing) changes).insertSeqs ↔ x ∈ changes.insertSeqs ∨
      ∃ received ∈ ranges, ∃ old ∈ existing.seqs.ranges, Touches old received ∧ x ∈ old) ∧
    (x ∈ (ranges.foldl (partialsStep existing) changes).removeSeqs ↔ x ∈ changes.removeSeqs ∨
      ∃ received ∈ ranges, ∃ old ∈ existing.seqs.ranges, Touches old received ∧ x ∈ old) := by
  induction ranges generalizing changes with
  | nil => simp
  | cons first _ ih =>
    have own := proper first (by simp)
    obtain ⟨inserted, removed⟩ := @ih (partialsStep existing changes first)
      (fun r member => proper r (by simp [member]))
    rw [foldl_cons, inserted, removed]
    simp only [partialsStep, mem_extend_set, mem_computeOverlappingRanges own, mem_cons,
      exists_eq_or_imp, or_assoc, and_self]

private theorem touched_iff {held : RangeInclusiveSet} :
    (∃ received ∈ chunk.seqs.ranges, ∃ old ∈ held.ranges, Touches old received ∧ x ∈ old) ↔
      ∃ old ∈ held.ranges, TouchedBy chunk old ∧ x ∈ old := by
  constructor
  · rintro ⟨received, given, old, stored, touches, inside⟩
    exact ⟨old, stored, ⟨received, given, touches⟩, inside⟩
  · rintro ⟨old, stored, ⟨received, given, touches⟩, inside⟩
    exact ⟨received, given, old, stored, touches, inside⟩

theorem mem_partialsChange : (x ∈ (bv.computePartialsChange version chunk).insertSeqs ↔
      (∃ old ∈ (seqsOf bv.partials[version]?).ranges, TouchedBy chunk old ∧ x ∈ old) ∨ x ∈ chunk.seqs) ∧
    (x ∈ (bv.computePartialsChange version chunk).removeSeqs ↔
      ∃ old ∈ (seqsOf bv.partials[version]?).ranges, TouchedBy chunk old ∧ x ∈ old) := by
  unfold computePartialsChange
  cases bv.partials[version]? with
  | none => simp only [seqsOf, mem_extend_set, ranges_empty, not_mem_nil, false_and,
      exists_false, not_mem_empty, false_or, and_self]
  | some existing =>
    obtain ⟨inserted, removed⟩ := @foldl_partialsStep existing chunk.seqs.ranges ⟨∅, ∅⟩ x chunk.seqs.canonical.1
    simp only [mem_extend_set, inserted, removed, touched_iff, seqsOf, not_mem_empty, false_or, and_self]

theorem ranges_removeSeqs : old ∈ (bv.computePartialsChange version chunk).removeSeqs.ranges ↔
      old ∈ (seqsOf bv.partials[version]?).ranges ∧ TouchedBy chunk old :=
  stored_subset (fun _ => mem_partialsChange.2) old

theorem exchanged_seqs : Exchanged (seqsOf bv.partials[version]?) (mergePartial bv.partials[version]? chunk).seqs
      (bv.computePartialsChange version chunk).removeSeqs.ranges
      (bv.computePartialsChange version chunk).insertSeqs := by
  refine exchanged_of_apart (fun r member => (ranges_removeSeqs.mp member).1) (fun x => ?_) ?_
  · rw [mem_seqsOf_mergePartial, mem_partialsChange.1]
    constructor
    · rintro (⟨old, stored, inside⟩ | received)
      · by_cases touched : TouchedBy chunk old
        · exact .inr (.inl ⟨old, stored, touched, inside⟩)
        · refine .inl ⟨⟨old, stored, inside⟩, fun other member otherInside => ?_⟩
          obtain ⟨otherStored, otherTouched⟩ := ranges_removeSeqs.mp member
          simp only [RangeInclusive.mem_def] at inside otherInside
          have same := stored_unique stored otherStored ⟨by omega, by omega⟩
          exact touched (same ▸ otherTouched)
      · exact .inr (.inr received)
    · rintro (⟨held, _⟩ | ⟨old, stored, _, inside⟩ | received)
      · exact .inl held
      · exact .inl ⟨old, stored, inside⟩
      · exact .inr received
  · intro r stored kept x incoming
    have untouched : ¬ TouchedBy chunk r := fun touched => kept (ranges_removeSeqs.mpr ⟨stored, touched⟩)
    by_contra near
    rcases mem_partialsChange.1.mp incoming with ⟨old, oldStored, touched, inside⟩ | ⟨s, given, inside⟩
    · simp only [RangeInclusive.mem_def] at inside
      have same := stored_unique stored oldStored ⟨by omega, by omega⟩
      exact untouched (same ▸ touched)
    · simp only [RangeInclusive.mem_def] at inside
      exact untouched ⟨s, given, by omega, by omega⟩

/-! ### Statements that do what they list -/

/-- Every tuple listed for deletion exists when its statement runs, every key
listed for insertion is free then, and no list repeats itself. -/
structure Effective (params : BookieDbParams) (tables : BookieTables) : Prop where
  gapDeletes : ∀ row ∈ params.gapDeletes, row ∈ tables.gaps
  gapDeletesOnce : params.gapDeletes.Nodup
  gapInserts : ∀ row ∈ params.gapInserts, ∀ old ∈ (params.deleteGaps tables).1.gaps,
    old.key ≠ row.key
  gapInsertsOnce : (params.gapInserts.map GapRow.key).Nodup
  partialsDeletes : ∀ tuple ∈ params.partialsDeletes,
    ∃ row ∈ (params.deleteCompleteVersions tables).seqs, row.tuple = tuple
  partialsDeletesOnce : params.partialsDeletes.Nodup
  partialInserts : ∀ row ∈ params.partialInserts,
    ∀ old ∈ (params.deletePartials (params.deleteCompleteVersions tables)).1.seqs,
      old.key ≠ row.key
  partialInsertsOnce : (params.partialInserts.map SeqRow.key).Nodup

variable {params : BookieDbParams} {tables : BookieTables}

theorem mem_deleteGaps : row ∈ (params.deleteGaps tables).1.gaps ↔ row ∈ tables.gaps ∧ row ∉ params.gapDeletes := by
  simp [deleteGaps]

theorem mem_deleteCompleteVersions : row ∈ (params.deleteCompleteVersions tables).seqs ↔
      row ∈ tables.seqs ∧ row.version ∉ params.completeVersionDeletes := by
  simp [deleteCompleteVersions]

theorem mem_deletePartials :
    row ∈ (params.deletePartials tables).1.seqs ↔ row ∈ tables.seqs ∧ row.tuple ∉ params.partialsDeletes := by
  simp [deletePartials]

theorem eq_of_tuple {t : Table SeqRow SeqRow.key} (held : row ∈ t)
    (otherHeld : other ∈ t) (same : row.tuple = other.tuple) : row = other := by
  simp only [SeqRow.tuple, Prod.mk.injEq] at same
  exact t.eq_of_key held otherHeld (by simp [SeqRow.key, same])

/-- Statements that do what they list succeed, report nothing and leave exactly
the rows they should. -/
theorem execute_of_effective (effective : Effective params tables) : ∃ after, params.execute tables = (.ok after, []) ∧
      (∀ row, row ∈ after.gaps ↔ (row ∈ tables.gaps ∧ row ∉ params.gapDeletes) ∨ row ∈ params.gapInserts) ∧
      ∀ row, row ∈ after.seqs ↔ (row ∈ tables.seqs ∧ row.version ∉ params.completeVersionDeletes ∧
        row.tuple ∉ params.partialsDeletes) ∨ row ∈ params.partialInserts := by
  have gapCount : tables.gaps.deleted (fun row => decide (row ∈ params.gapDeletes)) = params.gapDeletes.length :=
    Table.deleted_eq_length id (fun _ => decide_eq_true_iff) effective.gapDeletesOnce
      (fun row listed => ⟨row, effective.gapDeletes row listed, rfl⟩) (fun _ _ _ _ same => same)
  have seqCount : (params.deleteCompleteVersions tables).seqs.deleted
      (fun row => decide (row.tuple ∈ params.partialsDeletes)) = params.partialsDeletes.length :=
    Table.deleted_eq_length SeqRow.tuple (fun _ => decide_eq_true_iff)
      effective.partialsDeletesOnce effective.partialsDeletes
      (fun _ held _ otherHeld same => eq_of_tuple held otherHeld same)
  obtain ⟨gaps, gapsInserted, gapRows⟩ := Table.insertAll_fresh effective.gapInsertsOnce (fun old held row listed =>
      effective.gapInserts row listed old held)
  obtain ⟨seqs, seqsInserted, seqRows⟩ := Table.insertAll_fresh effective.partialInsertsOnce (fun old held row listed =>
      effective.partialInserts row listed old held)
  refine ⟨⟨gaps, seqs⟩, ?_, fun row => ?_, fun row => ?_⟩
  · simp only [BookieDbParams.deleteCompleteVersions] at seqCount seqsInserted
    simp only [BookieDbParams.deleteGaps, BookieDbParams.deletePartials] at gapsInserted seqsInserted gapRows
    simp [execute, deleteGaps, insertGaps,
      BookieDbParams.deleteCompleteVersions, BookieDbParams.deletePartials,
      BookieDbParams.insertPartials, gapCount, seqCount, gapsInserted, seqsInserted, gapRows]
  · rw [Table.mem_def, gapRows, mem_append, ← Table.mem_def, mem_deleteGaps]
  · rw [Table.mem_def, seqRows, mem_append, ← Table.mem_def, mem_deletePartials, mem_deleteCompleteVersions, and_assoc]

/-- Executed statements leave no seq row but old and listed ones. -/
theorem seqs_of_execute {after : BookieTables}
    (executed : params.execute tables = (.ok after, reports)) (held : row ∈ after.seqs) :
    row ∈ tables.seqs ∨ row ∈ params.partialInserts := by
  simp only [BookieDbParams.execute, BookieDbParams.insertGaps, BookieDbParams.insertPartials] at executed
  split at executed
  · cases executed
  rename_i afterGaps insertion gapsInserted
  split at gapsInserted
  · cases gapsInserted
  cases gapsInserted
  split at executed
  · cases executed
  rename_i seqsInserted
  split at seqsInserted
  · cases seqsInserted
  rename_i seqs inserted
  cases seqsInserted
  cases executed
  rcases Table.mem_of_insertAll inserted held with old | listed
  · exact .inl (mem_deleteCompleteVersions.mp (mem_deletePartials.mp old).1).1
  · exact .inr listed

/-! ### The rows of one transaction -/

variable {bookie : Bookie} {entries : Map ActorId (List Processed)} {actor : ActorId}

/-- The entries of an actor. One without any behaves as one with none. -/
def entriesOf (entries : Map ActorId (List Processed)) (actor : ActorId) : List Processed := entries[actor]?.getD []

def computed (bookie : Bookie) (entries : Map ActorId (List Processed)) (actor : ActorId) :
    BookedVersions × ComputedChanges × List Nat :=
  (bookie.ensure actor).computeAndApply (entriesOf entries actor)

theorem computeAndApply_nil : bv.computeAndApply [] = (bv, ⟨bv.actorId, ⟨bv.max, ∅, []⟩, [], []⟩, []) := rfl

theorem ensure_insert : Bookie.ensure (bookie.insert actor bv) other =
      if actor = other then bv else bookie.ensure other := by
  simp only [Bookie.ensure, Std.ExtTreeMap.getElem?_insert, Std.LawfulEqOrd.compare_eq_iff_eq]
  split <;> simp

private theorem ensure_applyStep : (Bookie.applyStep state (actor, given)).bookie.ensure other =
      if actor = other then ((state.bookie.ensure actor).computeAndApply given).1
      else state.bookie.ensure other := ensure_insert

/-- Actors of one transaction do not see each other's changes. -/
private theorem allChanges_applyStep {listed : List (ActorId × List Processed)} {state : Bookie.Applied}
    (distinct : listed.Pairwise (fun a b => a.1 ≠ b.1)) :
    (listed.foldl Bookie.applyStep state).allChanges = state.allChanges ++ listed.map (fun entry =>
      ((state.bookie.ensure entry.1).computeAndApply entry.2).2.1) := by
  induction listed generalizing state with
  | nil => simp
  | cons first rest ih =>
    obtain ⟨firstNew, restDistinct⟩ := pairwise_cons.mp distinct
    have unseen : ∀ entry ∈ rest,
        (Bookie.applyStep state first).bookie.ensure entry.1 = state.bookie.ensure entry.1 := by
      intro entry member
      rw [ensure_applyStep, if_neg (firstNew entry member)]
    rw [foldl_cons, ih restDistinct, map_cons, map_congr_left (fun entry member => by
      rw [unseen entry member])]
    simp only [Bookie.applyStep, append_assoc, singleton_append]

private theorem entriesOf_eq (listed : (actor, given) ∈ entries.toList) : entriesOf entries actor = given := by
  rw [entriesOf, Std.ExtTreeMap.mem_toList_iff_getElem?_eq_some.mp listed, Option.getD_some]

/-- Each actor's bookkeeping after a transaction. -/
theorem ensure_computeAndApplyAll :
    (bookie.computeAndApplyAll entries).bookie.ensure actor = (computed bookie entries actor).1 := by
  have folded := @foldl_toList_view _ _ _ _ Bookie.applyStep (fun state => state.bookie.ensure)
    (fun _ given bv => (bv.computeAndApply given).1) _ _ _ entries
    (fun state key value => by rw [ensure_applyStep, if_pos rfl])
    (fun state key value other different => by rw [ensure_applyStep, if_neg different])
    ⟨bookie, [], []⟩ actor
  rw [Bookie.computeAndApplyAll, folded, computed, entriesOf]
  cases entries[actor]? with
  | none => rw [Option.getD_none, computeAndApply_nil]
  | some given => rfl

/-- Whatever is collected from the changes of a transaction comes from one
actor's changes, provided idle actors contribute nothing. -/
theorem mem_collected {collect : ComputedChanges → List β} (idle : ∀ a max, collect ⟨a, ⟨max, ∅, []⟩, [], []⟩ = []) :
    item ∈ (bookie.computeAndApplyAll entries).allChanges.flatMap collect ↔
      ∃ actor, item ∈ collect (computed bookie entries actor).2.1 := by
  have changes := @allChanges_applyStep entries.toList ⟨bookie, [], []⟩ toList_distinct
  rw [Bookie.computeAndApplyAll, changes]
  simp only [nil_append, mem_flatMap, mem_map, Prod.exists]
  constructor
  · rintro ⟨_, ⟨actor, given, listed, rfl⟩, member⟩
    exact ⟨actor, by rwa [computed, entriesOf_eq listed]⟩
  · rintro ⟨actor, member⟩
    cases held : entries[actor]? with
    | none =>
      rw [computed, entriesOf, held, Option.getD_none, computeAndApply_nil, idle] at member
      cases member
    | some given =>
      have listed := Std.ExtTreeMap.mem_toList_iff_getElem?_eq_some.mpr held
      rw [computed, entriesOf_eq listed] at member
      exact ⟨_, ⟨actor, given, listed, rfl⟩, member⟩

/-- Every entry of the map belongs to the actor it is filed under. -/
def Owned (bookie : Bookie) : Prop := ∀ actor, (bookie.ensure actor).actorId = actor

theorem nodup_collected {β : Type} {collect : ComputedChanges → List β} (owner : β → ActorId)
    (owned : Owned bookie) (own : ∀ c, ∀ item ∈ collect c, owner item = c.actorId)
    (each : ∀ actor, (collect (computed bookie entries actor).2.1).Nodup) :
    ((bookie.computeAndApplyAll entries).allChanges.flatMap collect).Nodup := by
  have changes := @allChanges_applyStep entries.toList ⟨bookie, [], []⟩ toList_distinct
  rw [Bookie.computeAndApplyAll, changes]
  refine nodup_flatMap_of_tag ComputedChanges.actorId owner ?_ ?_ (fun c _ => own c)
  · rw [nil_append, map_map]
    refine pairwise_map.mpr (toList_distinct.imp fun different same => different ?_)
    simpa only [Function.comp_apply, computeAndApply, owned _] using same
  · simp only [nil_append, mem_map, Prod.exists]
    rintro _ ⟨actor, _, listed, rfl⟩
    have := each actor
    rwa [computed, entriesOf_eq listed] at this

/-- The bookkeeping between clearing and merging. -/
def cleared (bv : BookedVersions) (processed : List Processed) : BookedVersions :=
  ((bv.computeAndApplyGaps (processedVersions processed)).1.computeAndApplyClearPartials
    (completeVersions processed)).1

theorem cleared_partials : (cleared bv processed).partials[version]? =
      if version ∈ completeVersions processed then none else bv.partials[version]? := by
  rw [cleared, clearPartials_partials, computeAndApplyGaps_partials]

theorem partials_computeAndApply : (bv.computeAndApply processed).1.partials[version]? =
      match (partialVersions processed)[version]? with
      | none => (cleared bv processed).partials[version]?
      | some united => some (mergePartial (cleared bv processed).partials[version]? united) := by
  rw [partialVersions_eq, cleared_partials]
  exact computeAndApply_partials

/-- The row changes computed for a partial version of a batch. -/
def partialChanges (bv : BookedVersions) (processed : List Processed) (version : Nat)
    (united : PartialVersion) : PartialChanges :=
  (cleared bv processed).computePartialsChange version united

/-- `from_changes` asserts no less: every chunk with a seq has rows inserted. -/
theorem insertSeqsNonempty_computeAndApply
    (chunks : ∀ entry ∈ (partialVersions processed).toList, ∃ seq, seq ∈ entry.2.seqs) :
    insertSeqsNonempty [(bv.computeAndApply processed).2.1] = true := by
  simp only [insertSeqsNonempty, computeAndApply, computeAndApplyPartials, all_cons, all_nil, Bool.and_true,
    all_map, all_eq_true]
  intro entry listed
  obtain ⟨seq, member⟩ := chunks entry listed
  obtain ⟨r, inserted, _⟩ := mem_def.mp (mem_extend_set.mpr (.inr member))
  have filled : RangeInclusiveSet.isEmpty _ = false := isEmpty_eq_false_iff.mpr (ne_nil_of_mem inserted)
  exact congrArg not filled

/-- The parameters of a transaction. -/
def paramsOf (bookie : Bookie) (entries : Map ActorId (List Processed)) : BookieDbParams :=
  .fromChanges (bookie.computeAndApplyAll entries).allChanges

section
variable (owned : Owned bookie)
include owned

private theorem mem_gapRows {ranges : ComputedChanges → List RangeInclusive}
    (idle : ∀ a max, ranges ⟨a, ⟨max, ∅, []⟩, [], []⟩ = []) {row : GapRow} :
    row ∈ (bookie.computeAndApplyAll entries).allChanges.flatMap (fun c =>
        (ranges c).map (fun r => ⟨c.actorId, r.start, r.stop⟩)) ↔
      row.range ∈ ranges (computed bookie entries row.actorId).2.1 := by
  rw [mem_collected (by simp [idle])]
  have own : ∀ actor, (computed bookie entries actor).2.1.actorId = actor := owned
  simp only [own, mem_map]
  constructor
  · rintro ⟨actor, r, member, rfl⟩
    exact member
  · intro member
    exact ⟨row.actorId, row.range, member, rfl⟩

theorem mem_gapDeletes {row : GapRow} : row ∈ (paramsOf bookie entries).gapDeletes ↔
      row.range ∈ ((bookie.ensure row.actorId).computeGapsChange
        (processedVersions (entriesOf entries row.actorId))).removeRanges :=
  mem_gapRows owned (fun _ _ => rfl)

theorem mem_gapInserts {row : GapRow} : row ∈ (paramsOf bookie entries).gapInserts ↔
      row.range ∈ ((bookie.ensure row.actorId).computeGapsChange
        (processedVersions (entriesOf entries row.actorId))).insertSet.ranges :=
  mem_gapRows owned (fun _ _ => rfl)

theorem mem_completeVersionDeletes {version : Nat} :
    (actor, version) ∈ (paramsOf bookie entries).completeVersionDeletes ↔
      version ∈ completeVersions (entriesOf entries actor) ∧
        ∃ held, (bookie.ensure actor).partials[version]? = some held := by
  rw [paramsOf, fromChanges, mem_collected (by simp)]
  simp only [computed, computeAndApply, owned _, mem_map, Prod.mk.injEq, mem_clearVersions,
    computeAndApplyGaps_partials]
  constructor
  · rintro ⟨_, _, member, rfl, rfl⟩
    exact member
  · intro member
    exact ⟨actor, version, member, rfl, rfl⟩

theorem mem_partialsDeletes {version start stop : Nat} :
    (actor, version, start, stop) ∈ (paramsOf bookie entries).partialsDeletes ↔
      ∃ united, (partialVersions (entriesOf entries actor))[version]? = some united ∧
        ⟨start, stop⟩ ∈ (partialChanges (bookie.ensure actor) (entriesOf entries actor) version
          united).removeSeqs.ranges := by
  rw [paramsOf, fromChanges, mem_collected (by simp)]
  simp only [computed, computeAndApply, computeAndApplyPartials, owned _, mem_flatMap,
    mem_map, Prod.exists, Std.ExtTreeMap.mem_toList_iff_getElem?_eq_some]
  constructor
  · rintro ⟨_, _, ⟨_, united, given, rfl⟩, deleted⟩
    simp only [deletes, mem_map, Prod.mk.injEq] at deleted
    obtain ⟨r, member, rfl, rfl, rfl, rfl⟩ := deleted
    exact ⟨united, given, member⟩
  · rintro ⟨united, given, member⟩
    refine ⟨actor, _, ⟨version, united, given, rfl⟩, ?_⟩
    exact mem_map.mpr ⟨⟨start, stop⟩, member, rfl⟩

theorem mem_partialInserts : row ∈ (paramsOf bookie entries).partialInserts ↔
      ∃ united, (partialVersions (entriesOf entries row.siteId))[row.dbVersion]? = some united ∧
        row.range ∈ (partialChanges (bookie.ensure row.siteId) (entriesOf entries row.siteId)
          row.dbVersion united).insertSeqs.ranges ∧ row.lastSeq = united.lastSeq ∧ row.ts = united.ts := by
  rw [paramsOf, fromChanges, mem_collected (by simp)]
  simp only [computed, computeAndApply, computeAndApplyPartials, owned _, mem_flatMap,
    mem_map, Prod.exists, Std.ExtTreeMap.mem_toList_iff_getElem?_eq_some]
  constructor
  · rintro ⟨_, _, ⟨_, united, given, rfl⟩, inserted⟩
    simp only [inserts, mem_map] at inserted
    obtain ⟨r, member, rfl⟩ := inserted
    exact ⟨united, given, member, rfl, rfl⟩
  · rintro ⟨united, given, member, lastSeq, ts⟩
    refine ⟨row.siteId, _, ⟨row.dbVersion, united, given, rfl⟩, ?_⟩
    exact mem_map.mpr ⟨row.range, member, by simp [SeqRow.range, ← lastSeq, ← ts]⟩

private theorem insertedTuples : (∃ row ∈ (paramsOf bookie entries).partialInserts,
        row.tuple = (actor, version, r.start, r.stop)) ↔
      ∃ united, (partialVersions (entriesOf entries actor))[version]? = some united ∧
        r ∈ (partialChanges (bookie.ensure actor) (entriesOf entries actor) version united).insertSeqs.ranges := by
  constructor
  · rintro ⟨⟨_, db, s, e, _, ts⟩, inserted, same⟩
    obtain ⟨rfl, rfl, rfl, rfl⟩ := same
    obtain ⟨united, given, member, _⟩ := (mem_partialInserts owned).mp inserted
    exact ⟨united, given, member⟩
  · rintro ⟨united, given, member⟩
    exact ⟨⟨actor, version, r.start, r.stop, united.lastSeq, united.ts⟩,
      (mem_partialInserts owned).mpr ⟨united, given, member, rfl, rfl⟩, rfl⟩

end

/-! ### The mirror -/

/-- The rows are the stored ranges of the bookkeeping, actor by actor. -/
structure Mirrored (bookie : Bookie) (tables : BookieTables) : Prop where
  owned : Owned bookie
  settled : ∀ actor, Settled (bookie.ensure actor)
  gaps : ∀ row : GapRow, row ∈ tables.gaps ↔ row.range ∈ (bookie.ensure row.actorId).needed.ranges
  seqs : ∀ actor version r, (∃ row ∈ tables.seqs, row.tuple = (actor, version, r.start, r.stop)) ↔
    r ∈ (seqsOf (bookie.ensure actor).partials[version]?).ranges

theorem mirrored_empty : Mirrored ∅ ∅ where
  owned := fun actor => by simp
  settled := fun actor => by simpa using settled_new actor
  gaps := fun row => by simp
  seqs := fun actor version r => by simp [seqsOf]

variable {r : RangeInclusive}

/-- After the complete versions are deleted the seq rows are those of the
bookkeeping between clearing and merging. -/
theorem Mirrored.seqs_cleared (mirrored : Mirrored bookie tables) :
    (∃ row ∈ ((paramsOf bookie entries).deleteCompleteVersions tables).seqs,
        row.tuple = (actor, version, r.start, r.stop)) ↔
      r ∈ (seqsOf (cleared (bookie.ensure actor) (entriesOf entries actor)).partials[version]?).ranges := by
  rw [cleared_partials]
  simp only [mem_deleteCompleteVersions, and_assoc]
  have stored := mirrored.seqs actor version r
  constructor
  · rintro ⟨row, held, stays, same⟩
    have inMemory := stored.mp ⟨row, held, same⟩
    have listed : row.version = (actor, version) := by
      simp only [SeqRow.tuple, Prod.mk.injEq] at same
      simp [SeqRow.version, same]
    rw [listed, mem_completeVersionDeletes mirrored.owned] at stays
    split
    · rename_i complete
      cases partially : (bookie.ensure actor).partials[version]? with
      | none => simp [partially, seqsOf] at inMemory
      | some got => exact absurd ⟨complete, got, partially⟩ stays
    · exact inMemory
  · intro inMemory
    split at inMemory
    · simp [seqsOf] at inMemory
    · rename_i incomplete
      obtain ⟨row, held, same⟩ := stored.mpr inMemory
      have listed : row.version = (actor, version) := by
        simp only [SeqRow.tuple, Prod.mk.injEq] at same
        simp [SeqRow.version, same]
      refine ⟨row, held, ?_, same⟩
      rw [listed, mem_completeVersionDeletes mirrored.owned]
      exact fun ⟨complete, _⟩ => incomplete complete

private theorem gapInserts_once (owned : Owned bookie) :
    ((paramsOf bookie entries).gapInserts.map GapRow.key).Nodup := by
  rw [paramsOf, fromChanges, map_flatMap]
  refine nodup_collected Prod.fst owned ?_ (fun actor => ?_)
  · simp only [map_map, mem_map, Function.comp_apply]
    rintro c _ ⟨r, _, rfl⟩
    rfl
  · rw [map_map]
    exact nodup_map_ranges Prod.snd (fun _ => rfl)

private theorem gapDeletes_once (owned : Owned bookie) : (paramsOf bookie entries).gapDeletes.Nodup := by
  refine nodup_collected GapRow.actorId owned ?_ (fun actor => ?_)
  · simp only [mem_map]
    rintro c _ ⟨r, _, rfl⟩
    rfl
  · refine List.Nodup.map ?_ removeRanges_nodup
    intro a b same
    cases a
    cases b
    simpa using same

/-- The versions of a batch's partial entries are distinct. -/
private theorem partialSeqChanges_once (bv : BookedVersions) (processed : List Processed) :
    ((bv.computeAndApply processed).2.1.partialSeqChanges.map ComputedPartialSeqChange.version).Nodup := by
  simp only [computeAndApply, computeAndApplyPartials, map_map]
  refine pairwise_map.mpr (toList_distinct.imp fun different same => different ?_)
  simpa using same

private theorem partialsDeletes_once (owned : Owned bookie) : (paramsOf bookie entries).partialsDeletes.Nodup := by
  refine nodup_collected Prod.fst owned ?_ (fun actor => ?_)
  · simp only [mem_flatMap, deletes, mem_map]
    rintro c _ ⟨_, _, r, _, rfl⟩
    rfl
  · refine nodup_flatMap_of_tag version (fun tuple => tuple.2.1)
      (partialSeqChanges_once _ _) (fun change _ => ?_) (fun change _ => ?_)
    · exact nodup_map_ranges (fun tuple => tuple.2.2.1) (fun _ => rfl)
    · simp only [deletes, mem_map]
      rintro _ ⟨r, _, rfl⟩
      rfl

private theorem partialInserts_once (owned : Owned bookie) :
    ((paramsOf bookie entries).partialInserts.map SeqRow.key).Nodup := by
  rw [paramsOf, fromChanges, map_flatMap]
  refine nodup_collected Prod.fst owned ?_ (fun actor => ?_)
  · simp only [mem_map, mem_flatMap, inserts]
    rintro c _ ⟨_, ⟨_, _, r, _, rfl⟩, rfl⟩
    rfl
  · rw [map_flatMap]
    refine nodup_flatMap_of_tag version (fun key => key.2.1)
      (partialSeqChanges_once _ _) (fun change _ => ?_) (fun change _ => ?_)
    · rw [inserts, map_map]
      exact nodup_map_ranges (fun key => key.2.2) (fun _ => rfl)
    · simp only [inserts, map_map, mem_map]
      rintro _ ⟨r, _, rfl⟩
      rfl

/-- In a mirrored state the statements of a transaction do what they list. -/
theorem Mirrored.effective (mirrored : Mirrored bookie tables)
    (entries : Map ActorId (List Processed)) : Effective (paramsOf bookie entries) tables where
  gapDeletes := fun row listed => by
    have settled := mirrored.settled row.actorId
    exact (mirrored.gaps row).mpr ((exchanged_needed settled).held _ ((mem_gapDeletes mirrored.owned).mp listed))
  gapDeletesOnce := gapDeletes_once mirrored.owned
  gapInserts := fun row listed old held same => by
    simp only [GapRow.key, Prod.mk.injEq] at same
    obtain ⟨stored, stays⟩ := mem_deleteGaps.mp held
    have settled := mirrored.settled row.actorId
    rw [mem_gapInserts mirrored.owned] at listed
    rw [mem_gapDeletes mirrored.owned, same.1] at stays
    rw [mirrored.gaps, same.1] at stored
    exact (exchanged_needed settled).start_ne listed stored stays same.2
  gapInsertsOnce := gapInserts_once mirrored.owned
  partialsDeletes := fun (actor, version, start, stop) listed => by
    obtain ⟨united, _, member⟩ := (mem_partialsDeletes mirrored.owned).mp listed
    exact (mirrored.seqs_cleared (r := ⟨start, stop⟩)).mpr (exchanged_seqs.held _ member)
  partialsDeletesOnce := partialsDeletes_once mirrored.owned
  partialInserts := fun row listed old held same => by
    simp only [SeqRow.key, Prod.mk.injEq] at same
    obtain ⟨stored, stays⟩ := mem_deletePartials.mp held
    obtain ⟨united, given, incoming, _, _⟩ := (mem_partialInserts mirrored.owned).mp listed
    have inMemory := (mirrored.seqs_cleared (r := old.range)).mp ⟨old, stored, rfl⟩
    rw [same.1, same.2.1] at inMemory
    have kept : old.range ∉ (partialChanges (bookie.ensure row.siteId)
        (entriesOf entries row.siteId) row.dbVersion united).removeSeqs.ranges := by
      intro gone
      apply stays
      rw [SeqRow.tuple, same.1, same.2.1]
      exact (mem_partialsDeletes mirrored.owned).mpr ⟨united, given, gone⟩
    exact exchanged_seqs.start_ne incoming inMemory kept same.2.2
  partialInsertsOnce := partialInserts_once mirrored.owned

theorem computeAndApply_needed : (bv.computeAndApply processed).1.needed =
    (bv.computeAndApplyGaps (processedVersions processed)).1.needed := by
  simp only [computeAndApply, computeAndApplyPartials, insertPartials_needed, computeAndApplyClearPartials]

/-- The entries of a transaction name no inverted range; collecting one panics. -/
def Proper (entries : Map ActorId (List Processed)) : Prop :=
  ∀ actor, ∀ entry ∈ entriesOf entries actor, entry.1.start ≤ entry.1.stop

/-- One transaction: no statement reports anything, and the mirror holds again. -/
theorem Mirrored.step (mirrored : Mirrored bookie tables) (proper : Proper entries) :
    ∃ after, (paramsOf bookie entries).execute tables = (.ok after, []) ∧
      Mirrored (bookie.computeAndApplyAll entries).bookie after ∧ ∀ row, row ∈ after.seqs ↔
        (row ∈ tables.seqs ∧ row.version ∉ (paramsOf bookie entries).completeVersionDeletes ∧
          row.tuple ∉ (paramsOf bookie entries).partialsDeletes) ∨ row ∈ (paramsOf bookie entries).partialInserts := by
  obtain ⟨after, executed, gapRows, seqRows⟩ := execute_of_effective (mirrored.effective entries)
  refine ⟨after, executed, ⟨fun actor => ?_, fun actor => ?_, fun row => ?_, fun actor version r => ?_⟩, seqRows⟩
  · rw [ensure_computeAndApplyAll, computed, computeAndApply_actorId, mirrored.owned]
  · rw [ensure_computeAndApplyAll]
    exact settled_extend (mirrored.settled actor) (extends_entries (proper actor))
  · have settled := mirrored.settled row.actorId
    rw [gapRows, mirrored.gaps, mem_gapDeletes mirrored.owned, mem_gapInserts mirrored.owned,
      ensure_computeAndApplyAll, computed, computeAndApply_needed, (exchanged_needed settled).result]
  · have written : (∃ row ∈ after.seqs, row.tuple = (actor, version, r.start, r.stop)) ↔
        (r ∈ (seqsOf (cleared (bookie.ensure actor) (entriesOf entries actor)).partials[version]?).ranges ∧
          (actor, version, r.start, r.stop) ∉ (paramsOf bookie entries).partialsDeletes) ∨
        ∃ row ∈ (paramsOf bookie entries).partialInserts,
          row.tuple = (actor, version, r.start, r.stop) := by
      rw [← mirrored.seqs_cleared]
      simp only [seqRows, mem_deleteCompleteVersions]
      constructor
      · rintro ⟨row, ⟨held, stays, kept⟩ | inserted, same⟩
        · exact .inl ⟨⟨row, ⟨held, stays⟩, same⟩, same ▸ kept⟩
        · exact .inr ⟨row, inserted, same⟩
      · rintro (⟨⟨row, ⟨held, stays⟩, same⟩, kept⟩ | ⟨row, inserted, same⟩)
        · exact ⟨row, .inl ⟨held, stays, same ▸ kept⟩, same⟩
        · exact ⟨row, .inr inserted, same⟩
    rw [written, insertedTuples mirrored.owned, mem_partialsDeletes mirrored.owned, ensure_computeAndApplyAll, computed,
      partials_computeAndApply]
    cases given : (partialVersions (entriesOf entries actor))[version]? with
    | none => simp
    | some _ =>
      simp only [Option.some.injEq, exists_eq_left', seqsOf]
      exact (exchanged_seqs.result r).symm

/-- Memory, tables and the reports of branches marked unreachable. -/
structure Ledger where
  bookie : Bookie
  tables : BookieTables
  reports : List Unreachable

instance : EmptyCollection Ledger := ⟨⟨∅, ∅, []⟩⟩

/-- `compute_and_apply` for every actor, then `from_changes(..).execute`. -/
def Ledger.write (self : Ledger) (entries : Map ActorId (List Processed)) : Except SqliteError Ledger :=
  let applied := self.bookie.computeAndApplyAll entries
  match (BookieDbParams.fromChanges applied.allChanges).execute self.tables with
  | (.error e, _) => .error e
  | (.ok tables, reports) => .ok ⟨applied.bookie, tables, self.reports ++ reports⟩

def Ledger.writeAll (self : Ledger) (steps : List (Map ActorId (List Processed))) : Except SqliteError Ledger :=
  steps.foldlM write self

/-- A run of transactions keeps the mirror and reports nothing. -/
theorem writeAll_mirrored {self : Ledger} {steps : List (Map ActorId (List Processed))}
    (mirrored : Mirrored self.bookie self.tables) (proper : ∀ entries ∈ steps, Proper entries) :
    ∃ after, self.writeAll steps = .ok after ∧ Mirrored after.bookie after.tables ∧ after.reports = self.reports := by
  induction steps generalizing self with
  | nil => exact ⟨self, rfl, mirrored, rfl⟩
  | cons entries _ ih =>
    obtain ⟨tables, executed, next, _⟩ := mirrored.step (proper entries (by simp))
    have written : self.write entries = .ok ⟨(self.bookie.computeAndApplyAll entries).bookie, tables,
      self.reports⟩ := by
      rw [paramsOf] at executed
      simp only [Ledger.write, executed, append_nil]
    obtain ⟨after, run, holds, reports⟩ := @ih ⟨_, tables, self.reports⟩ next
      (fun entries member => proper entries (by simp [member]))
    refine ⟨after, ?_, holds, reports⟩
    rw [Ledger.writeAll, foldlM_cons, written]
    exact run

/-- **The database mirror.** After any run of transactions from empty tables the
gap rows are exactly the maximal ranges of each actor's needed versions and the
seq rows exactly the maximal ranges of each partial version; no statement has
failed or reported an unreachable branch, and whatever transaction comes next,
every tuple it deletes exists and every key it inserts is free at that point. -/
theorem tables_mirror_bookkeeping (steps : List (Map ActorId (List Processed)))
    (proper : ∀ entries ∈ steps, Proper entries) :
    ∃ after, (∅ : Ledger).writeAll steps = .ok after ∧ after.reports = [] ∧
      (∀ actor r, ⟨actor, r.start, r.stop⟩ ∈ after.tables.gaps ↔
        MaximalRange (· ∈ (after.bookie.ensure actor).needed) r) ∧ (∀ actor version r,
        (∃ lastSeq ts, ⟨actor, version, r.start, r.stop, lastSeq, ts⟩ ∈ after.tables.seqs) ↔
        ∃ held, (after.bookie.ensure actor).partials[version]? = some held ∧ MaximalRange (· ∈ held.seqs) r) ∧
      ∀ next, Effective (.fromChanges (after.bookie.computeAndApplyAll next).allChanges) after.tables := by
  obtain ⟨after, run, mirrored, reports⟩ := @writeAll_mirrored ∅ _ mirrored_empty proper
  refine ⟨after, run, reports, fun actor r => ?_, fun actor version r => ?_, fun next => mirrored.effective next⟩
  · rw [mirrored.gaps, mem_ranges_iff]
    rfl
  · have rows : (∃ lastSeq ts, ⟨actor, version, r.start, r.stop, lastSeq, ts⟩ ∈ after.tables.seqs) ↔
        ∃ row ∈ after.tables.seqs, row.tuple = (actor, version, r.start, r.stop) := by
      constructor
      · rintro ⟨lastSeq, ts, held⟩
        exact ⟨_, held, rfl⟩
      · rintro ⟨⟨_, db, s, e, lastSeq, ts⟩, held, same⟩
        obtain ⟨rfl, rfl, rfl, rfl⟩ := same
        exact ⟨lastSeq, ts, held⟩
    rw [rows, mirrored.seqs]
    cases (after.bookie.ensure actor).partials[version]? with
    | none => simp [seqsOf]
    | some held => simp only [seqsOf, mem_ranges_iff, Option.some.injEq, exists_eq_left']

/-- A first transaction leaves a gap and half a version, a second fills both. -/
theorem tables_mirror_two_transactions :
    let chunk : PartialVersion := ⟨.ofRanges [⟨0, 1⟩], 3, 9⟩
    let steps : List (Map ActorId (List Processed)) :=
      [(∅ : Map ActorId (List Processed)).insert 7 [(⟨2, 2⟩, some chunk), (⟨5, 6⟩, none)],
        (∅ : Map ActorId (List Processed)).insert 7 [(⟨1, 3⟩, none)]]
    (∀ entries ∈ steps, Proper entries) ∧ ∃ after, (∅ : Ledger).writeAll steps = .ok after ∧ after.reports = [] := by
  intro chunk steps
  have proper : ∀ entries ∈ steps, Proper entries := by
    simp only [steps, List.mem_cons, List.not_mem_nil, or_false, forall_eq_or_imp, forall_eq]
    constructor <;> intro actor entry <;>
      simp only [entriesOf, Std.ExtTreeMap.getElem?_insert, Std.LawfulEqOrd.compare_eq_iff_eq] <;>
      split <;> simp +contextual [or_imp]
  obtain ⟨after, run, silent, _⟩ := tables_mirror_bookkeeping steps proper
  exact ⟨proper, after, run, silent⟩

end Galvanize.BookieMirror
