import Galvanize.ParallelSync
import Galvanize.SyncNeedProofs
import Mathlib.Data.List.Pairwise

/-! What `parallel_sync` requests of whom. Nothing is requested twice, and what a
server is asked comes from its own needs as long as every frame can be encoded.
But what was marked as requested is not requested again, so all that is offered
arrives somewhere exactly when no write and no encoding fails. -/
namespace Galvanize.RequestDistribution
open SyncNeedProofs Requesting ChunkedCrsqlDbVersionIterator List Std.ExtTreeMap RangeInclusiveSet

/-! ### Chunks -/

section
variable {fuel : Nat} {iter : ChunkedCrsqlDbVersionIterator} {chunks : List CrsqlDbVersionRange} {x : Nat}

theorem collect_succ : iter.collect (fuel + 1) =
    if iter.current > iter.stop then some []
    else (collect fuel { iter with current := saturatingAdd iter.current iter.chunkSize }).map
      (⟨iter.current, min (saturatingAdd iter.current iter.chunkSize) iter.stop⟩ :: ·) := by
  rw [collect, ChunkedCrsqlDbVersionIterator.next]
  by_cases past : iter.current > iter.stop
  · rw [if_pos past, if_pos past]
  · rw [if_neg past, if_neg past]

/-- Saturation: a range that ends at the greatest number is never left. -/
theorem collect_endless (inside : iter.current ≤ iter.stop) (endless : u64Max ≤ iter.stop) :
    iter.collect fuel = none := by
  induction fuel generalizing iter with
  | zero => rfl
  | succ fuel ih =>
    rw [collect_succ, if_neg (by omega), Option.map_eq_none_iff]
    exact ih (le_trans (min_le_right _ _) endless) endless

theorem collect_ends (ends : iter.stop < u64Max) (step : 0 < iter.chunkSize)
    (enough : iter.stop + 1 - iter.current < fuel) : (iter.collect fuel).isSome := by
  induction fuel generalizing iter with
  | zero => omega
  | succ fuel ih =>
    rw [collect_succ]
    split
    · rfl
    · rename_i inside
      have advanced : iter.current < saturatingAdd iter.current iter.chunkSize := by
        simp only [saturatingAdd]
        omega
      rw [Option.isSome_map]
      exact ih ends step (by simp only; omega)

/-- The chunks cover the range and nothing else. -/
theorem collect_covers (is : iter.collect fuel = some chunks) :
    (∀ r ∈ chunks, r.start ≤ r.stop) ∧ ∀ x, Covers chunks x ↔ iter.current ≤ x ∧ x ≤ iter.stop := by
  induction fuel generalizing iter chunks with
  | zero => cases is
  | succ fuel ih =>
    have ends : iter.current ≤ iter.stop → iter.stop < u64Max := by
      intro inside
      by_contra endless
      rw [collect_endless inside (by omega)] at is
      cases is
    rw [collect_succ] at is
    split at is
    · cases is
      refine ⟨by simp, fun x => ?_⟩
      simp only [covers_nil, false_iff]
      omega
    · rename_i inside
      obtain ⟨_, isRest, rfl⟩ := Option.map_eq_some_iff.mp is
      obtain ⟨proper, covers⟩ := ih isRest
      have advanced : iter.current ≤ saturatingAdd iter.current iter.chunkSize := by
        simp only [saturatingAdd]
        omega
      refine ⟨forall_mem_cons.mpr ⟨by simp only; omega, proper⟩, fun x => ?_⟩
      rw [covers_cons, covers, RangeInclusive.mem_mk]
      dsimp only
      omega

/-- Ranges that follow one another without overlapping and make up the whole range. -/
def Splits (range : CrsqlDbVersionRange) (chunks : List CrsqlDbVersionRange) : Prop :=
  (∀ r ∈ chunks, r.start ≤ r.stop) ∧ chunks.Pairwise (fun a b => a.stop < b.start) ∧ ∀ x, Covers chunks x ↔ x ∈ range

/-- A chunk that is not the last ends where the next one starts, so only a range of one
chunk is split as it should be. -/
theorem chunked_iter_splits_iff (range : CrsqlDbVersionRange) (chunkSize : Nat) (ordered : range.start ≤ range.stop) :
    (∃ fuel chunks, (chunkedIter range chunkSize).collect fuel = some chunks ∧ Splits range chunks) ↔
      range.stop < u64Max ∧ range.stop < range.start + chunkSize := by
  have inside : ¬ range.start > range.stop := Nat.not_lt.mpr ordered
  constructor
  · rintro ⟨fuel, chunks, collected, -, apart, -⟩
    have ends : range.stop < u64Max := by
      by_contra endless
      rw [collect_endless ordered (Nat.le_of_not_lt endless)] at collected
      cases collected
    refine ⟨ends, ?_⟩
    by_contra long
    cases fuel with
    | zero => cases collected
    | succ fuel =>
      rw [collect_succ, if_neg (by exact inside)] at collected
      obtain ⟨_, isRest, rfl⟩ := Option.map_eq_some_iff.mp collected
      -- the last version of the first chunk is in one of the others
      have step : saturatingAdd range.start chunkSize = range.start + chunkSize := by
        unfold saturatingAdd
        omega
      obtain ⟨r, listed, held⟩ := ((collect_covers isRest).2 (range.start + chunkSize)).mpr
        ⟨Nat.le_of_eq step, Nat.le_of_not_lt long⟩
      have before := (pairwise_cons.mp apart).1 r listed
      have begins := held.1
      dsimp only [chunkedIter] at before
      omega
  · rintro ⟨ends, _⟩
    have past : saturatingAdd range.start chunkSize > range.stop := by
      unfold saturatingAdd
      omega
    refine ⟨2, [range], ?_, ?_, pairwise_singleton _ _, fun x => ?_⟩
    · rw [collect_succ, if_neg (by exact inside), collect_succ, if_pos (by exact past), Option.map_some]
      exact congrArg (fun stop => some [RangeInclusive.mk range.start stop]) (min_eq_right (Nat.le_of_lt past))
    · simpa using ordered
    · simp [Covers]

theorem chunked_iter_splits_one_chunk : ∃ fuel chunks, (chunkedIter ⟨1, 10⟩ 10).collect fuel = some chunks ∧
    Splits ⟨1, 10⟩ chunks :=
  (chunked_iter_splits_iff ⟨1, 10⟩ 10 (by decide)).mpr (by decide)

/-- Version 6 is in two of the chunks. -/
theorem chunks_share_boundary : (chunkedIter ⟨1, 10⟩ 5).collect 3 = some [⟨1, 6⟩, ⟨6, 10⟩] := rfl

end

/-! ### What is asked for -/

/-- A version that is asked for whole, or one seq of a version. -/
inductive Wanted where
  | version (actor : ActorId) (version : Nat)
  | seq (actor : ActorId) (version seq : Nat)

/-- The need of this actor's versions asks for it. -/
def Names (actor : ActorId) : SyncNeedV1 → Wanted → Prop
  | .full versions, .version owner version => owner = actor ∧ version ∈ versions
  | .partialVersion own seqs, .seq owner version seq => owner = actor ∧ version = own ∧ ∃ r ∈ seqs, seq ∈ r
  | _, _ => False

def Queued (needs : List (ActorId × SyncNeedV1)) (x : Wanted) : Prop := ∃ entry ∈ needs, Names entry.1 entry.2 x

def Requests (frames : List RequestFrame) (x : Wanted) : Prop :=
  ∃ frame ∈ frames, ∃ need ∈ frame.2, Names frame.1 need x

/-- It is in the sets of what has been requested. -/
def Marked (state : Requesting) : Wanted → Prop
  | .version actor version => version ∈ state.requestedFull actor
  | .seq actor version seq => seq ∈ state.requestedSeqs actor version

@[simp] theorem requests_nil : ¬ Requests [] x := by simp [Requests]

@[simp] theorem requests_append : Requests (a ++ b) x ↔ Requests a x ∨ Requests b x := by
  simp [Requests, or_and_right, exists_or]

variable {env : RequestEnv} {state after : Requesting} {actor : ActorId} {need : SyncNeedV1} {x : Wanted}

/-- A need as it is computed: its ranges have members. -/
def Upright (need : SyncNeedV1) : Prop := need.validate = .ok () ∧ ∀ ts, need ≠ .empty ts

theorem mem_removeAll_overlapping {requested : RangeInclusiveSet} {ranges : List RangeInclusive} {y : Nat} :
    y ∈ (RangeInclusiveSet.ofRanges ranges).removeAll (ranges.flatMap requested.overlapping) ↔
      (∃ r ∈ ranges, y ∈ r) ∧ y ∉ requested := by
  simp only [mem_removeAll, mem_ofRanges, mem_flatMap, mem_overlapping]
  constructor
  · rintro ⟨⟨r, listed, inside⟩, apart⟩
    refine ⟨⟨r, listed, inside⟩, ?_⟩
    rintro ⟨old, held, within⟩
    exact apart old ⟨r, listed, held, RangeInclusive.overlaps_of_mem within inside⟩ within
  · rintro ⟨listed, fresh⟩
    exact ⟨listed, fun old found within => by
      obtain ⟨_, _, held, _⟩ := found
      exact fresh ⟨old, held, within⟩⟩

theorem mem_newVersions {requested : RangeInclusiveSet} {range : RangeInclusive} {y : Nat} :
    y ∈ (RangeInclusiveSet.ofRanges [range]).removeAll (requested.overlapping range) ↔ y ∈ range ∧ y ∉ requested := by
  have general := @mem_removeAll_overlapping requested [range] y
  simpa using general

/-- What is left of a need is what has not been requested. -/
theorem names_actualNeeds :
    (∃ actual ∈ (state.actualNeeds actor need).1, Names actor actual x) ↔ Names actor need x ∧ ¬ Marked state x := by
  cases need with
  | full versions =>
    simp only [actualNeeds, mem_map]
    cases x with
    | version owner version =>
      have members := @mem_newVersions (state.requestedFull actor) versions version
      constructor
      · rintro ⟨_, ⟨r, stored, rfl⟩, rfl, inside⟩
        obtain ⟨asked, fresh⟩ := members.mp ⟨r, stored, inside⟩
        exact ⟨⟨rfl, asked⟩, fresh⟩
      · rintro ⟨⟨rfl, asked⟩, fresh⟩
        obtain ⟨r, stored, inside⟩ := members.mpr ⟨asked, fresh⟩
        exact ⟨_, ⟨r, stored, rfl⟩, rfl, inside⟩
    | seq owner version seq => simp [Names]
  | partialVersion own seqs =>
    simp only [actualNeeds]
    cases x with
    | version owner version => split <;> simp [Names]
    | seq owner version seq =>
      have members := @mem_removeAll_overlapping (state.requestedSeqs actor own) seqs seq
      split
      · rename_i nothing
        simp only [not_mem_nil, false_and, exists_false, false_iff]
        rintro ⟨⟨rfl, rfl, asked⟩, fresh⟩
        obtain ⟨r, stored, _⟩ := members.mpr ⟨asked, fresh⟩
        rw [isEmpty_iff.mp nothing] at stored
        cases stored
      · simp only [mem_singleton, exists_eq_left]
        constructor
        · rintro ⟨rfl, rfl, asked⟩
          obtain ⟨listed, fresh⟩ := members.mp asked
          exact ⟨⟨rfl, rfl, listed⟩, fresh⟩
        · rintro ⟨⟨rfl, rfl, asked⟩, fresh⟩
          exact ⟨rfl, rfl, members.mpr ⟨asked, fresh⟩⟩
  | empty ts => simp [actualNeeds, Names]

theorem requestedSeqs_insert {own version : Nat} {set : RangeInclusiveSet} : requestedSeqs
        { state with reqPartials := state.reqPartials.insert actor ((state.reqPartials[actor]?.getD ∅).insert own set) }
        owner version =
      if owner = actor ∧ version = own then set else state.requestedSeqs owner version := by
  simp only [requestedSeqs, Std.ExtTreeMap.getElem?_insert, Std.LawfulEqCmp.compare_eq_iff_eq]
  by_cases sameActor : actor = owner
  · subst sameActor
    by_cases sameVersion : own = version
    · simp [sameVersion]
    · have other : ¬ version = own := fun same => sameVersion same.symm
      simp [Std.ExtTreeMap.getElem?_insert, sameVersion, other]
  · have other : ¬ owner = actor := fun same => sameActor same.symm
    simp [sameActor, other]

/-- Afterwards all of the need counts as requested. -/
theorem marked_actualNeeds : Marked (state.actualNeeds actor need).2 x ↔ Marked state x ∨ Names actor need x := by
  cases need with
  | full versions =>
    cases x with
    | version owner version =>
      have members := @mem_newVersions (state.requestedFull actor) versions version
      simp only [actualNeeds, Marked, Names]
      by_cases own : owner = actor
      · subst own
        simp only [requestedFull, Std.ExtTreeMap.getElem?_insert_self, Option.getD_some, true_and]
        rw [mem_extend_set]
        tauto
      · have other : ¬ actor = owner := fun same => own same.symm
        simp [requestedFull, Std.ExtTreeMap.getElem?_insert, own, other]
    | seq owner version seq => simp [actualNeeds, Marked, Names, requestedSeqs]
  | partialVersion own seqs =>
    simp only [actualNeeds]
    cases x with
    | version owner version => split <;> simp [Marked, Names, requestedFull]
    | seq owner version seq =>
      have members := @mem_removeAll_overlapping (state.requestedSeqs actor own) seqs seq
      simp only [Marked, Names]
      split
      · rename_i nothing
        constructor
        · exact .inl
        · rintro (marked | ⟨rfl, rfl, asked⟩)
          · exact marked
          · by_contra fresh
            obtain ⟨r, stored, _⟩ := members.mpr ⟨asked, fresh⟩
            rw [isEmpty_iff.mp nothing] at stored
            cases stored
      · rw [requestedSeqs_insert]
        split
        · rename_i same
          obtain ⟨rfl, rfl⟩ := same
          rw [mem_extend_set, members]
          tauto
        · rename_i different
          tauto
  | empty ts => cases x <;> simp [actualNeeds, Names]

theorem actualNeeds_log : (state.actualNeeds actor need).2.sendBuf = state.sendBuf ∧
    (state.actualNeeds actor need).2.written = state.written ∧
    (state.actualNeeds actor need).2.unencoded = state.unencoded := by
  cases need with
  | full _ => exact ⟨rfl, rfl, rfl⟩
  | partialVersion _ _ =>
    simp only [actualNeeds]
    split <;> exact ⟨rfl, rfl, rfl⟩
  | empty ts => exact ⟨rfl, rfl, rfl⟩

theorem requests_actualNeeds :
    Requests [(actor, (state.actualNeeds actor need).1)] x ↔ Names actor need x ∧ ¬ Marked state x := by
  rw [← names_actualNeeds]
  simp [Requests]

/-- A frame that is made asks for something. -/
theorem actualNeeds_asks (upright : Upright need) (some_ : (state.actualNeeds actor need).1 ≠ []) :
    ∃ x, Requests [(actor, (state.actualNeeds actor need).1)] x := by
  have member : ∀ (set : RangeInclusiveSet), set.ranges ≠ [] → ∃ r ∈ set.ranges, r.start ∈ r := by
    intro set nonempty
    obtain ⟨r, stored⟩ := exists_mem_of_ne_nil _ nonempty
    exact ⟨r, stored, le_rfl, set.canonical.1 r stored⟩
  cases need with
  | full _ =>
    simp only [actualNeeds, ne_eq, map_eq_nil_iff] at some_ ⊢
    obtain ⟨r, stored, inside⟩ := member _ some_
    exact ⟨.version actor r.start, _, mem_singleton_self _, _, mem_map_of_mem stored, rfl, inside⟩
  | partialVersion own _ =>
    simp only [actualNeeds] at some_ ⊢
    split at some_
    · exact absurd rfl some_
    · rename_i filled
      rw [if_neg filled]
      obtain ⟨r, stored, inside⟩ := member _ fun none_ => filled (isEmpty_iff.mpr none_)
      exact ⟨.seq actor own r.start, _, mem_singleton_self _, _, mem_singleton_self _, rfl, rfl, r, stored, inside⟩
  | empty ts => exact absurd rfl (upright.2 ts)

/-! ### Nothing is requested twice -/

/-- Every place a frame can be in: it could not be encoded, it was written, or it is in the buffer. -/
def places (state : Requesting) : List (List RequestFrame) :=
  state.unencoded :: (state.written.map WriteRecord.frames ++ [state.sendBuf])

def Disjoint (a b : List RequestFrame) : Prop := ∀ x, Requests a x → ¬ Requests b x

/-- The sets know exactly what was put into a frame, and nothing is in two places. -/
structure Tracked (state : Requesting) : Prop where
  marked : ∀ x, Marked state x ↔ ∃ place ∈ places state, Requests place x
  once : (places state).Pairwise Disjoint
  asks : ∀ place ∈ places state, ∀ frame ∈ place, ∃ x, Requests [frame] x
  filled : ∀ record ∈ state.written, record.frames ≠ []

theorem tracked_start : Tracked .start where
  marked := by
    intro x
    cases x <;> simp [Marked, places, start, requestedFull, requestedSeqs]
  once := by simp [places, start, Disjoint]
  asks := by simp [places, start]
  filled := by simp [start]

/-- A need of which nothing is left. -/
theorem tracked_skip (tracked : Tracked state) (nothing : (state.actualNeeds actor need).1 = []) :
    Tracked (state.actualNeeds actor need).2 := by
  obtain ⟨sameBuf, sameWritten, sameUnencoded⟩ := @actualNeeds_log state actor need
  have samePlaces : places (state.actualNeeds actor need).2 = places state := by
    rw [places, sameBuf, sameWritten, sameUnencoded, places]
  refine ⟨fun x => ?_, samePlaces ▸ tracked.once, samePlaces ▸ tracked.asks, sameWritten ▸ tracked.filled⟩
  rw [marked_actualNeeds, samePlaces, ← tracked.marked]
  constructor
  · rintro (marked | named)
    · exact marked
    · by_contra fresh
      obtain ⟨_, listed, _⟩ := names_actualNeeds.mpr ⟨named, fresh⟩
      rw [nothing] at listed
      cases listed
  · exact .inl

/-- The frame of what is left of a need joins one of the places. -/
theorem tracked_frame (tracked : Tracked state) (upright : Upright need)
    (some_ : (state.actualNeeds actor need).1 ≠ []) (before after_ : List (List RequestFrame))
    {place : List RequestFrame}
    (isPlaces : places state = before ++ place :: after_)
    (nextPlaces : places after = before ++ (place ++ [(actor, (state.actualNeeds actor need).1)]) :: after_)
    (marks : ∀ x, Marked after x ↔ Marked (state.actualNeeds actor need).2 x)
    (sameWritten : after.written = state.written) : Tracked after := by
  have fresh : ∀ x, Requests [(actor, (state.actualNeeds actor need).1)] x →
      ∀ other ∈ places state, ¬ Requests other x := fun x asked other listed held =>
    (requests_actualNeeds.mp asked).2 ((tracked.marked x).mpr ⟨other, listed, held⟩)
  have once := tracked.once
  have asks := tracked.asks
  rw [isPlaces] at once asks fresh
  refine ⟨fun x => ?_, ?_, ?_, sameWritten ▸ tracked.filled⟩
  · rw [marks, marked_actualNeeds, nextPlaces, tracked.marked, isPlaces]
    have left := @requests_actualNeeds state actor need x
    rw [tracked.marked, isPlaces] at left
    simp only [mem_append, mem_cons, or_and_right, exists_or, exists_eq_left, requests_append] at left ⊢
    grind
  · rw [nextPlaces]
    simp only [pairwise_append, pairwise_cons, mem_cons, forall_eq_or_imp] at once ⊢
    obtain ⟨early, ⟨later, rest⟩, cross⟩ := once
    refine ⟨early, ⟨fun other listed x asked held => ?_, rest⟩, fun a listed => ⟨fun x held asked => ?_,
      (cross a listed).2⟩⟩
    · rcases requests_append.mp asked with old | new
      · exact later other listed x old held
      · exact fresh x new other (by simp [listed]) held
    · rcases requests_append.mp asked with old | new
      · exact (cross a listed).1 x held old
      · exact fresh x new a (by simp [listed]) held
  · rw [nextPlaces]
    intro other listed frame inside
    simp only [mem_append, mem_cons] at listed
    rcases listed with early | rfl | later
    · exact asks other (by simp [early]) frame inside
    · rcases mem_append.mp inside with old | new
      · exact asks place (by simp) frame old
      · rw [mem_singleton.mp new]
        exact actualNeeds_asks upright some_
    · exact asks other (by simp [later]) frame inside

variable {needs : List (ActorId × SyncNeedV1)}

theorem queued_concat {entry : ActorId × SyncNeedV1} :
    Queued (needs ++ [entry]) x ↔ Queued needs x ∨ Names entry.1 entry.2 x := by
  simp [Queued]

/-- What taking needs from a queue does, whether it is stopped by a frame that cannot be
encoded or not. -/
structure Drains (state : Requesting) (needs : List (ActorId × SyncNeedV1))
    (result : Requesting × Option (List (ActorId × SyncNeedV1))) : Prop where
  tracked : Tracked result.1
  written : result.1.written = state.written
  buffered : ∀ x, Requests result.1.sendBuf x → Requests state.sendBuf x ∨ Queued needs x
  marked : ∀ x, Marked result.1 x → Marked state x ∨ Queued needs x
  kept : ∀ x, Marked state x → Marked result.1 x
  stopped : result.2 = none → result.1.unencoded ≠ []
  left : ∀ rest, result.2 = some rest → result.1.unencoded = state.unencoded ∧ rest ⊆ needs ∧
    ∀ x, Queued needs x → Marked result.1 x ∨ Queued rest x

/-- One turn, then the others. -/
theorem Drains.cons {entry : ActorId × SyncNeedV1} {middle : Requesting}
    {result : Requesting × Option (List (ActorId × SyncNeedV1))} (later : Drains middle needs result)
    (written : middle.written = state.written) (unencoded : middle.unencoded = state.unencoded)
    (buffered : ∀ x, Requests middle.sendBuf x → Requests state.sendBuf x ∨ Names entry.1 entry.2 x)
    (marks : ∀ x, Marked middle x ↔ Marked state x ∨ Names entry.1 entry.2 x) :
    Drains state (needs ++ [entry]) result where
  tracked := later.tracked
  written := later.written.trans written
  buffered := by
    intro x held
    rw [queued_concat]
    rcases later.buffered x held with early | queued
    · exact (buffered x early).imp id .inr
    · exact .inr (.inl queued)
  marked := by
    intro x held
    rw [queued_concat]
    rcases later.marked x held with early | queued
    · exact ((marks x).mp early).imp id .inr
    · exact .inr (.inl queued)
  kept := fun x held => later.kept x ((marks x).mpr (.inl held))
  stopped := later.stopped
  left := by
    intro rest isRest
    obtain ⟨same, part, covered⟩ := later.left rest isRest
    refine ⟨same.trans unencoded, fun entry listed => List.mem_append_left _ (part listed), fun x queued => ?_⟩
    rcases queued_concat.mp queued with early | named
    · exact covered x early
    · exact .inl (later.kept x ((marks x).mpr (.inr named)))

theorem drains_idle (tracked : Tracked state) : Drains state needs (state, some needs) where
  tracked := tracked
  written := rfl
  buffered := fun _ => .inl
  marked := fun _ => .inl
  kept := fun _ => id
  stopped := fun no => by cases no
  left := fun rest is => by
    cases is
    exact ⟨rfl, List.Subset.refl _, fun _ => .inr⟩

theorem drains_drainNeeds {turns : Nat} (tracked : Tracked state) (upright : ∀ entry ∈ needs, Upright entry.2) :
    Drains state needs (drainNeeds env turns state needs) := by
  induction turns generalizing state needs with
  | zero => exact drains_idle tracked
  | succ turns ih =>
    rw [drainNeeds]
    split
    · exact drains_idle tracked
    rename_i actorId need isLast
    obtain ⟨earlier, rfl⟩ := getLast?_eq_some_iff.mp isLast
    have uprightLast : Upright need := upright (actorId, need) (by simp)
    have uprightRest : ∀ entry ∈ earlier, Upright entry.2 := fun entry listed => upright entry (by simp [listed])
    obtain ⟨sameBuf, sameWritten, sameUnencoded⟩ := @actualNeeds_log state actorId need
    rw [dropLast_concat]
    dsimp only
    split
    · rename_i nothing
      have next := tracked_skip tracked (isEmpty_iff.mp nothing)
      exact (ih next uprightRest).cons sameWritten sameUnencoded (fun x => by rw [sameBuf]; exact .inl)
        fun x => marked_actualNeeds
    rename_i some_
    have filled : (state.actualNeeds actorId need).1 ≠ [] := fun none_ => some_ (isEmpty_iff.mpr none_)
    split
    · have next : Tracked { (state.actualNeeds actorId need).2 with
          sendBuf := (state.actualNeeds actorId need).2.sendBuf ++ [(actorId, (state.actualNeeds actorId need).1)] } :=
        tracked_frame tracked uprightLast filled (state.unencoded :: state.written.map WriteRecord.frames)
          [] rfl (by simp [places, sameBuf, sameWritten, sameUnencoded]) (fun x => by cases x <;> rfl)
          sameWritten
      refine (ih next uprightRest).cons sameWritten sameUnencoded (fun x held => ?_) fun x => ?_
      · rw [requests_append, sameBuf] at held
        exact held.imp id fun asked => (requests_actualNeeds.mp asked).1
      · rw [← marked_actualNeeds]
        cases x <;> rfl
    · have next : Tracked { (state.actualNeeds actorId need).2 with
          unencoded :=
            (state.actualNeeds actorId need).2.unencoded ++ [(actorId, (state.actualNeeds actorId need).1)] } :=
        tracked_frame tracked uprightLast filled [] (state.written.map WriteRecord.frames ++ [state.sendBuf]) rfl
          (by simp [places, sameBuf, sameWritten, sameUnencoded]) (fun x => by cases x <;> rfl) sameWritten
      have marks : ∀ x, Marked { (state.actualNeeds actorId need).2 with
          unencoded :=
            (state.actualNeeds actorId need).2.unencoded ++ [(actorId, (state.actualNeeds actorId need).1)] } x ↔
          Marked state x ∨ Names actorId need x := fun x => by
        rw [← marked_actualNeeds]
        cases x <;> rfl
      refine ⟨next, sameWritten, fun x held => .inl (sameBuf ▸ held), fun x held => ?_,
        fun x held => ?_, by simp, by simp⟩
      · exact ((marks x).mp held).imp id fun named => queued_concat.mpr (.inr named)
      · exact (marks x).mpr (.inl held)

variable {rest : List (ActorId × SyncNeedV1)}

theorem drainNeeds_shorter {turns : Nat} (is : (drainNeeds env turns state needs).2 = some rest) :
    rest.length ≤ needs.length ∧ (turns ≠ 0 → needs ≠ [] → rest.length < needs.length) := by
  induction turns generalizing state needs with
  | zero =>
    cases is
    exact ⟨le_rfl, fun no => absurd rfl no⟩
  | succ turns ih =>
    rw [drainNeeds] at is
    split at is
    · rename_i isLast
      cases is
      exact ⟨le_rfl, fun _ some_ => absurd (getLast?_eq_none_iff.mp isLast) some_⟩
    rename_i actorId need isLast
    obtain ⟨earlier, rfl⟩ := getLast?_eq_some_iff.mp isLast
    rw [dropLast_concat] at is
    dsimp only at is
    have taken : ∀ {middle : Requesting}, (drainNeeds env turns middle earlier).2 = some rest →
        rest.length < (earlier ++ [(actorId, need)]).length := by
      intro middle later
      have shorter := (ih later).1
      simp only [length_append, length_singleton]
      omega
    split at is
    · exact ⟨(taken is).le, fun _ _ => taken is⟩
    split at is
    · exact ⟨(taken is).le, fun _ _ => taken is⟩
    · cases is

/-- Writing the buffer moves what is in it, and changes nothing else. -/
structure Flushes (tx : Nat) (state after : Requesting) (ok : Bool) : Prop where
  tracked : Tracked after
  marks : ∀ x, Marked after x ↔ Marked state x
  unencoded : after.unencoded = state.unencoded
  sendBuf : after.sendBuf = []
  written : after.written = state.written ∧ ok = true ∨
    after.written = state.written ++ [⟨tx, state.sendBuf, ok⟩]

theorem flushes_flush {tx : Nat} (tracked : Tracked state) :
    Flushes tx state (state.flush env tx).1 (state.flush env tx).2 := by
  unfold flush
  split
  · rename_i nothing
    exact ⟨tracked, fun _ => Iff.rfl, rfl, isEmpty_iff.mp nothing, .inl ⟨rfl, rfl⟩⟩
  · rename_i some_
    have next : places (state.writeBuf env tx).1 = places state ++ [[]] := by simp [places, writeBuf]
    refine ⟨⟨fun x => ?_, ?_, ?_, ?_⟩, fun x => by cases x <;> rfl, rfl, rfl, .inr rfl⟩
    · rw [next]
      have same : Marked (state.writeBuf env tx).1 x ↔ Marked state x := by cases x <;> rfl
      rw [same, tracked.marked]
      simp
    · rw [next]
      refine pairwise_append.mpr ⟨tracked.once, pairwise_singleton _ _, fun a _ b isNil x _ held => ?_⟩
      rw [mem_singleton.mp isNil] at held
      exact requests_nil held
    · rw [next]
      intro place listed frame inside
      rcases mem_append.mp listed with old | new
      · exact tracked.asks place old frame inside
      · rw [mem_singleton.mp new] at inside
        cases inside
    · intro record listed
      rcases mem_append.mp listed with old | new
      · exact tracked.filled record old
      · rw [mem_singleton.mp new]
        exact fun none_ => some_ (isEmpty_iff.mpr none_)

/-! ### The rounds -/

/-- What holds whenever a server has had its turn; `pending` are the servers that are left. -/
structure Invariant (offers : Nat → Wanted → Prop) (state : Requesting) (pending : List Server) : Prop where
  tracked : Tracked state
  offered : ∀ x, Marked state x → ∃ tx, offers tx x
  queued : ∀ server ∈ pending, ∀ x, Queued server.needs x → offers server.tx x
  upright : ∀ server ∈ pending, ∀ entry ∈ server.needs, Upright entry.2
  /-- while no encoding has failed, the buffer is empty and servers are asked what they offer -/
  own : state.unencoded = [] → state.sendBuf = [] ∧
    ∀ record ∈ state.written, ∀ x, Requests record.frames x → offers record.tx x
  /-- while nothing has failed, what has not been requested is still queued -/
  covered : state.unencoded = [] → (∀ record ∈ state.written, record.ok = true) →
    ∀ tx x, offers tx x → Marked state x ∨ ∃ server ∈ pending, Queued server.needs x

variable {offers : Nat → Wanted → Prop} {server : Server} {pending : List Server}

theorem queued_subset (part : rest ⊆ needs) (queued : Queued rest x) : Queued needs x := by
  obtain ⟨entry, listed, named⟩ := queued
  exact ⟨entry, part listed, named⟩

/-- A server with nothing queued is left out. -/
theorem Invariant.idle (holds : Invariant offers state (server :: pending)) (nothing : server.needs = []) :
    Invariant offers state pending where
  tracked := holds.tracked
  offered := holds.offered
  queued := fun other listed => holds.queued other (List.mem_cons_of_mem _ listed)
  upright := fun other listed => holds.upright other (List.mem_cons_of_mem _ listed)
  own := holds.own
  covered := by
    intro encoded ok tx x offered
    rcases holds.covered encoded ok tx x offered with marked | ⟨other, listed, queued⟩
    · exact .inl marked
    · rcases List.mem_cons.mp listed with rfl | later
      · rw [nothing] at queued
        simp [Queued] at queued
      · exact .inr ⟨other, later, queued⟩

/-- A server whose frame could not be encoded is left out. -/
theorem Invariant.stopped (holds : Invariant offers state (server :: pending))
    (drains : Drains state server.needs (after, none)) : Invariant offers after pending where
  tracked := drains.tracked
  offered := by
    intro x marked
    rcases drains.marked x marked with old | queued
    · exact holds.offered x old
    · exact ⟨server.tx, holds.queued server List.mem_cons_self x queued⟩
  queued := fun other listed => holds.queued other (List.mem_cons_of_mem _ listed)
  upright := fun other listed => holds.upright other (List.mem_cons_of_mem _ listed)
  own := fun encoded => absurd encoded (drains.stopped rfl)
  covered := fun encoded => absurd encoded (drains.stopped rfl)

variable {next : List Server}

/-- A server that was written to stays, with the rest of its queue, unless the write failed or
nothing is left. -/
theorem Invariant.flushed {drained : Requesting} {ok : Bool} (holds : Invariant offers state (server :: pending))
    (drains : Drains state server.needs (drained, some rest)) (flushes : Flushes server.tx drained after ok)
    (isNext : next = (if !ok || rest.isEmpty then pending else pending ++ [{ server with needs := rest }])) :
    Invariant offers after next := by
  obtain ⟨sameUnencoded, part, covered⟩ := drains.left rest rfl
  have mem_next : ∀ other ∈ next, other ∈ pending ∨ other = { server with needs := rest } := by
    intro other listed
    rw [isNext] at listed
    split at listed
    · exact .inl listed
    · simpa using listed
  refine ⟨flushes.tracked, fun x marked => ?_, fun other listed x queued => ?_, fun other listed entry isEntry => ?_,
    fun encoded => ⟨flushes.sendBuf, fun record listed x asked => ?_⟩, fun encoded allOk tx x offered => ?_⟩
  · rcases drains.marked x ((flushes.marks x).mp marked) with old | queued
    · exact holds.offered x old
    · exact ⟨server.tx, holds.queued server List.mem_cons_self x queued⟩
  · rcases mem_next other listed with old | rfl
    · exact holds.queued other (List.mem_cons_of_mem _ old) x queued
    · exact holds.queued server List.mem_cons_self x (queued_subset part queued)
  · rcases mem_next other listed with old | rfl
    · exact holds.upright other (List.mem_cons_of_mem _ old) entry isEntry
    · exact holds.upright server List.mem_cons_self entry (part isEntry)
  · rw [flushes.unencoded, sameUnencoded] at encoded
    obtain ⟨emptyBuf, own⟩ := holds.own encoded
    have old : record ∈ state.written → offers record.tx x := fun isOld => own record isOld x asked
    rcases flushes.written with ⟨same, _⟩ | grown
    · exact old (by rw [same, drains.written] at listed; exact listed)
    · rw [grown, drains.written] at listed
      rcases List.mem_append.mp listed with earlier | new
      · exact old earlier
      · obtain rfl := List.mem_singleton.mp new
        rcases drains.buffered x asked with inBuf | queued
        · rw [emptyBuf] at inBuf
          exact absurd inBuf requests_nil
        · exact holds.queued server List.mem_cons_self x queued
  · have wasEncoded : state.unencoded = [] := by rw [← sameUnencoded, ← flushes.unencoded, encoded]
    obtain ⟨wasOk, isOk⟩ : (∀ record ∈ state.written, record.ok = true) ∧ ok = true := by
      rcases flushes.written with ⟨same, isOk⟩ | grown
      · rw [same, drains.written] at allOk
        exact ⟨allOk, isOk⟩
      · rw [grown, drains.written] at allOk
        exact ⟨fun record listed => allOk record (List.mem_append_left _ listed),
          allOk ⟨server.tx, drained.sendBuf, ok⟩ (by simp)⟩
    rcases holds.covered wasEncoded wasOk tx x offered with marked | ⟨other, listed, queued⟩
    · exact .inl ((flushes.marks x).mpr (drains.kept x marked))
    rcases List.mem_cons.mp listed with rfl | later
    · rcases covered x queued with marked | left
      · exact .inl ((flushes.marks x).mpr marked)
      · refine .inr ⟨{ other with needs := rest }, ?_, left⟩
        have some_ : rest.isEmpty = false := by
          obtain ⟨entry, isEntry, _⟩ := left
          exact List.isEmpty_eq_false_iff.mpr (List.ne_nil_of_mem isEntry)
        rw [isNext, isOk, some_]
        simp
    · refine .inr ⟨other, ?_, queued⟩
      rw [isNext]
      split
      · exact later
      · exact List.mem_append_left _ later

theorem invariant_visit (holds : Invariant offers state (server :: (later ++ next))) :
    Invariant offers (visitServer env (state, next) server).1 (later ++ (visitServer env (state, next) server).2) := by
  have drains := @drains_drainNeeds env state server.needs 10 holds.tracked (holds.upright server mem_cons_self)
  rw [visitServer]
  split
  · rename_i nothing
    exact holds.idle (isEmpty_iff.mp nothing)
  generalize drainNeeds env 10 state server.needs = result at drains
  obtain ⟨drained, left⟩ := result
  cases left with
  | none => exact holds.stopped drains
  | some _ =>
    have flushed := @Invariant.flushed _ _ _ _ _ _ _ _ _ holds drains
      (@flushes_flush env drained server.tx drains.tracked) rfl
    dsimp only
    split
    · rename_i dropped
      rw [if_pos dropped] at flushed
      exact flushed
    · rename_i stays
      rw [if_neg stays, append_assoc] at flushed
      exact flushed

variable {servers : List Server}

/-- A round visits every server once. -/
theorem invariant_round (holds : Invariant offers state (servers ++ next)) :
    Invariant offers (servers.foldl (visitServer env) (state, next)).1 (servers.foldl (visitServer env) (state,
      next)).2 := by
  induction servers generalizing state next with
  | nil => exact holds
  | cons _ _ ih =>
    exact ih (invariant_visit holds)

def weight (servers : List Server) : Nat := (servers.flatMap Server.needs).length

/-- A server that stays has lost at least one need. -/
theorem weight_visit {requesting : Requesting × List Server} :
    weight (visitServer env requesting server).2 + (visitServer env requesting server).2.length ≤
      weight requesting.2 + requesting.2.length + server.needs.length := by
  obtain ⟨state, _⟩ := requesting
  have shorter := fun rest => @drainNeeds_shorter env state server.needs rest 10
  rw [visitServer]
  split
  · simp
  rename_i some_
  generalize drainNeeds env 10 state server.needs = result at shorter
  obtain ⟨_, left⟩ := result
  cases left with
  | none => simp
  | some rest =>
    have less := (shorter rest rfl).2 (by decide) fun none_ => some_ (isEmpty_iff.mpr none_)
    dsimp only
    split
    · simp
    · simp only [weight, flatMap_append, flatMap_cons, flatMap_nil, append_nil,
        length_append, length_singleton]
      omega

theorem weight_round {requesting : Requesting × List Server} :
    weight (servers.foldl (visitServer env) requesting).2 + (servers.foldl (visitServer env) requesting).2.length ≤
      weight requesting.2 + requesting.2.length + weight servers := by
  induction servers generalizing requesting with
  | nil => simp [weight]
  | cons first _ ih =>
    have one := @weight_visit env first requesting
    have others := @ih (visitServer env requesting first)
    simp only [foldl_cons, weight, flatMap_cons, length_append] at one others ⊢
    omega

/-- With a round for each need, the rounds end with no server left. -/
theorem invariant_sendRequests {rounds : Nat} (enough : weight servers < rounds)
    (holds : Invariant offers state servers) : Invariant offers (sendRequests env rounds state servers) [] := by
  induction rounds generalizing state servers with
  | zero => omega
  | succ rounds ih =>
    cases servers with
    | nil => exact holds
    | cons first rest =>
      rw [sendRequests]
      · have round : Invariant offers ((first :: rest).foldl (visitServer env) (state, [])).1
            ((first :: rest).foldl (visitServer env) (state, [])).2 := invariant_round (by simpa using holds)
        have lighter := @weight_round env (first :: rest) (state, [])
        generalize (first :: rest).foldl (visitServer env) (state, []) = result at round lighter
        obtain ⟨_, next⟩ := result
        cases next with
        | nil =>
          cases rounds <;> exact round
        | cons _ _ =>
          refine ih ?_ round
          simp only [weight, flatMap_nil, length_nil, length_cons] at lighter enough ⊢
          omega
      · simp

/-! ### The queues -/

section
variable {ours : SyncStateV1} {fuel : Nat}

theorem chunkNeed_names {chunks : List SyncNeedV1} (upright : Upright need) (is : chunkNeed fuel need = some chunks) :
    (∀ chunk ∈ chunks, Upright chunk) ∧ ∀ x, (∃ chunk ∈ chunks, Names actor chunk x) ↔ Names actor need x := by
  cases need with
  | full _ =>
    obtain ⟨_, isRanges, rfl⟩ := Option.map_eq_some_iff.mp is
    obtain ⟨proper, covers⟩ := collect_covers isRanges
    constructor
    · intro chunk listed
      obtain ⟨r, isRange, rfl⟩ := mem_map.mp listed
      exact ⟨validate_full (proper r isRange), by simp⟩
    · intro x
      cases x with
      | version owner version =>
        have inRange := covers version
        simp only [Covers, chunkedIter] at inRange
        simp only [mem_map, Names, RangeInclusive.mem_def, ← inRange]
        constructor
        · rintro ⟨_, ⟨r, isRange, rfl⟩, rfl, inside⟩
          exact ⟨rfl, r, isRange, inside⟩
        · rintro ⟨rfl, r, isRange, inside⟩
          exact ⟨_, ⟨r, isRange, rfl⟩, rfl, inside⟩
      | seq owner version seq => simp [Names]
  | partialVersion _ _ =>
    cases is
    simpa using upright
  | empty ts => exact absurd rfl (upright.2 ts)

theorem actorNeeds_names
    (upright : ∀ entry ∈ order, ∀ need ∈ entry.2, Upright need) (is : actorNeeds fuel order = some queue) :
    (∀ entry ∈ queue, Upright entry.2) ∧
      ∀ x, Queued queue x ↔ ∃ entry ∈ order, ∃ need ∈ entry.2, Names entry.1 need x := by
  simp only [actorNeeds, bind, Option.bind_eq_some_iff, pure, Option.some.injEq] at is
  obtain ⟨_, isPerActor, rfl⟩ := is
  obtain ⟨forth, back⟩ := mapM_some isPerActor
  simp only [Option.bind_eq_some_iff, Option.some.injEq] at forth back
  constructor
  · intro queued listed
    obtain ⟨part, isPart, inPart⟩ := mem_flatten.mp listed
    obtain ⟨entry, isEntry, chunks, isChunks, rfl⟩ := back part isPart
    obtain ⟨chunk, isChunk, rfl⟩ := mem_map.mp inPart
    obtain ⟨group, isGroup, inGroup⟩ := mem_flatten.mp isChunk
    obtain ⟨need, isNeed, chunked⟩ := (mapM_some isChunks).2 group isGroup
    exact (@chunkNeed_names entry.1 _ _ _ (upright entry isEntry need isNeed) chunked).1 chunk inGroup
  · intro x
    constructor
    · rintro ⟨queued, listed, named⟩
      obtain ⟨part, isPart, inPart⟩ := mem_flatten.mp listed
      obtain ⟨entry, isEntry, chunks, isChunks, rfl⟩ := back part isPart
      obtain ⟨chunk, isChunk, rfl⟩ := mem_map.mp inPart
      obtain ⟨group, isGroup, inGroup⟩ := mem_flatten.mp isChunk
      obtain ⟨need, isNeed, chunked⟩ := (mapM_some isChunks).2 group isGroup
      exact ⟨entry, isEntry, need, isNeed, ((chunkNeed_names (upright entry isEntry need isNeed) chunked).2 x).mp
        ⟨chunk, inGroup, named⟩⟩
    · rintro ⟨entry, isEntry, need, isNeed, named⟩
      obtain ⟨part, isPart, chunks, isChunks, rfl⟩ := forth entry isEntry
      obtain ⟨group, isGroup, chunked⟩ := (mapM_some isChunks).1 need isNeed
      obtain ⟨chunk, inGroup, names⟩ := ((chunkNeed_names (upright entry isEntry need isNeed) chunked).2 x).mpr named
      exact ⟨(entry.1, chunk), mem_flatten.mpr ⟨_, isPart,
        mem_map.mpr ⟨chunk, mem_flatten.mpr ⟨group, isGroup, inGroup⟩, rfl⟩⟩, names⟩

/-- A server offers what the needs computed from its state ask for. -/
def Offers (connection : Connection ours) (x : Wanted) : Prop :=
  ∃ actor, ∃ need ∈ connection.needs[actor]?.getD [], Names actor need x

variable {connection : Connection ours}

theorem mem_order {entry : ActorId × List SyncNeedV1} :
    entry ∈ connection.order ↔ connection.needs[entry.1]? = some entry.2 := by
  rw [connection.isOrder.mem_iff, mem_toList_iff_getElem?_eq_some]

theorem upright_order (connection : Connection ours) : ∀ entry ∈ connection.order, ∀ need ∈ entry.2, Upright need := by
  intro entry listed need isNeed
  obtain ⟨valid, _, isNeeds⟩ := computed_needs connection.computed (mem_order.mp listed)
  rw [isNeeds] at isNeed
  exact needsOf_upright valid isNeed

theorem offers_iff : Offers connection x ↔ ∃ entry ∈ connection.order, ∃ need ∈ entry.2, Names entry.1 need x := by
  constructor
  · rintro ⟨actor, need, isNeed, named⟩
    cases held : connection.needs[actor]? with
    | none => simp [held] at isNeed
    | some listed =>
      rw [held] at isNeed
      exact ⟨(actor, listed), mem_order.mpr held, need, isNeed, named⟩
  · rintro ⟨entry, listed, need, isNeed, named⟩
    exact ⟨entry.1, need, by rw [mem_order.mp listed]; exact isNeed, named⟩

variable {connections : List (Connection ours)}

/-- What the connection on this stream offers. -/
def OffersOn (connections : List (Connection ours)) (tx : Nat) (x : Wanted) : Prop :=
  ∃ connection, connections[tx]? = some connection ∧ Offers connection x

theorem mem_serversOf (is : serversOf fuel connections = some servers) :
    (∀ server ∈ servers, ∃ connection, connections[server.tx]? = some connection ∧
      actorNeeds fuel connection.order = some server.needs) ∧
    ∀ (tx : Nat) connection, connections[tx]? = some connection → connection.needs.isEmpty = false →
      ∃ server ∈ servers, server.tx = tx ∧ actorNeeds fuel connection.order = some server.needs := by
  simp only [serversOf, bind, Option.bind_eq_some_iff, pure, Option.some.injEq] at is
  obtain ⟨all, isAll, rfl⟩ := is
  obtain ⟨forth, back⟩ := mapM_some isAll
  simp only [Option.bind_eq_some_iff, Option.some.injEq] at forth back
  constructor
  · intro server listed
    obtain ⟨pair, isPair, rfl⟩ := mem_map.mp listed
    obtain ⟨⟨connection, tx⟩, isConnection, needs, isNeeds, rfl⟩ := back pair (mem_of_mem_filter isPair)
    exact ⟨connection, mk_mem_zipIdx_iff_getElem?.mp isConnection, isNeeds⟩
  · intro tx connection isConnection some_
    obtain ⟨pair, isPair, needs, isNeeds, rfl⟩ := forth (connection, tx) (mk_mem_zipIdx_iff_getElem?.mpr isConnection)
    refine ⟨_, mem_map.mpr ⟨_, mem_filter.mpr ⟨isPair, ?_⟩, rfl⟩, rfl, isNeeds⟩
    simp [some_]

theorem needs_filled (isNeed : need ∈ connection.needs[actor]?.getD []) : connection.needs.isEmpty = false := by
  by_contra empty
  have none_ : connection.needs = ∅ := isEmpty_iff.mp (by simpa using empty)
  simp [none_] at isNeed

theorem invariant_start (is : serversOf fuel connections = some servers) :
    Invariant (OffersOn connections) .start servers := by
  obtain ⟨forth, back⟩ := mem_serversOf is
  refine ⟨tracked_start, fun x marked => ?_, fun server listed x queued => ?_, fun server listed => ?_,
    fun _ => ⟨rfl, by simp [start]⟩, fun _ _ tx x offered => .inr ?_⟩
  · obtain ⟨_, listed, asked⟩ := (tracked_start.marked x).mp marked
    simp only [places, start, map_nil, nil_append, mem_cons, not_mem_nil, or_false, or_self] at listed
    rw [listed] at asked
    exact absurd asked requests_nil
  · obtain ⟨connection, isConnection, isNeeds⟩ := forth server listed
    exact ⟨connection, isConnection,
      offers_iff.mpr (((actorNeeds_names (upright_order connection) isNeeds).2 x).mp queued)⟩
  · obtain ⟨connection, isConnection, isNeeds⟩ := forth server listed
    exact (actorNeeds_names (upright_order connection) isNeeds).1
  · obtain ⟨connection, isConnection, offered⟩ := offered
    obtain ⟨_, isEntry, _, isNeed, _⟩ := offers_iff.mp offered
    have some_ : connection.needs.isEmpty = false := needs_filled (by rw [mem_order.mp isEntry]; exact isNeed)
    obtain ⟨server, listed, _, isNeeds⟩ := back tx connection isConnection some_
    exact ⟨server, listed, ((actorNeeds_names (upright_order connection) isNeeds).2 x).mpr (offers_iff.mp offered)⟩

/-- No offered range ends at the greatest number. -/
def Ending (connections : List (Connection ours)) : Prop :=
  ∀ connection ∈ connections, ∀ (actor : ActorId) versions,
    SyncNeedV1.full versions ∈ connection.needs[actor]?.getD [] → versions.stop < u64Max

theorem ending_of_servers (is : serversOf fuel connections = some servers) : Ending connections := by
  intro connection listed actor versions isNeed
  obtain ⟨tx, isConnection⟩ := getElem?_of_mem listed
  cases held : connection.needs[actor]? with
  | none => simp [held] at isNeed
  | some needs =>
    rw [held] at isNeed
    have some_ : connection.needs.isEmpty = false := needs_filled (by rw [held]; exact isNeed)
    obtain ⟨_, _, _, isQueue⟩ := (mem_serversOf is).2 tx connection isConnection some_
    have inOrder : (actor, needs) ∈ connection.order := mem_order.mpr held
    simp only [actorNeeds, bind, Option.bind_eq_some_iff] at isQueue
    obtain ⟨_, isPerActor, _⟩ := isQueue
    obtain ⟨_, _, isChunks⟩ := (mapM_some isPerActor).1 _ inOrder
    obtain ⟨_, isChunks, _⟩ := Option.bind_eq_some_iff.mp isChunks
    obtain ⟨_, _, chunked⟩ := (mapM_some isChunks).1 _ isNeed
    by_contra endless
    have proper := validateRanges_ok.mp (upright_order connection _ inOrder _ isNeed).1 versions mem_cons_self
    rw [chunkNeed, collect_endless proper (by simpa [chunkedIter] using endless)] at chunked
    cases chunked

theorem servers_of_ending (ending : Ending connections) : ∃ fuel servers, serversOf fuel connections =
    some servers := by
  -- no range that ends below `u64Max` has more chunks than that
  refine ⟨u64Max + 1, ?_⟩
  have queues : ∀ connection ∈ connections, ∃ queue, actorNeeds (u64Max + 1) connection.order = some queue := by
    intro connection isConnection
    have perActor := @mapM_isSome _ _ (fun entry : ActorId × List SyncNeedV1 => do
      let chunks ← entry.2.mapM (chunkNeed (u64Max + 1))
      return chunks.flatten.map (entry.1, ·)) connection.order fun entry isEntry => by
        obtain ⟨chunks, isChunks⟩ := @mapM_isSome _ _ (chunkNeed (u64Max + 1)) entry.2 fun need isNeed => by
          cases need with
          | full versions =>
            have low := ending connection isConnection entry.1 versions (by rw [mem_order.mp isEntry]; exact isNeed)
            have ends := @collect_ends (u64Max + 1) (chunkedIter versions 10) low (Nat.succ_pos 9)
              (by simp only [chunkedIter]; omega)
            obtain ⟨chunks, isChunks⟩ := Option.isSome_iff_exists.mp ends
            exact ⟨_, by rw [chunkNeed, isChunks]; rfl⟩
          | partialVersion own seqs | empty ts => exact ⟨_, rfl⟩
        exact ⟨_, by rw [isChunks]; rfl⟩
    obtain ⟨parts, isParts⟩ := perActor
    exact ⟨parts.flatten, by rw [actorNeeds, isParts]; rfl⟩
  have servers := @mapM_isSome _ _ (fun entry : Connection ours × Nat => do
    let needs ← actorNeeds (u64Max + 1) entry.1.order
    return ((⟨entry.1.actorId, needs, entry.2⟩ : Server), entry.1.needs.isEmpty)) connections.zipIdx
    fun entry isEntry => by
      obtain ⟨queue, isQueue⟩ := queues entry.1 (fst_mem_of_mem_zipIdx isEntry)
      exact ⟨_, by rw [isQueue]; rfl⟩
  obtain ⟨all, isAll⟩ := servers
  exact ⟨_, by rw [serversOf]; exact (congrArg (· >>= _) isAll).trans rfl⟩

/-! ### What is sent to whom -/

/-- The requests reach the servers as they should. -/
structure Distributes (connections : List (Connection ours)) (log : Requesting) : Prop where
  /-- nothing is sent to two servers -/
  once : ∀ a ∈ log.written, ∀ b ∈ log.written, a.tx ≠ b.tx → ∀ x, Requests a.frames x → ¬ Requests b.frames x
  /-- a server is sent needs computed from its own state -/
  own : ∀ record ∈ log.written, ∀ x, Requests record.frames x → OffersOn connections record.tx x
  /-- what a server offered is sent to some server by a write that succeeded -/
  sent : ∀ tx x, OffersOn connections tx x → ∃ record ∈ log.written, record.ok = true ∧ Requests record.frames x

variable {log : Requesting}

theorem written_once (tracked : Tracked log) (isA : a ∈ log.written) (isB : b ∈ log.written)
    (different : a ≠ b) : Disjoint a.frames b.frames := by
  have once := (pairwise_append.mp (pairwise_cons.mp tracked.once).2).1
  have : Std.Symm (fun a b : WriteRecord => Disjoint a.frames b.frames) :=
    ⟨fun _ _ apart x asked held => apart x held asked⟩
  exact (pairwise_map.mp once).forall isA isB different

theorem mem_places_written {record : WriteRecord} (listed : record ∈ log.written) : record.frames ∈ places log :=
  List.mem_cons_of_mem _ (List.mem_append_left _ (List.mem_map_of_mem listed))

/-- Requests reach the servers as they should if nothing failed. -/
theorem distributes_of_ok (holds : Invariant (OffersOn connections) log []) (encoded : log.unencoded = [])
    (ok : ∀ record ∈ log.written, record.ok = true) : Distributes connections log where
  once := fun a isA b isB apart => written_once holds.tracked isA isB fun same => apart (congrArg WriteRecord.tx same)
  own := (holds.own encoded).2
  sent := by
    intro tx x offered
    rcases holds.covered encoded ok tx x offered with marked | ⟨_, listed, _⟩
    · obtain ⟨_, listed, asked⟩ := (holds.tracked.marked x).mp marked
      simp only [places, encoded, (holds.own encoded).1, List.mem_cons, List.mem_append, List.mem_map,
        List.not_mem_nil, or_false] at listed
      rcases listed with rfl | ⟨record, isRecord, rfl⟩ | rfl
      · exact absurd asked requests_nil
      · exact ⟨record, isRecord, ok record isRecord, asked⟩
      · exact absurd asked requests_nil
    · cases listed

/-- What was in a frame that was lost is sent by no other write. -/
theorem ok_of_distributes (holds : Invariant (OffersOn connections) log [])
    (distributes : Distributes connections log) : log.unencoded = [] ∧ ∀ record ∈ log.written, record.ok = true := by
  have resent : ∀ place ∈ places log, ∀ frame ∈ place,
      ∃ record ∈ log.written, record.ok = true ∧ ∃ x, Requests record.frames x ∧ Requests place x := by
    intro place isPlace frame isFrame
    obtain ⟨x, asked⟩ := holds.tracked.asks place isPlace frame isFrame
    have inPlace : Requests place x := by
      obtain ⟨_, isSingle, need, isNeed, named⟩ := asked
      rw [mem_singleton.mp isSingle] at isNeed named
      exact ⟨frame, isFrame, need, isNeed, named⟩
    obtain ⟨tx, offered⟩ := holds.offered x ((holds.tracked.marked x).mpr ⟨place, isPlace, inPlace⟩)
    obtain ⟨record, isRecord, ok, again⟩ := distributes.sent tx x offered
    exact ⟨record, isRecord, ok, x, again, inPlace⟩
  constructor
  · by_contra lost
    obtain ⟨frame, isFrame⟩ := exists_mem_of_ne_nil _ lost
    obtain ⟨record, isRecord, _, x, again, inPlace⟩ := resent _ mem_cons_self frame isFrame
    exact (pairwise_cons.mp holds.tracked.once).1 record.frames
      (mem_append_left _ (mem_map_of_mem isRecord)) x inPlace again
  · intro failed isFailed
    by_contra notOk
    obtain ⟨frame, isFrame⟩ := exists_mem_of_ne_nil _ (holds.tracked.filled failed isFailed)
    obtain ⟨record, isRecord, ok, x, again, inPlace⟩ := resent _ (mem_places_written isFailed) frame isFrame
    have different : record ≠ failed := fun same => notOk (same ▸ ok)
    exact written_once holds.tracked isRecord isFailed different x again inPlace

end

/-- **Request distribution.** The requests are built exactly when no offered range ends at
`u64::MAX`; once built, they reach the servers as they should, whatever the needs, exactly
when no frame fails to be encoded and no write fails. -/
theorem requests_distributed_iff (ours : SyncStateV1) (connections : List (Connection ours)) (env : RequestEnv) :
    ((∃ fuel log, parallelSync env fuel connections = some log) ↔ Ending connections) ∧
      ∀ fuel log, parallelSync env fuel connections = some log →
        (Distributes connections log ↔ log.unencoded = [] ∧ ∀ record ∈ log.written, record.ok = true) := by
  constructor
  · constructor
    · rintro ⟨fuel, log, sent⟩
      obtain ⟨servers, isServers, _⟩ := Option.map_eq_some_iff.mp sent
      exact ending_of_servers isServers
    · intro ending
      obtain ⟨fuel, servers, isServers⟩ := servers_of_ending ending
      exact ⟨fuel, _, by rw [parallelSync, isServers]; rfl⟩
  · intro fuel log sent
    obtain ⟨servers, isServers, rfl⟩ := Option.map_eq_some_iff.mp sent
    have holds := @invariant_sendRequests env _ _ _ _ (Nat.lt_succ_self _) (invariant_start isServers)
    constructor
    · exact ok_of_distributes holds
    · intro allOk
      exact distributes_of_ok holds allOk.1 allOk.2

/-- A node that has nothing yet, and a server that has versions of actor 9 up to this one. -/
def blank : SyncStateV1 := ⟨1, ∅, ∅, ∅, none⟩

def ahead (server : ActorId) (head : Nat) : SyncStateV1 := ⟨server, (∅ : Map ActorId Nat).insert 9 head, ∅, ∅, none⟩

def connectTo (server : ActorId) : Connection blank where
  actorId := server
  theirs := ahead server 1
  needs := (∅ : Map ActorId (List SyncNeedV1)).insert 9 [.full ⟨1, 1⟩]
  computed := rfl
  order := [(9, [.full ⟨1, 1⟩])]
  isOrder := .refl _

/-- A server that tells the greatest head there is. -/
def connectToLast : Connection blank where
  actorId := 2
  theirs := ahead 2 u64Max
  needs := (∅ : Map ActorId (List SyncNeedV1)).insert 9 [.full ⟨1, u64Max⟩]
  computed := rfl
  order := [(9, [.full ⟨1, u64Max⟩])]
  isOrder := .refl _

/-- Servers 2 and 3 both have the version. The write to server 2 fails, and server 3 is never
asked. And with a range that ends at `u64::MAX` nothing is ever sent. -/
theorem request_lost_by_failed_write : (connectTo 2).needs[(9 : ActorId)]? = some [.full ⟨1, 1⟩] ∧
    (connectTo 3).needs[(9 : ActorId)]? = some [.full ⟨1, 1⟩] ∧
    (parallelSync ⟨fun _ => true, fun count => count ≠ 0⟩ 3 [connectTo 2, connectTo 3]).map Requesting.written =
      some [⟨0, [(9, [.full ⟨1, 1⟩])], false⟩] ∧
    ∀ fuel, parallelSync ⟨fun _ => true, fun _ => true⟩ fuel [connectToLast] = none := by
  refine ⟨by decide, by decide, by decide, fun fuel => ?_⟩
  by_contra returns
  obtain ⟨log, sent⟩ := Option.ne_none_iff_exists'.mp returns
  obtain ⟨_, isServers, _⟩ := Option.map_eq_some_iff.mp sent
  have low := ending_of_servers isServers connectToLast mem_cons_self 9 ⟨1, u64Max⟩ (by decide)
  exact absurd low (by simp)

end Galvanize.RequestDistribution
