import Galvanize.ProcessProofs

/-! Which changes of a batch the bookkeeping remembers. Within a batch a change
is skipped when every version it names has been handled, whatever the earlier
change was; and a complete change clears a version before the chunks of the
same batch are merged. A version is therefore remembered whole exactly when the
first change that touches it is complete; otherwise it stays partial, with the
chunks that came before a complete copy, or with all of them. -/
namespace Galvanize.AcceptedChanges
open BookedVersions BookieProofs BookieMirror ProcessProofs List RangeInclusive

variable {bv : BookedVersions} {change : ChangeV1} {processed : List Processed} {version : Nat}

/-! ### The loop as bookkeeping sees it -/

/-- What a batch has last recorded for a version. -/
def lastRecord (processed : List Processed) (version : Nat) : Option (Option PartialVersion) :=
  Seen.get processed.reverse version

/-- One turn: a change all of whose versions are handled is skipped. -/
def record (processed : List Processed) (change : ChangeV1) : List Processed :=
  if Seen.covers processed.reverse change then processed
  else processed ++ [(change.versions, known change)]

variable {versions : CrsqlDbVersionRange} {given : Option PartialVersion}

theorem lastRecord_push : lastRecord (processed ++ [(versions, given)]) version =
      if version ∈ versions then some given else lastRecord processed version := by
  simp only [lastRecord, Seen.get, reverse_append, reverse_singleton, singleton_append, find?_cons]
  by_cases inside : version ∈ versions <;> simp [inside]

/-- The seqs a change names are among those last recorded for the version. -/
def SeenSeqs (last : Option (Option PartialVersion)) (seqs : Option CrsqlSeqRange) : Prop :=
  match last, seqs with
  | none, _ => False
  | some none, _ => True
  | some (some _), none => True
  | some (some p), some seqs => ∀ seq ∈ seqs, seq ∈ p.seqs

theorem covers_iff : Seen.covers processed.reverse change = true ↔
    ∀ version ∈ change.versions, SeenSeqs (lastRecord processed version) change.seqs := by
  simp only [Seen.covers, all_eq_true, mem_toList]
  refine forall_congr' fun version => imp_congr Iff.rfl ?_
  change _ ↔ SeenSeqs (Seen.get processed.reverse version) change.seqs
  cases change.seqs with
  | none | some seqs => cases Seen.get processed.reverse version with
    | none => simp [SeenSeqs]
    | some last => cases last <;> simp [SeenSeqs]

variable {changes : List ChangeV1} {engine : CrSqlite} {faults : Faults}

/-- The loop over an actor's unknown changes records as `record` does, unless
the database gets in the way. -/
theorem processed_eq_foldl (handles : Handles engine faults bv changes processed)
    (unknown : ∀ change ∈ changes, bv.containsAll change.versions change.seqs = false)
    (upright : ∀ change ∈ changes, Upright change)
    (quiet : ∀ change ∈ changes, faults.singleVersion change = none) : processed = changes.foldl record [] := by
  obtain ⟨before, final, seen, none, run, rfl⟩ := handles
  have folded : ∀ (changes : List ChangeV1) (before : ActorLoop engine),
      (∀ change ∈ changes, bv.containsAll change.versions change.seqs = false) →
      (∀ change ∈ changes, Upright change) →
      (∀ change ∈ changes, faults.singleVersion change = .none) →
      before.seen = before.processed.reverse →
      changes.foldlM (handleChange faults bv) before = .ok final →
      final.processed = changes.foldl record before.processed := by
    intro changes
    induction changes with
    | nil =>
      intro before _ _ _ _ run
      rw [foldlM_nil_ok run]
      rfl
    | cons first _ ih =>
      intro before unknown upright quiet seen run
      obtain ⟨middle, turn, later⟩ := foldlM_cons_ok run
      have tail := ih middle (fun c member => unknown c (by simp [member]))
        (fun c member => upright c (by simp [member])) (fun c member => quiet c (by simp [member]))
      rw [foldl_cons]
      rcases handleChange_ok turn with ⟨rfl, skipped⟩ | ⟨_, unseen, _, db, _, _⟩
      · have covered : Seen.covers middle.processed.reverse first = true := by
          cases skipped with
          | known contained => simp [unknown first (by simp)] at contained
          | seen covered => rwa [← seen]
          | inverted inverted => exact absurd (upright first (by simp)) inverted
          | failed error => simp [quiet first (by simp)] at error
        rw [tail seen later, record, if_pos covered]
      · rw [seen] at unseen
        rw [record, if_neg (by simp [unseen])]
        exact tail (by simp [ActorLoop.push, seen]) later
  have start := folded changes before unknown upright quiet (by simp [seen, none]) run
  rwa [none] at start

/-! ### One version across a batch -/

theorem chunksOf_push : chunksOf version (processed ++ [(versions, given)]) =
      chunksOf version processed ++ if versions.start = version then given.toList else [] := by
  rw [chunksOf, filterMap_append, chunksOf]
  by_cases same : versions.start = version <;> cases given <;> simp [same]

theorem complete_push : version ∈ completeVersions (processed ++ [(versions, given)]) ↔
      version ∈ completeVersions processed ∨ (given = none ∧ version ∈ versions) := by
  simp only [mem_completeVersions, mem_append, mem_singleton, Prod.mk.injEq]
  constructor
  · rintro ⟨_, listed | ⟨rfl, is⟩, inside⟩
    · exact .inl ⟨_, listed, inside⟩
    · exact .inr ⟨is.symm, inside⟩
  · rintro (⟨other, listed, inside⟩ | ⟨rfl, inside⟩)
    · exact ⟨other, .inl listed, inside⟩
    · exact ⟨versions, .inr ⟨rfl, rfl⟩, inside⟩

/-- A change that does not touch a version records nothing for it. -/
theorem record_elsewhere (outside : version ∉ change.versions) :
    lastRecord (record processed change) version = lastRecord processed version ∧
      chunksOf version (record processed change) = chunksOf version processed ∧
      (version ∈ completeVersions (record processed change) ↔ version ∈ completeVersions processed) := by
  unfold record
  split
  · exact ⟨rfl, rfl, Iff.rfl⟩
  · rw [lastRecord_push, if_neg outside, chunksOf_push, complete_push]
    refine ⟨rfl, ?_, by simp [outside]⟩
    cases is : known change with
    | none => simp
    | some p =>
      obtain ⟨own, _, single, _, _⟩ := known_eq_some is
      have different : ¬ change.versions.start = version := by
        intro same
        rw [single] at same outside
        exact outside (mem_single.mpr same.symm)
      simp [different]

/-- Once a complete change is recorded for a version no chunk is. -/
theorem record_closed (closed : lastRecord processed version = some none) :
    lastRecord (record processed change) version = some none ∧
      chunksOf version (record processed change) = chunksOf version processed := by
  by_cases inside : version ∈ change.versions
  · unfold record
    split
    · exact ⟨closed, rfl⟩
    · rename_i unseen
      cases is : known change with
      | none => rw [lastRecord_push, if_pos inside, chunksOf_push]; simp
      | some p =>
        obtain ⟨own, _, single, has, _⟩ := known_eq_some is
        refine absurd (covers_iff.mpr ?_) unseen
        intro _ member
        rw [single, mem_single] at inside member
        rw [member, ← inside, closed]
        simp [SeenSeqs]
  · obtain ⟨last, chunks, _⟩ := @record_elsewhere change processed version inside
    exact ⟨last.trans closed, chunks⟩

theorem foldl_record_closed (closed : lastRecord processed version = some none) :
    chunksOf version (changes.foldl record processed) = chunksOf version processed := by
  induction changes generalizing processed with
  | nil => rfl
  | cons first _ ih =>
    obtain ⟨still, same⟩ := @record_closed first processed version closed
    rw [foldl_cons, ih still, same]

/-- What has been recorded stays recorded. -/
theorem foldl_record_grows : ∃ more, changes.foldl record processed = processed ++ more := by
  induction changes generalizing processed with
  | nil => exact ⟨[], by simp⟩
  | cons first _ ih =>
    obtain ⟨more, is⟩ := @ih (record processed first)
    rw [foldl_cons, is]
    unfold record
    split
    · exact ⟨more, rfl⟩
    · exact ⟨_, append_assoc _ _ _⟩

/-- `inner` lies within `outer`. -/
def within (inner outer : RangeInclusive) : Bool := outer.start ≤ inner.start && inner.stop ≤ outer.stop

theorem within_iff {inner : RangeInclusive} (proper : inner.start ≤ inner.stop) :
    within inner outer = true ↔ ∀ x ∈ inner, x ∈ outer := by
  simp only [within, Bool.and_eq_true, decide_eq_true_eq, mem_def]
  constructor
  · rintro ⟨low, _⟩ x ⟨_, _⟩
    exact ⟨by omega, by omega⟩
  · intro inside
    exact ⟨(inside inner.start ⟨le_rfl, proper⟩).1, (inside inner.stop ⟨proper, le_rfl⟩).2⟩

/-- Among the changes of one version: the seq ranges of the chunks that are
recorded before a complete copy is, and whether one is. A chunk or a copy within
the chunk recorded last is skipped; after a complete copy everything is. -/
def tally (version : Nat) : Option CrsqlSeqRange → List ChangeV1 → List CrsqlSeqRange × Bool
  | _, [] => ([], false)
  | last, change :: rest =>
    if version ∈ change.versions then
      match change.seqs with
      | none => tally version last rest
      | some seqs =>
        if last.any (within seqs) then tally version last rest
        else if change.isComplete then ([], true)
        else (seqs :: (tally version (some seqs) rest).1, (tally version (some seqs) rest).2)
    else tally version last rest

/-- The chunk recorded last for a version, if any. -/
def LastChunk (processed : List Processed) (version : Nat) : Option CrsqlSeqRange → Prop
  | none => lastRecord processed version = none
  | some seqs => ∃ p, lastRecord processed version = some (some p) ∧ p.seqs = .ofRanges [seqs]

theorem covers_single_iff {last : Option CrsqlSeqRange} {seqs : CrsqlSeqRange}
    (lastChunk : LastChunk processed own last) (single : change.versions = .single own)
    (has : change.seqs = some seqs) (proper : seqs.start ≤ seqs.stop) :
    Seen.covers processed.reverse change = true ↔ last.any (within seqs) = true := by
  rw [covers_iff, single, has]
  simp only [mem_single, forall_eq]
  cases last with
  | none =>
    rw [show lastRecord processed own = none from lastChunk]
    simp [SeenSeqs]
  | some _ =>
    obtain ⟨p, is, held⟩ := lastChunk
    rw [is, Option.any_some, within_iff proper]
    simp [SeenSeqs, held]

/-- While no `Empty` touches the version, `tally` says what the loop records. -/
theorem foldl_record_tally {last : Option CrsqlSeqRange}
    (named : ∀ change ∈ changes, version ∈ change.versions → change.seqs ≠ none)
    (upright : ∀ change ∈ changes, Upright change) (lastChunk : LastChunk processed version last) :
    (∀ seq, (∃ p ∈ chunksOf version (changes.foldl record processed), seq ∈ p.seqs) ↔
      (∃ p ∈ chunksOf version processed, seq ∈ p.seqs) ∨ ∃ r ∈ (tally version last changes).1, seq ∈ r) ∧
    (version ∈ completeVersions (changes.foldl record processed) ↔
      version ∈ completeVersions processed ∨ (tally version last changes).2 = true) := by
  induction changes generalizing processed last with
  | nil => simp [tally]
  | cons first rest ih =>
    have restNamed := fun c member => named c (mem_cons_of_mem first member)
    have restUpright := fun c member => upright c (mem_cons_of_mem first member)
    rw [foldl_cons]
    by_cases inside : version ∈ first.versions
    · cases has : first.seqs with
      | none => exact absurd has (named first (by simp) inside)
      | some seqs =>
        obtain ⟨own, single⟩ := versions_of_seqs has
        obtain rfl : version = own := by rwa [single, RangeInclusive.mem_single] at inside
        have proper := upright first (by simp) seqs has
        have covered := covers_single_iff lastChunk single has proper
        simp only [tally, if_pos inside, has]
        by_cases skipped : last.any (within seqs) = true
        · rw [if_pos skipped, record, if_pos (covered.mpr skipped)]
          exact ih restNamed restUpright lastChunk
        · have unseen : ¬ Seen.covers processed.reverse first = true := fun yes => skipped (covered.mp yes)
          rw [if_neg skipped, record, if_neg unseen, single]
          by_cases complete : first.isComplete = true
          · have closed : lastRecord (processed ++ [(.single version, known first)]) version = some none := by
              rw [lastRecord_push, if_pos (by simp), known_eq_none.mpr complete]
            obtain ⟨_, grown⟩ := @foldl_record_grows (processed ++ [(.single version, known first)]) rest
            have stays : version ∈ completeVersions
                (rest.foldl record (processed ++ [(.single version, known first)])) := by
              rw [grown, mem_completeVersions]
              exact ⟨.single version, by simp [known_eq_none.mpr complete], by simp⟩
            rw [if_pos complete, foldl_record_closed closed, chunksOf_push, known_eq_none.mpr complete]
            rw [known_eq_none.mpr complete] at stays
            simp [stays]
          · cases is : known first with
            | none => exact absurd (known_eq_none.mp is) complete
            | some p =>
              obtain ⟨_, given, _, alsoHas, held⟩ := known_eq_some is
              obtain rfl : seqs = given := by rw [has] at alsoHas; exact Option.some.inj alsoHas
              have nextLast : LastChunk (processed ++ [(.single version, some p)]) version (some seqs) :=
                ⟨p, by rw [lastRecord_push, if_pos (by simp)], held⟩
              obtain ⟨chunks, completes⟩ := ih restNamed restUpright nextLast
              rw [if_neg complete]
              refine ⟨fun seq => ?_, ?_⟩
              · rw [chunks, chunksOf_push]
                simp [RangeInclusive.single, held, RangeInclusiveSet.mem_ofRanges, or_assoc]
              · rw [completes, complete_push]
                simp
    · simp only [tally, if_neg inside]
      obtain ⟨same, chunks, completes⟩ := @record_elsewhere first processed version inside
      have nextLast : LastChunk (record processed first) version last := by
        cases last with
        | none => exact same.trans lastChunk
        | some seqs =>
          obtain ⟨p, is, held⟩ := lastChunk
          exact ⟨p, same.trans is, held⟩
      obtain ⟨chunksAfter, completesAfter⟩ := ih restNamed restUpright nextLast
      refine ⟨fun seq => ?_, ?_⟩
      · rw [chunksAfter, chunks]
      · rw [completesAfter, completes]

/-- Every entry comes from a change. -/
theorem mem_foldl_record {entry : Processed} (listed : entry ∈ changes.foldl record processed) :
    entry ∈ processed ∨ ∃ change ∈ changes, entry = (change.versions, known change) := by
  induction changes generalizing processed with
  | nil => exact .inl listed
  | cons first _ ih =>
    rcases ih listed with earlier | ⟨change, member, is⟩
    · unfold record at earlier
      split at earlier
      · exact .inl earlier
      · rcases mem_append.mp earlier with old | new
        · exact .inl old
        · exact .inr ⟨first, by simp, mem_singleton.mp new⟩
    · exact .inr ⟨change, by simp [member], is⟩

theorem lastRecord_eq_none : lastRecord processed version = none ↔ version ∉ processedVersions processed := by
  rw [mem_processedVersions]
  simp [lastRecord, Seen.get]

/-- Every version a batch names is processed. -/
theorem touched_processed (member : change ∈ changes) (inside : version ∈ change.versions) :
    version ∈ processedVersions (changes.foldl record processed) := by
  induction changes generalizing processed with
  | nil => cases member
  | cons _ rest ih =>
    rcases mem_cons.mp member with rfl | later
    · obtain ⟨_, grown⟩ := @foldl_record_grows (record processed change) rest
      have now : version ∈ processedVersions (record processed change) := by
        by_contra missing
        have never := lastRecord_eq_none.mpr missing
        unfold record at never
        split at never
        · rename_i covered
          have seen := covers_iff.mp covered version inside
          rw [never] at seen
          exact seen
        · rw [lastRecord_push, if_pos inside] at never
          cases never
      obtain ⟨entry, listed, within⟩ := mem_processedVersions.mp now
      rw [foldl_cons, grown, mem_processedVersions]
      exact ⟨entry, mem_append_left _ listed, within⟩
    · exact ih later

def touches (version : Nat) (change : ChangeV1) : Bool := decide (version ∈ change.versions)

/-- The first change that touches a version decides what becomes of it. -/
theorem foldl_record_first {first : ChangeV1} (fresh : lastRecord processed version = none)
    (noChunks : chunksOf version processed = []) (found : changes.find? (touches version) = some first) :
    (first.isComplete = true → chunksOf version (changes.foldl record processed) = [] ∧
      version ∈ completeVersions (changes.foldl record processed)) ∧
    (first.isComplete = false → chunksOf version (changes.foldl record processed) ≠ []) := by
  induction changes generalizing processed with
  | nil => cases found
  | cons head rest ih =>
    rw [foldl_cons]
    by_cases inside : version ∈ head.versions
    · obtain rfl : head = first := by simpa [touches, inside] using found
      have unseen : ¬ Seen.covers processed.reverse head = true := by
        intro covered
        have seen := covers_iff.mp covered version inside
        rw [fresh] at seen
        exact seen
      rw [record, if_neg unseen]
      obtain ⟨_, grown⟩ := @foldl_record_grows (processed ++ [(head.versions, known head)]) rest
      constructor
      · intro complete
        have closed : lastRecord (processed ++ [(head.versions, known head)]) version = some none := by
          rw [lastRecord_push, if_pos inside, known_eq_none.mpr complete]
        constructor
        · rw [foldl_record_closed closed, chunksOf_push, noChunks, known_eq_none.mpr complete]
          simp
        · rw [grown, mem_completeVersions]
          exact ⟨head.versions, by simp [known_eq_none.mpr complete], inside⟩
      · intro incomplete
        cases is : known head with
        | none =>
          rw [known_eq_none.mp is] at incomplete
          cases incomplete
        | some p =>
          obtain ⟨own, _, single, _, _⟩ := known_eq_some is
          rw [is] at grown
          have started : head.versions.start = version := by
            rw [single, mem_single] at inside
            rw [single, inside]
            rfl
          have listed : p ∈ chunksOf version (rest.foldl record (processed ++ [(head.versions, some p)])) := by
            rw [grown]
            exact mem_chunksOf.mpr ⟨head.versions, by simp, started⟩
          exact ne_nil_of_mem listed
    · have later : rest.find? (touches version) = some first := by
        simpa [touches, inside] using found
      obtain ⟨same, chunks, _⟩ := @record_elsewhere head processed version inside
      exact ih (same.trans fresh) (chunks.trans noChunks) later

/-- A version no change touches is left alone. -/
theorem foldl_record_untouched (absent : changes.find? (touches version) = none) :
    chunksOf version (changes.foldl record []) = [] ∧ version ∉ completeVersions (changes.foldl record []) := by
  have outside : ∀ change ∈ changes, version ∉ change.versions := by
    intro change member
    simpa [touches] using find?_eq_none.mp absent change member
  constructor
  · refine eq_nil_iff_forall_not_mem.mpr fun p listed => ?_
    obtain ⟨versions, entry, start⟩ := mem_chunksOf.mp listed
    rcases mem_foldl_record entry with old | ⟨change, member, is⟩
    · cases old
    · simp only [Prod.mk.injEq] at is
      obtain ⟨own, _, single, _, _⟩ := known_eq_some is.2.symm
      refine outside change member ?_
      rw [is.1, single] at start
      rw [single, mem_single]
      exact start.symm
  · intro complete
    obtain ⟨versions, entry, inside⟩ := mem_completeVersions.mp complete
    rcases mem_foldl_record entry with old | ⟨change, member, is⟩
    · cases old
    · simp only [Prod.mk.injEq] at is
      exact outside change member (is.1 ▸ inside)

/-! ### What a batch forgets -/

/-- The seqs left of a version whose first unknown change is a chunk: those of
the chunks before a complete copy, and those held before if no copy came. -/
def Kept (bv : BookedVersions) (unknown : List ChangeV1) (version seq : Nat) : Prop :=
  (∃ r ∈ (tally version none unknown).1, seq ∈ r) ∨
    ((tally version none unknown).2 = false ∧
      ∃ held, bv.partials[version]? = some held ∧ seq ∈ held.seqs)

/-- Wherever the first unknown change of a version is a chunk, every change of
the list that touches the version names seqs, and they are kept. -/
def NothingForgotten (bookie : Bookie) (changes : List ChangeV1) : Prop :=
  ∀ actor version first,
    (unknownOf bookie changes actor).find? (touches version) = some first →
    first.isComplete = true ∨
    ∀ change ∈ changes, change.actorId = actor → version ∈ change.versions →
      ∃ seqs, change.seqs = some seqs ∧
        ∀ seq ∈ seqs, Kept (bookie.ensure actor) (unknownOf bookie changes actor) version seq

theorem merged_seqs {unknown : List ChangeV1} {first : ChangeV1}
    (found : unknown.find? (touches version) = some first) (incomplete : first.isComplete = false)
    (named : ∀ change ∈ unknown, version ∈ change.versions → change.seqs ≠ none)
    (upright : ∀ change ∈ unknown, Upright change) :
    ∃ merged, (bv.computeAndApply (unknown.foldl record [])).1.partials[version]? = some merged ∧
      ∀ seq, seq ∈ merged.seqs ↔ Kept bv unknown version seq := by
  have chunks := (@foldl_record_first [] version unknown first rfl rfl found).2 incomplete
  obtain ⟨merged, is, seqs⟩ := @computeAndApply_chunks bv version _ chunks
  obtain ⟨tallied, completes⟩ := @foldl_record_tally [] version unknown none named upright rfl
  have nothing : version ∉ completeVersions [] := by simp [mem_completeVersions]
  refine ⟨merged, is, fun seq => ?_⟩
  rw [seqs, tallied, completes, Kept]
  cases (tally version none unknown).2 <;> simp [nothing, chunksOf, or_comm]

variable {unknown listed : List ChangeV1}

/-- One actor: `listed` are its changes, `unknown` those looked at. -/
private theorem actor_known_iff (included : ∀ change ∈ unknown, change ∈ listed)
    (looked : ∀ change ∈ listed, bv.containsAll change.versions change.seqs = false →
      ∃ other ∈ unknown, other.versions = change.versions ∧ other.seqs = change.seqs)
    (valid : ∀ change ∈ listed, change.validate = .ok ()) :
    (∀ change ∈ listed, (bv.computeAndApply (unknown.foldl record [])).1.containsAll
        change.versions change.seqs = true) ↔ ∀ version first, unknown.find? (touches version) = some first →
        first.isComplete = true ∨ ∀ change ∈ listed, version ∈ change.versions →
          ∃ seqs, change.seqs = some seqs ∧ ∀ seq ∈ seqs, Kept bv unknown version seq := by
  have proper : ∀ entry ∈ unknown.foldl record [], entry.1.start ≤ entry.1.stop := by
    intro entry member
    rcases mem_foldl_record member with old | ⟨change, looked, rfl⟩
    · cases old
    · exact ChangeV1.validate_versions (valid change (included change looked))
  have upright : ∀ change ∈ unknown, Upright change := fun change member =>
    upright_of_valid (valid change (included change member))
  constructor
  · intro all version first found
    cases complete : first.isComplete with
    | true => exact .inl rfl
    | false =>
      refine .inr fun change member inside => ?_
      have chunks := (@foldl_record_first [] version unknown first rfl rfl found).2 complete
      obtain ⟨leftover, isPartial, _⟩ := @computeAndApply_chunks bv version _ chunks
      -- the version is partial afterwards, so no `Empty` that touches it is remembered
      have hasSeqs : ∀ other ∈ listed, version ∈ other.versions → ∃ seqs, other.seqs = some seqs ∧
          ∀ seq ∈ seqs, seq ∈ leftover.seqs := by
        intro other otherMember otherInside
        have contained := containsAll_iff.mp (all other otherMember) version otherInside
        exact (contains_iff.mp contained).2 leftover isPartial
      obtain ⟨merged, is, seqs⟩ := @merged_seqs bv version unknown first found complete
        (fun other otherMember otherInside => by
          obtain ⟨_, has, _⟩ := hasSeqs other (included other otherMember) otherInside
          rw [has]
          simp) upright
      obtain rfl : leftover = merged := by
        rw [isPartial] at is
        exact Option.some.inj is
      obtain ⟨given, has, held⟩ := hasSeqs change member inside
      exact ⟨given, has, fun seq within => (seqs seq).mp (held seq within)⟩
  · intro condition change member
    refine containsAll_iff.mpr fun version inside => contains_iff.mpr ?_
    have isKnown : version ∈ processedVersions (unknown.foldl record []) ∨ bv.containsVersion version = true := by
      cases contained : bv.containsAll change.versions change.seqs with
      | true => exact .inr (contains_iff.mp (containsAll_iff.mp contained version inside)).1
      | false =>
        obtain ⟨other, otherLooked, same, _⟩ := looked change member contained
        exact .inl (touched_processed otherLooked (same ▸ inside))
    refine ⟨containsVersion_computeAndApply proper isKnown, fun held is => ?_⟩
    cases found : unknown.find? (touches version) with
    | none =>
      obtain ⟨noChunks, notCleared⟩ := foldl_record_untouched found
      rw [computeAndApply_no_chunks noChunks, if_neg notCleared] at is
      cases contained : bv.containsAll change.versions change.seqs with
      | true => exact (contains_iff.mp (containsAll_iff.mp contained version inside)).2 held is
      | false =>
        obtain ⟨other, otherLooked, same, _⟩ := looked change member contained
        have := find?_eq_none.mp found other otherLooked
        simp [touches, same, inside] at this
    | some first =>
      cases complete : first.isComplete with
      | true =>
        obtain ⟨noChunks, cleared⟩ := (@foldl_record_first [] version unknown first rfl rfl found).1 complete
        rw [computeAndApply_no_chunks noChunks, if_pos cleared] at is
        cases is
      | false =>
        have kept := (condition version first found).resolve_left (by simp [complete])
        obtain ⟨merged, isMerged, seqs⟩ := @merged_seqs bv version unknown first found complete
          (fun other otherMember otherInside => by
            obtain ⟨_, has, _⟩ := kept other (included other otherMember) otherInside
            rw [has]
            simp) upright
        obtain rfl : merged = held := by
          rw [isMerged] at is
          exact Option.some.inj is
        obtain ⟨given, has, within⟩ := kept change member inside
        exact ⟨given, has, fun seq wanted => (seqs seq).mpr (within seq wanted)⟩

section
variable {node after : Node engine} {outcome : Outcome} (valid : ∀ change ∈ changes, change.validate = .ok ())
  (quiet : ∀ change ∈ changes, faults.singleVersion change = none)
  (committed : processMultipleChanges faults node changes = (after, .ok outcome)) (actor : ActorId)
include valid quiet committed

/-- What a committed batch that met no database error leaves of an actor's bookkeeping. -/
theorem committed_ensure :
    after.bookie.ensure actor = ((node.bookie.ensure actor).computeAndApply
      ((unknownOf node.bookie changes actor).foldl record [])).1 := by
  obtain ⟨_, handles, moved⟩ := processMultipleChanges_actor committed actor
  have recorded := processed_eq_foldl handles (fun change member => (mem_unknownOf member).2.2)
      (fun change member => upright_of_valid (valid change (mem_unknownOf member).1))
      (fun change member => quiet change (mem_unknownOf member).1)
  rw [moved, recorded]

/-- Which changes of one actor a committed batch remembers. -/
theorem committed_known_iff :
    (∀ change ∈ changes, change.actorId = actor →
      (after.bookie.ensure actor).containsAll change.versions change.seqs = true) ↔
    ∀ version first, (unknownOf node.bookie changes actor).find? (touches version) = some first →
      first.isComplete = true ∨ ∀ change ∈ changes, change.actorId = actor →
        version ∈ change.versions → ∃ seqs, change.seqs = some seqs ∧ ∀ seq ∈ seqs,
          Kept (node.bookie.ensure actor) (unknownOf node.bookie changes actor) version seq := by
  rw [committed_ensure valid quiet committed]
  have one := @actor_known_iff (node.bookie.ensure actor) (unknownOf node.bookie changes actor)
    (changes.filter (fun change => change.actorId = actor))
    (fun change member => by simpa using ⟨(mem_unknownOf member).1, (mem_unknownOf member).2.1⟩)
    (fun change member missing => by
      obtain ⟨listed, own⟩ : change ∈ changes ∧ change.actorId = actor := by simpa using member
      subst own
      exact exists_unknownOf listed missing)
    (fun change member => valid change (mem_of_mem_filter member))
  simpa only [mem_filter, decide_eq_true_eq, and_imp] using one

end

/-- **Which batches are remembered.** After a committed batch that met no
database error, the bookkeeping knows every change of the list if and only if
nothing is forgotten: no version starts with a chunk and goes on with a change
that the chunks before it do not cover. -/
theorem accepted_changes_known_iff {engine : CrSqlite} (faults : Faults) (node after : Node engine)
    (changes : List ChangeV1) (outcome : Outcome) (valid : ∀ change ∈ changes, change.validate = .ok ())
    (quiet : ∀ change ∈ changes, faults.singleVersion change = none)
    (committed : processMultipleChanges faults node changes = (after, .ok outcome)) :
    (∀ change ∈ changes, (after.bookie.ensure change.actorId).containsAll change.versions
      change.seqs = true) ↔ NothingForgotten node.bookie changes := by
  have perActor := committed_known_iff valid quiet committed
  constructor
  · intro all actor
    exact (perActor actor).mp fun change member own => own ▸ all change member
  · intro condition change member
    exact (perActor change.actorId).mpr (condition change.actorId) change member rfl

/-- A cell of one row, written at this position of a version. -/
def cell (version seq : Nat) : Change := ⟨"t", [1], "c", .integer 1, 1, version, seq, 1, 1⟩

/-- The first half of a version of two changes. -/
def firstHalf : ChangeV1 := ⟨1, .full 1 [cell 1 0] ⟨0, 0⟩ 1 5⟩

/-- The whole version. -/
def whole : ChangeV1 := ⟨1, .full 1 [cell 1 0, cell 1 1] ⟨0, 1⟩ 1 5⟩

/-- The second half. -/
def secondHalf : ChangeV1 := ⟨1, .full 1 [cell 1 1] ⟨1, 1⟩ 1 5⟩

def freshNode : Node Lww.engine := ⟨⟨Lww.empty, ∅, ∅⟩, ∅⟩

/-- Two chunks of one version are both remembered. -/
theorem halves_not_forgotten : (∀ change ∈ [firstHalf, secondHalf], change.validate = .ok ()) ∧
      NothingForgotten freshNode.bookie [firstHalf, secondHalf] := by
  have valid : ∀ change ∈ [firstHalf, secondHalf], change.validate = .ok () := by decide
  refine ⟨valid, (accepted_changes_known_iff .none freshNode _ _ _ valid (fun _ _ => rfl) rfl).mp ?_⟩
  decide

/-- A chunk and then the whole version, in one list: the batch commits and the
whole version is not remembered. -/
theorem whole_after_chunk_forgotten : (∀ change ∈ [firstHalf, whole], change.validate = .ok ()) ∧
    (∃ outcome, (processMultipleChanges .none freshNode [firstHalf, whole]).2 = .ok outcome) ∧
    ((processMultipleChanges .none freshNode [firstHalf, whole]).1.bookie.ensure 1).containsAll
      whole.versions whole.seqs = false := by
  refine ⟨by decide, ⟨_, rfl⟩, by decide⟩

end Galvanize.AcceptedChanges
