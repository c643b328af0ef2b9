import Galvanize.EmptyReplies
import Galvanize.ReplyContents

/-! Whether the answer to a need is complete: a version the server has whole is
declared empty or sent up to its last seq with every row, and of a version it
holds in part exactly the recorded seqs are sent. Buffered rows decide between
the two kinds of answer, whether they are still there or not yet there. -/
namespace Galvanize.ReplyCompleteness
open BookedVersions BookieProofs EmptyReplies ReplyContents RestartRecovery ServeProofs SyncNeedProofs List
open AcceptedChanges (freshNode cell whole firstHalf)

variable {engine : CrSqlite} {node : Node engine} {db : Database engine} {actor : ActorId}
  {version seq : Nat} {need : SyncNeedV1} {env : ServeEnv} {after : Serving}

/-! ### What is covered and carried -/

theorem mem_clamp : seq ∈ clamp a b ↔ seq ∈ a ∧ seq ∈ b := by
  simp only [clamp, RangeInclusive.mem_def]
  omega

/-- Every row that shares a seq with the range satisfies the four-way condition. -/
theorem seqRowMatches_of_mem {range : CrsqlSeqRange} (inRange : seq ∈ range)
    (inRow : seq ∈ row.range) : seqRowMatches row range = true := by
  simp only [RangeInclusive.mem_def, SeqRow.range] at inRange inRow
  simp only [seqRowMatches, Bool.or_eq_true, Bool.and_eq_true, decide_eq_true_eq]
  omega

theorem asksFor_mentions (asks : AsksFor need version seq) : Mentions need version := by
  cases need with
  | full _ => exact asksFor_full.mp asks
  | partialVersion _ _ => exact (asksFor_partialVersion.mp asks).1
  | empty ts =>
    obtain ⟨_, listed, _⟩ := asks
    cases listed

/-- The chunks cover the seqs asked for that the database has: up to the greatest stored
seq for a `Full` need, and whatever was recorded when rows are only buffered. -/
theorem needTells_covered : NeedTells db actor need (.covered version seq) ↔ AsksFor need version seq ∧
    ((db.storedRows actor version ≠ [] ∧ ∀ versions, need = .full versions →
        ∀ last, (versionInfo (db.storedRows actor version)).1 = some last → seq ≤ last) ∨
      (db.storedRows actor version = [] ∧ db.isBuffered actor version = true ∧
        ∃ row ∈ db.seqRows actor version, seq ∈ row.range)) := by
  cases need with
  | empty ts => simp [NeedTells, AsksFor, requests]
  | full versions =>
    simp only [NeedTells, FullTells, Tells, asksFor_full]
    constructor
    · rintro (⟨own, asked, last, ts, isInfo, rfl, _, below⟩ | ⟨own, asked, none_, buffered, row, listed, rfl, inside⟩)
      · obtain ⟨⟨row, listed, _⟩, _⟩ := @versionInfo_last _ last (by rw [isInfo])
        refine ⟨asked, .inl ⟨ne_nil_of_mem listed, fun _ _ given isGiven => ?_⟩⟩
        rw [isInfo] at isGiven
        cases isGiven
        exact below
      · exact ⟨asked, .inr ⟨none_, buffered, row, listed, inside⟩⟩
    · rintro ⟨asked, ⟨some_, bound⟩ | ⟨none_, buffered, row, listed, inside⟩⟩
      · obtain ⟨last, ts, isInfo⟩ := versionInfo_some some_
        exact .inl ⟨version, asked, last, ts, isInfo, rfl, Nat.zero_le _, bound versions rfl last (by rw [isInfo])⟩
      · exact .inr ⟨version, asked, none_, buffered, row, listed, rfl, inside⟩
  | partialVersion own _ =>
    simp only [NeedTells, PartialTells, Tells, asksFor_partialVersion, mem_clamp, reduceCtorEq, false_imp_iff,
      implies_true, and_true]
    constructor
    · rintro (⟨some_, range, listed, rfl, inside⟩ | ⟨none_, buffered, range, listed, row, held, _, rfl,
        inside, recorded⟩)
      · exact ⟨⟨rfl, range, listed, inside⟩, .inl some_⟩
      · exact ⟨⟨rfl, range, listed, inside⟩, .inr ⟨none_, buffered, row, held, recorded⟩⟩
    · rintro ⟨⟨rfl, range, listed, inside⟩, some_ | ⟨none_, buffered, row, held, recorded⟩⟩
      · exact .inl ⟨some_, range, listed, rfl, inside⟩
      · exact .inr ⟨none_, buffered, range, listed, row, held, seqRowMatches_of_mem inside recorded, rfl,
          inside, recorded⟩

theorem needTells_stored (listed : row ∈ db.storedRows actor version)
    (asks : AsksFor need version row.change.seq) : NeedTells db actor need (.carried row.change) := by
  cases need with
  | empty ts =>
    obtain ⟨_, held, _⟩ := asks
    cases held
  | full _ =>
    obtain ⟨last, ts, isInfo⟩ := versionInfo_some (ne_nil_of_mem listed)
    exact .inl ⟨version, asksFor_full.mp asks, last, ts, isInfo, mem_map_of_mem listed⟩
  | partialVersion _ _ =>
    obtain ⟨rfl, range, held, inside⟩ := asksFor_partialVersion.mp asks
    exact .inl ⟨ne_nil_of_mem listed, range, held, mem_map_of_mem (mem_seqsBetween.mpr ⟨listed, inside⟩)⟩

theorem needTells_buffered (none_ : db.storedRows actor version = [])
    (listed : row ∈ db.bufferedRows actor version) (held : seqRow ∈ db.seqRows actor version)
    (recorded : row.change.seq ∈ seqRow.range) (asks : AsksFor need version row.change.seq) :
    NeedTells db actor need (.carried row.change) := by
  have buffered : db.isBuffered actor version = true := by
    simpa [Database.isBuffered] using ne_nil_of_mem listed
  cases need with
  | empty ts =>
    obtain ⟨_, listed, _⟩ := asks
    cases listed
  | full _ =>
    exact .inr ⟨version, asksFor_full.mp asks, none_, buffered, seqRow, held,
      mem_map_of_mem (mem_seqsBetween.mpr ⟨listed, recorded⟩)⟩
  | partialVersion _ _ =>
    obtain ⟨rfl, range, isRange, inside⟩ := asksFor_partialVersion.mp asks
    exact .inr ⟨none_, buffered, range, isRange, seqRow, held, seqRowMatches_of_mem inside recorded,
      mem_map_of_mem (mem_seqsBetween.mpr ⟨listed, mem_clamp.mpr ⟨inside, recorded⟩⟩)⟩

/-! ### Complete answers -/

/-- The last seq of a version as the server knows it: recorded with the chunks, or the
greatest seq that is stored. -/
def lastSeqOf (node : Node engine) (actor : ActorId) (version : Nat) : Option Nat :=
  match (node.bookie.ensure actor).partials[version]? with
  | some held => some held.lastSeq
  | none => (versionInfo (node.db.storedRows actor version)).1

/-- The rows the server has of a version. -/
def heldRows (node : Node engine) (actor : ActorId) (version : Nat) : List StoredChange :=
  match (node.bookie.ensure actor).partials[version]? with
  | some _ => node.db.bufferedRows actor version
  | none => node.db.storedRows actor version

/-- The messages answer all of the need that the server could answer. -/
structure CompleteReply (node : Node engine) (actor : ActorId) (need : SyncNeedV1) (sent : List ChangeV1) :
    Prop where
  whole : ∀ version, Mentions need version → FullyHas (node.bookie.ensure actor) version →
    DeclaresEmpty sent actor version ∨
      (∀ seq, AsksFor need version seq → (∀ last, lastSeqOf node actor version = some last → seq ≤ last) →
        Shows actor sent (.covered version seq)) ∧
      ∀ row ∈ heldRows node actor version, AsksFor need version row.change.seq →
        Shows actor sent (.carried row.change)
  part : ∀ version held, Mentions need version → (node.bookie.ensure actor).partials[version]? = some held →
    held.isComplete = false → ∀ seq, Shows actor sent (.covered version seq) ↔
      AsksFor need version seq ∧ seq ∈ held.seqs

/-- The buffered rows are where the answer expects them: none is left of a version that
has become empty, and a version held in part has one. -/
structure Answerable (node : Node engine) (actor : ActorId) (need : SyncNeedV1) : Prop where
  noLeftovers : ∀ version seq, AsksFor need version seq → FullyHas (node.bookie.ensure actor) version →
    (node.bookie.ensure actor).partials[version]? = none → node.db.storedRows actor version = [] →
      node.db.isBuffered actor version = false
  rowed : ∀ version held seq, AsksFor need version seq →
    (node.bookie.ensure actor).partials[version]? = some held → held.isComplete = false → seq ∈ held.seqs →
      node.db.isBuffered actor version = true

theorem mem_of_complete {held : PartialVersion} (complete : held.isComplete = true) (low : seq ≤ held.lastSeq) :
    seq ∈ held.seqs := by
  by_contra missing
  have gap : seq ∈ held.seqs.gaps held.fullRange := RangeInclusiveSet.mem_gaps.mpr ⟨⟨Nat.zero_le _, low⟩, missing⟩
  obtain ⟨r, listed, _⟩ := gap
  rw [PartialVersion.isComplete, RangeInclusiveSet.isEmpty, List.isEmpty_iff] at complete
  rw [complete] at listed
  cases listed

/-- A seq is in a seq row exactly when it is recorded. -/
theorem recorded_iff (consistent : Consistent node) : (∃ row ∈ node.db.seqRows actor version, seq ∈ row.range) ↔
    ∃ held, (node.bookie.ensure actor).partials[version]? = some held ∧ seq ∈ held.seqs := by
  constructor
  · rintro ⟨row, listed, inside⟩
    obtain ⟨held, is, stored⟩ := consistent.seqRow_iff.mp ⟨row, listed, rfl⟩
    exact ⟨held, is, row.range, stored, inside⟩
  · rintro ⟨held, is, r, stored, inside⟩
    obtain ⟨row, listed, rfl⟩ := consistent.seqRow_iff.mpr ⟨held, is, stored⟩
    exact ⟨row, listed, inside⟩

theorem sane_of_consistent (consistent : Consistent node) : Sane node.db actor where
  distinct := fun _ => versionRows_distinct consistent.distinct
  below := by
    intro _ row listed stored buffered
    obtain ⟨held, is, _⟩ := consistent.seqRow_iff.mp ⟨row, listed, rfl⟩
    obtain ⟨isRow, rfl, rfl⟩ := mem_seqRows.mp listed
    obtain ⟨isStored, site, sameVersion⟩ := mem_versionRows.mp buffered
    have recorded := consistent.buffered stored isStored held (by rw [site, sameVersion, is]; rfl)
    obtain ⟨other, isOther, inside⟩ := (recorded_iff consistent).mpr ⟨held, is, recorded⟩
    obtain ⟨otherStored, otherSite, otherVersion⟩ := mem_seqRows.mp isOther
    calc stored.change.seq ≤ other.endSeq := inside.2
      _ ≤ other.lastSeq := consistent.bounded other otherStored
      _ = held.lastSeq := consistent.lastSeqs other otherStored held (by rw [otherSite, otherVersion, is])
      _ = row.lastSeq := (consistent.lastSeqs row isRow held is).symm

/-- What an answer declares or covers, on a consistent server. -/
structure Answers (node : Node engine) (actor : ActorId) (need : SyncNeedV1) (sent : List ChangeV1) : Prop where
  declares : ∀ version, DeclaresEmpty sent actor version ↔ Mentions need version ∧
    node.db.storedRows actor version = [] ∧ Untracked node.db actor version
  tells : ∀ fact, Shows actor sent fact ↔ NeedTells node.db actor need fact

variable {sent : List ChangeV1}

section
variable (consistent : Consistent node) (answers : Answers node actor need sent)
include consistent answers

/-- A version the server has whole and has stored rows of is sent. -/
theorem whole_of_stored (some_ : node.db.storedRows actor version ≠ []) :
    (∀ seq, AsksFor need version seq → (∀ last, lastSeqOf node actor version = some last → seq ≤ last) →
      Shows actor sent (.covered version seq)) ∧
    ∀ row ∈ heldRows node actor version, AsksFor need version row.change.seq →
      Shows actor sent (.carried row.change) := by
  have notPartial := (consistent.of_stored some_).2.2
  simp only [lastSeqOf, heldRows, notPartial, answers.tells]
  refine ⟨fun seq asks bound => needTells_covered.mpr ⟨asks, .inl ⟨some_, fun _ _ => bound⟩⟩, fun row listed asks => ?_⟩
  exact needTells_stored listed asks

/-- A version of which all chunks have come, but that has not been applied. -/
theorem whole_of_buffered
    {held : PartialVersion} (is : (node.bookie.ensure actor).partials[version]? = some held)
    (complete : held.isComplete = true) (buffered : node.db.isBuffered actor version = true) :
    (∀ seq, AsksFor need version seq → (∀ last, lastSeqOf node actor version = some last → seq ≤ last) →
      Shows actor sent (.covered version seq)) ∧
    ∀ row ∈ heldRows node actor version, AsksFor need version row.change.seq →
      Shows actor sent (.carried row.change) := by
  have none_ : node.db.storedRows actor version = [] := by
    by_contra some_
    rw [(consistent.of_stored some_).2.2] at is
    cases is
  simp only [lastSeqOf, heldRows, is, answers.tells]
  refine ⟨fun seq asks bound => ?_, fun row listed asks => ?_⟩
  · have recorded := mem_of_complete complete (bound _ rfl)
    exact needTells_covered.mpr ⟨asks, .inr ⟨none_, buffered, (recorded_iff consistent).mpr ⟨held, is, recorded⟩⟩⟩
  · obtain ⟨isStored, rfl, rfl⟩ := mem_versionRows.mp listed
    have recorded := consistent.buffered row isStored held is
    obtain ⟨_, isRow, inside⟩ := (recorded_iff consistent).mpr ⟨held, is, recorded⟩
    exact needTells_buffered none_ listed isRow inside asks

theorem completeReply_of_answerable (answerable : Answerable node actor need) : CompleteReply node actor need sent where
  whole := by
    rintro version mentioned ⟨contains, complete⟩
    have noGap := Bool.eq_false_iff.mpr fun inGaps =>
      (containsVersion_iff.mp contains).1 (consistent.inGaps_iff.mp inGaps)
    by_cases stored : node.db.storedRows actor version = []
    · cases buffered : node.db.isBuffered actor version with
      | false => exact .inl ((answers.declares version).mpr ⟨mentioned, stored, buffered, noGap⟩)
      | true =>
        cases is : (node.bookie.ensure actor).partials[version]? with
        | some held => exact .inr (whole_of_buffered consistent answers is (complete held is) buffered)
        | none =>
          -- a leftover: allowed only if no seq of the version is asked for
          have unasked : ∀ seq, ¬ AsksFor need version seq := fun seq asks => by
            rw [answerable.noLeftovers version seq asks ⟨contains, complete⟩ is stored] at buffered
            cases buffered
          exact .inr ⟨fun seq asks => absurd asks (unasked seq), fun row _ asks => absurd asks (unasked _)⟩
    · exact .inr (whole_of_stored consistent answers stored)
  part := by
    intro version held mentioned is incomplete seq
    have none_ : node.db.storedRows actor version = [] := by
      by_contra some_
      rw [(consistent.of_stored some_).2.2] at is
      cases is
    rw [answers.tells, needTells_covered, recorded_iff consistent]
    simp only [none_, ne_eq, not_true_eq_false, false_and, false_or, true_and, is, Option.some.injEq, exists_eq_left']
    refine and_congr_right fun asks => ⟨fun both => both.2, fun recorded => ⟨?_, recorded⟩⟩
    exact answerable.rowed version held seq asks is incomplete recorded

theorem answerable_of_completeReply (complete : CompleteReply node actor need sent) : Answerable node actor need where
  noLeftovers := by
    intro version seq asks has notPartial none_
    rcases complete.whole version (asksFor_mentions asks) has with declared | ⟨covered, _⟩
    · exact ((answers.declares version).mp declared).2.2.1
    · have shown := covered seq asks (by simp [lastSeqOf, notPartial, none_, versionInfo])
      rw [answers.tells, needTells_covered, recorded_iff consistent] at shown
      simp [none_, notPartial] at shown
  rowed := by
    intro version held seq asks is incomplete recorded
    have shown := (complete.part version held (asksFor_mentions asks) is incomplete seq).mpr ⟨asks, recorded⟩
    rw [answers.tells, needTells_covered] at shown
    rcases shown.2 with ⟨some_, _⟩ | ⟨_, buffered, _⟩
    · rw [(consistent.of_stored some_).2.2] at is
      cases is
    · exact buffered

end

/-- **Complete replies.** A call of `handle_need` that ends well, on a consistent server and
with every row read, answers all that the server has of the need exactly when the
buffered rows are where it looks for them. -/
theorem reply_complete_iff (engine : CrSqlite) (node : Node engine) (consistent : Consistent node)
    (actor : ActorId) (need : SyncNeedV1) (env : ServeEnv) (readable : Readable env) (after : Serving)
    (ok : handleNeed env node.db actor need = .ok after) :
    CompleteReply node actor need after.sent ↔ Answerable node actor need := by
  have answers : Answers node actor need after.sent :=
    ⟨fun _ => handleNeed_declares_iff ok, handleNeed_shows readable (sane_of_consistent consistent) ok⟩
  exact ⟨answerable_of_completeReply consistent answers, completeReply_of_answerable consistent answers⟩

/-- Asked for the one version it has, the server sends it. -/
theorem reply_complete_for_held_version :
    ∃ after, handleNeed .calm (runBatches freshNode oneVersion).db 1 (.full ⟨1, 1⟩) = .ok after ∧
      CompleteReply (runBatches freshNode oneVersion) 1 (.full ⟨1, 1⟩) after.sent := by
  refine ⟨_, rfl, ?_⟩
  refine (reply_complete_iff Lww.engine _ consistent_oneVersion 1 (.full ⟨1, 1⟩) .calm (fun _ _ => nofun) _ rfl).mpr ?_
  have notBuffered : ∀ version, (runBatches freshNode oneVersion).db.isBuffered 1 version = false :=
    fun _ => rfl
  have noPartials : ((runBatches freshNode oneVersion).bookie.ensure 1).partials = ∅ := by decide
  refine ⟨fun version _ _ _ _ _ => notBuffered version, fun version held _ _ is => ?_⟩
  rw [noPartials] at is
  simp at is

/-- Version 1 comes in part, then whole, and version 2 overwrites what it wrote. The
buffered row of the first chunk is still there. -/
def overwritten : List (Faults × List ChangeV1) :=
  [(.none, [firstHalf]), (.none, [whole]),
    (.none, [⟨1, .full 2 [{ cell 2 0 with colVersion := 2 }] ⟨0, 0⟩ 0 6⟩])]

theorem consistent_overwritten : Consistent (runBatches freshNode overwritten) :=
  consistent_of_recoverable (recoverable_run Lww.tracksVersions (recoverable_fresh rfl)
    ⟨by decide, by decide, by decide, trivial⟩) (by decide) (by decide) (by decide) (by decide)

/-- The first row of the first version cannot be read. -/
def unreadableRow : ServeEnv :=
  { ServeEnv.calm with statement := fun count => if count = 2 then some (.unreadable 0) else none }

/-- Silence is no answer to a need for a version the server has. -/
theorem silence_incomplete (asks : AsksFor need version 0)
    (contains : (node.bookie.ensure actor).containsVersion version = true)
    (notPartial : (node.bookie.ensure actor).partials[version]? = none) : ¬ CompleteReply node actor need [] := by
  intro complete
  have has : FullyHas (node.bookie.ensure actor) version := ⟨contains, fun held is => by
    rw [notPartial] at is
    cases is⟩
  rcases complete.whole version (asksFor_mentions asks) has with ⟨_, listed, _⟩ | ⟨covered, _⟩
  · cases listed
  · obtain ⟨_, listed, _⟩ := covered 0 asks fun _ _ => Nat.zero_le _
    cases listed

/-- Three consistent servers, each asked for version 1, end well without a complete answer:
one holds the version in part and has no row of it, one has it whole but a buffered
row is left, and one could not read a row. -/
theorem incomplete_replies : (∃ after, Consistent (runBatches freshNode rowlessChunk) ∧
      passesFilter (runBatches freshNode rowlessChunk).bookie 1 (.full ⟨1, 1⟩) = true ∧
      handleNeed .calm (runBatches freshNode rowlessChunk).db 1 (.full ⟨1, 1⟩) = .ok after ∧
      ¬ CompleteReply (runBatches freshNode rowlessChunk) 1 (.full ⟨1, 1⟩) after.sent) ∧
    (∃ after, Consistent (runBatches freshNode overwritten) ∧
      passesFilter (runBatches freshNode overwritten).bookie 1 (.full ⟨1, 1⟩) = true ∧
      handleNeed .calm (runBatches freshNode overwritten).db 1 (.full ⟨1, 1⟩) = .ok after ∧
      ¬ CompleteReply (runBatches freshNode overwritten) 1 (.full ⟨1, 1⟩) after.sent) ∧
    (∃ after, Consistent (runBatches freshNode oneVersion) ∧
      passesFilter (runBatches freshNode oneVersion).bookie 1 (.full ⟨1, 1⟩) = true ∧
      handleNeed unreadableRow (runBatches freshNode oneVersion).db 1 (.full ⟨1, 1⟩) = .ok after ∧
      ¬ CompleteReply (runBatches freshNode oneVersion) 1 (.full ⟨1, 1⟩) after.sent) := by
  have asks : AsksFor (.full ⟨1, 1⟩) 1 0 := asksFor_full.mpr ⟨le_rfl, le_rfl⟩
  refine ⟨⟨_, consistent_rowlessChunk, by decide, rfl, fun complete => ?_⟩,
    ⟨_, consistent_overwritten, by decide, rfl, ?_⟩, ⟨_, consistent_oneVersion, by decide, rfl, ?_⟩⟩
  · have covered := (complete.part 1 ⟨.ofRanges [⟨0, 0⟩], 1, 5⟩ ⟨le_rfl, le_rfl⟩ (by decide) (by decide) 0).mpr
      ⟨asks, by decide⟩
    have noChunk : ∀ message ∈ (final (handleNeed .calm (runBatches freshNode rowlessChunk).db 1
        (.full ⟨1, 1⟩))).sent, message.seqs = none := by decide
    obtain ⟨message, listed, _, _, seqs, isSeqs, _⟩ := covered
    rw [noChunk message listed] at isSeqs
    cases isSeqs
  · exact silence_incomplete asks (by decide) (by decide)
  · exact silence_incomplete asks (by decide) (by decide)

end Galvanize.ReplyCompleteness
