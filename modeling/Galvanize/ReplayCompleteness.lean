import Galvanize.Exportability
import Galvanize.Replay

/-! What a completed replay has published. Workers go through the journal behind
a cursor: all that the job is to replay up to the cursor has been published, and
this stays so through crashes, lost updates and several workers at once. A read
that fails breaks it, since the worker takes it for the end of the journal, and so
does a row whose time column is not the time of its event. -/
namespace Galvanize.HighLow
open List

variable {codec : Codec} {parse : String → Except Error Int} {low : LowConfig} {journal later : List JournalRow}
  {node : ReplayNode} {job : ReplayJob} {events : List Event}

/-! ### The journal -/

/-- The rows of the stream have positive numbers, those of their events, and each
number has one event. -/
structure Recorded (low : LowConfig) (journal : List JournalRow) : Prop where
  positive : ∀ row ∈ journal, row.streamId = low.streamId → 0 < row.sequence
  numbered : ∀ row ∈ journal, row.streamId = low.streamId → row.event.sequence = row.sequence
  unique : ∀ row ∈ journal, ∀ other ∈ journal, row.streamId = low.streamId → other.streamId = low.streamId →
    row.sequence = other.sequence → row.event = other.event

/-- Two rows are one but for the mark of the export. -/
structure SameRow (row other : JournalRow) : Prop where
  streamId : other.streamId = row.streamId
  sequence : other.sequence = row.sequence
  event : other.event = row.event

theorem SameRow.refl (row : JournalRow) : SameRow row row := ⟨rfl, rfl, rfl⟩

theorem SameRow.trans {row other last : JournalRow} (first : SameRow row other) (second : SameRow other last) :
    SameRow row last :=
  ⟨second.streamId.trans first.streamId, second.sequence.trans first.sequence, second.event.trans first.event⟩

/-- The later journal has all rows of the earlier one, and new rows of the stream
after its last number only. -/
structure Extends (low : LowConfig) (journal later : List JournalRow) : Prop where
  kept : ∀ row ∈ journal, ∃ next ∈ later, SameRow row next
  new : ∀ next ∈ later, (∃ row ∈ journal, SameRow row next) ∨
    (next.streamId = low.streamId ∧ next.event.sequence = next.sequence ∧
      lastSequence low.streamId journal < next.sequence)
  last : lastSequence low.streamId journal ≤ lastSequence low.streamId later

theorem le_largest (member : number ∈ numbers) : ∃ top, largest numbers = some top ∧ number ≤ top := by
  induction numbers with
  | nil => cases member
  | cons _ rest ih =>
    rw [largest]
    rcases mem_cons.mp member with rfl | later
    · cases largest rest with
      | none => exact ⟨number, rfl, Int.le_refl number⟩
      | some _ =>
        refine ⟨_, rfl, ?_⟩
        split <;> omega
    · obtain ⟨top, isTop, _⟩ := ih later
      rw [isTop]
      refine ⟨_, rfl, ?_⟩
      split <;> omega

theorem mem_of_largest (isTop : largest numbers = some top) : top ∈ numbers := by
  induction numbers generalizing top with
  | nil => cases isTop
  | cons _ rest ih =>
    rw [largest] at isTop
    cases found : largest rest with
    | none =>
      rw [found] at isTop
      cases isTop
      exact mem_cons_self
    | some _ =>
      rw [found] at isTop
      simp only [Option.some.injEq] at isTop
      split at isTop
      · exact isTop ▸ mem_cons_self
      · exact mem_cons_of_mem _ (isTop ▸ ih found)

theorem le_lastSequence (member : row ∈ journal) (own : row.streamId = low.streamId) :
    row.sequence ≤ lastSequence low.streamId journal := by
  have listed : row.sequence ∈ (journal.filter fun row => row.streamId = low.streamId).map JournalRow.sequence :=
    mem_map.mpr ⟨row, mem_filter.mpr ⟨member, by simpa using own⟩, rfl⟩
  obtain ⟨top, isTop, below⟩ := le_largest listed
  rw [lastSequence, isTop]
  exact below

theorem Recorded.lastSequence_nonneg (recorded : Recorded low journal) : 0 ≤ lastSequence low.streamId journal := by
  rw [lastSequence]
  cases found : largest ((journal.filter fun row => row.streamId = low.streamId).map JournalRow.sequence) with
  | none => exact Int.le_refl 0
  | some _ =>
    obtain ⟨row, kept, rfl⟩ := mem_map.mp (mem_of_largest found)
    obtain ⟨member, own⟩ := mem_filter.mp kept
    have := recorded.positive row member (by simpa using own)
    simp only [Option.getD_some]
    omega

/-- What extends a journal is recorded as it was. -/
theorem Recorded.extends (recorded : Recorded low journal) (extended : Extends low journal later)
    (distinct : ∀ next ∈ later, ∀ other ∈ later, next.streamId = low.streamId → other.streamId = low.streamId →
      lastSequence low.streamId journal < next.sequence → next.sequence = other.sequence → next.event = other.event) :
    Recorded low later where
  positive := by
    intro next member own
    rcases extended.new next member with ⟨row, old, same⟩ | ⟨-, -, above⟩
    · rw [same.sequence]
      exact recorded.positive row old (same.streamId ▸ own)
    · have := recorded.lastSequence_nonneg
      omega
  numbered := by
    intro next member own
    rcases extended.new next member with ⟨row, old, same⟩ | ⟨-, number, -⟩
    · rw [same.event, same.sequence]
      exact recorded.numbered row old (same.streamId ▸ own)
    · exact number
  unique := by
    intro next member other otherMember own otherOwn number
    rcases extended.new next member with ⟨row, old, same⟩ | ⟨-, -, above⟩
    · rcases extended.new other otherMember with ⟨otherRow, otherOld, otherSame⟩ | ⟨-, -, above⟩
      · rw [same.event, otherSame.event]
        apply recorded.unique row old otherRow otherOld (same.streamId ▸ own) (otherSame.streamId ▸ otherOwn)
        rw [← same.sequence, ← otherSame.sequence, number]
      · exact (distinct other otherMember next member otherOwn own above number.symm).symm
    · exact distinct next member other otherMember own otherOwn above number

theorem extends_outcome (transaction : LowTransaction) :
    Extends low journal (transaction.outcome codec low journal).journal := by
  obtain ⟨_, grown⟩ := @outcome_journal codec low journal transaction
  rw [grown]
  refine ⟨fun row member => ⟨row, mem_append_left _ member, .refl row⟩, ?_, ?_⟩
  · intro next member
    rcases mem_append.mp member with old | new
    · exact .inl ⟨next, old, .refl next⟩
    · obtain ⟨i, found⟩ := mem_iff_getElem?.mp new
      obtain ⟨own, number, -, same, -⟩ := getElem?_journalRows found
      exact .inr ⟨own, same.trans number.symm, by omega⟩
  · rw [lastSequence_journalRows]
    omega

theorem Recorded.outcome (recorded : Recorded low journal) (transaction : LowTransaction) :
    Recorded low (transaction.outcome codec low journal).journal := by
  apply recorded.extends (extends_outcome transaction)
  obtain ⟨taken, grown⟩ := @outcome_journal codec low journal transaction
  rw [grown]
  intro _ member _ otherMember own otherOwn above number
  have new {row : JournalRow}
    (listed : row ∈ journal ++ journalRows codec low (lastSequence low.streamId journal) taken)
      (mine : row.streamId = low.streamId) (high : lastSequence low.streamId journal < row.sequence) :
      row ∈ journalRows codec low (lastSequence low.streamId journal) taken := by
    rcases mem_append.mp listed with old | new
    · have := le_lastSequence old mine
      omega
    · exact new
  obtain ⟨i, found⟩ := mem_iff_getElem?.mp (new member own above)
  obtain ⟨j, otherFound⟩ := mem_iff_getElem?.mp (new otherMember otherOwn (number ▸ above))
  obtain ⟨-, _, -⟩ := getElem?_journalRows found
  obtain ⟨-, _, -⟩ := getElem?_journalRows otherFound
  have position : i = j := by omega
  subst position
  rw [found] at otherFound
  rw [Option.some.inj otherFound]

theorem lastSequence_marked (sent : OutboxRow) :
    lastSequence low.streamId (journal.map (JournalRow.markExported sent)) = lastSequence low.streamId journal := by
  have same : (journal.map (JournalRow.markExported sent)).filter (fun row => row.streamId = low.streamId) =
      (journal.filter fun row => row.streamId = low.streamId).map (JournalRow.markExported sent) := by
    rw [filter_map]
    congr 2
    funext row
    simp [markExported_fields sent row]
  rw [lastSequence, lastSequence, same, map_map]
  congr 3
  funext row
  exact (markExported_fields sent row).2.1

theorem sameRow_marked (sent : OutboxRow) (row : JournalRow) : SameRow row (row.markExported sent) :=
  ⟨(markExported_fields sent row).1, (markExported_fields sent row).2.1, (markExported_fields sent row).2.2⟩

theorem extends_marked (sent : OutboxRow) : Extends low journal (journal.map (JournalRow.markExported sent)) where
  kept := fun row member => ⟨_, List.mem_map_of_mem member, sameRow_marked sent row⟩
  new := by
    intro _ member
    obtain ⟨row, old, rfl⟩ := List.mem_map.mp member
    exact .inl ⟨row, old, sameRow_marked sent row⟩
  last := Int.le_of_eq (lastSequence_marked sent).symm

theorem Recorded.marked (recorded : Recorded low journal) (sent : OutboxRow) :
    Recorded low (journal.map (JournalRow.markExported sent)) := by
  apply recorded.extends (extends_marked sent)
  intro _ member _ _ own _ above
  obtain ⟨row, old, rfl⟩ := mem_map.mp member
  have same := sameRow_marked sent row
  have := le_lastSequence old (same.streamId ▸ own)
  rw [same.sequence] at above
  omega

/-! ### What a job is to replay, and what has been published -/

/-- The commit time of the row is at or after `since`, if the job has one. -/
def ReplayJob.admits (parse : String → Except Error Int) (job : ReplayJob) (row : JournalRow) : Prop :=
  match job.sinceUtc with
  | none => True
  | some text => ∃ since, parse text = .ok since ∧ since ≤ row.event.committedAtMs

/-- The query of the job admits the row, by its column. -/
def ReplayJob.selects (parse : String → Except Error Int) (job : ReplayJob) (row : JournalRow) : Prop :=
  match job.sinceUtc with
  | none => True
  | some text => ∃ since, parse text = .ok since ∧ since ≤ row.committedAtMs

/-- The job is to replay the row. -/
structure ReplayJob.Covers (parse : String → Except Error Int) (low : LowConfig) (job : ReplayJob) (row : JournalRow) :
    Prop where
  streamId : row.streamId = low.streamId
  within : row.sequence ≤ job.endSequence
  admitted : job.admits parse row

/-- A bundle of the job has the event of the row, as it is read from the journal. -/
def ReplayNode.Published (codec : Codec) (node : ReplayNode) (jobId : String) (row : JournalRow) : Prop :=
  ∃ bundle event, (jobId, bundle) ∈ node.published ∧ row.event.reread codec = .ok event ∧ event ∈ bundle.events

/-- All that the job is to replay up to a number has been published. -/
def ReplayNode.Through (codec : Codec) (parse : String → Except Error Int) (low : LowConfig) (node : ReplayNode)
    (job : ReplayJob) (bound : Int) : Prop :=
  ∀ row ∈ node.journal, job.Covers parse low row → row.sequence ≤ bound → node.Published codec job.jobId row

theorem covers_sameRow (same : SameRow row other) (covers : job.Covers parse low other) : job.Covers parse low row where
  streamId := same.streamId ▸ covers.streamId
  within := same.sequence ▸ covers.within
  admitted := by
    have admitted := covers.admitted
    rw [ReplayJob.admits, same.event] at admitted
    exact admitted

/-- The job in the hand of a worker: its bounds are those of the job in the table,
if that is still there. -/
structure ReplayNode.Holds (low : LowConfig) (node : ReplayNode) (job : ReplayJob) : Prop where
  behind : job.endSequence ≤ lastSequence low.streamId node.journal
  current : ∀ current ∈ node.jobs, current.jobId = job.jobId →
    current.sinceUtc = job.sinceUtc ∧ current.endSequence = job.endSequence

/-- The event in hand is of the stream, and no event of the job comes before it. -/
def ReplayNode.Next (codec : Codec) (parse : String → Except Error Int) (low : LowConfig) (node : ReplayNode)
    (job : ReplayJob) (events : List Event) : Prop :=
  ∃ row event, row ∈ node.journal ∧ row.streamId = low.streamId ∧ row.event.reread codec = .ok event ∧
    events = [event] ∧ ∀ other ∈ node.journal, job.Covers parse low other → job.cursorSequence < other.sequence →
      row.sequence ≤ other.sequence

/-- The job a worker has in hand. -/
def Worker.job? : Worker → Option ReplayJob
  | .reading | .done => none
  | .publishing job _ _ | .closing job | .advancing job _ | .failing job _ => some job

/-- What a worker may count on between two of its steps. -/
def ReplayNode.Progress (codec : Codec) (parse : String → Except Error Int) (low : LowConfig) (node : ReplayNode) :
    Worker → Prop
  | .reading | .done => True
  | .publishing job events _ =>
    node.Through codec parse low job job.cursorSequence ∧ node.Next codec parse low job events
  | .closing job => node.Through codec parse low job job.endSequence
  | .advancing job sequence => node.Through codec parse low job sequence
  | .failing job _ => node.Through codec parse low job job.cursorSequence

structure Replaying (codec : Codec) (parse : String → Except Error Int) (low : LowConfig) (node : ReplayNode) :
    Prop where
  recorded : Recorded low node.journal
  behind : ∀ job ∈ node.jobs, job.endSequence ≤ lastSequence low.streamId node.journal
  through : ∀ job ∈ node.jobs, node.Through codec parse low job job.cursorSequence
  finished : ∀ job ∈ node.jobs, job.state = .completed → job.cursorSequence = job.endSequence
  held : ∀ worker ∈ node.workers, ∀ job, worker.job? = some job → node.Holds low job
  progress : ∀ worker ∈ node.workers, node.Progress codec parse low worker

/-! ### More rows and more bundles -/

section Growth
variable {next : ReplayNode}

section
variable (extended : Extends low node.journal next.journal)
include extended

section
variable (behind : job.endSequence ≤ lastSequence low.streamId node.journal)
include behind

/-- Rows that come later are not the job's. -/
theorem covered_before (member : row ∈ next.journal)
    (covers : job.Covers parse low row) : ∃ old ∈ node.journal, SameRow old row := by
  rcases extended.new row member with old | ⟨-, -, above⟩
  · exact old
  · have := covers.within
    omega

theorem through_mono (more : ∀ entry ∈ node.published, entry ∈ next.published)
    (through : node.Through codec parse low job bound) : next.Through codec parse low job bound := by
  intro _ member covers small
  obtain ⟨old, held, same⟩ := covered_before extended behind member covers
  rw [same.sequence] at small
  have published := through old held (covers_sameRow same covers) small
  obtain ⟨bundle, event, listed, read, inside⟩ := published
  exact ⟨bundle, event, more _ listed, by rw [same.event, read], inside⟩

theorem next_mono (isNext : node.Next codec parse low job events) : next.Next codec parse low job events := by
  obtain ⟨row, event, member, own, read, same, first⟩ := isNext
  obtain ⟨kept, keptMember, sameRow⟩ := extended.kept row member
  refine ⟨kept, event, keptMember, sameRow.streamId.trans own, by rw [sameRow.event, read], same, ?_⟩
  intro _ otherMember otherCovers above
  obtain ⟨old, held, sameOld⟩ := covered_before extended behind otherMember otherCovers
  rw [sameOld.sequence] at above
  have least := first old held (covers_sameRow sameOld otherCovers) above
  rw [sameRow.sequence, sameOld.sequence]
  exact least

end

theorem holds_mono (jobs : next.jobs = node.jobs) (holds : node.Holds low job) : next.Holds low job where
  behind := Int.le_trans holds.behind extended.last
  current := by
    rw [jobs]
    exact holds.current

theorem progress_mono (more : ∀ entry ∈ node.published, entry ∈ next.published)
    (behind : ∀ job, worker.job? = some job → job.endSequence ≤ lastSequence low.streamId node.journal)
    (progress : node.Progress codec parse low worker) : next.Progress codec parse low worker := by
  cases worker with
  | reading => trivial
  | done => trivial
  | publishing job _ _ =>
    exact ⟨through_mono extended (behind job rfl) more progress.1, next_mono extended (behind job rfl) progress.2⟩
  | closing job | advancing job sequence
  | failing job _ => exact through_mono extended (behind job rfl) more progress

end

/-- A longer journal, more bundles and other workers do no harm. -/
theorem Replaying.grow (sound : Replaying codec parse low node) (recorded : Recorded low next.journal)
    (extended : Extends low node.journal next.journal) (more : ∀ entry ∈ node.published, entry ∈ next.published)
    (jobs : next.jobs = node.jobs) (workers : ∀ worker ∈ next.workers, worker ∈ node.workers ∨
      (next.Progress codec parse low worker ∧ ∀ job, worker.job? = some job → node.Holds low job)) :
    Replaying codec parse low next where
  recorded := recorded
  behind := by
    rw [jobs]
    exact fun job member => Int.le_trans (sound.behind job member) extended.last
  through := by
    rw [jobs]
    exact fun job member => through_mono extended (sound.behind job member) more (sound.through job member)
  finished := by
    rw [jobs]
    exact sound.finished
  held := by
    intro worker member job inHand
    apply holds_mono extended jobs
    rcases workers worker member with old | ⟨-, holds⟩
    · exact sound.held worker old job inHand
    · exact holds job inHand
  progress := by
    intro worker member
    rcases workers worker member with old | ⟨progress, -⟩
    · exact progress_mono extended more (fun job inHand => (sound.held worker old job inHand).behind)
        (sound.progress worker old)
    · exact progress

end Growth

/-! ### Steps -/

section Steps

/-- What a step may not run into: a read of events that fails, or that leaves out an
event of the job because of the column of its row, or a new job with the id of one
that a worker still has in hand. -/
def ReplayNode.Smooth (codec : Codec) (parse : String → Except Error Int) (low : LowConfig) (node : ReplayNode) :
    ReplayAction → Prop
  | .read _ _ readFails _ => ∀ job, latestReplayJob node.jobs = some job → job.state.active = true →
    (readFails = false ∧ ∃ events, replayEvents codec parse low.streamId node.journal job 1 = .ok events) ∧
    ∀ row ∈ node.journal, job.Covers parse low row → job.selects parse row
  | .request _ _ jobId _ => ∀ worker ∈ node.workers, ∀ job, worker.job? = some job → job.jobId ≠ jobId
  | _ => True

theorem extends_refl (low : LowConfig) (journal : List JournalRow) : Extends low journal journal :=
  ⟨fun row member => ⟨row, member, .refl row⟩, fun next member => .inl ⟨next, member, .refl next⟩, Int.le_refl _⟩

theorem replaying_request (sound : Replaying codec parse low node) (scope : ReplayScope) (sinceUtc : Option String)
    (jobId : String) (commits : Bool)
    (fresh : ∀ worker ∈ node.workers, ∀ job, worker.job? = some job → job.jobId ≠ jobId) :
    Replaying codec parse low (node.request low scope sinceUtc jobId commits) := by
  rw [ReplayNode.request]
  split
  case isFalse => exact sound
  case isTrue =>
    cases made : createReplayJob low.streamId jobId scope sinceUtc node.journal node.jobs with
    | error error => exact sound
    | ok jobs =>
      obtain ⟨-, created⟩ := unit_bind_ok.mp made
      cases created
      refine ⟨sound.recorded, ?_, ?_, ?_, ?_, ?_⟩
      · intro job member
        rw [mem_singleton.mp member]
      · -- nothing has a number up to zero
        intro job member row listed covers small
        rw [mem_singleton.mp member] at small
        have positive := sound.recorded.positive row listed covers.streamId
        change row.sequence ≤ 0 at small
        omega
      · intro job member completed
        rw [mem_singleton.mp member] at completed
        cases completed
      · intro worker member job inHand
        rcases mem_append.mp member with old | new
        · refine ⟨(sound.held worker old job inHand).behind, ?_⟩
          intro _ isNew same
          rw [mem_singleton.mp isNew] at same
          exact absurd same.symm (fresh worker old job inHand)
        · rw [mem_singleton.mp new] at inHand
          cases inHand
      · intro worker member
        rcases mem_append.mp member with old | new
        · exact progress_mono (extends_refl low _) (fun _ listed => listed)
            (fun job inHand => (sound.held worker old job inHand).behind) (sound.progress worker old)
        · rw [mem_singleton.mp new]
          trivial

/-- The first of the rows by number. -/
theorem take_one_sorted (rows : List JournalRow) :
    (rows.insertionSort fun row other => row.sequence ≤ other.sequence).take 1 = [] ∧ rows = [] ∨
      ∃ row ∈ rows, (rows.insertionSort fun row other => row.sequence ≤ other.sequence).take 1 = [row] ∧
        ∀ other ∈ rows, row.sequence ≤ other.sequence := by
  have sorted := pairwise_insertionSort (fun row other : JournalRow => row.sequence ≤ other.sequence) rows
  have same := perm_insertionSort (fun row other : JournalRow => row.sequence ≤ other.sequence) rows
  cases found : rows.insertionSort fun row other => row.sequence ≤ other.sequence with
  | nil =>
    rw [found] at same
    exact .inl ⟨rfl, nil_perm.mp same⟩
  | cons row _ =>
    rw [found] at same sorted
    refine .inr ⟨row, same.subset mem_cons_self, rfl, fun other member => ?_⟩
    rcases mem_cons.mp (same.symm.subset member) with rfl | later
    · exact Int.le_refl _
    · exact (pairwise_cons.mp sorted).1 other later

theorem selects_iff (since : sinceMs parse job = .ok sinceText) :
    (row.streamId = low.streamId && job.cursorSequence < row.sequence && row.sequence ≤ job.endSequence
      && sinceText.all fun since => since ≤ row.committedAtMs) = true ↔
      (row.streamId = low.streamId ∧ row.sequence ≤ job.endSequence ∧ job.selects parse row) ∧
        job.cursorSequence < row.sequence := by
  have selected : (sinceText.all fun since => decide (since ≤ row.committedAtMs)) = true ↔ job.selects parse row := by
    rw [ReplayJob.selects]
    rw [sinceMs] at since
    cases stated : job.sinceUtc with
    | none =>
      rw [stated] at since
      cases since
      simp
    | some _ =>
      rw [stated] at since
      obtain ⟨_, parsed, rfl⟩ := map_ok since
      simp [parsed]
  simp only [Bool.and_eq_true, decide_eq_true_eq, selected]
  constructor
  · rintro ⟨⟨⟨own, above⟩, within⟩, since⟩
    exact ⟨⟨own, within, since⟩, above⟩
  · rintro ⟨⟨own, within, since⟩, above⟩
    exact ⟨⟨⟨own, above⟩, within⟩, since⟩

/-- A read of one event that does not fail and leaves out none of the job: there is
none left, or it is the next one. -/
theorem replayEvents_one (read : replayEvents codec parse low.streamId node.journal job 1 = .ok events)
    (dated : ∀ row ∈ node.journal, job.Covers parse low row → job.selects parse row) :
    (events = [] ∧ ∀ row ∈ node.journal, job.Covers parse low row → row.sequence ≤ job.cursorSequence) ∨
      (events ≠ [] ∧ node.Next codec parse low job events) := by
  obtain ⟨-, read⟩ := unit_bind_ok.mp read
  obtain ⟨since, parsed, read⟩ := bind_ok read
  rw [replayRows] at read
  rcases take_one_sorted (node.journal.filter fun row => row.streamId =
    low.streamId && job.cursorSequence < row.sequence
      && row.sequence ≤ job.endSequence && since.all fun since => since ≤ row.committedAtMs) with
    ⟨none, empty⟩ | ⟨row, kept, one, first⟩
  · rw [none] at read
    cases read
    refine .inl ⟨rfl, fun row member covers => ?_⟩
    by_contra above
    have selected := (selects_iff parsed).mpr ⟨⟨covers.streamId, covers.within, dated row member covers⟩,
      Int.not_le.mp above⟩
    have listed : row ∈ ([] : List JournalRow) := by
      rw [← empty]
      exact mem_filter.mpr ⟨member, selected⟩
    cases listed
  · rw [one] at read
    obtain ⟨member, selected⟩ := mem_filter.mp kept
    cases mapM_ok_iff.mp read with
    | @cons _ event _ _ rowRead rest =>
      cases rest
      refine .inr ⟨cons_ne_nil _ _, row, event, member, ((selects_iff parsed).mp selected).1.1, rowRead, rfl, ?_⟩
      intro other otherMember covers above
      refine first other (mem_filter.mpr ⟨otherMember, (selects_iff parsed).mpr ⟨?_, above⟩⟩)
      exact ⟨covers.streamId, covers.within, dated other otherMember covers⟩

theorem jobs_eq (single : node.jobs.length ≤ 1) (member : job ∈ node.jobs)
    (isCurrent : current ∈ node.jobs) : current = job := by
  cases jobs : node.jobs with
  | nil =>
    rw [jobs] at member
    cases member
  | cons _ rest =>
    have none : rest = [] := by
      rw [jobs, length_cons] at single
      exact length_eq_zero_iff.mp (by omega)
    rw [jobs, none] at member isCurrent
    rw [mem_singleton.mp member, mem_singleton.mp isCurrent]

theorem replaying_read (sound : Replaying codec parse low node) (single : node.jobs.length ≤ 1) (worker : Nat)
    (connects readFails : Bool) (schemaHash : String)
    (smooth : node.Smooth codec parse low (.read worker connects readFails schemaHash)) : Replaying codec parse low
      { node with workers := node.workers.set worker (node.read codec parse low connects readFails schemaHash) } := by
  refine sound.grow ?_ ?_ (fun _ listed => listed) rfl ?_
  · exact sound.recorded
  · exact extends_refl low _
  intro _ member
  rcases mem_or_eq_of_mem_set member with old | rfl
  · exact .inl old
  right
  rw [ReplayNode.read]
  split
  case h_1 => exact ⟨trivial, fun _ inHand => by cases inHand⟩
  case h_2 job latest =>
    have isLatest : latestReplayJob node.jobs = some job := by
      split at latest
      · exact latest
      · cases latest
    have listed := mem_of_mem_head? isLatest
    have holds : node.Holds low job := by
      refine ⟨sound.behind job listed, fun current isCurrent _ => ?_⟩
      rw [jobs_eq single listed isCurrent]
      exact ⟨rfl, rfl⟩
    split
    case isFalse => exact ⟨trivial, fun _ inHand => by cases inHand⟩
    case isTrue active =>
      obtain ⟨⟨reads, _, read⟩, dated⟩ := smooth job isLatest active
      simp only [reads, Bool.false_eq_true, if_false, read, Except.toOption, Option.getD_some]
      rcases replayEvents_one read dated with ⟨rfl, none⟩ | ⟨some, isNext⟩
      · -- what is left of the job is behind its cursor
        refine ⟨?_, ?_⟩
        · intro row rowListed covers _
          exact sound.through job listed row rowListed covers (none row rowListed covers)
        · rintro held inHand
          cases inHand
          exact holds
      · have isSome := isEmpty_eq_false_iff.mpr some
        rw [isSome]
        refine ⟨⟨sound.through job listed, isNext⟩, ?_⟩
        rintro held inHand
        cases inHand
        exact holds

/-- What a worker publishes are the events it has in hand. -/
theorem publishReplay_cases {sealer : Sealer} {keyError : Option String} {uploadError : Option Error}
    {schemaHash bundleId : String} :
    (∃ error, publishReplay codec sealer keyError uploadError job events schemaHash bundleId =
      (.failing job error, [])) ∨
      ∃ bundle, publishReplay codec sealer keyError uploadError job events schemaHash bundleId =
        (.advancing job (eventSequence events), [(job.jobId, bundle)]) ∧ bundle.events = events := by
  rw [publishReplay, sealReplay]
  cases made : Bundle.new codec bundleId events schemaHash true with
  | error error => exact .inl ⟨_, rfl⟩
  | ok bundle =>
    cases keyError with
    | some error => exact .inl ⟨_, rfl⟩
    | none =>
      cases sealed : sealBundle codec sealer bundle (replayFilename job bundle) with
      | error error =>
        simp only [sealed]
        exact .inl ⟨_, rfl⟩
      | ok _ =>
        simp only [sealed]
        cases uploadError with
        | some error => exact .inl ⟨_, rfl⟩
        | none =>
          obtain ⟨-, -, -, -, -, -, rfl⟩ := sealBundle_iff.mp sealed
          exact .inr ⟨bundle, rfl, (Bundle.new_ok made).1⟩

theorem replaying_publish (sound : Replaying codec parse low node) (worker : Nat)
    (inHand : node.workers[worker]? = some (.publishing job events schemaHash)) (bundleId : String) (sealer : Sealer)
    (keyError : Option String) (uploadError : Option Error) : Replaying codec parse low { node with
      workers :=
        node.workers.set worker (publishReplay codec sealer keyError uploadError job events schemaHash bundleId).1
      published := node.published ++
        (publishReplay codec sealer keyError uploadError job events schemaHash bundleId).2 } := by
  have listed := List.mem_of_getElem? inHand
  obtain ⟨through, isNext⟩ := sound.progress _ listed
  have holds := sound.held _ listed job rfl
  refine sound.grow ?_ ?_ (fun entry held => List.mem_append_left _ held) rfl ?_
  · exact sound.recorded
  · exact extends_refl low _
  intro _ member
  rcases List.mem_or_eq_of_mem_set member with old | rfl
  · exact .inl old
  right
  rcases @publishReplay_cases codec job events sealer keyError uploadError schemaHash bundleId with
    ⟨error, made⟩ | ⟨bundle, made, same⟩
  · rw [made]
    refine ⟨?_, ?_⟩
    · refine through_mono ?_ holds.behind ?_ through
      · exact extends_refl low _
      · exact fun entry held => List.mem_append_left _ held
    · rintro held isHeld
      cases isHeld
      exact holds
  · rw [made]
    refine ⟨?_, ?_⟩
    · obtain ⟨row, event, rowListed, own, read, rfl, first⟩ := isNext
      have number : event.sequence = row.sequence := by
        rw [(Event.reread_ids read).2, sound.recorded.numbered row rowListed own]
      intro next nextListed nextCovers small
      change next.sequence ≤ event.sequence at small
      by_cases behind : next.sequence ≤ job.cursorSequence
      · obtain ⟨older, found, earlier, nextRead, inside⟩ := through next nextListed nextCovers behind
        exact ⟨older, found, List.mem_append_left _ earlier, nextRead, inside⟩
      · -- it is the row in hand
        have least := first next nextListed nextCovers (by omega)
        have sameEvent := sound.recorded.unique row rowListed next nextListed own nextCovers.streamId (by omega)
        refine ⟨bundle, event, List.mem_append_right _ (List.mem_singleton_self _), ?_, ?_⟩
        · rw [← sameEvent, read]
        · rw [same]
          exact List.mem_singleton_self event
    · rintro held isHeld
      cases isHeld
      exact holds

/-- What an update does to a job of the table. -/
theorem mem_updateReplayJob {count : Nat} (member : job ∈ updateReplayJob jobs jobId cursor count completed error) :
    ∃ old ∈ jobs, job.jobId = old.jobId ∧ job.sinceUtc = old.sinceUtc ∧ job.endSequence = old.endSequence ∧
      ((old.jobId = jobId ∧ job.cursorSequence = cursor ∧ (job.state = .completed → completed = true)) ∨
        job = old) := by
  obtain ⟨old, listed, rfl⟩ := mem_map.mp member
  refine ⟨old, listed, ?_⟩
  split
  case isTrue same =>
    refine ⟨rfl, rfl, rfl, .inl ⟨same, rfl, ?_⟩⟩
    intro isCompleted
    by_contra other
    simp only [other, if_false] at isCompleted
    split at isCompleted <;> cases isCompleted
  case isFalse => exact ⟨rfl, rfl, rfl, .inr rfl⟩

section
variable (sound : Replaying codec parse low node)
include sound

theorem replaying_updated {count : Nat} (holds : node.Holds low job) (through : node.Through codec parse low job bound)
    (finished : completed = true → bound = job.endSequence) : Replaying codec parse low
      { node with jobs := updateReplayJob node.jobs job.jobId bound count completed error } where
  recorded := sound.recorded
  behind := by
    intro new member
    obtain ⟨old, listed, -, -, stop, -⟩ := mem_updateReplayJob member
    rw [stop]
    exact sound.behind old listed
  through := by
    intro new member row rowListed covers small
    obtain ⟨old, listed, sameId, since, stop, ⟨own, cursor, -⟩ | rfl⟩ := mem_updateReplayJob member
    · obtain ⟨ownSince, ownStop⟩ := holds.current old listed own
      rw [cursor] at small
      rw [sameId, own]
      apply through row rowListed ⟨covers.streamId, ?_, ?_⟩ small
      · rw [← ownStop, ← stop]
        exact covers.within
      · have admitted := covers.admitted
        rw [ReplayJob.admits, since, ownSince] at admitted
        exact admitted
    · exact sound.through new listed row rowListed covers small
  finished := by
    intro new member isCompleted
    obtain ⟨old, listed, -, -, stop, ⟨own, cursor, whole⟩ | rfl⟩ := mem_updateReplayJob member
    · rw [cursor, stop, (holds.current old listed own).2]
      exact finished (whole isCompleted)
    · exact sound.finished new listed isCompleted
  held := by
    intro worker member inHand isHeld
    have before := sound.held worker member inHand isHeld
    refine ⟨before.behind, fun new newMember same => ?_⟩
    obtain ⟨old, listed, sameId, since, stop, -⟩ := mem_updateReplayJob newMember
    rw [since, stop]
    exact before.current old listed (sameId ▸ same)
  progress := sound.progress

/-- Workers that go, and workers with nothing in hand. -/
theorem replaying_workers (idle : ∀ worker ∈ workers, worker ∈ node.workers ∨ worker.job? = none) :
    Replaying codec parse low { node with workers } := by
  refine sound.grow ?_ ?_ (fun _ listed => listed) rfl ?_
  · exact sound.recorded
  · exact extends_refl low _
  · intro worker member
    apply (idle worker member).imp_right
    intro none
    refine ⟨?_, fun job inHand => ?_⟩
    · cases worker <;> trivial
    · rw [none] at inHand
      cases inHand

theorem replaying_update (position : Nat) (inHand : node.workers[position]? = some worker) (commits : Bool) :
    Replaying codec parse low { node with
      jobs := if commits then (worker.update node.jobs).1 else node.jobs
      workers := node.workers.set position (worker.update node.jobs).2 } := by
  have listed : worker ∈ node.workers := List.mem_of_getElem? inHand
  have progress := sound.progress worker listed
  have held := sound.held worker listed
  have updated : Replaying codec parse low { node with jobs := (worker.update node.jobs).1 } := by
    cases worker with
    | reading => exact sound
    | done => exact sound
    | publishing job events schemaHash => exact sound
    | closing job => exact replaying_updated sound (held job rfl) progress fun _ => rfl
    | advancing job sequence
    | failing job _ => exact replaying_updated sound (held job rfl) progress fun whole => by cases whole
  have jobs : Replaying codec parse low
      { node with jobs := if commits then (worker.update node.jobs).1 else node.jobs } := by
    cases commits with
    | true => exact updated
    | false => exact sound
  apply replaying_workers jobs
  intro _ member
  rcases List.mem_or_eq_of_mem_set member with old | rfl
  · exact .inl old
  · cases worker with
    | publishing job events schemaHash => exact .inl listed
    | _ => exact .inr rfl

theorem replaying_step (single : node.jobs.length ≤ 1) (action : ReplayAction)
    (smooth : node.Smooth codec parse low action) : Replaying codec parse low (node.step codec parse low action) := by
  cases action with
  | write transaction =>
    refine sound.grow ?_ ?_ (fun _ listed => listed) rfl fun worker member => .inl member
    · exact sound.recorded.outcome transaction
    · exact extends_outcome transaction
  | marked sent =>
    refine sound.grow ?_ ?_ (fun _ listed => listed) rfl fun worker member => .inl member
    · exact sound.recorded.marked sent
    · exact extends_marked sent
  | request scope sinceUtc jobId commits => exact replaying_request sound scope sinceUtc jobId commits smooth
  | resume =>
    apply replaying_workers sound
    intro worker member
    rcases mem_append.mp member with old | new
    · exact .inl old
    · rw [mem_singleton.mp new]
      exact .inr rfl
  | crash => exact replaying_workers sound fun worker member => by cases member
  | read worker connects readFails schemaHash =>
    rw [ReplayNode.step]
    split
    · exact replaying_read sound single worker connects readFails schemaHash smooth
    · exact sound
  | publish worker bundleId sealer keyError uploadError =>
    rw [ReplayNode.step]
    split
    case h_1 job events schemaHash inHand =>
      exact replaying_publish sound worker inHand bundleId sealer keyError uploadError
    case h_2 => exact sound
  | update worker commits =>
    rw [ReplayNode.step]
    split
    case h_1 held inHand => exact replaying_update sound worker inHand commits
    case h_2 => exact sound

end

/-- A new job takes the place of the one before, and an update adds none. -/
theorem length_jobs_step (single : node.jobs.length ≤ 1) (action : ReplayAction) :
    (node.step codec parse low action).jobs.length ≤ 1 := by
  cases action with
  | request scope sinceUtc jobId commits =>
    rw [ReplayNode.step, ReplayNode.request]
    split
    case isFalse => exact single
    case isTrue =>
      cases made : createReplayJob low.streamId jobId scope sinceUtc node.journal node.jobs with
      | error error => exact single
      | ok jobs =>
        obtain ⟨-, created⟩ := unit_bind_ok.mp made
        cases created
        exact Nat.le_refl 1
  | update worker commits =>
    rw [ReplayNode.step]
    split
    case h_1 held inHand =>
      cases commits with
      | false => exact single
      | true =>
        have same : ((held.update node.jobs).1).length = node.jobs.length := by
          cases held <;> simp [Worker.update, updateReplayJob]
        simpa [same] using single
    case h_2 => exact single
  | read worker connects readFails schemaHash | publish worker bundleId sealer keyError uploadError =>
    rw [ReplayNode.step]
    split <;> exact single
  | write transaction | marked sent | resume | crash => exact single

/-- No step loses a row of the journal. -/
theorem kept_step (action : ReplayAction) (row : JournalRow) (member : row ∈ node.journal) :
    ∃ next ∈ (node.step codec parse low action).journal, SameRow row next := by
  have same (later : ReplayNode) (unchanged : later.journal = node.journal) :
      ∃ next ∈ later.journal, SameRow row next := ⟨row, unchanged ▸ member, .refl row⟩
  cases action with
  | write transaction => exact (extends_outcome transaction).kept row member
  | marked sent => exact ⟨_, mem_map_of_mem member, sameRow_marked sent row⟩
  | request _ _ _ commits =>
    apply same
    rw [ReplayNode.step, ReplayNode.request]
    split
    · split <;> rfl
    · rfl
  | read worker connects readFails schemaHash | publish worker bundleId sealer keyError uploadError
  | update worker commits =>
    apply same
    rw [ReplayNode.step]
    split <;> rfl
  | resume | crash => exact same _ rfl

end Steps

/-! ### Runs -/

/-- Every step of the run is smooth. -/
def SmoothRun (codec : Codec) (parse : String → Except Error Int) (low : LowConfig) (journal : List JournalRow)
    (actions : List ReplayAction) : Prop :=
  ∀ before action after, actions = before ++ action :: after →
    (ReplayNode.run codec parse low journal before).Smooth codec parse low action

theorem run_concat (actions : List ReplayAction) (action : ReplayAction) :
    ReplayNode.run codec parse low journal (actions ++ [action]) =
      (ReplayNode.run codec parse low journal actions).step codec parse low action := by
  simp [ReplayNode.run]

theorem length_jobs_run (actions : List ReplayAction) :
    (ReplayNode.run codec parse low journal actions).jobs.length ≤ 1 := by
  induction actions using reverseRecOn with
  | nil => exact Nat.zero_le 1
  | append_singleton actions action ih =>
    rw [run_concat]
    exact length_jobs_step ih action

theorem replaying_run (recorded : Recorded low journal) (actions : List ReplayAction)
    (smooth : SmoothRun codec parse low journal actions) :
    Replaying codec parse low (ReplayNode.run codec parse low journal actions) := by
  induction actions using reverseRecOn with
  | nil =>
    refine ⟨recorded, ?_, ?_, ?_, ?_, ?_⟩
    · intro job member
      cases member
    · intro job member
      cases member
    · intro job member
      cases member
    · intro worker member
      cases member
    · intro worker member
      cases member
  | append_singleton actions action ih =>
    rw [run_concat]
    apply replaying_step (ih ?_) (length_jobs_run actions) action (smooth actions action [] rfl)
    intro before first after split
    exact smooth before first (after ++ [action]) (by rw [split]; simp)

theorem kept_run (before after : List ReplayAction) (row : JournalRow)
    (member : row ∈ (ReplayNode.run codec parse low journal before).journal) :
    ∃ next ∈ (ReplayNode.run codec parse low journal (before ++ after)).journal, SameRow row next := by
  induction after using reverseRecOn with
  | nil =>
    rw [append_nil]
    exact ⟨row, member, .refl row⟩
  | append_singleton after action ih =>
    obtain ⟨next, listed, same⟩ := ih
    rw [← append_assoc, run_concat]
    obtain ⟨last, lastListed, lastSame⟩ := kept_step action next listed
    exact ⟨last, lastListed, same.trans lastSame⟩

/-- Over every journal and every run of requests, workers, failures and crashes:
there is at most one job at any time, and if no read of events fails or leaves out
an event because of its column, and no job takes the id of one still in a worker's
hand, then a completed job has published every event it is to replay of those that
the journal had at any time before. -/
theorem replay_complete (codec : Codec) (parse : String → Except Error Int) (low : LowConfig)
    (journal : List JournalRow) (recorded : Recorded low journal) (actions : List ReplayAction) :
    ((ReplayNode.run codec parse low journal actions).jobs.filter fun job => job.state.active).length ≤ 1 ∧
    (SmoothRun codec parse low journal actions →
      ∀ job ∈ (ReplayNode.run codec parse low journal actions).jobs, job.state = .completed →
        ∀ before after, actions = before ++ after → ∀ row ∈ (ReplayNode.run codec parse low journal before).journal,
          job.Covers parse low row → (ReplayNode.run codec parse low journal actions).Published codec
            job.jobId row) := by
  constructor
  · exact Nat.le_trans (length_filter_le _ _) (length_jobs_run actions)
  · rintro smooth job listed completed before after rfl row member covers
    have sound := replaying_run recorded (before ++ after) smooth
    obtain ⟨next, nextListed, same⟩ := kept_run before after row member
    have back : SameRow next row := ⟨same.streamId.symm, same.sequence.symm, same.event.symm⟩
    have nextCovers := covers_sameRow back covers
    have small : next.sequence ≤ job.cursorSequence := by
      rw [sound.finished job listed completed]
      exact nextCovers.within
    obtain ⟨bundle, event, published, read, inside⟩ := sound.through job listed next nextListed nextCovers small
    exact ⟨bundle, event, published, by rw [← same.event, read], inside⟩

/-! ### A journal of one event -/

/-- The same, step by step. -/
def SmoothFrom (codec : Codec) (parse : String → Except Error Int) (low : LowConfig) (node : ReplayNode) :
    List ReplayAction → Prop
  | [] => True
  | action :: actions =>
    node.Smooth codec parse low action ∧ SmoothFrom codec parse low (node.step codec parse low action) actions

theorem SmoothFrom.run (smooth : SmoothFrom codec parse low ⟨journal, [], [], []⟩ actions) :
    SmoothRun codec parse low journal actions := by
  have each (node : ReplayNode) (actions : List ReplayAction) (smooth : SmoothFrom codec parse low node actions)
      (before : List ReplayAction) (action : ReplayAction) (after : List ReplayAction)
      (split : actions = before ++ action :: after) :
      (before.foldl (ReplayNode.step codec parse low) node).Smooth codec parse low action := by
    induction before generalizing node actions with
    | nil =>
      subst split
      exact smooth.1
    | cons _ before ih =>
      subst split
      exact ih _ _ smooth.2 rfl
  exact each _ actions smooth

/-- The journal after a user has been given a name at 1000 ms. -/
def namedJournal (name : Value) : List JournalRow :=
  [⟨"low", 1, ⟨"low", 1, "1:1", "users", [("id", .integer 1)], .upsert, [⟨"name", name⟩], "1", 1000⟩, false, 1000⟩]

theorem recorded_named (name : Value) : Recorded usersLow (namedJournal name) where
  positive := by
    intro row member _
    rw [mem_singleton.mp member]
    exact Int.one_pos
  numbered := by
    intro row member _
    rw [mem_singleton.mp member]
  unique := by
    intro row member _ otherMember _ _ _
    rw [mem_singleton.mp member, mem_singleton.mp otherMember]

/-- Half a second after the epoch. -/
def halfASecond : String := "1970-01-01T00:00:00.500Z"

def oneDate : String → Except Error Int := fun text =>
  if text = halfASecond then .ok 500 else .error (.configuration "since_utc must be RFC3339 UTC")

/-- A request, and the turns of its worker. -/
def oneReplay : List ReplayAction :=
  [.request .since (some halfASecond) "00000000" true,
    .read 0 true false "0000000000000000000000000000000000000000000000000000000000000000",
    .publish 0 "id" lightSealer none none, .update 0 true,
    .read 0 true false "0000000000000000000000000000000000000000000000000000000000000000", .update 0 true]

theorem one_event_replayed :
    (ReplayNode.run plainCodec oneDate usersLow (namedJournal .null) oneReplay).jobs.map ReplayJob.state =
      [.completed] ∧ (∀ job ∈ (ReplayNode.run plainCodec oneDate usersLow (namedJournal .null) oneReplay).jobs,
      ∀ row ∈ namedJournal .null, job.Covers oneDate usersLow row) ∧
    ∀ job ∈ (ReplayNode.run plainCodec oneDate usersLow (namedJournal .null) oneReplay).jobs, job.state = .completed →
      ∀ row ∈ namedJournal .null, job.Covers oneDate usersLow row →
        (ReplayNode.run plainCodec oneDate usersLow (namedJournal .null) oneReplay).Published plainCodec
          job.jobId row := by
  have smooth : SmoothFrom plainCodec oneDate usersLow ⟨namedJournal .null, [], [], []⟩ oneReplay := by
    refine ⟨?_, ?_, trivial, trivial, ?_, trivial, trivial⟩
    · intro _ member
      cases member
    all_goals
      intro job latest _
      cases latest
      refine ⟨⟨rfl, _, rfl⟩, fun row member _ => ?_⟩
      cases mem_singleton.mp member
      exact ⟨500, rfl, by decide⟩
  refine ⟨by decide, fun job listed row member => ?_, fun job listed completed row member covers => ?_⟩
  · cases mem_singleton.mp member
    cases mem_singleton.mp listed
    exact ⟨rfl, Int.le_refl 1, 500, rfl, by decide⟩
  · exact (replay_complete plainCodec oneDate usersLow (namedJournal .null) (recorded_named .null) oneReplay).2
      smooth.run
      job listed completed [] oneReplay rfl row member covers

/-- A request, and a worker whose first read may fail. -/
def emptyReplay (readFails : Bool) : List ReplayAction :=
  [.request .since (some halfASecond) "00000000" true,
    .read 0 true readFails "0000000000000000000000000000000000000000000000000000000000000000", .update 0 true]

/-- The journal after the migration that has added the column. -/
def migratedJournal : List JournalRow := (namedJournal .null).map fun row => { row with committedAtMs := 0 }

/-- The job is completed and has published nothing. -/
def CompletedEmpty (journal : List JournalRow) (readFails : Bool) : Prop :=
  (ReplayNode.run plainCodec oneDate usersLow journal (emptyReplay readFails)).jobs.map ReplayJob.state = [.completed] ∧
    (ReplayNode.run plainCodec oneDate usersLow journal (emptyReplay readFails)).published.length = 0 ∧
    ∀ job ∈ (ReplayNode.run plainCodec oneDate usersLow journal (emptyReplay readFails)).jobs, ∀ row ∈ journal,
      job.Covers oneDate usersLow row

/-- A job is completed and has published nothing of an event that it is to replay: because the
read failed, because the event has a double that is not finite, which cannot be read back, or
because the journal is older than its time column. -/
theorem completed_without_event : CompletedEmpty (namedJournal .null) true ∧
    CompletedEmpty (namedJournal (.real 0x7ff0000000000000)) false ∧ CompletedEmpty migratedJournal false := by
  refine ⟨⟨by decide, by decide, ?_⟩, ⟨by decide, by decide, ?_⟩, by decide, by decide, ?_⟩
  all_goals
    intro job listed row member
    cases mem_singleton.mp member
    cases mem_singleton.mp listed
    exact ⟨rfl, Int.le_refl 1, 500, rfl, by decide⟩

end Galvanize.HighLow
