import Galvanize.HandleNeed
import Galvanize.SyncNeedProofs
import Mathlib.Data.List.Dedup

/-! What `handle_need` sends. Whatever goes wrong on the way, only chunks of the
asked versions and empty ranges are sent; and when it ends well, what it sent is
determined by the rows it read. -/
namespace Galvanize.ServeProofs
open SyncNeedProofs RangeInclusiveSet

variable {env : ServeEnv} {actorId : ActorId} {version lastSeq fuel : Nat} {ts : Timestamp}
  {serving before after : Serving} {chunked : ChunkedChanges}

/-! ### What may be sent -/

/-- The call sends messages of this kind only. -/
def Sends (allowed : ChangeV1 → Prop) (before : Serving) (result : Except Failure Serving) : Prop :=
  ∃ more, (final result).sent = before.sent ++ more ∧ ∀ message ∈ more, allowed message

section
variable {allowed : ChangeV1 → Prop}

variable {result : Except Failure Serving}

theorem sends_of_sent (same : (final result).sent = before.sent) :
    Sends allowed before result := ⟨[], by simp [same], by simp⟩

theorem sends_trans (first : Sends allowed before (.ok after)) (second : Sends allowed after result) :
    Sends allowed before result := by
  obtain ⟨earlier, isEarlier, allowedEarlier⟩ := first
  obtain ⟨later, isLater, allowedLater⟩ := second
  refine ⟨earlier ++ later, ?_, fun message listed => ?_⟩
  · rw [isLater, show after.sent = _ from isEarlier, List.append_assoc]
  · rcases List.mem_append.mp listed with first | second
    · exact allowedEarlier message first
    · exact allowedLater message second

theorem sends_bind
    (first : Sends allowed before x) (second : ∀ middle, x = .ok middle → Sends allowed middle (f middle)) :
    Sends allowed before (x >>= f) := by
  cases x with
  | error e => exact first
  | ok middle => exact sends_trans first (second middle rfl)

theorem sends_foldlM {α : Type} {items : List α} {f : Serving → α → Except Failure Serving}
    (step : ∀ item ∈ items, ∀ state, Sends allowed state (f state item)) :
    Sends allowed before (items.foldlM f before) :=
  foldlM_related (fun _ => sends_of_sent rfl) (fun _ _ _ => sends_trans) step

theorem sends_mono (sends : Sends allowed before result)
    (weaker : ∀ message, allowed message → more message) : Sends more before result := by
  obtain ⟨sent, is, each⟩ := sends
  exact ⟨sent, is, fun message listed => weaker message (each message listed)⟩

theorem sends_statement : Sends allowed before (before.statement env) := by
  rw [Serving.statement]
  split <;> exact sends_of_sent rfl

end

/-- A chunk of this version: it and its rows end at `stop` or before. -/
def IsChunk (actorId : ActorId) (version lastSeq stop : Nat) (message : ChangeV1) : Prop :=
  ∃ changes seqs ts, seqs.stop ≤ stop ∧ (∀ change ∈ changes.rows version actorId, change.seq ≤ stop) ∧
    message = ⟨actorId, .fullV2 actorId version changes lastSeq seqs ts⟩

variable {stop : Nat}

theorem isChunk_mono {message : ChangeV1} (low : stop ≤ limit)
    (chunk : IsChunk actorId version lastSeq stop message) : IsChunk actorId version lastSeq limit message := by
  obtain ⟨changes, seqs, ts, bound, rows, rfl⟩ := chunk
  exact ⟨changes, seqs, ts, le_trans bound low, fun change listed => le_trans (rows change listed) low, rfl⟩

/-- The state after a chunk was sent. -/
def sentChunk (serving : Serving) (actorId : ActorId) (version lastSeq : Nat) (ts : Timestamp)
    (changes : ChangesetPerTable) (seqs : CrsqlSeqRange) : Serving :=
  { serving with sent := serving.sent ++ [⟨actorId, .fullV2 actorId version changes lastSeq seqs ts⟩] }

/-- What a turn of `send_change_chunks` can come to. -/
inductive LoopTurn (env : ServeEnv) (actorId : ActorId) (version lastSeq : Nat) (ts : Timestamp) (fuel : Nat)
    (chunked : ChunkedChanges) (serving : Serving) : Except Failure Serving → Prop where
  | halted (e : ServeError) : LoopTurn env actorId version lastSeq ts fuel chunked serving (.error ⟨e, serving⟩)
  | ended (silent : ∀ item, chunked.next.1 ≠ some (.ok item)) :
      LoopTurn env actorId version lastSeq ts fuel chunked serving (.ok serving)
  | skipped (changes : ChangesetPerTable) (seqs : CrsqlSeqRange)
      (chunk : chunked.next.1 = some (.ok (changes, seqs)))
      (nothing : changes.isEmpty = true ∧ seqs.start = 0 ∧ seqs.stop = lastSeq) :
      LoopTurn env actorId version lastSeq ts fuel chunked serving (.ok serving)
  | timedOut (changes : ChangesetPerTable) (seqs : CrsqlSeqRange) (e : ServeError)
      (chunk : chunked.next.1 = some (.ok (changes, seqs))) :
      LoopTurn env actorId version lastSeq ts fuel chunked serving
        (.error ⟨e, sentChunk serving actorId version lastSeq ts changes seqs⟩)
  | more (changes : ChangesetPerTable) (seqs : CrsqlSeqRange) (size : Nat)
      (chunk : chunked.next.1 = some (.ok (changes, seqs))) :
      LoopTurn env actorId version lastSeq ts fuel chunked serving
        (sendLoop env actorId version lastSeq ts fuel (chunked.next.2.setMaxBufSize size)
          (sentChunk serving actorId version lastSeq ts changes seqs))

theorem sendLoop_turn : LoopTurn env actorId version lastSeq ts fuel chunked serving
    (sendLoop env actorId version lastSeq ts (fuel + 1) chunked serving) := by
  rw [sendLoop]
  split
  · exact .halted _
  · split
    · rename_i changes seqs later isNext
      split
      · rename_i nothing
        simp only [Bool.and_eq_true, beq_iff_eq] at nothing
        exact .skipped changes seqs (by rw [isNext]) ⟨nothing.1.1, nothing.1.2, nothing.2⟩
      · have chunk : chunked.next.1 = some (.ok (changes, seqs)) := by rw [isNext]
        have left : chunked.next.2 = later := by rw [isNext]
        subst left
        simp only [Serving.send]
        cases env.send serving.sent.length with
        | refused => exact .halted _
        | prompt => exact .more changes seqs chunked.next.2.maxBufSize chunk
        | tooSlow => exact .timedOut changes seqs _ chunk
        | slow =>
          simp only
          split
          · exact .timedOut changes seqs _ chunk
          · exact .more changes seqs _ chunk
    · rename_i e later isNext
      exact .ended fun item => by rw [isNext]; simp
    · rename_i later isNext
      exact .ended fun item => by rw [isNext]; simp

/-- The rows still to be read end at `stop`. -/
structure EndsBy (chunked : ChunkedChanges) (stop : Nat) : Prop where
  drained : chunked.done = false → chunked.changes = ∅
  last : chunked.done = false → chunked.lastSeq = stop
  rows : chunked.done = false → ∀ change, .ok change ∈ chunked.iter → change.seq ≤ stop

theorem EndsBy.next {size : Nat} {changes : ChangesetPerTable} {seqs : CrsqlSeqRange}
    (ends : EndsBy chunked stop) (chunk : chunked.next.1 = some (.ok (changes, seqs))) :
    IsChunk actorId version lastSeq stop ⟨actorId, .fullV2 actorId version changes lastSeq seqs ts⟩ ∧
      EndsBy (chunked.next.2.setMaxBufSize size) stop := by
  have gathered : ∀ taken : List Change, (∀ change ∈ taken, change.seq ≤ stop) →
      ∀ change ∈ (ChunkedChanges.gathered taken).rows version actorId, change.seq ≤ stop := by
    intro taken bound change listed
    obtain ⟨origin, held, rfl⟩ := ChunkedChanges.mem_rows_gathered.mp listed
    exact bound origin held
  have turn := ChunkedChanges.next_turn ends.drained
  have notDone : chunked.done = false := by
    cases done : chunked.done with
    | false => rfl
    | true => simp [ChunkedChanges.next, done] at chunk
  generalize chunked.next = result at turn chunk
  cases turn with
  | spent done => cases chunk
  | failed => cases chunk
  | last taken rest later rows _ done =>
    cases chunk
    have open_ : ∀ {p : Prop}, later.done = false → p := fun no => by simp [done] at no
    refine ⟨⟨_, _, _, le_of_eq (ends.last notDone), gathered taken fun change listed => ?_, rfl⟩, open_, open_, open_⟩
    exact ends.rows notDone change (by simp [rows, listed])
  | chunk taken last rest later rows _ left drained open_ _ stop' =>
    cases chunk
    refine ⟨⟨_, _, _, ends.rows notDone last (by simp [rows]), gathered _ fun change listed => ?_, rfl⟩,
      fun _ => drained, fun _ => ?_, fun _ change listed => ?_⟩
    · exact ends.rows notDone change (by rw [rows]; exact List.mem_append_left _ (List.mem_map_of_mem listed))
    · exact stop'.trans (ends.last notDone)
    · refine ends.rows notDone change ?_
      rw [rows, ← left]
      exact List.mem_append_right _ listed

theorem sends_sendLoop (ends : EndsBy chunked stop) : Sends (IsChunk actorId version lastSeq stop) serving
      (sendLoop env actorId version lastSeq ts fuel chunked serving) := by
  induction fuel generalizing chunked serving with
  | zero => exact sends_of_sent rfl
  | succ fuel ih =>
    have one : ∀ changes (seqs : CrsqlSeqRange),
        IsChunk actorId version lastSeq stop ⟨actorId, .fullV2 actorId version changes lastSeq seqs ts⟩ →
        Sends (IsChunk actorId version lastSeq stop) serving
          (.ok (sentChunk serving actorId version lastSeq ts changes seqs)) :=
      fun changes seqs isChunk => ⟨_, rfl, by simpa using isChunk⟩
    have turn := @sendLoop_turn env actorId version lastSeq fuel ts serving chunked
    generalize sendLoop env actorId version lastSeq ts (fuel + 1) chunked serving = result at turn
    cases turn with
    | halted e | ended silent | skipped changes seqs chunk nothing => exact sends_of_sent rfl
    | timedOut changes seqs e chunk => exact one changes seqs (@EndsBy.next _ _ _ _ _ _ 0 _ _ ends chunk).1
    | more changes seqs size chunk =>
      obtain ⟨isChunk, later⟩ := @EndsBy.next actorId version lastSeq ts _ _ size _ _ ends chunk
      exact sends_trans (one changes seqs isChunk) (ih later)

/-! ### What the queries give -/

section
variable {rows : List StoredChange} {last : Nat} {versions : CrsqlDbVersionRange}
  {range : CrsqlSeqRange}

@[simp] theorem mem_seqsBetween : row ∈ seqsBetween rows range ↔ row ∈ rows ∧ row.change.seq ∈ range := by
  simp [seqsBetween]

theorem mem_storedVersions : (version, last, ts) ∈ storedVersions rows actorId versions ↔
    version ∈ versions ∧ versionInfo (versionRows rows actorId version) = (some last, some ts) := by
  simp only [storedVersions, List.mem_filterMap, List.mem_insertionSort, List.mem_dedup, List.mem_map,
    List.mem_filter, decide_eq_true_eq]
  constructor
  · rintro ⟨_, ⟨row, ⟨held, own, within⟩, rfl⟩, found⟩
    split at found
    · rename_i isInfo
      obtain ⟨rfl, rfl, rfl⟩ := found
      exact ⟨within, isInfo⟩
    · cases found
  · rintro ⟨within, isInfo⟩
    obtain ⟨⟨row, listed, _⟩, _⟩ := @versionInfo_last _ last (by rw [isInfo])
    obtain ⟨held, own, rfl⟩ := mem_versionRows.mp listed
    exact ⟨row.change.dbVersion, ⟨row, ⟨held, own, within⟩, rfl⟩, by rw [isInfo]⟩

/-- The first query lists exactly the versions that have a row. -/
theorem storedVersions_version : (∃ last ts, (version, last, ts) ∈ storedVersions rows actorId versions) ↔
    version ∈ versions ∧ versionRows rows actorId version ≠ [] := by
  simp only [mem_storedVersions]
  constructor
  · rintro ⟨last, ts, within, isInfo⟩
    obtain ⟨⟨row, listed, _⟩, _⟩ := @versionInfo_last _ last (by rw [isInfo])
    exact ⟨within, List.ne_nil_of_mem listed⟩
  · rintro ⟨within, some_⟩
    obtain ⟨last, ts, isInfo⟩ := versionInfo_some some_
    exact ⟨last, ts, within, isInfo⟩

theorem storedVersions_single_nil :
    storedVersions rows actorId (.single version) = [] ↔ versionRows rows actorId version = [] := by
  constructor
  · intro none_
    by_contra some_
    obtain ⟨last, ts, listed⟩ := storedVersions_version.mpr ⟨RangeInclusive.mem_single.mpr rfl, some_⟩
    rw [none_] at listed
    cases listed
  · intro none_
    cases stored : storedVersions rows actorId (.single version) with
    | nil => rfl
    | cons first _ =>
      obtain ⟨_, last, ts⟩ := first
      obtain ⟨same, some_⟩ := storedVersions_version.mp ⟨last, ts, stored ▸ List.mem_cons_self⟩
      rw [RangeInclusive.mem_single] at same
      exact absurd (same ▸ none_) some_

/-- The versions of a `Full` need that `crsql_changes` has no row of. -/
theorem mem_unprocessedVersions : version ∈ unprocessedVersions rows actorId versions ↔
    version ∈ versions ∧ versionRows rows actorId version = [] := by
  have listed : (∃ row ∈ storedVersions rows actorId versions, version = row.1) ↔
      version ∈ versions ∧ versionRows rows actorId version ≠ [] := by
    rw [← storedVersions_version]
    constructor
    · rintro ⟨⟨_, last, ts⟩, listed, rfl⟩
      exact ⟨last, ts, listed⟩
    · rintro ⟨last, ts, listed⟩
      exact ⟨_, listed, rfl⟩
  have notListed : (∀ r ∈ (storedVersions rows actorId versions).map (fun row => RangeInclusive.single row.1),
      version ∉ r) ↔ ¬ ∃ row ∈ storedVersions rows actorId versions, version = row.1 := by
    simp only [List.forall_mem_map, RangeInclusive.mem_single, not_exists, not_and]
  rw [unprocessedVersions, mem_removeAll, notListed, listed]
  simp only [mem_ofRanges, List.mem_singleton, exists_eq_left]
  tauto

theorem endsBy_new {start size : Nat}
    (bound : ∀ change, .ok change ∈ iter → change.seq ≤ stop) : EndsBy (.new iter start stop size) stop :=
  ⟨fun _ => rfl, fun _ => rfl, fun _ => bound⟩

theorem sends_sendRows (bound : ∀ row ∈ rows, row.change.seq ≤ range.stop) :
    Sends (IsChunk actorId version lastSeq range.stop) serving
      (sendRows env serving rows actorId version range lastSeq ts) := by
  have rowsBound : ∀ change ∈ (bySeq rows).map StoredChange.change, change.seq ≤ range.stop := by
    intro change listed
    obtain ⟨row, held, rfl⟩ := List.mem_map.mp listed
    exact bound row (mem_bySeq.mp held)
  have again : ∀ (iter : List (Except RowError Change)) (running : Serving), running.sent = serving.sent →
      (∀ change, .ok change ∈ iter → change.seq ≤ range.stop) →
      Sends (IsChunk actorId version lastSeq range.stop) serving (sendChangeChunks env running
        (.new iter range.start range.stop maxChangesByteSize) actorId version lastSeq ts) :=
    fun iter running same each => sends_trans (sends_of_sent same) (sends_sendLoop (endsBy_new each))
  simp only [sendRows, Serving.query]
  split
  · exact again _ _ rfl (by simpa using rowsBound)
  · exact sends_of_sent rfl
  · refine again _ _ rfl fun change listed => rowsBound change ?_
    simp only [List.mem_append, List.mem_map, Except.ok.injEq, exists_eq_right, List.mem_singleton,
      reduceCtorEq, or_false] at listed
    exact List.mem_of_mem_take listed

end

section
variable {engine : CrSqlite} {db : Database engine} {versions : CrsqlDbVersionRange}
  {seqs : List CrsqlSeqRange}

theorem mem_seqRows : row ∈ db.seqRows actorId version ↔
    row ∈ db.tables.seqs ∧ row.siteId = actorId ∧ row.dbVersion = version := by
  simp [Database.seqRows, Table.select, Table.mem_def]

/-- A seq row is sent in chunks that end where it ends, at the latest. -/
theorem sends_serveSeqRow {within : CrsqlSeqRange → CrsqlSeqRange} (inside : (within row.range).stop ≤ row.endSeq) :
    Sends (IsChunk actorId version row.lastSeq row.endSeq) serving
      (serveSeqRow env db actorId version within serving row) := by
  exact sends_mono (sends_sendRows fun stored listed => (mem_seqsBetween.mp listed).2.2)
    fun message => isChunk_mono inside

@[simp] theorem markEmpty_sent : (markEmpty db actorId serving version).sent = serving.sent := by
  rw [markEmpty]
  split <;> rfl

theorem sends_serveUnprocessed (buffered : ∀ row ∈ db.seqRows actorId version, ∀ message,
      IsChunk actorId version row.lastSeq row.endSeq message → allowed message) :
    Sends allowed serving (serveUnprocessed env db actorId serving version) := by
  refine sends_bind sends_statement fun running _ => ?_
  split
  · exact sends_of_sent markEmpty_sent
  · refine sends_bind sends_statement fun running _ => sends_foldlM fun row listed state => ?_
    exact sends_mono (sends_serveSeqRow (le_refl _)) (buffered row listed)

theorem sends_serveFull
    (stored : ∀ version last ts, (version, last, ts) ∈ storedVersions (engine.changes db.crsql) actorId versions →
      ∀ message, IsChunk actorId version last last message → allowed message)
    (buffered : ∀ version ∈ versions, ∀ row ∈ db.seqRows actorId version, ∀ message,
      IsChunk actorId version row.lastSeq row.endSeq message → allowed message) :
    Sends allowed serving (serveFull env db actorId serving versions) := by
  refine sends_bind (sends_foldlM fun row listed state => ?_) fun running _ =>
    sends_bind sends_statement fun running _ => sends_foldlM fun version listed state => ?_
  · obtain ⟨version, last, ts⟩ := row
    obtain ⟨_, isInfo⟩ := mem_storedVersions.mp listed
    refine sends_bind sends_statement fun running _ => sends_mono (sends_sendRows ?_) (stored _ _ _ listed)
    exact (versionInfo_last (by rw [Database.storedRows, isInfo])).2
  · rw [mem_toList, mem_unprocessedVersions] at listed
    exact sends_serveUnprocessed (buffered version listed.1)

theorem sends_servePartial
    (stored : ∀ last ts, versionInfo (db.storedRows actorId version) = (some last, some ts) → ∀ range ∈ seqs,
      ∀ message, IsChunk actorId version last range.stop message → allowed message)
    (buffered : ∀ row ∈ db.seqRows actorId version, ∀ message,
      IsChunk actorId version row.lastSeq row.endSeq message → allowed message) :
    Sends allowed serving (servePartial env db actorId serving version seqs) := by
  refine sends_bind sends_statement fun running _ => ?_
  split
  · rename_i found last ts rest isStored
    obtain ⟨within, isInfo⟩ := mem_storedVersions.mp (isStored ▸ List.mem_cons_self)
    obtain rfl : found = version := by simpa using within
    refine sends_foldlM fun range listed state => sends_mono (sends_sendRows fun row held => ?_)
      (stored last ts isInfo range listed)
    exact (mem_seqsBetween.mp held).2.2
  · refine sends_bind sends_statement fun running _ => ?_
    have marked : Sends allowed running (.ok (markEmpty db actorId running version)) := sends_of_sent markEmpty_sent
    refine sends_trans marked ?_
    split
    · refine sends_foldlM fun range listed state => sends_bind sends_statement fun running _ =>
        sends_foldlM fun row held state => ?_
      exact sends_mono (sends_serveSeqRow (min_le_left _ _)) (buffered row (List.mem_of_mem_filter held))
    · exact sends_of_sent rfl

variable {need : SyncNeedV1}

/-- Only chunks are sent before the empty ranges. -/
theorem sends_serve
    (chunks : ∀ version lastSeq stop message, IsChunk actorId version lastSeq stop message → allowed message) :
    Sends allowed serving (serve env db actorId need serving) := by
  cases need with
  | full _ => exact sends_serveFull (fun _ _ _ _ => chunks _ _ _) (fun _ _ _ _ => chunks _ _ _)
  | partialVersion version _ =>
    exact sends_servePartial (fun _ _ _ _ _ => chunks _ _ _) (fun _ _ => chunks _ _ _)
  | empty ts => exact sends_of_sent rfl

theorem sends_sendEmpty {range : RangeInclusive} :
    Sends (fun message => message = ⟨actorId, .empty range none⟩) serving (sendEmpty env actorId serving range) := by
  simp only [sendEmpty, Serving.send]
  cases env.send serving.sent.length with
  | refused => exact sends_of_sent rfl
  | prompt | slow | tooSlow => exact ⟨_, rfl, by simp⟩

/-! ### Which versions are taken for empty -/

theorem sendLoop_empties :
    (final (sendLoop env actorId version lastSeq ts fuel chunked serving)).empties = serving.empties := by
  induction fuel generalizing chunked serving with
  | zero => rfl
  | succ fuel ih =>
    have turn := @sendLoop_turn env actorId version lastSeq fuel ts serving chunked
    generalize sendLoop env actorId version lastSeq ts (fuel + 1) chunked serving = result at turn
    cases turn with
    | halted e => rfl
    | ended _ => rfl
    | skipped changes seqs chunk _ => rfl
    | timedOut changes seqs e chunk => rfl
    | more changes seqs _ chunk => exact ih

variable {range : CrsqlSeqRange}

theorem sendRows_empties {rows : List StoredChange} :
    (final (sendRows env serving rows actorId version range lastSeq ts)).empties = serving.empties := by
  simp only [sendRows, Serving.query]
  split
  · exact sendLoop_empties
  · rfl
  · exact sendLoop_empties

theorem statement_ok (ok : serving.statement env = .ok after) :
    after = { serving with statements := serving.statements + 1 } := by
  rw [Serving.statement] at ok
  split at ok
  · cases ok
  · cases ok
    rfl

theorem foldlM_empties {α : Type} {items : List α} {f : Serving → α → Except Failure Serving}
    (step : ∀ item state, (final (f state item)).empties = state.empties)
    (ok : items.foldlM f before = .ok after) : after.empties = before.empties :=
  foldlM_invariant (fun state => state.empties = before.empties) rfl
    (fun item _ state next same turn => by rw [← same, ← step item state, turn, final]) ok

/-- The tables have nothing of this version: no gap and no buffered row. -/
def Untracked (db : Database engine) (actorId : ActorId) (version : Nat) : Prop :=
  db.isBuffered actorId version = false ∧ db.inGaps actorId version = false

theorem mem_markEmpty : other ∈ (markEmpty db actorId serving version).empties ↔
    other ∈ serving.empties ∨ (other = version ∧ Untracked db actorId other) := by
  rw [markEmpty, Untracked]
  split
  · rename_i untracked
    simp only [Bool.and_eq_true, Bool.not_eq_true'] at untracked
    rw [mem_insert, RangeInclusive.mem_single, or_comm]
    constructor
    · rintro (held | rfl)
      · exact .inl held
      · exact .inr ⟨rfl, untracked⟩
    · rintro (held | ⟨rfl, _⟩)
      · exact .inl held
      · exact .inr rfl
  · rename_i tracked
    simp only [Bool.and_eq_true, Bool.not_eq_true'] at tracked
    constructor
    · exact .inl
    · rintro (held | ⟨rfl, untracked⟩)
      · exact held
      · exact absurd untracked tracked

theorem serveUnprocessed_empties (ok : serveUnprocessed env db actorId serving version = .ok after) (other : Nat) :
    other ∈ after.empties ↔ other ∈ serving.empties ∨ (other = version ∧ Untracked db actorId other) := by
  obtain ⟨running, isRunning, ok⟩ := bind_ok ok
  obtain rfl := statement_ok isRunning
  split at ok
  · cases ok
    exact mem_markEmpty
  · rename_i buffered
    obtain ⟨running, isRunning, ok⟩ := bind_ok ok
    obtain rfl := statement_ok isRunning
    rw [foldlM_empties (fun row state => sendRows_empties) ok]
    refine ⟨.inl, ?_⟩
    rintro (held | ⟨rfl, notBuffered, _⟩)
    · exact held
    · simp [notBuffered] at buffered

/-- What a loop marks as empty, if each turn marks its own version or none. -/
private theorem foldlM_marks {items : List Nat} {f : Serving → Nat → Except Failure Serving}
    {marks : Nat → Prop} (step : ∀ item state next, f state item = .ok next → ∀ version,
      version ∈ next.empties ↔ version ∈ state.empties ∨ (version = item ∧ marks version))
    (ok : items.foldlM f before = .ok after) :
    version ∈ after.empties ↔ version ∈ before.empties ∨ (version ∈ items ∧ marks version) := by
  have all := foldlM_adds (fun (state : Serving) version => version ∈ state.empties)
    (fun item version => version = item ∧ marks version) (fun item _ => step item) ok version
  simpa only [exists_eq_left, ← and_assoc, exists_and_right, exists_eq_right'] using all

theorem serveFull_empties (ok : serveFull env db actorId serving versions = .ok after) :
    version ∈ after.empties ↔ version ∈ serving.empties ∨
      (version ∈ versions ∧ db.storedRows actorId version = [] ∧ Untracked db actorId version) := by
  obtain ⟨served, isServed, ok⟩ := bind_ok ok
  obtain ⟨_, isRunning, ok⟩ := bind_ok ok
  obtain rfl := statement_ok isRunning
  have stored : served.empties = serving.empties := by
    refine foldlM_empties (fun row state => ?_) isServed
    rw [serveStored, Serving.statement]
    split
    · rfl
    · exact sendRows_empties
  rw [foldlM_marks (fun item state next => serveUnprocessed_empties) ok]
  simp only [stored, mem_toList, mem_unprocessedVersions, and_assoc]
  rfl

theorem serveBufferedRange_empties :
    (final (serveBufferedRange env db actorId version serving range)).empties = serving.empties := by
  rw [serveBufferedRange, Serving.statement]
  split
  · rfl
  · exact @foldlM_related _ _ _ _ _ _ (fun (state : Serving) result => (final result).empties = state.empties)
      (fun _ => rfl) (fun a b result first second => second.trans first) (fun row _ state => sendRows_empties)

theorem servePartial_empties (ok : servePartial env db actorId serving own seqs = .ok after) :
    version ∈ after.empties ↔ version ∈ serving.empties ∨
      (version = own ∧ db.storedRows actorId version = [] ∧ Untracked db actorId version) := by
  obtain ⟨running, isRunning, ok⟩ := bind_ok ok
  obtain rfl := statement_ok isRunning
  split at ok
  · rename_i found last ts rest isStored
    rw [foldlM_empties (fun range state => sendRows_empties) ok]
    refine ⟨.inl, ?_⟩
    rintro (held | ⟨rfl, none_, _⟩)
    · exact held
    · rw [Database.storedRows, ← storedVersions_single_nil, isStored] at none_
      cases none_
  · rename_i isStored
    obtain ⟨running, isRunning, ok⟩ := bind_ok ok
    have marked : after.empties = (markEmpty db actorId running own).empties := by
      split at ok
      · exact foldlM_empties (fun range state => serveBufferedRange_empties) ok
      · cases ok
        rfl
    rw [marked, mem_markEmpty, statement_ok isRunning]
    refine or_congr_right (and_congr_right ?_)
    rintro rfl
    rw [Database.storedRows, and_iff_right (storedVersions_single_nil.mp isStored)]

/-- The versions left in `empties`: asked for, and nothing of them in any table. -/
theorem serve_empties (ok : serve env db actorId need serving = .ok after) :
    version ∈ after.empties ↔ version ∈ serving.empties ∨
      (Mentions need version ∧ db.storedRows actorId version = [] ∧ Untracked db actorId version) := by
  cases need with
  | full _ => exact serveFull_empties ok
  | partialVersion _ _ => exact servePartial_empties ok
  | empty ts =>
    cases ok
    simp [Mentions]

/-! ### The whole answer -/

/-- A message says that the actor left nothing under this version. -/
def DeclaresEmpty (sent : List ChangeV1) (actorId : ActorId) (version : Nat) : Prop :=
  ∃ message ∈ sent, message.actorId = actorId ∧
    ∃ versions ts, message.changeset = .empty versions ts ∧ version ∈ versions

/-- Only such versions are declared empty, also by a call that fails. -/
theorem handleNeed_declares (declared : DeclaresEmpty (final (handleNeed env db actorId need)).sent actorId version) :
    Mentions need version ∧ db.storedRows actorId version = [] ∧ Untracked db actorId version := by
  have kinds : Sends (fun message => message.seqs.isSome ∨ ∃ r ts, message = ⟨actorId, .empty r ts⟩ ∧
      ∀ version ∈ r, Mentions need version ∧ db.storedRows actorId version = [] ∧ Untracked db actorId version)
      .start (handleNeed env db actorId need) := by
    rw [handleNeed]
    split
    · exact sends_of_sent rfl
    · refine sends_bind sends_statement fun running isRunning => sends_bind ?_ fun served isServed => ?_
      · refine sends_serve fun _ _ _ message chunk => .inl ?_
        obtain ⟨_, seqs, ts, _, _, rfl⟩ := chunk
        rfl
      · refine sends_foldlM fun r listed state => sends_mono sends_sendEmpty ?_
        rintro message rfl
        refine .inr ⟨r, none, rfl, fun version inside => ?_⟩
        have held := (serve_empties isServed).mp ⟨r, listed, inside⟩
        rw [statement_ok isRunning] at held
        exact held.resolve_left (by simp [Serving.start])
  obtain ⟨_, isSent, each⟩ := kinds
  obtain ⟨message, listed, _, _, ts, isEmpty, inside⟩ := declared
  rw [isSent] at listed
  rcases each message listed with chunk | ⟨r, ts', rfl, known⟩
  · rw [ChangeV1.seqs, isEmpty] at chunk
    cases chunk
  · cases isEmpty
    exact known version inside

theorem sendEmpty_ok {range : RangeInclusive} (ok : sendEmpty env actorId serving range = .ok after) :
    after.sent = serving.sent ++ [⟨actorId, .empty range none⟩] := by
  simp only [sendEmpty, Serving.send] at ok
  cases sent : env.send serving.sent.length with
  | refused =>
    rw [sent] at ok
    cases ok
  | prompt | slow | tooSlow =>
    rw [sent] at ok
    cases ok
    rfl

/-- A call that ends well has gone through all its parts. -/
theorem handleNeed_ok (ok : handleNeed env db actorId need = .ok after) :
    ∃ served, serve env db actorId need { Serving.start with statements := 1 } = .ok served ∧
      ∀ message, message ∈ after.sent ↔ message ∈ served.sent ∨
        ∃ range ∈ served.empties.ranges, message = ⟨actorId, .empty range none⟩ := by
  rw [handleNeed] at ok
  split at ok
  · cases ok
  · obtain ⟨_, isRunning, ok⟩ := bind_ok ok
    obtain rfl := statement_ok isRunning
    obtain ⟨served, isServed, ok⟩ := bind_ok ok
    refine ⟨served, isServed, fun message => ?_⟩
    refine foldlM_adds (fun (state : Serving) message => message ∈ state.sent)
      (fun range message => message = ⟨actorId, .empty range none⟩)
      (fun range _ state next turn message => ?_) ok message
    rw [sendEmpty_ok turn]
    simp

/-- When the call ends well, all of them are declared. -/
theorem handleNeed_declares_iff (ok : handleNeed env db actorId need = .ok after) :
    DeclaresEmpty after.sent actorId version ↔
      Mentions need version ∧ db.storedRows actorId version = [] ∧ Untracked db actorId version := by
  have same : final (handleNeed env db actorId need) = after := by rw [ok, final]
  refine ⟨fun declared => handleNeed_declares (same ▸ declared), fun known => ?_⟩
  obtain ⟨_, isServed, messages⟩ := handleNeed_ok ok
  obtain ⟨range, listed, inside⟩ := (serve_empties isServed).mpr (.inr known)
  exact ⟨_, (messages _).mpr (.inr ⟨range, listed, rfl⟩), rfl, range, none, rfl, inside⟩

/-! ### A call nobody disturbs -/

theorem sendLoop_calm : ∃ after, sendLoop .calm actorId version lastSeq ts fuel chunked serving = .ok after := by
  induction fuel generalizing chunked serving with
  | zero => exact ⟨serving, rfl⟩
  | succ fuel ih =>
    simp only [sendLoop, ServeEnv.calm, Serving.send, Bool.false_eq_true, if_false]
    split
    · split
      · exact ⟨serving, rfl⟩
      · exact ih
    · exact ⟨serving, rfl⟩
    · exact ⟨serving, rfl⟩

theorem sendRows_calm {rows : List StoredChange} :
    ∃ after, sendRows .calm serving rows actorId version range lastSeq ts = .ok after := sendLoop_calm

theorem statement_calm : ∃ after, serving.statement .calm = .ok after := ⟨_, rfl⟩

theorem serve_calm : ∃ after, serve .calm db actorId need serving = .ok after := by
  cases need with
  | empty ts => exact ⟨serving, rfl⟩
  | full _ =>
    refine ok_bind (foldlM_ok fun _ _ _ => ok_bind statement_calm fun _ => sendRows_calm) fun served => ?_
    refine ok_bind statement_calm fun _ => foldlM_ok fun version _ state => ok_bind statement_calm fun running => ?_
    split
    · exact ⟨_, rfl⟩
    · exact ok_bind statement_calm fun _ => foldlM_ok fun _ _ _ => sendRows_calm
  | partialVersion version _ =>
    refine ok_bind statement_calm fun running => ?_
    split
    · exact foldlM_ok fun _ _ _ => sendRows_calm
    · refine ok_bind statement_calm fun running => ?_
      split
      · exact foldlM_ok fun _ _ _ => ok_bind statement_calm fun _ => foldlM_ok fun _ _ _ => sendRows_calm
      · exact ⟨_, rfl⟩

theorem handleNeed_calm (valid : need.validate = .ok ()) : ∃ after, handleNeed .calm db actorId need = .ok after := by
  rw [handleNeed, valid]
  exact ok_bind statement_calm fun _ => ok_bind serve_calm fun _ => foldlM_ok fun _ _ _ => ⟨_, rfl⟩

end

end Galvanize.ServeProofs
