import Galvanize.ChunkedChanges
import Galvanize.NodeSteps
import Galvanize.SyncState

/-! The serving side of a sync (`corro-agent/src/api/peer/mod.rs`): which needs
`process_sync` answers, and how `handle_need` answers one from a read
transaction. What the peer and SQLite do meanwhile is an argument. -/
namespace Galvanize

/-- `MIN_CHANGES_BYTES_PER_MESSAGE` -/
def minChangesBytesPerMessage : Nat := 1024

/-- A send into the channel: whether it is taken, and how long that takes. -/
inductive SendOutcome where
  | refused
  | prompt
  /-- longer than `ADAPT_CHUNK_SIZE_THRESHOLD` -/
  | slow
  /-- longer than five seconds -/
  | tooSlow
deriving DecidableEq

inductive StatementFault where
  | failed
  /-- The statement runs until it comes to this row. -/
  | unreadable (row : Nat)
deriving DecidableEq

/-- What happens around one call. -/
structure ServeEnv where
  /-- whether the channel is closed, by the number of messages sent -/
  closed : Nat → Bool
  /-- by the number of messages sent -/
  send : Nat → SendOutcome
  /-- by the number of statements run -/
  statement : Nat → Option StatementFault

def ServeEnv.calm : ServeEnv := ⟨fun _ => false, fun _ => .prompt, fun _ => none⟩

inductive ServeError where
  | invalid (error : SyncNeedValidationError)
  | closed
  | refused
  | tooSlow
  | tooSlowReduced
  | sqlite
deriving DecidableEq

/-- The local state of `handle_need`. -/
structure Serving where
  sent : List ChangeV1
  statements : Nat
  empties : RangeInclusiveSet
deriving DecidableEq

/-- An error, with what had been sent by then. -/
structure Failure where
  error : ServeError
  serving : Serving
deriving DecidableEq

/-- The state a call ends in, with or without an error. -/
def final : Except Failure Serving → Serving
  | .ok serving => serving
  | .error failure => failure.serving

namespace Serving

def start : Serving := ⟨[], 0, ∅⟩

variable (env : ServeEnv) (self : Serving)

/-- A statement whose failure is returned. -/
def statement : Except Failure Serving :=
  if (env.statement self.statements).isSome then .error ⟨.sqlite, self⟩
  else .ok { self with statements := self.statements + 1 }

/-- A statement whose rows are read while they are sent. -/
def query (rows : List Change) :
    Except Failure (Serving × List (Except RowError Change)) :=
  let running := { self with statements := self.statements + 1 }
  match env.statement self.statements with
  | none => .ok (running, rows.map .ok)
  | some .failed => .error ⟨.sqlite, self⟩
  | some (.unreadable row) => .ok (running, (rows.take row).map .ok ++ [.error .unreadable])

/-- `blocking_send`: how long it took. -/
def send (message : ChangeV1) : Except Failure (Serving × SendOutcome) :=
  match env.send self.sent.length with
  | .refused => .error ⟨.refused, self⟩
  | outcome => .ok ({ self with sent := self.sent ++ [message] }, outcome)

end Serving

/-- The loop of `send_change_chunks`. `fuel` bounds its turns: each takes a row or is
one of the last two. The local `max_buf_size` is that of `chunked` throughout. -/
def sendLoop (env : ServeEnv) (actorId : ActorId) (version lastSeq : Nat) (ts : Timestamp) :
    (fuel : Nat) → ChunkedChanges → Serving → Except Failure Serving
  | 0, _, serving => .ok serving
  | fuel + 1, chunked, serving =>
    if env.closed serving.sent.length then .error ⟨.closed, serving⟩
    else
      match chunked.next with
      | (some (.ok (changes, seqs)), chunked) =>
        if changes.isEmpty && seqs.start == 0 && seqs.stop == lastSeq then .ok serving
        else
          match serving.send env ⟨actorId, .fullV2 actorId version changes lastSeq seqs ts⟩ with
          | .error failure => .error failure
          | .ok (serving, .tooSlow) => .error ⟨.tooSlow, serving⟩
          | .ok (serving, .slow) =>
            if chunked.maxBufSize ≤ minChangesBytesPerMessage then .error ⟨.tooSlowReduced, serving⟩
            else
              sendLoop env actorId version lastSeq ts fuel
                (chunked.setMaxBufSize (chunked.maxBufSize / 2)) serving
          | .ok (serving, _) => sendLoop env actorId version lastSeq ts fuel chunked serving
      -- the error is logged, and the version ends here
      | (some (.error _), _) => .ok serving
      | (none, _) => .ok serving

/-- `send_change_chunks`. -/
def sendChangeChunks (env : ServeEnv) (serving : Serving) (chunked : ChunkedChanges) (actorId : ActorId)
    (version lastSeq : Nat) (ts : Timestamp) : Except Failure Serving :=
  sendLoop env actorId version lastSeq ts (chunked.iter.length + 2) chunked serving

/-- Select the rows `ORDER BY seq` and send them as chunks of this range. -/
def sendRows (env : ServeEnv) (serving : Serving) (rows : List StoredChange) (actorId : ActorId)
    (version : Nat) (range : CrsqlSeqRange) (lastSeq : Nat) (ts : Timestamp) : Except Failure Serving := do
  let (serving, iter) ← serving.query env ((bySeq rows).map StoredChange.change)
  sendChangeChunks env serving (.new iter range.start range.stop maxChangesByteSize) actorId version lastSeq ts

/-- `seq BETWEEN … AND …`. -/
def seqsBetween (rows : List StoredChange) (range : CrsqlSeqRange) : List StoredChange :=
  rows.filter (fun row => row.change.seq ∈ range)

/-- `SELECT db_version, MAX(seq), MAX(ts) … GROUP BY db_version ORDER BY db_version DESC`;
a group has a row, so neither maximum is missing. -/
def storedVersions (rows : List StoredChange) (actorId : ActorId) (versions : CrsqlDbVersionRange) :
    List (Nat × Nat × Timestamp) :=
  let held := rows.filter (fun row => row.change.siteId = actorId ∧ row.change.dbVersion ∈ versions)
  let groups := (held.map (fun row => row.change.dbVersion)).dedup.insertionSort (· ≥ ·)
  groups.filterMap (fun version =>
    match versionInfo (versionRows rows actorId version) with
    | (some lastSeq, some ts) => some (version, lastSeq, ts)
    | _ => none)

/-- `unprocessed`: what the loop over the first query leaves of the range. -/
def unprocessedVersions (rows : List StoredChange) (actorId : ActorId) (versions : CrsqlDbVersionRange) :
    RangeInclusiveSet :=
  (RangeInclusiveSet.ofRanges [versions]).removeAll
    ((storedVersions rows actorId versions).map (fun row => .single row.1))

/-- The condition on `__corro_seq_bookkeeping` of a `Partial` need. -/
def seqRowMatches (row : SeqRow) (range : CrsqlSeqRange) : Bool :=
  (range.start ≤ row.startSeq && row.startSeq ≤ range.stop) ||
    (row.startSeq ≤ range.start && row.endSeq ≥ range.stop) ||
    (row.startSeq ≤ range.stop && row.endSeq ≥ range.stop) ||
    (range.start ≤ row.endSeq && row.endSeq ≤ range.stop)

section
variable {engine : CrSqlite}

namespace Database
variable (self : Database engine) (actorId : ActorId) (version : Nat)

/-- `in_gaps` -/
def inGaps : Bool :=
  self.tables.gaps.rows.any (fun row => row.actorId = actorId ∧ version ∈ row.range)

def bufferedRows : List StoredChange :=
  versionRows self.buffered.rows actorId version

/-- `buffered` -/
def isBuffered : Bool :=
  !(self.bufferedRows actorId version).isEmpty

def storedRows : List StoredChange :=
  versionRows (engine.changes self.crsql) actorId version

def seqRows : List SeqRow :=
  self.tables.seqs.select (fun row => row.siteId = actorId ∧ row.dbVersion = version)

end Database

variable (env : ServeEnv) (db : Database engine) (actorId : ActorId) (serving : Serving)

/-- A version of a `Full` need that `crsql_changes` has. -/
def serveStored (row : Nat × Nat × Timestamp) : Except Failure Serving := do
  let serving ← serving.statement env
  sendRows env serving (db.storedRows actorId row.1) actorId row.1 ⟨0, row.2.1⟩ row.2.1 row.2.2

/-- The part of a seq row that is asked for, from the buffered rows. -/
def serveSeqRow (version : Nat) (within : CrsqlSeqRange → CrsqlSeqRange) (serving : Serving)
    (row : SeqRow) : Except Failure Serving :=
  let range := within row.range
  sendRows env serving (seqsBetween (db.bufferedRows actorId version) range) actorId version range
    row.lastSeq row.ts

/-- "this is an empty!", unless the version is buffered or in a gap. -/
def markEmpty (version : Nat) : Serving :=
  if !db.isBuffered actorId version && !db.inGaps actorId version then
    { serving with empties := serving.empties.insert (.single version) }
  else serving

/-- A version of a `Full` need that `crsql_changes` has no row of. -/
def serveUnprocessed (version : Nat) : Except Failure Serving := do
  let serving ← serving.statement env
  if !db.isBuffered actorId version then return markEmpty db actorId serving version
  else
    let serving ← serving.statement env
    (db.seqRows actorId version).foldlM (serveSeqRow env db actorId version id) serving

/-- `cmp::max` of the starts, `cmp::min` of the ends. -/
def clamp (a b : CrsqlSeqRange) : CrsqlSeqRange := ⟨max b.start a.start, min b.stop a.stop⟩

/-- A range of a `Partial` need, from the buffered rows. -/
def serveBufferedRange (version : Nat) (serving : Serving) (range : CrsqlSeqRange) : Except Failure Serving := do
  let serving ← serving.statement env
  ((db.seqRows actorId version).filter (fun row => seqRowMatches row range)).foldlM
    (serveSeqRow env db actorId version (clamp range)) serving

/-- A range of a `Partial` need, from `crsql_changes`. -/
def serveStoredRange (version lastSeq : Nat) (ts : Timestamp) (serving : Serving) (range : CrsqlSeqRange) :
    Except Failure Serving :=
  sendRows env serving (seqsBetween (db.storedRows actorId version) range) actorId version range lastSeq ts

def serveFull (versions : CrsqlDbVersionRange) : Except Failure Serving := do
  let rows := engine.changes db.crsql
  let serving ← (storedVersions rows actorId versions).foldlM (serveStored env db actorId) serving
  let serving ← serving.statement env
  (unprocessedVersions rows actorId versions).toList.foldlM (serveUnprocessed env db actorId) serving

def servePartial (version : Nat) (seqs : List CrsqlSeqRange) : Except Failure Serving := do
  let serving ← serving.statement env
  match storedVersions (engine.changes db.crsql) actorId (.single version) with
  | (version, lastSeq, ts) :: _ => seqs.foldlM (serveStoredRange env db actorId version lastSeq ts) serving
  | [] =>
    let serving ← serving.statement env
    let serving := markEmpty db actorId serving version
    if db.isBuffered actorId version then
      seqs.foldlM (serveBufferedRange env db actorId version) serving
    else return serving

def sendEmpty (versions : RangeInclusive) : Except Failure Serving := do
  let (serving, _) ← serving.send env ⟨actorId, .empty versions none⟩
  return serving

/-- The `match` of `handle_need`. -/
def serve (need : SyncNeedV1) (serving : Serving) : Except Failure Serving :=
  match need with
  | .full versions => serveFull env db actorId serving versions
  | .partialVersion version seqs => servePartial env db actorId serving version seqs
  | .empty _ => .ok serving

/-- `handle_need`. The transaction and the first statement are prepared before the
need is looked at. -/
def handleNeed (need : SyncNeedV1) : Except Failure Serving := do
  match need.validate with
  | .error e => .error ⟨.invalid e, .start⟩
  | .ok () =>
    let serving ← Serving.start.statement env
    let serving ← serve env db actorId need serving
    serving.empties.ranges.foldlM (sendEmpty env actorId) serving

end

/-- Whether `process_sync` has a need of this actor handled. -/
def passesFilter (bookie : Bookie) (actorId : ActorId) (need : SyncNeedV1) : Bool :=
  match bookie[actorId]? with
  | none => false
  | some booked =>
    let lacks := fun version => decide (version ∈ booked.needed) || booked.last.any (fun max => version > max)
    match need with
    | .full versions => !versions.toList.all lacks
    | .partialVersion version _ => !lacks version
    | .empty _ => true

/-- The turn of `process_sync` for one need: what is sent. -/
def answerNeed {engine : CrSqlite} (env : ServeEnv) (node : Node engine) (actorId : ActorId) (need : SyncNeedV1) :
    List ChangeV1 :=
  if passesFilter node.bookie actorId need then (final (handleNeed env node.db actorId need)).sent else []

end Galvanize
