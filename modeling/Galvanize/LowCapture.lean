import Galvanize.HighApply
import Galvanize.PackedColumns

/-! The Low side of the link: the capture of a version's changes as events in the
journal (`corro-types/src/change.rs`), and the transactions that write versions: a
local write, a batch of remote changesets, a buffered version, and a window of one
that is applied in chunks, without a capture (`corro-agent/src/agent/util.rs`). -/
namespace Galvanize.HighLow
open BigEndian

/-! ### Events -/

/-- What the capture reads of the agent. -/
structure LowConfig where
  streamId : String
  /-- The primary-key columns of a table of the schema, in key order. -/
  pkNames : String → Option (List String)
  /-- What `from_utf8_lossy` makes of bytes that are no UTF-8. -/
  replaced : List UInt8 → String

variable (codec : Codec) (low : LowConfig)

def hexDigit (number : Nat) : Char := Char.ofNat (if number < 10 then 48 + number else 87 + number)

/-- `hex::encode`. -/
def hexEncode (bytes : List UInt8) : String :=
  String.ofList (bytes.flatMap fun byte => [hexDigit (byte.toNat / 16), hexDigit (byte.toNat % 16)])

def fromUtf8Lossy (bytes : List UInt8) : String := (fromUtf8 bytes).getD (low.replaced bytes)

/-- `ActorId` as text: a UUID without hyphens. -/
def actorText (actor : ActorId) : String := hexEncode (toBytes 16 actor.toNat)

/-- The JSON of a key column. A blob becomes a string of hexadecimal digits, and
`json!` makes a null of a double that is not finite. -/
def keyJson : ValueRef → Json
  | .null => .null
  | .integer value => .integer value
  | .real bits => if isFinite bits then .real bits else .null
  | .text bytes => .string (fromUtf8Lossy low bytes)
  | .blob bytes => .string (hexEncode bytes)

/-- The name of the key column at a position. -/
def keyName (table : String) (position : Nat) : String :=
  match (low.pkNames table).bind fun names => names[position]? with
  | some name => name
  | none => if table = "files" && position = 0 then "uuid" else "pk_" ++ toString position

/-- `pk_map`. A `pk` that does not unpack is taken as it is; none in
`crsql_changes` is so short that `unpack_columns` panics. -/
def pkMap (table : String) (pk : List UInt8) : List (String × Json) :=
  match unpackColumns pk with
  | .ok values => sortedMap (values.zipIdx.map fun entry => (keyName low table entry.2, keyJson low entry.1))
  | .error _ =>
    match fromUtf8 pk with
    | some text => [("id", .string text)]
    | none => [("id", .string (hexEncode pk))]

def columnValue : SqliteValue → Value
  | .null => .null
  | .integer value => .integer value
  | .real bits => .real bits
  | .text value => .text value
  | .blob bytes => .blob (codec.encode64 bytes)

/-- The sentinel column of `crsql_changes`. -/
def sentinel : String := "-1"

def captureColumns (changes : List Change) : List Column :=
  (changes.filter fun change => change.cid ≠ sentinel).map fun change => ⟨change.cid, columnValue codec change.val⟩

/-- A version as the capture finds it in `crsql_changes`, in the order of `seq`. -/
structure WrittenVersion where
  actorId : ActorId
  dbVersion : Nat
  changes : List Change
  nowMs : Int

/-- The event of one changed row. -/
def captureEvent (written : WrittenVersion) (sequence : Int) (group : (String × List UInt8) × List Change) : Event :=
  let isDelete := group.2.any fun change => change.cid = sentinel
  { streamId := low.streamId
    sequence := sequence
    transactionId := actorText written.actorId ++ ":" ++ toString written.dbVersion
    table := group.1.1
    primaryKey := pkMap low group.1.1 group.1.2
    operation := if isDelete then .delete else .upsert
    columns := if isDelete then [] else captureColumns codec group.2
    sourceActor := actorText written.actorId
    committedAtMs := written.nowMs }

/-! ### The journal -/

/-- A row of `__galv_highlow_events`. -/
structure JournalRow where
  streamId : String
  sequence : Int
  /-- `event_json` -/
  event : Event
  exported : Bool
  /-- The column, which the migration of an old journal sets to zero in every row. -/
  committedAtMs : Int

/-- `MAX(sequence)`. -/
def largest : List Int → Option Int
  | [] => none
  | number :: numbers =>
    match largest numbers with
    | none => some number
    | some other => some (if other < number then number else other)

/-- `COALESCE(MAX(sequence), 0)` of a stream. -/
def lastSequence (streamId : String) (journal : List JournalRow) : Int :=
  (largest ((journal.filter fun row => row.streamId = streamId).map JournalRow.sequence)).getD 0

/-- Tables the capture leaves out. -/
def isInternal (table : String) : Bool :=
  ["__galv_", "__corro_", "crsql_"].any fun start => start.toList.isPrefixOf table.toList

/-- `table_pk_groups`: the changes of each changed row. -/
def tablePkGroups (changes : List Change) : IndexMap (String × List UInt8) (List Change) :=
  (changes.filter fun change => !isInternal change.table).foldl
    (fun groups change => groups.upsert (change.table, change.pk) fun held => held.getD [] ++ [change]) ∅

/-- The points at which the capture can fail. -/
structure CaptureFaults where
  /-- The query of `crsql_changes`, or one of its rows. -/
  readFails : Bool
  /-- The query of the last sequence number. -/
  sequenceFails : Bool
  /-- The preparation of the `INSERT`. -/
  prepareFails : Bool
  /-- The serialization or the `INSERT` of an event, by position. -/
  eventFails : Nat → Bool

/-- The loop of the capture: the journal with what has been written, and whether
all of it has. -/
def captureGroups (faults : CaptureFaults) (written : WrittenVersion) :
    Nat → Int → List ((String × List UInt8) × List Change) → List JournalRow → List JournalRow × Bool
  | _, _, [], journal => (journal, true)
  | position, sequence, group :: groups, journal =>
    if faults.eventFails position then (journal, false)
    else
      let event := captureEvent codec low written (sequence + 1) group
      captureGroups faults written (position + 1) (sequence + 1) groups
        (journal ++ [⟨event.streamId, event.sequence, event, false, event.committedAtMs⟩])

/-- `capture_highlow_events_for_actor`. -/
def captureEvents (faults : CaptureFaults) (written : WrittenVersion) (journal : List JournalRow) :
    List JournalRow × Bool :=
  if faults.readFails then (journal, false)
  else
    let groups := (tablePkGroups written.changes).entries
    if groups.isEmpty then (journal, true)
    else if faults.sequenceFails || faults.prepareFails then (journal, false)
    else captureGroups codec low faults written 0 (lastSequence low.streamId journal) groups journal

/-! ### The transactions -/

/-- What a transaction has written so far. -/
structure LowTx where
  journal : List JournalRow
  written : List WrittenVersion

inductive LowFailure where
  | failed
deriving DecidableEq

/-- `?` on a call that may fail. -/
def check (fails : Bool) : Except LowFailure Unit := if fails then .error .failed else .ok ()

/-- The call of the capture: its failure is logged, what it has written stays. -/
def captured (faults : CaptureFaults) (written : WrittenVersion) (tx : LowTx) : LowTx :=
  ⟨(captureEvents codec low faults written tx.journal).1, tx.written ++ [written]⟩

/-- A local write up to its commit. -/
structure LocalWrite where
  written : WrittenVersion
  queryFails : Bool
  insertDbFails : Bool
  capture : CaptureFaults
  commitFails : Bool

/-- `insert_local_changes`, which does nothing for a write without changes. -/
def insertLocalChanges (write : LocalWrite) (tx : LowTx) : Except LowFailure LowTx := do
  check write.queryFails
  if write.written.changes.isEmpty then .ok tx
  else
    check write.insertDbFails
    .ok (captured codec low write.capture write.written tx)

/-- `make_broadcastable_changes`. -/
def LocalWrite.run (write : LocalWrite) (tx : LowTx) : Except LowFailure LowTx := do
  let tx ← insertLocalChanges codec low write tx
  check write.commitFails
  .ok tx

/-- A complete changeset of a batch. -/
structure RemoteVersion where
  written : WrittenVersion
  insertFails : Bool
  capture : CaptureFaults
  /-- What follows in the savepoint, and its release. -/
  finishFails : Bool
  /-- A failure ends the whole transaction. -/
  endsTransaction : Bool

/-- `process_complete_version`, in its savepoint. -/
def processCompleteVersion (version : RemoteVersion) (tx : LowTx) : Except LowFailure LowTx := do
  check version.insertFails
  let next := captured codec low version.capture version.written tx
  check version.finishFails
  .ok next

/-- One turn of the loop of `process_multiple_changes`: a version that fails is
left out, unless the transaction is gone with it. -/
def processVersion (tx : LowTx) (version : RemoteVersion) : Except LowFailure LowTx :=
  match processCompleteVersion codec low version tx with
  | .ok next => .ok next
  | .error failure => if version.endsTransaction then .error failure else .ok tx

structure RemoteBatch where
  versions : List RemoteVersion
  bookkeepingFails : Bool
  commitFails : Bool

/-- `process_multiple_changes`. -/
def RemoteBatch.run (batch : RemoteBatch) (tx : LowTx) : Except LowFailure LowTx := do
  let tx ← batch.versions.foldlM (processVersion codec low) tx
  check batch.bookkeepingFails
  check batch.commitFails
  .ok tx

/-- A version whose buffered changes are complete. -/
structure BufferedVersion where
  written : WrittenVersion
  rowsPresent : Bool
  selectFails : Bool
  insertFails : Bool
  capture : CaptureFaults
  /-- `crsql_rows_impacted`, `insert_db` or `clear_partials`. -/
  bookkeepingFails : Bool
  commitFails : Bool

/-- The insertion of the buffered changes. -/
def insertBuffered (version : BufferedVersion) (tx : LowTx) : Except LowFailure LowTx :=
  if version.rowsPresent then do
    check version.insertFails
    .ok (captured codec low version.capture version.written tx)
  else .ok tx

/-- `process_fully_buffered_changes`. -/
def BufferedVersion.run (version : BufferedVersion) (tx : LowTx) : Except LowFailure LowTx := do
  check version.selectFails
  let tx ← insertBuffered codec low version tx
  check version.bookkeepingFails
  check version.commitFails
  .ok tx

/-- One window of a version that an administrator applies in chunks. -/
structure BufferedChunk where
  /-- The version with the changes of the window. -/
  written : WrittenVersion
  /-- `BEGIN IMMEDIATE` or `insert_buffered_range`. -/
  insertFails : Bool
  /-- `insert_db` or `clear_partials`, for the last window. -/
  bookkeepingFails : Bool
  commitFails : Bool

/-- A transaction of `apply_buffered_version_in_chunks`, which captures nothing. -/
def BufferedChunk.run (chunk : BufferedChunk) (tx : LowTx) : Except LowFailure LowTx := do
  check chunk.insertFails
  check chunk.bookkeepingFails
  check chunk.commitFails
  .ok { tx with written := tx.written ++ [chunk.written] }

inductive LowTransaction where
  | localWrite (write : LocalWrite)
  | remote (batch : RemoteBatch)
  | buffered (version : BufferedVersion)
  | bufferedChunk (chunk : BufferedChunk)

def LowTransaction.run (transaction : LowTransaction) (tx : LowTx) : Except LowFailure LowTx :=
  match transaction with
  | .localWrite write => write.run codec low tx
  | .remote batch => batch.run codec low tx
  | .buffered version => version.run codec low tx
  | .bufferedChunk chunk => chunk.run tx

/-- The database after a transaction. -/
structure Outcome where
  committed : Bool
  journal : List JournalRow
  /-- The versions whose changes the database has now. -/
  written : List WrittenVersion

/-- A transaction that fails is dropped, and with it all it has written. -/
def LowTransaction.outcome (transaction : LowTransaction) (journal : List JournalRow) : Outcome :=
  match transaction.run codec low ⟨journal, []⟩ with
  | .ok tx => ⟨true, tx.journal, tx.written⟩
  | .error _ => ⟨false, journal, []⟩

end Galvanize.HighLow
