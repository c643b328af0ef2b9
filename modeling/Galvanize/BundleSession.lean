import Galvanize.LowCapture
import Galvanize.NodeSteps
import Galvanize.Programs

/-! `process_incoming_bundle` (`corro-agent/src/agent/highlow.rs`) statement by
statement: a transaction with its own copy of the database, a copy of the
bookkeeping, and what becomes of both when the function returns. -/
namespace Galvanize.HighLow

/-! ### A High node -/

variable (engine : CrSqlite)

/-- What is in the database file. -/
structure HighStore where
  high : High
  db : Database engine
  /-- `__galv_highlow_events`, where the node is a Low node as well. -/
  journal : List JournalRow

structure HighNode where
  committed : HighStore engine
  /-- The bookkeeping that readers see. -/
  published : Bookie
  broadcasts : List InsertChangesInfo

/-- A node during a call: the open transaction, with the statements it has
executed on user tables, and the `BookedWriteTx`. -/
structure Session extends HighNode engine where
  working : Option (HighStore engine)
  executed : List Event
  writer : Option BookedVersions

/-- The places where a call can fail. -/
inductive Point where
  | begin
  | lookup
  | register
  | track
  | owned (position : Nat)
  | execute (position : Nat)
  | provenance (position : Nat)
  | note
  | peek
  | info
  | gaps
  | commit
deriving DecidableEq

/-- What SQLite, cr-sqlite and the clock do during a call. -/
structure Surroundings where
  fails : Point → Bool
  /-- SQLite's text for the failure. -/
  reason : String
  /-- The events' statements, as a local transaction of cr-sqlite. -/
  writes : List Event → engine.Write
  /-- What the statements of a failed `insert_db` have left in its tables. -/
  leftover : BookieTables → BookieTables
  capture : CaptureFaults
  nowMs : Int
  clock : Timestamp

structure ApplyStats where
  upserts : Nat
  deletes : Nat
deriving DecidableEq

section
variable {engine} (codec : Codec) (low : Option LowConfig) (self : ActorId) (around : Surroundings engine)

/-! ### Statements -/

abbrev Program (engine : CrSqlite) (α : Type) : Type := EStateM Error (Session engine) α

/-- `?` on something that does not touch the session. -/
def ofExcept {α : Type} (result : Except Error α) : Program engine α :=
  match result with
  | .ok value => pure value
  | .error error => throw error

/-- A query in the transaction. -/
def query {α : Type} (point : Point) (error : Error) (read : HighStore engine → α) : Program engine α := fun session =>
  match session.working with
  | none => .error error session
  | some store => if around.fails point then .error error session else .ok (read store) session

/-- A statement in the transaction. One that fails does nothing itself. -/
def statement (point : Point) (error : Error) (effect : HighStore engine → HighStore engine) : Program engine Unit :=
  fun session =>
    match session.working with
    | none => .error error session
    | some store =>
      if around.fails point then .error error session
      else .ok () { session with working := some (effect store) }

/-- The statement of an event on its table, which cr-sqlite's triggers see. -/
def userStatement (point : Point) (error : Error) (event : Event) (effect : HighDb → HighDb) : Program engine Unit :=
  fun session =>
    match session.working with
    | none => .error error session
    | some store =>
      if around.fails point then .error error session
      else
        let executed := session.executed ++ [event]
        let crsql := engine.write session.committed.db.crsql self (around.writes executed)
        .ok () { session with
          executed := executed
          working := some { store with
            high := { store.high with db := effect store.high.db }
            db := { store.db with crsql := crsql } } }

/-- `sql_error`. -/
def sqlError : Error := .configuration ("SQLite journal error: " ++ around.reason)

/-- The mapping of errors in `process_incoming_bundle`. -/
def ioError : Error := .io around.reason

/-- `write_lock_blocking` and `write_tx`, then `transaction`. -/
def beginSession : Program engine Unit := fun session =>
  let session := { session with writer := some (session.published.ensure self) }
  if around.fails .begin then .error (ioError around) session
  else .ok () { session with working := some session.committed, executed := [] }

/-- `tx.commit`. -/
def commitTransaction : Program engine Unit := fun session =>
  match session.working with
  | none => .error (ioError around) session
  | some store =>
    if around.fails .commit then .error (ioError around) session
    else .ok () { session with committed := store, working := none }

/-- `book_writer.commit`, and the broadcast. -/
def publish (info : InsertChangesInfo) : Program engine Unit := fun session =>
  match session.writer with
  | none => .ok () session
  | some booked =>
    .ok () { session with
      published := session.published.insert self booked
      writer := none
      broadcasts := session.broadcasts ++ [info] }

/-! ### The bundle -/

/-- `MAX(highest_seen_sequence, ..)` in the row of the stream. -/
def noteRange (bundle : Bundle) : Option StreamRow → StreamRow
  | some row => { row with highestSeen := max row.highestSeen bundle.sequenceLast }
  | none => ⟨bundle.sequenceLast, 0⟩

/-- `register_received`. -/
def registerBundle (bundle : Bundle) : Program engine Bool := do
  ofExcept (bundle.validate codec)
  let found ← query around .lookup (sqlError around) fun store =>
    store.high.inbox.any fun row => row.bundleId = bundle.bundleId
  if found then pure false
  else do
    statement around .register (sqlError around) fun store =>
      { store with high := { store.high with
        inbox := store.high.inbox ++ [⟨bundle.bundleId, bundle.streamId, bundle.sequenceFirst,
          bundle.sequenceLast, none⟩] } }
    statement around .track (sqlError around) fun store =>
      { store with high := { store.high with
        streams := store.high.streams.upsert bundle.streamId (noteRange bundle) } }
    pure true

/-- `apply_upsert` of the event at this position. -/
def upsertEvent (position : Nat) (event : Event) : Program engine Unit := do
  let cols ← ofExcept (colsMap codec event)
  if cols.isEmpty then pure ()
  else do
    ofExcept (refuseIf ((cols.any fun entry => !validIdentifier entry.1) || !validIdentifier event.table)
      (.configuration "unsafe table or column name"))
    let key ← ofExcept (canonicalPrimaryKey codec event.primaryKey)
    let owned ← query around (.owned position) (sqlError around) fun store => store.high.db.ownedFields event.table key
    let columns := cols.filter fun entry => !event.isKey entry.1
    let updates := columns.filter fun entry => decide (entry.1 ∉ owned)
    userStatement self around (.execute position)
      (.configuration ("failed to execute upsert on " ++ event.table ++ ": " ++ around.reason)) event
      fun db => db.upsertRow event.table (cols.filter fun entry => event.isKey entry.1) columns updates
    statement around (.provenance position) (sqlError around) fun store =>
      { store with high := { store.high with db := store.high.db.markLowOrigin event key } }

/-- `apply_delete`. -/
def deleteEvent (position : Nat) (event : Event) : Program engine Unit := do
  ofExcept (refuseIf event.primaryKey.isEmpty (.configuration "delete event has empty primary key"))
  ofExcept (refuseIf (!validIdentifier event.table) (.configuration "unsafe table name"))
  let bound ← ofExcept (event.primaryKey.mapM (bindWhere codec))
  userStatement self around (.execute position)
    (.configuration ("failed to execute delete on " ++ event.table ++ ": " ++ around.reason)) event
    fun db => db.deleteRow event.table bound
  let key ← ofExcept (canonicalPrimaryKey codec event.primaryKey)
  statement around (.provenance position) (sqlError around) fun store =>
    { store with high := { store.high with db := { store.high.db with
      provenance := store.high.db.provenance.shiftRemove (event.table, key) } } }

/-- The loop of `apply_bundle`. -/
def applyEventsFrom : Nat → ApplyStats → List Event → Program engine ApplyStats
  | _, stats, [] => pure stats
  | position, stats, event :: events => do
    ofExcept (event.validate codec)
    match event.operation with
    | .upsert => do
      upsertEvent codec self around position event
      applyEventsFrom (position + 1) { stats with upserts := stats.upserts + 1 } events
    | .delete => do
      deleteEvent codec self around position event
      applyEventsFrom (position + 1) { stats with deletes := stats.deletes + 1 } events

/-- `apply_bundle`. -/
def applyEventsOf (bundle : Bundle) : Program engine ApplyStats := do
  ofExcept (bundle.validate codec)
  applyEventsFrom codec self around 0 ⟨0, 0⟩ bundle.events

/-! ### The bookkeeping -/

/-- `insert_db` on the copy of the bookkeeping: memory first, then the tables. -/
def insertGaps (versions : RangeInclusiveSet) : Program engine Unit := fun session =>
  match session.writer, session.working with
  | some booked, some store =>
    let computed := booked.computeAndApplyGaps versions
    let session := { session with writer := some computed.1 }
    let failed := { session with
      working := some { store with db := { store.db with tables := around.leftover store.db.tables } } }
    if around.fails .gaps then .error (ioError around) failed
    else
      match computed.1.executeChanges ⟨booked.actorId, computed.2, [], []⟩ store.db.tables with
      | .error _ => .error (ioError around) failed
      | .ok written =>
        .ok () { session with working := some { store with db := { store.db with tables := written.2 } } }
  | _, _ => .error (ioError around) session

/-- `capture_highlow_events_for_actor`, whose failure is logged. -/
def captureLow (dbVersion : Nat) : Program engine Unit := fun session =>
  match low, session.working with
  | some config, some store =>
    let changes := (bySeq (versionRows (engine.changes store.db.crsql) self dbVersion)).map StoredChange.change
    let journal := (captureEvents codec config around.capture ⟨self, dbVersion, changes, around.nowMs⟩ store.journal).1
    .ok () { session with working := some { store with journal := journal } }
  | _, _ => .ok () session

/-- `crsql_peek_next_db_version`: the version that the transaction will get. -/
def peekVersion : Program engine Nat := fun session =>
  if around.fails .peek then .error (ioError around) session
  else .ok (engine.peekNextDbVersion session.committed.db.crsql self) session

/-- `insert_local_changes`. -/
def insertBundleChanges : Program engine (Option InsertChangesInfo) := do
  let dbVersion ← peekVersion self around
  let info ← query around .info (ioError around) fun store =>
    versionInfo (versionRows (engine.changes store.db.crsql) self dbVersion)
  match info.1 with
  | none => pure none
  | some lastSeq => do
    insertGaps around (.ofRanges [.single dbVersion])
    captureLow codec low self around dbVersion
    pure (some ⟨dbVersion, lastSeq, info.2.getD around.clock⟩)

/-! ### The call -/

/-- What is done for a bundle that is new. -/
def applyNew (bundle : Bundle) (manifestName : String) :
    Program engine (Option ApplyStats × Option InsertChangesInfo) := do
  let stats ← applyEventsOf codec self around bundle
  statement around .note (ioError around) fun store =>
    { store with high := { store.high with inbox := store.high.inbox.map (setDetail manifestName bundle.bundleId) } }
  let info ← insertBundleChanges codec low self around
  pure (some stats, info)

/-- `process_incoming_bundle` up to its commit. -/
def prepareBundle (bundle : Bundle) (manifestName : String) :
    Program engine (Option ApplyStats × Option InsertChangesInfo) := do
  beginSession self around
  let isNew ← registerBundle codec around bundle
  if isNew then applyNew codec low self around bundle manifestName else pure (none, none)

/-- What follows the commit. -/
def finishBundle (prepared : Option ApplyStats × Option InsertChangesInfo) : Program engine (Option ApplyStats) :=
  match prepared.2 with
  | none => pure prepared.1
  | some info => do
    publish self info
    pure prepared.1

/-- `process_incoming_bundle`. -/
def bundleProgram (bundle : Bundle) (manifestName : String) : Program engine (Option ApplyStats) := do
  let prepared ← prepareBundle codec low self around bundle manifestName
  commitTransaction around
  finishBundle self prepared

/-- One call. When it returns, the transaction that is still open is rolled back,
and the copy of the bookkeeping is dropped. -/
def processBundle (node : HighNode engine) (bundle : Bundle) (manifestName : String) :
    Except Error (Option ApplyStats) × HighNode engine :=
  match bundleProgram codec low self around bundle manifestName ⟨node, none, [], none⟩ with
  | .ok stats session => (.ok stats, session.toHighNode)
  | .error error session => (.error error, session.toHighNode)

end
end Galvanize.HighLow
