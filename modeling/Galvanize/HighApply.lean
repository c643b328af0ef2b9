import Galvanize.HighLow

/-! The High side of the link: binding of values and application of events
(`galv-highlow/src/apply.rs`), the inbox (`galv-highlow/src/lib.rs`) and one turn
of the receiver's loop (`corro-agent/src/agent/highlow.rs`). -/
namespace Galvanize.HighLow

variable (codec : Codec)

/-! ### Values -/

def toSqlValue : Value → Except Error SqliteValue
  | .null => .ok .null
  | .integer value => .ok (.integer value)
  | .real bits => .ok (.real bits)
  | .text value => .ok (.text value)
  | .blob base64 =>
    match codec.decode64 base64 with
    | some bytes => .ok (.blob bytes)
    | none => .error (.configuration "invalid base64 in blob value")

namespace Json

def asStr : Json → Option String
  | .string value => some value
  | _ => none

def asI64 : Json → Option Int
  | .integer value => if value ≤ 9223372036854775807 then some value else none
  | _ => none

def asF64 : Json → Option UInt64
  | .integer value => some (codec.realOfInt value)
  | .real bits => some bits
  | _ => none

end Json

/-- `Map::get`. -/
def field? {β : Type} (fields : List (String × β)) (name : String) : Option β :=
  (fields.find? fun entry => decide (entry.1 = name)).map Prod.snd

/-- The object `{"type": .., "value": ..}` of a typed value; `none` if it is not
one. -/
def typedValue (kind : String) (value : Json) : Option (Except Error SqliteValue) :=
  match kind with
  | "null" => some (.ok .null)
  | "integer" => value.asI64.map fun found => .ok (.integer found)
  | "real" => (value.asF64 codec).map fun found => .ok (.real found)
  | "text" => value.asStr.map fun found => .ok (.text found)
  | "blob" => value.asStr.map fun found =>
    match codec.decode64 found with
    | some bytes => .ok (.blob bytes)
    | none => .error (.configuration "invalid base64 in blob value")
  | _ => none

def jsonToSqlValue : Json → Except Error SqliteValue
  | .null => .ok .null
  | .bool value => .ok (.integer (if value then 1 else 0))
  | .integer value =>
    match (Json.integer value).asI64 with
    | some found => .ok (.integer found)
    | none => .ok (.real (codec.realOfInt value))
  | .real bits => .ok (.real bits)
  | .string value => .ok (.text value)
  | .object fields =>
    match field? fields "type", field? fields "value" with
    | some kind, some value =>
      match kind.asStr.bind fun kind => typedValue codec kind value with
      | some result => result
      | none => .ok (.text (codec.render (.object fields)))
    | _, _ => .ok (.text (codec.render (.object fields)))
  | .array items => .ok (.text (codec.render (.array items)))

/-! ### Rows -/

/-- What the link knows of a row that came from Low. -/
structure Provenance where
  streamId : String
  ownedFields : List String
deriving DecidableEq

/-- The tables of High, each row under its table and the values of its
primary-key columns, and `__galv_highlow_provenance`. -/
structure HighDb where
  rows : IndexMap (String × List (String × SqliteValue)) (List (String × SqliteValue))
  provenance : IndexMap (String × String) Provenance

/-- `BTreeMap::insert`. -/
def insertSorted {β : Type} (name : String) (value : β) : List (String × β) → List (String × β)
  | [] => [(name, value)]
  | (held, old) :: rest =>
    if name = held then (name, value) :: rest
    else if name < held then (name, value) :: (held, old) :: rest
    else (held, old) :: insertSorted name value rest

/-- A `BTreeMap` of entries inserted one after the other. -/
def sortedMap {β : Type} (entries : List (String × β)) : List (String × β) :=
  entries.foldl (fun map entry => insertSorted entry.1 entry.2 map) []

/-- `SET name = value`. -/
def setColumn (row : List (String × SqliteValue)) (entry : String × SqliteValue) : List (String × SqliteValue) :=
  insertSorted entry.1 entry.2 row

def validIdentifier (value : String) : Bool := identifier value

def bindJson (entry : String × Json) : Except Error (String × SqliteValue) :=
  (jsonToSqlValue codec entry.2).map fun value => (entry.1, value)

def bindColumn (column : Column) : Except Error (String × SqliteValue) :=
  (toSqlValue codec column.value).map fun value => (column.name, value)

/-- `cols_map`: the primary key, then the columns. -/
def colsMap (event : Event) : Except Error (List (String × SqliteValue)) := do
  let key ← event.primaryKey.mapM (bindJson codec)
  let columns ← event.columns.mapM (bindColumn codec)
  .ok (sortedMap (key ++ columns))

def Event.isKey (event : Event) (name : String) : Bool := event.primaryKey.any fun entry => entry.1 = name

def canonicalPrimaryKey (primaryKey : List (String × Json)) : Except Error String :=
  if primaryKey.isEmpty then .error (.configuration "primary key is empty")
  else .ok (codec.render (.object primaryKey))

variable (db : HighDb) (event : Event)

def HighDb.ownedFields (table key : String) : List String :=
  ((db.provenance.get? (table, key)).map Provenance.ownedFields).getD []

/-- `INSERT INTO .. ON CONFLICT (pk) DO UPDATE SET ..`: a new row gets all
columns, an old one those that High does not own. -/
def HighDb.upsertRow (table : String) (key columns updates : List (String × SqliteValue)) : HighDb :=
  { db with
    rows := db.rows.upsert (table, key) fun held =>
      match held with
      | some row => updates.foldl setColumn row
      | none => columns }

/-- `mark_low_origin`. -/
def HighDb.markLowOrigin (key : String) : HighDb :=
  { db with
    provenance := db.provenance.upsert (event.table, key) fun held =>
      ⟨event.streamId, (held.map Provenance.ownedFields).getD []⟩ }

/-- Sets the columns that High does not own. -/
def applyUpsert : Except Error HighDb := do
  let cols ← colsMap codec event
  if cols.isEmpty then .ok db
  else if (cols.any fun entry => !validIdentifier entry.1) || !validIdentifier event.table then
    .error (.configuration "unsafe table or column name")
  else
    let key ← canonicalPrimaryKey codec event.primaryKey
    let columns := cols.filter fun entry => !event.isKey entry.1
    let updates := columns.filter fun entry => decide (entry.1 ∉ db.ownedFields event.table key)
    let upserted := db.upsertRow event.table (cols.filter fun entry => event.isKey entry.1) columns updates
    .ok (upserted.markLowOrigin event key)

/-- One term of the `WHERE` clause of a delete. -/
def bindWhere (entry : String × Json) : Except Error (String × SqliteValue) :=
  if !validIdentifier entry.1 then .error (.configuration "unsafe primary-key name") else bindJson codec entry

/-- `DELETE FROM table WHERE name = ? AND ..`: no row has a key that equals null. -/
def HighDb.deleteRow (db : HighDb) (table : String) (key : List (String × SqliteValue)) : HighDb :=
  { db with rows := if key.any fun entry => entry.2 = .null then db.rows else db.rows.shiftRemove (table, key) }

/-- Deletes a row, and the note of its origin. -/
def applyDelete : Except Error HighDb := do
  if event.primaryKey.isEmpty then .error (.configuration "delete event has empty primary key")
  else if !validIdentifier event.table then .error (.configuration "unsafe table name")
  else
    let bound ← event.primaryKey.mapM (bindWhere codec)
    let key ← canonicalPrimaryKey codec event.primaryKey
    .ok { db.deleteRow event.table bound with provenance := db.provenance.shiftRemove (event.table, key) }

/-- One event of `apply_bundle`. -/
def applyEvent : Except Error HighDb := do
  event.validate codec
  match event.operation with
  | .upsert => applyUpsert codec db event
  | .delete => applyDelete codec db event

/-- Events one after the other, as long as all of them apply. -/
def applyEvents (events : List Event) : Except Error HighDb := events.foldlM (applyEvent codec) db

/-! ### The inbox -/

structure InboxRow where
  bundleId : String
  streamId : String
  sequenceFirst : Int
  sequenceLast : Int
  detail : Option String
deriving DecidableEq

structure StreamRow where
  highestSeen : Int
  highestContiguous : Int
deriving DecidableEq

structure High where
  db : HighDb
  inbox : List InboxRow
  streams : IndexMap String StreamRow

/-- `register_received`: the sequence numbers are noted, not compared. -/
def registerReceived (high : High) (bundle : Bundle) : Except Error (High × Bool) := do
  bundle.validate codec
  if high.inbox.any fun row => row.bundleId = bundle.bundleId then .ok (high, false)
  else
    .ok ({ high with
      inbox := high.inbox ++ [⟨bundle.bundleId, bundle.streamId, bundle.sequenceFirst, bundle.sequenceLast, none⟩]
      streams := high.streams.upsert bundle.streamId fun held =>
        match held with
        | some row => { row with highestSeen := max row.highestSeen bundle.sequenceLast }
        | none => ⟨bundle.sequenceLast, 0⟩ }, true)

/-- `UPDATE __galv_highlow_inbox SET detail`. -/
def setDetail (manifest bundleId : String) (row : InboxRow) : InboxRow :=
  if row.bundleId = bundleId then { row with detail := some manifest } else row

/-! ### The receiver -/

/-- What the surroundings do in one turn of the receiver's loop. -/
structure Attempt where
  manifest : String
  /-- No connection to look the manifest up in the inbox. -/
  inboxUnread : Bool
  fetchFails : Bool
  /-- The hash of High's schema, or `empty_schema` where it cannot be computed. -/
  schemaHash : String
  /-- Any other failure of `open`: signature, digest, decryption, JSON. -/
  openFails : Bool
  /-- No write connection, or no transaction. -/
  beginFails : Bool
  /-- The events whose statement SQLite refuses. -/
  refuses : Event → Bool
  /-- A failure after the events: the note of the manifest, the bookkeeping of
  the local changes, or the commit. -/
  finishFails : Bool

/-- `apply_bundle`, in a transaction in which statements can fail. -/
def applyBundle (refuses : Event → Bool) (db : HighDb) (bundle : Bundle) : Except Error HighDb := do
  bundle.validate codec
  bundle.events.foldlM (fun db event => do
    let next ← applyEvent codec db event
    refuseIf (refuses event) (.configuration "failed to execute")
    .ok next) db

/-- The events of a bundle that is new, with the note of its manifest. -/
def applyRegistered (attempt : Attempt) (bundle : Bundle) (registered : High × Bool) : Except Error High :=
  if registered.2 then
    (applyBundle codec attempt.refuses registered.1.db bundle).map fun db =>
      { registered.1 with db := db, inbox := registered.1.inbox.map (setDetail attempt.manifest bundle.bundleId) }
  else .ok registered.1

/-- `process_incoming_bundle`: one transaction. -/
def processIncomingBundle (attempt : Attempt) (high : High) (bundle : Bundle) : Except Error High := do
  refuseIf attempt.beginFails (.io "no transaction")
  let registered ← registerReceived codec high bundle
  let applied ← applyRegistered codec attempt bundle registered
  refuseIf attempt.finishFails (.io "transaction failed")
  .ok applied

/-- The bundle is fetched and opened, and its stream is accepted. -/
def Attempt.opens (attempt : Attempt) (accepted : List String) (high : High) (bundle : Bundle) : Bool :=
  (attempt.inboxUnread || !high.inbox.any fun row => row.detail = some attempt.manifest)
    && !attempt.fetchFails && decide (bundle.schemaHash = attempt.schemaHash) && !attempt.openFails
    && decide (bundle.streamId ∈ accepted)

/-- One turn of the loop over the manifests. A bundle that is held, or fails, is
left for the next round, and the loop goes on with the next manifest. -/
def receive (accepted : List String) (high : High) (attempt : Attempt) (bundle : Bundle) : High :=
  if attempt.opens accepted high bundle then
    match processIncomingBundle codec attempt high bundle with
    | .ok next => next
    | .error _ => high
  else high

/-- The turn for a manifest; there is nothing to fetch under other names. -/
def receiveFrom (accepted : List String) (published : List (String × Bundle)) (high : High) (attempt : Attempt) :
    High :=
  match field? published attempt.manifest with
  | some bundle => receive codec accepted high attempt bundle
  | none => high

end Galvanize.HighLow
