import Galvanize.KeyTravel
import Galvanize.OperationKind

/-! High's own writes next to the events from Low. A local write is followed, in
its transaction, by a capture that notes the written fields of rows from Low as
High's (`corro-types/src/change.rs`), and an upsert from Low leaves such fields
alone (`galv-highlow/src/apply.rs`). The two know a row by its table and the JSON
text of its key. -/
namespace Galvanize.HighLow

variable (codec : Codec) {schema : LowConfig}

/-- A row that High changes, the texts of whose key are UTF-8. -/
structure HighRow (schema : LowConfig) extends LowRow schema where
  keyValues : List SqliteValue
  decoded : toLowRow.values = keyValues.map SqliteValue.asRef

/-- The primary key, by name. -/
def HighRow.key (row : HighRow schema) : List (String × SqliteValue) := sortedMap (row.names.zip row.keyValues)

/-! ### The capture of ownership -/

/-- The `key` of `capture_highlow_ownership_for_actor`: names and values as in
`pk_map`, and nothing for a `pk` that does not unpack. -/
def ownershipKey (schema : LowConfig) (table : String) (pk : List UInt8) : List (String × Json) :=
  match unpackColumns pk with
  | .ok values => sortedMap (values.zipIdx.map fun entry => (keyName schema table entry.2, keyJson schema entry.1))
  | .error _ => []

section
variable (origins : IndexMap (String × String) Provenance) (table : String) (primaryKey : List (String × Json))

/-- `remove_provenance`. -/
def removeProvenance :
    Except Error (IndexMap (String × String) Provenance) := do
  let key ← canonicalPrimaryKey codec primaryKey
  .ok (origins.shiftRemove (table, key))

/-- `extend` of a `BTreeSet`. -/
def extendSet (set more : List String) :
    List String := (sortedMap ((set ++ more).map fun name => (name, ()))).map Prod.fst

/-- `mark_high_ownership`. -/
def markHighOwnership (columns : List String) : Except Error (IndexMap (String × String) Provenance) := do
  let key ← canonicalPrimaryKey codec primaryKey
  match origins.get? (table, key) with
  | none => .ok origins
  | some old => .ok (origins.upsert (table, key) fun _ =>
    { old with ownedFields := extendSet old.ownedFields (columns.filter identifier) })

/-- One row of `capture_highlow_ownership_for_actor`. -/
def captureOwnership (row : HighRow schema) :
    Except Error (IndexMap (String × String) Provenance) :=
  let key := ownershipKey schema row.table row.pk
  let columns := row.changes.map Change.cid
  if isInternal row.table || key.isEmpty then .ok origins
  else if columns.any fun column => column = sentinel then removeProvenance codec origins row.table key
  else markHighOwnership codec origins row.table key columns

end

/-! ### Local writes -/

/-- The cells of a row that its changes name. -/
def cellsOf (changes : List Change) : List (String × SqliteValue) :=
  (changes.filter fun change => change.cid ≠ sentinel).map fun change => (change.cid, change.val)

/-- What a transaction with these changes of a row has made of it: it is gone at
an even causal length, and new if its sentinel is among the changes. -/
def writeRow (rows : IndexMap (String × List (String × SqliteValue)) (List (String × SqliteValue)))
    (row : HighRow schema) : IndexMap (String × List (String × SqliteValue)) (List (String × SqliteValue)) :=
  if row.changes.any fun change => change.cl % 2 = 0 then rows.shiftRemove (row.table, row.key)
  else rows.upsert (row.table, row.key) fun held =>
    match held with
    | some old =>
      if row.changes.any fun change => change.cid = sentinel then sortedMap (cellsOf row.changes)
      else (cellsOf row.changes).foldl setColumn old
    | none => sortedMap (cellsOf row.changes)

/-- A local transaction: its statements, then the capture. -/
def localWrite (db : HighDb) (changed : List (HighRow schema)) : Except Error HighDb := do
  let origins ← changed.foldlM (captureOwnership codec) db.provenance
  .ok { rows := changed.foldl writeRow db.rows, provenance := origins }

/-- What is done on High: an event of a bundle is applied, or High writes. -/
inductive HighStep (schema : LowConfig) where
  | low (event : Event)
  | high (changed : List (HighRow schema))

def HighStep.apply (db : HighDb) : HighStep schema → Except Error HighDb
  | .low event => applyEvent codec db event
  | .high changed => localWrite codec db changed

/-- A row of High: its table, and the values of its key by name. -/
abbrev Address := String × List (String × SqliteValue)

/-- What has happened to a row since it was last deleted. -/
structure Tracked where
  /-- Low has written it. -/
  lowOrigin : Bool
  /-- The fields that High has written since. -/
  owned : List String
  /-- The last value from Low of each field. -/
  latest : List (String × SqliteValue)

namespace Tracked

def start : Tracked := ⟨false, [], []⟩

def lowUpsert (tracked : Tracked) (cells : List (String × SqliteValue)) : Tracked :=
  ⟨true, tracked.owned, cells.foldl setColumn tracked.latest⟩

def highWrite (tracked : Tracked) (names : List String) : Tracked :=
  if tracked.lowOrigin then { tracked with owned := tracked.owned ++ names } else tracked

end Tracked

/-- The columns of an upsert, without its key. -/
def Event.cells (event : Event) : List (String × SqliteValue) :=
  match colsMap codec event with
  | .ok cols => cols.filter fun entry => !event.isKey entry.1
  | .error _ => []

def trackRow (address : Address) (tracked : Tracked) (row : HighRow schema) : Tracked :=
  if (row.table, row.key) = address then
    if row.changes.any fun change => change.cid = sentinel then .start
    else tracked.highWrite (row.changes.map Change.cid)
  else tracked

def trackEvent (address : Address) (tracked : Tracked) (event : Event) : Tracked :=
  match boundKey codec event with
  | .ok key =>
    if (event.table, key) = address then
      match event.operation with
      | .upsert => tracked.lowUpsert (event.cells codec)
      | .delete => .start
    else tracked
  | .error _ => tracked

def trackStep (address : Address) (tracked : Tracked) : HighStep schema → Tracked
  | .low event => trackEvent codec address tracked event
  | .high changed => changed.foldl (trackRow address) tracked

def track (steps : List (HighStep schema)) (address : Address) : Tracked := steps.foldl (trackStep codec address) .start

/-- The stored value of a field. -/
def HighDb.stored (db : HighDb) (address : Address) (name : String) : Option SqliteValue :=
  (db.rows.get? address).bind fun row => field? row name

/-! ### Two names of a row -/

/-- A row that is written, and the name it has in the provenance table. -/
abbrev Identity := Address × (String × String)

def Event.identity (event : Event) : List Identity :=
  match boundKey codec event, canonicalPrimaryKey codec event.primaryKey with
  | .ok key, .ok text => [((event.table, key), (event.table, text))]
  | _, _ => []

def HighRow.identity (row : HighRow schema) : List Identity :=
  match canonicalPrimaryKey codec (ownershipKey schema row.table row.pk) with
  | .ok text => [((row.table, row.key), (row.table, text))]
  | .error _ => []

def HighStep.identities : HighStep schema → List Identity
  | .low event => event.identity codec
  | .high changed => changed.flatMap (HighRow.identity codec)

end Galvanize.HighLow
