import Galvanize.LowCapture

/-! The exporter of a Low node: reading the journal, sealing and the outbox
(`galv-highlow/src/lib.rs`), publication (`galv-highlow/src/transport.rs`) and the
loop that goes through them (`corro-agent/src/agent/highlow.rs`). -/
namespace Galvanize.HighLow

variable (codec : Codec)

/-! ### Values read back from their JSON -/

/-- A double that is not finite is written as null, which is no number. -/
def Value.reread : Value → Option Value
  | .real bits => if isFinite bits then (codec.reread bits).map .real else none
  | value => some value

mutual

def Json.reread : Json → Option Json
  | .real bits => if isFinite bits then (codec.reread bits).map .real else some .null
  | .array items => (Json.rereadItems items).map .array
  | .object fields => (Json.rereadFields fields).map .object
  | value => some value

def Json.rereadItems : List Json → Option (List Json)
  | [] => some []
  | item :: items => do
    let item ← Json.reread item
    let items ← Json.rereadItems items
    some (item :: items)

def Json.rereadFields : List (String × Json) → Option (List (String × Json))
  | [] => some []
  | (name, value) :: fields => do
    let value ← Json.reread value
    let fields ← Json.rereadFields fields
    some ((name, value) :: fields)

end

def Column.reread (column : Column) : Option Column := (column.value.reread codec).map fun value => ⟨column.name, value⟩

/-- The event that is read from the text of one. -/
def Event.reread (event : Event) : Except Error Event :=
  match Json.rereadFields codec event.primaryKey, event.columns.mapM (Column.reread codec) with
  | some primaryKey, some columns => .ok { event with primaryKey := primaryKey, columns := columns }
  | _, _ => .error (.configuration "JSON error")

/-! ### Pending events -/

/-- The rows that are not exported, in the order of their numbers. -/
def pendingRows (streamId : String) (maximum : Nat) (journal : List JournalRow) : List JournalRow :=
  ((journal.filter fun row => row.streamId = streamId && !row.exported).insertionSort fun row other =>
    row.sequence ≤ other.sequence).take maximum

/-- The check of a batch that is not empty. -/
def validatePending (events : List Event) : Except Error (List Event) :=
  if events.isEmpty then .ok events else (validateEvents codec events).map fun _ => events

/-- The first events that are not exported yet. -/
def pendingEvents (streamId : String) (maximum : Nat) (journal : List JournalRow) : Except Error (List Event) := do
  refuseIf (maximum = 0 || maxEventsPerBundle < maximum) (.configuration "invalid pending-event limit")
  let events ← (pendingRows streamId maximum journal).mapM fun row => row.event.reread codec
  validatePending codec events

/-! ### File names -/

/-- Two dots in a row. -/
def hasDots : List Char → Bool
  | '.' :: '.' :: _ => true
  | _ :: rest => hasDots rest
  | [] => false

def validateFilename (filename : String) : Except Error Unit :=
  refuseIf (filename.toList.isEmpty || 255 < filename.utf8ByteSize || filename.toList.head? = some '.'
    || filename.toList.contains '/' || filename.toList.contains '\\' || hasDots filename.toList
    || !filename.toList.all fun c => c.isAlphanum || c = '.' || c = '_' || c = '-')
    (.configuration "unsafe artifact filename")

def stripSuffix (suffix text : String) : Option String :=
  if suffix.toList.isSuffixOf text.toList then
    some (String.ofList (text.toList.take (text.toList.length - suffix.toList.length)))
  else none

def manifestFilename (payload : String) : Except Error String :=
  match stripSuffix ".zstd.galvh" payload with
  | none => .error (.configuration "payload filename must end in .zstd.galvh")
  | some base => (validateFilename (base ++ ".json.galv")).map fun _ => base ++ ".json.galv"

/-- A positive number with leading zeros. -/
def padded (number : Int) : String :=
  String.ofList (List.replicate (16 - (toString number).toList.length) '0') ++ toString number

def payloadFilename (streamId : String) (bundle : Bundle) : String :=
  streamId ++ "-" ++ padded bundle.sequenceLast ++ "-" ++ String.ofList (bundle.bundleId.toList.take 8) ++ ".zstd.galvh"

/-! ### Sealing -/

/-- What serialization, compression and encryption make of a bundle. -/
structure Sealer where
  plainSize : Bundle → Nat
  compressedSize : Bundle → Nat
  payloadSize : Bundle → Nat
  /-- No random numbers, or a key that is none. -/
  keysFail : Bool

/-- A sealed bundle with its manifest. -/
structure Artifacts where
  bundle : Bundle
  payloadFilename : String

/-- `seal`. -/
def sealBundle (sealer : Sealer) (bundle : Bundle) (filename : String) : Except Error Artifacts := do
  bundle.validate codec
  validateFilename filename
  refuseIf (maxDecompressedBytes < sealer.plainSize bundle) (.configuration "bundle exceeds decompressed size limit")
  refuseIf (maxPayloadBytes < sealer.compressedSize bundle) (.configuration "bundle exceeds compressed size limit")
  refuseIf sealer.keysFail (.configuration "invalid key")
  refuseIf (maxPayloadBytes < sealer.payloadSize bundle) (.configuration "sealed payload exceeds size limit")
  .ok ⟨bundle, filename⟩

/-- From the selected events to the artifacts. -/
def sealEvents (sealer : Sealer) (streamId bundleId schemaHash : String) (events : List Event) :
    Except Error Artifacts := do
  let bundle ← Bundle.new codec bundleId events schemaHash false
  let _ ← manifestFilename (payloadFilename streamId bundle)
  sealBundle codec sealer bundle (payloadFilename streamId bundle)

/-! ### The outbox -/

structure OutboxRow where
  bundleId : String
  streamId : String
  sequenceFirst : Int
  sequenceLast : Int
  payloadFilename : String
  uploaded : Bool
deriving DecidableEq

def Artifacts.outboxRow (artifacts : Artifacts) : OutboxRow where
  bundleId := artifacts.bundle.bundleId
  streamId := artifacts.bundle.streamId
  sequenceFirst := artifacts.bundle.sequenceFirst
  sequenceLast := artifacts.bundle.sequenceLast
  payloadFilename := artifacts.payloadFilename
  uploaded := false

/-- `record_outbox`: ids and file names are unique. -/
def recordOutbox (outbox : List OutboxRow) (artifacts : Artifacts) : Except Error (List OutboxRow) := do
  validateFilename artifacts.payloadFilename
  let _ ← manifestFilename artifacts.payloadFilename
  refuseIf (outbox.any fun row =>
    row.bundleId = artifacts.bundle.bundleId || row.payloadFilename = artifacts.payloadFilename)
    (.configuration "SQLite journal error")
  .ok (outbox ++ [artifacts.outboxRow])

/-- `SET uploaded_at_ms`. -/
def OutboxRow.upload (bundleId : String) (row : OutboxRow) : OutboxRow :=
  if row.bundleId = bundleId then { row with uploaded := true } else row

/-- `SET exported_at_ms`, for the numbers of a bundle. -/
def JournalRow.markExported (sent : OutboxRow) (row : JournalRow) : JournalRow :=
  if row.streamId = sent.streamId && sent.sequenceFirst ≤ row.sequence && row.sequence ≤ sent.sequenceLast then
    { row with exported := true }
  else row

/-- A bundle is uploaded, and its events are exported. -/
def markUploaded (outbox : List OutboxRow) (journal : List JournalRow) (bundleId : String) :
    Except Error (List OutboxRow × List JournalRow) :=
  match outbox.find? fun row => row.bundleId = bundleId with
  | none => .error (.configuration "unknown outbox bundle")
  | some sent => .ok (outbox.map (OutboxRow.upload bundleId), journal.map (JournalRow.markExported sent))

/-! ### The loop -/

/-- How far a round of the exporter is. -/
inductive Phase where
  | idle
  | selected (events : List Event) (schemaHash : String)
  | sealed (artifacts : Artifacts)
  | recorded (artifacts : Artifacts)
  /-- The payload is in place, the manifest is not. -/
  | uploading (artifacts : Artifacts)
  | published (artifacts : Artifacts)

/-- The database of a Low node, the files at the transport and the exporter. The
manifest of a payload has the payload's name with another ending: both go by the
payload's name here. -/
structure LowNode where
  journal : List JournalRow
  outbox : List OutboxRow
  payloads : IndexMap String Bundle
  manifests : IndexMap String Bundle
  phase : Phase

/-- A new node. -/
def LowNode.new : LowNode := ⟨[], [], ∅, ∅, .idle⟩

/-- What can happen next. The `_ = tx.commit()` of the exporter hides whether a
transaction was committed. -/
inductive LowAction where
  /-- A transaction of the node, with its capture. -/
  | append (transaction : LowTransaction)
  | select (schemaHash : String)
  | sealEvents (bundleId : String)
  | record (commits : Bool)
  /-- A file comes into place under its name with a rename. -/
  | putPayload
  | putManifest
  | mark (commits : Bool)
  /-- An error, a shutdown or a crash: the next round starts anew. -/
  | abandon

def batchLimit : Nat := 1000

variable (sealer : Sealer) (low : LowConfig) (node : LowNode) (artifacts : Artifacts)

def LowNode.select (schemaHash : String) : LowNode :=
  match pendingEvents codec low.streamId batchLimit node.journal with
  | .ok [] => node
  | .ok events => { node with phase := .selected events schemaHash }
  | .error _ => node

def LowNode.sealSelected (events : List Event) (schemaHash bundleId : String) : LowNode :=
  match sealEvents codec sealer low.streamId bundleId schemaHash events with
  | .ok artifacts => { node with phase := .sealed artifacts }
  | .error _ => { node with phase := .idle }

def LowNode.record (commits : Bool) : LowNode :=
  match recordOutbox node.outbox artifacts with
  | .ok outbox => { node with outbox := if commits then outbox else node.outbox, phase := .recorded artifacts }
  | .error _ => { node with phase := .idle }

def LowNode.putPayload : LowNode :=
  { node with
    payloads := node.payloads.upsert artifacts.payloadFilename fun _ => artifacts.bundle
    phase := .uploading artifacts }

def LowNode.putManifest : LowNode :=
  { node with
    manifests := node.manifests.upsert artifacts.payloadFilename fun _ => artifacts.bundle
    phase := .published artifacts }

def LowNode.mark (commits : Bool) : LowNode :=
  match markUploaded node.outbox node.journal artifacts.bundle.bundleId with
  | .ok (outbox, journal) =>
    if commits then { node with outbox := outbox, journal := journal, phase := .idle } else { node with phase := .idle }
  | .error _ => { node with phase := .idle }

/-- One step of the node; an action that is not up leaves it as it is. -/
def LowNode.step (action : LowAction) : LowNode :=
  match action, node.phase with
  | .append transaction, _ => { node with journal := (transaction.outcome codec low node.journal).journal }
  | .abandon, _ => { node with phase := .idle }
  | .select schemaHash, .idle => node.select codec low schemaHash
  | .sealEvents bundleId, .selected events schemaHash => node.sealSelected codec sealer low events schemaHash bundleId
  | .record commits, .sealed artifacts => node.record artifacts commits
  | .putPayload, .recorded artifacts => node.putPayload artifacts
  | .putManifest, .uploading artifacts => node.putManifest artifacts
  | .mark commits, .published artifacts => node.mark artifacts commits
  | _, _ => node

/-- A new node after some actions. -/
def LowNode.run (actions : List LowAction) : LowNode := actions.foldl (LowNode.step codec sealer low) LowNode.new

end Galvanize.HighLow
