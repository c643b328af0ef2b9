import Galvanize.Changeset

/-! The one-way link from a Low to a High database (`galv-highlow/src/lib.rs`):
typed values, events, bundles and their checks. JSON text, base64 and sizes of
encoded data are the work of other libraries and come in as a `Codec`. -/
namespace Galvanize.HighLow

/-- `galv_highlow::Error`. -/
inductive Error where
  | configuration (message : String)
  | integrity (message : String)
  | io (message : String)
deriving DecidableEq

/-- `if bad { return Err(error) }`. -/
def refuseIf (bad : Bool) (error : Error) : Except Error Unit := if bad then .error error else .ok ()

@[simp] theorem refuseIf_ok : refuseIf bad error = .ok () ↔ bad = false := by
  cases bad <;> simp [refuseIf]

/-- `serde_json::Value`. Maps are ordered by key. -/
inductive Json where
  | null
  | bool (value : Bool)
  /-- An integer between the smallest `i64` and the largest `u64`. -/
  | integer (value : Int)
  | real (bits : UInt64)
  | string (value : String)
  | array (items : List Json)
  | object (fields : List (String × Json))

/-- A typed value, its blobs in base64. -/
inductive Value where
  | null
  | integer (value : Int)
  | real (bits : UInt64)
  | text (value : String)
  | blob (base64 : String)
deriving DecidableEq

/-- What other libraries do with values. -/
structure Codec where
  /-- `STANDARD_NO_PAD`. -/
  encode64 : List UInt8 → String
  decode64 : String → Option (List UInt8)
  decode_encode : ∀ bytes, decode64 (encode64 bytes) = some bytes
  /-- The text `serde_json` makes of a value. -/
  render : Json → String
  /-- What `serde_json` reads back from the text of a finite double: it may be
  off in the last place, or out of range. -/
  reread : UInt64 → Option UInt64
  /-- The double nearest to an integer. -/
  realOfInt : Int → UInt64

/-- `f64::is_finite`, on the bits. -/
def isFinite (bits : UInt64) : Bool := (bits >>> 52) &&& 0x7ff != 0x7ff

def maxValueBytes : Nat := 4 * 1024 * 1024

def maxEventsPerBundle : Nat := 100000

def maxDecompressedBytes : Nat := 64 * 1024 * 1024

def maxPayloadBytes : Nat := 64 * 1024 * 1024

/-- `identifier`: letters, digits and underscores, no digit first. -/
def identifier (value : String) : Bool :=
  !value.toList.isEmpty && value.toList.zipIdx.all fun entry =>
    entry.1 = '_' || (entry.1.isAlphanum && (decide (0 < entry.2) || !entry.1.isDigit))

def Value.validate (codec : Codec) : Value → Except Error Unit
  | .real bits =>
    if isFinite bits then .ok () else .error (.configuration "non-finite real values are unsupported")
  | .text value =>
    if maxValueBytes < value.utf8ByteSize then .error (.configuration "text value exceeds size limit") else .ok ()
  | .blob base64 =>
    match codec.decode64 base64 with
    | none => .error (.configuration "blob is not base64")
    | some decoded =>
      if maxValueBytes < decoded.length then .error (.configuration "blob value exceeds size limit") else .ok ()
  | _ => .ok ()

structure Column where
  name : String
  value : Value
deriving DecidableEq

inductive Operation where
  | upsert
  | delete
deriving DecidableEq

structure Event where
  streamId : String
  sequence : Int
  transactionId : String
  table : String
  /-- The primary-key columns by name. -/
  primaryKey : List (String × Json)
  operation : Operation
  columns : List Column
  sourceActor : String
  committedAtMs : Int

variable (codec : Codec)

/-- The check of one column of an event. -/
def Column.validate (column : Column) : Except Error Unit := do
  refuseIf (!identifier column.name) (.configuration "invalid event column name")
  column.value.validate codec

def Event.validate (event : Event) : Except Error Unit := do
  refuseIf (event.streamId.isEmpty || event.sequence ≤ 0 || event.transactionId.isEmpty || event.table.isEmpty
    || event.sourceActor.isEmpty) (.configuration "event has required empty fields")
  refuseIf event.primaryKey.isEmpty (.configuration "event primary key is empty")
  refuseIf (event.operation = .delete && !event.columns.isEmpty) (.configuration "delete event has columns")
  event.columns.forM fun column => column.validate codec

/-- The loop of `validate_events`: one contiguous stream. -/
def validateFrom (codec : Codec) (streamId : String) : Int → List Event → Except Error Unit
  | _, [] => .ok ()
  | sequence, event :: events => do
    event.validate codec
    refuseIf (event.streamId ≠ streamId || event.sequence ≠ sequence)
      (.configuration "bundle events must form one contiguous stream")
    validateFrom codec streamId (sequence + 1) events

def validateEvents (events : List Event) : Except Error Unit :=
  match events with
  | [] => .error (.configuration "cannot create an empty bundle")
  | first :: _ =>
    if maxEventsPerBundle < events.length then .error (.configuration "bundle has too many events")
    else validateFrom codec first.streamId first.sequence events

def bundleFormat : String := "galvanize-highlow/1"

structure Bundle where
  format : String
  bundleId : String
  streamId : String
  sequenceFirst : Int
  sequenceLast : Int
  schemaHash : String
  replay : Bool
  events : List Event

/-- The envelope of a bundle says of its events what they are. -/
def Bundle.matchesEvents (bundle : Bundle) : Bool :=
  match bundle.events.head?, bundle.events.getLast? with
  | some first, some last =>
    bundle.streamId = first.streamId && bundle.sequenceFirst = first.sequence && bundle.sequenceLast = last.sequence
  | _, _ => false

def Bundle.validate (bundle : Bundle) : Except Error Unit := do
  refuseIf (bundle.format ≠ bundleFormat || bundle.bundleId.isEmpty) (.configuration "unsupported bundle format")
  validateEvents codec bundle.events
  refuseIf (!bundle.matchesEvents) (.integrity "bundle envelope does not match events")

/-- A SHA-256 digest in hexadecimal. -/
def isDigest (text : String) : Bool :=
  text.utf8ByteSize = 64 && text.toList.all fun c => c.isDigit || ('a' ≤ c && c ≤ 'f') || ('A' ≤ c && c ≤ 'F')

/-- `Bundle::new`; the id is a digest of the range and the time. -/
def Bundle.new (bundleId : String) (events : List Event) (schemaHash : String) (replay : Bool) :
    Except Error Bundle := do
  validateEvents codec events
  refuseIf (!isDigest schemaHash) (.configuration "schema_hash must be a SHA-256 hex digest")
  match events.head?, events.getLast? with
  | some first, some last =>
    .ok { format := bundleFormat
          bundleId := bundleId
          streamId := first.streamId
          sequenceFirst := first.sequence
          sequenceLast := last.sequence
          schemaHash := schemaHash
          replay := replay
          events := events }
  | _, _ => .error (.configuration "cannot create an empty bundle")

/-! ### A codec to evaluate with -/

theorem byte_char (byte : UInt8) : UInt8.ofNat (Char.ofNat byte.toNat).toNat = byte := by
  have small : byte.toNat < 256 := byte.toNat_lt
  have valid : byte.toNat.isValidChar := .inl (by omega)
  have char : Char.ofNat byte.toNat = Char.ofNatAux byte.toNat valid := dif_pos valid
  rw [char]
  exact UInt8.ofNat_toNat

/-- Bytes as characters, and one text for all keys. -/
def plainCodec : Codec where
  encode64 := fun bytes => String.ofList (bytes.map fun byte => Char.ofNat byte.toNat)
  decode64 := fun text => some (text.toList.map fun char => UInt8.ofNat char.toNat)
  decode_encode := by
    intro bytes
    simp only [String.toList_ofList, List.map_map, Option.some.injEq]
    conv_rhs => rw [← List.map_id bytes]
    apply List.map_congr_left
    intro byte _
    exact byte_char byte
  render := fun _ => "key"
  reread := some
  realOfInt := fun _ => 0

end Galvanize.HighLow
