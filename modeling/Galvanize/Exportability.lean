import Galvanize.ExporterSafety

/-! Which captured events get through the exporter: the checks of an event, of
what is read back from its JSON and of the bundles it can be in. -/
namespace Galvanize.HighLow
open List

variable {codec : Codec} {sealer : Sealer} {low : LowConfig} {event other : Event} {events : List Event}

/-! ### The checks of an event -/

theorem Event.validate_iff : event.validate codec = .ok () ↔
      (event.streamId.isEmpty = false ∧ 0 < event.sequence ∧ event.transactionId.isEmpty = false ∧
        event.table.isEmpty = false ∧ event.sourceActor.isEmpty = false) ∧
      event.primaryKey ≠ [] ∧ (event.operation = .delete → event.columns = []) ∧
      ∀ column ∈ event.columns, column.validate codec = .ok () := by
  rw [Event.validate, unit_bind_ok, unit_bind_ok, unit_bind_ok, forM_ok_iff]
  simp [and_assoc]

variable {sequence : Int}

theorem validateFrom_iff : validateFrom codec streamId sequence events = .ok () ↔
      ∀ (i : Nat) event, events[i]? = some event →
        event.validate codec = .ok () ∧ event.streamId = streamId ∧ event.sequence = sequence + i := by
  induction events generalizing sequence with
  | nil => exact ⟨fun _ _ _ found => (nomatch found), fun _ => rfl⟩
  | cons first events ih =>
    rw [validateFrom, unit_bind_ok, unit_bind_ok, ih, refuseIf_ok]
    simp only [Bool.or_eq_false_iff, decide_eq_false_iff_not, not_not]
    constructor
    · rintro ⟨valid, ⟨stream, number⟩, rest⟩ i event found
      cases i with
      | zero =>
        cases found
        exact ⟨valid, stream, by rw [number]; simp⟩
      | succ i =>
        obtain ⟨validEvent, own, numbered⟩ := rest i event found
        exact ⟨validEvent, own, by rw [numbered]; push_cast; omega⟩
    · intro all
      obtain ⟨valid, stream, number⟩ := all 0 first rfl
      refine ⟨valid, ⟨stream, by simpa using number⟩, fun i event found => ?_⟩
      obtain ⟨validEvent, own, numbered⟩ := all (i + 1) event found
      exact ⟨validEvent, own, by rw [numbered]; push_cast; omega⟩

/-- The events of one stream under consecutive numbers. -/
def Contiguous (streamId : String) (sequence : Int) (events : List Event) : Prop :=
  ∀ (i : Nat) event, events[i]? = some event → event.streamId = streamId ∧ event.sequence = sequence + i

theorem validateEvents_iff (contiguous : Contiguous streamId sequence events)
    (nonempty : events ≠ []) (few : events.length ≤ maxEventsPerBundle) :
    validateEvents codec events = .ok () ↔ ∀ event ∈ events, event.validate codec = .ok () := by
  cases events with
  | nil => exact absurd rfl nonempty
  | cons first events =>
    obtain ⟨stream, number⟩ := contiguous 0 first rfl
    rw [validateEvents, if_neg (by omega), validateFrom_iff, stream, number]
    constructor
    · intro all event member
      obtain ⟨i, found⟩ := mem_iff_getElem?.mp member
      exact (all i event found).1
    · intro all i event found
      obtain ⟨own, numbered⟩ := contiguous i event found
      exact ⟨all event (mem_of_getElem? found), own, by rw [numbered]; simp⟩

/-! ### What is read back -/

theorem rereadFields_isSome (fields : List (String × Json)) :
    (Json.rereadFields codec fields).isSome = true ↔ ∀ entry ∈ fields, (entry.2.reread codec).isSome = true := by
  induction fields with
  | nil => simp [Json.rereadFields]
  | cons entry fields ih =>
    obtain ⟨_, value⟩ := entry
    rw [Json.rereadFields, forall_mem_cons, ← ih]
    cases value.reread codec <;> cases Json.rereadFields codec fields <;> simp

theorem rereadFields_nonempty {fields read : List (String × Json)} (is : Json.rereadFields codec fields = some read)
    (some_ : fields ≠ []) : read ≠ [] := by
  cases fields with
  | nil => exact absurd rfl some_
  | cons entry fields =>
    obtain ⟨_, value⟩ := entry
    rw [Json.rereadFields] at is
    cases first : value.reread codec with
    | none => simp [first] at is
    | some value =>
      cases rest : Json.rereadFields codec fields with
      | none => simp [first, rest] at is
      | some fields =>
        simp only [first, rest, Option.bind_eq_bind, Option.bind_some, Option.some.injEq] at is
        simp [← is]

theorem Event.reread_iff :
    event.reread codec = .ok other ↔ ∃ primaryKey columns, Json.rereadFields codec event.primaryKey = some primaryKey ∧
      event.columns.mapM (Column.reread codec) = some columns ∧ other = { event with primaryKey, columns } := by
  rw [Event.reread]
  cases Json.rereadFields codec event.primaryKey <;> cases event.columns.mapM (Column.reread codec) <;>
    simp [eq_comm]

/-- An event passes its check, can be read back and passes it again. -/
def EventFits (codec : Codec) (event : Event) : Prop :=
  event.validate codec = .ok () ∧ ∃ other, event.reread codec = .ok other ∧ other.validate codec = .ok ()

def ColumnFits (codec : Codec) (column : Column) : Prop :=
  column.validate codec = .ok () ∧ ∃ other, column.reread codec = some other ∧ other.validate codec = .ok ()

theorem eventFits_iff : EventFits codec event ↔
      (event.streamId.isEmpty = false ∧ 0 < event.sequence ∧ event.transactionId.isEmpty = false ∧
        event.table.isEmpty = false ∧ event.sourceActor.isEmpty = false) ∧
      event.primaryKey ≠ [] ∧ (∀ entry ∈ event.primaryKey, (entry.2.reread codec).isSome = true) ∧
      (event.operation = .delete → event.columns = []) ∧ ∀ column ∈ event.columns, ColumnFits codec column := by
  constructor
  · rintro ⟨valid, _, read, validAgain⟩
    obtain ⟨ids, key, deletes, columns⟩ := Event.validate_iff.mp valid
    obtain ⟨primaryKey, others, readKey, readColumns, rfl⟩ := Event.reread_iff.mp read
    refine ⟨ids, key, (rereadFields_isSome _).mp (by rw [readKey]; rfl), deletes, fun column member => ?_⟩
    obtain ⟨again, listed, found⟩ := (mapM_some readColumns).1 column member
    exact ⟨columns column member, again, found, (Event.validate_iff.mp validAgain).2.2.2 again listed⟩
  · rintro ⟨ids, key, readable, deletes, columns⟩
    obtain ⟨primaryKey, readKey⟩ := Option.isSome_iff_exists.mp ((rereadFields_isSome _).mpr readable)
    obtain ⟨others, readColumns⟩ := @mapM_isSome _ _ (Column.reread codec) event.columns fun column member =>
      ⟨_, (columns column member).2.choose_spec.1⟩
    refine ⟨Event.validate_iff.mpr ⟨ids, key, deletes, fun column member => (columns column member).1⟩, _,
      Event.reread_iff.mpr ⟨primaryKey, others, readKey, readColumns, rfl⟩, Event.validate_iff.mpr ⟨ids, ?_, ?_, ?_⟩⟩
    · exact rereadFields_nonempty readKey key
    · intro delete
      rw [deletes delete] at readColumns
      cases readColumns
      rfl
    · intro again listed
      obtain ⟨column, member, found⟩ := (mapM_some readColumns).2 again listed
      obtain ⟨-, _, read, valid⟩ := columns column member
      rw [read] at found
      cases found
      exact valid

/-! ### Captured events -/

/-- A cell whose value gets through. -/
def CellFits (codec : Codec) : SqliteValue → Prop
  | .real bits => isFinite bits = true ∧ ∃ again, codec.reread bits = some again ∧ isFinite again = true
  | .text value => value.utf8ByteSize ≤ maxValueBytes
  | .blob bytes => bytes.length ≤ maxValueBytes
  | _ => True

/-- A changed row whose event gets through. -/
structure RowFits (codec : Codec) (low : LowConfig) (group : (String × List UInt8) × List Change) : Prop where
  stream : low.streamId.isEmpty = false
  table : group.1.1.isEmpty = false
  key : pkMap low group.1.1 group.1.2 ≠ []
  readableKey : ∀ entry ∈ pkMap low group.1.1 group.1.2, (entry.2.reread codec).isSome = true
  cells : (∃ change ∈ group.2, change.cid = sentinel) ∨
    ∀ change ∈ group.2, identifier change.cid = true ∧ CellFits codec change.val

theorem Column.validate_iff {column : Column} :
    column.validate codec = .ok () ↔ identifier column.name = true ∧ column.value.validate codec = .ok () := by
  rw [Column.validate, unit_bind_ok, refuseIf_ok, Bool.not_eq_false']

theorem columnFits_iff (name : String) (value : SqliteValue) :
    ColumnFits codec ⟨name, columnValue codec value⟩ ↔ identifier name = true ∧ CellFits codec value := by
  simp only [ColumnFits, Column.validate_iff, Column.reread]
  cases value with
  | null | integer value | text value => simp [columnValue, Value.validate, Value.reread, CellFits]
  | blob _ =>
    simp [columnValue, Value.validate, Value.reread, CellFits, codec.decode_encode]
  | real bits =>
    cases finite : isFinite bits with
    | false => simp [columnValue, Value.validate, CellFits, finite]
    | true =>
      cases again : codec.reread bits with
      | none => simp [columnValue, Value.reread, CellFits, finite, again]
      | some _ =>
        simp [columnValue, Value.validate, Value.reread, CellFits, finite, again]

theorem hexEncode_nonempty (nonempty : bytes ≠ []) : (hexEncode bytes).isEmpty = false := by
  cases bytes with
  | nil => exact absurd rfl nonempty
  | cons _ bytes => simp [hexEncode]

theorem actorText_nonempty (actor : ActorId) : (actorText actor).isEmpty = false := by
  apply hexEncode_nonempty
  intro none
  have length := BigEndian.length_toBytes 16 actor.toNat
  rw [none] at length
  cases length

theorem captureColumns_fit (changes : List Change) :
    (∀ column ∈ if changes.any (fun change => change.cid = sentinel) then [] else captureColumns codec changes,
      ColumnFits codec column) ↔ ((∃ change ∈ changes, change.cid = sentinel) ∨
      ∀ change ∈ changes, identifier change.cid = true ∧ CellFits codec change.val) := by
  by_cases deletes : ∃ change ∈ changes, change.cid = sentinel
  · have isDelete : changes.any (fun change => change.cid = sentinel) = true := by simpa using deletes
    rw [if_pos isDelete]
    exact ⟨fun _ => .inl deletes, fun _ column member => nomatch member⟩
  · have isUpsert : ¬ changes.any (fun change => change.cid = sentinel) = true := by simpa using deletes
    rw [if_neg isUpsert, captureColumns, forall_mem_map]
    simp only [mem_filter, and_imp, columnFits_iff]
    constructor
    · intro fits
      refine .inr fun change member => fits change member ?_
      simpa using fun same => deletes ⟨change, member, same⟩
    · intro fits change member _
      exact fits.resolve_left deletes change member

theorem captureEvent_fits {written : WrittenVersion} (positive : 0 < sequence)
    (group : (String × List UInt8) × List Change) :
    EventFits codec (captureEvent codec low written sequence group) ↔ RowFits codec low group := by
  have actor := actorText_nonempty written.actorId
  have transaction : (actorText written.actorId ++ ":" ++ toString written.dbVersion).isEmpty = false := by
    simp
  have deletes : (captureEvent codec low written sequence group).operation = .delete →
      (captureEvent codec low written sequence group).columns = [] := by
    simp only [captureEvent]
    intro delete
    split at delete
    case isTrue isDelete => rw [if_pos isDelete]
    case isFalse => cases delete
  rw [eventFits_iff]
  constructor
  · rintro ⟨⟨stream, -, -, table, -⟩, key, readable, -, columns⟩
    exact ⟨stream, table, key, readable, (captureColumns_fit group.2).mp columns⟩
  · rintro ⟨stream, table, key, readable, cells⟩
    exact ⟨⟨stream, positive, transaction, table, actor⟩, key, readable, deletes,
      (captureColumns_fit group.2).mpr cells⟩

/-! ### Captured journals -/

def noFaults : CaptureFaults := ⟨false, false, false, fun _ => false⟩

/-- The journal of a node that has captured some versions. -/
def captureAll (codec : Codec) (low : LowConfig) (written : List WrittenVersion) : List JournalRow :=
  written.foldl (fun journal version => (captureEvents codec low noFaults version journal).1) []

/-- The journal with its first rows exported. -/
def exportFirst (count : Nat) (journal : List JournalRow) : List JournalRow :=
  journal.zipIdx.map fun entry => { entry.1 with exported := decide (entry.2 < count) }

theorem captureAll_eq (written : List WrittenVersion) :
    captureAll codec low written = journalRows codec low 0 (changedRows written) := by
  induction written using reverseRecOn with
  | nil => rfl
  | append_singleton written version ih =>
    obtain ⟨_, _, journalled, all⟩ := @captureEvents_spec codec low noFaults version (captureAll codec low written)
    have whole := all.mpr (.inr ⟨rfl, rfl, rfl, fun _ _ => rfl⟩)
    have last : lastSequence low.streamId (journalRows codec low 0 (changedRows written)) =
      (changedRows written).length := by
      have counted := @lastSequence_journalRows codec low [] (changedRows written)
      simpa [lastSequence, largest] using counted
    rw [whole, take_length, ih, last] at journalled
    rw [captureAll, foldl_append, changedRows_append, journalRows_append, Int.zero_add]
    simp only [foldl_cons, foldl_nil]
    rw [← captureAll, ih, journalled]
    simp [changedRows]

theorem numbered_captureAll (written : List WrittenVersion) : Numbered low (captureAll codec low written) := by
  intro i _ found
  rw [captureAll_eq] at found
  obtain ⟨stream, _, own, _, -⟩ := getElem?_journalRows found
  exact ⟨stream, by omega, own, by omega⟩

variable {journal : List JournalRow} {count : Nat}

theorem getElem?_exportFirst {i : Nat} (found : (exportFirst count journal)[i]? = some row) :
    ∃ old, journal[i]? = some old ∧ row = { old with exported := decide (i < count) } := by
  rw [exportFirst, getElem?_map, getElem?_zipIdx] at found
  simp only [Option.map_map, Option.map_eq_some_iff, Function.comp] at found
  obtain ⟨old, held, rfl⟩ := found
  exact ⟨old, held, by simp⟩

theorem numbered_exportFirst (numbered : Numbered low journal) : Numbered low (exportFirst count journal) := by
  intro i _ found
  obtain ⟨old, held, rfl⟩ := getElem?_exportFirst found
  exact numbered i old held

theorem exportedUpTo_exportFirst (within : count ≤ journal.length) :
    ExportedUpTo (exportFirst count journal) count := by
  refine ⟨by simpa [exportFirst] using within, fun i row found => ?_⟩
  obtain ⟨old, _, rfl⟩ := getElem?_exportFirst found
  simp

theorem exportFirst_events (count : Nat) (journal : List JournalRow) :
    (exportFirst count journal).map JournalRow.event = journal.map JournalRow.event := by
  rw [exportFirst, map_map]
  have same :
    (JournalRow.event ∘ fun entry : JournalRow × Nat => { entry.1 with exported := decide (entry.2 < count) }) =
      JournalRow.event ∘ Prod.fst := rfl
  rw [same, ← map_map, zipIdx_map_fst]

/-- Up to `maximum` events after the first `count`. -/
def window (journal : List JournalRow) (count maximum : Nat) : List Event :=
  ((journal.map JournalRow.event).drop count).take maximum

theorem pendingEvents_window (numbered : Numbered low journal) (within : count ≤ journal.length) :
    pendingEvents codec low.streamId batchLimit (exportFirst count journal) =
      (window journal count batchLimit).mapM (Event.reread codec) >>= validatePending codec := by
  have rows := pendingRows_eq (numbered_exportFirst numbered) (exportedUpTo_exportFirst within) batchLimit
  have events : (((exportFirst count journal).drop count).take batchLimit).mapM (fun row => row.event.reread codec) =
      (window journal count batchLimit).mapM (Event.reread codec) := by
    rw [window, ← exportFirst_events count journal, ← map_drop, ← map_take, mapM_map]
    rfl
  rw [pendingEvents, rows, events]
  rfl

/-! ### Bundles of captured events -/

/-- The exporter gets a bundle to the transport. -/
structure Sealable (sealer : Sealer) (low : LowConfig) (bundle : Bundle) : Prop where
  payloadName : validateFilename (payloadFilename low.streamId bundle) = .ok ()
  manifestName : ∃ name, manifestFilename (payloadFilename low.streamId bundle) = .ok name
  plain : sealer.plainSize bundle ≤ maxDecompressedBytes
  compressed : sealer.compressedSize bundle ≤ maxPayloadBytes
  keys : sealer.keysFail = false
  payload : sealer.payloadSize bundle ≤ maxPayloadBytes

theorem isDigest_nonempty {text : String} (digest : isDigest text = true) : text.isEmpty = false := by
  simp only [isDigest, Bool.and_eq_true, decide_eq_true_eq] at digest
  cases empty : text.isEmpty with
  | false => rfl
  | true =>
    rw [String.isEmpty_iff.mp empty] at digest
    exact absurd digest.1 (by decide)

/-- Checked events make a bundle that is valid. -/
theorem Bundle.new_valid {bundleId schemaHash : String} (checked : validateEvents codec events = .ok ())
    (id : isDigest bundleId = true) (hash : isDigest schemaHash = true) :
    ∃ bundle, Bundle.new codec bundleId events schemaHash false = .ok bundle ∧ bundle.validate codec = .ok () := by
  cases events with
  | nil => cases checked
  | cons first rest =>
    obtain ⟨last, isLast⟩ := Option.isSome_iff_exists.mp (show (first :: rest).getLast?.isSome = true by simp)
    have named := isDigest_nonempty id
    refine ⟨⟨bundleFormat, bundleId, first.streamId, first.sequence, last.sequence, schemaHash, false, first :: rest⟩,
      ?_, ?_⟩
    · rw [Bundle.new, unit_bind_ok, unit_bind_ok, isLast]
      exact ⟨checked, by simp [hash], rfl⟩
    · rw [Bundle.validate, unit_bind_ok, unit_bind_ok]
      exact ⟨by simp [named], checked, by simp [Bundle.matchesEvents, isLast]⟩

theorem sealBundle_iff : sealBundle codec sealer bundle filename = .ok artifacts ↔
      bundle.validate codec = .ok () ∧ validateFilename filename = .ok () ∧
      sealer.plainSize bundle ≤ maxDecompressedBytes ∧ sealer.compressedSize bundle ≤ maxPayloadBytes ∧
      sealer.keysFail = false ∧ sealer.payloadSize bundle ≤ maxPayloadBytes ∧ ⟨bundle, filename⟩ = artifacts := by
  rw [sealBundle, unit_bind_ok, unit_bind_ok, unit_bind_ok, unit_bind_ok, unit_bind_ok, unit_bind_ok]
  simp [refuseIf_ok]

theorem sealEvents_iff
    (made : Bundle.new codec bundleId events schemaHash false = .ok bundle) (valid : bundle.validate codec = .ok ()) :
    (∃ artifacts, sealEvents codec sealer low.streamId bundleId schemaHash events = .ok artifacts) ↔
      Sealable sealer low bundle := by
  constructor
  · rintro ⟨artifacts, done⟩
    obtain ⟨_, again, rest⟩ := bind_ok done
    rw [made] at again
    cases again
    obtain ⟨name, manifest, rest⟩ := bind_ok rest
    obtain ⟨-, payloadName, plain, compressed, keys, payload, -⟩ := sealBundle_iff.mp rest
    exact ⟨payloadName, ⟨name, manifest⟩, plain, compressed, keys, payload⟩
  · rintro ⟨payloadName, ⟨name, manifest⟩, plain, compressed, keys, payload⟩
    have done := sealBundle_iff.mpr ⟨valid, payloadName, plain, compressed, keys, payload, rfl⟩
    refine ⟨⟨bundle, payloadFilename low.streamId bundle⟩, ?_⟩
    rw [sealEvents, made]
    change (manifestFilename _ >>= fun _ => _) = _
    rw [manifest]
    exact done

/-! ### The queue -/

/-- The events in a journal pass their check; and however many of them have been
exported, the next ones are read, and every batch of them can be sealed. -/
def Exportable (codec : Codec) (sealer : Sealer) (low : LowConfig) (journal : List JournalRow) : Prop :=
  (∀ row ∈ journal, row.event.validate codec = .ok ()) ∧
  ∀ count ≤ journal.length, ∃ events, pendingEvents codec low.streamId batchLimit (exportFirst count journal) =
    .ok events ∧ ∀ size, 0 < size → size ≤ events.length → ∀ bundleId schemaHash, isDigest bundleId = true →
      isDigest schemaHash = true →
      ∃ artifacts, sealEvents codec sealer low.streamId bundleId schemaHash (events.take size) = .ok artifacts

/-- The bundles of up to a batch of events in a row can be sealed. -/
def BatchesFit (codec : Codec) (sealer : Sealer) (low : LowConfig) (journal : List JournalRow) : Prop :=
  ∀ count size, 0 < size → size ≤ batchLimit → count + size ≤ journal.length →
    ∀ bundleId schemaHash, isDigest bundleId = true → isDigest schemaHash = true →
      ∀ events, (window journal count size).mapM (Event.reread codec) = .ok events →
        ∀ bundle, Bundle.new codec bundleId events schemaHash false = .ok bundle → Sealable sealer low bundle

section Queue
variable {count size : Nat}

theorem window_take (small : size ≤ batchLimit) : (window journal count batchLimit).take size =
    window journal count size := by
  rw [window, take_take, Nat.min_eq_left small, window]

theorem length_window : (window journal count size).length = min size (journal.length - count) := by
  simp [window]

theorem mem_window (member : event ∈ window journal count size) : ∃ row ∈ journal, row.event = event :=
  List.mem_map.mp (List.mem_of_mem_drop (List.mem_of_mem_take member))

/-- What is read back from a window is contiguous. -/
theorem contiguous_window (numbered : Numbered low journal)
    (read : (window journal count size).mapM (Event.reread codec) = .ok events) :
    Contiguous low.streamId (count + 1) events := by
  intro i _ found
  obtain ⟨_, taken, reread⟩ := forall₂_getElem? (mapM_ok_iff.mp read) found
  rw [window, getElem?_take] at taken
  split at taken
  case isFalse => cases taken
  case isTrue =>
    rw [getElem?_drop, getElem?_map] at taken
    obtain ⟨row, held, rfl⟩ := Option.map_eq_some_iff.mp taken
    obtain ⟨stream, sequence⟩ := Event.reread_ids reread
    obtain ⟨-, -, own, number⟩ := numbered _ row held
    exact ⟨by rw [stream, own], by rw [sequence, number]; push_cast; omega⟩

theorem window_reread (fits : ∀ row ∈ journal, EventFits codec row.event) (count size : Nat) :
    ∃ events, (window journal count size).mapM (Event.reread codec) = .ok events ∧
      ∀ event ∈ events, event.validate codec = .ok () := by
  have each : ∀ event ∈ window journal count size, EventFits codec event := by
    intro event member
    obtain ⟨row, listed, rfl⟩ := mem_window member
    exact fits row listed
  generalize window journal count size = sources at each
  induction sources with
  | nil => exact ⟨[], rfl, fun _ member => nomatch member⟩
  | cons source sources ih =>
    obtain ⟨-, other, read, valid⟩ := each source mem_cons_self
    obtain ⟨others, readOthers, validOthers⟩ := ih fun event member => each event (mem_cons_of_mem source member)
    refine ⟨other :: others, mapM_ok_iff.mpr (.cons read (mapM_ok_iff.mp readOthers)), ?_⟩
    exact forall_mem_cons.mpr ⟨valid, validOthers⟩

theorem pendingEvents_iff (numbered : Numbered low journal) (within : count ≤ journal.length) :
    pendingEvents codec low.streamId batchLimit (exportFirst count journal) = .ok events ↔
      (window journal count batchLimit).mapM (Event.reread codec) = .ok events ∧
        ∀ event ∈ events, event.validate codec = .ok () := by
  rw [pendingEvents_window numbered within]
  have checks (read : (window journal count batchLimit).mapM (Event.reread codec) = .ok events) :
      validatePending codec events = .ok events ↔ ∀ event ∈ events, event.validate codec = .ok () := by
    have few : events.length ≤ maxEventsPerBundle := by
      have length := (mapM_ok_iff.mp read).length_eq
      rw [length_window] at length
      simp only [batchLimit, maxEventsPerBundle] at length ⊢
      omega
    cases empty : events.isEmpty with
    | true =>
      rw [isEmpty_iff.mp empty]
      exact ⟨fun _ _ member => (nomatch member), fun _ => rfl⟩
    | false =>
      rw [← validateEvents_iff (contiguous_window numbered read) (isEmpty_eq_false_iff.mp empty) few, validatePending,
        empty]
      cases validateEvents codec events <;> simp [Except.map]
  constructor
  · intro pending
    obtain ⟨found, read, checked⟩ := bind_ok pending
    have same : found = events := by
      rw [validatePending] at checked
      split at checked
      · cases checked
        rfl
      · obtain ⟨-, -, same⟩ := map_ok checked
        exact same
    rw [same] at read checked
    exact ⟨read, (checks read).mp checked⟩
  · rintro ⟨read, valid⟩
    rw [read]
    exact (checks read).mpr valid

/-- A shorter batch is the start of a longer one. -/
theorem reread_take (read : (window journal count batchLimit).mapM (Event.reread codec) = .ok events)
    (small : size ≤ batchLimit) : (window journal count size).mapM (Event.reread codec) = .ok (events.take size) := by
  rw [← window_take small]
  exact mapM_ok_iff.mpr (forall₂_take size (mapM_ok_iff.mp read))

theorem exportable_journal_iff (numbered : Numbered low journal) : Exportable codec sealer low journal ↔
      (∀ row ∈ journal, EventFits codec row.event) ∧ BatchesFit codec sealer low journal := by
  constructor
  · rintro ⟨valid, queue⟩
    refine ⟨fun row member => ⟨valid row member, ?_⟩, ?_⟩
    · -- the row is the first one of the batch that starts with it
      obtain ⟨i, inside, rfl⟩ := getElem_of_mem member
      obtain ⟨events, pending, -⟩ := queue i (by omega)
      obtain ⟨read, checked⟩ := (pendingEvents_iff numbered (by omega)).mp pending
      have length := (mapM_ok_iff.mp read).length_eq
      rw [length_window, batchLimit] at length
      have some : 0 < events.length := by omega
      obtain ⟨source, first, reread⟩ := forall₂_getElem? (mapM_ok_iff.mp read) (getElem?_eq_getElem some)
      have head : source = journal[i].event := by
        rw [window, getElem?_take, if_pos (by decide), getElem?_drop, getElem?_map, Nat.add_zero,
          getElem?_eq_getElem inside] at first
        cases first
        rfl
      rw [head] at reread
      exact ⟨events[0], reread, checked events[0] (getElem_mem some)⟩
    · intro count size positive small within bundleId schemaHash id hash events read bundle made
      obtain ⟨whole, pending, seals⟩ := queue count (by omega)
      obtain ⟨readWhole, -⟩ := (pendingEvents_iff numbered (by omega)).mp pending
      have length := (mapM_ok_iff.mp readWhole).length_eq
      rw [length_window] at length
      have same : whole.take size = events := by
        have again := reread_take readWhole small
        rw [read] at again
        cases again
        rfl
      have checked := (unit_bind_ok.mp made).1
      obtain ⟨other, madeOther, validOther⟩ := Bundle.new_valid checked id hash
      obtain rfl : bundle = other := Except.ok.inj (made.symm.trans madeOther)
      have sealed := seals size positive (by omega) bundleId schemaHash id hash
      rw [same] at sealed
      exact (sealEvents_iff made validOther).mp sealed
  · rintro ⟨fits, batches⟩
    refine ⟨fun row member => (fits row member).1, fun count within => ?_⟩
    obtain ⟨events, read, valid⟩ := window_reread fits count batchLimit
    refine ⟨events, (pendingEvents_iff numbered within).mpr ⟨read, valid⟩, ?_⟩
    intro size positive _ bundleId schemaHash id hash
    have length := (mapM_ok_iff.mp read).length_eq
    rw [length_window] at length
    have small : size ≤ batchLimit := by omega
    have part := reread_take read small
    have few : (events.take size).length ≤ maxEventsPerBundle := by
      simp only [length_take, batchLimit, maxEventsPerBundle] at small ⊢
      omega
    have some : events.take size ≠ [] := by
      apply length_pos_iff.mp
      rw [length_take]
      omega
    have checked := (validateEvents_iff (contiguous_window numbered part) some few).mpr fun event member =>
      valid event (mem_of_mem_take member)
    obtain ⟨bundle, made, validBundle⟩ := Bundle.new_valid checked id hash
    apply (sealEvents_iff made validBundle).mpr
    exact batches count size positive small (by omega) bundleId schemaHash id hash _ part bundle made

end Queue

theorem captureAll_fits (written : List WrittenVersion) :
    (∀ row ∈ captureAll codec low written, EventFits codec row.event) ↔
      ∀ row ∈ changedRows written, RowFits codec low row.2 := by
  rw [captureAll_eq]
  have all (sequence : Int) (positive : 0 ≤ sequence) :
      (∀ row ∈ journalRows codec low sequence (changedRows written), EventFits codec row.event) ↔
        ∀ row ∈ changedRows written, RowFits codec low row.2 := by
    induction changedRows written generalizing sequence with
    | nil => exact ⟨fun _ _ member => (nomatch member), fun _ _ member => (nomatch member)⟩
    | cons row _ ih =>
      rw [journalRows, forall_mem_cons, forall_mem_cons, ih (sequence + 1) (by omega), captureEvent_fits (by omega)]
  exact all 0 (Int.le_refl 0)

/-- For every set of captured row changes: all of its events pass the checks, are
read back and can be sealed in any batch, exactly if every changed row fits and
no batch is too large. -/
theorem captured_exportable_iff (codec : Codec) (sealer : Sealer) (low : LowConfig) (written : List WrittenVersion) :
    Exportable codec sealer low (captureAll codec low written) ↔
      (∀ row ∈ changedRows written, RowFits codec low row.2) ∧
        BatchesFit codec sealer low (captureAll codec low written) := by
  rw [exportable_journal_iff (numbered_captureAll written), captureAll_fits]

/-! ### A column with a blank in its name -/

/-- A local write to the column `full name` of a user. -/
def fullName : WrittenVersion := ⟨1, 1, [⟨"users", [1, 9, 1], "full name", .text "x", 1, 1, 0, 1, 1⟩], 0⟩

/-- Its event never leaves the journal, and holds up all that follow. -/
theorem full_name_blocks : (captureAll plainCodec usersLow [fullName]).length = 1 ∧
    pendingEvents plainCodec "low" batchLimit (captureAll plainCodec usersLow [fullName]) =
      .error (.configuration "invalid event column name") ∧
    ¬ Exportable plainCodec lightSealer usersLow (captureAll plainCodec usersLow [fullName]) := by
  refine ⟨by decide, rfl, fun exportable => ?_⟩
  obtain ⟨_, pending, -⟩ := exportable.2 0 (Nat.zero_le _)
  cases pending

end Galvanize.HighLow
