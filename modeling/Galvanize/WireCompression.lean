import Galvanize.ValueCodec

/-! `corro-types/src/compress.rs`: changes that are compressed for the wire, with or
without a trained dictionary, and what the peer makes of them. The compressor itself is
given by what it does. -/
namespace Galvanize
open ByteCodec List Std.ExtTreeMap SyncMessage

inductive IoError where
  | invalidData (message : String)
  | other (message : String)
deriving DecidableEq

/-- zstd. -/
structure Zstd where
  /-- `get_dict_id_from_dict`. -/
  dictId : List UInt8 → Option Nat
  /-- `get_dict_id_from_frame`. -/
  frameDictId : List UInt8 → Option Nat
  encode : (level : Int) → (dict : Option (List UInt8)) → List UInt8 → Except IoError (List UInt8)
  /-- A decoder's stream: what it gives before it ends or fails. -/
  decode : (dict : Option (List UInt8)) → List UInt8 → Except IoError (List UInt8 × Option IoError)

/-- What was compressed comes out again, and a frame names the dictionary it was made with. -/
structure Zstd.Lossless (zstd : Zstd) : Prop where
  decodes : ∀ {level dict data frame}, zstd.encode level dict data = .ok frame →
    zstd.decode dict frame = .ok (data, none)
  names : ∀ {level dict data frame}, zstd.encode level dict data = .ok frame → zstd.frameDictId frame =
    dict.bind zstd.dictId

/-- `ZstdDicts`. -/
structure ZstdDicts where
  encoder : Option (List UInt8 × Int)
  decoders : Map Nat (List UInt8)

inductive CompressError where
  | write (error : WriteError)
  | read (error : ReadError)
  | io (error : IoError)
deriving DecidableEq

inductive WireCompression where
  | compressed (data : List UInt8)
  | uncompressed

/-- `MAX_DECOMPRESSED_SIZE`. -/
def maxDecompressedSize : Nat := 10485760

section
variable (zstd : Zstd)

def registerDecoder (decoders : Map Nat (List UInt8)) (bytes : List UInt8) : Map Nat (List UInt8) :=
  match zstd.dictId bytes with
  | some id => decoders.insertIfNew id bytes
  | none => decoders

/-- `ZstdDicts::new`: a dictionary without an id is used to encode all the same. -/
def ZstdDicts.new (encoderBytes : Option (List UInt8)) (level : Int) (decoderBytes : List (List UInt8)) :
    ZstdDicts where
  encoder := encoderBytes.map fun bytes => (bytes, level)
  decoders := (encoderBytes.toList ++ decoderBytes).foldl (registerDecoder zstd) ∅

def encodeAllWithDict (data : List UInt8) (level : Int) (dicts : Option ZstdDicts) : Except IoError (List UInt8) :=
  match dicts.bind ZstdDicts.encoder with
  | some (bytes, own) => zstd.encode own (some bytes) data
  | none => zstd.encode level none data

/-- `take(limit).read_to_end`. -/
def readToEnd (limit : Nat) (stream : List UInt8 × Option IoError) : Except IoError (List UInt8) :=
  if limit ≤ stream.1.length then .ok (stream.1.take limit)
  else
    match stream.2 with
    | some error => .error error
    | none => .ok stream.1

/-- The decoder that a frame asks for. -/
def decoderFor (data : List UInt8) (dicts : Option ZstdDicts) : Except IoError (Option (List UInt8)) :=
  match dicts, zstd.frameDictId data with
  | some dicts, some id =>
    match dicts.decoders[id]? with
    | some bytes => .ok (some bytes)
    | none => .error (.invalidData s!"no known compression dict for id {id}")
  | _, _ => .ok none

def limited (maxSize : Nat) (buf : List UInt8) : Except IoError (List UInt8) :=
  if maxSize < buf.length then .error (.invalidData s!"decompressed payload exceeds {maxSize} bytes") else .ok buf

def decodeAllWithDict (data : List UInt8) (dicts : Option ZstdDicts) (maxSize : Nat) : Except IoError (List UInt8) := do
  let dict ← decoderFor zstd data dicts
  let stream ← zstd.decode dict data
  let buf ← readToEnd (maxSize + 1) stream
  limited maxSize buf

def compressChange (change : ChangeV1) (level : Int) (dicts : Option ZstdDicts) :
    Except CompressError (List UInt8) := do
  let encoded ← (Wire.changeV1.write change).mapError .write
  (encodeAllWithDict zstd encoded level dicts).mapError .io

def decompressChange (data : List UInt8) (dicts : Option ZstdDicts) : Except CompressError ChangeV1 := do
  let decompressed ← (decodeAllWithDict zstd data dicts maxDecompressedSize).mapError .io
  (Wire.changeV1.read.run decompressed).mapError .read

def tryCompressChangeForWire (change : ChangeV1) (level : Int) (dicts : Option ZstdDicts) :
    Except CompressError WireCompression := do
  let raw ← (Wire.changeV1.write change).mapError .write
  let compressed ← compressChange zstd change level dicts
  .ok (if compressed.length < raw.length then .compressed compressed else .uncompressed)

/-- `compress_changeset`: whatever fails, the change is sent as it is. -/
def SyncMessage.compressChangeset (level : Int) : SyncMessage → SyncMessage
  | .v1 (.changeset change) =>
    match tryCompressChangeForWire zstd change level none with
    | .ok (.compressed data) => .v1 (.compressedChangeset data)
    | _ => .v1 (.changeset change)
  | other => other

inductive SyncMessageDecodeError where
  | decode (error : ReadError)
  | compress (error : CompressError)
deriving DecidableEq

/-- What `from_buf` makes of a message it has read. -/
def SyncMessage.decompressed : SyncMessage → Except SyncMessageDecodeError SyncMessage
  | .v1 (.compressedChangeset data) =>
    (decompressChange zstd data none).mapError .compress |>.map fun change => .v1 (.changeset change)
  | other => .ok other

def SyncMessage.fromBuf (buf : List UInt8) : Except SyncMessageDecodeError SyncMessage := do
  let message ← (Wire.syncMessage.read.run buf).mapError .decode
  message.decompressed zstd

/-- `compress_for_wire`. -/
def BroadcastV1.compressForWire (level : Int) (dicts : Option ZstdDicts) : BroadcastV1 → BroadcastV1
  | .change held =>
    match tryCompressChangeForWire zstd held level dicts with
    | .ok (.compressed data) => .compressedChange data
    | _ => .change held
  | other => other

def BroadcastV1.intoChange (dicts : Option ZstdDicts) : BroadcastV1 → Except CompressError ChangeV1
  | .change held => .ok held
  | .compressedChange data => decompressChange zstd data dicts

end

/-! ### A change that was encoded -/

namespace Wire

theorem strict_text : text.Strict := fun _ _ _ => trivial

theorem strict_actorId : actorId.Strict := (strict_raw 16).record

theorem strict_range : range.Strict := (strict_u64.pair strict_u64).record

theorem strict_change : change.Strict :=
  (strict_text.pair (strict_blob.pair (strict_text.pair (strict_sqliteValue.pair (strict_i64.pair
    (strict_u64.pair (strict_u64.pair (strict_actorId.pair strict_i64)))))))).record

theorem strict_columnChange : columnChange.Strict :=
  (strict_text.pair (strict_sqliteValue.pair (strict_i64.pair (strict_u64.pair strict_i64)))).record

theorem strict_changesetPerTable : changesetPerTable.Strict :=
  strict_text.indexMap (strict_blob.indexMap strict_columnChange.list)

theorem strict_changeset : changeset.Strict := by
  apply (strict_word 4).enum
  simp only [changesetKinds, forall_mem_cons]
  refine ⟨?_, ?_, ?_, ?_, by simp⟩
  · exact (strict_range.pair strict_u64.option.orOnEof).kind
  · exact (strict_u64.pair (strict_change.list.pair (strict_range.pair (strict_u64.pair strict_u64)))).kind
  · exact (strict_range.list.pair strict_u64).kind
  · exact (strict_actorId.pair (strict_u64.pair (strict_changesetPerTable.pair (strict_u64.pair
      (strict_range.pair strict_u64))))).kind

theorem strict_unvalidatedChangeV1 : unvalidatedChangeV1.Strict := (strict_actorId.pair strict_changeset).record

variable {change : ChangeV1} {raw : List UInt8}

theorem accepted_changeV1 (written : changeV1.write change = .ok raw) (valid : change.validate = .ok ()) :
    changeV1.Accepted change :=
  ⟨strict_unvalidatedChangeV1 change raw written, valid⟩

/-- What an encoded change is read as is decided by its validation alone. -/
theorem read_changeV1_iff (written : changeV1.write change = .ok raw) :
    changeV1.read.run raw = .ok change ↔ change.validate = .ok () := by
  constructor
  · intro ok
    exact (changeV1.yields.run ok).2
  · intro valid
    exact (changeV1.reads (accepted_changeV1 written valid) written).run

end Wire

/-! ### Compression -/

variable {raw : List UInt8}

section
variable {zstd : Zstd} {level : Int} {dicts : Option ZstdDicts} {change : ChangeV1}

/-- The change becomes shorter by compression. -/
structure Shrinks (zstd : Zstd) (level : Int) (dicts : Option ZstdDicts) (change : ChangeV1)
    (raw frame : List UInt8) : Prop where
  written : Wire.changeV1.write change = .ok raw
  encoded : encodeAllWithDict zstd raw level dicts = .ok frame
  shorter : frame.length < raw.length

theorem mapError_ok {x : Except ε α} : x.mapError f = .ok value ↔ x = .ok value := by
  cases x with
  | error e =>
    constructor
    · intro same
      cases same
    · intro same
      cases same
  | ok _ =>
    constructor
    · intro same
      cases same
      rfl
    · intro same
      cases same
      rfl

variable {frame : List UInt8}

theorem tryCompress_compressed : tryCompressChangeForWire zstd change level dicts = .ok (.compressed frame) ↔
      ∃ raw, Shrinks zstd level dicts change raw frame := by
  unfold tryCompressChangeForWire compressChange
  rw [bind_ok_iff]
  constructor
  · rintro ⟨raw, isRaw, rest⟩
    have written := mapError_ok.mp isRaw
    obtain ⟨compressed, isCompressed, same⟩ := bind_ok rest
    obtain ⟨encoded, isEncoded, framed⟩ := bind_ok isCompressed
    cases isRaw.symm.trans isEncoded
    by_cases shorter : compressed.length < raw.length
    · rw [if_pos shorter] at same
      cases same
      exact ⟨raw, written, mapError_ok.mp framed, shorter⟩
    · rw [if_neg shorter] at same
      cases same
  · rintro ⟨raw, shrinks⟩
    have written : (Wire.changeV1.write change).mapError CompressError.write = .ok raw :=
      mapError_ok.mpr shrinks.written
    refine ⟨raw, written, ?_⟩
    rw [bind_ok_iff]
    refine ⟨frame, ?_, by rw [if_pos shrinks.shorter]⟩
    rw [bind_ok_iff]
    exact ⟨raw, written, mapError_ok.mpr shrinks.encoded⟩

/-- The encoder's dictionary, if there is one, has an id by which the peer finds it. -/
def Keyed (zstd : Zstd) (dicts : Option ZstdDicts) : Prop :=
  ∀ bytes own, dicts.bind ZstdDicts.encoder = some (bytes, own) → zstd.dictId bytes ≠ none

theorem keyed_none (zstd : Zstd) : Keyed zstd none := by
  intro _ _ isEncoder
  cases isEncoder

/-- Dictionaries as a node loads them. -/
def Loaded (zstd : Zstd) (dicts : Option ZstdDicts) : Prop :=
  dicts = none ∨ ∃ encoderBytes level decoderBytes, dicts = some (ZstdDicts.new zstd encoderBytes level decoderBytes)

variable {bytes : List UInt8}

theorem registered_kept {id : Nat} (held : decoders[id]? = some bytes)
    (more : List (List UInt8)) : (more.foldl (registerDecoder zstd) decoders)[id]? = some bytes := by
  induction more generalizing decoders with
  | nil => exact held
  | cons first _ ih =>
    apply ih
    unfold registerDecoder
    cases zstd.dictId first with
    | none => exact held
    | some _ =>
      rw [getElem?_insertIfNew, if_neg]
      · exact held
      · rintro ⟨same, new⟩
        rw [Std.LawfulEqOrd.compare_eq_iff_eq] at same
        subst same
        apply new
        rw [mem_iff_isSome_getElem?, held]
        rfl

/-- The dictionary that the peer decodes with. -/
def decoderDict (zstd : Zstd) (dicts : Option ZstdDicts) : Option (List UInt8) :=
  (dicts.bind ZstdDicts.encoder).bind fun own => (zstd.dictId own.1).map fun _ => own.1

theorem decoderFor_encoded (lossless : zstd.Lossless) (loaded : Loaded zstd dicts) {data : List UInt8}
    (encoded : encodeAllWithDict zstd data level dicts = .ok frame) :
    decoderFor zstd frame dicts = .ok (decoderDict zstd dicts) := by
  rcases loaded with rfl | ⟨encoderBytes, own, decoderBytes, rfl⟩
  · rfl
  · cases encoderBytes with
    | none =>
      have unnamed : zstd.frameDictId frame = none := lossless.names encoded
      unfold decoderFor
      rw [unnamed]
      rfl
    | some bytes =>
      have named : zstd.frameDictId frame = zstd.dictId bytes := lossless.names encoded
      unfold decoderFor
      rw [named]
      cases isId : zstd.dictId bytes with
      | none =>
        change _ = Except.ok ((zstd.dictId bytes).map _)
        rw [isId]
        rfl
      | some id =>
        have first : (registerDecoder zstd ∅ bytes)[id]? = some bytes := by
          rw [registerDecoder, isId]
          rw [getElem?_insertIfNew, if_pos ⟨Std.ReflCmp.compare_self, not_mem_empty⟩]
        have found : (ZstdDicts.new zstd (some bytes) own decoderBytes).decoders[id]? = some bytes :=
          registered_kept first decoderBytes
        dsimp only
        rw [found]
        change _ = Except.ok ((zstd.dictId bytes).map _)
        rw [isId]
        rfl

/-- A stream is taken only if it ends well before the limit. -/
theorem readToEnd_limited :
    (readToEnd (maxSize + 1) stream >>= limited maxSize) = .ok buf ↔ stream = (buf, none) ∧ buf.length ≤ maxSize := by
  obtain ⟨data, ends⟩ := stream
  unfold readToEnd
  by_cases small : data.length ≤ maxSize
  · rw [if_neg (Nat.not_le.mpr (Nat.lt_succ_of_le small))]
    cases ends with
    | some _ =>
      constructor
      · intro same
        cases same
      · rintro ⟨same, -⟩
        cases same
    | none =>
      change limited maxSize data = _ ↔ _
      rw [limited, if_neg (Nat.not_lt.mpr small)]
      constructor
      · intro same
        cases same
        exact ⟨rfl, small⟩
      · rintro ⟨same, -⟩
        cases same
        rfl
  · have above : maxSize + 1 ≤ data.length := Nat.lt_of_not_le small
    have cut : maxSize < (data.take (maxSize + 1)).length := by
      rw [length_take_of_le above]
      exact Nat.lt_succ_self maxSize
    rw [if_pos above]
    change limited maxSize (data.take (maxSize + 1)) = _ ↔ _
    rw [limited, if_pos cut]
    constructor
    · intro same
      cases same
    · rintro ⟨same, fits⟩
      cases same
      exact absurd fits small

/-- What is too large is refused by its size. -/
theorem readToEnd_large (large : maxSize < data.length) : (readToEnd (maxSize + 1) (data, none) >>= limited maxSize) =
      .error (.invalidData s!"decompressed payload exceeds {maxSize} bytes") := by
  have cut : maxSize < (data.take (maxSize + 1)).length := by
    rw [length_take_of_le large]
    exact Nat.lt_succ_self maxSize
  rw [readToEnd, if_pos (show maxSize + 1 ≤ data.length from large)]
  exact if_pos cut

/-- The peer makes this stream of a frame. -/
structure Recovers (zstd : Zstd) (dict : Option (List UInt8)) (frame : List UInt8) (change : ChangeV1)
    (raw : List UInt8) : Prop where
  decoded : zstd.decode dict frame = .ok (raw, none)
  small : raw.length ≤ maxDecompressedSize
  readBack : Wire.changeV1.read.run raw = .ok change

theorem decompressChange_iff {dict : Option (List UInt8)} (decoder : decoderFor zstd frame dicts = .ok dict) :
    decompressChange zstd frame dicts = .ok change ↔ ∃ raw, Recovers zstd dict frame change raw := by
  unfold decompressChange decodeAllWithDict
  rw [decoder]
  constructor
  · intro ok
    obtain ⟨raw, isRaw, isChange⟩ := bind_ok ok
    obtain ⟨_, same, decoding⟩ := bind_ok (mapError_ok.mp isRaw)
    cases same
    obtain ⟨_, isStream, rest⟩ := bind_ok decoding
    obtain ⟨rfl, small⟩ := readToEnd_limited.mp rest
    exact ⟨raw, isStream, small, mapError_ok.mp isChange⟩
  · rintro ⟨raw, recovers⟩
    apply bind_ok_iff.mpr
    refine ⟨raw, mapError_ok.mpr ?_, mapError_ok.mpr recovers.readBack⟩
    change (zstd.decode dict frame >>= _) = _
    rw [recovers.decoded]
    exact readToEnd_limited.mpr ⟨rfl, recovers.small⟩

theorem decodes_keyed (lossless : zstd.Lossless) (keyed : Keyed zstd dicts)
    (encoded : encodeAllWithDict zstd raw level dicts = .ok frame) :
    zstd.decode (decoderDict zstd dicts) frame = .ok (raw, none) := by
  unfold encodeAllWithDict at encoded
  unfold decoderDict
  cases isEncoder : dicts.bind ZstdDicts.encoder with
  | none =>
    rw [isEncoder] at encoded
    exact lossless.decodes encoded
  | some own =>
    rw [isEncoder] at encoded
    obtain ⟨id, isId⟩ := Option.ne_none_iff_exists'.mp (keyed own.1 own.2 isEncoder)
    rw [Option.bind_some, isId]
    exact lossless.decodes encoded

section
variable (lossless : zstd.Lossless) (loaded : Loaded zstd dicts) (keyed : Keyed zstd dicts)
    (shrinks : Shrinks zstd level dicts change raw frame)
include lossless loaded keyed shrinks

/-- A peer with the same dictionaries takes a frame back, if it is not too large. -/
theorem decompress_keyed :
    decompressChange zstd frame dicts = .ok change ↔ change.validate = .ok () ∧ raw.length ≤ maxDecompressedSize := by
  have decodes := decodes_keyed lossless keyed shrinks.encoded
  rw [decompressChange_iff (decoderFor_encoded lossless loaded shrinks.encoded),
    ← Wire.read_changeV1_iff shrinks.written]
  constructor
  · rintro ⟨_, recovers⟩
    cases decodes.symm.trans recovers.decoded
    exact ⟨recovers.readBack, recovers.small⟩
  · rintro ⟨readBack, small⟩
    exact ⟨raw, decodes, small, readBack⟩

/-- A frame of too much is refused for its size. -/
theorem decompress_large (large : maxDecompressedSize < raw.length) : decompressChange zstd frame dicts =
      .error (.io (.invalidData s!"decompressed payload exceeds {maxDecompressedSize} bytes")) := by
  unfold decompressChange decodeAllWithDict
  rw [decoderFor_encoded lossless loaded shrinks.encoded]
  change (Except.mapError _ (zstd.decode (decoderDict zstd dicts) frame >>= _) >>= _) = _
  rw [decodes_keyed lossless keyed shrinks.encoded]
  change (Except.mapError _ (readToEnd (maxDecompressedSize + 1) (raw, none) >>= limited maxDecompressedSize) >>= _) = _
  rw [readToEnd_large large]
  rfl

end

/-- Without an id nothing tells the peer to use the dictionary. -/
theorem decompress_unkeyed (lossless : zstd.Lossless) (loaded : Loaded zstd dicts) (unkeyed : ¬Keyed zstd dicts)
    (shrinks : Shrinks zstd level dicts change raw frame) :
    decompressChange zstd frame dicts = .ok change ↔ ∃ other, Recovers zstd none frame change other := by
  apply decompressChange_iff
  rw [decoderFor_encoded lossless loaded shrinks.encoded, decoderDict]
  unfold Keyed at unkeyed
  push Not at unkeyed
  obtain ⟨_, own, isEncoder, unnamed⟩ := unkeyed
  rw [isEncoder, Option.bind_some, unnamed]
  rfl

/-! ### Messages with a change -/

namespace Wire

variable {message : SyncMessageV1}

theorem accepted_syncMessage (accepted : syncMessage.Accepted (.v1 message)) : syncMessageV1.Accepted message := by
  have held := accepted_enum rfl accepted
  exact accepted_kind.mp held

theorem accepted_syncChangeset (accepted : syncMessageV1.Accepted (.changeset change)) : changeV1.Accepted change := by
  have held := accepted_enum rfl accepted
  exact accepted_kind.mp held

/-- A message is read back if its kind takes what it holds and was written. -/
theorem read_syncMessage (written : syncMessage.write (.v1 message) = .ok bytes)
    (found : syncKinds[syncIndex message]? = some own)
    (accepted : ∀ back, own.write message = .ok back → own.Accepted message) :
    syncMessage.read.run bytes = .ok (.v1 message) := by
  have whole := written
  change writeEnum u32 (fun _ => 0) [kind syncMessageV1 syncV1Kind] (syncV1Kind.build message) = _ at whole
  obtain ⟨-, outer, _, -, isOuter, outerWritten, -⟩ := enum_written whole
  cases isOuter
  obtain ⟨-, inner, back, -, isInner, innerWritten, -⟩ := enum_written outerWritten
  cases found.symm.trans isInner
  have small : syncIndex message < 4294967296 := by cases message <;> simp [syncIndex]
  have inner : syncMessageV1.Accepted message := ⟨small, own, found, accepted back innerWritten⟩
  have outer : (kind syncMessageV1 syncV1Kind).Accepted (syncV1Kind.build message) := accepted_kind.mpr inner
  have first : u32.Accepted 0 := Nat.zero_lt_succ 4294967295
  exact (syncMessage.reads ⟨first, _, rfl, outer⟩ written).run

/-- A change that is sent as it is comes back if it is valid. -/
theorem read_syncChangeset (written : syncMessage.write (.v1 (.changeset change)) = .ok bytes)
    (valid : change.validate = .ok ()) : syncMessage.read.run bytes = .ok (.v1 (.changeset change)) := by
  refine read_syncMessage written rfl fun back wrote => ?_
  have accepted : (kind changeV1 changesetKind).Accepted (changesetKind.build change) :=
    accepted_kind.mpr (accepted_changeV1 wrote valid)
  exact accepted

/-- A frame always comes back. -/
theorem read_compressedChangeset (written : syncMessage.write (.v1 (.compressedChangeset frame)) = .ok bytes) :
    syncMessage.read.run bytes = .ok (.v1 (.compressedChangeset frame)) := by
  refine read_syncMessage written rfl fun back wrote => ?_
  have accepted : (kind blob compressedChangesetKind).Accepted (compressedChangesetKind.build frame) :=
    accepted_kind.mpr (strict_blob frame back wrote)
  exact accepted

end Wire

/-- What was compressed is validated when it comes out. -/
theorem decompress_valid (ok : decompressChange zstd frame dicts = .ok change) : change.validate = .ok () := by
  obtain ⟨raw, -, isChange⟩ := bind_ok ok
  exact (Wire.changeV1.yields.run (mapError_ok.mp isChange)).2

/-- Only valid changes come out of a message. -/
theorem SyncMessage.fromBuf_valid (ok : fromBuf zstd bytes = .ok (.v1 (.changeset change))) :
    change.validate = .ok () := by
  obtain ⟨message, isMessage, rest⟩ := bind_ok ok
  have accepted := Wire.syncMessage.yields.run (mapError_ok.mp isMessage)
  obtain ⟨held⟩ := message
  have inner := Wire.accepted_syncMessage accepted
  cases held with
  | changeset other =>
    cases rest
    exact (Wire.accepted_syncChangeset inner).2
  | compressedChangeset _ =>
    obtain ⟨_, isDecompressed, same⟩ := map_ok rest
    cases same
    exact decompress_valid (mapError_ok.mp isDecompressed)
  | state other => cases rest
  | clock ts => cases rest
  | rejection other => cases rest
  | request other => cases rest

theorem SyncMessage.compressChangeset_shrinks (shrinks : Shrinks zstd level none change raw frame) :
    (v1 (.changeset change)).compressChangeset zstd level = .v1 (.compressedChangeset frame) := by
  rw [compressChangeset, tryCompress_compressed.mpr ⟨raw, shrinks⟩]

theorem BroadcastV1.compressForWire_shrinks (shrinks : Shrinks zstd level dicts change raw frame) :
    (BroadcastV1.change change).compressForWire zstd level dicts = .compressedChange frame := by
  rw [BroadcastV1.compressForWire, tryCompress_compressed.mpr ⟨raw, shrinks⟩]

theorem tryCompress_kept (kept : ¬∃ raw frame, Shrinks zstd level dicts change raw frame) :
    (∃ e, tryCompressChangeForWire zstd change level dicts = .error e) ∨
      tryCompressChangeForWire zstd change level dicts = .ok .uncompressed := by
  cases tried : tryCompressChangeForWire zstd change level dicts with
  | error e => exact .inl ⟨e, rfl⟩
  | ok made =>
    cases made with
    | uncompressed => exact .inr rfl
    | compressed frame =>
      obtain ⟨raw, shrinks⟩ := tryCompress_compressed.mp tried
      exact absurd ⟨raw, frame, shrinks⟩ kept

theorem SyncMessage.compressChangeset_kept (kept : ¬∃ raw frame, Shrinks zstd level none change raw frame) :
    (v1 (.changeset change)).compressChangeset zstd level = .v1 (.changeset change) := by
  rcases tryCompress_kept kept with ⟨e, tried⟩ | tried <;> rw [compressChangeset, tried]

theorem BroadcastV1.compressForWire_kept (kept : ¬∃ raw frame, Shrinks zstd level dicts change raw frame) :
    (BroadcastV1.change change).compressForWire zstd level dicts = .change change := by
  rcases tryCompress_kept kept with ⟨e, tried⟩ | tried <;> rw [BroadcastV1.compressForWire, tried]

/-- What a sync message does to its change. -/
theorem SyncMessage.fromBuf_iff (lossless : zstd.Lossless)
    (written : Wire.syncMessage.write ((v1 (.changeset change)).compressChangeset zstd level) = .ok bytes) :
    fromBuf zstd bytes = .ok (.v1 (.changeset change)) ↔
      change.validate = .ok () ∧ ∀ raw frame, Shrinks zstd level none change raw frame →
        raw.length ≤ maxDecompressedSize := by
  have frames : ∀ {raw frame}, Shrinks zstd level none change raw frame →
      (fromBuf zstd bytes = .ok (.v1 (.changeset change)) ↔ decompressChange zstd frame none = .ok change) := by
    intro raw frame shrinks
    rw [compressChangeset_shrinks shrinks] at written
    rw [fromBuf, Wire.read_compressedChangeset written]
    constructor
    · intro ok
      obtain ⟨_, isDecompressed, same⟩ := map_ok ok
      cases same
      exact mapError_ok.mp isDecompressed
    · intro ok
      change (Except.mapError _ (decompressChange zstd frame none)).map _ = _
      rw [ok]
      rfl
  constructor
  · intro ok
    refine ⟨fromBuf_valid ok, fun raw frame shrinks => ?_⟩
    exact ((decompress_keyed lossless (.inl rfl) (keyed_none zstd) shrinks).mp ((frames shrinks).mp ok)).2
  · rintro ⟨valid, small⟩
    by_cases some : ∃ raw frame, Shrinks zstd level none change raw frame
    · obtain ⟨raw, frame, shrinks⟩ := some
      exact (frames shrinks).mpr ((decompress_keyed lossless (.inl rfl) (keyed_none zstd) shrinks).mpr ⟨valid,
        small raw frame shrinks⟩)
    · rw [compressChangeset_kept some] at written
      rw [fromBuf, Wire.read_syncChangeset written valid]
      rfl

/-- What a broadcast does to its change. -/
theorem BroadcastV1.intoChange_iff (lossless : zstd.Lossless) (loaded : Loaded zstd dicts) :
    ((BroadcastV1.change change).compressForWire zstd level dicts).intoChange zstd dicts = .ok change ↔
      ∀ raw frame, Shrinks zstd level dicts change raw frame →
        (Keyed zstd dicts → change.validate = .ok () ∧ raw.length ≤ maxDecompressedSize) ∧
          (¬Keyed zstd dicts → ∃ other, Recovers zstd none frame change other) := by
  constructor
  · intro ok raw frame shrinks
    rw [compressForWire_shrinks shrinks] at ok
    exact ⟨fun keyed => (decompress_keyed lossless loaded keyed shrinks).mp ok,
      fun unkeyed => (decompress_unkeyed lossless loaded unkeyed shrinks).mp ok⟩
  · intro taken
    by_cases some : ∃ raw frame, Shrinks zstd level dicts change raw frame
    · obtain ⟨raw, frame, shrinks⟩ := some
      rw [compressForWire_shrinks shrinks]
      by_cases keyed : Keyed zstd dicts
      · exact (decompress_keyed lossless loaded keyed shrinks).mpr ((taken raw frame shrinks).1 keyed)
      · exact (decompress_unkeyed lossless loaded keyed shrinks).mpr ((taken raw frame shrinks).2 keyed)
    · rw [compressForWire_kept some]
      rfl

/-- A change that the peer is sent, compressed or not, comes out of the message the same
exactly if it is valid and, where compression helps, what it is compressed from is not
larger than the decoder takes; a broadcast that was compressed with a dictionary that has
no id also has to make sense without it. -/
theorem wire_compression_lossless_iff (lossless : zstd.Lossless) (loaded : Loaded zstd dicts) :
    (∀ bytes, Wire.syncMessage.write ((SyncMessage.v1 (.changeset change)).compressChangeset zstd level) = .ok bytes →
      (SyncMessage.fromBuf zstd bytes = .ok (.v1 (.changeset change)) ↔
        change.validate = .ok () ∧ ∀ raw frame, Shrinks zstd level none change raw frame →
          raw.length ≤ maxDecompressedSize)) ∧
    (((BroadcastV1.change change).compressForWire zstd level dicts).intoChange zstd dicts = .ok change ↔
      ∀ raw frame, Shrinks zstd level dicts change raw frame →
        (Keyed zstd dicts → change.validate = .ok () ∧ raw.length ≤ maxDecompressedSize) ∧
          (¬Keyed zstd dicts → ∃ other, Recovers zstd none frame change other)) := by
  constructor
  · intro bytes written
    exact fromBuf_iff lossless written
  · exact BroadcastV1.intoChange_iff lossless loaded

end

/-! ### A large document -/

/-- A compressor for one text: a frame names its dictionary and has the text itself only if
it is another one. -/
def textZstd (known : List UInt8) : Zstd where
  dictId dict := dict.head?.map UInt8.toNat
  frameDictId
    | 1 :: id :: _ => some id.toNat
    | _ => none
  encode _ dict data :=
    let body := if data = known then [] else 0 :: data
    match dict.bind List.head? with
    | some id => .ok (1 :: id :: body)
    | none => .ok (0 :: body)
  decode
    | _, 1 :: _ :: 0 :: data => .ok (data, none)
    | _, 0 :: 0 :: data => .ok (data, none)
    | _, _ => .ok (known, none)

theorem textZstd_lossless (known : List UInt8) : (textZstd known).Lossless where
  decodes := by
    intro level dict data frame encoded
    by_cases same : data = known <;> cases isId : dict.bind head? <;>
      · simp only [textZstd, isId, same, if_true, if_false] at encoded
        cases encoded
        simp [textZstd, same]
  names := by
    intro level dict data frame encoded
    have asId : dict.bind (textZstd known).dictId = (dict.bind head?).map UInt8.toNat := by
      cases dict <;> rfl
    rw [asId]
    cases isId : dict.bind head? <;>
      · simp only [textZstd, isId] at encoded
        cases encoded
        rfl

/-- One row with a document. -/
def documentChange (body : List UInt8) : ChangeV1 where
  actorId := 7
  changeset := .full 1 [⟨"docs", [1], "body", .blob body, 1, 1, 0, 7, 1⟩] ⟨0, 0⟩ 0 0

/-- The document is in the bytes as it is. -/
theorem document_taken {body : List UInt8} (small : body.length < BigEndian.capacity 4) :
    Wire.changeV1.Takes (documentChange body) body.length := by
  -- From the inside out, each level with the bytes of the one before it.
  obtain ⟨_, isCell, more⟩ := @value_written (.blob body) small
  rw [SqliteValue.bytesNeeded] at more
  let change : Change := ⟨"docs", [1], "body", .blob body, 1, 1, 0, 7, 1⟩
  have row : Wire.change.Takes change body.length := by
    simp only [Takes, Wire.change, record, pair, writePair, change, isCell]
    exact ⟨_, rfl, by simp; omega⟩
  obtain ⟨row, isRow, more⟩ := row
  have rows : (list Wire.change).Takes [change] body.length := by
    simp only [Takes, list, writeList, mapM_cons, isRow]
    exact ⟨_, rfl, by simp; omega⟩
  obtain ⟨rows, isRows, more⟩ := rows
  let full := pair Wire.u64 (pair (list Wire.change) (pair Wire.range (pair Wire.u64 Wire.u64)))
  have fields : full.Takes (1, [change], ⟨0, 0⟩, 0, 0) body.length := by
    simp only [Takes, full, pair, writePair, isRows]
    exact ⟨_, rfl, by simp; omega⟩
  obtain ⟨fields, isFields, more⟩ := fields
  change ∃ bytes, (Wire.actorId.write 7 >>= fun front => (Wire.u32.write 1 >>= fun front =>
    full.write (1, [change], ⟨0, 0⟩, 0, 0) >>= fun back => .ok (front ++ back)) >>= fun back => .ok (front ++ back)) =
      .ok bytes ∧ _
  rw [isFields]
  exact ⟨_, rfl, by simp; omega⟩

/-- A document of more than ten mebibytes in one row. -/
def largeDocument : ChangeV1 := documentChange (List.replicate 10485761 0)

theorem largeDocument_taken : Wire.changeV1.Takes largeDocument 10485761 := by
  have taken := @document_taken (replicate 10485761 0)
  rw [length_replicate] at taken
  exact taken (by decide +kernel)

theorem shrinks_known {change : ChangeV1} (written : Wire.changeV1.write change = .ok raw)
    (more : 1 < raw.length) : Shrinks (textZstd raw) 3 none change raw [0] where
  written := written
  encoded := by
    change Except.ok (0 :: if raw = raw then [] else 0 :: raw) = _
    rw [if_pos rfl]
  shorter := more

/-- The document compresses to a frame of one byte, which the peer does not take. -/
theorem large_document_refused : ∃ zstd : Zstd, zstd.Lossless ∧ largeDocument.validate = .ok () ∧
    (∃ bytes, Wire.syncMessage.write ((SyncMessage.v1 (.changeset largeDocument)).compressChangeset zstd 3) =
      .ok bytes ∧ SyncMessage.fromBuf zstd bytes =
        .error (.compress (.io (.invalidData "decompressed payload exceeds 10485760 bytes")))) ∧
    ((BroadcastV1.change largeDocument).compressForWire zstd 3 none).intoChange zstd none =
      .error (.io (.invalidData "decompressed payload exceeds 10485760 bytes")) := by
  obtain ⟨raw, written, more⟩ := largeDocument_taken
  have lossless := textZstd_lossless raw
  have shrinks := shrinks_known written (Nat.lt_of_lt_of_le (by decide) more)
  have refused := decompress_large lossless (.inl rfl) (keyed_none _) shrinks more
  refine ⟨textZstd raw, lossless, rfl, ⟨[0, 0, 0, 0, 5, 0, 0, 0, 1, 0, 0, 0, 0], ?_, ?_⟩, ?_⟩
  · rw [compressChangeset_shrinks shrinks]
    rfl
  · have readBack : Wire.syncMessage.read.run [0, 0, 0, 0, 5, 0, 0, 0, 1, 0, 0, 0, 0] =
      .ok (.v1 (.compressedChangeset [0])) :=
      Wire.read_compressedChangeset rfl
    change (Except.mapError _ (decompressChange (textZstd raw) [0] none)).map _ = _
    rw [refused]
    rfl
  · rw [BroadcastV1.compressForWire_shrinks shrinks]
    exact refused

theorem shortDocument_length (written : Wire.changeV1.write (documentChange [1, 2, 3]) = .ok raw) :
    raw.length ≤ maxDecompressedSize := by
  have isLength : (Wire.changeV1.write (documentChange [1, 2, 3])).toOption.all (·.length ≤ maxDecompressedSize) =
    true := by
    decide +kernel
  rw [written] at isLength
  exact of_decide_eq_true isLength

/-- A short document comes back, by a sync and by a broadcast with a dictionary. -/
theorem short_document_comes_back : ∃ (zstd : Zstd) (dicts : ZstdDicts) (bytes : List UInt8),
    zstd.Lossless ∧ Loaded zstd (some dicts) ∧
      Wire.syncMessage.write ((SyncMessage.v1 (.changeset (documentChange [1, 2, 3]))).compressChangeset zstd 3) =
        .ok bytes ∧ SyncMessage.fromBuf zstd bytes = .ok (.v1 (.changeset (documentChange [1, 2, 3]))) ∧
      ((BroadcastV1.change (documentChange [1, 2, 3])).compressForWire zstd 3 (some dicts)).intoChange
        zstd (some dicts) = .ok (documentChange [1, 2, 3]) := by
  obtain ⟨raw, written, more⟩ := @document_taken [1, 2, 3] (by decide)
  have lossless := textZstd_lossless raw
  have loaded : Loaded (textZstd raw) (some (ZstdDicts.new (textZstd raw) (some [9]) 3 [])) := .inr ⟨_, _, _, rfl⟩
  have keyed : Keyed (textZstd raw) (some (ZstdDicts.new (textZstd raw) (some [9]) 3 [])) := by
    intro bytes _ isEncoder
    cases isEncoder
    exact Option.some_ne_none 9
  have shrinks := shrinks_known written (Nat.lt_of_lt_of_le (by decide) more)
  have sent : Wire.syncMessage.write ((v1 (.changeset (documentChange [1, 2, 3]))).compressChangeset
      (textZstd raw) 3) = .ok [0, 0, 0, 0, 5, 0, 0, 0, 1, 0, 0, 0, 0] := by
    rw [compressChangeset_shrinks shrinks]
    rfl
  have comes := @wire_compression_lossless_iff (textZstd raw) 3 _ (documentChange [1, 2, 3]) lossless loaded
  refine ⟨textZstd raw, _, _, lossless, loaded, sent, (comes.1 _ sent).mpr ?_, comes.2.mpr ?_⟩
  · exact ⟨rfl, fun _ _ other => shortDocument_length other.written⟩
  · intro other _ others
    exact ⟨fun _ => ⟨rfl, shortDocument_length others.written⟩, fun unkeyed => absurd keyed unkeyed⟩

end Galvanize
