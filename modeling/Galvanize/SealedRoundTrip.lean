import Galvanize.Exportability
import Galvanize.Sealing

/-! What each stage of `open` accepts, where its arithmetic ends, and that it takes
back what `seal` makes, unless the manifest has grown beyond the limit that only
`open` knows. -/
namespace Galvanize.HighLow

/-! ### Validation -/

section Validation
variable {codec : Codec} {first event : Event} {events : List Event} {offset : Nat} {bundle : Bundle}

theorem lift_ok : lift result = .ok value ↔ result = .ok value := by
  cases result with
  | error error =>
    constructor
    · intro ok
      cases ok
    · intro ok
      cases ok
  | ok _ =>
    constructor
    · intro ok
      cases ok
      rfl
    · intro ok
      cases ok
      rfl

theorem lift_ne_overflow : lift result ≠ .error .overflow := by
  cases result with
  | error error | ok value =>
    intro same
    cases same

theorem addOffset_ok {sequence : Int} :
    addOffset sequence offset = .ok sum ↔ sequence + offset ≤ 9223372036854775807 ∧ sum = sequence + offset := by
  unfold addOffset
  split
  · rename_i fits
    constructor
    · intro ok
      cases ok
      exact ⟨fits, rfl⟩
    · rintro ⟨-, rfl⟩
      rfl
  · rename_i beyond
    constructor
    · intro ok
      cases ok
    · rintro ⟨fits, -⟩
      exact absurd fits beyond

theorem addOffset_overflow {sequence : Int} :
    addOffset sequence offset = .error .overflow ↔ 9223372036854775807 < sequence + offset := by
  unfold addOffset
  split
  · rename_i fits
    constructor
    · intro same
      cases same
    · intro beyond
      omega
  · rename_i beyond
    exact ⟨fun _ => by omega, fun _ => rfl⟩

/-- An event that may stand at its place. -/
structure InPlace (codec : Codec) (first : Event) (offset : Nat) (event : Event) : Prop where
  valid : event.validate codec = .ok ()
  stream : event.streamId = first.streamId
  number : event.sequence = first.sequence + offset
  fits : first.sequence + offset ≤ 9223372036854775807

/-- An event whose place has no number. -/
structure Beyond (codec : Codec) (first : Event) (offset : Nat) (event : Event) : Prop where
  valid : event.validate codec = .ok ()
  stream : event.streamId = first.streamId
  beyond : 9223372036854775807 < first.sequence + offset

theorem validateAt_ok : validateAt codec first offset event = .ok () ↔ InPlace codec first offset event := by
  rw [validateAt, unit_bind_ok, unit_bind_ok, bind_ok_iff]
  simp only [lift_ok, refuseIf_ok, addOffset_ok, decide_eq_false_iff_not, not_not]
  constructor
  · rintro ⟨valid, stream, sum, ⟨fits, rfl⟩, number⟩
    exact ⟨valid, stream, number, fits⟩
  · intro place
    exact ⟨place.valid, place.stream, _, ⟨place.fits, rfl⟩, place.number⟩

theorem validateAt_overflow :
    validateAt codec first offset event = .error .overflow ↔ Beyond codec first offset event := by
  rw [validateAt, unit_bind_error, unit_bind_error, bind_error_iff]
  simp only [lift_ne_overflow, lift_ok, refuseIf_ok, addOffset_overflow, false_or, and_false, exists_false, or_false,
    decide_eq_false_iff_not, not_not]
  constructor
  · rintro ⟨valid, stream, beyond⟩
    exact ⟨valid, stream, beyond⟩
  · intro last
    exact ⟨last.valid, last.stream, last.beyond⟩

theorem validateOffsets_ok : validateOffsets codec first offset events = .ok () ↔
      ∀ (i : Nat) event, events[i]? = some event → InPlace codec first (offset + i) event := by
  induction events generalizing offset with
  | nil =>
    constructor
    · intro _ i event found
      cases found
    · intro _
      rfl
  | cons next events ih =>
    rw [validateOffsets, unit_bind_ok, ih, validateAt_ok]
    constructor
    · rintro ⟨place, rest⟩ i event found
      cases i with
      | zero =>
        cases found
        exact place
      | succ i =>
        have place := rest i event found
        rwa [show offset + 1 + i = offset + (i + 1) by omega] at place
    · intro all
      refine ⟨all 0 next rfl, fun i event found => ?_⟩
      rw [show offset + 1 + i = offset + (i + 1) by omega]
      exact all (i + 1) event found

/-- The walk ends in the addition exactly at the first event without a number. -/
theorem validateOffsets_overflow : validateOffsets codec first offset events = .error .overflow ↔
      ∃ before event after, events = before ++ event :: after ∧
        validateOffsets codec first offset before = .ok () ∧ Beyond codec first (offset + before.length) event := by
  induction events generalizing offset with
  | nil =>
    constructor
    · intro same
      cases same
    · rintro ⟨before, event, after, split, -⟩
      simp at split
  | cons next events ih =>
    rw [validateOffsets, unit_bind_error]
    constructor
    · rintro (here | ⟨placed, later⟩)
      · exact ⟨[], next, events, rfl, rfl, validateAt_overflow.mp here⟩
      · obtain ⟨before, event, after, rfl, walked, beyond⟩ := ih.mp later
        refine ⟨next :: before, event, after, rfl, ?_, ?_⟩
        · rw [validateOffsets, placed]
          exact walked
        · rwa [List.length_cons, show offset + (before.length + 1) = offset + 1 + before.length by omega]
    · rintro ⟨before, event, after, split, walked, beyond⟩
      cases before with
      | nil =>
        cases split
        exact .inl (validateAt_overflow.mpr beyond)
      | cons _ before =>
        cases split
        rw [validateOffsets, unit_bind_ok] at walked
        refine .inr ⟨walked.1, ih.mpr ⟨before, event, after, rfl, walked.2, ?_⟩⟩
        rwa [List.length_cons, show offset + (before.length + 1) = offset + 1 + before.length by omega] at beyond

theorem validateEventsChecked_ok (checked : validateEventsChecked codec events = .ok ()) :
    ∃ first rest, events = first :: rest ∧ events.length ≤ maxEventsPerBundle ∧
      ∀ (i : Nat) event, events[i]? = some event → InPlace codec first i event := by
  cases events with
  | nil => cases checked
  | cons first rest =>
    rw [validateEventsChecked, unit_bind_ok, lift_ok, refuseIf_ok, validateOffsets_ok, decide_eq_false_iff_not,
      Nat.not_lt] at checked
    simp only [Nat.zero_add] at checked
    exact ⟨first, rest, rfl, checked⟩

/-- The events run beyond the largest sequence number: up to some event they are
as they should be, and that one has no number left. -/
def RunsOver (codec : Codec) (events : List Event) : Prop :=
  ∃ first before event after, events.head? = some first ∧ events = before ++ event :: after ∧
    events.length ≤ maxEventsPerBundle ∧ (∀ (i : Nat) earlier, before[i]? = some earlier →
      InPlace codec first i earlier) ∧ Beyond codec first before.length event

theorem validateEventsChecked_overflow :
    validateEventsChecked codec events = .error .overflow ↔ RunsOver codec events := by
  cases events with
  | nil =>
    constructor
    · intro same
      cases same
    · rintro ⟨first, before, event, after, head, -⟩
      cases head
  | cons first _ =>
    rw [validateEventsChecked, unit_bind_error, validateOffsets_overflow]
    simp only [lift_ne_overflow, false_or, lift_ok, refuseIf_ok, decide_eq_false_iff_not, Nat.not_lt,
      validateOffsets_ok, Nat.zero_add]
    constructor
    · rintro ⟨few, before, event, after, split, placed, beyond⟩
      exact ⟨first, before, event, after, rfl, split, few, placed, beyond⟩
    · rintro ⟨_, before, event, after, head, split, few, placed, beyond⟩
      cases head
      exact ⟨few, before, event, after, split, placed, beyond⟩

theorem validateChecked_ok : bundle.validateChecked codec = .ok () ↔
      bundle.format = bundleFormat ∧ bundle.bundleId.isEmpty = false ∧
        validateEventsChecked codec bundle.events = .ok () ∧ bundle.matchesEvents = true := by
  simp [Bundle.validateChecked, unit_bind_ok, lift_ok, refuseIf_ok, and_assoc]

theorem validateChecked_overflow : bundle.validateChecked codec = .error .overflow ↔
      bundle.format = bundleFormat ∧ bundle.bundleId.isEmpty = false ∧ RunsOver codec bundle.events := by
  rw [Bundle.validateChecked, unit_bind_error, unit_bind_error, validateEventsChecked_overflow]
  simp [lift_ne_overflow, lift_ok, refuseIf_ok, and_assoc]

/-- What passes the check with its arithmetic passes the one of the exporter. -/
theorem validate_of_checked (checked : bundle.validateChecked codec = .ok ()) : bundle.validate codec = .ok () := by
  obtain ⟨format, named, walked, matched⟩ := validateChecked_ok.mp checked
  obtain ⟨_, _, events, few, placed⟩ := validateEventsChecked_ok walked
  rw [Bundle.validate, unit_bind_ok, unit_bind_ok]
  refine ⟨by simp [format, named], ?_, by simp [matched]⟩
  rw [events] at few placed ⊢
  rw [validateEvents, if_neg (by omega), validateFrom_iff]
  intro i event found
  have place := placed i event found
  exact ⟨place.valid, place.stream, place.number⟩

/-- The events of a checked bundle are its range, one by one. -/
theorem range_of_checked (checked : bundle.validateChecked codec = .ok ()) :
    bundle.streamId.isEmpty = false ∧ 0 < bundle.sequenceFirst ∧
      bundle.sequenceLast + 1 = bundle.sequenceFirst + bundle.events.length ∧ 0 < bundle.events.length ∧
      Contiguous bundle.streamId bundle.sequenceFirst bundle.events := by
  obtain ⟨-, -, walked, matched⟩ := validateChecked_ok.mp checked
  obtain ⟨first, rest, events, -, placed⟩ := validateEventsChecked_ok walked
  unfold Bundle.matchesEvents at matched
  have lastIs : (first :: rest).getLast? = some ((first :: rest).getLast (by simp)) := List.getLast?_eq_some_getLast _
  rw [events] at matched placed ⊢
  rw [lastIs] at matched
  simp only [List.head?_cons, Bool.and_eq_true, decide_eq_true_eq] at matched
  obtain ⟨⟨stream, firstNumber⟩, lastNumber⟩ := matched
  have firstPlace := placed 0 first rfl
  have lastAt : (first :: rest)[rest.length]? = some ((first :: rest).getLast (by simp)) := by
    rw [← lastIs, List.getLast?_eq_getElem?]
    simp
  have lastPlace := (placed _ _ lastAt).number
  obtain ⟨⟨named, positive, -⟩, -⟩ := Event.validate_iff.mp firstPlace.valid
  rw [stream, firstNumber, lastNumber, List.length_cons]
  refine ⟨named, positive, by push_cast; omega, by omega, fun i event found => ?_⟩
  have place := placed i event found
  exact ⟨place.stream, place.number⟩

end Validation

/-! ### The primitives -/

section Pipeline
variable {Bytes Text : Type} {prims : Primitives Bytes Text}
  {recipientPrivatePem expectedSchemaHash : String}
 {manifestBytes payload compressed : Bytes}
  {permitted : List String} {manifest : Manifest Text} {sealed : SealedBundle Text}

/-- Lossless encodings, and cryptography that takes back what it made. -/
structure Ideal (prims : Primitives Bytes Text) : Prop where
  size_empty : prims.size prims.empty = 0
  size_append : ∀ first second, prims.size (prims.append first second) = prims.size first + prims.size second
  decode_encode : ∀ bytes, prims.decode64 (prims.encode64 bytes) = some bytes
  decoder_compress : ∀ {plain compressed}, prims.compress plain = .ok compressed →
    ∃ buffers : List Bytes, prims.decoder compressed = .ok (buffers.map .ok) ∧
      buffers.foldl prims.append prims.empty = plain
  decrypt_encrypt : ∀ {key nonce aad plain ciphertext}, prims.encrypt key nonce aad plain = some ciphertext →
    prims.decrypt key nonce aad ciphertext = some plain
  public_key : ∀ {secret keyId}, prims.senderPublicKeyHex secret = .ok keyId →
    prims.verifyingKey keyId = .ok () ∧ keyId.utf8ByteSize = 64
  sign_size : ∀ secret message, prims.size (prims.sign secret message) = 64
  verify_sign : ∀ {secret keyId}, prims.senderPublicKeyHex secret = .ok keyId →
    ∀ message, prims.verify keyId message (prims.sign secret message) = true
  parse_bundle : ∀ bundle, prims.parseBundle (prims.bundleJson bundle) = .ok bundle
  parse_sealed : ∀ sealed, prims.parseSealed (prims.sealedJson sealed) = .ok sealed
  parse_manifest : ∀ manifest, prims.parseManifest (prims.manifestJson manifest) = .ok manifest

/-- A private key, and the public key whose wrapping it undoes. -/
structure KeyPair (prims : Primitives Bytes Text) (publicPem privatePem : String) : Prop where
  usable : prims.privateKey privatePem = .ok ()
  unwraps : ∀ {key wrapped}, prims.wrap publicPem key = .ok wrapped → prims.unwrap privatePem wrapped = some key

theorem orElse_ok {option : Option α} : orElse option error = .ok value ↔ option = some value := by
  cases option with
  | none =>
    constructor
    · intro ok
      cases ok
    · intro same
      cases same
  | some _ =>
    constructor
    · intro ok
      cases ok
      rfl
    · intro same
      cases same
      rfl

/-! ### Reading -/

theorem size_readLimited (ideal : Ideal prims) {start plain : Bytes}
    (small : prims.size start ≤ maximum) (read : readLimited prims maximum start reads = .ok plain) :
    prims.size plain ≤ maximum := by
  induction reads generalizing start with
  | nil =>
    cases read
    exact small
  | cons _ reads ih =>
    obtain ⟨_, _, rest⟩ := bind_ok read
    obtain ⟨fits, rest⟩ := unit_bind_ok.mp rest
    refine ih ?_ rest
    rw [refuseIf_ok, decide_eq_false_iff_not] at fits
    rw [ideal.size_append]
    omega

theorem size_le_foldl_append (ideal : Ideal prims) (buffers : List Bytes) (start : Bytes) :
    prims.size start ≤ prims.size (buffers.foldl prims.append start) := by
  induction buffers generalizing start with
  | nil => exact le_rfl
  | cons buffer buffers ih =>
    have grown := ih (prims.append start buffer)
    rw [ideal.size_append] at grown
    rw [List.foldl_cons]
    omega

theorem readLimited_buffers (ideal : Ideal prims) {buffers : List Bytes} {start : Bytes}
    (small : prims.size (buffers.foldl prims.append start) ≤ maximum) :
    readLimited prims maximum start (buffers.map .ok) = .ok (buffers.foldl prims.append start) := by
  induction buffers generalizing start with
  | nil => rfl
  | cons buffer buffers ih =>
    have grown := size_le_foldl_append ideal buffers (prims.append start buffer)
    rw [ideal.size_append] at grown
    rw [List.foldl_cons] at small ⊢
    rw [List.map_cons, readLimited, bind_ok_iff]
    refine ⟨buffer, rfl, unit_bind_ok.mpr ⟨?_, ih small⟩⟩
    rw [refuseIf_ok, decide_eq_false_iff_not]
    omega

/-! ### What each stage of opening accepts -/

theorem Signable.validate_iff : manifest.validate = .ok () ↔
      (manifest.format = manifestFormat ∧ manifest.bundleId.isEmpty = false ∧ manifest.streamId.isEmpty = false ∧
        0 < manifest.sequenceFirst ∧ manifest.sequenceFirst ≤ manifest.sequenceLast ∧
        manifest.payloadSize ≤ maxPayloadBytes ∧ manifest.payloadFilename.isEmpty = false ∧
        manifest.senderKeyId.utf8ByteSize = 64) ∧ validateFilename manifest.payloadFilename = .ok () := by
  rw [Signable.validate, unit_bind_ok, refuseIf_ok]
  simp [and_assoc]

/-- The signature of a manifest verifies under the key that it names. -/
def Manifest.Signed (prims : Primitives Bytes Text) (manifest : Manifest Text) : Prop :=
  prims.verifyingKey manifest.senderKeyId = .ok () ∧
    ∃ signature, prims.decode64 manifest.signature = some signature ∧ prims.size signature = 64 ∧
      prims.verify manifest.senderKeyId (prims.signingBytes manifest.toSignable) signature = true

theorem verifyManifest_ok : verifyManifest prims manifest = .ok () ↔ manifest.Signed prims := by
  rw [verifyManifest, unit_bind_ok, bind_ok_iff]
  simp only [orElse_ok, unit_bind_ok, refuseIf_ok, decide_eq_false_iff_not, not_not, Bool.not_eq_false']
  rfl

structure ManifestAccepted (prims : Primitives Bytes Text) (manifestBytes payload : Bytes) (permitted : List String)
    (expectedSchemaHash : String) (manifest : Manifest Text) : Prop where
  manifestFits : prims.size manifestBytes ≤ maxManifestBytes
  payloadFits : prims.size payload ≤ maxPayloadBytes
  parsed : prims.parseManifest manifestBytes = .ok manifest
  valid : manifest.toSignable.validate = .ok ()
  schema : manifest.schemaHash = expectedSchemaHash
  sender : manifest.senderKeyId ∈ permitted
  signed : manifest.Signed prims

theorem openManifest_ok : openManifest prims manifestBytes payload permitted expectedSchemaHash = .ok manifest ↔
      ManifestAccepted prims manifestBytes payload permitted expectedSchemaHash manifest := by
  rw [openManifest, unit_bind_ok, bind_ok_iff, refuseIf_ok]
  simp only [Bool.or_eq_false_iff, decide_eq_false_iff_not, Nat.not_lt]
  constructor
  · rintro ⟨⟨manifestFits, payloadFits⟩, parsed, found, rest⟩
    rw [unit_bind_ok, unit_bind_ok, unit_bind_ok, unit_bind_ok, verifyManifest_ok] at rest
    obtain ⟨valid, schema, sender, signed, same⟩ := rest
    cases same
    refine ⟨manifestFits, payloadFits, found, valid, by simpa using schema, ?_, signed⟩
    simpa using sender
  · intro accepted
    refine ⟨⟨accepted.manifestFits, accepted.payloadFits⟩, manifest, accepted.parsed, ?_⟩
    rw [unit_bind_ok, unit_bind_ok, unit_bind_ok, unit_bind_ok, verifyManifest_ok]
    refine ⟨accepted.valid, by simpa using accepted.schema, ?_, accepted.signed, rfl⟩
    simpa using accepted.sender

structure EnvelopeAccepted (prims : Primitives Bytes Text) (payload : Bytes) (manifest : Signable)
    (sealed : SealedBundle Text) : Prop where
  size : manifest.payloadSize = prims.size payload
  digest : manifest.payloadSha256 = prims.digest payload
  parsed : prims.parseSealed payload = .ok sealed
  format : sealed.format = sealedFormat
  bundleId : sealed.bundleId = manifest.bundleId
  recipient : sealed.recipientKeyId = manifest.recipientKeyId
  content : sealed.contentSha256 = manifest.contentSha256
  compressed : sealed.compressedSha256 = manifest.compressedSha256

theorem openEnvelope_ok :
    openEnvelope prims manifest payload = .ok sealed ↔ EnvelopeAccepted prims payload manifest.toSignable sealed := by
  rw [openEnvelope, unit_bind_ok, bind_ok_iff]
  simp only [unit_bind_ok, refuseIf_ok, Bool.or_eq_false_iff, decide_eq_false_iff_not, not_not]
  constructor
  · rintro ⟨⟨size, digest⟩, _, parsed, ⟨⟨⟨⟨format, bundleId⟩, recipient⟩, content⟩, compressed⟩, same⟩
    cases same
    exact ⟨size, digest, parsed, format, bundleId, recipient, content, compressed⟩
  · intro accepted
    refine ⟨⟨accepted.size, accepted.digest⟩, sealed, accepted.parsed, ?_, rfl⟩
    exact ⟨⟨⟨⟨accepted.format, accepted.bundleId⟩, accepted.recipient⟩, accepted.content⟩, accepted.compressed⟩

theorem decryptSealed_ok : decryptSealed prims sealed recipientPrivatePem = .ok compressed ↔
      prims.privateKey recipientPrivatePem = .ok () ∧
      ∃ nonce wrapped ciphertext key, prims.decode64 sealed.nonce = some nonce ∧ prims.size nonce = 24 ∧
        prims.decode64 sealed.wrappedKey = some wrapped ∧ prims.decode64 sealed.ciphertext = some ciphertext ∧
        prims.unwrap recipientPrivatePem wrapped = some key ∧ prims.size key = 32 ∧ prims.decrypt key nonce
          (aad prims sealed.bundleId sealed.recipientKeyId sealed.contentSha256 sealed.compressedSha256) ciphertext =
          some compressed := by
  rw [decryptSealed, unit_bind_ok]
  refine and_congr_right fun _ => ?_
  rw [bind_ok_iff]
  constructor
  · rintro ⟨nonce, nonceIs, rest⟩
    obtain ⟨nonceSize, rest⟩ := unit_bind_ok.mp rest
    obtain ⟨wrapped, wrappedIs, rest⟩ := bind_ok rest
    obtain ⟨ciphertext, ciphertextIs, rest⟩ := bind_ok rest
    obtain ⟨key, keyIs, rest⟩ := bind_ok rest
    obtain ⟨keySize, decrypted⟩ := unit_bind_ok.mp rest
    refine ⟨nonce, wrapped, ciphertext, key, orElse_ok.mp nonceIs, by simpa using nonceSize, orElse_ok.mp wrappedIs,
      orElse_ok.mp ciphertextIs, orElse_ok.mp keyIs, by simpa using keySize, orElse_ok.mp decrypted⟩
  · rintro ⟨nonce, wrapped, ciphertext, key, nonceIs, nonceSize, wrappedIs, ciphertextIs, keyIs, keySize, decrypted⟩
    refine ⟨nonce, orElse_ok.mpr nonceIs, unit_bind_ok.mpr ⟨by simp [nonceSize], ?_⟩⟩
    refine bind_ok_iff.mpr ⟨wrapped, orElse_ok.mpr wrappedIs, ?_⟩
    refine bind_ok_iff.mpr ⟨ciphertext, orElse_ok.mpr ciphertextIs, ?_⟩
    refine bind_ok_iff.mpr ⟨key, orElse_ok.mpr keyIs, unit_bind_ok.mpr ⟨by simp [keySize], ?_⟩⟩
    exact orElse_ok.mpr decrypted

theorem openContent_ok : openContent prims manifest compressed = .ok dated ↔
      prims.digest compressed = manifest.compressedSha256 ∧ ∃ reads plain, prims.decoder compressed = .ok reads ∧
        readLimited prims maxDecompressedBytes prims.empty reads = .ok plain ∧
        prims.digest plain = manifest.contentSha256 ∧ prims.parseBundle plain = .ok dated := by
  rw [openContent, unit_bind_ok, refuseIf_ok, decide_eq_false_iff_not, not_not]
  refine and_congr_right fun _ => ?_
  simp only [bind_ok_iff]
  constructor
  · rintro ⟨reads, started, plain, read, ⟨⟩, digest, parsed⟩
    exact ⟨reads, plain, started, read, by simpa using digest, parsed⟩
  · rintro ⟨reads, plain, started, read, digest, parsed⟩
    exact ⟨reads, started, plain, read, (), by simp [digest], parsed⟩

theorem unsealed_ok :
    unsealed prims manifestBytes payload recipientPrivatePem permitted expectedSchemaHash = .ok (manifest, dated) ↔
      ManifestAccepted prims manifestBytes payload permitted expectedSchemaHash manifest ∧
      ∃ sealed compressed, EnvelopeAccepted prims payload manifest.toSignable sealed ∧
        decryptSealed prims sealed recipientPrivatePem = .ok compressed ∧
        openContent prims manifest compressed = .ok dated := by
  rw [unsealed, bind_ok_iff]
  constructor
  · rintro ⟨_, accepted, rest⟩
    obtain ⟨sealed, envelope, rest⟩ := bind_ok rest
    obtain ⟨compressed, decrypted, rest⟩ := bind_ok rest
    obtain ⟨_, content, same⟩ := bind_ok rest
    cases same
    exact ⟨openManifest_ok.mp accepted, sealed, compressed, openEnvelope_ok.mp envelope, decrypted, content⟩
  · rintro ⟨accepted, sealed, compressed, envelope, decrypted, content⟩
    refine ⟨manifest, openManifest_ok.mpr accepted, ?_⟩
    refine bind_ok_iff.mpr ⟨sealed, openEnvelope_ok.mpr envelope, ?_⟩
    refine bind_ok_iff.mpr ⟨compressed, decrypted, ?_⟩
    exact bind_ok_iff.mpr ⟨dated, content, rfl⟩

theorem openWith_ok :
    openWith prims codec manifestBytes payload recipientPrivatePem permitted expectedSchemaHash = .ok dated ↔
      ∃ manifest, unsealed prims manifestBytes payload recipientPrivatePem permitted expectedSchemaHash =
          .ok (manifest, dated) ∧
        dated.bundle.validateChecked codec = .ok () ∧ dated.bundle.matchesManifest manifest.toSignable = true := by
  rw [openWith, bind_ok_iff]
  constructor
  · rintro ⟨⟨manifest, _⟩, opened, rest⟩
    rw [unit_bind_ok, unit_bind_ok, lift_ok, refuseIf_ok, Bool.not_eq_false'] at rest
    obtain ⟨valid, matched, same⟩ := rest
    cases same
    exact ⟨manifest, lift_ok.mp opened, valid, matched⟩
  · rintro ⟨manifest, opened, valid, matched⟩
    refine ⟨(manifest, dated), lift_ok.mpr opened, ?_⟩
    rw [unit_bind_ok, unit_bind_ok, lift_ok, refuseIf_ok, Bool.not_eq_false']
    exact ⟨valid, matched, rfl⟩

theorem openWith_overflow :
    openWith prims codec manifestBytes payload recipientPrivatePem permitted expectedSchemaHash = .error .overflow ↔
      ∃ manifest dated, unsealed prims manifestBytes payload recipientPrivatePem permitted expectedSchemaHash =
          .ok (manifest, dated) ∧ dated.bundle.format = bundleFormat ∧ dated.bundle.bundleId.isEmpty = false ∧
        RunsOver codec dated.bundle.events := by
  rw [openWith, bind_error_iff]
  constructor
  · rintro (early | ⟨⟨manifest, dated⟩, opened, rest⟩)
    · exact absurd early lift_ne_overflow
    · rw [unit_bind_error, unit_bind_error, validateChecked_overflow] at rest
      rcases rest with beyond | ⟨_, late | ⟨_, late⟩⟩
      · exact ⟨manifest, dated, lift_ok.mp opened, beyond⟩
      · exact absurd late lift_ne_overflow
      · cases late
  · rintro ⟨manifest, dated, opened, beyond⟩
    refine .inr ⟨(manifest, dated), lift_ok.mpr opened, ?_⟩
    rw [unit_bind_error]
    exact .inl (validateChecked_overflow.mpr beyond)

theorem openWith_of_large (large : maxManifestBytes < prims.size manifestBytes) :
    openWith prims codec manifestBytes payload recipientPrivatePem permitted expectedSchemaHash =
      .error (.error (.configuration "artifact exceeds size limit")) := by
  have refused : openManifest prims manifestBytes payload permitted expectedSchemaHash =
      .error (.configuration "artifact exceeds size limit") := by
    rw [openManifest, decide_eq_true large]
    rfl
  rw [openWith, unsealed, refused]
  rfl

variable {codec : Codec} {dated : DatedBundle}
  {recipientKeyId recipientPublicPem recipientPrivatePem senderKeyHex payloadFilename expectedSchemaHash : String}
  {secrets : Option (Secrets prims)} {artifacts : SealedArtifacts Bytes Text} {manifestBytes payload compressed : Bytes}
  {permitted : List String} {manifest : Manifest Text} {sealed : SealedBundle Text}

/-! ### What sealing makes -/

theorem sealContent_ok
    (done : sealContent prims dated recipientKeyId recipientPublicPem chosen plain compressed = .ok sealed) :
    ∃ ciphertext wrapped, prims.encrypt chosen.key chosen.nonce
        (aad prims dated.bundle.bundleId recipientKeyId (prims.digest plain) (prims.digest compressed)) compressed =
        some ciphertext ∧ prims.wrap recipientPublicPem chosen.key = .ok wrapped ∧
      sealed = ⟨sealedFormat, dated.bundle.bundleId, recipientKeyId, prims.digest plain, prims.digest compressed,
        prims.encode64 chosen.nonce, prims.encode64 wrapped, prims.encode64 ciphertext⟩ := by
  obtain ⟨ciphertext, encrypted, rest⟩ := bind_ok done
  obtain ⟨wrapped, wrappedIs, same⟩ := bind_ok rest
  cases same
  exact ⟨ciphertext, wrapped, orElse_ok.mp encrypted, wrappedIs, rfl⟩

/-- How the artifacts came to be. -/
structure Made (prims : Primitives Bytes Text) (dated : DatedBundle)
    (recipientKeyId recipientPublicPem senderKeyHex payloadFilename : String) (chosen : Secrets prims)
    (compressed : Bytes) (sealed : SealedBundle Text) (senderKeyId : String)
    (artifacts : SealedArtifacts Bytes Text) : Prop where
  filename : validateFilename payloadFilename = .ok ()
  plainFits : prims.size (prims.bundleJson dated) ≤ maxDecompressedBytes
  compresses : prims.compress (prims.bundleJson dated) = .ok compressed
  compressedFits : prims.size compressed ≤ maxPayloadBytes
  content : sealContent prims dated recipientKeyId recipientPublicPem chosen (prims.bundleJson dated) compressed =
    .ok sealed
  payload : artifacts.payload = prims.sealedJson sealed
  payloadFits : prims.size artifacts.payload ≤ maxPayloadBytes
  sender : prims.senderPublicKeyHex senderKeyHex = .ok senderKeyId
  signable : artifacts.manifest.toSignable = signableOf prims dated sealed artifacts.payload payloadFilename senderKeyId
  signature : artifacts.manifest.signature =
    prims.encode64 (prims.sign senderKeyHex (prims.signingBytes artifacts.manifest.toSignable))

theorem sealChecked_ok
    (done : sealChecked prims dated recipientKeyId recipientPublicPem senderKeyHex payloadFilename secrets =
      .ok artifacts) : ∃ chosen compressed sealed senderKeyId,
      Made prims dated recipientKeyId recipientPublicPem senderKeyHex payloadFilename chosen compressed
        sealed senderKeyId
        artifacts := by
  obtain ⟨filename, rest⟩ := unit_bind_ok.mp done
  obtain ⟨plainFits, rest⟩ := unit_bind_ok.mp rest
  obtain ⟨compressed, compresses, rest⟩ := bind_ok rest
  obtain ⟨compressedFits, rest⟩ := unit_bind_ok.mp rest
  obtain ⟨chosen, -, rest⟩ := bind_ok rest
  obtain ⟨sealed, content, rest⟩ := bind_ok rest
  obtain ⟨payloadFits, rest⟩ := unit_bind_ok.mp rest
  obtain ⟨senderKeyId, sender, rest⟩ := bind_ok rest
  obtain ⟨-, same⟩ := unit_bind_ok.mp rest
  simp only [refuseIf_ok, decide_eq_false_iff_not, Nat.not_lt] at plainFits compressedFits payloadFits
  cases same
  exact ⟨chosen, compressed, sealed, senderKeyId, filename, plainFits, compresses, compressedFits, content, rfl,
    payloadFits, sender, rfl, rfl⟩

section Made
variable {chosen : Secrets prims} {senderKeyId : String} (ideal : Ideal prims)
  (made : Made prims dated recipientKeyId recipientPublicPem senderKeyHex payloadFilename chosen compressed sealed
    senderKeyId artifacts)
include made

section
include ideal

theorem Made.manifest_valid (checked : dated.bundle.validateChecked codec = .ok ()) :
    artifacts.manifest.toSignable.validate = .ok () := by
  obtain ⟨-, named, -, -⟩ := validateChecked_ok.mp checked
  obtain ⟨streamNamed, positive, _, _, -⟩ := range_of_checked checked
  have filename : payloadFilename.isEmpty = false := by
    have safe := made.filename
    unfold validateFilename at safe
    simp_all
  rw [Signable.validate_iff, made.signable]
  refine ⟨⟨rfl, named, streamNamed, positive, ?_, made.payloadFits, filename, (ideal.public_key made.sender).2⟩,
    made.filename⟩
  change dated.bundle.sequenceFirst ≤ dated.bundle.sequenceLast
  omega

theorem Made.signed : artifacts.manifest.Signed prims := by
  have sender := congrArg Signable.senderKeyId made.signable
  refine ⟨?_, prims.sign senderKeyHex (prims.signingBytes artifacts.manifest.toSignable), ?_, ideal.sign_size _ _, ?_⟩
  · rw [sender]
    exact (ideal.public_key made.sender).1
  · rw [made.signature]
    exact ideal.decode_encode _
  · rw [sender]
    exact ideal.verify_sign made.sender _

theorem Made.envelope : EnvelopeAccepted prims artifacts.payload artifacts.manifest.toSignable sealed := by
  obtain ⟨_, _, -, -, rfl⟩ := sealContent_ok made.content
  rw [made.signable]
  refine ⟨rfl, rfl, ?_, rfl, rfl, rfl, rfl, rfl⟩
  rw [made.payload]
  exact ideal.parse_sealed _

theorem Made.decrypted (keys : KeyPair prims recipientPublicPem recipientPrivatePem) :
    decryptSealed prims sealed recipientPrivatePem = .ok compressed := by
  obtain ⟨ciphertext, wrapped, encrypted, wrappedIs, rfl⟩ := sealContent_ok made.content
  rw [decryptSealed_ok]
  exact ⟨keys.usable, chosen.nonce, wrapped, ciphertext, chosen.key, ideal.decode_encode _, chosen.nonceSize,
    ideal.decode_encode _, ideal.decode_encode _, keys.unwraps wrappedIs, chosen.keySize,
      ideal.decrypt_encrypt encrypted⟩

theorem Made.read : openContent prims artifacts.manifest compressed = .ok dated := by
  obtain ⟨_, _, -, -, rfl⟩ := sealContent_ok made.content
  obtain ⟨buffers, started, joined⟩ := ideal.decoder_compress made.compresses
  have fits := made.plainFits
  rw [← joined] at fits
  rw [openContent_ok]
  refine ⟨(congrArg Signable.compressedSha256 made.signable).symm, buffers.map .ok, prims.bundleJson dated, started, ?_,
    (congrArg Signable.contentSha256 made.signable).symm, ideal.parse_bundle dated⟩
  rw [readLimited_buffers ideal fits, joined]

/-- The only thing between sealing and opening is the size of the manifest. -/
theorem Made.opens_iff (keys : KeyPair prims recipientPublicPem recipientPrivatePem)
    (checked : dated.bundle.validateChecked codec = .ok ()) (allowed : senderKeyId ∈ permitted) :
    openWith prims codec (prims.manifestJson artifacts.manifest) artifacts.payload recipientPrivatePem permitted
        dated.bundle.schemaHash = .ok dated ↔
          prims.size (prims.manifestJson artifacts.manifest) ≤ maxManifestBytes := by
  rw [openWith_ok]
  constructor
  · rintro ⟨manifest, opened, -⟩
    exact (unsealed_ok.mp opened).1.manifestFits
  · intro small
    have sender := congrArg Signable.senderKeyId made.signable
    refine ⟨artifacts.manifest, unsealed_ok.mpr ⟨?_, sealed, compressed, made.envelope ideal, made.decrypted ideal keys,
      made.read ideal⟩, checked, ?_⟩
    · refine ⟨small, made.payloadFits, ideal.parse_manifest _, made.manifest_valid ideal checked,
        congrArg Signable.schemaHash made.signable, ?_, made.signed ideal⟩
      rwa [sender]
    · rw [made.signable]
      simp [Bundle.matchesManifest, signableOf]

end

/-- The exporter's account of `seal`, at the sizes that the artifacts have. -/
theorem Made.sealBundle (checked : dated.bundle.validateChecked codec = .ok ()) : HighLow.sealBundle codec
        ⟨fun _ => prims.size (prims.bundleJson dated), fun _ => prims.size compressed,
          fun _ => prims.size artifacts.payload,
          false⟩ dated.bundle payloadFilename = .ok ⟨dated.bundle, payloadFilename⟩ := by
  simp only [HighLow.sealBundle, unit_bind_ok, refuseIf_ok, decide_eq_false_iff_not, Nat.not_lt]
  exact ⟨validate_of_checked checked, made.filename, made.plainFits, made.compressedFits, trivial,
    made.payloadFits, trivial⟩

end Made

/-! ### What opening promises -/

/-- A bundle that was opened: what vouches for it, and that it is what its manifest says. -/
structure Opened (prims : Primitives Bytes Text) (manifestBytes payload : Bytes) (recipientPrivatePem : String)
    (permitted : List String) (expectedSchemaHash : String) (manifest : Manifest Text) (dated : DatedBundle) :
    Prop where
  accepted : ManifestAccepted prims manifestBytes payload permitted expectedSchemaHash manifest
  content : ∃ sealed compressed reads plain, EnvelopeAccepted prims payload manifest.toSignable sealed ∧
    decryptSealed prims sealed recipientPrivatePem = .ok compressed ∧
    prims.digest compressed = manifest.compressedSha256 ∧ prims.decoder compressed = .ok reads ∧
    readLimited prims maxDecompressedBytes prims.empty reads = .ok plain ∧ prims.size plain ≤ maxDecompressedBytes ∧
    prims.digest plain = manifest.contentSha256 ∧ prims.parseBundle plain = .ok dated
  bundleId : dated.bundle.bundleId = manifest.bundleId
  streamId : dated.bundle.streamId = manifest.streamId
  schemaHash : dated.bundle.schemaHash = manifest.schemaHash
  sequenceFirst : dated.bundle.sequenceFirst = manifest.sequenceFirst
  sequenceLast : dated.bundle.sequenceLast = manifest.sequenceLast
  range : manifest.sequenceLast + 1 = manifest.sequenceFirst + dated.bundle.events.length
  consecutive : Contiguous manifest.streamId manifest.sequenceFirst dated.bundle.events

theorem opened_of_openWith (ideal : Ideal prims)
    (opened : openWith prims codec manifestBytes payload recipientPrivatePem permitted expectedSchemaHash = .ok dated) :
    ∃ manifest, Opened prims manifestBytes payload recipientPrivatePem permitted expectedSchemaHash manifest dated := by
  obtain ⟨manifest, read, checked, matched⟩ := openWith_ok.mp opened
  obtain ⟨accepted, sealed, compressed, envelope, decrypted, content⟩ := unsealed_ok.mp read
  obtain ⟨digest, reads, plain, started, limited, plainDigest, parsed⟩ := openContent_ok.mp content
  obtain ⟨-, -, range, -, contiguous⟩ := range_of_checked checked
  simp only [Bundle.matchesManifest, Bool.and_eq_true, decide_eq_true_eq] at matched
  obtain ⟨⟨⟨⟨bundleId, streamId⟩, sequenceFirst⟩, sequenceLast⟩, schemaHash⟩ := matched
  have small : prims.size plain ≤ maxDecompressedBytes := by
    refine size_readLimited ideal ?_ limited
    rw [ideal.size_empty]
    exact Nat.zero_le _
  refine ⟨manifest, accepted, ?_, bundleId, streamId, schemaHash, sequenceFirst, sequenceLast, ?_, ?_⟩
  · exact ⟨sealed, compressed, reads, plain, envelope, decrypted, digest, started, limited, small, plainDigest, parsed⟩
  · rw [← sequenceFirst, ← sequenceLast]
    exact range
  · rw [← streamId, ← sequenceFirst]
    exact contiguous

/-- A sealed bundle opens again exactly if its manifest is within the limit of
`open`; opening ends in an addition that does not fit exactly for a bundle whose
events run beyond the largest number, and what it returns is vouched for. -/
theorem sealed_bundle_opens_iff (prims : Primitives Bytes Text) (codec : Codec) (ideal : Ideal prims) :
    (∀ dated recipientKeyId recipientPublicPem recipientPrivatePem senderKeyHex senderKeyId payloadFilename secrets
        permitted artifacts,
      KeyPair prims recipientPublicPem recipientPrivatePem → prims.senderPublicKeyHex senderKeyHex = .ok senderKeyId →
      senderKeyId ∈ permitted →
      sealWith prims codec dated recipientKeyId recipientPublicPem senderKeyHex payloadFilename secrets =
        .ok artifacts → ∃ manifestBytes, artifacts.manifest.toBytes prims = .ok manifestBytes ∧
        (openWith prims codec manifestBytes artifacts.payload recipientPrivatePem permitted dated.bundle.schemaHash =
            .ok dated ↔ prims.size manifestBytes ≤ maxManifestBytes)) ∧
    ∀ manifestBytes payload recipientPrivatePem permitted expectedSchemaHash,
      (openWith prims codec manifestBytes payload recipientPrivatePem permitted expectedSchemaHash = .error .overflow ↔
        ∃ manifest dated, unsealed prims manifestBytes payload recipientPrivatePem permitted expectedSchemaHash =
            .ok (manifest, dated) ∧ dated.bundle.format = bundleFormat ∧ dated.bundle.bundleId.isEmpty = false ∧
          RunsOver codec dated.bundle.events) ∧
      ∀ dated, openWith prims codec manifestBytes payload recipientPrivatePem permitted expectedSchemaHash = .ok dated →
        ∃ manifest, Opened prims manifestBytes payload recipientPrivatePem permitted expectedSchemaHash
          manifest dated := by
  refine ⟨?_, fun manifestBytes payload recipientPrivatePem permitted expectedSchemaHash => ⟨openWith_overflow, ?_⟩⟩
  · intro dated recipientKeyId recipientPublicPem recipientPrivatePem senderKeyHex senderKeyId payloadFilename secrets
      permitted artifacts keys sender allowed done
    obtain ⟨checked, rest⟩ := unit_bind_ok.mp done
    obtain ⟨_, _, _, foundId, made⟩ := sealChecked_ok (lift_ok.mp rest)
    have same : foundId = senderKeyId := by
      have found := made.sender
      rw [sender] at found
      cases found
      rfl
    rw [← same] at allowed
    refine ⟨prims.manifestJson artifacts.manifest, ?_, made.opens_iff ideal keys checked allowed⟩
    exact unit_bind_ok.mpr ⟨made.manifest_valid ideal checked, rfl⟩
  · intro dated opened
    exact opened_of_openWith ideal opened

end Pipeline

/-! ### Sealing with symbols -/

/-- Bytes by what they were made from. -/
inductive Symbol where
  | random (size : Nat)
  | text (value : String)
  | boxed (plain : List Symbol)
  | wrapped (pem : String) (key : List Symbol)
  | signature (secret : String)
  | bundle (dated : DatedBundle)
  | sealed (sealed : SealedBundle (List Symbol))
  | signable (manifest : Signable)
  | manifest (manifest : Manifest (List Symbol))

/-- Bytes of a text count as such, and so do those of the names in a manifest. -/
def Symbol.size : Symbol → Nat
  | .random size => size
  | .text value => value.utf8ByteSize
  | .signature _ => 64
  | .manifest signed =>
    signed.bundleId.utf8ByteSize + signed.streamId.utf8ByteSize + signed.schemaHash.utf8ByteSize +
      signed.payloadFilename.utf8ByteSize + signed.recipientKeyId.utf8ByteSize
  | _ => 1

def sizeOfSymbols : List Symbol → Nat
  | [] => 0
  | symbol :: symbols => symbol.size + sizeOfSymbols symbols

theorem sizeOfSymbols_append (first second : List Symbol) :
    sizeOfSymbols (first ++ second) = sizeOfSymbols first + sizeOfSymbols second := by
  induction first with
  | nil => simp [sizeOfSymbols]
  | cons _ first ih =>
    rw [List.cons_append, sizeOfSymbols, sizeOfSymbols, ih, Nat.add_assoc]

def symbolic : Primitives (List Symbol) (List Symbol) where
  size := sizeOfSymbols
  empty := []
  append := (· ++ ·)
  ofString := fun value => [.text value]
  encode64 := id
  decode64 := some
  digest := fun bytes => toString bytes.length
  compress := .ok
  decoder := fun bytes => .ok [.ok bytes]
  encrypt := fun _ _ _ plain => some [.boxed plain]
  decrypt := fun _ _ _ ciphertext =>
    match ciphertext with
    | [.boxed plain] => some plain
    | _ => none
  wrap := fun pem key => .ok [.wrapped pem key]
  privateKey := fun _ => .ok ()
  unwrap := fun pem wrapped =>
    match wrapped with
    | [.wrapped recipient key] => if recipient = pem then some key else none
    | _ => none
  signingKey := fun _ => .ok ()
  senderPublicKeyHex := fun secret =>
    (refuseIf (secret.utf8ByteSize ≠ 64) (.configuration "Ed25519 signing key must be 32 bytes")).map fun _ => secret
  sign := fun secret _ => [.signature secret]
  verifyingKey := fun _ => .ok ()
  verify := fun keyId _ signature =>
    match signature with
    | [.signature secret] => secret = keyId
    | _ => false
  bundleJson := fun dated => [.bundle dated]
  parseBundle := fun bytes =>
    match bytes with
    | [.bundle dated] => .ok dated
    | _ => .error (.configuration "JSON error")
  sealedJson := fun sealed => [.sealed sealed]
  parseSealed := fun bytes =>
    match bytes with
    | [.sealed sealed] => .ok sealed
    | _ => .error (.configuration "JSON error")
  signingBytes := fun manifest => [.signable manifest]
  manifestJson := fun manifest => [.manifest manifest]
  parseManifest := fun bytes =>
    match bytes with
    | [.manifest manifest] => .ok manifest
    | _ => .error (.configuration "JSON error")

theorem senderPublicKeyHex_symbolic (known : symbolic.senderPublicKeyHex secret = .ok keyId) :
    keyId = secret ∧ secret.utf8ByteSize = 64 := by
  obtain ⟨⟨⟩, long, same⟩ := map_ok known
  exact ⟨same.symm, by simpa using long⟩

theorem ideal_symbolic : Ideal symbolic where
  size_empty := rfl
  size_append := sizeOfSymbols_append
  decode_encode := fun _ => rfl
  decoder_compress := by
    intro plain _ done
    cases done
    exact ⟨[plain], rfl, rfl⟩
  decrypt_encrypt := by
    intro _ _ _ plain _ done
    cases done
    rfl
  public_key := by
    intro secret keyId known
    obtain ⟨rfl, long⟩ := senderPublicKeyHex_symbolic known
    exact ⟨rfl, long⟩
  sign_size := fun _ _ => rfl
  verify_sign := by
    intro secret keyId known _
    obtain ⟨rfl, -⟩ := senderPublicKeyHex_symbolic known
    exact decide_eq_true rfl
  parse_bundle := fun _ => rfl
  parse_sealed := fun _ => rfl
  parse_manifest := fun _ => rfl

theorem keyPair_symbolic (pem : String) : KeyPair symbolic pem pem where
  usable := rfl
  unwraps := by
    intro _ _ done
    cases done
    exact if_pos rfl

/-- One insertion of a user, under the given number. -/
def insertedUser (sequence : Int) : Event where
  streamId := "low"
  sequence := sequence
  transactionId := "tx"
  table := "users"
  sourceActor := "actor"
  primaryKey := [("id", .integer 1)]
  operation := .upsert
  columns := []
  committedAtMs := 0

def userBundle (sequenceFirst : Int) (events : List Event) : DatedBundle where
  bundle := ⟨bundleFormat, "bundle", "low", sequenceFirst, sequenceFirst, "schema", false, events⟩
  createdAtMs := 0

def senderHex : String := "0123456789abcdef0123456789abcdef0123456789abcdef0123456789abcdef"

def someSecrets : Option (Secrets symbolic) := some ⟨[.random 32], [.random 24], rfl, rfl⟩

/-- A sealed bundle with one user is opened again. -/
theorem user_bundle_opens : Ideal symbolic ∧ ∃ artifacts manifestBytes,
      sealWith symbolic plainCodec (userBundle 1 [insertedUser 1]) "recipient" "pem" senderHex "users.zstd.galvh"
        someSecrets = .ok artifacts ∧ artifacts.manifest.toBytes symbolic = .ok manifestBytes ∧
      openWith symbolic plainCodec manifestBytes artifacts.payload "pem" [senderHex] "schema" =
        .ok (userBundle 1 [insertedUser 1]) := by
  refine ⟨ideal_symbolic, _, _, rfl, rfl, ?_⟩
  obtain ⟨manifestBytes, written, opens⟩ := (sealed_bundle_opens_iff symbolic plainCodec ideal_symbolic).1
    (userBundle 1 [insertedUser 1]) "recipient" "pem" "pem" senderHex senderHex "users.zstd.galvh"
      someSecrets [senderHex] _
    (keyPair_symbolic "pem") rfl (List.mem_singleton.mpr rfl) rfl
  cases written
  exact opens.mpr (by decide)

/-- A name of a recipient key, longer than a manifest may be. -/
def longKeyId : String := String.ofList (List.replicate 70000 'k')

theorem size_replicate (count : Nat) : (String.ofList (List.replicate count 'k')).utf8ByteSize = count := by
  induction count with
  | zero => rfl
  | succ count ih =>
    have one : (String.ofList ['k']).utf8ByteSize = 1 := by decide
    rw [List.replicate_succ, ← List.singleton_append, String.ofList_append, String.utf8ByteSize_append, ih, one,
      Nat.add_comm]

theorem large_manifest (keyId : String) (named : manifest.recipientKeyId = keyId)
    (long : maxManifestBytes < keyId.utf8ByteSize) :
    maxManifestBytes < symbolic.size (symbolic.manifestJson manifest) := by
  change _ < _ + manifest.recipientKeyId.utf8ByteSize + 0
  rw [named]
  omega

/-- A bundle is sealed for a key with a long name and cannot be opened; a permitted
sender seals two events from the largest number on, and opening does not return. -/
theorem sealed_bundle_refused : (∃ artifacts manifestBytes,
      sealWith symbolic plainCodec (userBundle 1 [insertedUser 1]) longKeyId "pem" senderHex "users.zstd.galvh"
        someSecrets = .ok artifacts ∧ artifacts.manifest.toBytes symbolic = .ok manifestBytes ∧
      openWith symbolic plainCodec manifestBytes artifacts.payload "pem" [senderHex] "schema" =
        .error (.error (.configuration "artifact exceeds size limit"))) ∧ ∃ artifacts,
      sealChecked symbolic (userBundle 9223372036854775807 [insertedUser 9223372036854775807,
        insertedUser 1]) "recipient"
        "pem" senderHex "users.zstd.galvh" someSecrets = .ok artifacts ∧
      openWith symbolic plainCodec (symbolic.manifestJson artifacts.manifest) artifacts.payload "pem"
        [senderHex] "schema" = .error .overflow := by
  refine ⟨⟨_, _, rfl, rfl, ?_⟩, _, rfl, rfl⟩
  apply openWith_of_large
  have limit : maxManifestBytes < 70000 := by decide
  exact large_manifest longKeyId rfl (limit.trans_eq (size_replicate 70000).symm)

end Galvanize.HighLow
