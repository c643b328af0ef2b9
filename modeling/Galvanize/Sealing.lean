import Galvanize.Exporter

/-! Sealing and opening of bundles (`seal`, `open` and `Manifest` of
`galv-highlow/src/lib.rs`). Signatures, encryption, digests, compression and JSON
are the work of other libraries; byte strings and base64 texts are whatever these
work on. -/
namespace Galvanize.HighLow

/-! ### Envelopes -/

def sealedFormat : String := "galvanize-highlow-sealed/1"

def manifestFormat : String := "galvanize-highlow-manifest/1"

def maxManifestBytes : Nat := 64 * 1024

/-- A bundle with its `created_at_ms`. -/
structure DatedBundle where
  bundle : Bundle
  createdAtMs : Int

structure SealedBundle (Text : Type) where
  format : String
  bundleId : String
  recipientKeyId : String
  contentSha256 : String
  compressedSha256 : String
  nonce : Text
  wrappedKey : Text
  ciphertext : Text

/-- What a manifest is signed over. -/
structure Signable where
  format : String
  bundleId : String
  streamId : String
  sequenceFirst : Int
  sequenceLast : Int
  schemaHash : String
  payloadFilename : String
  payloadSize : Nat
  payloadSha256 : String
  contentSha256 : String
  compressedSha256 : String
  recipientKeyId : String
  senderKeyId : String

structure Manifest (Text : Type) extends Signable where
  signature : Text

structure SealedArtifacts (Bytes Text : Type) where
  payload : Bytes
  manifest : Manifest Text

/-- What the other libraries do. Keys are given as PEM or hexadecimal text. -/
structure Primitives (Bytes Text : Type) where
  size : Bytes → Nat
  empty : Bytes
  append : Bytes → Bytes → Bytes
  ofString : String → Bytes
  /-- `STANDARD_NO_PAD`. -/
  encode64 : Bytes → Text
  decode64 : Text → Option Bytes
  /-- SHA-256 in hexadecimal. -/
  digest : Bytes → String
  compress : Bytes → Except Error Bytes
  /-- A zstd stream: what its reads return, up to the one that returns nothing. -/
  decoder : Bytes → Except Error (List (Except Error Bytes))
  /-- XChaCha20-Poly1305, of a key, a nonce and what is authenticated with the message. -/
  encrypt : Bytes → Bytes → Bytes → Bytes → Option Bytes
  decrypt : Bytes → Bytes → Bytes → Bytes → Option Bytes
  /-- RSA-OAEP for a public key. -/
  wrap : String → Bytes → Except Error Bytes
  privateKey : String → Except Error Unit
  unwrap : String → Bytes → Option Bytes
  signingKey : String → Except Error Unit
  senderPublicKeyHex : String → Except Error String
  sign : String → Bytes → Bytes
  verifyingKey : String → Except Error Unit
  verify : String → Bytes → Bytes → Bool
  bundleJson : DatedBundle → Bytes
  parseBundle : Bytes → Except Error DatedBundle
  sealedJson : SealedBundle Text → Bytes
  parseSealed : Bytes → Except Error (SealedBundle Text)
  signingBytes : Signable → Bytes
  manifestJson : Manifest Text → Bytes
  parseManifest : Bytes → Except Error (Manifest Text)

/-! ### Checks -/

/-- How a function ends that does not return a value: with an error, or in an
addition that does not fit. -/
inductive Fault where
  | error (error : Error)
  | overflow
deriving DecidableEq

def lift {α : Type} (result : Except Error α) : Except Fault α := result.mapError .error

/-- `sequence + offset as i64`. -/
def addOffset (sequence : Int) (offset : Nat) : Except Fault Int :=
  if sequence + offset ≤ 9223372036854775807 then .ok (sequence + offset) else .error .overflow

section Validation
variable (codec : Codec)

/-- One turn of the loop of `validate_events`: the sum is not computed for an event
of another stream. -/
def validateAt (first : Event) (offset : Nat) (event : Event) : Except Fault Unit := do
  lift (event.validate codec)
  lift (refuseIf (event.streamId ≠ first.streamId) (.configuration "bundle events must form one contiguous stream"))
  let expected ← addOffset first.sequence offset
  lift (refuseIf (event.sequence ≠ expected) (.configuration "bundle events must form one contiguous stream"))

def validateOffsets (first : Event) : Nat → List Event → Except Fault Unit
  | _, [] => .ok ()
  | offset, event :: events => do
    validateAt codec first offset event
    validateOffsets first (offset + 1) events

/-- `validate_events`, with its arithmetic. -/
def validateEventsChecked (events : List Event) : Except Fault Unit :=
  match events with
  | [] => .error (.error (.configuration "cannot create an empty bundle"))
  | first :: _ => do
    lift (refuseIf (maxEventsPerBundle < events.length) (.configuration "bundle has too many events"))
    validateOffsets codec first 0 events

/-- `Bundle::validate`, with its arithmetic. -/
def Bundle.validateChecked (bundle : Bundle) : Except Fault Unit := do
  lift (refuseIf (bundle.format ≠ bundleFormat || bundle.bundleId.isEmpty) (.configuration "unsupported bundle format"))
  validateEventsChecked codec bundle.events
  lift (refuseIf (!bundle.matchesEvents) (.integrity "bundle envelope does not match events"))

end Validation

def Signable.validate (manifest : Signable) : Except Error Unit := do
  refuseIf (manifest.format ≠ manifestFormat || manifest.bundleId.isEmpty || manifest.streamId.isEmpty
    || manifest.sequenceFirst ≤ 0 || manifest.sequenceLast < manifest.sequenceFirst
    || maxPayloadBytes < manifest.payloadSize || manifest.payloadFilename.isEmpty
    || manifest.senderKeyId.utf8ByteSize ≠ 64) (.configuration "invalid manifest")
  validateFilename manifest.payloadFilename

section Pipeline
variable {Bytes Text : Type} (prims : Primitives Bytes Text) (codec : Codec) (dated : DatedBundle)
  (manifest : Manifest Text) (manifestBytes payload : Bytes)

def aad (bundle recipient content compressed : String) : Bytes :=
  prims.ofString (sealedFormat ++ "\n" ++ bundle ++ "\n" ++ recipient ++ "\n" ++ content ++ "\n" ++ compressed)

/-- `ok_or`. -/
def orElse {α : Type} (value : Option α) (error : Error) : Except Error α :=
  match value with
  | some value => .ok value
  | none => .error error

/-! ### Sealing -/

/-- The content key and the nonce, arrays of random bytes. -/
structure Secrets where
  key : Bytes
  nonce : Bytes
  keySize : prims.size key = 32
  nonceSize : prims.size nonce = 24

/-- The compressed bundle, encrypted and wrapped up. -/
def sealContent (recipientKeyId recipientPublicPem : String) (secrets : Secrets prims)
    (plain compressed : Bytes) : Except Error (SealedBundle Text) := do
  let ciphertext ← orElse (prims.encrypt secrets.key secrets.nonce
    (aad prims dated.bundle.bundleId recipientKeyId (prims.digest plain) (prims.digest compressed)) compressed)
    (.integrity "could not encrypt bundle")
  let wrappedKey ← prims.wrap recipientPublicPem secrets.key
  .ok { format := sealedFormat
        bundleId := dated.bundle.bundleId
        recipientKeyId := recipientKeyId
        contentSha256 := prims.digest plain
        compressedSha256 := prims.digest compressed
        nonce := prims.encode64 secrets.nonce
        wrappedKey := prims.encode64 wrappedKey
        ciphertext := prims.encode64 ciphertext }

/-- The manifest of a sealed bundle, before it is signed. -/
def signableOf (sealed : SealedBundle Text) (payload : Bytes)
    (payloadFilename senderKeyId : String) : Signable where
  format := manifestFormat
  bundleId := dated.bundle.bundleId
  streamId := dated.bundle.streamId
  sequenceFirst := dated.bundle.sequenceFirst
  sequenceLast := dated.bundle.sequenceLast
  schemaHash := dated.bundle.schemaHash
  payloadFilename := payloadFilename
  payloadSize := prims.size payload
  payloadSha256 := prims.digest payload
  contentSha256 := sealed.contentSha256
  compressedSha256 := sealed.compressedSha256
  recipientKeyId := sealed.recipientKeyId
  senderKeyId := senderKeyId

variable (recipientKeyId recipientPublicPem senderKeyHex payloadFilename : String) (secrets : Option (Secrets prims))

/-- `seal` after the check of the bundle; `secrets` is nothing where the random
source fails. -/
def sealChecked : Except Error (SealedArtifacts Bytes Text) := do
  validateFilename payloadFilename
  let plain := prims.bundleJson dated
  refuseIf (maxDecompressedBytes < prims.size plain) (.configuration "bundle exceeds decompressed size limit")
  let compressed ← prims.compress plain
  refuseIf (maxPayloadBytes < prims.size compressed) (.configuration "bundle exceeds compressed size limit")
  let secrets ← orElse secrets (.configuration "secure random source failed")
  let sealed ← sealContent prims dated recipientKeyId recipientPublicPem secrets plain compressed
  let payload := prims.sealedJson sealed
  refuseIf (maxPayloadBytes < prims.size payload) (.configuration "sealed payload exceeds size limit")
  let senderKeyId ← prims.senderPublicKeyHex senderKeyHex
  prims.signingKey senderKeyHex
  let signable := signableOf prims dated sealed payload payloadFilename senderKeyId
  .ok ⟨payload, { signable with signature := prims.encode64 (prims.sign senderKeyHex (prims.signingBytes signable)) }⟩

/-- `seal`. -/
def sealWith : Except Fault (SealedArtifacts Bytes Text) := do
  dated.bundle.validateChecked codec
  lift (sealChecked prims dated recipientKeyId recipientPublicPem senderKeyHex payloadFilename secrets)

/-- `Manifest::to_bytes`. -/
def Manifest.toBytes : Except Error Bytes := do
  manifest.toSignable.validate
  .ok (prims.manifestJson manifest)

/-! ### Opening -/

/-- The signature of a manifest. -/
def verifyManifest : Except Error Unit := do
  prims.verifyingKey manifest.senderKeyId
  let signature ← orElse (prims.decode64 manifest.signature) (.integrity "invalid manifest signature")
  refuseIf (prims.size signature ≠ 64) (.integrity "invalid manifest signature length")
  refuseIf (!prims.verify manifest.senderKeyId (prims.signingBytes manifest.toSignable) signature)
    (.integrity "invalid manifest signature")

/-- The manifest, up to its signature. -/
def openManifest (permitted : List String) (expectedSchemaHash : String) :
    Except Error (Manifest Text) := do
  refuseIf (maxManifestBytes < prims.size manifestBytes || maxPayloadBytes < prims.size payload)
    (.configuration "artifact exceeds size limit")
  let manifest ← prims.parseManifest manifestBytes
  manifest.toSignable.validate
  refuseIf (manifest.schemaHash ≠ expectedSchemaHash) (.configuration "waiting-schema: application schema hash differs")
  refuseIf (!permitted.any fun key => key = manifest.senderKeyId) (.integrity "sender key is not permitted")
  verifyManifest prims manifest
  .ok manifest

/-- The envelope, against its manifest. -/
def openEnvelope : Except Error (SealedBundle Text) := do
  refuseIf (manifest.payloadSize ≠ prims.size payload || manifest.payloadSha256 ≠ prims.digest payload)
    (.integrity "payload size or SHA-256 differs from manifest")
  let sealed ← prims.parseSealed payload
  refuseIf (sealed.format ≠ sealedFormat || sealed.bundleId ≠ manifest.bundleId
    || sealed.recipientKeyId ≠ manifest.recipientKeyId || sealed.contentSha256 ≠ manifest.contentSha256
    || sealed.compressedSha256 ≠ manifest.compressedSha256) (.integrity "sealed envelope differs from manifest")
  .ok sealed

/-- The content of an envelope, decrypted. -/
def decryptSealed (sealed : SealedBundle Text) (recipientPrivatePem : String) : Except Error Bytes := do
  prims.privateKey recipientPrivatePem
  let nonce ← orElse (prims.decode64 sealed.nonce) (.integrity "invalid nonce")
  refuseIf (prims.size nonce ≠ 24) (.integrity "invalid nonce length")
  let wrapped ← orElse (prims.decode64 sealed.wrappedKey) (.integrity "invalid wrapped key")
  let ciphertext ← orElse (prims.decode64 sealed.ciphertext) (.integrity "invalid ciphertext")
  let key ← orElse (prims.unwrap recipientPrivatePem wrapped) (.integrity "could not unwrap content key")
  refuseIf (prims.size key ≠ 32) (.integrity "invalid unwrapped content key")
  orElse (prims.decrypt key nonce
    (aad prims sealed.bundleId sealed.recipientKeyId sealed.contentSha256 sealed.compressedSha256) ciphertext)
    (.integrity "payload authentication failed")

/-- The loop of `read_limited`. -/
def readLimited (maximum : Nat) : Bytes → List (Except Error Bytes) → Except Error Bytes
  | output, [] => .ok output
  | output, read :: reads => do
    let buffer ← read
    refuseIf (maximum < prims.size output + prims.size buffer) (.configuration "decompressed bundle exceeds size limit")
    readLimited maximum (prims.append output buffer) reads

/-- The bundle in the decrypted content. -/
def openContent (compressed : Bytes) : Except Error DatedBundle := do
  refuseIf (prims.digest compressed ≠ manifest.compressedSha256) (.integrity "compressed payload SHA-256 differs")
  let reads ← prims.decoder compressed
  let plain ← readLimited prims maxDecompressedBytes prims.empty reads
  refuseIf (prims.digest plain ≠ manifest.contentSha256) (.integrity "plaintext SHA-256 differs")
  prims.parseBundle plain

/-- `open` up to the checks of the bundle. -/
def unsealed (recipientPrivatePem : String) (permitted : List String)
    (expectedSchemaHash : String) : Except Error (Manifest Text × DatedBundle) := do
  let manifest ← openManifest prims manifestBytes payload permitted expectedSchemaHash
  let sealed ← openEnvelope prims manifest payload
  let compressed ← decryptSealed prims sealed recipientPrivatePem
  let dated ← openContent prims manifest compressed
  .ok (manifest, dated)

/-- The bundle is the one of the manifest. -/
def Bundle.matchesManifest (bundle : Bundle) (manifest : Signable) : Bool :=
  bundle.bundleId = manifest.bundleId && bundle.streamId = manifest.streamId
    && bundle.sequenceFirst = manifest.sequenceFirst && bundle.sequenceLast = manifest.sequenceLast
    && bundle.schemaHash = manifest.schemaHash

/-- `open`. -/
def openWith (recipientPrivatePem : String) (permitted : List String)
    (expectedSchemaHash : String) : Except Fault DatedBundle := do
  let opened ← lift (unsealed prims manifestBytes payload recipientPrivatePem permitted expectedSchemaHash)
  opened.2.bundle.validateChecked codec
  lift (refuseIf (!opened.2.bundle.matchesManifest opened.1.toSignable) (.integrity "bundle differs from manifest"))
  .ok opened.2

end Pipeline
end Galvanize.HighLow
