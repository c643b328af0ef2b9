import Galvanize.ByteCodec
import Galvanize.PackedColumns
import Galvanize.SyncState
import Galvanize.Plumtree

/-! The messages between nodes as bytes: the readers and writers that speedy, a crate of its
own, derives for `corro-types` and `plum-foca` (in the layout it documents), and the ones
written by hand. A structure is its fields, a list or a map its number of entries and the
entries, an enumeration the number of the variant in four bytes and its fields. Changes, sync
states and needs are validated when they are read; the ids of changes are not. -/
namespace Galvanize
open ByteCodec Reader BigEndian

namespace Wire

/-! ### Numbers and texts -/

def u16 : ByteCodec Nat := word 2

def u32 : ByteCodec Nat := word 4

def u64 : ByteCodec Nat := word 8

/-- An unknown variant. -/
def unknownVariant : ReadError := .invalid "invalid enum variant"

def Fits64 (value : Int) : Prop := -9223372036854775808 ≤ value ∧ value < 9223372036854775808

instance (value : Int) : Decidable (Fits64 value) := inferInstanceAs (Decidable (_ ∧ _))

def writeI64 (value : Int) : Except WriteError (List UInt8) :=
  if Fits64 value then u64.write (asU64 value) else .error .tooLarge

theorem reads_i64 (fits : Fits64 value) (written : writeI64 value = .ok bytes) :
    (u64.readAs asI64).Reads bytes value := by
  rw [writeI64, if_pos fits] at written
  exact reads_as (asU64_lt value) (asI64_asU64 fits.1 fits.2) written

theorem fits64_asI64 (number : Nat) (small : u64.Accepted number) : Fits64 (asI64 number) := by
  have below : number < 18446744073709551616 := small
  unfold asI64 Fits64
  split
  · omega
  · omega

/-- `i64`. -/
def i64 : ByteCodec Int where
  write := writeI64
  read := u64.readAs asI64
  Accepted := Fits64
  reads := reads_i64
  yields := yields_as fits64_asI64

theorem toNat_ofNat (number : Nat) (small : u64.Accepted number) : (UInt64.ofNat number).toNat = number :=
  Nat.mod_eq_of_lt small

/-- `f64`, by its bits. -/
def f64 : ByteCodec UInt64 := u64.record UInt64.ofNat UInt64.toNat (fun _ => UInt64.ofNat_toNat) toNat_ofNat

def actorOf (bytes : List UInt8) : ActorId := BitVec.ofNat 128 (ofBytes bytes)

def actorBytes (actor : ActorId) : List UInt8 := toBytes 16 actor.toNat

theorem actorOf_actorBytes (actor : ActorId) : actorOf (actorBytes actor) = actor := by
  have small := actor.isLt
  rw [actorOf, actorBytes, ofBytes_toBytes small, BitVec.ofNat_toNat, BitVec.setWidth_eq]

theorem actorBytes_actorOf (bytes : List UInt8) (long : (raw 16).Accepted bytes) :
    actorBytes (actorOf bytes) = bytes := by
  have isLong : bytes.length = 16 := long
  have small := ofBytes_lt bytes
  rw [isLong] at small
  have kept : (actorOf bytes).toNat = ofBytes bytes := Nat.mod_eq_of_lt small
  rw [actorBytes, kept, ← isLong]
  exact toBytes_ofBytes bytes

/-- `ActorId`: the sixteen bytes of the UUID. -/
def actorId : ByteCodec ActorId := (raw 16).record actorOf actorBytes actorOf_actorBytes actorBytes_actorOf

def writeText (text : String) : Except WriteError (List UInt8) := blob.write (utf8 text)

theorem reads_utf8 {text : String} (written : writeText text = .ok bytes) : blob.read.Reads bytes (utf8 text) := by
  obtain ⟨_, isFront, -⟩ := bind_ok written
  exact blob.reads (small_of_written isFront) written

def textOf : Option String → Reader String
  | some text => pure text
  | none => fail (.invalid "failed to read a string: invalid utf-8")

def readText : Reader String := do
  let bytes ← blob.read
  textOf (fromUtf8 bytes)

theorem reads_text {text : String} (_ : True) (written : writeText text = .ok bytes) : readText.Reads bytes text := by
  apply (reads_utf8 written).then
  rw [fromUtf8_utf8]
  exact Reads.pure text

/-- `&str`: only UTF-8 is read. -/
def text : ByteCodec String where
  write := writeText
  read := readText
  Accepted _ := True
  reads := reads_text
  yields := Yields.any readText

/-- `from_utf8_unchecked`. A text that is no UTF-8 has no meaning; it is the empty one here. -/
def fromUtf8Unchecked (bytes : List UInt8) : String := (fromUtf8 bytes).getD ""

theorem reads_unchecked {text : String} (_ : True) (written : writeText text = .ok bytes) :
    (blob.readAs fromUtf8Unchecked).Reads bytes text := by
  apply (reads_utf8 written).then
  rw [fromUtf8Unchecked, fromUtf8_utf8]
  exact Reads.pure text

/-- The text of an `SqliteValue`: its bytes are taken as they come. -/
def uncheckedText : ByteCodec String where
  write := writeText
  read := blob.readAs fromUtf8Unchecked
  Accepted _ := True
  reads := reads_unchecked
  yields := Yields.any _

/-- A range of versions or of seqs: nothing is asked of its ends. -/
def range : ByteCodec RangeInclusive :=
  (pair u64 u64).record (fun ends => ⟨ends.1, ends.2⟩) (fun range => (range.start, range.stop))
    (fun _ => rfl) (fun _ _ => rfl)

/-! ### Changes -/

section
open SqliteValue

def nullKind : Kind Unit SqliteValue where
  build _ := null
  fields
    | null => some ()
    | _ => none

def integerKind : Kind Int SqliteValue where
  build := integer
  fields
    | integer value => some value
    | _ => none

def realKind : Kind UInt64 SqliteValue where
  build := real
  fields
    | real bits => some bits
    | _ => none

def textKind : Kind String SqliteValue where
  build := SqliteValue.text
  fields
    | SqliteValue.text value => some value
    | _ => none

def blobKind : Kind (List UInt8) SqliteValue where
  build := SqliteValue.blob
  fields
    | SqliteValue.blob bytes => some bytes
    | _ => none

def valueIndex : SqliteValue → Nat
  | null => 0
  | integer _ => 1
  | real _ => 2
  | SqliteValue.text _ => 3
  | SqliteValue.blob _ => 4

def valueKinds : List (ByteCodec SqliteValue) :=
  [kind unit nullKind, kind i64 integerKind, kind f64 realKind, kind uncheckedText textKind,
    kind ByteCodec.blob blobKind]

/-- `SqliteValue`: the variant is one byte. -/
def sqliteValue : ByteCodec SqliteValue :=
  enum (word 1) valueIndex valueKinds (.invalid "unknown SqliteValue variant")
    ⟨index_kind fun _ => rfl, index_kind fun _ => rfl, index_kind fun _ => rfl, index_kind fun _ => rfl,
      index_kind fun _ => rfl, trivial⟩

end

def change : ByteCodec Change :=
  (pair text (pair blob (pair text (pair sqliteValue (pair i64 (pair u64 (pair u64 (pair actorId i64)))))))).record
    (fun (table, pk, cid, val, colVersion, dbVersion, seq, siteId, cl) =>
      ⟨table, pk, cid, val, colVersion, dbVersion, seq, siteId, cl⟩)
    (fun change => (change.table, change.pk, change.cid, change.val, change.colVersion, change.dbVersion, change.seq,
      change.siteId, change.cl))
    (fun _ => rfl) (fun _ _ => rfl)

def columnChange : ByteCodec ColumnChange :=
  (pair text (pair sqliteValue (pair i64 (pair u64 i64)))).record
    (fun (cid, val, colVersion, seq, cl) => ⟨cid, val, colVersion, seq, cl⟩)
    (fun column => (column.cid, column.val, column.colVersion, column.seq, column.cl))
    (fun _ => rfl) (fun _ _ => rfl)

def changesetPerTable : ByteCodec ChangesetPerTable := indexMap text (indexMap blob (list columnChange))

theorem none_accepted : (option u64).Accepted none := by
  intro _ same
  cases same

/-- An optional timestamp at the end of a structure. -/
def lastTs : ByteCodec (Option Timestamp) := (option u64).orOnEof none none_accepted

def emptyKind : Kind (CrsqlDbVersionRange × Option Timestamp) Changeset where
  build fields := .empty fields.1 fields.2
  fields
    | .empty versions ts => some (versions, ts)
    | _ => none

def fullKind : Kind (Nat × List Change × CrsqlSeqRange × Nat × Timestamp) Changeset where
  build fields := .full fields.1 fields.2.1 fields.2.2.1 fields.2.2.2.1 fields.2.2.2.2
  fields
    | .full version changes seqs lastSeq ts => some (version, changes, seqs, lastSeq, ts)
    | _ => none

def emptySetKind : Kind (List CrsqlDbVersionRange × Timestamp) Changeset where
  build fields := .emptySet fields.1 fields.2
  fields
    | .emptySet versions ts => some (versions, ts)
    | _ => none

def fullV2Kind : Kind (ActorId × Nat × ChangesetPerTable × Nat × CrsqlSeqRange × Timestamp) Changeset where
  build fields := .fullV2 fields.1 fields.2.1 fields.2.2.1 fields.2.2.2.1 fields.2.2.2.2.1 fields.2.2.2.2.2
  fields
    | .fullV2 actorId version changes lastSeq seqs ts => some (actorId, version, changes, lastSeq, seqs, ts)
    | _ => none

def changesetIndex : Changeset → Nat
  | .empty _ _ => 0
  | .full _ _ _ _ _ => 1
  | .emptySet _ _ => 2
  | .fullV2 _ _ _ _ _ _ => 3

def changesetKinds : List (ByteCodec Changeset) :=
  [kind (pair range lastTs) emptyKind,
    kind (pair u64 (pair (list change) (pair range (pair u64 u64)))) fullKind,
    kind (pair (list range) u64) emptySetKind,
    kind (pair actorId (pair u64 (pair changesetPerTable (pair u64 (pair range u64))))) fullV2Kind]

def changeset : ByteCodec Changeset := enum u32 changesetIndex changesetKinds unknownVariant
  ⟨index_kind fun _ => rfl, index_kind fun _ => rfl, index_kind fun _ => rfl, index_kind fun _ => rfl, trivial⟩

/-- `UnvalidatedChangeV1`. -/
def unvalidatedChangeV1 : ByteCodec ChangeV1 :=
  (pair actorId changeset).record (fun fields => ⟨fields.1, fields.2⟩)
    (fun change => (change.actorId, change.changeset)) (fun _ => rfl) (fun _ _ => rfl)

def changeV1 : ByteCodec ChangeV1 := unvalidatedChangeV1.check ChangeV1.validate ChangeValidationError.message

end Wire

/-! ### Sync -/

inductive SyncRejectionV1 where
  | maxConcurrencyReached
  | differentCluster
deriving DecidableEq

inductive SyncMessageV1 where
  | state (state : SyncStateV1)
  | changeset (change : ChangeV1)
  | clock (ts : Timestamp)
  | rejection (rejection : SyncRejectionV1)
  | request (request : List (ActorId × List SyncNeedV1))
  | compressedChangeset (data : List UInt8)

inductive SyncMessage where
  | v1 (message : SyncMessageV1)

namespace Wire

def fullNeedKind : Kind CrsqlDbVersionRange SyncNeedV1 where
  build := .full
  fields
    | .full versions => some versions
    | _ => none

def partialNeedKind : Kind (Nat × List CrsqlSeqRange) SyncNeedV1 where
  build fields := .partialVersion fields.1 fields.2
  fields
    | .partialVersion version seqs => some (version, seqs)
    | _ => none

def emptyNeedKind : Kind (Option Timestamp) SyncNeedV1 where
  build := .empty
  fields
    | .empty ts => some ts
    | _ => none

def needIndex : SyncNeedV1 → Nat
  | .full _ => 0
  | .partialVersion _ _ => 1
  | .empty _ => 2

def needKinds : List (ByteCodec SyncNeedV1) :=
  [kind range fullNeedKind, kind (pair u64 (list range)) partialNeedKind, kind (option u64) emptyNeedKind]

def syncNeedV1 : ByteCodec SyncNeedV1 :=
  (enum u32 needIndex needKinds unknownVariant
    ⟨index_kind fun _ => rfl, index_kind fun _ => rfl, index_kind fun _ => rfl, trivial⟩).check SyncNeedV1.validate
    SyncNeedValidationError.message

/-- `UnvalidatedSyncStateV1`. -/
def unvalidatedSyncStateV1 : ByteCodec SyncStateV1 :=
  (pair actorId (pair (map actorId u64) (pair (map actorId (list range))
      (pair (map actorId (map u64 (list range))) lastTs)))).record
    (fun (actorId, heads, need, partialNeed, lastClearedTs) => ⟨actorId, heads, need, partialNeed, lastClearedTs⟩)
    (fun state => (state.actorId, state.heads, state.need, state.partialNeed, state.lastClearedTs))
    (fun _ => rfl) (fun _ _ => rfl)

def syncStateV1 : ByteCodec SyncStateV1 :=
  unvalidatedSyncStateV1.check SyncStateV1.validate SyncStateValidationError.message

def maxConcurrencyKind : Kind Unit SyncRejectionV1 where
  build _ := .maxConcurrencyReached
  fields
    | .maxConcurrencyReached => some ()
    | _ => none

def differentClusterKind : Kind Unit SyncRejectionV1 where
  build _ := .differentCluster
  fields
    | .differentCluster => some ()
    | _ => none

def rejectionIndex : SyncRejectionV1 → Nat
  | .maxConcurrencyReached => 0
  | .differentCluster => 1

def rejectionKinds : List (ByteCodec SyncRejectionV1) := [kind unit maxConcurrencyKind, kind unit differentClusterKind]

def syncRejectionV1 : ByteCodec SyncRejectionV1 :=
  enum u32 rejectionIndex rejectionKinds unknownVariant ⟨index_kind fun _ => rfl, index_kind fun _ => rfl, trivial⟩

section
open SyncMessageV1

def stateKind : Kind SyncStateV1 SyncMessageV1 where
  build := state
  fields
    | state held => some held
    | _ => none

def changesetKind : Kind ChangeV1 SyncMessageV1 where
  build := SyncMessageV1.changeset
  fields
    | SyncMessageV1.changeset change => some change
    | _ => none

def clockKind : Kind Timestamp SyncMessageV1 where
  build := clock
  fields
    | clock ts => some ts
    | _ => none

def rejectionKind : Kind SyncRejectionV1 SyncMessageV1 where
  build := rejection
  fields
    | rejection held => some held
    | _ => none

def requestKind : Kind (List (ActorId × List SyncNeedV1)) SyncMessageV1 where
  build := request
  fields
    | request held => some held
    | _ => none

def compressedChangesetKind : Kind (List UInt8) SyncMessageV1 where
  build := compressedChangeset
  fields
    | compressedChangeset data => some data
    | _ => none

def syncIndex : SyncMessageV1 → Nat
  | state _ => 0
  | SyncMessageV1.changeset _ => 1
  | clock _ => 2
  | rejection _ => 3
  | request _ => 4
  | compressedChangeset _ => 5

def syncKinds : List (ByteCodec SyncMessageV1) :=
  [kind syncStateV1 stateKind, kind changeV1 changesetKind, kind u64 clockKind, kind syncRejectionV1 rejectionKind,
    kind (list (pair actorId (list syncNeedV1))) requestKind, kind blob compressedChangesetKind]

def syncMessageV1 : ByteCodec SyncMessageV1 := enum u32 syncIndex syncKinds unknownVariant
  ⟨index_kind fun _ => rfl, index_kind fun _ => rfl, index_kind fun _ => rfl, index_kind fun _ => rfl,
    index_kind fun _ => rfl, index_kind fun _ => rfl, trivial⟩

end

def syncV1Kind : Kind SyncMessageV1 SyncMessage where
  build := .v1
  fields
    | .v1 message => some message

def syncMessage : ByteCodec SyncMessage :=
  enum u32 (fun _ => 0) [kind syncMessageV1 syncV1Kind] unknownVariant ⟨index_kind fun _ => rfl, trivial⟩

end Wire

/-! ### Broadcasts and Plumtree -/

inductive BroadcastV1 where
  | change (change : ChangeV1)
  /-- A compressed, encoded `ChangeV1`. -/
  | compressedChange (data : List UInt8)
deriving DecidableEq

inductive ChangesetId where
  | full (version : Nat) (seqs : CrsqlSeqRange) (lastSeq : Nat)
  | empty (versions : CrsqlDbVersionRange)
deriving DecidableEq

structure ChangeId where
  actorId : ActorId
  changesetId : ChangesetId
deriving DecidableEq

structure PlumtreePayload where
  id : ChangeId
  bcast : BroadcastV1
deriving DecidableEq

/-- `PlumtreeMsgV1`. -/
abbrev PlumtreeMsgV1 := Plumtree.PlumtreeMsg ActorId ChangeId PlumtreePayload

inductive PlumtreeWire where
  | v1 (data : PlumtreeMsgV1)

inductive UniPayloadV1 where
  | broadcast (bcast : BroadcastV1)
  | plumtree (wire : PlumtreeWire)

inductive UniPayload where
  | v1 (data : UniPayloadV1) (clusterId : Nat)

namespace Wire

def changeKind : Kind ChangeV1 BroadcastV1 where
  build := .change
  fields
    | .change change => some change
    | _ => none

def compressedChangeKind : Kind (List UInt8) BroadcastV1 where
  build := .compressedChange
  fields
    | .compressedChange data => some data
    | _ => none

def broadcastIndex : BroadcastV1 → Nat
  | .change _ => 0
  | .compressedChange _ => 1

def broadcastKinds : List (ByteCodec BroadcastV1) := [kind changeV1 changeKind, kind blob compressedChangeKind]

def broadcastV1 : ByteCodec BroadcastV1 := enum u32 broadcastIndex broadcastKinds unknownVariant
  ⟨index_kind fun _ => rfl, index_kind fun _ => rfl, trivial⟩

def fullIdKind : Kind (Nat × CrsqlSeqRange × Nat) ChangesetId where
  build fields := .full fields.1 fields.2.1 fields.2.2
  fields
    | .full version seqs lastSeq => some (version, seqs, lastSeq)
    | _ => none

def emptyIdKind : Kind CrsqlDbVersionRange ChangesetId where
  build := .empty
  fields
    | .empty versions => some versions
    | _ => none

def idIndex : ChangesetId → Nat
  | .full _ _ _ => 0
  | .empty _ => 1

def idKinds : List (ByteCodec ChangesetId) := [kind (pair u64 (pair range u64)) fullIdKind, kind range emptyIdKind]

def changesetId : ByteCodec ChangesetId := enum u32 idIndex idKinds unknownVariant
  ⟨index_kind fun _ => rfl, index_kind fun _ => rfl, trivial⟩

/-- `ChangeId`: derived, without a check. -/
def changeId : ByteCodec ChangeId :=
  (pair actorId changesetId).record (fun fields => ⟨fields.1, fields.2⟩) (fun id => (id.actorId, id.changesetId))
    (fun _ => rfl) (fun _ _ => rfl)

def plumtreePayload : ByteCodec PlumtreePayload :=
  (pair changeId broadcastV1).record (fun fields => ⟨fields.1, fields.2⟩) (fun payload => (payload.id, payload.bcast))
    (fun _ => rfl) (fun _ _ => rfl)

def ihaveDigest : ByteCodec (Plumtree.IHaveDigest ChangeId) :=
  (pair changeId u32).record (fun fields => ⟨fields.1, fields.2⟩) (fun digest => (digest.id, digest.round))
    (fun _ => rfl) (fun _ _ => rfl)

def graftRequest : ByteCodec (Plumtree.GraftRequest ChangeId) :=
  (pair changeId u32).record (fun fields => ⟨fields.1, fields.2⟩) (fun request => (request.id, request.round))
    (fun _ => rfl) (fun _ _ => rfl)

def gossipKind : Kind (Nat × ActorId × PlumtreePayload) PlumtreeMsgV1 where
  build fields := .gossip fields.1 fields.2.1 fields.2.2
  fields
    | .gossip round sender payload => some (round, sender, payload)
    | _ => none

def ihaveKind : Kind (ActorId × List (Plumtree.IHaveDigest ChangeId)) PlumtreeMsgV1 where
  build fields := .ihave fields.1 fields.2
  fields
    | .ihave sender digests => some (sender, digests)
    | _ => none

def graftKind : Kind (ActorId × Bool × List (Plumtree.GraftRequest ChangeId)) PlumtreeMsgV1 where
  build fields := .graft fields.1 fields.2.1 fields.2.2
  fields
    | .graft sender send requests => some (sender, send, requests)
    | _ => none

def pruneKind : Kind (ActorId × Option ChangeId) PlumtreeMsgV1 where
  build fields := .prune fields.1 fields.2
  fields
    | .prune sender triggeredBy => some (sender, triggeredBy)
    | _ => none

def plumtreeIndex : PlumtreeMsgV1 → Nat
  | .gossip _ _ _ => 0
  | .ihave _ _ => 1
  | .graft _ _ _ => 2
  | .prune _ _ => 3

def plumtreeKinds : List (ByteCodec PlumtreeMsgV1) :=
  [kind (pair u32 (pair actorId plumtreePayload)) gossipKind, kind (pair actorId (list ihaveDigest)) ihaveKind,
    kind (pair actorId (pair flag (list graftRequest))) graftKind, kind (pair actorId (option changeId)) pruneKind]

def plumtreeMsg : ByteCodec PlumtreeMsgV1 := enum u32 plumtreeIndex plumtreeKinds unknownVariant
  ⟨index_kind fun _ => rfl, index_kind fun _ => rfl, index_kind fun _ => rfl, index_kind fun _ => rfl, trivial⟩

def plumtreeV1Kind : Kind PlumtreeMsgV1 PlumtreeWire where
  build := .v1
  fields
    | .v1 data => some data

def plumtreeWire : ByteCodec PlumtreeWire :=
  enum u32 (fun _ => 0) [kind plumtreeMsg plumtreeV1Kind] unknownVariant ⟨index_kind fun _ => rfl, trivial⟩

def broadcastKind : Kind BroadcastV1 UniPayloadV1 where
  build := .broadcast
  fields
    | .broadcast bcast => some bcast
    | _ => none

def plumtreeKind : Kind PlumtreeWire UniPayloadV1 where
  build := .plumtree
  fields
    | .plumtree wire => some wire
    | _ => none

def uniIndex : UniPayloadV1 → Nat
  | .broadcast _ => 0
  | .plumtree _ => 1

def uniKinds : List (ByteCodec UniPayloadV1) := [kind broadcastV1 broadcastKind, kind plumtreeWire plumtreeKind]

def uniPayloadV1 : ByteCodec UniPayloadV1 := enum u32 uniIndex uniKinds unknownVariant
  ⟨index_kind fun _ => rfl, index_kind fun _ => rfl, trivial⟩

theorem zero_accepted : u16.Accepted 0 := by
  change 0 < capacity 2
  decide

/-- `ClusterId`, the last field of a payload: zero where it is missing. -/
def clusterId : ByteCodec Nat := u16.orOnEof 0 zero_accepted

def uniV1Kind : Kind (UniPayloadV1 × Nat) UniPayload where
  build fields := .v1 fields.1 fields.2
  fields
    | .v1 data clusterId => some (data, clusterId)

def uniPayload : ByteCodec UniPayload :=
  enum u32 (fun _ => 0) [kind (pair uniPayloadV1 clusterId) uniV1Kind] unknownVariant
    ⟨index_kind fun _ => rfl, trivial⟩

end Wire
end Galvanize
