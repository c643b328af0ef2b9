import Galvanize.WireFormat

/-! One value in bytes (`corro-api-types/src/lib.rs`): its two encoders, the sizes they
announce, and the reader, which takes the bytes of a text without a look. -/
namespace Galvanize
open ByteCodec List Wire BigEndian

namespace Wire

theorem strict_i64 : i64.Strict := by
  intro value _ written
  change Fits64 value
  by_contra large
  change writeI64 value = _ at written
  rw [writeI64, if_neg large] at written
  cases written

theorem strict_uncheckedText : uncheckedText.Strict := fun _ _ _ => trivial

theorem strict_u64 : u64.Strict := strict_word 8

theorem strict_sqliteValue : sqliteValue.Strict := by
  apply (strict_word 1).enum
  simp only [valueKinds, forall_mem_cons]
  exact ⟨strict_unit.kind, strict_i64.kind, strict_u64.record.kind, strict_uncheckedText.kind,
    strict_blob.kind, by simp⟩

end Wire

/-- `SqliteValueRef::write_to`. -/
def ValueRef.write : ValueRef → Except WriteError (List UInt8)
  | null => .ok [0]
  | integer value => return 1 :: (← i64.write value)
  | real bits => return 2 :: (← f64.write bits)
  | text bytes => return 3 :: (← ByteCodec.blob.write bytes)
  | blob bytes => return 4 :: (← ByteCodec.blob.write bytes)

def ValueRef.bytesNeeded : ValueRef → Nat
  | null => 1
  | integer _ | real _ => 1 + 8
  | text bytes | blob bytes => 1 + (4 + bytes.length)

def SqliteValue.bytesNeeded : SqliteValue → Nat
  | null => 1
  | integer _ | real _ => 1 + 8
  | text value => 1 + (4 + (utf8 value).length)
  | blob bytes => 1 + (4 + bytes.length)

/-- What `from_utf8_unchecked` is given, where a text is read. -/
def uncheckedBytes : List UInt8 → Except ReadError (List UInt8)
  | 3 :: rest => blob.read.run rest
  | _ => .error (.invalid "no text")

/-- The bytes of a text, if they are all there, are UTF-8. -/
def TextValid : List UInt8 → Prop
  | 3 :: rest =>
    let size := ofBytes (rest.take 4).reverse
    4 ≤ rest.length → size ≤ (rest.drop 4).length → (fromUtf8 ((rest.drop 4).take size)).isSome
  | _ => True

theorem write_asRef (value : SqliteValue) : value.asRef.write = sqliteValue.write value := by
  cases value <;> rfl

theorem bytesNeeded_asRef (value : SqliteValue) : value.asRef.bytesNeeded = value.bytesNeeded := by
  cases value <;> rfl

theorem blob_written (short : bytes.length < 4294967296) :
    blob.write bytes = .ok ((toBytes 4 bytes.length).reverse ++ bytes) := by
  have front : ByteCodec.length.write bytes.length = .ok (toBytes 4 bytes.length).reverse := if_pos short
  change writeBlob bytes = _
  rw [writeBlob, front]
  rfl

/-- A value is written, in the bytes it needs. -/
theorem value_written {value : SqliteValue} (storable : value.Storable) :
    ∃ bytes, sqliteValue.write value = .ok bytes ∧ bytes.length = value.bytesNeeded := by
  rw [← write_asRef]
  cases value with
  | null => exact ⟨[0], rfl, rfl⟩
  | integer value =>
    have held : i64.write value = _ := (if_pos storable).trans (if_pos (asU64_lt value))
    rw [SqliteValue.asRef, ValueRef.write, held]
    exact ⟨_, rfl, by simp [SqliteValue.bytesNeeded]⟩
  | real bits =>
    have held : f64.write bits = _ := if_pos bits.toNat_lt
    rw [SqliteValue.asRef, ValueRef.write, held]
    exact ⟨_, rfl, by simp [SqliteValue.bytesNeeded]⟩
  | text _ | blob _ =>
    rw [SqliteValue.asRef, ValueRef.write, blob_written storable]
    exact ⟨_, rfl, by simp [SqliteValue.bytesNeeded]; omega⟩

theorem length_unchecked (bytes : List UInt8) : (utf8 (fromUtf8Unchecked bytes)).length ≤ bytes.length := by
  unfold fromUtf8Unchecked fromUtf8 String.fromUTF8?
  split
  · exact le_rfl
  · exact Nat.zero_le _

theorem yields_storable : sqliteValue.read.Yields SqliteValue.Storable := by
  refine (Reader.Yields.any (word 1).read).bind fun variant _ => ?_
  match variant with
  | 0 => exact @yields_as _ _ unit _ _ fun _ _ => trivial
  | 1 => exact @yields_as _ _ i64 _ _ fun _ held => held
  | 2 => exact @yields_as _ _ f64 _ _ fun _ _ => trivial
  | 3 =>
    have short : uncheckedText.read.Yields fun text => (utf8 text).length < 4294967296 :=
      yields_as fun bytes held => Nat.lt_of_le_of_lt (length_unchecked bytes) held
    exact short.bind fun _ held => .pure held
  | 4 => exact @yields_as _ _ blob _ _ fun _ held => held
  | _ + 5 => exact .fail

/-- These are the bytes that the reader makes its text of. -/
theorem read_uncheckedBytes {text : List UInt8} (given : uncheckedBytes bytes = .ok text) :
    sqliteValue.read.run bytes = .ok (.text (fromUtf8Unchecked text)) := by
  unfold uncheckedBytes at given
  split at given
  · rename_i rest
    obtain ⟨left, is⟩ : ∃ left, blob.read rest = (.ok text, left) := ⟨_, Prod.ext given rfl⟩
    change (uncheckedText.readAs SqliteValue.text rest).1 = _
    simp only [readAs, uncheckedText, bind, Reader.andThen, is]
    rfl
  · cases given

theorem unchecked_iff : (∀ text, uncheckedBytes bytes = .ok text → (fromUtf8 text).isSome) ↔ TextValid bytes := by
  unfold uncheckedBytes TextValid
  split
  · rename_i rest
    simp only [Reader.run, blob, readBlob, ByteCodec.length, word, readWord, bind, Reader.andThen, Reader.take, pure]
    by_cases enough : 4 ≤ rest.length
    · by_cases all : ofBytes (rest.take 4).reverse ≤ rest.length - 4 <;> simp [enough, all]
    · simp [enough]
  · simp

/-- Values come back from what either encoder writes, and what is read is a value unless
it is a text that is no UTF-8. -/
theorem value_codec_iff (bytes : List UInt8) :
    ((∀ value : SqliteValue, value.Storable → ∃ written, sqliteValue.write value = .ok written ∧
        value.asRef.write = .ok written ∧ written.length = value.bytesNeeded ∧
          written.length = value.asRef.bytesNeeded ∧
        sqliteValue.read.run written = .ok value) ∧
      (∀ value, sqliteValue.read.run bytes = .ok value → value.Storable) ∧
      ∀ text, uncheckedBytes bytes = .ok text → (fromUtf8 text).isSome) ↔ TextValid bytes := by
  rw [unchecked_iff]
  refine ⟨fun holds => holds.2.2, fun valid => ⟨fun value storable => ?_, fun value => yields_storable.run, valid⟩⟩
  obtain ⟨written, isWritten, size⟩ := value_written storable
  refine ⟨written, isWritten, (write_asRef value).trans isWritten, size, size.trans (bytesNeeded_asRef value).symm, ?_⟩
  exact (sqliteValue.reads (strict_sqliteValue _ _ isWritten) isWritten).run

/-- A continuation byte alone is no UTF-8. -/
theorem continuation_byte_read : (∃ value, sqliteValue.read.run [3, 1, 0, 0, 0, 128] = .ok value) ∧
    uncheckedBytes [3, 1, 0, 0, 0, 128] = .ok [128] ∧ fromUtf8 [128] = none :=
  ⟨⟨_, rfl⟩, rfl, by decide⟩

end Galvanize
