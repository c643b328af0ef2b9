import Galvanize.BigEndian
import Galvanize.Changeset
import Galvanize.Runs

/-! The packed form of a primary key (`pack_columns` and `unpack_columns` of
`corro-types/src/pubsub.rs`), which is also the form of the `pk` column of
`crsql_changes`. -/
namespace Galvanize
open BigEndian List

/-- `rusqlite::types::ValueRef`: texts are bytes still. -/
inductive ValueRef where
  | null
  | integer (value : Int)
  | real (bits : UInt64)
  | text (bytes : List UInt8)
  | blob (bytes : List UInt8)
deriving DecidableEq

def utf8 (text : String) : List UInt8 := text.toUTF8.data.toList

def fromUtf8 (bytes : List UInt8) : Option String := String.fromUTF8? ⟨bytes.toArray⟩

theorem fromUtf8_utf8 (text : String) : fromUtf8 (utf8 text) = some text := by
  exact dif_pos text.isValidUTF8

theorem utf8_of_fromUtf8 (valid : fromUtf8 bytes = some text) : utf8 text = bytes := by
  unfold fromUtf8 String.fromUTF8? at valid
  split at valid
  · cases valid
    rfl
  · cases valid

def SqliteValue.asRef : SqliteValue → ValueRef
  | .null => .null
  | .integer value => .integer value
  | .real bits => .real bits
  | .text value => .text (utf8 value)
  | .blob bytes => .blob bytes

/-- `val as u64`. -/
def asU64 (value : Int) : Nat := (value % 18446744073709551616).toNat

/-- `unsigned as i64`. -/
def asI64 (number : Nat) : Int :=
  if number < 9223372036854775808 then number else number - 18446744073709551616

/-- How many bytes up to the highest one that is not zero. -/
def numBytesNeededI32 (number : Nat) : Nat :=
  if number >>> 24 % 256 ≠ 0 then 4
  else if number >>> 16 % 256 ≠ 0 then 3
  else if number >>> 8 % 256 ≠ 0 then 2
  else if number ≠ 0 then 1
  else 0

def numBytesNeededI64 (number : Nat) : Nat :=
  if number >>> 56 % 256 ≠ 0 then 8
  else if number >>> 48 % 256 ≠ 0 then 7
  else if number >>> 40 % 256 ≠ 0 then 6
  else if number >>> 32 % 256 ≠ 0 then 5
  else numBytesNeededI32 (number % 4294967296)

/-- The type in the low three bits, the width of the number that follows in the
others. -/
def typeByte (columnType width : Nat) : UInt8 := UInt8.ofNat (width * 8 + columnType)

/-- A length, which is an `i32`, and the bytes. -/
def packBytes (columnType : Nat) (bytes : List UInt8) : List UInt8 :=
  let length := bytes.length % 4294967296
  let width := numBytesNeededI32 length
  typeByte columnType width :: toBytes width length ++ bytes

def packColumn : SqliteValue → List UInt8
  | .null => [typeByte 5 0]
  | .integer value =>
    let width := numBytesNeededI64 (asU64 value)
    typeByte 1 width :: toBytes width (asU64 value)
  | .real bits => typeByte 2 0 :: toBytes 8 bits.toNat
  | .text value => packBytes 3 (utf8 value)
  | .blob bytes => packBytes 4 bytes

inductive PackError where
  | abort
deriving DecidableEq

def packColumns (values : List SqliteValue) : Except PackError (List UInt8) :=
  if values.length < 256 then .ok (UInt8.ofNat values.length :: values.flatMap packColumn) else .error .abort

inductive UnpackError where
  | abort
  | misuse
  /-- A read beyond the end, or of a number wider than eight bytes. -/
  | panicked
deriving DecidableEq

/-- `get_uint`, behind the check of what remains. -/
def getUint (width : Nat) (bytes : List UInt8) : Except UnpackError (Nat × List UInt8) :=
  if bytes.length < width then .error .abort
  else if 8 < width then .error .panicked
  else .ok (ofBytes (bytes.take width), bytes.drop width)

/-- The bytes of a text or a blob. -/
def getSlice (width : Nat) (bytes : List UInt8) : Except UnpackError (List UInt8 × List UInt8) := do
  let (length, rest) ← getUint width bytes
  if rest.length < length then .error .abort else .ok (rest.take length, rest.drop length)

def unpackColumn : List UInt8 → Except UnpackError (ValueRef × List UInt8)
  | [] => .error .abort
  | head :: rest =>
    let width := head.toNat / 8
    match head.toNat % 8 with
    | 1 => (getUint width rest).map fun (number, rest) => (.integer (asI64 number), rest)
    | 2 => (getUint 8 rest).map fun (number, rest) => (.real (UInt64.ofNat number), rest)
    | 3 => (getSlice width rest).map fun (bytes, rest) => (.text bytes, rest)
    | 4 => (getSlice width rest).map fun (bytes, rest) => (.blob bytes, rest)
    | 5 => .ok (.null, rest)
    | _ => .error .misuse

/-- The loop over the columns. -/
def unpackMany : Nat → List UInt8 → Except UnpackError (List ValueRef)
  | 0, _ => .ok []
  | count + 1, bytes => do
    let (value, rest) ← unpackColumn bytes
    let values ← unpackMany count rest
    .ok (value :: values)

def unpackColumns : List UInt8 → Except UnpackError (List ValueRef)
  | [] => .error .panicked
  | count :: bytes => unpackMany count.toNat bytes

/-! ### What is packed can be unpacked -/

/-- What a cell of SQLite can hold: an `i64`, and no more than 4 GiB. -/
def ValueRef.Storable : ValueRef → Prop
  | .integer value => -9223372036854775808 ≤ value ∧ value < 9223372036854775808
  | .text bytes => bytes.length < 4294967296
  | .blob bytes => bytes.length < 4294967296
  | _ => True

instance : DecidablePred ValueRef.Storable
  | .null | .real _ => .isTrue trivial
  | .integer _ => inferInstanceAs (Decidable (_ ∧ _))
  | .text _ | .blob _ => inferInstanceAs (Decidable (_ < _))

def SqliteValue.Storable (value : SqliteValue) : Prop := value.asRef.Storable

instance (value : SqliteValue) : Decidable value.Storable := inferInstanceAs (Decidable value.asRef.Storable)

/-- A column as cr-sqlite packs it, whose texts can be any bytes. -/
def ValueRef.pack : ValueRef → List UInt8
  | .null => [typeByte 5 0]
  | .integer value =>
    let width := numBytesNeededI64 (asU64 value)
    typeByte 1 width :: toBytes width (asU64 value)
  | .real bits => typeByte 2 0 :: toBytes 8 bits.toNat
  | .text bytes => packBytes 3 bytes
  | .blob bytes => packBytes 4 bytes

/-- A key as cr-sqlite packs it. -/
def packRefs (values : List ValueRef) : Except PackError (List UInt8) :=
  if values.length < 256 then .ok (UInt8.ofNat values.length :: values.flatMap ValueRef.pack) else .error .abort

theorem pack_asRef (value : SqliteValue) : value.asRef.pack = packColumn value := by
  cases value <;> rfl

/-- The two pack alike what both can. -/
theorem packRefs_asRef (values : List SqliteValue) : packRefs (values.map SqliteValue.asRef) = packColumns values := by
  simp only [packRefs, packColumns, length_map, flatMap_map, pack_asRef]

theorem asI64_asU64 (lower : -9223372036854775808 ≤ value) (upper : value < 9223372036854775808) :
    asI64 (asU64 value) = value := by
  rw [asI64, asU64]
  by_cases low : (value % 18446744073709551616).toNat < 9223372036854775808
  · rw [if_pos low]
    omega
  · rw [if_neg low]
    omega

theorem asU64_lt (value : Int) : asU64 value < 18446744073709551616 := by
  simp only [asU64]
  omega

theorem numBytesNeededI32_spec {number : Nat} (small : number < 4294967296) :
    number < capacity (numBytesNeededI32 number) ∧ numBytesNeededI32 number ≤ 4 := by
  simp only [numBytesNeededI32, Nat.shiftRight_eq_div_pow]
  split_ifs <;> simp [capacity] <;> omega

theorem numBytesNeededI64_spec (small : number < 18446744073709551616) :
    number < capacity (numBytesNeededI64 number) ∧ numBytesNeededI64 number ≤ 8 := by
  obtain ⟨fits, narrow⟩ := @numBytesNeededI32_spec (number % 4294967296) (by omega)
  simp only [numBytesNeededI64, Nat.shiftRight_eq_div_pow]
  split_ifs
  iterate 4 · simp [capacity]; omega
  have low : number % 4294967296 = number := by omega
  rw [low] at fits narrow ⊢
  exact ⟨fits, by omega⟩

theorem typeByte_parts {columnType width : Nat} (type : columnType < 8) (narrow : width ≤ 8) :
    (typeByte columnType width).toNat / 8 = width ∧ (typeByte columnType width).toNat % 8 = columnType := by
  rw [typeByte, UInt8.toNat_ofNat']
  omega

theorem getUint_append {number : List UInt8} (narrow : number.length ≤ 8) (rest : List UInt8) :
    getUint number.length (number ++ rest) = .ok (ofBytes number, rest) := by
  rw [getUint, if_neg (by simp), if_neg (by omega), take_left, drop_left]

theorem getUint_toBytes (narrow : width ≤ 8) (fits : number < capacity width) (rest : List UInt8) :
    getUint width (toBytes width number ++ rest) = .ok (number, rest) := by
  have read := @getUint_append (toBytes width number) (by rwa [length_toBytes]) rest
  rwa [length_toBytes, ofBytes_toBytes fits] at read

theorem getSlice_packed {bytes rest : List UInt8} (short : bytes.length < 4294967296) :
    getSlice (numBytesNeededI32 bytes.length)
      (toBytes (numBytesNeededI32 bytes.length) bytes.length ++ bytes ++ rest) = .ok (bytes, rest) := by
  obtain ⟨fits, _⟩ := numBytesNeededI32_spec short
  rw [getSlice, append_assoc, getUint_toBytes (by omega) fits]
  simp [bind, Except.bind]

theorem unpackColumn_packBytes {columnType : Nat} (type : columnType = 3 ∨ columnType = 4)
    (short : bytes.length < 4294967296) (rest : List UInt8) :
    unpackColumn (packBytes columnType bytes ++ rest) = .ok (if columnType = 3 then .text bytes else .blob bytes,
      rest) := by
  have length : bytes.length % 4294967296 = bytes.length := Nat.mod_eq_of_lt short
  obtain ⟨_, _⟩ := numBytesNeededI32_spec short
  obtain ⟨width, kind⟩ := @typeByte_parts columnType (numBytesNeededI32 bytes.length) (by omega) (by omega)
  simp only [packBytes, length, cons_append, unpackColumn, width, kind, getSlice_packed short]
  rcases type with rfl | rfl <;> rfl

theorem unpackColumn_pack {value : ValueRef} (storable : value.Storable) (rest : List UInt8) :
    unpackColumn (value.pack ++ rest) = .ok (value, rest) := by
  cases value with
  | null => rfl
  | integer value =>
    obtain ⟨fits, narrow⟩ := numBytesNeededI64_spec (asU64_lt value)
    obtain ⟨width, type⟩ := @typeByte_parts 1 (numBytesNeededI64 (asU64 value)) (by omega) narrow
    simp only [ValueRef.pack, cons_append, unpackColumn, width, type, getUint_toBytes narrow fits, Except.map]
    rw [asI64_asU64 storable.1 storable.2]
  | real bits =>
    have fits := bits.toNat_lt
    obtain ⟨width, type⟩ := @typeByte_parts 2 0 (by omega) (by omega)
    simp only [ValueRef.pack, cons_append, unpackColumn, type, getUint_toBytes (Nat.le_refl 8) fits, Except.map]
    rw [UInt64.ofNat_toNat]
  | text bytes | blob bytes => exact unpackColumn_packBytes (by omega) storable rest

theorem unpackMany_packed {values : List ValueRef} (storable : ∀ value ∈ values, value.Storable) :
    unpackMany values.length (values.flatMap ValueRef.pack) = .ok values := by
  induction values with
  | nil => rfl
  | cons value values ih =>
    have first := unpackColumn_pack (storable value mem_cons_self) (values.flatMap ValueRef.pack)
    have later := ih fun other member => storable other (mem_cons_of_mem value member)
    simp only [length_cons, flatMap_cons, unpackMany, first]
    simp [bind, Except.bind, later]

theorem unpackColumns_packRefs {values : List ValueRef} (packed : packRefs values = .ok bytes)
    (storable : ∀ value ∈ values, value.Storable) : unpackColumns bytes = .ok values := by
  rw [packRefs] at packed
  split at packed
  case isTrue few =>
    cases packed
    rw [unpackColumns, UInt8.toNat_ofNat', Nat.mod_eq_of_lt few]
    exact unpackMany_packed storable
  case isFalse => cases packed

theorem unpackColumns_packColumns {values : List SqliteValue}
    (packed : packColumns values = .ok bytes) (storable : ∀ value ∈ values, value.Storable) :
    unpackColumns bytes = .ok (values.map SqliteValue.asRef) := by
  rw [← packRefs_asRef] at packed
  exact unpackColumns_packRefs packed (forall_mem_map.mpr storable)

theorem asRef_injective : Function.Injective SqliteValue.asRef := by
  intro value other same
  cases value <;> cases other <;> simp_all [SqliteValue.asRef]
  rename_i text otherText
  have texts := fromUtf8_utf8 text
  rw [same, fromUtf8_utf8] at texts
  exact (Option.some.inj texts).symm

/-- Up to 255 values that SQLite can hold are packed, come back as they were, and no other
values have the same packed form. -/
theorem packed_columns_round_trip (values : List SqliteValue) (few : values.length ≤ 255)
    (storable : ∀ value ∈ values, value.Storable) :
    ∃ bytes, packColumns values = .ok bytes ∧ unpackColumns bytes = .ok (values.map SqliteValue.asRef) ∧
      ∀ others : List SqliteValue, (∀ value ∈ others, value.Storable) → packColumns others = .ok bytes →
        others = values := by
  have packed : packColumns values = .ok _ := if_pos (Nat.lt_succ_of_le few)
  refine ⟨_, packed, unpackColumns_packColumns packed storable, fun others fit same => ?_⟩
  have unpacked := unpackColumns_packColumns same fit
  rw [unpackColumns_packColumns packed storable] at unpacked
  exact (map_injective_iff.mpr asRef_injective (Except.ok.inj unpacked)).symm

/-- A key of each type of values, with an integer whose width needs a ninth bit. -/
def mixedKey : List SqliteValue :=
  [.null, .integer (-1), .integer 2147483648, .real 0x3ff0000000000000, .text "61", .blob [0, 0x61]]

theorem mixed_key_comes_back : mixedKey.length ≤ 255 ∧ ∃ bytes, packColumns mixedKey = .ok bytes ∧
    unpackColumns bytes = .ok (mixedKey.map SqliteValue.asRef) := by
  obtain ⟨bytes, packed, unpacked, -⟩ := packed_columns_round_trip mixedKey (by decide) (by decide)
  exact ⟨by decide, bytes, packed, unpacked⟩

/-! ### Bytes from elsewhere -/

/-- How wide the number of a column is, by its first byte. -/
def numberWidth (start : UInt8) : Option Nat :=
  match start.toNat % 8 with
  | 1 | 3 | 4 => some (start.toNat / 8)
  | 2 => some 8
  | 5 => some 0
  | _ => none

/-- How many bytes follow the number: for a text or a blob as many as it tells. -/
def dataLength (start : UInt8) (number : Nat) : Nat :=
  if start.toNat % 8 = 3 ∨ start.toNat % 8 = 4 then number else 0

/-- After some columns comes one with a number of more than eight bytes, all of which are there. -/
inductive TooWide : Nat → List UInt8 → Prop where
  | here {count width : Nat} {start : UInt8} {rest : List UInt8} : numberWidth start = some width → 8 < width →
      width ≤ rest.length → TooWide (count + 1) (start :: rest)
  | later {count : Nat} {start : UInt8} {number data rest : List UInt8} : numberWidth start = some number.length →
      number.length ≤ 8 → data.length = dataLength start (ofBytes number) → TooWide count rest →
      TooWide (count + 1) (start :: (number ++ (data ++ rest)))

variable {count : Nat} {bytes : List UInt8}

theorem getUint_ok (ok : getUint width bytes = .ok (value, rest)) :
    ∃ number, bytes = number ++ rest ∧ number.length = width ∧ width ≤ 8 ∧ ofBytes number = value := by
  unfold getUint at ok
  split_ifs at ok
  cases ok
  exact ⟨_, (take_append_drop width bytes).symm, by simp; omega, by omega, rfl⟩

theorem getUint_panicked : getUint width bytes = .error .panicked ↔ 8 < width ∧ width ≤ bytes.length := by
  unfold getUint
  split_ifs <;> simp <;> omega

/-- The columns of every type are read in one way: a number, and what follows it. -/
theorem unpackColumn_eq (start : UInt8) : ∃ make : Nat → List UInt8 →
    ValueRef, ∀ bytes, unpackColumn (start :: bytes) = (do
    let width ← (numberWidth start).elim (.error .misuse) .ok
    let (number, rest) ← getUint width bytes
    let length := dataLength start number
    if rest.length < length then .error .abort else .ok (make number (rest.take length), rest.drop length)) := by
  simp only [unpackColumn, numberWidth, dataLength, getSlice]
  split
  case h_1 type =>
    refine ⟨fun number _ => .integer (asI64 number), fun bytes => ?_⟩
    cases taken : getUint (start.toNat / 8) bytes <;> simp [taken, type, bind, Except.bind, Except.map]
  case h_2 type =>
    refine ⟨fun number _ => .real (UInt64.ofNat number), fun bytes => ?_⟩
    cases taken : getUint 8 bytes <;> simp [taken, type, bind, Except.bind, Except.map]
  case h_3 type =>
    refine ⟨fun _ data => .text data, fun bytes => ?_⟩
    cases taken : getUint (start.toNat / 8) bytes <;> simp [taken, type, bind, Except.bind, Except.map]
    split_ifs <;> rfl
  case h_4 type =>
    refine ⟨fun _ data => .blob data, fun bytes => ?_⟩
    cases taken : getUint (start.toNat / 8) bytes <;> simp [taken, type, bind, Except.bind, Except.map]
    split_ifs <;> rfl
  case h_5 type =>
    exact ⟨fun _ _ => .null, fun bytes => by simp [type, getUint, bind, Except.bind]⟩
  case h_6 type1 type2 type3 type4 type5 => exact ⟨fun _ _ => .null, fun bytes => by simp [bind, Except.bind]⟩

theorem unpackMany_panicked : unpackMany count bytes = .error .panicked ↔ TooWide count bytes := by
  constructor
  · intro panicked
    induction count generalizing bytes with
    | zero => cases panicked
    | succ count ih =>
      cases bytes with
      | nil => cases panicked
      | cons start bytes =>
        obtain ⟨make, column⟩ := unpackColumn_eq start
        rw [unpackMany, column] at panicked
        cases isWidth : numberWidth start with
        | none => simp [isWidth, bind, Except.bind] at panicked
        | some width =>
          cases taken : getUint width bytes with
          | error error =>
            obtain rfl : error = .panicked := by simpa [isWidth, taken, bind, Except.bind] using panicked
            obtain ⟨wide, there⟩ := getUint_panicked.mp taken
            exact .here isWidth wide there
          | ok result =>
            obtain ⟨number, rfl, rfl, narrow, value⟩ := getUint_ok taken
            simp only [isWidth, taken, bind, Except.bind, Option.elim_some] at panicked
            split_ifs at panicked with short
            · cases panicked
            · rw [← take_append_drop (dataLength start result.1) result.2]
              refine .later isWidth narrow (by rw [value]; simp; omega) (ih ?_)
              cases later : unpackMany count (result.2.drop (dataLength start result.1)) <;> simp_all
  · intro wide
    induction wide with
    | @here count width start rest isWidth wide there =>
      obtain ⟨make, column⟩ := unpackColumn_eq start
      simp [unpackMany, column, isWidth, getUint_panicked.mpr ⟨wide, there⟩, bind, Except.bind]
    | @later count start number data rest isWidth narrow length wide ih =>
      obtain ⟨make, column⟩ := unpackColumn_eq start
      have enough := Nat.not_lt.mpr (Nat.le_add_right data.length rest.length)
      simp [unpackMany, column, isWidth, getUint_append narrow, ← length, enough, ih, bind, Except.bind]

theorem unpackMany_length (ok : unpackMany count bytes = .ok values) : values.length = count := by
  induction count generalizing bytes values with
  | zero =>
    cases ok
    rfl
  | succ count ih =>
    obtain ⟨_, -, ok⟩ := bind_ok ok
    obtain ⟨_, later, ok⟩ := bind_ok ok
    cases ok
    rw [length_cons, ih later]

/-- Bytes from elsewhere are unpacked or refused, and are as many values as their first byte tells, exactly if there
is a first byte and no number is too wide. -/
theorem unpack_columns_safe_iff (bytes : List UInt8) : (unpackColumns bytes ≠ .error .panicked ∧
        ∀ values, unpackColumns bytes = .ok values → ∃ count ∈ bytes.head?, values.length = count.toNat) ↔
      ∃ count rest, bytes = count :: rest ∧ ¬TooWide count.toNat rest := by
  cases bytes with
  | nil => simp [unpackColumns]
  | cons count rest =>
    simp only [unpackColumns, ne_eq, unpackMany_panicked, cons.injEq]
    constructor
    · rintro ⟨narrow, -⟩
      exact ⟨count, rest, ⟨rfl, rfl⟩, narrow⟩
    · rintro ⟨_, _, ⟨rfl, rfl⟩, narrow⟩
      exact ⟨narrow, fun values ok => ⟨_, rfl, unpackMany_length ok⟩⟩

/-- A key of one integer of nine bytes, and one without a byte. -/
theorem wide_integer_panics : unpackColumns (1 :: 73 :: replicate 9 0) = .error .panicked ∧
    unpackColumns [] = .error .panicked :=
  ⟨rfl, rfl⟩

end Galvanize
