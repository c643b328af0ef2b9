import Mathlib.Data.List.Basic
import Galvanize.BigEndian
import Galvanize.IndexMap
import Galvanize.Runs

/-! Values as bytes: readers that take bytes from the front, codecs that read back what
they wrote, and two rules for each way to put readers together. `Reads` says that given
bytes are read as a value, whatever follows them; `Yields` says what is true of every value
that is read at all. -/
namespace Galvanize

inductive ReadError where
  | eof
  | invalid (message : String)
deriving DecidableEq

/-- A reader. What it leaves is known even where it fails. -/
def Reader (α : Type) : Type := List UInt8 → Except ReadError α × List UInt8

variable {bytes : List UInt8}

namespace Reader
variable {α β : Type}

def andThen (first : Reader α) (next : α → Reader β) : Reader β := fun bytes =>
  match first bytes with
  | (.ok value, rest) => next value rest
  | (.error error, rest) => (.error error, rest)

instance : Monad Reader where
  pure value := fun bytes => (.ok value, bytes)
  bind := andThen

def fail (error : ReadError) : Reader α := fun bytes => (.error error, bytes)

/-- The next bytes, or none of them if there are too few. -/
def take (count : Nat) : Reader (List UInt8) := fun bytes =>
  if count ≤ bytes.length then (.ok (bytes.take count), bytes.drop count) else (.error .eof, bytes)

/-- A value for a reader that runs out of bytes. It goes on where that reader stopped. -/
def orOnEof (read : Reader α) (value : α) : Reader α := fun bytes =>
  match read bytes with
  | (.error .eof, rest) => (.ok value, rest)
  | other => other

/-- The same reader several times. -/
def many (read : Reader α) : Nat → Reader (List α)
  | 0 => pure []
  | count + 1 => do
    let value ← read
    let values ← read.many count
    pure (value :: values)

def passing {ε : Type} (message : ε → String) (value : α) : Except ε Unit → Reader α
  | .ok () => pure value
  | .error error => fail (.invalid (message error))

/-- A value that has to pass a check. -/
def check {ε : Type} (read : Reader α) (validate : α → Except ε Unit) (message : ε → String) : Reader α := do
  let value ← read
  passing message value (validate value)

/-- The value at the front, whatever follows it. -/
def run (read : Reader α) (bytes : List UInt8) : Except ReadError α := (read bytes).1

/-! ### Given bytes -/

/-- The bytes are read as the value. -/
def Reads (read : Reader α) (bytes : List UInt8) (value : α) : Prop := ∀ rest, read (bytes ++ rest) = (.ok value, rest)

variable {read : Reader α} {value : α}

theorem Reads.run (reads : Reads read bytes value) : read.run bytes = .ok value := by
  have all := reads []
  rw [List.append_nil] at all
  exact congrArg Prod.fst all

theorem Reads.pure (value : α) : Reads (pure value) [] value := fun _ => rfl

variable {next : α → Reader β} {first : Reader α}

theorem Reads.bind (one : Reads first bytes value)
    (two : Reads (next value) others result) : Reads (first >>= next) (bytes ++ others) result := by
  intro rest
  change andThen first next _ = _
  rw [andThen, List.append_assoc, one]
  exact two rest

/-- A part of a reader that takes no bytes. -/
theorem Reads.then (reads : Reads read bytes value) (done : Reads (next value) [] result) :
    Reads (read >>= next) bytes result := by
  have both := reads.bind done
  rw [List.append_nil] at both
  exact both

theorem Reads.map (reads : Reads read bytes value) (build : α → β) :
    Reads (read >>= fun value => Pure.pure (build value)) bytes (build value) :=
  reads.then (Reads.pure (build value))

theorem Reads.take (bytes : List UInt8) : Reads (Reader.take bytes.length) bytes bytes := by
  intro _
  rw [Reader.take, if_pos (by simp)]
  simp

theorem Reads.orOnEof (reads : Reads read bytes value) (default : α) : Reads (read.orOnEof default) bytes value := by
  intro _
  rw [Reader.orOnEof, reads]

theorem Reads.check (reads : Reads read bytes value) {validate : α → Except ε Unit}
    {message : ε → String} (valid : validate value = .ok ()) : Reads (read.check validate message) bytes value := by
  apply reads.then
  rw [valid]
  exact Reads.pure value

theorem Reads.many {items : List (List UInt8)} (each : List.Forall₂ (Reads read) items values) :
    Reads (read.many values.length) items.flatten values := by
  induction each with
  | nil => exact Reads.pure []
  | cons first _ ih => exact first.bind (ih.map _)

/-! ### Any bytes -/

/-- Every value that is read has the property. -/
def Yields (read : Reader α) (holds : α → Prop) : Prop :=
  ∀ bytes value rest, read bytes = (.ok value, rest) → holds value

theorem Yields.run (yields : Yields read holds) (ok : read.run bytes = .ok value) : holds value :=
  yields bytes value (read bytes).2 (Prod.ext ok rfl)

theorem Yields.pure (held : holds value) : Yields (Pure.pure value) holds := by
  intro _ _ _ same
  cases same
  exact held

theorem Yields.any (read : Reader α) : Yields read fun _ => True := fun _ _ _ _ => trivial

theorem Yields.fail : Yields (Reader.fail error) holds := by
  intro _ _ _ same
  cases same

theorem Yields.bind (one : Yields first holds)
    (two : ∀ value, holds value → Yields (next value) results) : Yields (first >>= next) results := by
  intro bytes result rest ok
  change andThen first next bytes = _ at ok
  rw [andThen] at ok
  cases read : first bytes with
  | mk outcome left =>
    rw [read] at ok
    cases outcome with
    | error error => cases ok
    | ok value => exact two value (one bytes value left read) left result rest ok

/-- A part of a reader that nothing is asked of. -/
theorem Yields.after (two : ∀ value, Yields (next value) results) : Yields (first >>= next) results :=
  (Yields.any first).bind fun value _ => two value

theorem Yields.check (yields : Yields read holds) {validate : α → Except ε Unit} {message : ε → String} :
    Yields (read.check validate message) fun value => holds value ∧ validate value = .ok () := by
  refine yields.bind fun value held => ?_
  cases checked : validate value with
  | ok _ => exact Yields.pure ⟨held, checked⟩
  | error error => exact Yields.fail

theorem Yields.take (count : Nat) : Yields (Reader.take count) fun bytes => bytes.length = count := by
  intro bytes _ _ ok
  unfold Reader.take at ok
  rcases ite_eq_iff.mp ok with ⟨enough, ok⟩ | ⟨enough, ok⟩
  · cases ok
    exact List.length_take_of_le enough
  · cases ok

theorem Yields.many (yields : Yields read holds) (count : Nat) :
    Yields (read.many count) fun values => values.length = count ∧ ∀ value ∈ values, holds value := by
  induction count with
  | zero => exact Yields.pure (by simp)
  | succ count ih =>
    refine yields.bind fun value first => ih.bind fun values others => ?_
    exact Yields.pure ⟨congrArg Nat.succ others.1, List.forall_mem_cons.mpr ⟨first, others.2⟩⟩

theorem Yields.orOnEof (yields : Yields read holds) {default : α} (held : holds default) :
    Yields (read.orOnEof default) holds := by
  intro bytes value rest ok
  rw [Reader.orOnEof] at ok
  cases ran : read bytes with
  | mk outcome _ =>
    rw [ran] at ok
    cases outcome with
    | ok _ =>
      cases ok
      exact yields bytes value rest ran
    | error error =>
      cases error with
      | eof =>
        cases ok
        exact held
      | invalid _ => cases ok

end Reader

/-! ### Codecs -/

inductive WriteError where
  | tooLarge
deriving DecidableEq

/-- Values with a form in bytes. Not every value can be written, and not every value that
can be written is accepted; one that is accepted and written is read back, and nothing else
is ever read than what is accepted. -/
structure ByteCodec (α : Type) where
  write : α → Except WriteError (List UInt8)
  read : Reader α
  Accepted : α → Prop
  reads : ∀ {value : α} {bytes : List UInt8}, Accepted value → write value = .ok bytes → read.Reads bytes value
  yields : read.Yields Accepted

namespace ByteCodec
variable {α β : Type}
open Reader BigEndian

/-! ### Numbers -/

def writeWord (width number : Nat) : Except WriteError (List UInt8) :=
  if number < capacity width then .ok (toBytes width number).reverse else .error .tooLarge

def readWord (width : Nat) : Reader Nat := do
  let bytes ← take width
  pure (ofBytes bytes.reverse)

variable {number : Nat}

theorem reads_word (small : number < capacity width)
    (written : writeWord width number = .ok bytes) : (readWord width).Reads bytes number := by
  rw [writeWord, if_pos small] at written
  cases written
  have taken := Reads.take (toBytes width number).reverse
  rw [List.length_reverse, length_toBytes] at taken
  apply taken.then
  rw [List.reverse_reverse, ofBytes_toBytes small]
  exact Reads.pure number

theorem small_of_written (written : writeWord width number = .ok bytes) : number < capacity width := by
  by_contra large
  rw [writeWord, if_neg large] at written
  cases written

theorem yields_word (width : Nat) : (readWord width).Yields (· < capacity width) := by
  refine (Yields.take width).bind fun bytes long => Yields.pure ?_
  have small := ofBytes_lt bytes.reverse
  rw [List.length_reverse, long] at small
  exact small

/-- A number of some bytes, the lowest one first. -/
def word (width : Nat) : ByteCodec Nat where
  write := writeWord width
  read := readWord width
  Accepted number := number < capacity width
  reads := reads_word
  yields := yields_word width

def writeRaw (count : Nat) (bytes : List UInt8) : Except WriteError (List UInt8) :=
  if bytes.length = count then .ok bytes else .error .tooLarge

theorem reads_raw {count : Nat} {written : List UInt8} (long : bytes.length = count)
    (same : writeRaw count bytes = .ok written) : (take count).Reads written bytes := by
  rw [writeRaw, if_pos long] at same
  cases same
  cases long
  exact Reads.take bytes

/-- A fixed number of bytes. -/
def raw (count : Nat) : ByteCodec (List UInt8) where
  write := writeRaw count
  read := take count
  Accepted bytes := bytes.length = count
  reads := reads_raw
  yields := Yields.take count

theorem reads_unit (_ : True) (written : (.ok [] : Except WriteError (List UInt8)) = .ok bytes) :
    Reads (pure ()) bytes value := by
  cases written
  exact Reads.pure ()

/-- Nothing. -/
def unit : ByteCodec Unit where
  write _ := .ok []
  read := pure ()
  Accepted _ := True
  reads := reads_unit
  yields := Yields.any (pure ())

/-! ### One value after the other -/

section
variable (first : ByteCodec α) (second : ByteCodec β)

def writePair (both : α × β) : Except WriteError (List UInt8) := do
  let front ← first.write both.1
  let back ← second.write both.2
  .ok (front ++ back)

def readPair : Reader (α × β) := do
  let one ← first.read
  let two ← second.read
  pure (one, two)

variable {first second}

theorem reads_pair (accepted : first.Accepted both.1 ∧ second.Accepted both.2)
    (written : writePair first second both = .ok bytes) : (readPair first second).Reads bytes both := by
  obtain ⟨_, isFront, rest⟩ := bind_ok written
  obtain ⟨_, isBack, same⟩ := bind_ok rest
  cases same
  exact (first.reads accepted.1 isFront).bind ((second.reads accepted.2 isBack).map _)

theorem yields_pair : (readPair first second).Yields fun both => first.Accepted both.1 ∧ second.Accepted both.2 :=
  first.yields.bind fun _ one => second.yields.bind fun _ two => Yields.pure ⟨one, two⟩

variable (first second)

def pair : ByteCodec (α × β) where
  write := writePair first second
  read := readPair first second
  Accepted both := first.Accepted both.1 ∧ second.Accepted both.2
  reads := reads_pair
  yields := yields_pair

end

/-! ### The form of another type -/

section
variable {codec : ByteCodec α} {build : α → β}

def readAs (codec : ByteCodec α) (build : α → β) : Reader β := do
  let value ← codec.read
  pure (build value)

theorem reads_as (accepted : codec.Accepted parts) (inverse : build parts = value)
    (written : codec.write parts = .ok bytes) : (codec.readAs build).Reads bytes value :=
  inverse ▸ (codec.reads accepted written).map build

theorem yields_as (sound : ∀ value, codec.Accepted value → holds (build value)) : (codec.readAs build).Yields holds :=
  codec.yields.bind fun value accepted => Yields.pure (sound value accepted)

variable {parts : β → α}

/-- Values that can be taken apart and put together. -/
def record (codec : ByteCodec α) (build : α → β) (parts : β → α) (inverse : ∀ value, build (parts value) = value)
    (whole : ∀ value, codec.Accepted value → parts (build value) = value) : ByteCodec β where
  write value := codec.write (parts value)
  read := codec.readAs build
  Accepted value := codec.Accepted (parts value)
  reads accepted written := reads_as accepted (inverse _) written
  yields := yields_as fun value accepted => (whole value accepted).symm ▸ accepted

end

/-! ### Lengths -/

/-- A length of four bytes. -/
def length : ByteCodec Nat := word 4

def writeBlob (bytes : List UInt8) : Except WriteError (List UInt8) := do
  let front ← length.write bytes.length
  .ok (front ++ bytes)

def readBlob : Reader (List UInt8) := do
  let count ← length.read
  take count

theorem reads_blob {blob : List UInt8} (accepted : length.Accepted blob.length)
    (written : writeBlob blob = .ok bytes) : readBlob.Reads bytes blob := by
  obtain ⟨_, isFront, same⟩ := bind_ok written
  cases same
  exact (length.reads accepted isFront).bind (Reads.take blob)

theorem yields_blob : readBlob.Yields fun bytes => length.Accepted bytes.length := by
  refine length.yields.bind fun count small => ?_
  intro bytes value rest ok
  rw [Yields.take count bytes value rest ok]
  exact small

/-- Bytes behind their length. -/
def blob : ByteCodec (List UInt8) where
  write := writeBlob
  read := readBlob
  Accepted bytes := length.Accepted bytes.length
  reads := reads_blob
  yields := yields_blob

section
variable {item : ByteCodec α}

def writeList (item : ByteCodec α) (values : List α) : Except WriteError (List UInt8) := do
  let front ← length.write values.length
  let items ← values.mapM item.write
  .ok (front ++ items.flatten)

def readList (item : Reader α) : Reader (List α) := do
  let count ← length.read
  item.many count

theorem reads_list (accepted : length.Accepted values.length ∧ ∀ value ∈ values, item.Accepted value)
    (written : writeList item values = .ok bytes) : (readList item.read).Reads bytes values := by
  obtain ⟨_, isFront, rest⟩ := bind_ok written
  obtain ⟨_, isItems, same⟩ := bind_ok rest
  cases same
  apply (length.reads accepted.1 isFront).bind
  apply Reads.many
  apply List.Forall₂.flip
  have each := List.forall₂_and_left (p := fun value => item.Accepted value) _ _ |>.mpr ⟨accepted.2,
    mapM_ok_iff.mp isItems⟩
  exact each.imp fun value bytes both => item.reads both.1 both.2

theorem yields_list :
    (readList item.read).Yields fun values => length.Accepted values.length ∧
      ∀ value ∈ values, item.Accepted value := by
  refine length.yields.bind fun count small => ?_
  intro bytes values rest ok
  obtain ⟨long, each⟩ := item.yields.many count bytes values rest ok
  exact ⟨long ▸ small, each⟩

/-- Values behind their number. -/
def list (item : ByteCodec α) : ByteCodec (List α) where
  write := writeList item
  read := readList item.read
  Accepted values := length.Accepted values.length ∧ ∀ value ∈ values, item.Accepted value
  reads := reads_list
  yields := yields_list

/-! ### Values that may be missing -/

def readFlagged (item : Reader α) (flag : Nat) : Reader (Option α) :=
  if flag = 0 then pure none
  else do
    let value ← item
    pure (some value)

def writeOption (item : ByteCodec α) : Option α → Except WriteError (List UInt8)
  | none => .ok [0]
  | some value => do
    let bytes ← item.write value
    .ok ([1] ++ bytes)

def readOption (item : Reader α) : Reader (Option α) := do
  let flag ← readWord 1
  readFlagged item flag

theorem reads_byte (byte : UInt8) : (readWord 1).Reads [byte] byte.toNat := by
  apply (Reads.take [byte]).then
  have one : ofBytes [byte].reverse = byte.toNat := by simp [ofBytes]
  rw [one]
  exact Reads.pure byte.toNat

theorem reads_option (accepted : ∀ held, value = some held → item.Accepted held)
    (written : writeOption item value = .ok bytes) : (readOption item.read).Reads bytes value := by
  cases value with
  | none =>
    cases written
    exact (reads_byte 0).then (Reads.pure none)
  | some value =>
    obtain ⟨own, isOwn, same⟩ := bind_ok written
    cases same
    exact (reads_byte 1).bind ((item.reads (accepted value rfl) isOwn).map some)

theorem yields_option : (readOption item.read).Yields fun value => ∀ held, value = some held → item.Accepted held := by
  refine Yields.after fun flag => ?_
  unfold readFlagged
  split
  · exact Yields.pure (by simp)
  · exact item.yields.bind fun value accepted => Yields.pure (by simpa using accepted)

def writeFlag (value : Bool) : Except WriteError (List UInt8) := .ok [if value then 1 else 0]

def readFlag : Reader Bool := do
  let number ← readWord 1
  pure (decide (number ≠ 0))

theorem reads_flag (_ : True) (written : writeFlag value = .ok bytes) : readFlag.Reads bytes value := by
  cases written
  cases value with
  | false => exact (reads_byte 0).then (Reads.pure false)
  | true => exact (reads_byte 1).then (Reads.pure true)

/-- A truth value: every byte but zero is true. -/
def flag : ByteCodec Bool where
  write := writeFlag
  read := readFlag
  Accepted _ := True
  reads := reads_flag
  yields := Yields.any readFlag

/-- A flag, and the value if there is one. -/
def option (item : ByteCodec α) : ByteCodec (Option α) where
  write := writeOption item
  read := readOption item.read
  Accepted value := ∀ held, value = some held → item.Accepted held
  reads := reads_option
  yields := yields_option

/-- A value that is taken as given where the bytes end. -/
def orOnEof (item : ByteCodec α) (value : α) (accepted : item.Accepted value) : ByteCodec α where
  write := item.write
  read := item.read.orOnEof value
  Accepted := item.Accepted
  reads held written := (item.reads held written).orOnEof value
  yields := item.yields.orOnEof accepted

/-- A check that is made of what is read, and not of what is written. -/
def check {ε : Type} (item : ByteCodec α) (validate : α → Except ε Unit) (message : ε → String) : ByteCodec α where
  write := item.write
  read := item.read.check validate message
  Accepted value := item.Accepted value ∧ validate value = .ok ()
  reads accepted written := (item.reads accepted.1 written).check accepted.2
  yields := item.yields.check

end

/-! ### Maps, as the list of their entries -/

section
variable {κ ν : Type}

def indexMapOf [DecidableEq κ] (entries : List (κ × ν)) : IndexMap κ ν :=
  entries.foldl (fun map entry => map.upsert entry.1 fun _ => entry.2) ∅

variable {entries : List (κ × ν)}

theorem upsertEntry_new [DecidableEq κ] {key : κ} (new : key ∉ entries.map Prod.fst) (change : Option ν → ν) :
    upsertEntry key change entries = entries ++ [(key, change none)] := by
  induction entries with
  | nil => rfl
  | cons _ _ ih =>
    rw [List.map_cons, List.mem_cons, not_or] at new
    obtain ⟨here, later⟩ := new
    rw [upsertEntry, if_neg (Ne.symm here), ih later]
    rfl

theorem foldl_upsert [DecidableEq κ] {map : IndexMap κ ν} (distinct : ((map.entries ++ entries).map Prod.fst).Nodup) :
    (entries.foldl (fun map entry => map.upsert entry.1 fun _ => entry.2) map).entries = map.entries ++ entries := by
  induction entries generalizing map with
  | nil => exact (List.append_nil _).symm
  | cons first _ ih =>
    have new : first.1 ∉ map.entries.map Prod.fst := by
      rw [List.map_append, List.map_cons] at distinct
      intro old
      exact List.disjoint_of_nodup_append distinct old List.mem_cons_self
    have one : (map.upsert first.1 fun _ => first.2).entries = map.entries ++ [first] := upsertEntry_new new _
    rw [List.foldl_cons, ih, one, List.append_assoc]
    · rfl
    · rw [one, List.append_assoc]
      exact distinct

theorem indexMapOf_entries [DecidableEq κ] (map : IndexMap κ ν) : indexMapOf map.entries = map := by
  obtain ⟨entries, distinct⟩ := map
  have same : (indexMapOf entries).entries = entries := foldl_upsert distinct
  generalize indexMapOf entries = built at same
  cases built
  cases same
  rfl

theorem mem_upsertEntry [DecidableEq κ] {key : κ} {entry : κ × ν}
    (listed : entry ∈ upsertEntry key (fun _ => value) entries) : entry ∈ entries ∨ entry = (key, value) := by
  induction entries with
  | nil => exact .inr (List.mem_singleton.mp listed)
  | cons _ _ ih =>
    rw [upsertEntry] at listed
    split at listed
    case isTrue same =>
      rcases List.mem_cons.mp listed with here | later
      · exact .inr (here.trans (by rw [same]))
      · exact .inl (List.mem_cons_of_mem _ later)
    case isFalse _ =>
      rcases List.mem_cons.mp listed with here | later
      · exact .inl (here ▸ List.mem_cons_self)
      · exact (ih later).imp_left (List.mem_cons_of_mem _)

theorem mem_foldl_upsert [DecidableEq κ] {map : IndexMap κ ν} {entry : κ × ν}
    (listed : entry ∈ (entries.foldl (fun map entry => map.upsert entry.1 fun _ => entry.2) map).entries) :
    entry ∈ map.entries ∨ entry ∈ entries := by
  induction entries generalizing map with
  | nil => exact .inl listed
  | cons _ _ ih =>
    rcases ih listed with before | later
    · rcases mem_upsertEntry before with held | same
      · exact .inl held
      · exact .inr (List.mem_cons.mpr (.inl same))
    · exact .inr (List.mem_cons_of_mem _ later)

/-- A number that was written fits. -/
theorem length_of_written (written : writeList item values = .ok bytes) : length.Accepted values.length := by
  obtain ⟨_, isFront, -⟩ := bind_ok written
  exact small_of_written isFront

/-- Entries that are put together to something else, where a later one may replace an
earlier one. -/
def collected {γ : Type} (item : ByteCodec α) (build : List α → γ) (parts : γ → List α)
    (inverse : ∀ value, build (parts value) = value) (taken : ∀ values, ∀ part ∈ parts (build values), part ∈ values) :
    ByteCodec γ where
  write value := (list item).write (parts value)
  read := (list item).readAs build
  Accepted value := ∀ part ∈ parts value, item.Accepted part
  reads accepted written := reads_as ⟨length_of_written written, accepted⟩ (inverse _) written
  yields := yields_as fun values accepted part listed => accepted.2 part (taken values part listed)

theorem mem_indexMapOf [DecidableEq κ] (entries : List (κ × ν)) :
    ∀ entry ∈ (indexMapOf entries).entries, entry ∈ entries :=
  fun _ listed => (mem_foldl_upsert listed).resolve_left List.not_mem_nil

/-- A map that keeps the order of its keys. -/
def indexMap [DecidableEq κ] (key : ByteCodec κ) (value : ByteCodec ν) : ByteCodec (IndexMap κ ν) :=
  collected (pair key value) indexMapOf IndexMap.entries indexMapOf_entries mem_indexMapOf

variable [Ord κ] [Std.TransOrd κ] [Std.LawfulEqOrd κ]

def mapOf (entries : List (κ × ν)) : Std.ExtTreeMap κ ν := entries.foldl (fun map entry => map.insert entry.1 entry.2) ∅

theorem mapOf_toList (map : Std.ExtTreeMap κ ν) : mapOf map.toList = map := by
  apply Std.ExtTreeMap.ext_getElem?
  intro key
  have seen := @foldl_toList_view (Std.ExtTreeMap κ ν) κ ν (Option ν) (fun map entry => map.insert entry.1 entry.2)
    (fun map key => map[key]?) (fun _ value _ => some value) _ _ _ map (fun map key value => by simp)
    (fun map key value other different => by simp [Std.ExtTreeMap.getElem?_insert, different]) ∅ key
  change (mapOf map.toList)[key]? = _ at seen
  rw [seen]
  cases map[key]? with
  | none => simp
  | some value => rfl

theorem getElem?_foldl_insert {map : Std.ExtTreeMap κ ν} {key : κ}
    (found : (entries.foldl (fun map entry => map.insert entry.1 entry.2) map)[key]? = some value) :
    map[key]? = some value ∨ (key, value) ∈ entries := by
  induction entries generalizing map with
  | nil => exact .inl found
  | cons _ _ ih =>
    rcases ih found with before | later
    · rw [Std.ExtTreeMap.getElem?_insert] at before
      split at before
      case isTrue same =>
        have key_eq := Std.LawfulEqOrd.compare_eq_iff_eq.mp same
        cases before
        exact .inr (List.mem_cons.mpr (.inl (by rw [← key_eq])))
      case isFalse _ => exact .inl before
    · exact .inr (List.mem_cons_of_mem _ later)

theorem mem_mapOf (entries : List (κ × ν)) : ∀ entry ∈ (mapOf entries).toList, entry ∈ entries := by
  intro entry listed
  have found := Std.ExtTreeMap.mem_toList_iff_getElem?_eq_some.mp listed
  rcases getElem?_foldl_insert found with empty | held
  · simp at empty
  · exact held

/-- A map whose entries come in the order of their keys. -/
def map (key : ByteCodec κ) (value : ByteCodec ν) : ByteCodec (Std.ExtTreeMap κ ν) :=
  collected (pair key value) mapOf Std.ExtTreeMap.toList mapOf_toList mem_mapOf

end

/-! ### Kinds of values -/

/-- One constructor of a type, with its fields. -/
structure Kind (α β : Type) where
  build : α → β
  fields : β → Option α
  inverse : ∀ {value : β} {held : α}, fields value = some held → build held = value := by
    intro value held same
    cases value <;> cases same <;> rfl
  whole : ∀ held : α, fields (build held) = some held := by
    intro held
    rfl

variable {kinds : List (ByteCodec β)}

section
variable {codec : ByteCodec α} {ctor : Kind α β}

def writeKind (codec : ByteCodec α) : Option α → Except WriteError (List UInt8)
  | some value => codec.write value
  | none => .error .tooLarge

theorem reads_kind (accepted : ∃ held, ctor.fields value = some held ∧ codec.Accepted held)
    (written : writeKind codec (ctor.fields value) = .ok bytes) : (codec.readAs ctor.build).Reads bytes value := by
  obtain ⟨held, isHeld, own⟩ := accepted
  rw [isHeld] at written
  exact reads_as own (ctor.inverse isHeld) written

/-- The values of one kind. -/
def kind (codec : ByteCodec α) (ctor : Kind α β) : ByteCodec β where
  write value := writeKind codec (ctor.fields value)
  read := codec.readAs ctor.build
  Accepted value := ∃ held, ctor.fields value = some held ∧ codec.Accepted held
  reads := reads_kind
  yields := yields_as fun held accepted => ⟨held, ctor.whole held, accepted⟩

theorem accepted_kind {held : α} : (kind codec ctor).Accepted (ctor.build held) ↔ codec.Accepted held := by
  constructor
  · rintro ⟨_, same, accepted⟩
    rw [ctor.whole] at same
    cases same
    exact accepted
  · intro accepted
    exact ⟨held, ctor.whole held, accepted⟩

variable {index : β → Nat}

/-- The kinds of a list have the numbers of their places. -/
def Indexed (index : β → Nat) : Nat → List (ByteCodec β) → Prop
  | _, [] => True
  | number, codec :: rest => (∀ value, codec.Accepted value → index value = number) ∧ Indexed index (number + 1) rest

theorem index_kind (own : ∀ held, index (ctor.build held) = number) :
    ∀ value, (kind codec ctor).Accepted value → index value = number := by
  rintro value ⟨held, isHeld, -⟩
  rw [← ctor.inverse isHeld]
  exact own held

theorem Indexed.index_eq {start : Nat} (indexed : Indexed index start kinds) {place : Nat} {codec : ByteCodec β}
    (found : kinds[place]? = some codec) (accepted : codec.Accepted value) : index value = start + place := by
  induction kinds generalizing start place with
  | nil => cases found
  | cons _ _ ih =>
    cases place with
    | zero =>
      cases found
      exact indexed.1 value accepted
    | succ place =>
      rw [ih indexed.2 found]
      omega

variable {tag : ByteCodec Nat} {kinds : List (ByteCodec β)} {refused : ReadError}

def writeEnum (tag : ByteCodec Nat) (index : β → Nat) (kinds : List (ByteCodec β)) (value : β) :
    Except WriteError (List UInt8) := do
  let front ← tag.write (index value)
  let back ← ((kinds[index value]?).map fun codec => codec.write value).getD (.error .tooLarge)
  .ok (front ++ back)

def readKind (kinds : List (ByteCodec β)) (refused : ReadError) (number : Nat) : Reader β :=
  match kinds[number]? with
  | some codec => codec.read
  | none => Reader.fail refused

def readEnum (tag : ByteCodec Nat) (kinds : List (ByteCodec β)) (refused : ReadError) : Reader β := do
  let number ← tag.read
  readKind kinds refused number

theorem reads_enum
    (accepted : tag.Accepted (index value) ∧ ∃ codec, kinds[index value]? = some codec ∧ codec.Accepted value)
    (written : writeEnum tag index kinds value = .ok bytes) : (readEnum tag kinds refused).Reads bytes value := by
  obtain ⟨small, codec, isCodec, held⟩ := accepted
  obtain ⟨_, isFront, rest⟩ := bind_ok written
  obtain ⟨_, isBack, same⟩ := bind_ok rest
  cases same
  apply (tag.reads small isFront).bind
  rw [isCodec] at isBack
  rw [readKind, isCodec]
  exact codec.reads held isBack

theorem yields_enum (indexed : Indexed index 0 kinds) : (readEnum tag kinds refused).Yields fun value =>
      tag.Accepted (index value) ∧ ∃ codec, kinds[index value]? = some codec ∧ codec.Accepted value := by
  refine tag.yields.bind fun number small => ?_
  unfold readKind
  cases found : kinds[number]? with
  | none => exact Yields.fail
  | some codec =>
    intro bytes value rest ok
    have held := codec.yields bytes value rest ok
    have own := (indexed.index_eq found held).trans (Nat.zero_add number)
    exact ⟨own.symm ▸ small, codec, own.symm ▸ found, held⟩

/-- A number for the kind, and a value of that kind. -/
def enum (tag : ByteCodec Nat) (index : β → Nat) (kinds : List (ByteCodec β)) (refused : ReadError)
    (indexed : Indexed index 0 kinds) : ByteCodec β where
  write := writeEnum tag index kinds
  read := readEnum tag kinds refused
  Accepted value := tag.Accepted (index value) ∧ ∃ codec, kinds[index value]? = some codec ∧ codec.Accepted value
  reads := reads_enum
  yields := yields_enum indexed

theorem accepted_enum (found : kinds[index value]? = some own)
    (accepted : (enum tag index kinds refused indexed).Accepted value) : own.Accepted value := by
  obtain ⟨-, _, isCodec, held⟩ := accepted
  rw [found] at isCodec
  cases isCodec
  exact held

end

/-! ### Codecs that write only what they accept -/

section
variable {first : ByteCodec α} {second : ByteCodec β} {item : ByteCodec α}

def Strict (codec : ByteCodec α) : Prop := ∀ value bytes, codec.write value = .ok bytes → codec.Accepted value

theorem strict_word (width : Nat) : (word width).Strict := fun _ _ => small_of_written

theorem strict_unit : unit.Strict := fun _ _ _ => trivial

theorem strict_raw (count : Nat) : (raw count).Strict := by
  intro bytes _ same
  change bytes.length = count
  by_contra other
  change writeRaw count bytes = _ at same
  rw [writeRaw, if_neg other] at same
  cases same

theorem Strict.pair (one : first.Strict) (two : second.Strict) : (pair first second).Strict := by
  intro _ _ written
  obtain ⟨_, isFront, rest⟩ := bind_ok written
  obtain ⟨_, isBack, -⟩ := bind_ok rest
  exact ⟨one _ _ isFront, two _ _ isBack⟩

theorem Strict.record (strict : item.Strict)
    {whole : ∀ value, item.Accepted value → parts (build value) = value} :
    (item.record build parts inverse whole).Strict :=
  fun value => strict (parts value)

theorem strict_blob : blob.Strict := by
  intro _ _ same
  obtain ⟨_, isFront, -⟩ := bind_ok same
  exact small_of_written isFront

theorem Strict.list (strict : item.Strict) : (list item).Strict := by
  intro _ _ written
  obtain ⟨_, -, rest⟩ := bind_ok written
  obtain ⟨_, isItems, -⟩ := bind_ok rest
  refine ⟨length_of_written written, fun value listed => ?_⟩
  obtain ⟨own, -, isOwn⟩ := exists_mem_of_forall₂ (mapM_ok_iff.mp isItems) listed
  exact strict value own isOwn

theorem Strict.option (strict : item.Strict) : (option item).Strict := by
  rintro value bytes written held rfl
  obtain ⟨own, isOwn, -⟩ := bind_ok written
  exact strict held own isOwn

theorem Strict.orOnEof (strict : item.Strict) : (item.orOnEof value accepted).Strict := strict

theorem Strict.indexMap [DecidableEq κ] {key : ByteCodec κ} (keys : key.Strict)
    (values : value.Strict) : (indexMap key value).Strict :=
  fun map bytes written => ((keys.pair values).list map.entries bytes written).2

theorem Strict.kind (strict : item.Strict) : (kind item ctor).Strict := by
  intro value bytes written
  change writeKind item (ctor.fields value) = _ at written
  cases fields : ctor.fields value with
  | none =>
    rw [fields] at written
    cases written
  | some held =>
    rw [fields] at written
    exact ⟨held, fields, strict held bytes written⟩

/-- A value of an enumeration is written as one of its kind. -/
theorem enum_written (written : writeEnum tag index kinds value = .ok bytes) :
    ∃ front own back, tag.write (index value) = .ok front ∧ kinds[index value]? = some own ∧
      own.write value = .ok back ∧ bytes = front ++ back := by
  obtain ⟨front, isFront, rest⟩ := bind_ok written
  obtain ⟨back, isBack, same⟩ := bind_ok rest
  cases same
  cases found : kinds[index value]? with
  | none =>
    rw [found] at isBack
    cases isBack
  | some own =>
    rw [found] at isBack
    exact ⟨front, own, back, isFront, rfl, isBack, rfl⟩

theorem Strict.enum (tagged : tag.Strict) (each : ∀ own ∈ kinds, own.Strict) :
    (enum tag index kinds refused indexed).Strict := by
  intro value _ written
  obtain ⟨_, own, back, isFront, isOwn, isBack, -⟩ := enum_written written
  exact ⟨tagged _ _ isFront, own, isOwn, each own (List.mem_of_getElem? isOwn) value back isBack⟩

end

/-! ### How many bytes a value takes -/

/-- The value can be written, in at least so many bytes. -/
def Takes (codec : ByteCodec α) (value : α) (size : Nat) : Prop :=
  ∃ bytes, codec.write value = .ok bytes ∧ size ≤ bytes.length

end ByteCodec
end Galvanize
