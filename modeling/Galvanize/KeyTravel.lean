import Galvanize.Exportability

/-! The way of a primary key from a row on Low to the statement on High: packed,
unpacked, as JSON in the journal and in the bundle, and bound as a tuple. -/
namespace Galvanize.HighLow
open List

variable {codec : Codec} {low : LowConfig}

/-! ### Maps by name -/

section SortedMaps
variable {β γ : Type} {name other : String} {value : β} {entry : String × β} {entries map : List (String × β)}

theorem mem_of_mem_insertSorted (member : entry ∈ insertSorted name value map) :
    entry = (name, value) ∨ entry ∈ map := by
  induction map with
  | nil => exact .inl (mem_singleton.mp member)
  | cons _ _ ih =>
    rw [insertSorted] at member
    split at member
    · rcases mem_cons.mp member with same | later
      · exact .inl same
      · exact .inr (mem_cons_of_mem _ later)
    · split at member
      · exact mem_cons.mp member
      · rcases mem_cons.mp member with same | later
        · exact .inr (by rw [same]; exact mem_cons_self)
        · exact (ih later).imp_right (mem_cons_of_mem _)

theorem mem_insertSorted_self : (name, value) ∈ insertSorted name value map := by
  induction map with
  | nil => exact mem_cons_self
  | cons _ _ ih =>
    rw [insertSorted]
    split
    · exact mem_cons_self
    · split
      · exact mem_cons_self
      · exact mem_cons_of_mem _ ih

theorem mem_insertSorted_of_ne (member : entry ∈ map) (different : entry.1 ≠ name) :
    entry ∈ insertSorted name value map := by
  induction map with
  | nil => cases member
  | cons _ _ ih =>
    rw [insertSorted]
    rcases mem_cons.mp member with rfl | later
    · rw [if_neg (Ne.symm different)]
      split
      · exact mem_cons_of_mem _ mem_cons_self
      · exact mem_cons_self
    · split
      · exact mem_cons_of_mem _ later
      · split
        · exact mem_cons_of_mem _ (mem_cons_of_mem _ later)
        · exact mem_cons_of_mem _ (ih later)

theorem sortedMap_concat : sortedMap (entries ++ [entry]) = insertSorted entry.1 entry.2 (sortedMap entries) := by
  simp [sortedMap, foldl_append]

theorem mem_of_mem_sortedMap (member : entry ∈ sortedMap entries) : entry ∈ entries := by
  induction entries using reverseRecOn with
  | nil => exact member
  | append_singleton entries _ ih =>
    rw [sortedMap_concat] at member
    rcases mem_of_mem_insertSorted member with rfl | earlier
    · exact mem_append_right _ mem_cons_self
    · exact mem_append_left _ (ih earlier)

theorem mem_sortedMap (distinct : (entries.map Prod.fst).Nodup) (member : entry ∈ entries) :
    entry ∈ sortedMap entries := by
  induction entries using reverseRecOn with
  | nil => exact member
  | append_singleton entries last ih =>
    rw [map_append, map_singleton, nodup_append] at distinct
    rw [sortedMap_concat]
    rcases mem_append.mp member with earlier | own
    · apply mem_insertSorted_of_ne (ih distinct.1 earlier)
      exact distinct.2.2 entry.1 (mem_map_of_mem earlier) last.1 mem_cons_self
    · rw [mem_singleton.mp own]
      exact mem_insertSorted_self

/-- Every name has a value in the map. -/
theorem exists_mem_sortedMap (member : entry ∈ entries) : ∃ value, (entry.1, value) ∈ sortedMap entries := by
  induction entries using reverseRecOn with
  | nil => cases member
  | append_singleton entries last ih =>
    rw [sortedMap_concat]
    by_cases same : entry.1 = last.1
    · rw [same]
      exact ⟨last.2, mem_insertSorted_self⟩
    · rcases mem_append.mp member with earlier | own
      · obtain ⟨value, held⟩ := ih earlier
        exact ⟨value, mem_insertSorted_of_ne held same⟩
      · exact absurd (by rw [mem_singleton.mp own]) same

/-- Names in order, each one once. -/
def Ordered (map : List (String × β)) : Prop := map.Pairwise fun first second => first.1 < second.1

theorem ordered_insertSorted (ordered : Ordered map) : Ordered (insertSorted name value map) := by
  induction map with
  | nil => exact pairwise_singleton _ _
  | cons first _ ih =>
    obtain ⟨held, old⟩ := first
    obtain ⟨before, later⟩ := pairwise_cons.mp ordered
    rw [insertSorted]
    split
    case isTrue same =>
      rw [same]
      exact pairwise_cons.mpr ⟨before, later⟩
    case isFalse different =>
      split
      case isTrue below =>
        refine pairwise_cons.mpr ⟨fun entry member => ?_, ordered⟩
        rcases mem_cons.mp member with rfl | beyond
        · exact below
        · exact String.lt_trans below (before entry beyond)
      case isFalse above =>
        have after : held < name := by
          apply String.not_le.mp
          intro under
          exact different (String.le_antisymm under (String.not_lt.mp above))
        refine pairwise_cons.mpr ⟨fun entry member => ?_, ih later⟩
        rcases mem_of_mem_insertSorted member with rfl | beyond
        · exact after
        · exact before entry beyond

theorem ordered_sortedMap : Ordered (sortedMap entries) := by
  induction entries using reverseRecOn with
  | nil => exact List.Pairwise.nil
  | append_singleton entries _ ih =>
    rw [sortedMap_concat]
    exact ordered_insertSorted ih

theorem insertSorted_last (last : ∀ entry ∈ map, entry.1 < name) :
    insertSorted name value map = map ++ [(name, value)] := by
  induction map with
  | nil => rfl
  | cons first _ ih =>
    obtain ⟨held, old⟩ := first
    have before := last (held, old) mem_cons_self
    have different : name ≠ held := by
      intro same
      rw [same] at before
      exact String.lt_irrefl held before
    have notBelow : ¬ name < held := fun below => String.lt_irrefl name (String.lt_trans below before)
    rw [insertSorted, if_neg different, if_neg notBelow, ih fun entry member => last entry (mem_cons_of_mem _ member)]
    rfl

theorem sortedMap_ordered (ordered : Ordered entries) : sortedMap entries = entries := by
  induction entries using reverseRecOn with
  | nil => rfl
  | append_singleton entries last ih =>
    obtain ⟨before, -, below⟩ := pairwise_append.mp ordered
    rw [sortedMap_concat, ih before]
    exact insertSorted_last fun entry member => below entry member last mem_cons_self

/-- The same name, and related values. -/
def ByName (related : β → γ → Prop) (entry : String × β) (other : String × γ) : Prop :=
  entry.1 = other.1 ∧ related entry.2 other.2

/-- Values can be exchanged before or after. -/
theorem sortedMap_forall₂ {others : List (String × γ)} (both : List.Forall₂ (ByName related) entries others) :
    List.Forall₂ (ByName related) (sortedMap entries) (sortedMap others) := by
  have insert {name : String} {value : β} {image : γ} {map : List (String × β)} {images : List (String × γ)}
      (holds : related value image)
      (maps : List.Forall₂ (ByName related) map images) :
      List.Forall₂ (ByName related)
        (insertSorted name value map) (insertSorted name image images) := by
    induction maps with
    | nil => exact .cons ⟨rfl, holds⟩ .nil
    | @cons first second _ others same maps ih =>
      rw [insertSorted, insertSorted, ← same.1]
      split
      · exact .cons ⟨rfl, holds⟩ maps
      · split
        · exact .cons ⟨rfl, holds⟩ (.cons ⟨rfl, same.2⟩ maps)
        · exact .cons ⟨rfl, same.2⟩ ih
  refine rel_foldl (P := List.Forall₂ (ByName related)) (fun map images maps first second same => ?_) .nil both
  rw [← same.1]
  exact insert same.2 maps

/-- Entries under other names do not matter for a choice by name. -/
theorem filter_sortedMap {chosen : String → Bool} (ordered : Ordered entries)
    (kept : ∀ entry ∈ entries, chosen entry.1 = true) (dropped : ∀ entry ∈ more, chosen entry.1 = false) :
    (sortedMap (entries ++ more)).filter (fun entry => chosen entry.1) = entries := by
  have insert {name : String} {value : β} (out : chosen name = false) (map : List (String × β)) :
      (insertSorted name value map).filter (fun entry => chosen entry.1) =
        map.filter (fun entry => chosen entry.1) := by
    induction map with
    | nil => simp [insertSorted, out]
    | cons _ _ ih =>
      rw [insertSorted]
      split
      case isTrue same => simp [← same, out]
      case isFalse =>
        split
        · simp [filter_cons, out]
        · simp [filter_cons, ih]
  induction more using reverseRecOn with
  | nil =>
    rw [append_nil, sortedMap_ordered ordered]
    exact filter_eq_self.mpr kept
  | append_singleton more last ih =>
    rw [← append_assoc, sortedMap_concat, insert (dropped last (by simp))]
    exact ih fun entry member => dropped entry (mem_append_left _ member)

end SortedMaps

/-! ### The statement on High -/

/-- The key that the statement of an event binds. -/
def boundKey (codec : Codec) (event : Event) : Except Error (List (String × SqliteValue)) :=
  match event.operation with
  | .upsert => do
    let cols ← colsMap codec event
    refuseIf ((cols.any fun entry => !validIdentifier entry.1) || !validIdentifier event.table)
      (.configuration "unsafe table or column name")
    .ok (cols.filter fun entry => event.isKey entry.1)
  | .delete => do
    refuseIf (!validIdentifier event.table) (.configuration "unsafe table name")
    event.primaryKey.mapM (bindWhere codec)

variable {event : Event}

section Chains
variable {α β : Type}

theorem forall₂_byName_comp :
    List.Forall₂ (ByName fun first last => ∃ middle, related first middle ∧ further middle last) entries others ↔
      ∃ between, List.Forall₂ (ByName related) entries between ∧ List.Forall₂ (ByName further) between others := by
  constructor
  · intro both
    induction both with
    | nil => exact ⟨[], .nil, .nil⟩
    | @cons entry _ _ _ step _ ih =>
      obtain ⟨between, lower, upper⟩ := ih
      obtain ⟨name, middle, first, second⟩ := step
      exact ⟨(entry.1, middle) :: between, .cons ⟨rfl, first⟩ lower, .cons ⟨name, second⟩ upper⟩
  · rintro ⟨between, lower, upper⟩
    induction lower generalizing others with
    | nil =>
      cases upper
      exact .nil
    | cons first _ ih =>
      cases upper with
      | cons second later => exact .cons ⟨first.1.trans second.1, _, first.2, second.2⟩ (ih later)

theorem byName_zip {names : List String} (aligned : names.length = values.length)
    (each : ∀ value ∈ values, related (origin value) value) :
    List.Forall₂ (ByName related) (names.zip (values.map origin)) (names.zip values) := by
  induction names generalizing values with
  | nil => exact .nil
  | cons _ names ih =>
    cases values with
    | nil => cases aligned
    | cons value values =>
      obtain ⟨own, later⟩ := forall_mem_cons.mp each
      exact .cons ⟨rfl, own⟩ (ih (Nat.succ.inj aligned) later)

theorem names_of_byName (both : List.Forall₂ (ByName related) entries others) :
    others.map Prod.fst = entries.map Prod.fst := by
  induction both with
  | nil => rfl
  | cons first _ ih => rw [map_cons, map_cons, ih, first.1]

theorem Ordered.of_names (ordered : Ordered entries)
    (names : others.map Prod.fst = entries.map Prod.fst) : Ordered others := by
  have sorted := pairwise_map.mpr ordered
  rw [← names] at sorted
  exact pairwise_map.mp sorted

end Chains

variable {fields : List (String × Json)}

theorem rereadFields_iff {read : List (String × Json)} : Json.rereadFields codec fields = some read ↔
      List.Forall₂ (ByName fun json next => json.reread codec = some next) fields read := by
  induction fields generalizing read with
  | nil =>
    constructor
    · intro is
      cases is
      exact .nil
    · intro both
      cases both
      rfl
  | cons entry fields ih =>
    obtain ⟨_, _⟩ := entry
    simp only [Json.rereadFields, Option.bind_eq_bind, Option.bind_eq_some_iff, Option.some.injEq]
    constructor
    · rintro ⟨next, first, others, rest, rfl⟩
      exact .cons ⟨rfl, first⟩ (ih.mp rest)
    · intro both
      cases both with
      | @cons _ other _ others first rest =>
        obtain ⟨rfl, first⟩ := first
        exact ⟨other.2, first, others, ih.mpr rest, rfl⟩

variable {bound : List (String × SqliteValue)}

theorem mapM_bindJson_iff : fields.mapM (bindJson codec) = .ok bound ↔
      List.Forall₂ (ByName fun json value => jsonToSqlValue codec json = .ok value) fields bound := by
  have same : (fun entry other => bindJson codec entry = .ok other) =
      ByName fun json value => jsonToSqlValue codec json = .ok value := by
    funext entry other
    apply propext
    simp only [bindJson, ByName]
    cases jsonToSqlValue codec entry.2 <;> simp [Except.map, Prod.ext_iff]
  rw [mapM_ok_iff, same]

theorem mapM_bindWhere_iff : fields.mapM (bindWhere codec) = .ok bound ↔
      (∀ entry ∈ fields, validIdentifier entry.1 = true) ∧ fields.mapM (bindJson codec) = .ok bound := by
  rw [mapM_ok_iff, mapM_ok_iff]
  have each (entry : String × Json) (other : String × SqliteValue) :
      bindWhere codec entry = .ok other ↔ validIdentifier entry.1 = true ∧ bindJson codec entry = .ok other := by
    rw [bindWhere]
    cases validIdentifier entry.1 <;> simp
  constructor
  · intro both
    constructor
    · intro entry member
      obtain ⟨other, -, ok⟩ := exists_mem_of_forall₂ both member
      exact ((each entry other).mp ok).1
    · exact both.imp fun entry other ok => ((each entry other).mp ok).2
  · rintro ⟨valid, both⟩
    induction both with
    | nil => exact .nil
    | @cons entry other _ _ first _ ih =>
      obtain ⟨own, later⟩ := forall_mem_cons.mp valid
      exact .cons ((each entry other).mpr ⟨own, first⟩) (ih later)

/-! ### Values on the way -/

/-- What High binds for the JSON of a key column, which is read back from the
journal and from the bundle, is the value that Low has. -/
def Travels (codec : Codec) (json : Json) (value : ValueRef) : Prop :=
  ∃ second, (∃ first, json.reread codec = some first ∧ first.reread codec = some second) ∧
    ∃ bound, jsonToSqlValue codec second = .ok bound ∧ bound.asRef = value

/-- A key value that arrives as it is: blobs do not, and texts only if they are
UTF-8, which a cast can evade. -/
def KeyFits (codec : Codec) : ValueRef → Prop
  | .real bits =>
    isFinite bits = true ∧
      ∃ between, codec.reread bits = some between ∧ isFinite between = true ∧ codec.reread between = some bits
  | .text bytes => (fromUtf8 bytes).isSome
  | .blob _ => False
  | _ => True

/-- The replacement of invalid bytes is never what was there. -/
theorem utf8_lossy_iff (low : LowConfig) : utf8 (fromUtf8Lossy low bytes) = bytes ↔ (fromUtf8 bytes).isSome := by
  rw [fromUtf8Lossy]
  cases read : fromUtf8 bytes with
  | none =>
    simp only [Option.getD_none, Option.isSome_none, Bool.false_eq_true, iff_false]
    intro same
    rw [← same, fromUtf8_utf8] at read
    cases read
  | some text => simp [utf8_of_fromUtf8 read]

theorem travels_iff {value : ValueRef} (storable : value.Storable) :
    Travels codec (keyJson low value) value ↔ KeyFits codec value := by
  cases value with
  | null => simp [Travels, SqliteValue.asRef, keyJson, Json.reread, jsonToSqlValue, KeyFits]
  | integer value =>
    have small : value ≤ 9223372036854775807 := by
      have upper := storable.2
      omega
    simp [Travels, SqliteValue.asRef, keyJson, Json.reread, jsonToSqlValue, Json.asI64, KeyFits, small]
  | text bytes =>
    simp [Travels, SqliteValue.asRef, keyJson, Json.reread, jsonToSqlValue, KeyFits, utf8_lossy_iff]
  | blob _ => simp [Travels, SqliteValue.asRef, keyJson, Json.reread, jsonToSqlValue, KeyFits]
  | real bits =>
    simp only [Travels, keyJson, KeyFits]
    cases finite : isFinite bits with
    | false => simp [Json.reread, jsonToSqlValue, SqliteValue.asRef]
    | true =>
      cases read : codec.reread bits with
      | none => simp [Json.reread, finite, read]
      | some between =>
        cases finiteBetween : isFinite between with
        | false => simp [Json.reread, finite, read, finiteBetween, jsonToSqlValue, SqliteValue.asRef]
        | true =>
          cases readAgain : codec.reread between with
          | none => simp [Json.reread, finite, read, finiteBetween, readAgain]
          | some _ => simp [Json.reread, finite, read, finiteBetween, readAgain, jsonToSqlValue, SqliteValue.asRef]

/-! ### Events on the way -/

/-- The event of the journal in the bundle that High opens. -/
def travel (codec : Codec) (event : Event) : Except Error Event := event.reread codec >>= Event.reread codec

theorem travel_iff : travel codec event = .ok arrived ↔ ∃ primaryKey columns,
      List.Forall₂ (ByName fun json last => ∃ first, json.reread codec = some first ∧ first.reread codec = some last)
        event.primaryKey primaryKey ∧ (∃ between, event.columns.mapM (Column.reread codec) = some between ∧
        between.mapM (Column.reread codec) = some columns) ∧ arrived = { event with primaryKey, columns } := by
  constructor
  · intro ok
    obtain ⟨_, first, second⟩ := bind_ok ok
    obtain ⟨key, cells, readKey, readCells, rfl⟩ := Event.reread_iff.mp first
    obtain ⟨lastKey, lastCells, readLastKey, readLastCells, rfl⟩ := Event.reread_iff.mp second
    refine ⟨lastKey, lastCells, forall₂_byName_comp.mpr ⟨key, ?_, ?_⟩, ⟨cells, readCells, readLastCells⟩, rfl⟩
    · exact rereadFields_iff.mp readKey
    · exact rereadFields_iff.mp readLastKey
  · rintro ⟨primaryKey, columns, keys, ⟨between, readCells, readLastCells⟩, rfl⟩
    obtain ⟨key, lower, upper⟩ := forall₂_byName_comp.mp keys
    have first := Event.reread_iff.mpr ⟨key, between, rereadFields_iff.mpr lower, readCells, rfl⟩
    rw [travel, first]
    exact Event.reread_iff.mpr ⟨primaryKey, columns, rereadFields_iff.mpr upper, readLastCells, rfl⟩

/-- A column that High can bind. -/
def CellArrives (codec : Codec) : SqliteValue → Prop
  | .real bits =>
    isFinite bits = true ∧ ∃ between, codec.reread bits = some between ∧ isFinite between = true ∧
      (codec.reread between).isSome = true
  | _ => True

/-- The cells of the columns on High. -/
def Arrive (codec : Codec) (columns : List Column) (cells : List (String × SqliteValue)) : Prop :=
  ∃ between last, columns.mapM (Column.reread codec) = some between ∧ between.mapM (Column.reread codec) = some last ∧
    last.mapM (bindColumn codec) = .ok cells

variable {columns : List Column} {column : Column}

theorem mapM_reread_cons {read : List Column} :
    (column :: columns).mapM (Column.reread codec) = some read ↔ ∃ value rest, column.value.reread codec = some value ∧
      columns.mapM (Column.reread codec) = some rest ∧ read = ⟨column.name, value⟩ :: rest := by
  rw [mapM_cons]
  simp only [Column.reread, Option.bind_eq_bind, Option.bind_eq_some_iff, Option.map_eq_some_iff, Option.pure_def,
    Option.some.injEq]
  constructor
  · rintro ⟨_, ⟨value, found, rfl⟩, rest, others, rfl⟩
    exact ⟨value, rest, found, others, rfl⟩
  · rintro ⟨value, rest, found, others, rfl⟩
    exact ⟨_, ⟨value, found, rfl⟩, rest, others, rfl⟩

variable {cells : List (String × SqliteValue)}

theorem mapM_bindColumn_cons :
    (column :: columns).mapM (bindColumn codec) = .ok cells ↔ ∃ value rest, toSqlValue codec column.value = .ok value ∧
      columns.mapM (bindColumn codec) = .ok rest ∧ cells = (column.name, value) :: rest := by
  rw [mapM_cons]
  constructor
  · intro ok
    obtain ⟨_, bound, rest⟩ := bind_ok ok
    obtain ⟨others, later, same⟩ := bind_ok rest
    obtain ⟨value, found, rfl⟩ := map_ok bound
    cases same
    exact ⟨value, others, found, later, rfl⟩
  · rintro ⟨value, rest, found, later, rfl⟩
    rw [bindColumn, found, later]
    rfl

theorem arrive_cons :
    Arrive codec (column :: columns) cells ↔ ∃ first second value rest, column.value.reread codec = some first ∧
      first.reread codec = some second ∧ toSqlValue codec second = .ok value ∧ Arrive codec columns rest ∧
      cells = (column.name, value) :: rest := by
  constructor
  · rintro ⟨_, _, read, readAgain, bound⟩
    obtain ⟨first, others, isFirst, isOthers, rfl⟩ := mapM_reread_cons.mp read
    obtain ⟨second, more, isSecond, isMore, rfl⟩ := mapM_reread_cons.mp readAgain
    obtain ⟨value, rest, isValue, isRest, rfl⟩ := mapM_bindColumn_cons.mp bound
    exact ⟨first, second, value, rest, isFirst, isSecond, isValue, ⟨others, more, isOthers, isMore, isRest⟩, rfl⟩
  · rintro ⟨first, second, value, rest, isFirst, isSecond, isValue, ⟨others, more, isOthers, isMore, isRest⟩, rfl⟩
    exact ⟨_, _, mapM_reread_cons.mpr ⟨first, others, isFirst, isOthers, rfl⟩,
      mapM_reread_cons.mpr ⟨second, more, isSecond, isMore, rfl⟩,
      mapM_bindColumn_cons.mpr ⟨value, rest, isValue, isRest, rfl⟩⟩

theorem rereadColumns_names {read : List Column} (is : columns.mapM (Column.reread codec) = some read) :
    read.map Column.name = columns.map Column.name := by
  induction columns generalizing read with
  | nil =>
    cases is
    rfl
  | cons _ columns ih =>
    obtain ⟨_, _, -, later, rfl⟩ := mapM_reread_cons.mp is
    rw [map_cons, map_cons, ih later]

theorem cellArrives_iff (value : SqliteValue) :
    (∃ first second last, (columnValue codec value).reread codec = some first ∧ first.reread codec = some second ∧
      toSqlValue codec second = .ok last) ↔ CellArrives codec value := by
  cases value with
  | null | integer value | text value => simp [columnValue, Value.reread, toSqlValue, CellArrives]
  | blob _ => simp [columnValue, Value.reread, toSqlValue, CellArrives, codec.decode_encode]
  | real bits =>
    simp only [columnValue, CellArrives]
    cases finite : isFinite bits with
    | false => simp [Value.reread, finite]
    | true =>
      cases read : codec.reread bits with
      | none => simp [Value.reread, finite, read]
      | some between =>
        cases finiteBetween : isFinite between with
        | false => simp [Value.reread, finite, read, finiteBetween]
        | true => cases again : codec.reread between <;> simp [Value.reread, finite, read, finiteBetween,
          again, toSqlValue]

theorem arrive_captured (changes : List Change) :
    (∃ cells, Arrive codec (changes.map fun change => ⟨change.cid, columnValue codec change.val⟩) cells) ↔
      ∀ change ∈ changes, CellArrives codec change.val := by
  induction changes with
  | nil => exact ⟨fun _ _ member => (nomatch member), fun _ => ⟨[], [], [], rfl, rfl, rfl⟩⟩
  | cons change changes ih =>
    rw [map_cons, forall_mem_cons, ← cellArrives_iff, ← ih]
    constructor
    · rintro ⟨cells, arrive⟩
      obtain ⟨first, second, value, rest, isFirst, isSecond, isValue, later, -⟩ := arrive_cons.mp arrive
      exact ⟨⟨first, second, value, isFirst, isSecond, isValue⟩, rest, later⟩
    · rintro ⟨⟨first, second, value, isFirst, isSecond, isValue⟩, rest, later⟩
      exact ⟨_, arrive_cons.mpr ⟨first, second, value, rest, isFirst, isSecond, isValue, later, rfl⟩⟩

theorem bindColumns_names (bound : columns.mapM (bindColumn codec) = .ok cells) :
    cells.map Prod.fst = columns.map Column.name := by
  induction columns generalizing cells with
  | nil =>
    cases bound
    rfl
  | cons _ columns ih =>
    obtain ⟨_, _, -, later, rfl⟩ := mapM_bindColumn_cons.mp bound
    rw [map_cons, map_cons, ih later]

theorem forall_name_congr {entries : List α} {others : List β}
    (property : String → Prop) (same : others.map other = entries.map name) :
    (∀ entry ∈ others, property (other entry)) ↔ ∀ entry ∈ entries, property (name entry) := by
  have forth := @List.forall_mem_map _ _ other others property
  have back := @List.forall_mem_map _ _ name entries property
  rw [← forth, ← back, same]

theorem boundKey_delete (delete : event.operation = .delete) :
    boundKey codec event = .ok bound ↔ validIdentifier event.table = true ∧
      (∀ entry ∈ event.primaryKey, validIdentifier entry.1 = true) ∧
        event.primaryKey.mapM (bindJson codec) = .ok bound := by
  simp only [boundKey, delete]
  rw [unit_bind_ok, refuseIf_ok, Bool.not_eq_false', mapM_bindWhere_iff]

theorem boundKey_upsert (upsert : event.operation = .upsert) (ordered : Ordered event.primaryKey)
    (apart : ∀ column ∈ event.columns, event.isKey column.name = false) :
    boundKey codec event = .ok bound ↔ validIdentifier event.table = true ∧
      (∀ entry ∈ event.primaryKey, validIdentifier entry.1 = true) ∧
        event.primaryKey.mapM (bindJson codec) = .ok bound ∧
      (∀ column ∈ event.columns, validIdentifier column.name = true) ∧
      ∃ cells, event.columns.mapM (bindColumn codec) = .ok cells := by
  have chosen {key cells : List (String × SqliteValue)} (isKey : event.primaryKey.mapM (bindJson codec) = .ok key)
      (areCells : event.columns.mapM (bindColumn codec) = .ok cells) :
      (sortedMap (key ++ cells)).filter (fun entry => event.isKey entry.1) = key := by
    have names := names_of_byName (mapM_bindJson_iff.mp isKey)
    apply filter_sortedMap (ordered.of_names names)
    · apply (forall_name_congr (fun name => event.isKey name = true) names).mpr
      intro entry member
      exact any_eq_true.mpr ⟨entry, member, by simp⟩
    · apply (forall_name_congr (fun name => event.isKey name = false) (bindColumns_names areCells)).mpr
      exact apart
  have valid {key cells : List (String × SqliteValue)} (isKey : event.primaryKey.mapM (bindJson codec) = .ok key)
      (areCells : event.columns.mapM (bindColumn codec) = .ok cells) :
      (∀ entry ∈ sortedMap (key ++ cells), validIdentifier entry.1 = true) ↔
        (∀ entry ∈ event.primaryKey, validIdentifier entry.1 = true) ∧
          ∀ column ∈ event.columns, validIdentifier column.name = true := by
    have keys :=
      forall_name_congr (fun name => validIdentifier name = true) (names_of_byName (mapM_bindJson_iff.mp isKey))
    have columns := forall_name_congr (fun name => validIdentifier name = true) (bindColumns_names areCells)
    rw [← keys, ← columns, ← forall_mem_append]
    constructor
    · intro all entry member
      obtain ⟨value, held⟩ := exists_mem_sortedMap member
      exact all (entry.1, value) held
    · intro all entry member
      exact all entry (mem_of_mem_sortedMap member)
  have safe (cols : List (String × SqliteValue)) :
      ((cols.any fun entry => !validIdentifier entry.1) || !validIdentifier event.table) = false ↔
        (∀ entry ∈ cols, validIdentifier entry.1 = true) ∧ validIdentifier event.table = true := by
    simp
  simp only [boundKey, upsert]
  constructor
  · intro ok
    obtain ⟨cols, mapped, rest⟩ := bind_ok ok
    obtain ⟨key, isKey, inner⟩ := bind_ok mapped
    obtain ⟨cells, areCells, made⟩ := bind_ok inner
    cases made
    rw [unit_bind_ok, refuseIf_ok, safe, valid isKey areCells, chosen isKey areCells] at rest
    obtain ⟨⟨⟨names, columns⟩, table⟩, same⟩ := rest
    cases same
    exact ⟨table, names, isKey, columns, cells, areCells⟩
  · rintro ⟨table, names, isKey, columns, cells, areCells⟩
    have mapped : colsMap codec event = .ok (sortedMap (bound ++ cells)) := by
      rw [colsMap, isKey, areCells]
      rfl
    rw [mapped]
    apply unit_bind_ok.mpr
    rw [refuseIf_ok, safe, valid isKey areCells, chosen isKey areCells]
    exact ⟨⟨⟨names, columns⟩, table⟩, rfl⟩

/-! ### Rows of Low -/

/-- A changed row of a replicated table. The `pk` of `crsql_changes` is the packed
key, whose texts can be any bytes, and no change is of a key column. -/
structure LowRow (low : LowConfig) where
  table : String
  names : List String
  values : List ValueRef
  pk : List UInt8
  changes : List Change
  schema : low.pkNames table = some names
  distinct : names.Nodup
  aligned : names.length = values.length
  storable : ∀ value ∈ values, value.Storable
  packed : packRefs values = .ok pk
  apart : ∀ change ∈ changes, change.cid ∉ names

namespace LowRow

def group (row : LowRow low) : (String × List UInt8) × List Change := ((row.table, row.pk), row.changes)

/-- The primary key, by name. -/
def key (row : LowRow low) : List (String × ValueRef) := sortedMap (row.names.zip row.values)

/-- The primary key of the event. -/
def jsonKey (row : LowRow low) : List (String × Json) :=
  row.names.zip (row.values.map (keyJson low))

theorem pkMap_eq (row : LowRow low) : pkMap low row.table row.pk = sortedMap row.jsonKey := by
  rw [pkMap, unpackColumns_packRefs row.packed row.storable]
  apply congrArg sortedMap
  apply ext_getElem
  · simp [jsonKey, row.aligned]
  · intro i inside _
    have bound : i < row.names.length := by
      rw [row.aligned]
      simpa using inside
    simp [jsonKey, keyName, row.schema, bound]

theorem names_jsonKey (row : LowRow low) : row.jsonKey.map Prod.fst = row.names := by
  rw [jsonKey, map_fst_zip]
  simp [row.aligned]

theorem mem_key (row : LowRow low) (named : i < row.names.length) (inside : i < row.values.length) :
    (row.names[i], row.values[i]) ∈ row.key := by
  apply mem_sortedMap
  · rw [map_fst_zip (Nat.le_of_eq row.aligned)]
    exact row.distinct
  · exact mem_iff_getElem.mpr ⟨i, by simp [named, inside], by simp⟩

/-- The tuple that is bound is the key exactly if every value arrives. -/
theorem forall₂_travels_iff (row : LowRow low) :
    List.Forall₂ (ByName (Travels codec)) (sortedMap row.jsonKey) row.key ↔
      ∀ value ∈ row.values, KeyFits codec value := by
  constructor
  · intro both value member
    obtain ⟨i, inside, rfl⟩ := getElem_of_mem member
    have named : i < row.names.length := by
      rw [row.aligned]
      exact inside
    obtain ⟨_, held, name, arrives⟩ := exists_mem_of_forall₂ both.flip (row.mem_key named inside)
    obtain ⟨j, _, rfl⟩ := getElem_of_mem (mem_of_mem_sortedMap held)
    have position : j = i := (getElem_inj row.distinct).mp (by simpa [jsonKey] using name)
    subst position
    have json : row.jsonKey[j].2 = keyJson low row.values[j] := by simp [jsonKey]
    rw [json] at arrives
    exact (travels_iff (row.storable _ (getElem_mem inside))).mp arrives
  · intro fits
    apply sortedMap_forall₂
    apply byName_zip row.aligned
    intro value member
    exact (travels_iff (row.storable value member)).mpr (fits value member)

end LowRow

/-- A bound key as the database sees it. -/
def keyRefs (bound : List (String × SqliteValue)) : List (String × ValueRef) :=
  bound.map (Prod.map id SqliteValue.asRef)

/-- The event of a row gets to High, and its statement binds the row's key. -/
def KeySurvives (codec : Codec) (low : LowConfig) (written : WrittenVersion) (sequence : Int) (row : LowRow low) :
    Prop :=
  ∃ event bound, travel codec (captureEvent codec low written sequence row.group) = .ok event ∧
    boundKey codec event = .ok bound ∧ keyRefs bound = row.key

theorem keyRefs_eq_iff {key : List (String × ValueRef)} :
    keyRefs bound = key ↔ List.Forall₂ (ByName fun value ref => value.asRef = ref) bound key := by
  have entries : (fun entry other => Prod.map id SqliteValue.asRef entry = other) =
      ByName fun value ref => value.asRef = ref := by
    funext entry other
    exact propext Prod.ext_iff
  rw [← entries, ← forall₂_map_left_iff, forall₂_eq_eq_eq, keyRefs]

/-- The JSON of a key, on the way, is bound to the key exactly if each value
arrives. -/
theorem bound_travels_iff {entries : List (String × Json)} {key : List (String × ValueRef)} :
    List.Forall₂ (ByName (Travels codec)) entries key ↔ ∃ primaryKey bound,
      List.Forall₂ (ByName fun json last => ∃ first, json.reread codec = some first ∧ first.reread codec = some last)
        entries primaryKey ∧ primaryKey.mapM (bindJson codec) = .ok bound ∧ keyRefs bound = key := by
  unfold Travels
  rw [forall₂_byName_comp]
  apply exists_congr
  intro primaryKey
  rw [exists_and_left]
  apply and_congr_right
  intro _
  rw [forall₂_byName_comp]
  apply exists_congr
  intro bound
  rw [mapM_bindJson_iff, keyRefs_eq_iff]

/-- Names that High takes, key values that arrive as they are, and columns that
arrive at all. -/
structure KeyArrives (codec : Codec) (row : LowRow low) : Prop where
  table : validIdentifier row.table = true
  names : ∀ name ∈ row.names, validIdentifier name = true
  values : ∀ value ∈ row.values, KeyFits codec value
  columns : (∃ change ∈ row.changes, change.cid = sentinel) ∨
    ∀ change ∈ row.changes, validIdentifier change.cid = true ∧ CellArrives codec change.val

section Survival
variable {written : WrittenVersion} {sequence : Int} {row : LowRow low}

theorem forall_names_iff {property : String → Prop} :
    (∀ entry ∈ sortedMap row.jsonKey, property entry.1) ↔ ∀ name ∈ row.names, property name := by
  constructor
  · intro all name member
    rw [← row.names_jsonKey] at member
    obtain ⟨entry, listed, rfl⟩ := mem_map.mp member
    obtain ⟨value, held⟩ := exists_mem_sortedMap listed
    exact all (entry.1, value) held
  · intro all entry member
    apply all
    rw [← row.names_jsonKey]
    exact mem_map_of_mem (mem_of_mem_sortedMap member)

/-- What arrives is the key of the event, value by value. -/
theorem key_travels {primaryKey : List (String × Json)}
    (keys : List.Forall₂ (ByName fun json last => ∃ first, json.reread codec = some first ∧
      first.reread codec = some last) (sortedMap row.jsonKey) primaryKey) :
    (∀ entry ∈ primaryKey, validIdentifier entry.1 = true) ↔ ∀ name ∈ row.names, validIdentifier name = true := by
  have same := forall_name_congr (fun name => validIdentifier name = true) (names_of_byName keys)
  rw [same]
  exact @forall_names_iff _ row fun name => validIdentifier name = true

theorem keySurvives_delete (delete : ∃ change ∈ row.changes, change.cid = sentinel) :
    KeySurvives codec low written sequence row ↔ KeyArrives codec row := by
  have isDelete : (row.changes.any fun change => change.cid = sentinel) = true := by simpa using delete
  have operation : (captureEvent codec low written sequence row.group).operation = .delete := if_pos isDelete
  have none : (captureEvent codec low written sequence row.group).columns = [] := if_pos isDelete
  have key : (captureEvent codec low written sequence row.group).primaryKey = sortedMap row.jsonKey := row.pkMap_eq
  constructor
  · rintro ⟨_, bound, travelled, binds, same⟩
    obtain ⟨primaryKey, columns, keys, -, rfl⟩ := travel_iff.mp travelled
    rw [key] at keys
    obtain ⟨table, names, isKey⟩ := (boundKey_delete (by exact operation)).mp binds
    have arrives := bound_travels_iff.mpr ⟨primaryKey, bound, keys, isKey, same⟩
    exact ⟨table, (key_travels keys).mp names, row.forall₂_travels_iff.mp arrives, .inl delete⟩
  · rintro ⟨table, names, values, -⟩
    obtain ⟨primaryKey, bound, keys, binds, same⟩ := bound_travels_iff.mp (row.forall₂_travels_iff.mpr values)
    refine ⟨_, bound, travel_iff.mpr ⟨primaryKey, [], by rw [key]; exact keys, ⟨[], by rw [none]; rfl, rfl⟩, rfl⟩, ?_,
      same⟩
    apply (boundKey_delete _).mpr
    · exact ⟨table, (key_travels keys).mpr names, binds⟩
    · exact operation

theorem keySurvives_upsert (upsert : ¬ ∃ change ∈ row.changes, change.cid = sentinel) :
    KeySurvives codec low written sequence row ↔ KeyArrives codec row := by
  have isUpsert : ¬ (row.changes.any fun change => change.cid = sentinel) = true := by simpa using upsert
  have operation : (captureEvent codec low written sequence row.group).operation = .upsert := if_neg isUpsert
  have key : (captureEvent codec low written sequence row.group).primaryKey = sortedMap row.jsonKey := row.pkMap_eq
  have all : (captureEvent codec low written sequence row.group).columns =
      row.changes.map fun change => ⟨change.cid, columnValue codec change.val⟩ := by
    have kept : row.changes.filter (fun change => change.cid ≠ sentinel) = row.changes := by
      apply filter_eq_self.mpr
      intro change member
      simpa using fun same => upsert ⟨change, member, same⟩
    rw [captureEvent, LowRow.group]
    simp only [isUpsert, captureColumns, kept, Bool.false_eq_true, if_false]
  have ids {columns : List Column} (names : columns.map Column.name = row.changes.map Change.cid) :
      (∀ column ∈ columns, validIdentifier column.name = true) ↔
        ∀ change ∈ row.changes, validIdentifier change.cid = true :=
    forall_name_congr (fun name => validIdentifier name = true) names
  have apart {primaryKey : List (String × Json)} {columns : List Column}
      (keys : primaryKey.map Prod.fst = (sortedMap row.jsonKey).map Prod.fst)
      (names : columns.map Column.name = row.changes.map Change.cid) :
      ∀ column ∈ columns, (primaryKey.any fun entry => entry.1 = column.name) = false := by
    apply (forall_name_congr (fun name => (primaryKey.any fun entry => entry.1 = name) = false) names).mpr
    intro change member
    apply any_eq_false.mpr
    intro entry listed same
    have named : entry.1 ∈ (sortedMap row.jsonKey).map Prod.fst := by
      rw [← keys]
      exact mem_map_of_mem listed
    obtain ⟨_, inside, name⟩ := mem_map.mp named
    apply row.apart change member
    rw [← of_decide_eq_true same, ← name, ← row.names_jsonKey]
    exact mem_map_of_mem (mem_of_mem_sortedMap inside)
  constructor
  · rintro ⟨_, bound, travelled, binds, same⟩
    obtain ⟨primaryKey, columns, keys, ⟨between, read, readAgain⟩, rfl⟩ := travel_iff.mp travelled
    rw [key] at keys
    rw [all] at read
    have names : columns.map Column.name = row.changes.map Change.cid := by
      rw [rereadColumns_names readAgain, rereadColumns_names read, map_map]
      rfl
    have ordered : Ordered primaryKey := ordered_sortedMap.of_names (names_of_byName keys)
    obtain ⟨table, valid, isKey, validColumns, cells, areCells⟩ :=
      (boundKey_upsert (by exact operation) ordered (apart (names_of_byName keys) names)).mp binds
    have arrives := bound_travels_iff.mpr ⟨primaryKey, bound, keys, isKey, same⟩
    have cellsArrive := (arrive_captured row.changes).mp ⟨cells, between, columns, read, readAgain, areCells⟩
    refine ⟨table, (key_travels keys).mp valid, row.forall₂_travels_iff.mp arrives, .inr fun change member => ?_⟩
    exact ⟨(ids names).mp validColumns change member, cellsArrive change member⟩
  · rintro ⟨table, valid, values, columnsArrive⟩
    have each := columnsArrive.resolve_left upsert
    obtain ⟨primaryKey, bound, keys, binds, same⟩ := bound_travels_iff.mp (row.forall₂_travels_iff.mpr values)
    obtain ⟨cells, between, columns, read, readAgain, areCells⟩ :=
      (arrive_captured row.changes).mpr fun change member => (each change member).2
    have names : columns.map Column.name = row.changes.map Change.cid := by
      rw [rereadColumns_names readAgain, rereadColumns_names read, map_map]
      rfl
    have ordered : Ordered primaryKey := ordered_sortedMap.of_names (names_of_byName keys)
    refine ⟨_, bound, travel_iff.mpr ⟨primaryKey, columns, by rw [key]; exact keys,
      ⟨between, by rw [all]; exact read, readAgain⟩, rfl⟩, ?_, same⟩
    refine (boundKey_upsert ?_ ?_ ?_).mpr ⟨table, (key_travels keys).mpr valid, binds,
      (ids names).mpr fun change member => (each change member).1, cells, areCells⟩
    · exact operation
    · exact ordered
    · exact apart (names_of_byName keys) names

end Survival

/-- For every row of Low: its event binds, on High, the row's own key, value for
value, exactly if `KeyArrives`. -/
theorem key_survives_iff (codec : Codec) (low : LowConfig) (written : WrittenVersion) (sequence : Int)
    (row : LowRow low) : KeySurvives codec low written sequence row ↔ KeyArrives codec row := by
  by_cases delete : ∃ change ∈ row.changes, change.cid = sentinel
  · exact keySurvives_delete delete
  · exact keySurvives_upsert delete

/-! ### Two keys that are bound alike -/

theorem users_pkNames : usersLow.pkNames "users" = some ["id"] := rfl

theorem length_id (value : ValueRef) : ["id"].length = [value].length := rfl

theorem mem_storable {value : ValueRef} (storable : value.Storable) : ∀ other ∈ [value], other.Storable := by
  intro other member
  rw [mem_singleton.mp member]
  exact storable

theorem not_mem_id (other : cid ≠ "id") :
    ∀ change ∈ [(⟨"users", pk, cid, val, 1, 1, 0, 1, cl⟩ : Change)], change.cid ∉ ["id"] := by
  intro change member
  rw [mem_singleton.mp member]
  simpa using other

theorem sentinel_ne_id : sentinel ≠ "id" := by decide

/-- Deleted rows of a table with one key column. -/
def deletedUser (value : ValueRef) (pk : List UInt8) (storable : value.Storable) (packed : packRefs [value] = .ok pk) :
    LowRow usersLow where
  table := "users"
  names := ["id"]
  values := [value]
  pk := pk
  changes := [⟨"users", pk, sentinel, .null, 1, 1, 0, 1, 2⟩]
  schema := users_pkNames
  distinct := List.nodup_singleton "id"
  aligned := length_id value
  storable := mem_storable storable
  packed := packed
  apart := not_mem_id sentinel_ne_id

/-- The blob `x'61'`. -/
def blobUser : LowRow usersLow := deletedUser (.blob [0x61]) [1, 12, 1, 0x61] (by decide) rfl

/-- The text `61`. -/
def textUser : LowRow usersLow := deletedUser (.text [0x36, 0x31]) [1, 11, 2, 0x36, 0x31] (by decide) rfl

/-- `CAST(x'ff' AS TEXT)`, and with `fe`. -/
def castUser : LowRow usersLow := deletedUser (.text [0xff]) [1, 11, 1, 0xff] (by decide) rfl

def otherCastUser : LowRow usersLow := deletedUser (.text [0xfe]) [1, 11, 1, 0xfe] (by decide) rfl

/-- Two rows of Low with different keys, of which the first does not survive, and
for which High binds one and the same key. -/
def BoundAlike (one other : LowRow usersLow) : Prop :=
  one.key ≠ other.key ∧ ¬ KeySurvives plainCodec usersLow ⟨1, 1, [], 0⟩ 1 one ∧
    ∃ event further key, travel plainCodec (captureEvent plainCodec usersLow ⟨1, 1, [], 0⟩ 1 one.group) = .ok event ∧
      travel plainCodec (captureEvent plainCodec usersLow ⟨1, 1, [], 0⟩ 1 other.group) = .ok further ∧
      boundKey plainCodec event = .ok key ∧ boundKey plainCodec further = .ok key

theorem boundAlike {one other : LowRow usersLow} {event further : Event} {key : List (String × SqliteValue)}
    (different : one.key ≠ other.key)
    (first : travel plainCodec (captureEvent plainCodec usersLow ⟨1, 1, [], 0⟩ 1 one.group) = .ok event)
    (second : travel plainCodec (captureEvent plainCodec usersLow ⟨1, 1, [], 0⟩ 1 other.group) = .ok further)
    (bound : boundKey plainCodec event = .ok key) (alike : boundKey plainCodec further = .ok key)
    (lost : keyRefs key ≠ one.key) : BoundAlike one other := by
  refine ⟨different, ?_, event, further, key, first, second, bound, alike⟩
  rintro ⟨_, _, travelled, binds, same⟩
  rw [first] at travelled
  cases travelled
  rw [bound] at binds
  cases binds
  exact lost same

/-- The delete of the row with the blob deletes the row with the text, and that of
one invalid text deletes the other. -/
theorem blob_key_addresses_text : BoundAlike blobUser textUser ∧ BoundAlike castUser otherCastUser :=
  ⟨boundAlike (by decide) rfl rfl rfl rfl (by decide), boundAlike (by decide) rfl rfl rfl rfl (by decide)⟩

end Galvanize.HighLow
