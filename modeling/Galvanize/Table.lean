import Mathlib.Data.List.Nodup
import Mathlib.Data.List.Perm.Lattice
import Mathlib.Data.List.Flatten

/-! A relational table with a primary key: its rows, in the order a scan meets
them, with no two under one key. Statements are all or nothing, an insert fails
when a key is taken, and a delete reports how many rows it removed. Nothing
here knows what the rows are. -/
namespace Galvanize
open List

/-- Rows of type `ρ` whose keys are distinct. -/
structure Table (ρ : Type) {κ : Type} (key : ρ → κ) where
  rows : List ρ
  distinct : (rows.map key).Nodup

/-- Lists hung off differently tagged items share nothing. -/
theorem nodup_flatMap_of_tag {items : List α} (tag : α → τ)
    (owner : β → τ) (distinct : (items.map tag).Nodup) (each : ∀ a ∈ items, (hung a).Nodup)
    (own : ∀ a ∈ items, ∀ b ∈ hung a, owner b = tag a) : (items.flatMap hung).Nodup := by
  refine nodup_flatMap.mpr ⟨each, ?_⟩
  have apart := pairwise_map.mp distinct
  refine apart.imp_of_mem ?_
  intro a b memberA memberB different item inA inB
  exact different ((own a memberA item inA).symm.trans (own b memberB item inB))

namespace Table

variable {ρ κ : Type} {key : ρ → κ} {t : Table ρ key} {row other : ρ}

instance : Membership ρ (Table ρ key) := ⟨fun t row => row ∈ t.rows⟩

theorem mem_def : row ∈ t ↔ row ∈ t.rows := Iff.rfl

instance [DecidableEq ρ] (t : Table ρ key) (row : ρ) : Decidable (row ∈ t) := inferInstanceAs (Decidable (row ∈ t.rows))

instance : EmptyCollection (Table ρ key) := ⟨⟨[], by simp⟩⟩

@[simp] theorem not_mem_empty : row ∉ (∅ : Table ρ key) := List.not_mem_nil

/-- Two rows of a table under one key are one row. -/
theorem eq_of_key (held : row ∈ t) (otherHeld : other ∈ t) (same : key row = key other) : row = other :=
  List.inj_on_of_nodup_map t.distinct held otherHeld same

theorem nodup_rows (t : Table ρ key) : t.rows.Nodup := List.Nodup.of_map key t.distinct

/-- `SELECT … WHERE keep`. -/
def select (t : Table ρ key) (keep : ρ → Bool) : List ρ := t.rows.filter keep

@[simp] theorem mem_select : row ∈ t.select keep ↔ row ∈ t ∧ keep row = true :=
  List.mem_filter

/-- `DELETE … WHERE gone`. -/
def delete (t : Table ρ key) (gone : ρ → Bool) : Table ρ key where
  rows := t.rows.filter (fun row => !gone row)
  distinct := t.distinct.sublist (List.filter_sublist.map key)

@[simp] theorem mem_delete : row ∈ t.delete gone ↔ row ∈ t ∧ gone row = false := by
  simp [mem_def, delete]

/-- The number of rows a `DELETE … WHERE gone` removes. -/
def deleted (t : Table ρ key) (gone : ρ → Bool) : Nat := t.rows.countP gone

/-- A delete that lists existing tuples, none twice, removes as many rows as it
lists. `tuple` is what the statement compares; it determines the row. -/
theorem deleted_eq_length (tuple : ρ → τ) {listed : List τ}
    (selects : ∀ row, gone row = true ↔ tuple row ∈ listed) (once : listed.Nodup)
    (present : ∀ item ∈ listed, ∃ row ∈ t, tuple row = item)
    (unique : ∀ row ∈ t, ∀ other ∈ t, tuple row = tuple other → row = other) : t.deleted gone = listed.length := by
  have same : ((t.rows.filter gone).map tuple).Perm listed := by
    refine (perm_ext_iff_of_nodup ?_ once).mpr fun item => ?_
    · refine (t.nodup_rows.filter _).map_on ?_
      intro row held other otherHeld same
      exact unique row (mem_of_mem_filter held) other (mem_of_mem_filter otherHeld) same
    · simp only [mem_map, mem_filter, selects]
      constructor
      · rintro ⟨row, ⟨_, member⟩, rfl⟩
        exact member
      · intro member
        obtain ⟨row, held, rfl⟩ := present item member
        exact ⟨row, ⟨held, member⟩, rfl⟩
  rw [deleted, countP_eq_length_filter, ← same.length_eq, length_map]

variable [DecidableEq κ]

/-- `INSERT` of one row; `none` is a uniqueness failure. -/
def insert (t : Table ρ key) (row : ρ) : Option (Table ρ key) :=
  if taken : key row ∈ t.rows.map key then none
  else some ⟨t.rows ++ [row], by
    rw [List.map_append, List.nodup_append_comm]
    exact List.nodup_cons.mpr ⟨taken, t.distinct⟩⟩

/-- `INSERT … SELECT`: one statement for all listed rows. -/
def insertAll (t : Table ρ key) (rows : List ρ) : Option (Table ρ key) := rows.foldlM insert t

/-- `INSERT … ON CONFLICT DO NOTHING`. -/
def insertOrIgnore (t : Table ρ key) (row : ρ) : Table ρ key := (t.insert row).getD t

theorem insert_fresh (fresh : ∀ old ∈ t, key old ≠ key row) :
    ∃ after, t.insert row = some after ∧ after.rows = t.rows ++ [row] := by
  have free : key row ∉ t.rows.map key := by
    intro taken
    obtain ⟨old, held, same⟩ := mem_map.mp taken
    exact fresh old held same
  exact ⟨_, dif_neg free, rfl⟩

/-- An insert of rows under distinct free keys succeeds and adds exactly them. -/
theorem insertAll_fresh {rows : List ρ} (once : (rows.map key).Nodup)
    (fresh : ∀ old ∈ t, ∀ row ∈ rows, key old ≠ key row) :
    ∃ after, t.insertAll rows = some after ∧ after.rows = t.rows ++ rows := by
  unfold insertAll
  induction rows generalizing t with
  | nil => exact ⟨t, rfl, by simp⟩
  | cons first rest ih =>
    obtain ⟨firstOnce, restOnce⟩ := nodup_cons.mp (map_cons ▸ once)
    have firstFresh : ∀ old ∈ t, key old ≠ key first := fun old held =>
      fresh old held first (by simp)
    obtain ⟨next, inserted, nextRows⟩ := insert_fresh firstFresh
    have nextFresh : ∀ old ∈ next, ∀ row ∈ rest, key old ≠ key row := by
      intro old held row later
      rw [mem_def, nextRows, mem_append] at held
      rcases held with held | held
      · exact fresh old held row (by simp [later])
      · obtain rfl := mem_singleton.mp held
        intro same
        exact firstOnce (mem_map.mpr ⟨row, later, same.symm⟩)
    obtain ⟨after, run, afterRows⟩ := ih restOnce nextFresh
    refine ⟨after, ?_, by rw [afterRows, nextRows, append_assoc, singleton_append]⟩
    rw [foldlM_cons, inserted]
    exact run

theorem mem_of_insert {after : Table ρ key} (inserted : t.insert row = some after) (held : other ∈ after) :
    other ∈ t ∨ other = row := by
  unfold insert at inserted
  split at inserted
  · cases inserted
  · cases inserted
    exact (mem_append.mp held).imp_right mem_singleton.mp

/-- Whatever an insert leaves was there or is listed. -/
theorem mem_of_insertAll {rows : List ρ} {after : Table ρ key} (inserted : t.insertAll rows = some after)
    (held : row ∈ after) : row ∈ t ∨ row ∈ rows := by
  unfold insertAll at inserted
  induction rows generalizing t with
  | nil =>
    cases inserted
    exact .inl held
  | cons first _ ih =>
    rw [foldlM_cons] at inserted
    cases step : t.insert first with
    | none =>
      rw [step] at inserted
      cases inserted
    | some _ =>
      rw [step] at inserted
      rcases ih inserted with inNext | listed
      · exact (mem_of_insert step inNext).imp_right fun same => by simp [same]
      · exact .inr (by simp [listed])

theorem mem_of_insertOrIgnore (held : other ∈ t.insertOrIgnore row) : other ∈ t ∨ other = row := by
  unfold insertOrIgnore at held
  cases inserted : t.insert row with
  | none =>
    rw [inserted] at held
    exact .inl held
  | some _ =>
    rw [inserted] at held
    exact mem_of_insert inserted held

theorem mem_of_foldl_insertOrIgnore {rows : List ρ} (held : row ∈ rows.foldl insertOrIgnore t) :
    row ∈ t ∨ row ∈ rows := by
  induction rows generalizing t with
  | nil => exact .inl held
  | cons _ _ ih =>
    rcases ih held with inNext | listed
    · rcases mem_of_insertOrIgnore inNext with old | rfl
      · exact .inl old
      · exact .inr (by simp)
    · exact .inr (by simp [listed])

end Table

end Galvanize
