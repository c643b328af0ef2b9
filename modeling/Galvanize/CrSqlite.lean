import Galvanize.Changeset

/-! cr-sqlite, the extension the agent stores its data with. It is not part of
this repository, so it is a parameter: the operations the agent calls, the views
it reads, and what the agent relies on as named laws. A last-writer-wins engine
that satisfies them shows that they can be met. -/
namespace Galvanize
open List

/-- A row of `crsql_changes` with its `ts` column. -/
structure StoredChange where
  change : Change
  ts : Timestamp
deriving DecidableEq

variable {row : StoredChange} {ts : Timestamp}

namespace StoredChange

/-- The rows of a received changeset: all carry its `ts`. -/
def ofChanges (changes : List Change) (ts : Timestamp) : List StoredChange := changes.map (fun change => ⟨change, ts⟩)

@[simp] theorem mem_ofChanges : row ∈ ofChanges changes ts ↔ row.change ∈ changes ∧ row.ts = ts := by
  simp only [ofChanges, mem_map]
  constructor
  · rintro ⟨change, listed, rfl⟩
    exact ⟨listed, rfl⟩
  · rintro ⟨listed, rfl⟩
    exact ⟨row.change, listed, rfl⟩

end StoredChange

structure CrSqlite where
  Store : Type
  /-- `crsql_changes` -/
  changes : Store → List StoredChange
  /-- `crsql_db_versions`, from site to version -/
  dbVersions : Store → Map ActorId Nat
  /-- `crsql_site_id` -/
  siteIds : Store → List ActorId
  /-- `INSERT INTO crsql_changes`: which of the changes had an effect. -/
  insertChanges : Store → List StoredChange → Store × List Bool
  /-- `SELECT crsql_set_db_version(?, ?)` -/
  setDbVersion : Store → ActorId → Nat → Store
  /-- The statements of a local transaction. -/
  Write : Type
  /-- `SELECT crsql_peek_next_db_version()`: the version a transaction of this site is given. -/
  peekNextDbVersion : Store → ActorId → Nat
  /-- Execute a local transaction of this site. -/
  write : Store → ActorId → Write → Store

/-- What the bookkeeping relies on: `crsql_db_versions` holds the greatest
version inserted or set, and a site with inserted changes stays listed. -/
structure CrSqlite.TracksVersions (engine : CrSqlite) : Prop where
  dbVersions_insert : ∀ store rows site version,
    Reaches (engine.dbVersions (engine.insertChanges store rows).1)[site]? version ↔
      Reaches (engine.dbVersions store)[site]? version ∨
        ∃ row ∈ rows, row.change.siteId = site ∧ version ≤ row.change.dbVersion
  dbVersions_set : ∀ store site set other version,
    Reaches (engine.dbVersions (engine.setDbVersion store site set))[other]? version ↔
      Reaches (engine.dbVersions store)[other]? version ∨ (other = site ∧ version ≤ set)
  siteIds_insert : ∀ store rows site,
    (site ∈ engine.siteIds store ∨ ∃ row ∈ rows, row.change.siteId = site) →
      site ∈ engine.siteIds (engine.insertChanges store rows).1
  siteIds_set : ∀ store site set other, other ∈ engine.siteIds store →
    other ∈ engine.siteIds (engine.setDbVersion store site set)

/-- The site, version and seq of a row. -/
def StoredChange.key (row : StoredChange) : ActorId × Nat × Nat :=
  (row.change.siteId, row.change.dbVersion, row.change.seq)

/-- A row of `crsql_changes` keeps the version and seq it was written under; rows come from
inserted changes and from local transactions, whose rows carry the next version. -/
structure CrSqlite.KeepsRows (engine : CrSqlite) : Prop where
  changes_insert : ∀ store rows, ∀ row ∈ engine.changes (engine.insertChanges store rows).1,
    ∃ origin, (origin ∈ engine.changes store ∨ origin ∈ rows) ∧ origin.key = row.key
  changes_set : ∀ store site version, ∀ row ∈ engine.changes (engine.setDbVersion store site version),
    ∃ origin ∈ engine.changes store, origin.key = row.key
  changes_write : ∀ store site tx, ∀ row ∈ engine.changes (engine.write store site tx),
    (∃ origin ∈ engine.changes store, origin.key = row.key) ∨
      (row.change.siteId = site ∧ row.change.dbVersion = engine.peekNextDbVersion store site)

/-- Versions are not given twice: the next one only grows, and a transaction that leaves rows
uses it up. -/
structure CrSqlite.NumbersWrites (engine : CrSqlite) : Prop where
  peek_insert : ∀ store rows site,
    engine.peekNextDbVersion store site ≤ engine.peekNextDbVersion (engine.insertChanges store rows).1 site
  peek_set : ∀ store other version site,
    engine.peekNextDbVersion store site ≤ engine.peekNextDbVersion (engine.setDbVersion store other version) site
  peek_write : ∀ store site tx,
    engine.peekNextDbVersion store site ≤ engine.peekNextDbVersion (engine.write store site tx) site
  peek_taken : ∀ store site tx, (∃ row ∈ engine.changes (engine.write store site tx),
      row.change.siteId = site ∧ row.change.dbVersion = engine.peekNextDbVersion store site) →
    engine.peekNextDbVersion store site < engine.peekNextDbVersion (engine.write store site tx) site

/-! ### A last-writer-wins engine -/

namespace Lww

structure Store where
  rows : List StoredChange
  dbVersions : Map ActorId Nat
  siteIds : List ActorId

def raise (versions : Map ActorId Nat) (site : ActorId) (version : Nat) : Map ActorId Nat :=
  versions.alter site (fun held => maxOption held version)

def sameCell (a b : Change) : Bool := a.table = b.table && a.pk = b.pk && a.cid = b.cid

/-- A longer causal length wins, then a greater column version. -/
def beats (new old : Change) : Bool := old.cl < new.cl || (old.cl = new.cl && old.colVersion < new.colVersion)

/-- One row: it replaces the row of its cell, or has no effect. -/
def insertOne (state : Store × List Bool) (row : StoredChange) : Store × List Bool :=
  let (store, effects) := state
  let effect := store.rows.all (fun old => !sameCell old.change row.change || beats row.change old.change)
  let rows :=
    if effect then store.rows.filter (fun old => !sameCell old.change row.change) ++ [row]
    else store.rows
  ({ rows, dbVersions := raise store.dbVersions row.change.siteId row.change.dbVersion
     siteIds := store.siteIds.insert row.change.siteId },
    effects ++ [effect])

/-- The cells a local transaction sets, in order. -/
structure Write where
  ts : Timestamp
  cells : List (String × List UInt8 × String × SqliteValue)

/-- The greatest column version stored for a cell. -/
def colVersion (store : Store) (table : String) (pk : List UInt8) (cid : String) : Int :=
  store.rows.foldl (fun held row =>
    if row.change.table = table ∧ row.change.pk = pk ∧ row.change.cid = cid
    then max held row.change.colVersion else held) 0

def peekNextDbVersion (store : Store) (site : ActorId) : Nat := store.dbVersions[site]?.getD 0 + 1

/-- Set one cell under this version. -/
def writeCell (site : ActorId) (version : Nat) (ts : Timestamp) (store : Store)
    (cell : (String × List UInt8 × String × SqliteValue) × Nat) : Store :=
  let ((table, pk, cid, val), seq) := cell
  (insertOne (store, [])
    ⟨⟨table, pk, cid, val, colVersion store table pk cid + 1, version, seq, site, 1⟩, ts⟩).1

/-- A transaction that leaves rows uses up its version. -/
def write (store : Store) (site : ActorId) (tx : Write) : Store :=
  let version := peekNextDbVersion store site
  let store := tx.cells.zipIdx.foldl (writeCell site version tx.ts) store
  if store.rows.any (fun row => row.change.siteId = site ∧ row.change.dbVersion = version)
  then { store with dbVersions := raise store.dbVersions site version }
  else store

def engine : CrSqlite where
  Store := Store
  changes := Store.rows
  dbVersions := Store.dbVersions
  siteIds := Store.siteIds
  insertChanges := fun store rows => rows.foldl insertOne (store, [])
  setDbVersion := fun store site version =>
    { store with dbVersions := raise store.dbVersions site version }
  Write := Write
  peekNextDbVersion := peekNextDbVersion
  write := write

def empty : Store := ⟨[], ∅, []⟩

variable {version : Nat}

theorem reaches_raise {versions : Map ActorId Nat} {set : Nat} : Reaches (raise versions site set)[other]? version ↔
      Reaches versions[other]? version ∨ (other = site ∧ version ≤ set) := by
  simp only [raise, Std.ExtTreeMap.getElem?_alter, Std.LawfulEqOrd.compare_eq_iff_eq]
  by_cases same : site = other
  · subst same
    simp [reaches_maxOption]
  · simp [same, Ne.symm same]

theorem foldl_insertOne {rows : List StoredChange} :
    (∀ site version, Reaches (rows.foldl insertOne state).1.dbVersions[site]? version ↔
      Reaches state.1.dbVersions[site]? version ∨
        ∃ row ∈ rows, row.change.siteId = site ∧ version ≤ row.change.dbVersion) ∧
    ∀ site, site ∈ (rows.foldl insertOne state).1.siteIds ↔
      site ∈ state.1.siteIds ∨ ∃ row ∈ rows, row.change.siteId = site := by
  induction rows generalizing state with
  | nil => simp
  | cons first _ ih =>
    obtain ⟨versions, sites⟩ := @ih (insertOne state first)
    refine ⟨fun site version => ?_, fun site => ?_⟩
    · rw [foldl_cons, versions]
      simp [insertOne, reaches_raise, or_assoc, eq_comm (a := site)]
    · rw [foldl_cons, sites]
      simp only [insertOne, mem_insert_iff, mem_cons, exists_eq_or_imp, eq_comm (a := site)]
      tauto

theorem tracksVersions : engine.TracksVersions where
  dbVersions_insert := fun _ _ site version => foldl_insertOne.1 site version
  dbVersions_set := fun _ _ _ _ _ => reaches_raise
  siteIds_insert := fun _ _ site listed => (foldl_insertOne.2 site).mpr listed
  siteIds_set := fun _ _ _ _ listed => listed

theorem mem_insertOne (held : other ∈ (insertOne state row).1.rows) : other ∈ state.1.rows ∨ other = row := by
  simp only [insertOne] at held
  split at held
  · rcases mem_append.mp held with old | new
    · exact .inl (mem_of_mem_filter old)
    · exact .inr (mem_singleton.mp new)
  · exact .inl held

theorem mem_foldl_insertOne {rows : List StoredChange} (held : row ∈ (rows.foldl insertOne state).1.rows) :
    row ∈ state.1.rows ∨ row ∈ rows := by
  induction rows generalizing state with
  | nil => exact .inl held
  | cons _ _ ih =>
    rcases ih held with inNext | listed
    · rcases mem_insertOne inNext with old | rfl
      · exact .inl old
      · exact .inr (by simp)
    · exact .inr (by simp [listed])

theorem mem_foldl_writeCell {cells : List ((String × List UInt8 × String × SqliteValue) × Nat)}
    (held : row ∈ (cells.foldl (writeCell site version ts) store).rows) :
    row ∈ store.rows ∨ (row.change.siteId = site ∧ row.change.dbVersion = version) := by
  induction cells generalizing store with
  | nil => exact .inl held
  | cons _ _ ih =>
    rcases ih held with inNext | own
    · rcases mem_insertOne inNext with old | rfl
      · exact .inl old
      · exact .inr ⟨rfl, rfl⟩
    · exact .inr own

theorem keepsRows : engine.KeepsRows where
  changes_insert := fun _ _ row held => ⟨row, mem_foldl_insertOne held, rfl⟩
  changes_set := fun _ _ _ row held => ⟨row, held, rfl⟩
  changes_write := by
    intro store site tx row held
    have written : row ∈ (tx.cells.zipIdx.foldl (writeCell site (peekNextDbVersion store site) tx.ts) store).rows := by
      simp only [engine, write] at held
      split at held <;> exact held
    rcases mem_foldl_writeCell written with old | own
    · exact .inl ⟨row, old, rfl⟩
    · exact .inr own

/-- The next version follows from the versions reached. -/
theorem peek_mono (kept : ∀ x, Reaches a.dbVersions[site]? x → Reaches b.dbVersions[site]? x) :
    peekNextDbVersion a site ≤ peekNextDbVersion b site := by
  simp only [peekNextDbVersion]
  cases held : a.dbVersions[site]? with
  | none => simp
  | some m =>
    obtain ⟨n, is, low⟩ := kept m (by simp [held])
    simp [is, low]

theorem writeCell_kept {other : ActorId} {cells : List ((String × List UInt8 × String × SqliteValue) × Nat)}
    (reached : Reaches store.dbVersions[other]? x) :
    Reaches (cells.foldl (writeCell site version ts) store).dbVersions[other]? x := by
  induction cells generalizing store with
  | nil => exact reached
  | cons _ _ ih =>
    refine ih ?_
    exact reaches_raise.mpr (.inl reached)

theorem numbersWrites : engine.NumbersWrites where
  peek_insert := fun _ _ site => peek_mono fun x reached => (foldl_insertOne.1 site x).mpr (.inl reached)
  peek_set := fun _ _ _ _ => peek_mono fun x reached => reaches_raise.mpr (.inl reached)
  peek_write := by
    intro store site tx
    refine peek_mono fun x reached => ?_
    simp only [engine, write]
    split
    · exact reaches_raise.mpr (.inl (writeCell_kept reached))
    · exact writeCell_kept reached
  peek_taken := by
    intro store site tx taken
    have rows : (write store site tx).rows =
        (tx.cells.zipIdx.foldl (writeCell site (peekNextDbVersion store site) tx.ts) store).rows := by
      simp only [write]
      split <;> rfl
    have used : Reaches (write store site tx).dbVersions[site]? (peekNextDbVersion store site) := by
      simp only [write]
      rw [if_pos]
      · exact reaches_raise.mpr (.inr ⟨rfl, le_rfl⟩)
      · obtain ⟨row, held, own⟩ := taken
        rw [show engine.changes (engine.write store site tx) = (write store site tx).rows from rfl, rows] at held
        exact List.any_eq_true.mpr ⟨row, held, decide_eq_true own⟩
    obtain ⟨m, is, low⟩ := used
    show peekNextDbVersion store site < (write store site tx).dbVersions[site]?.getD 0 + 1
    rw [is, Option.getD_some]
    omega

end Lww

end Galvanize
