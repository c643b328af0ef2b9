import Galvanize.Joins
import Galvanize.Table

/-! A subscription's matcher (`corro-types/src/pubsub.rs`): the statements
`Matcher::new` derives from the subscription's query, the `query` table that
holds its rows, and `handle_candidates`, which brings that table up to date
after rows of the database changed. Values are taken as SQLite compares them. -/
namespace Galvanize
open List

variable {V : Type}

/-- A row of a table of the database. Primary key columns are never null. -/
structure TableRow (V : Type) where
  pk : List V
  columns : List V
deriving DecidableEq

/-- The database, its tables numbered as the query names them: the `FROM` table,
then the joined ones. -/
abbrev DbState (V : Type) := Nat → Table (TableRow V) TableRow.pk

def DbState.rows (state : DbState V) (table : Nat) : List (TableRow V) := (state table).rows

/-- What the rewritten query gives: the primary key columns of every table, all
null where the table is null-extended, then the query's own columns. -/
structure ResultRow (V : Type) where
  pks : List (Option (List V))
  cells : List V
deriving DecidableEq

/-- `SELECT columns FROM .. JOIN .. WHERE whereClause`. -/
structure SelectStmt (V : Type) where
  joins : List (Join (TableRow V))
  whereClause : List (Option (TableRow V)) → Bool
  columns : List (Option (TableRow V)) → List V

namespace SelectStmt

def resultRow (stmt : SelectStmt V) (tuple : List (Option (TableRow V))) : ResultRow V :=
  ⟨tuple.map (Option.map TableRow.pk), stmt.columns tuple⟩

def eval (stmt : SelectStmt V) (state : DbState V) : List (ResultRow V) :=
  ((tuples state.rows stmt.joins).filter stmt.whereClause).map stmt.resultRow

variable [DecidableEq V]

end SelectStmt

/-- `Matcher`, with the number of primary key columns of each table and the empty
text that `coalesce` puts in the place of null. -/
structure Matcher (V : Type) where
  stmt : SelectStmt V
  pkLen : Nat → Nat
  emptyText : V

/-- `coalesce(pk, "")` of each primary key column of a table. -/
def Matcher.coalescePk (matcher : Matcher V) (table : Nat) : Option (List V) → List V
  | some pk => pk
  | none => List.replicate (matcher.pkLen table) matcher.emptyText

/-- `coalesced_pks`: what the unique index of `query` is on. -/
def Matcher.coalescedPks (matcher : Matcher V) (pks : List (Option (List V))) : List (List V) :=
  pks.mapIdx matcher.coalescePk

/-- A row of `query`; `rowid` is `__corro_rowid`. -/
structure StoredRow (V : Type) where
  rowid : Nat
  row : ResultRow V
deriving DecidableEq

def StoredRow.key (matcher : Matcher V) (stored : StoredRow V) : List (List V) :=
  matcher.coalescedPks stored.row.pks

def StoredRow.withCells (stored : StoredRow V) (cells : List V) : StoredRow V :=
  { stored with row := { stored.row with cells := cells } }

/-- The table `query`: a unique index on the coalesced keys, and row ids that
`AUTOINCREMENT` never uses again. -/
structure QueryTable (matcher : Matcher V) where
  rows : List (StoredRow V)
  /-- The largest row id so far. -/
  sequence : Nat
  unique : (rows.map (StoredRow.key matcher)).Nodup
  numbered : (rows.map StoredRow.rowid).Nodup
  counted : ∀ stored ∈ rows, stored.rowid ≤ sequence

inductive ChangeType where
  | insert
  | update
  | delete
deriving DecidableEq

/-- `QueryEvent::Change`, without its change id. -/
structure ChangeEvent (V : Type) where
  changeType : ChangeType
  rowid : Nat
  cells : List V
deriving DecidableEq

namespace QueryTable

variable {matcher : Matcher V} (table : QueryTable matcher)

/-- The rows a subscriber knows, by row id. -/
def view : List (Nat × List V) :=
  table.rows.map fun stored => (stored.rowid, stored.row.cells)

/-- `DO UPDATE SET`: the query's columns only, not the keys. -/
def setCells (rowid : Nat) (cells : List V) : QueryTable matcher where
  rows := table.rows.map fun stored => if stored.rowid = rowid then stored.withCells cells else stored
  sequence := table.sequence
  unique := by
    have same : StoredRow.key matcher ∘ (fun stored => if stored.rowid = rowid then stored.withCells cells else stored)
        = StoredRow.key matcher := by
      funext stored
      simp only [Function.comp_apply]
      split <;> rfl
    rw [map_map, same]
    exact table.unique
  numbered := by
    have same : StoredRow.rowid ∘ (fun stored => if stored.rowid = rowid then stored.withCells cells else stored)
        = StoredRow.rowid := by
      funext stored
      simp only [Function.comp_apply]
      split <;> rfl
    rw [map_map, same]
    exact table.numbered
  counted := by
    intro stored member
    obtain ⟨old, held, rfl⟩ := mem_map.mp member
    have bound := table.counted old held
    split <;> exact bound

/-- A row under a free key gets the next row id. -/
def append (row : ResultRow V)
    (free : ∀ stored ∈ table.rows, stored.key matcher ≠ matcher.coalescedPks row.pks) : QueryTable matcher where
  rows := table.rows ++ [⟨table.sequence + 1, row⟩]
  sequence := table.sequence + 1
  unique := by
    rw [map_append, nodup_append_comm]
    refine nodup_cons.mpr ⟨?_, table.unique⟩
    intro taken
    obtain ⟨stored, held, same⟩ := mem_map.mp taken
    exact free stored held same
  numbered := by
    rw [map_append, nodup_append_comm]
    refine nodup_cons.mpr ⟨?_, table.numbered⟩
    intro taken
    obtain ⟨stored, held, same⟩ := mem_map.mp taken
    have bound := table.counted stored held
    have next : stored.rowid = table.sequence + 1 := same
    omega
  counted := by
    intro stored member
    rcases mem_append.mp member with held | new
    · exact Nat.le_succ_of_le (table.counted stored held)
    · obtain rfl := mem_singleton.mp new
      exact Nat.le_refl _

/-- `DELETE FROM query WHERE gone`. -/
def delete (gone : StoredRow V → Bool) : QueryTable matcher where
  rows := table.rows.filter fun stored => !gone stored
  sequence := table.sequence
  unique := table.unique.sublist (filter_sublist.map _)
  numbered := table.numbered.sublist (filter_sublist.map _)
  counted := fun stored member => table.counted stored (mem_of_mem_filter member)

variable [DecidableEq V]

/-- The row a new one conflicts with. -/
def conflict (table : QueryTable matcher) (row : ResultRow V) : Option (StoredRow V) :=
  table.rows.find? fun stored => stored.key matcher = matcher.coalescedPks row.pks

theorem free_of_conflict {table : QueryTable matcher} (none : table.conflict row = none) :
    ∀ stored ∈ table.rows, stored.key matcher ≠ matcher.coalescedPks row.pks := by
  intro stored held
  simpa using List.find?_eq_none.mp none stored held

/-- One row of `INSERT INTO query .. ON CONFLICT(..) DO UPDATE SET .. WHERE ..
RETURNING`: a conflicting row is updated where a column differs, and returned
only then. -/
def upsert (table : QueryTable matcher) (row : ResultRow V) : QueryTable matcher × Option (StoredRow V) :=
  match conflicts : table.conflict row with
  | some stored =>
    if stored.row.cells = row.cells then (table, none)
    else (table.setCells stored.rowid row.cells, some (stored.withCells row.cells))
  | none => (table.append row (free_of_conflict conflicts), some ⟨table.sequence + 1, row⟩)

end QueryTable

variable [DecidableEq V] {matcher : Matcher V}

/-- The coalesced key that the row has for the table, made of empty texts if the
table is null-extended, is among the table's candidates. -/
def reaches (matcher : Matcher V) (row : ResultRow V) (entry : Nat × List (List V)) : Bool :=
  row.pks[entry.1]?.any fun pk => decide (matcher.coalescePk entry.1 pk ∈ entry.2)

/-- A subscriber's rows after one event. -/
def applyEvent (rows : List (Nat × List V)) (event : ChangeEvent V) : List (Nat × List V) :=
  match event.changeType with
  | .delete => rows.filter fun row => decide (row.1 ≠ event.rowid)
  | .insert | .update =>
    if event.rowid ∈ rows.map Prod.fst then
      rows.map fun row => if row.1 = event.rowid then (event.rowid, event.cells) else row
    else rows ++ [(event.rowid, event.cells)]

end Galvanize
