import Galvanize.Matcher
import Galvanize.Changeset

/-! Incremental maintenance of a subscription's rows. The stored rows are looked
up by coalesced keys, in which a null key and an all-empty one are the same, and
a result has one row to such a key. One turn of `handle_candidates` takes away the
stored rows that the candidates of its table reach by that key, and puts back
those that hold a candidate key themselves. So what is stored under a key in the
end depends on the last turn that reaches it. -/
namespace Galvanize
open List QueryTable

variable {V : Type} {matcher : Matcher V} {stmt : SelectStmt V} {state before after : DbState V}
  {queried : QueryTable matcher} {row other : ResultRow V} {table i : Nat} {temp : List (List V)}
  {candidates : List (Nat × List (List V))}

/-! ### The query's rows -/

/-- The row has a row of the table in it, under a listed key. -/
def Touches (table : Nat) (temp : List (List V)) (row : ResultRow V) : Prop :=
  ∃ pk ∈ temp, row.pks[table]? = some (some pk)

variable {tuple : List (Option (TableRow V))}

section Rewriting

variable [DecidableEq V]

end Rewriting

/-! ### What is stored -/

/-- The row is in the table, under some row id. -/
def Holds (queried : QueryTable matcher) (row : ResultRow V) : Prop := row ∈ queried.rows.map StoredRow.row

variable {lastRowid : Nat} {key : List (List V)} {entry : Nat × List (List V)}

section Turns

variable [DecidableEq V]

/-! ### What is reached -/

theorem Touches.reaches (touches : Touches table temp row) : reaches matcher row (table, temp) = true := by
  obtain ⟨pk, listed, here⟩ := touches
  simp [Galvanize.reaches, here, Matcher.coalescePk, listed]

/-- What the insert makes of a new row where an old one can be: the keys stay. -/
def merged (new : ResultRow V) : Option (ResultRow V) → ResultRow V
  | some old => ⟨old.pks, new.cells⟩
  | none => new

/-- Above the row ids from before there are rows of the new result only. -/
structure Numbered (state : DbState V) (lastRowid : Nat) (queried : QueryTable matcher) : Prop where
  counted : lastRowid ≤ queried.sequence
  new : ∀ stored ∈ queried.rows, lastRowid < stored.rowid → stored.row ∈ matcher.stmt.eval state

end Turns

/-! ### When the run is right -/

/-- Every row that is in only one of the two states has its key among the
candidates of its table. -/
def CandidatesCover (stmt : SelectStmt V) (before after : DbState V) (candidates : List (Nat × List (List V))) : Prop :=
  ∀ table ≤ stmt.joins.length, ∀ row, (∀ temp, (table, temp) ∈ candidates → row.pk ∉ temp) →
    (row ∈ before table ↔ row ∈ after table)

section
variable [DecidableEq V]

omit [DecidableEq V] in
theorem CandidatesCover.symm (covered : CandidatesCover stmt before after candidates) :
    CandidatesCover stmt after before candidates :=
  fun table inside row unlisted => (covered table inside row unlisted).symm

end

def user (id : Int) : TableRow SqliteValue := ⟨[.integer id], []⟩

def note (id owner : Int) : TableRow SqliteValue := ⟨[.integer id], [.integer owner]⟩

/-- A database of users and notes. -/
def notesDb (users notes : Table (TableRow SqliteValue) TableRow.pk) : DbState SqliteValue
  | 0 => users
  | 1 => notes
  | _ => ∅

/-- The note is gone. -/
def noNote : DbState SqliteValue := notesDb ⟨[user 1], by decide⟩ ∅

end Galvanize
