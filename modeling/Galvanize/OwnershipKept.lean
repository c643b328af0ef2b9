import Galvanize.Ownership

/-! Ownership over whole runs: between what has happened to a row and what the
provenance table and the row hold there is one invariant, kept by every event from
Low and every local write, as long as the two names of a row match. -/
namespace Galvanize.HighLow
open List IndexMap

variable {codec : Codec} {schema : LowConfig} {db next : HighDb}

/-! ### Fields of a row -/

section Fields
variable {β : Type} {name other : String} {value : β} {map : List (String × β)}

variable {row cells : List (String × SqliteValue)}

theorem Ordered.nodup {map : List (String × β)} (ordered : Ordered map) : (map.map Prod.fst).Nodup := by
  have sorted := pairwise_map.mpr ordered
  apply sorted.imp
  intro _ second below same
  rw [same] at below
  exact String.lt_irrefl second below

end Fields

/-! ### One row -/

/-- What the tables hold of a row, against what has happened to it. -/
structure RowLinked (row : Option (List (String × SqliteValue))) (held : Option Provenance) (tracked : Tracked) :
    Prop where
  origin : held.isSome = tracked.lowOrigin
  listed : ∀ name, name ∈ (held.map Provenance.ownedFields).getD [] ↔ name ∈ tracked.owned ∧ identifier name = true
  present : tracked.lowOrigin = true → row.isSome = true
  fresh : tracked.lowOrigin = false → tracked.owned = [] ∧ tracked.latest = []
  unowned : ∀ name value, name ∉ tracked.owned → field? tracked.latest name = some value →
    (row.bind fun row => field? row name) = some value

section Rows
variable {row : Option (List (String × SqliteValue))} {held : Option Provenance} {tracked : Tracked}
  {cells : List (String × SqliteValue)} {names : List String}

/-- The row after an upsert from Low. -/
def upserted (cells : List (String × SqliteValue)) (held : Option Provenance)
    (row : Option (List (String × SqliteValue))) : List (String × SqliteValue) :=
  match row with
  | some old =>
    (cells.filter fun cell => decide (cell.1 ∉ (held.map Provenance.ownedFields).getD [])).foldl setColumn old
  | none => cells

/-- The row after a local write that does not insert it anew. -/
def written (cells : List (String × SqliteValue)) (row : Option (List (String × SqliteValue))) :
    List (String × SqliteValue) :=
  match row with
  | some old => cells.foldl setColumn old
  | none => sortedMap cells

/-- What a local write notes of a row from Low. -/
def noted (names : List String) (held : Provenance) : Provenance :=
  { held with ownedFields := extendSet held.ownedFields (names.filter identifier) }

end Rows

/-! ### All rows -/

/-- The rows that are written have two names that match, and the tables hold of
each what they should. -/
structure Linked (identities : List Identity) (db : HighDb) (tracked : Address → Tracked) : Prop where
  rows : ∀ identity ∈ identities,
    RowLinked (db.rows.get? identity.1) (db.provenance.get? identity.2) (tracked identity.1)
  others : ∀ address, (∀ identity ∈ identities, identity.1 ≠ address) → tracked address = .start

def Matching (identities : List Identity) : Prop :=
  ∀ one ∈ identities, ∀ other ∈ identities, one.1 = other.1 ↔ one.2 = other.2

section Database
variable {identities : List Identity} {tracked later : Address → Tracked} {identity : Identity}

/-- What is done to one row under its two names leaves the others alone. -/
theorem Linked.write (linked : Linked identities db tracked) (matching : Matching identities)
    (member : identity ∈ identities)
    (own : RowLinked (next.rows.get? identity.1) (next.provenance.get? identity.2) (later identity.1))
    (otherRows : ∀ address, address ≠ identity.1 → next.rows.get? address = db.rows.get? address)
    (otherNames : ∀ name, name ≠ identity.2 → next.provenance.get? name = db.provenance.get? name)
    (otherTracked : ∀ address, address ≠ identity.1 → later address = tracked address) :
    Linked identities next later where
  rows := by
    intro other otherMember
    by_cases same : other.1 = identity.1
    · have name := (matching other otherMember identity member).mp same
      rw [same, name]
      exact own
    · have name : other.2 ≠ identity.2 := fun equal => same ((matching other otherMember identity member).mpr equal)
      rw [otherRows _ same, otherNames _ name, otherTracked _ same]
      exact linked.rows other otherMember
  others := by
    intro address outside
    rw [otherTracked address (Ne.symm (outside identity member))]
    exact linked.others address outside

end Database

/-! ### Events from Low -/

section Events
variable {identities : List Identity} {tracked : Address → Tracked} {event : Event}

variable (linked : Linked identities db tracked) (members : ∀ identity ∈ event.identity codec, identity ∈ identities)
  (applied : applyEvent codec db event = .ok next)
include linked members applied

end Events

/-! ### Writes on High -/

section Writes
variable {identities : List Identity} {row : HighRow schema}

end Writes

/-! ### Runs -/

section Runs
variable {steps : List (HighStep schema)}

end Runs

end Galvanize.HighLow
