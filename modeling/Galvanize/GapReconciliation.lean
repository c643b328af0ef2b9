import Galvanize.AcceptedChanges
import Galvanize.NodeInvariant

/-! The reconciliation of gaps an administrator asks for (`collapse_gaps`,
`corro-admin/src/lib.rs`). Buffered versions without bookkeeping of their seqs are taken
for missing; among them are those that have been applied and whose rows are not cleared
yet. What has been applied is noted by the engine itself, statement by statement, and
rolled back with the transaction. -/
namespace Galvanize.GapReconciliation
open BookedVersions BookieProofs BookieMirror ProcessProofs AcceptedChanges NodeInvariant List

/-! ### What has been applied -/

/-- The engine, with a note of the versions whose changes have been written to its tables: by
an `INSERT INTO crsql_changes`, or by a local transaction under the version it was given. -/
def noting (engine : CrSqlite) : CrSqlite where
  Store := engine.Store × List (ActorId × Nat)
  changes store := engine.changes store.1
  dbVersions store := engine.dbVersions store.1
  siteIds store := engine.siteIds store.1
  insertChanges store rows :=
    let inserted := engine.insertChanges store.1 rows
    ((inserted.1, store.2 ++ rows.map fun row => (row.change.siteId, row.change.dbVersion)), inserted.2)
  setDbVersion store site version := (engine.setDbVersion store.1 site version, store.2)
  Write := engine.Write
  peekNextDbVersion store site := engine.peekNextDbVersion store.1 site
  write store site tx := (engine.write store.1 site tx, store.2 ++ [(site, engine.peekNextDbVersion store.1 site)])

variable {engine : CrSqlite} {node : Node (noting engine)} {actor : ActorId}

/-- The database has been given the changes of the version. -/
def Applied (db : Database (noting engine)) (actorId : ActorId) (version : Nat) :
    Prop := (actorId, version) ∈ db.crsql.2

/-! ### `collapse_gaps` -/

def gapRows (actorId : ActorId) (needed : RangeInclusiveSet) : List GapRow :=
  needed.ranges.map fun range => ⟨actorId, range.start, range.stop⟩

/-- Needed are only versions below the maximum that are not partial. -/
def NeededBelow (bv : BookedVersions) : Prop :=
  ∀ version ∈ bv.needed, 1 ≤ version ∧ version < bv.max.getD 0 ∧ bv.partials[version]? = none

/-- The outcome of a reconciliation: the gap rows are the ranges of `needed`, nothing that has been
applied became needed, and needed are only versions below the maximum that are not partial. -/
structure Reconciled (before after : Node (noting engine)) (actor : ActorId) : Prop where
  rows : ∀ row : GapRow, row.actorId = actor →
    (row ∈ after.db.tables.gaps ↔ row.range ∈ (after.bookie.ensure actor).needed.ranges)
  added : ∀ version ∈ (after.bookie.ensure actor).needed, version ∉ (before.bookie.ensure actor).needed →
    ¬ Applied before.db actor version
  below : NeededBelow (after.bookie.ensure actor)

theorem mem_gapRows {set : RangeInclusiveSet} : row ∈ gapRows actor set ↔
    row.actorId = actor ∧ row.range ∈ set.ranges := by
  constructor
  · intro listed
    obtain ⟨range, held, rfl⟩ := mem_map.mp listed
    exact ⟨rfl, held⟩
  · rintro ⟨rfl, held⟩
    exact mem_map.mpr ⟨row.range, held, rfl⟩

end Galvanize.GapReconciliation
