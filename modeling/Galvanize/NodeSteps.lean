import Galvanize.ProcessChanges

/-! The other transactions a node runs: a local write (`insert_local_changes`),
a version whose chunks have all arrived (`process_fully_buffered_changes`), the
removal of buffered rows (`clear_buffered_meta_loop`) and a restart (`setup`).
Together with received batches they are the steps of a node. -/
namespace Galvanize
open List

namespace BookedVersions

/-- Write the changes computed for this actor. -/
def executeChanges (self : BookedVersions) (changes : ComputedChanges) (tables : BookieTables) :
    Except SqliteError (BookedVersions × BookieTables) :=
  match (BookieDbParams.fromChanges [changes]).execute tables with
  | (.error e, _) => .error e
  | (.ok tables, _) => .ok (self, tables)

/-- `insert_db`: compute, apply in memory and write the gaps of one actor. -/
def insertDb (self : BookedVersions) (tables : BookieTables) (dbVersions : RangeInclusiveSet) :
    Except SqliteError (BookedVersions × BookieTables) :=
  let (bv, gaps) := self.computeAndApplyGaps dbVersions
  bv.executeChanges ⟨self.actorId, gaps, [], []⟩ tables

/-- `clear_partials`. -/
def clearPartials (self : BookedVersions) (tables : BookieTables) (versions : RangeInclusiveSet) :
    Except SqliteError (BookedVersions × BookieTables) :=
  let (bv, clearVersions) := self.computeAndApplyClearPartials versions
  bv.executeChanges ⟨self.actorId, ⟨none, ∅, []⟩, clearVersions, []⟩ tables

end BookedVersions

/-- `MAX(ts)`: the column is text, so decimal numerals are compared as strings. -/
def maxTs (timestamps : List Timestamp) : Option Timestamp :=
  timestamps.foldl (fun held ts =>
    match held with
    | none => some ts
    | some best => if Nat.toDigits 10 best < Nat.toDigits 10 ts then some ts else some best) none

/-- `SELECT MAX(seq), MAX(ts)` over rows. -/
def versionInfo (rows : List StoredChange) : Option Nat × Option Timestamp :=
  ((rows.map (fun row => row.change.seq)).max?, maxTs (rows.map StoredChange.ts))

/-- The rows of one version. -/
def versionRows (rows : List StoredChange) (actorId : ActorId) (version : Nat) : List StoredChange :=
  rows.filter (fun row => row.change.siteId = actorId ∧ row.change.dbVersion = version)

/-- `ORDER BY seq`. -/
def bySeq (rows : List StoredChange) : List StoredChange := rows.insertionSort (fun a b => a.change.seq ≤ b.change.seq)

section
variable {rows : List StoredChange} {row : StoredChange} {actorId : ActorId} {version last : Nat}

theorem mem_versionRows : row ∈ versionRows rows actorId version ↔
    row ∈ rows ∧ row.change.siteId = actorId ∧ row.change.dbVersion = version := by
  simp [versionRows]

@[simp] theorem mem_bySeq : row ∈ bySeq rows ↔ row ∈ rows := by
  simp [bySeq, mem_insertionSort]

theorem maxTs_isSome {timestamps : List Timestamp} (some_ : timestamps ≠ []) : (maxTs timestamps).isSome := by
  induction timestamps using reverseRecOn with
  | nil => exact absurd rfl some_
  | append_singleton _ ts ih =>
    simp only [maxTs, foldl_append, foldl_cons, foldl_nil]
    split
    · rfl
    · split <;> rfl

theorem versionInfo_some (some_ : rows ≠ []) : ∃ last ts, versionInfo rows = (some last, some ts) := by
  cases isLast : (rows.map (fun row => row.change.seq)).max? with
  | none => exact absurd (by simpa using max?_eq_none_iff.mp isLast) some_
  | some last =>
    obtain ⟨ts, isTs⟩ := Option.isSome_iff_exists.mp (@maxTs_isSome (rows.map StoredChange.ts) (by simpa using some_))
    exact ⟨last, ts, by rw [versionInfo, isLast, isTs]⟩

/-- `MAX(seq)` is the seq of a row, and no row is above it. -/
theorem versionInfo_last (is : (versionInfo rows).1 = some last) :
    (∃ row ∈ rows, row.change.seq = last) ∧ ∀ row ∈ rows, row.change.seq ≤ last := by
  obtain ⟨member, bound⟩ := max?_eq_some_iff.mp is
  obtain ⟨row, listed, same⟩ := mem_map.mp member
  exact ⟨⟨row, listed, same⟩, fun other held => bound _ (mem_map.mpr ⟨other, held, rfl⟩)⟩

end

structure InsertChangesInfo where
  dbVersion : Nat
  lastSeq : Nat
  ts : Timestamp
deriving DecidableEq

section
variable {engine : CrSqlite}

/-- `make_broadcastable_changes` around `insert_local_changes`: a transaction that
leaves no row under its version is committed without bookkeeping. -/
def insertLocalChanges (fails : Bool) (self : ActorId) (node : Node engine) (tx : engine.Write) :
    Node engine × Except ChangeError (Option InsertChangesInfo) :=
  let dbVersion := engine.peekNextDbVersion node.db.crsql self
  let crsql := engine.write node.db.crsql self tx
  if fails then (node, .error (.rusqlite (some self) none))
  else
    match versionInfo (versionRows (engine.changes crsql) self dbVersion) with
    | (some lastSeq, some ts) =>
      match (node.bookie.ensure self).insertDb node.db.tables (.ofRanges [.single dbVersion]) with
      | .error _ => (node, .error (.rusqlite (some self) (some dbVersion)))
      | .ok (bv, tables) =>
        (⟨{ node.db with crsql, tables }, node.bookie.insert self bv⟩, .ok (some ⟨dbVersion, lastSeq, ts⟩))
    | _ => ({ node with db := { node.db with crsql } }, .ok none)

/-- `process_fully_buffered_changes`: whether rows were impacted. -/
def processFullyBufferedChanges (fails : Bool) (node : Node engine) (actorId : ActorId) (version : Nat) :
    Node engine × Except ChangeError Bool :=
  let node := { node with bookie := node.bookie.insertIfNew actorId (.new actorId) }
  match (node.bookie.ensure actorId).partials[version]? with
  | none => (node, .ok false)
  | some held =>
    if !held.isComplete then (node, .ok false)
    else if fails then (node, .error (.rusqlite (some actorId) (some version)))
    else
      let rows := bySeq (versionRows node.db.buffered.rows actorId version)
      let (crsql, effects) :=
        if rows.isEmpty then (node.db.crsql, []) else engine.insertChanges node.db.crsql rows
      let versions : RangeInclusiveSet := .ofRanges [.single version]
      let written := do
        let (bv, tables) ← (node.bookie.ensure actorId).insertDb node.db.tables versions
        bv.clearPartials tables versions
      match written with
      | .error _ => (node, .error (.rusqlite (some actorId) (some version)))
      | .ok (bv, tables) =>
        (⟨{ node.db with crsql, tables }, node.bookie.insert actorId bv⟩, .ok (effects.any id))

/-- One transaction of `clear_buffered_meta_loop`; its `LIMIT` picks some of the rows. -/
def clearBufferedMeta (picked : StoredChange → Bool) (node : Node engine) (actorId : ActorId)
    (versions : CrsqlDbVersionRange) : Node engine :=
  { node with db := { node.db with buffered := node.db.buffered.delete (fun row =>
      row.change.siteId = actorId ∧ row.change.dbVersion ∈ versions ∧ picked row) } }

/-- A restart: the bookkeeping is read back. -/
def restart (node : Node engine) : Node engine :=
  { node with bookie := BookedVersions.loadAllFromConn node.db.tables (engine.dbVersions node.db.crsql)
                (engine.siteIds node.db.crsql) }

end

/-- A step of a node, with what fails in it. -/
inductive NodeStep (engine : CrSqlite) where
  | changes (faults : Faults) (changes : List ChangeV1)
  | write (fails : Bool) (tx : engine.Write)
  | fullyBuffered (fails : Bool) (actorId : ActorId) (version : Nat)
  | clearBuffered (picked : StoredChange → Bool) (actorId : ActorId) (versions : CrsqlDbVersionRange)
  | restart

namespace Node
variable {engine : CrSqlite}

def step (self : ActorId) (node : Node engine) : NodeStep engine → Node engine
  | .changes faults changes => (processMultipleChanges faults node changes).1
  | .write fails tx => (insertLocalChanges fails self node tx).1
  | .fullyBuffered fails actorId version => (processFullyBufferedChanges fails node actorId version).1
  | .clearBuffered picked actorId versions => clearBufferedMeta picked node actorId versions
  | .restart => Galvanize.restart node

/-- A node that starts with an empty database on this store. -/
def fresh (store : engine.Store) : Node engine := ⟨⟨store, ∅, ∅⟩, ∅⟩

def run (self : ActorId) (node : Node engine) (steps : List (NodeStep engine)) : Node engine :=
  steps.foldl (step self) node

end Node

end Galvanize
