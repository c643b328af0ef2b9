import Galvanize.Bookie
import Galvanize.Table

/-! The tables behind the bookkeeping: how the changes computed for a batch are
written (`BookieDbParams`), and how the bookkeeping of an actor is read back
(`from_conn`, `load_all_from_conn`). -/
namespace Galvanize

/-- A row of `__corro_bookkeeping_gaps`, `PRIMARY KEY (actor_id, start)`. -/
structure GapRow where
  actorId : ActorId
  start : Nat
  stop : Nat
deriving DecidableEq

/-- A row of `__corro_seq_bookkeeping`, `PRIMARY KEY (site_id, db_version, start_seq)`. -/
structure SeqRow where
  siteId : ActorId
  dbVersion : Nat
  startSeq : Nat
  endSeq : Nat
  lastSeq : Nat
  ts : Timestamp
deriving DecidableEq

namespace GapRow

def key (row : GapRow) : ActorId × Nat := (row.actorId, row.start)

def range (row : GapRow) : RangeInclusive := ⟨row.start, row.stop⟩

end GapRow

namespace SeqRow

def key (row : SeqRow) : ActorId × Nat × Nat := (row.siteId, row.dbVersion, row.startSeq)

def version (row : SeqRow) : ActorId × Nat := (row.siteId, row.dbVersion)

def tuple (row : SeqRow) : ActorId × Nat × Nat × Nat := (row.siteId, row.dbVersion, row.startSeq, row.endSeq)

def range (row : SeqRow) : RangeInclusive := ⟨row.startSeq, row.endSeq⟩

end SeqRow

structure BookieTables where
  /-- `__corro_bookkeeping_gaps` -/
  gaps : Table GapRow GapRow.key
  /-- `__corro_seq_bookkeeping` -/
  seqs : Table SeqRow SeqRow.key

instance : EmptyCollection BookieTables := ⟨⟨∅, ∅⟩⟩

@[simp] theorem BookieTables.gaps_empty : (∅ : BookieTables).gaps = ∅ := rfl

@[simp] theorem BookieTables.seqs_empty : (∅ : BookieTables).seqs = ∅ := rfl

/-- The only failure of these statements: a primary key is taken. -/
inductive SqliteError where
  | constraintViolation
deriving DecidableEq

/-- The branches marked `assert_unreachable!` in `execute`. -/
inductive Unreachable where
  | deletionOfGaps
  | insertionOfGaps
  | deletionOfPartialSeqs
  | insertionOfPartialSeqs
deriving DecidableEq

/-- `BookieDbParams`: the rows of one transaction, of all its actors. Each list
reaches its statement as parallel `unnest` columns, which zip back to the list. -/
structure BookieDbParams where
  gapDeletes : List GapRow
  gapInserts : List GapRow
  completeVersionDeletes : List (ActorId × Nat)
  partialsDeletes : List (ActorId × Nat × Nat × Nat)
  partialInserts : List SeqRow

namespace ComputedPartialSeqChange

def deletes (self : ComputedPartialSeqChange) (actorId : ActorId) : List (ActorId × Nat × Nat × Nat) :=
  self.changes.removeSeqs.ranges.map (fun r => (actorId, self.version, r.start, r.stop))

def inserts (self : ComputedPartialSeqChange) (actorId : ActorId) : List SeqRow :=
  self.changes.insertSeqs.ranges.map (fun r =>
    ⟨actorId, self.version, r.start, r.stop, self.lastSeq, self.ts⟩)

end ComputedPartialSeqChange

namespace BookieDbParams

/-- `from_changes`. -/
def fromChanges (allChanges : List ComputedChanges) : BookieDbParams where
  gapDeletes := allChanges.flatMap (fun c =>
    c.gaps.removeRanges.map (fun r => ⟨c.actorId, r.start, r.stop⟩))
  gapInserts := allChanges.flatMap (fun c =>
    c.gaps.insertSet.ranges.map (fun r => ⟨c.actorId, r.start, r.stop⟩))
  completeVersionDeletes := allChanges.flatMap (fun c =>
    c.clearVersions.map (fun v => (c.actorId, v)))
  partialsDeletes := allChanges.flatMap (fun c =>
    c.partialSeqChanges.flatMap (fun psc => psc.deletes c.actorId))
  partialInserts := allChanges.flatMap (fun c =>
    c.partialSeqChanges.flatMap (fun psc => psc.inserts c.actorId))

/-- The condition `from_changes` asserts: "insert_seqs should not be empty". -/
def insertSeqsNonempty (allChanges : List ComputedChanges) : Bool :=
  allChanges.all (fun c => c.partialSeqChanges.all (fun psc => !psc.changes.insertSeqs.isEmpty))

variable (self : BookieDbParams) (tables : BookieTables)

/-- `DELETE FROM __corro_bookkeeping_gaps WHERE (actor_id, start, end) IN …`.
The source skips a statement whose list is empty; it would change nothing. -/
def deleteGaps : BookieTables × List Unreachable :=
  let listed := fun row => decide (row ∈ self.gapDeletes)
  let count := tables.gaps.deleted listed
  ({ tables with gaps := tables.gaps.delete listed },
    if count ≠ self.gapDeletes.length then [.deletionOfGaps] else [])

/-- `INSERT INTO __corro_bookkeeping_gaps (actor_id, start, end) SELECT …`. -/
def insertGaps : Except SqliteError (BookieTables × List Unreachable) :=
  match tables.gaps.insertAll self.gapInserts with
  | none => .error .constraintViolation
  | some gaps =>
    let count := gaps.rows.length - tables.gaps.rows.length
    .ok ({ tables with gaps },
      if count ≠ self.gapInserts.length then [.insertionOfGaps] else [])

/-- `DELETE FROM __corro_seq_bookkeeping WHERE (site_id, db_version) IN …`,
whose count nobody looks at. -/
def deleteCompleteVersions : BookieTables :=
  { tables with
    seqs := tables.seqs.delete (fun row => decide (row.version ∈ self.completeVersionDeletes)) }

/-- `DELETE FROM __corro_seq_bookkeeping WHERE (site_id, db_version, start_seq, end_seq) IN …`. -/
def deletePartials : BookieTables × List Unreachable :=
  let listed := fun (row : SeqRow) => decide (row.tuple ∈ self.partialsDeletes)
  let count := tables.seqs.deleted listed
  ({ tables with seqs := tables.seqs.delete listed },
    if count ≠ self.partialsDeletes.length then [.deletionOfPartialSeqs] else [])

/-- `INSERT INTO __corro_seq_bookkeeping … SELECT …`. -/
def insertPartials : Except SqliteError BookieTables :=
  match tables.seqs.insertAll self.partialInserts with
  | none => .error .constraintViolation
  | some seqs => .ok { tables with seqs }

/-- `execute`: the result, and the reports of unreachable branches that were
reached on the way. -/
def execute : Except SqliteError BookieTables × List Unreachable :=
  let (tables, deletion) := self.deleteGaps tables
  match self.insertGaps tables with
  | .error e => (.error e, deletion)
  | .ok (tables, insertion) =>
    let tables := self.deleteCompleteVersions tables
    let (tables, partialDeletion) := self.deletePartials tables
    match self.insertPartials tables with
    | .error e =>
      (.error e, deletion ++ insertion ++ partialDeletion ++ [.insertionOfPartialSeqs])
    | .ok tables => (.ok tables, deletion ++ insertion ++ partialDeletion)

end BookieDbParams

/-- The in-memory bookkeeping of every known actor. -/
abbrev Bookie := Map ActorId BookedVersions

namespace Bookie

/-- `Bookie::ensure`: an unknown actor starts with empty bookkeeping. -/
def ensure (self : Bookie) (actorId : ActorId) : BookedVersions := self[actorId]?.getD (.new actorId)

@[simp] theorem ensure_empty (actorId : ActorId) : ensure ∅ actorId = .new actorId := by
  simp [ensure]

/-- What the loop over the processed actors of a transaction builds up. -/
structure Applied where
  bookie : Bookie
  allChanges : List ComputedChanges
  /-- Per actor, the partial versions that became complete and those cleared. -/
  completedVersions : List (ActorId × List Nat × List Nat)

def applyStep (state : Applied) (entry : ActorId × List BookedVersions.Processed) : Applied :=
  let (bv, changes, completed) := (state.bookie.ensure entry.1).computeAndApply entry.2
  { bookie := state.bookie.insert entry.1 bv
    allChanges := state.allChanges ++ [changes]
    completedVersions := state.completedVersions ++ [(entry.1, completed, changes.clearVersions)] }

/-- Every actor's `compute_and_apply`, before any row is written. -/
def computeAndApplyAll (self : Bookie) (processed : Map ActorId (List BookedVersions.Processed)) : Applied :=
  processed.toList.foldl applyStep ⟨self, [], []⟩

end Bookie

namespace BookedVersions

/-- A row of `__corro_seq_bookkeeping` enters through the usual insert logic. -/
def loadSeqRow (self : BookedVersions) (row : SeqRow) : BookedVersions :=
  (self.insertPartial row.dbVersion ⟨.ofRanges [row.range], row.lastSeq, row.ts⟩).1

def loadGapRow (self : BookedVersions) (row : GapRow) : BookedVersions :=
  { self with needed := self.needed.insert row.range }

/-- `from_conn`. `dbVersions` is `crsql_db_versions`. -/
def fromConn (tables : BookieTables) (dbVersions : Map ActorId Nat) (actorId : ActorId) : BookedVersions :=
  let bv := { new actorId with max := dbVersions[actorId]? }
  let bv := (tables.seqs.select (fun row => row.siteId = actorId)).foldl loadSeqRow bv
  (tables.gaps.select (fun row => row.actorId = actorId)).foldl loadGapRow bv

/-- Update the entry of an actor that `load_all_from_conn` has listed. -/
def adjust (map : Map ActorId BookedVersions) (actorId : ActorId)
    (change : BookedVersions → BookedVersions) : Map ActorId BookedVersions :=
  map.alter actorId (Option.map change)

/-- `load_all_from_conn`. `siteIds` is `crsql_site_id`; an actor that only
`crsql_db_versions` knows gets no entry. -/
def loadAllFromConn (tables : BookieTables) (dbVersions : Map ActorId Nat) (siteIds : List ActorId) : Bookie :=
  let known := siteIds ++ tables.seqs.rows.map SeqRow.siteId ++ tables.gaps.rows.map GapRow.actorId
  let map : Map ActorId BookedVersions :=
    known.foldl (fun map actorId => map.insertIfNew actorId (new actorId)) ∅
  let map := dbVersions.toList.foldl
    (fun map (actorId, dbVersion) => adjust map actorId (fun bv => { bv with max := some dbVersion })) map
  let map := tables.seqs.rows.foldl
    (fun map row => adjust map row.siteId (fun bv => bv.loadSeqRow row)) map
  tables.gaps.rows.foldl (fun map row => adjust map row.actorId (fun bv => bv.loadGapRow row)) map

end BookedVersions

end Galvanize
