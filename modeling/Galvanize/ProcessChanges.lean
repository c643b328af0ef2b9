import Galvanize.BookieDb
import Galvanize.CrSqlite

/-! `corro-agent/src/agent/util.rs`: how a batch of received changes becomes
rows and bookkeeping (`process_multiple_changes`). The database is explicit
state; what SQLite may refuse along the way is an argument. -/
namespace Galvanize

structure Database (engine : CrSqlite) where
  crsql : engine.Store
  tables : BookieTables
  /-- `__corro_buffered_changes`, `PRIMARY KEY (site_id, db_version, seq)` and the columns of `crsql_changes` -/
  buffered : Table StoredChange StoredChange.key

/-- A node: its database and the bookkeeping it has published. -/
structure Node (engine : CrSqlite) where
  db : Database engine
  bookie : Bookie

/-- `KnownDbVersion`. -/
inductive KnownDbVersion where
  | partialVersion (known : PartialVersion)
  | current (dbVersion lastSeq : Nat) (ts : Timestamp)
  | cleared

/-- `ChangeError`, and the panic of an `expect`. -/
inductive ChangeError where
  | rusqlite (actorId : Option ActorId) (version : Option Nat)
  | panicked
deriving DecidableEq

/-- An error inside the savepoint of one change: it undoes the savepoint only,
or the whole transaction. -/
inductive SingleFault where
  | savepoint
  | transaction

/-- What fails in one call. -/
structure Faults where
  emptyVersion : ChangeV1 → Bool
  singleVersion : ChangeV1 → Option SingleFault
  commit : Bool

def Faults.none : Faults := ⟨fun _ => false, fun _ => .none, false⟩

section
variable {engine : CrSqlite} (faults : Faults) (db : Database engine)

/-- `process_empty_version`: only a range that ends above the maximum known when
the batch began is recorded in `crsql_db_versions`. -/
def processEmptyVersion (fails : Bool) (db : Database engine) (actorId : ActorId)
    (max : Option Nat) (versions : CrsqlDbVersionRange) : Except ChangeError (Database engine) :=
  if max.all (fun max => versions.stop > max) then
    if fails then .error (.rusqlite (some actorId) (some versions.stop))
    else .ok { db with crsql := engine.setDbVersion db.crsql actorId versions.stop }
  else .ok db

/-- `process_incomplete_version`: buffer the rows, and remember the seqs. -/
def processIncompleteVersion (parts : ChangesetParts) : Database engine × KnownDbVersion :=
  ({ db with
      buffered := (StoredChange.ofChanges parts.changes parts.ts).foldl Table.insertOrIgnore db.buffered },
    .partialVersion ⟨.ofRanges [parts.seqs], parts.lastSeq, parts.ts⟩)

/-- `process_complete_version`: apply the rows right away and keep those that
had an effect. The `Empty` of a version without effect also carries the clock,
which nobody reads. -/
def processCompleteVersion (versions : CrsqlDbVersionRange)
    (parts : ChangesetParts) : Database engine × KnownDbVersion × Changeset :=
  let (crsql, effects) := engine.insertChanges db.crsql (StoredChange.ofChanges parts.changes parts.ts)
  let impactful := (parts.changes.zip effects).filterMap (fun (change, effect) =>
    if effect then some change else none)
  let db := { db with crsql }
  if impactful.isEmpty then (db, .cleared, .empty versions none)
  else (db, .current parts.version parts.lastSeq parts.ts,
    .full parts.version impactful parts.seqs parts.lastSeq parts.ts)

/-- `process_single_version`; a changeset without parts panics. -/
def processSingleVersion (change : ChangeV1) :
    Option (Database engine × KnownDbVersion × Changeset) :=
  change.changeset.intoParts.map (fun parts =>
    if change.isComplete then processCompleteVersion db change.versions parts
    else
      let (db, known) := processIncompleteVersion db parts
      (db, known, .full parts.version parts.changes parts.seqs parts.lastSeq parts.ts))

/-- `RangeInclusiveMap`, the latest insert first: it wins where ranges overlap. -/
abbrev Seen := List (CrsqlDbVersionRange × Option PartialVersion)

def Seen.get (seen : Seen) (version : Nat) : Option (Option PartialVersion) :=
  (seen.find? (fun entry => decide (version ∈ entry.1))).map Prod.snd

/-- A change of which every version has been handled in this batch. -/
def Seen.covers (seen : Seen) (change : ChangeV1) : Bool :=
  change.versions.toList.all (fun version =>
    match change.seqs with
    | some checkSeqs =>
      match seen.get version with
      | some (some known) => checkSeqs.toList.all (fun seq => decide (seq ∈ known.seqs))
      | some none => true
      | none => false
    | none => (seen.get version).isSome)

/-- The loop over the changes of one actor. -/
structure ActorLoop (engine : CrSqlite) where
  db : Database engine
  seen : Seen
  processed : List BookedVersions.Processed
  /-- What subscriptions are told afterwards. -/
  changesets : List (ActorId × Changeset × Nat)

/-- `seen.insert` and `processed.push`. -/
def ActorLoop.push (self : ActorLoop engine) (db : Database engine)
    (versions : CrsqlDbVersionRange) (known : Option PartialVersion)
    (changesets : List (ActorId × Changeset × Nat)) : ActorLoop engine :=
  { db, seen := (versions, known) :: self.seen
    processed := self.processed ++ [(versions, known)]
    changesets := self.changesets ++ changesets }

/-- One change of one actor. -/
def handleChange (bv : BookedVersions) (state : ActorLoop engine)
    (change : ChangeV1) : Except ChangeError (ActorLoop engine) :=
  if bv.containsAll change.versions change.seqs then .ok state
  else if state.seen.covers change then .ok state
  else if change.isComplete && change.isEmpty then
    match processEmptyVersion (faults.emptyVersion change) state.db change.actorId bv.last
        change.versions with
    | .error e => .error e
    | .ok db => .ok (state.push db change.versions none [])
  else if change.seqs.any (fun seqs => seqs.stop < seqs.start) then .ok state
  else
    match faults.singleVersion change with
    | some .transaction => .error (.rusqlite none none)
    | some .savepoint => .ok state
    | none =>
      match processSingleVersion state.db change with
      | none => .error .panicked
      | some (db, .partialVersion known, _) => .ok (state.push db change.versions (some known) [])
      | some (db, .current dbVersion _ _, changeset) =>
        .ok (state.push db change.versions none [(change.actorId, changeset, dbVersion)])
      | some (db, .cleared, _) => .ok (state.push db change.versions none [])

/-- The loop over the actors of a batch. -/
structure BatchLoop (engine : CrSqlite) where
  db : Database engine
  processed : Map ActorId (List BookedVersions.Processed)
  changesets : List (ActorId × Changeset × Nat)

def handleActor (bookie : Bookie) (state : BatchLoop engine)
    (entry : ActorId × List ChangeV1) : Except ChangeError (BatchLoop engine) :=
  match entry.2.foldlM (handleChange faults (bookie.ensure entry.1))
      ⟨state.db, [], [], state.changesets⟩ with
  | .error e => .error e
  | .ok after => .ok
    { db := after.db
      processed := if after.processed.isEmpty then state.processed
        else state.processed.insert entry.1 after.processed
      changesets := after.changesets }

/-- The changes a batch has to look at: no repetitions, nothing known. -/
structure Gathered where
  seen : List (ActorId × CrsqlDbVersionRange × Option CrsqlSeqRange)
  bookie : Bookie
  unknown : Map ActorId (List ChangeV1)

def gather (state : Gathered) (change : ChangeV1) : Gathered :=
  let id := (change.actorId, change.versions, change.seqs)
  if id ∈ state.seen then state
  else
    let bookie : Bookie := state.bookie.insertIfNew change.actorId (.new change.actorId)
    if (bookie.ensure change.actorId).containsAll change.versions change.seqs then
      { state with seen := id :: state.seen, bookie }
    else
      { seen := id :: state.seen, bookie
        unknown := state.unknown.alter change.actorId (fun held => some (held.getD [] ++ [change])) }

def gatherAll (bookie : Bookie) (changes : List ChangeV1) : Gathered := changes.foldl gather ⟨[], bookie, ∅⟩

/-- What a committed batch announces. -/
structure Outcome where
  changesets : List (ActorId × Changeset × Nat)
  completedVersions : List (ActorId × List Nat × List Nat)

/-- The write transaction: rows first, then every actor's bookkeeping. -/
def writeBatch (node : Node engine) (unknown : Map ActorId (List ChangeV1)) :
    Except ChangeError (Node engine × Outcome) :=
  match unknown.toList.foldlM (handleActor faults node.bookie) ⟨node.db, ∅, []⟩ with
  | .error e => .error e
  | .ok state =>
    let applied := node.bookie.computeAndApplyAll state.processed
    match (BookieDbParams.fromChanges applied.allChanges).execute state.db.tables with
    | (.error _, _) => .error (.rusqlite none none)
    | (.ok tables, _) =>
      if faults.commit then .error (.rusqlite none none)
      else .ok (⟨{ state.db with tables }, applied.bookie⟩, ⟨state.changesets, applied.completedVersions⟩)

/-- `process_multiple_changes`. On an error the transaction is rolled back and
nothing is published; the empty entries of `ensure` stay. -/
def processMultipleChanges (node : Node engine) (changes : List ChangeV1) :
    Node engine × Except ChangeError Outcome :=
  let gathered := gatherAll node.bookie changes
  let node := { node with bookie := gathered.bookie }
  if gathered.unknown.isEmpty then (node, .ok ⟨[], []⟩)
  else
    match writeBatch faults node gathered.unknown with
    | .error e => (node, .error e)
    | .ok (after, outcome) => (after, .ok outcome)

end

end Galvanize
