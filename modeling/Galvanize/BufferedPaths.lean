import Galvanize.LowCapture
import Galvanize.NodeSteps

/-! The two ways in which the buffered changes of a version are applied
(`corro-agent/src/agent/util.rs`): in one transaction, and in one for each window
of seqs, which an administrator asks for. -/
namespace Galvanize.BufferedPaths
open HighLow

/-! ### Those who are told of changes -/

/-- `MatchCandidates`: for each table the changed keys with their causal length. -/
abbrev MatchCandidates := IndexMap String (IndexMap (List UInt8) Int)

/-- The key is among the candidates of the table. -/
def MatchCandidates.hasKey (candidates : MatchCandidates) (table : String) (pk : List UInt8) : Bool :=
  ((candidates.get? table).map fun pks => pks.containsKey pk).getD false

def isCrsqlSentinel (column : String) : Bool := column = "-1"

/-- What a subscription was parsed to: the columns that its statement depends on. -/
structure ParsedSelect where
  tableColumns : IndexMap String (List String)

/-- `filter_matchable_change` of a subscription: the candidates after, and whether
the change is new among them. -/
def ParsedSelect.filterMatchableChange (parsed : ParsedSelect) (candidates : MatchCandidates)
    (change : MatchableChange) : MatchCandidates × Bool :=
  if candidates.hasKey change.table change.pk then (candidates, false)
  else if !((parsed.tableColumns.get? change.table).map fun cols =>
      isCrsqlSentinel change.column || decide (change.column ∈ cols)).getD false then (candidates, false)
  else
    (candidates.upsert change.table fun held =>
      (held.getD ∅).upsert change.pk fun _ => change.cl, true)

/-- A handle of the subscriptions, or of the updates of a table. -/
inductive Handle where
  | subscription (parsed : ParsedSelect)
  | updates (name : String)

/-- `filter_matchable_change` of either kind. -/
def Handle.filterMatchableChange : Handle → MatchCandidates → MatchableChange → MatchCandidates
  | .subscription parsed, candidates, change => (parsed.filterMatchableChange candidates change).1
  | .updates name, candidates, change =>
    if change.table ≠ name || candidates.hasKey change.table change.pk then candidates
    else candidates.upsert change.table fun held => (held.getD ∅).upsert change.pk fun _ => change.cl

def Handle.candidates (handle : Handle) (changes : List Change) : MatchCandidates :=
  changes.foldl (fun candidates change =>
    handle.filterMatchableChange candidates ⟨change.table, change.pk, change.cid, change.cl⟩) ∅

/-- `match_changes_from_db_version`: what is sent to each of the handles. -/
def matchChanges (handles : List (Nat × Handle)) (changes : List Change) : List (Nat × MatchCandidates) :=
  handles.map fun entry => (entry.1, entry.2.candidates changes)

/-! ### The node -/

/-- The configuration, and who listens. -/
structure Env where
  codec : Codec
  /-- The Low side of an enabled link. -/
  low : Option LowConfig
  subs : List (Nat × Handle)
  updates : List (Nat × Handle)
  nowMs : Int

structure State (engine : CrSqlite) where
  node : Node engine
  /-- `__galv_highlow_events` -/
  journal : List JournalRow
  /-- What `tx_clear_buf` was given. -/
  clearBuf : List (ActorId × Nat)
  /-- The candidates that were sent to handles. -/
  notices : List (Nat × MatchCandidates)

section
variable {engine : CrSqlite} (env : Env) (actorId : ActorId) (version : Nat)

/-- The changes of the version in `crsql_changes`. -/
def versionChanges (crsql : engine.Store) : List Change :=
  (bySeq (versionRows (engine.changes crsql) actorId version)).map StoredChange.change

/-- `capture_highlow_events_for_actor` where nothing fails. -/
def capture (crsql : engine.Store) (journal : List JournalRow) : List JournalRow :=
  match env.low with
  | none => journal
  | some low =>
    (captureEvents env.codec low ⟨false, false, false, fun _ => false⟩
      ⟨actorId, version, versionChanges actorId version crsql, env.nowMs⟩ journal).1

/-- `insert_db`, then `clear_partials`. -/
def finishVersion (node : Node engine) : Except SqliteError (BookedVersions × BookieTables) := do
  let inserted ← (node.bookie.ensure actorId).insertDb node.db.tables (.ofRanges [.single version])
  inserted.1.clearPartials inserted.2 (.ofRanges [.single version])

/-- `bookie.ensure`. -/
def ensureActor (node : Node engine) : Node engine :=
  { node with bookie := node.bookie.insertIfNew actorId (.new actorId) }

/-! ### One transaction -/

/-- `process_fully_buffered_changes`. -/
def processFullyBufferedChanges (state : State engine) : Except SqliteError Bool × State engine :=
  let node := ensureActor actorId state.node
  match (node.bookie.ensure actorId).partials[version]? with
  | none => (.ok false, { state with node })
  | some held =>
    if !held.isComplete then (.ok false, { state with node })
    else
      let rows := bySeq (versionRows node.db.buffered.rows actorId version)
      let inserted := if rows.isEmpty then (node.db.crsql, []) else engine.insertChanges node.db.crsql rows
      let journal := if rows.isEmpty then state.journal else capture env actorId version inserted.1 state.journal
      match finishVersion actorId version node with
      | .error error => (.error error, { state with node })
      | .ok (booked, tables) =>
        let changes := versionChanges actorId version inserted.1
        let impacted := inserted.2.any id
        (.ok impacted,
          { node := ⟨{ node.db with crsql := inserted.1, tables }, node.bookie.insert actorId booked⟩
            journal := journal
            clearBuf := state.clearBuf ++ [(actorId, version)]
            notices := state.notices ++
              if impacted then matchChanges env.subs changes ++ matchChanges env.updates changes else [] })

/-! ### Windows -/

/-- `insert_buffered_range`: the store after it, and the rows impacted. -/
def insertBufferedRange (db : Database engine) (first last : Nat) : engine.Store × Nat :=
  let rows := (versionRows db.buffered.rows actorId version).filter fun row =>
    first ≤ row.change.seq && row.change.seq ≤ last
  let inserted := engine.insertChanges db.crsql (bySeq rows)
  (inserted.1, inserted.2.countP id)

/-- The loop of `apply_buffered_version_in_chunks`, one transaction a turn; nothing
is returned for a loop that has not ended. The sum saturates above `last_seq`, and
so does not show. -/
def applyChunks (chunkSize lastSeq : Nat) : Nat → Nat → Nat → Node engine →
    Option (Except SqliteError Nat × Node engine)
  | 0, _, _, _ => none
  | fuel + 1, chunkStart, total, node =>
    let chunkEnd := min (chunkStart + (chunkSize - 1)) lastSeq
    let inserted := insertBufferedRange actorId version node.db chunkStart chunkEnd
    if chunkEnd = lastSeq then
      match finishVersion actorId version node with
      | .error error => some (.error error, node)
      | .ok (booked, tables) =>
        some (.ok (total + inserted.2),
          ⟨{ node.db with crsql := inserted.1, tables }, node.bookie.insert actorId booked⟩)
    else
      applyChunks chunkSize lastSeq fuel (chunkEnd + 1) (total + inserted.2)
        { node with db := { node.db with crsql := inserted.1 } }

/-- `apply_buffered_version_in_chunks`: nothing is applied of a version that is not
known, or has gaps. -/
def applyBufferedVersionInChunks (chunkSize : Nat) (state : State engine) :
    Option (Except SqliteError (Option Nat) × State engine) :=
  let node := ensureActor actorId state.node
  match (node.bookie.ensure actorId).partials[version]? with
  | none => some (.ok none, { state with node })
  | some held =>
    if !held.isComplete then some (.ok none, { state with node })
    else
      (applyChunks actorId version (max chunkSize 1) held.lastSeq (held.lastSeq + 1) 0 0 node).map fun result =>
        match result with
        | (.error error, node) => (.error error, { state with node })
        | (.ok total, node) =>
          (.ok (some total), { state with node, clearBuf := state.clearBuf ++ [(actorId, version)] })

end
end Galvanize.BufferedPaths
