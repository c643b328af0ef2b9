import Galvanize.HandleNeed

/-! Several nodes and what they send each other: a committed local transaction is
broadcast (`broadcast_changes`), the needs a node works out are answered from
whatever a server has left, and each node takes in any of the changesets that
were sent, in any order and any number of times. -/
namespace Galvanize

/-- The loop of `broadcast_changes`; `fuel` bounds its turns as in `sendLoop`. -/
def broadcastLoop (actorId : ActorId) (info : InsertChangesInfo) : (fuel : Nat) → ChunkedChanges → List ChangeV1
  | 0, _ => []
  | fuel + 1, chunked =>
    match chunked.next with
    | (some (.ok (changes, seqs)), chunked) =>
      ⟨actorId, .fullV2 actorId info.dbVersion changes info.lastSeq seqs info.ts⟩ ::
        broadcastLoop actorId info fuel chunked
    -- a row error is logged and ends the broadcast
    | (some (.error _), _) => []
    | (none, _) => []

section
variable {engine : CrSqlite}

/-- `broadcast_changes`: the rows a transaction left, read some time after it was committed.
A row may be `unreadable`. -/
def broadcastChanges (self : ActorId) (node : Node engine) (info : InsertChangesInfo)
    (unreadable : Option Nat) : List ChangeV1 :=
  let rows := (bySeq (node.db.storedRows self info.dbVersion)).map StoredChange.change
  let iter := match unreadable with
    | none => rows.map .ok
    | some row => (rows.take row).map .ok ++ [.error .unreadable]
  broadcastLoop self info (iter.length + 2) (.new iter 0 info.lastSeq maxChangesByteSize)

end

structure Cluster (engine : CrSqlite) where
  nodes : ActorId → Node engine
  /-- The transactions committed so far, with what `insert_local_changes` said of each. -/
  committed : List (ActorId × InsertChangesInfo)
  /-- The needs nodes have worked out so far. -/
  requested : List (ActorId × SyncNeedV1)
  /-- Every changeset sent so far. -/
  sent : List ChangeV1

inductive ClusterStep (engine : CrSqlite) where
  /-- a step of one node; received changes are some that were sent -/
  | node (site : ActorId) (step : NodeStep engine)
  /-- the broadcast of a committed transaction -/
  | broadcast (site : ActorId) (info : InsertChangesInfo) (unreadable : Option Nat)
  /-- a node works out what it needs of a peer that told it this -/
  | ask (site : ActorId) (theirs : SyncStateV1)
  /-- the answer of a server to a need for this actor's versions -/
  | serve (site : ActorId) (env : ServeEnv) (actorId : ActorId) (need : SyncNeedV1)

namespace Cluster
variable {engine : CrSqlite} (self : Cluster engine)

def fresh (stores : ActorId → engine.Store) : Cluster engine := ⟨fun site => .fresh (stores site), [], [], []⟩

/-- Whether the need is a part of one that was worked out. The seqs of a `Partial` need are sent
in parts; a `Full` need is cut into other ranges before it is sent, here into any. -/
def asked (actorId : ActorId) : SyncNeedV1 → Bool
  | .partialVersion version seqs => self.requested.any (fun request =>
      match request with
      | (actor, .partialVersion own more) => actor = actorId && own = version && seqs.all (fun r => decide (r ∈ more))
      | _ => false)
  | _ => true

/-- Only what was sent arrives, only what was committed is broadcast, and only what was worked
out is asked for. -/
def possible : ClusterStep engine → Bool
  | .node _ (.changes _ changes) => changes.all (fun change => decide (change ∈ self.sent))
  | .node _ _ => true
  | .broadcast site info _ => decide ((site, info) ∈ self.committed)
  | .ask _ _ => true
  | .serve _ _ actorId need => self.asked actorId need

/-- The transaction a step commits. -/
def commits (site : ActorId) : NodeStep engine → List (ActorId × InsertChangesInfo)
  | .write fails tx =>
    match (insertLocalChanges fails site (self.nodes site) tx).2 with
    | .ok (some info) => [(site, info)]
    | _ => []
  | _ => []

/-- The needs of `compute_available_needs`, with their actors. -/
def needs (site : ActorId) (theirs : SyncStateV1) : List (ActorId × SyncNeedV1) :=
  match (generateSync (self.nodes site).bookie site).computeAvailableNeeds theirs with
  | .error _ => []
  | .ok needs => needs.toList.flatMap (fun entry => entry.2.map (entry.1, ·))

def effect : ClusterStep engine → Cluster engine
  | .node site step =>
    { self with
      nodes := fun other => if other = site then (self.nodes site).step site step else self.nodes other
      committed := self.commits site step ++ self.committed }
  | .broadcast site info unreadable =>
    { self with sent := broadcastChanges site (self.nodes site) info unreadable ++ self.sent }
  | .ask site theirs => { self with requested := self.needs site theirs ++ self.requested }
  | .serve site env actorId need =>
    { self with sent := answerNeed env (self.nodes site) actorId need ++ self.sent }

/-- A step that is not possible does not happen. -/
def step (step : ClusterStep engine) : Cluster engine :=
  if self.possible step then self.effect step else self

def run (steps : List (ClusterStep engine)) : Cluster engine := steps.foldl step self

end Cluster

end Galvanize
