import Galvanize.SyncState

/-! `parallel_sync`: the needs computed for each connected server are queued, cut
into small ranges, and requested in rounds of at most ten per server. What one
server was asked is not asked of another. -/
namespace Galvanize

/-! ### `CrsqlDbVersion::chunked_iter` -/

def u64Max : Nat := 0xFFFFFFFFFFFFFFFF

def saturatingAdd (a b : Nat) : Nat := min (a + b) u64Max

structure ChunkedCrsqlDbVersionIterator where
  current : Nat
  stop : Nat
  chunkSize : Nat

namespace ChunkedCrsqlDbVersionIterator

/-- A chunk ends where the next one starts. -/
def next (self : ChunkedCrsqlDbVersionIterator) : Option (CrsqlDbVersionRange × ChunkedCrsqlDbVersionIterator) :=
  if self.current > self.stop then none
  else
    let nextStep := saturatingAdd self.current self.chunkSize
    some (⟨self.current, min nextStep self.stop⟩, { self with current := nextStep })

/-- The chunks that `collect` gathers, if it ends within `fuel` calls. -/
def collect : (fuel : Nat) → ChunkedCrsqlDbVersionIterator → Option (List CrsqlDbVersionRange)
  | 0, _ => none
  | fuel + 1, self =>
    match self.next with
    | none => some []
    | some (range, rest) => (rest.collect fuel).map (range :: ·)

end ChunkedCrsqlDbVersionIterator

def chunkedIter (range : CrsqlDbVersionRange) (chunkSize : Nat) : ChunkedCrsqlDbVersionIterator :=
  ⟨range.start, range.stop, chunkSize⟩

/-! ### The servers -/

/-- A server whose handshake succeeded: the state it told and the needs computed from it.
`needs` is a `HashMap`; it is iterated in some `order`. -/
structure Connection (ours : SyncStateV1) where
  actorId : ActorId
  theirs : SyncStateV1
  needs : Map ActorId (List SyncNeedV1)
  computed : ours.computeAvailableNeeds theirs = .ok needs
  order : List (ActorId × List SyncNeedV1)
  isOrder : order.Perm needs.toList

/-- "chunk the versions, sometimes it's 0..=1000000 and that's far too big for a chunk!" -/
def chunkNeed (fuel : Nat) : SyncNeedV1 → Option (List SyncNeedV1)
  | .full versions => ((chunkedIter versions 10).collect fuel).map (·.map .full)
  | need => some [need]

/-- The queue of a server: every need, in chunks, with its actor. -/
def actorNeeds (fuel : Nat) (order : List (ActorId × List SyncNeedV1)) : Option (List (ActorId × SyncNeedV1)) := do
  let perActor ← order.mapM (fun entry => do
    let chunks ← entry.2.mapM (chunkNeed fuel)
    return chunks.flatten.map (entry.1, ·))
  return perActor.flatten

structure Server where
  actorId : ActorId
  /-- A `VecDeque`, popped from the back. -/
  needs : List (ActorId × SyncNeedV1)
  /-- The stream to the server, by the position of its connection. -/
  tx : Nat

/-- The servers that something is needed of, once all their queues have been built. -/
def serversOf {ours : SyncStateV1} (fuel : Nat) (connections : List (Connection ours)) : Option (List Server) := do
  let servers ← connections.zipIdx.mapM (fun (connection, tx) => do
    let needs ← actorNeeds fuel connection.order
    return (⟨connection.actorId, needs, tx⟩, connection.needs.isEmpty))
  return (servers.filter (fun server => !server.2)).map Prod.fst

/-! ### Sending requests -/

/-- The payload of `SyncMessageV1::Request`: always one actor. -/
abbrev RequestFrame := ActorId × List SyncNeedV1

/-- What may fail while requests are sent: encoding a frame, and each call of `write_buf`. -/
structure RequestEnv where
  encodes : RequestFrame → Bool
  writes : (count : Nat) → Bool

structure WriteRecord where
  tx : Nat
  frames : List RequestFrame
  ok : Bool
deriving DecidableEq

structure Requesting where
  /-- already requested full versions -/
  reqFull : Map ActorId RangeInclusiveSet
  /-- already requested partial version sequences, by actor and version -/
  reqPartials : Map ActorId (Map Nat RangeInclusiveSet)
  sendBuf : List RequestFrame
  /-- The calls of `write_buf` so far, and the frames that could not be encoded. -/
  written : List WriteRecord
  unencoded : List RequestFrame

namespace Requesting

def start : Requesting := ⟨∅, ∅, [], [], []⟩

variable (env : RequestEnv) (self : Requesting)

def requestedFull (actorId : ActorId) : RangeInclusiveSet := self.reqFull[actorId]?.getD ∅

def requestedSeqs (actorId : ActorId) (version : Nat) : RangeInclusiveSet :=
  (self.reqPartials[actorId]?.getD ∅)[version]?.getD ∅

/-- What of a need has not been requested yet, and the sets once it has. -/
def actualNeeds (actorId : ActorId) : SyncNeedV1 → List SyncNeedV1 × Requesting
  | .full versions =>
    let range := self.requestedFull actorId
    let newVersions := (RangeInclusiveSet.ofRanges [versions]).removeAll (range.overlapping versions)
    (newVersions.ranges.map .full,
      { self with reqFull := self.reqFull.insert actorId (range.extend newVersions.ranges) })
  | .partialVersion version seqs =>
    let range := self.requestedSeqs actorId version
    let newSeqs := (RangeInclusiveSet.ofRanges seqs).removeAll (seqs.flatMap range.overlapping)
    let versions := (self.reqPartials[actorId]?.getD ∅).insert version (range.extend newSeqs.ranges)
    if newSeqs.isEmpty then ([], self)
    else ([.partialVersion version newSeqs.ranges],
      { self with reqPartials := self.reqPartials.insert actorId versions })
  | .empty ts => ([.empty ts], self)

/-- `write_buf`: the buffer is emptied whether the write succeeds or not. -/
def writeBuf (tx : Nat) : Requesting × Bool :=
  let ok := env.writes self.written.length
  ({ self with sendBuf := [], written := self.written ++ [⟨tx, self.sendBuf, ok⟩] }, ok)

/-- A buffer with nothing in it is not written. -/
def flush (tx : Nat) : Requesting × Bool :=
  if self.sendBuf.isEmpty then (self, true) else self.writeBuf env tx

end Requesting

/-- The `while drained < 10` loop, with the turns left. No queue: a frame could not be encoded,
and what was encoded before it stays in the buffer. -/
def drainNeeds (env : RequestEnv) : (turns : Nat) → Requesting → List (ActorId × SyncNeedV1) →
    Requesting × Option (List (ActorId × SyncNeedV1))
  | 0, state, needs => (state, some needs)
  | turns + 1, state, needs =>
    match needs.getLast? with
    | none => (state, some needs)
    | some (actorId, need) =>
      let (actual, state) := state.actualNeeds actorId need
      if actual.isEmpty then drainNeeds env turns state needs.dropLast
      else if env.encodes (actorId, actual) then
        drainNeeds env turns { state with sendBuf := state.sendBuf ++ [(actorId, actual)] } needs.dropLast
      else ({ state with unencoded := state.unencoded ++ [(actorId, actual)] }, none)

/-- The turn of one server in a round, and the servers of the next round. -/
def visitServer (env : RequestEnv) (state : Requesting × List Server) (server : Server) : Requesting × List Server :=
  let (requesting, nextServers) := state
  if server.needs.isEmpty then (requesting, nextServers)
  else
    match drainNeeds env 10 requesting server.needs with
    | (requesting, none) => (requesting, nextServers)
    | (requesting, some needs) =>
      let (requesting, ok) := requesting.flush env server.tx
      if !ok || needs.isEmpty then (requesting, nextServers)
      else (requesting, nextServers ++ [{ server with needs }])

/-- The rounds, until no server is left. -/
def sendRequests (env : RequestEnv) : (rounds : Nat) → Requesting → List Server → Requesting
  | 0, state, _ => state
  | _, state, [] => state
  | rounds + 1, state, servers =>
    let (state, nextServers) := servers.foldl (visitServer env) (state, [])
    sendRequests env rounds state nextServers

/-- The sending half of `parallel_sync`. Every round takes at least one need from each server,
so there are no more rounds than needs. -/
def parallelSync {ours : SyncStateV1} (env : RequestEnv) (fuel : Nat) (connections : List (Connection ours)) :
    Option Requesting :=
  (serversOf fuel connections).map (fun servers =>
    sendRequests env ((servers.flatMap Server.needs).length + 1) .start servers)

end Galvanize
