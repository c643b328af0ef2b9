import Galvanize.Exporter

/-! Replay of the journal of a Low node: the job (`galv-highlow/src/lib.rs`), the
request for one and the worker that goes through it event by event
(`corro-agent/src/agent/highlow.rs`). -/
namespace Galvanize.HighLow

/-! ### The job -/

inductive JobState where
  | queued
  | running
  | completed
  | failed
deriving DecidableEq

def JobState.active : JobState → Bool
  | .queued | .running => true
  | .completed | .failed => false

inductive ReplayScope where
  | all
  | since
deriving DecidableEq

structure ReplayJob where
  jobId : String
  state : JobState
  scope : ReplayScope
  sinceUtc : Option String
  endSequence : Int
  cursorSequence : Int
  totalEvents : Nat
  replayedEvents : Nat
  bundleCount : Nat
  error : Option String
deriving DecidableEq

/-- The text of an error. -/
def Error.text : Error → String
  | .configuration message => "high/low configuration error: " ++ message
  | .integrity message => "high/low integrity error: " ++ message
  | .io message => message

/-- `create_replay_job`: the table is emptied for the new job. The id is a digest of
the stream, the time and the end. -/
def createReplayJob (streamId jobId : String) (scope : ReplayScope) (sinceUtc : Option String)
    (journal : List JournalRow) (jobs : List ReplayJob) : Except Error (List ReplayJob) := do
  refuseIf (jobs.any fun job => job.state.active) (.configuration "replay-conflict")
  .ok [{ jobId := jobId
         state := .queued
         scope := scope
         sinceUtc := sinceUtc
         endSequence := lastSequence streamId journal
         cursorSequence := 0
         totalEvents := (journal.filter fun row => row.streamId = streamId).length
         replayedEvents := 0
         bundleCount := 0
         error := none }]

/-- `latest_replay_job`. -/
def latestReplayJob (jobs : List ReplayJob) : Option ReplayJob := jobs.head?

/-- The rows that the query of `replay_events` gives. -/
def replayRows (streamId : String) (job : ReplayJob) (sinceMs : Option Int) (maximum : Nat)
    (journal : List JournalRow) : List JournalRow :=
  ((journal.filter fun row => row.streamId = streamId && job.cursorSequence < row.sequence
      && row.sequence ≤ job.endSequence && sinceMs.all fun since => since ≤ row.committedAtMs).insertionSort
    fun row other => row.sequence ≤ other.sequence).take maximum

section Worker
variable (codec : Codec) (parseRfc3339Ms : String → Except Error Int) (low : LowConfig)

/-- `job.since_utc.as_deref().map(parse_rfc3339_ms).transpose()`. -/
def sinceMs (job : ReplayJob) : Except Error (Option Int) :=
  match job.sinceUtc with
  | none => .ok none
  | some text => (parseRfc3339Ms text).map some

def replayEvents (streamId : String) (journal : List JournalRow) (job : ReplayJob) (maximum : Nat) :
    Except Error (List Event) := do
  refuseIf (maximum = 0 || maxEventsPerBundle < maximum) (.configuration "invalid replay-event limit")
  let since ← sinceMs parseRfc3339Ms job
  (replayRows streamId job since maximum journal).mapM fun row => row.event.reread codec

/-- `update_replay_job`. -/
def updateReplayJob (jobs : List ReplayJob) (jobId : String) (cursor : Int) (events : Nat) (completed : Bool)
    (error : Option String) : List ReplayJob :=
  jobs.map fun job =>
    if job.jobId = jobId then
      { job with
        state := if completed then .completed else if error.isSome then .failed else .running
        cursorSequence := cursor
        replayedEvents := job.replayedEvents + events
        bundleCount := job.bundleCount + if 0 < events then 1 else 0
        error := error }
    else job

/-! ### The worker -/

/-- How far a worker is in a turn of its loop. -/
inductive Worker where
  | reading
  /-- It has read the job and an event. -/
  | publishing (job : ReplayJob) (events : List Event) (schemaHash : String)
  /-- It has read the job and no event. -/
  | closing (job : ReplayJob)
  | advancing (job : ReplayJob) (sequence : Int)
  | failing (job : ReplayJob) (error : String)
  | done

/-- A Low node with its workers, and the bundles that have been published for
each job. -/
structure ReplayNode where
  journal : List JournalRow
  jobs : List ReplayJob
  workers : List Worker
  published : List (String × Bundle)

inductive ReplayAction where
  /-- A transaction of the node, with its capture. -/
  | write (transaction : LowTransaction)
  /-- The exporter marks the events of a bundle. -/
  | marked (sent : OutboxRow)
  /-- A request at the control API. -/
  | request (scope : ReplayScope) (sinceUtc : Option String) (jobId : String) (commits : Bool)
  /-- The worker of a node that starts. -/
  | resume
  | read (worker : Nat) (connects readFails : Bool) (schemaHash : String)
  | publish (worker : Nat) (bundleId : String) (sealer : Sealer) (keyError : Option String) (uploadError : Option Error)
  /-- The `_ = tx.commit()` of a worker hides whether its transaction was committed. -/
  | update (worker : Nat) (commits : Bool)
  /-- The node stops. -/
  | crash

/-- The check of a request's scope. -/
def scopeConsistent (scope : ReplayScope) (sinceUtc : Option String) : Bool :=
  match scope with
  | .all => sinceUtc.isNone
  | .since => sinceUtc.isSome

/-- `control_replay`. -/
def ReplayNode.request (node : ReplayNode) (scope : ReplayScope) (sinceUtc : Option String) (jobId : String)
    (commits : Bool) : ReplayNode :=
  if scopeConsistent scope sinceUtc && commits then
    match createReplayJob low.streamId jobId scope sinceUtc node.journal node.jobs with
    | .ok jobs => { node with jobs := jobs, workers := node.workers ++ [.reading] }
    | .error _ => node
  else node

/-- What a worker has in hand after its reads; a failure to read events counts as
none. -/
def ReplayNode.read (node : ReplayNode) (connects readFails : Bool) (schemaHash : String) : Worker :=
  match (if connects then latestReplayJob node.jobs else none) with
  | none => .done
  | some job =>
    if job.state.active then
      let events := if readFails then [] else
        (replayEvents codec parseRfc3339Ms low.streamId node.journal job 1).toOption.getD []
      if events.isEmpty then .closing job else .publishing job events schemaHash
    else .done

def replayFilename (job : ReplayJob) (bundle : Bundle) : String :=
  "replay-" ++ String.ofList (job.jobId.toList.take 8) ++ "-" ++ padded bundle.sequenceFirst ++ ".zstd.galvh"

/-- From the events to the artifacts, or the error that is noted. -/
def sealReplay (sealer : Sealer) (keyError : Option String) (job : ReplayJob) (events : List Event)
    (schemaHash bundleId : String) : Except String Artifacts :=
  match Bundle.new codec bundleId events schemaHash true with
  | .error error => .error error.text
  | .ok bundle =>
    match keyError with
    | some error => .error error
    | none =>
      match sealBundle codec sealer bundle (replayFilename job bundle) with
      | .error error => .error error.text
      | .ok artifacts => .ok artifacts

/-- The sequence number of the event in hand. -/
def eventSequence (events : List Event) : Int := (events.head?.map Event.sequence).getD 0

/-- The publication of the events of a worker: what it does next, and the bundle. -/
def publishReplay (sealer : Sealer) (keyError : Option String) (uploadError : Option Error) (job : ReplayJob)
    (events : List Event) (schemaHash bundleId : String) : Worker × List (String × Bundle) :=
  match sealReplay codec sealer keyError job events schemaHash bundleId with
  | .error error => (.failing job error, [])
  | .ok artifacts =>
    match uploadError with
    | some error => (.failing job error.text, [])
    | none => (.advancing job (eventSequence events), [(job.jobId, artifacts.bundle)])

/-- The update that a worker is about to make, and what it does next. -/
def Worker.update (jobs : List ReplayJob) : Worker → List ReplayJob × Worker
  | .closing job => (updateReplayJob jobs job.jobId job.endSequence 0 true none, .done)
  | .advancing job sequence => (updateReplayJob jobs job.jobId sequence 1 false none, .reading)
  | .failing job error => (updateReplayJob jobs job.jobId job.cursorSequence 0 false (some error), .done)
  | other => (jobs, other)

def ReplayNode.step (node : ReplayNode) : ReplayAction → ReplayNode
  | .write transaction => { node with journal := (transaction.outcome codec low node.journal).journal }
  | .marked sent => { node with journal := node.journal.map (JournalRow.markExported sent) }
  | .request scope sinceUtc jobId commits => node.request low scope sinceUtc jobId commits
  | .resume => { node with workers := node.workers ++ [.reading] }
  | .crash => { node with workers := [] }
  | .read worker connects readFails schemaHash =>
    match node.workers[worker]? with
    | some .reading =>
      { node with workers := node.workers.set worker (node.read codec parseRfc3339Ms low connects
        readFails schemaHash) }
    | _ => node
  | .publish worker bundleId sealer keyError uploadError =>
    match node.workers[worker]? with
    | some (.publishing job events schemaHash) =>
      let next := publishReplay codec sealer keyError uploadError job events schemaHash bundleId
      { node with workers := node.workers.set worker next.1, published := node.published ++ next.2 }
    | _ => node
  | .update worker commits =>
    match node.workers[worker]? with
    | some held =>
      { node with
        jobs := if commits then (held.update node.jobs).1 else node.jobs
        workers := node.workers.set worker (held.update node.jobs).2 }
    | none => node

/-- A node with a journal and no job, after some actions. -/
def ReplayNode.run (journal : List JournalRow) (actions : List ReplayAction) : ReplayNode :=
  actions.foldl (ReplayNode.step codec parseRfc3339Ms low) ⟨journal, [], [], []⟩

end Worker
end Galvanize.HighLow
