import Galvanize.Runs
import Mathlib.Logic.Function.Basic

/-! Start-up and the unlock requests of a node whose database may be encrypted. The lock
state, the process-wide active key, the state of the agent and the wake-up of the background
services are set one after the other, by each request on its own. -/
namespace Galvanize.Unlock

variable {Key : Type}

/-- How far a request to `api_v1_unlock` has come. -/
inductive Request (Key : Type) where
  | idle
  | verifying (key : Key)
  | verified (key : Key)
  | keyed
  -- `init_database_state` has opened the database with the key that was active then
  | opened (key : Option Key)
  | initialised (key : Option Key)
  | installed
  -- `execute_schema_from_paths`
  | executing
  | finished

/-- `run`, and the task it spawns when it finds the agent locked. -/
inductive Startup where
  | starting
  | spawned
  | waiting
  | serving
deriving DecidableEq

structure Server (Key : Type) where
  /-- The key of the database file, if there is a file; a plain file has none. -/
  database : Option (Option Key)
  activeKey : Option Key
  unlocked : Bool
  /-- The keys of the states installed into the agent, the latest first. -/
  installed : List (Option Key)
  startup : Startup
  requests : Nat → Request Key

variable (self : Server Key)

namespace Server

/-- `notify_waiters`: only a task that waits is woken. -/
def notifyWaiters : Server Key :=
  { self with startup := if self.startup = .waiting then .serving else self.startup }

/-- The next step of `run` or of its task. -/
def advance : Server Key :=
  { self with
    startup := match self.startup with
      | .starting => if self.unlocked then .serving else .spawned
      | .spawned => .waiting
      | other => other }

/-- `verify_key`: any key will do while there is no file. -/
def verifyKey [DecidableEq Key] (database : Option (Option Key)) (key : Key) : Bool :=
  database = none || database = some (some key)

def goto (id : Nat) (request : Request Key) : Server Key :=
  { self with requests := fun other => if other = id then request else self.requests other }

/-- The next step of a request; a new one comes with a key. -/
def request [DecidableEq Key] (self : Server Key) (id : Nat) (key : Key) (healthy : Bool) : Server Key :=
  match self.requests id with
  | .idle => self.goto id (if self.unlocked then .finished else .verifying key)
  | .verifying key => self.goto id (if verifyKey self.database key then .verified key else .finished)
  | .verified key => { self with activeKey := some key }.goto id .keyed
  | .keyed => { self with database := some (self.database.getD self.activeKey) }.goto id (.opened self.activeKey)
  | .opened key =>
    if self.database = some key && healthy then self.goto id (.initialised key)
    else { self with activeKey := none }.goto id .finished
  | .initialised key => { self with installed := key :: self.installed }.goto id .installed
  | .installed => { self with unlocked := true }.notifyWaiters.goto id .executing
  | .executing => self.notifyWaiters.goto id .finished
  | .finished => self

end Server

inductive Event (Key : Type) where
  | startup
  | request (id : Nat) (key : Key) (healthy : Bool)

def step [DecidableEq Key] (self : Server Key) : Event Key → Server Key
  | .startup => self.advance
  | .request id key healthy => self.request id key healthy

def Request.InFlight (self : Request Key) : Prop := self ≠ .idle ∧ self ≠ .finished

/-- A request comes to a locked agent only while no other is in flight, and the task begins
to wait only while the agent is locked or a request has still to call `notify_waiters`. -/
def Event.InOrder : Event Key → Prop
  | .request id _ _ => self.requests id = .idle → self.unlocked = false → ∀ other, ¬(self.requests other).InFlight
  | .startup => self.startup = .spawned → self.unlocked = true → ∃ id, self.requests id = .executing

/-- What is true according to how far the one request in flight is. -/
def Fits : Request Key → Prop
  | .idle | .finished => self.unlocked = false ∧ self.installed = [] ∨ self.unlocked = true ∧
    self.installed = [self.activeKey]
  | .opened key | .initialised key => self.unlocked = false ∧ self.installed = [] ∧ self.activeKey = key
  | .installed => self.unlocked = false ∧ self.installed = [self.activeKey]
  | .executing => self.unlocked = true ∧ self.installed = [self.activeKey]
  | _ => self.unlocked = false ∧ self.installed = []

/-- No request but this one is in flight. -/
def Alone (id : Nat) : Prop :=
  (∀ other, other ≠ id → ¬(self.requests other).InFlight) ∧
  (self.startup = .waiting → self.unlocked = true → self.requests id = .executing) ∧ Fits self (self.requests id)

variable {self} {id : Nat}

/-- A request that finds the agent unlocked ends at once. -/
theorem Alone.finished (alone : Alone self id) (different : id ≠ other) : Alone (self.goto other .finished) id := by
  obtain ⟨_, wakes, fits⟩ := alone
  have own : (self.goto other .finished).requests id = self.requests id := if_neg different
  refine ⟨?_, own ▸ wakes, own ▸ fits⟩
  grind [Server.goto, Request.InFlight]

end Galvanize.Unlock
