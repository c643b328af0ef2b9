import Galvanize.Members
import Galvanize.ProcessProofs

/-! What the parts of a node hold after `setup` found its database unlocked, and after it
was unlocked by `api_v1_unlock`. A `SubsManager` and the broadcast cache are the lists of the
subscriptions registered with them. A `Bookie` is a handle of a shared map: what is booked
through one handle is seen through its clones, and through no other. -/
namespace Galvanize.RemoteUnlock
open BookedVersions

variable {Schema Sub : Type}

/-- The database and the subscription directory. -/
structure Stored (Schema Sub : Type) where
  siteId : ActorId
  schema : Schema
  clusterId : Option ClusterId
  tables : BookieTables
  dbVersions : Map ActorId Nat
  siteIds : List ActorId
  /-- What `setup_spawn_subscriptions` restores. -/
  subscriptions : List Sub

inductive SplitPool where
  | dummy
  | create
deriving DecidableEq

structure UnlockedDbState (Schema Sub : Type) where
  actorId : ActorId
  pool : SplitPool
  clockId : ActorId
  schema : Schema
  bookie : Bookie
  clusterId : ClusterId
  subsManager : List Sub
  subsBcastCache : List Sub

/-- `init_database_state`. -/
def initDatabaseState (stored : Stored Schema Sub) : UnlockedDbState Schema Sub :=
  let booked := loadAllFromConn stored.tables stored.dbVersions stored.siteIds
  ⟨stored.siteId, .create, stored.siteId, stored.schema, booked.insertIfNew stored.siteId (.new stored.siteId),
    stored.clusterId.getD 0, stored.subscriptions, stored.subscriptions⟩

/-- What `setup` goes on with while the database is locked. -/
def lockedState [Inhabited Schema] : UnlockedDbState Schema Sub :=
  ⟨0, .dummy, 0, default, (∅ : Bookie).insertIfNew 0 (.new 0), 0, [], []⟩

structure Agent (Schema Sub : Type) where
  actorId : ActorId
  pool : SplitPool
  clockId : ActorId
  schema : Schema
  /-- A handle. -/
  bookie : Nat
  clusterId : ClusterId
  subsManager : List Sub

/-- Who holds what: the agent is shared, the handlers of the HTTP API have the manager and the
cache they were set up with, and the admin server the `Bookie` that `run` returned. -/
structure Node (Schema Sub : Type) where
  agent : Agent Schema Sub
  handlerSubs : List Sub
  handlerCache : List Sub
  adminBookie : Nat
  /-- The maps, at the handles they are shared by. -/
  bookies : List Bookie

/-- `setup` and `run`; the admin server has a clone of the agent's `Bookie`. -/
def boot (state : UnlockedDbState Schema Sub) : Node Schema Sub where
  agent := ⟨state.actorId, state.pool, state.clockId, state.schema, 0, state.clusterId, state.subsManager⟩
  handlerSubs := state.subsManager
  handlerCache := state.subsBcastCache
  adminBookie := 0
  bookies := [state.bookie]

/-- `apply_unlocked_state`. -/
def Agent.applyUnlockedState (self : Agent Schema Sub) (state : UnlockedDbState Schema Sub) (bookie : Nat) :
    Agent Schema Sub :=
  { self with
    actorId := state.actorId, pool := state.pool, clockId := state.clockId, schema := state.schema
    bookie, clusterId := state.clusterId }

namespace Node

/-- A successful `api_v1_unlock`: the initialised state comes with a `Bookie` of its own. -/
def unlock (self : Node Schema Sub) (stored : Stored Schema Sub) : Node Schema Sub :=
  let state := initDatabaseState stored
  { self with
    agent := self.agent.applyUnlockedState state self.bookies.length
    bookies := self.bookies ++ [state.bookie] }

end Node

/-- Through whose `Bookie` something is read or booked. The HTTP handlers and the background
services ask the agent for it each time. -/
inductive Holder where
  | agent
  | admin

/-- An actor's `BookedVersions` are replaced, as by a committed batch or by `collapse_gaps`. -/
structure Booking where
  holder : Holder
  actorId : ActorId
  booked : BookedVersions

namespace Node

variable (self : Node Schema Sub)

def handle : Holder → Nat
  | .agent => self.agent.bookie
  | .admin => self.adminBookie

/-- An actor missing in a `Bookie` is as one without versions. -/
def sees (holder : Holder) (actor : ActorId) : BookedVersions :=
  (self.bookies[self.handle holder]?.getD ∅).ensure actor

def book (booking : Booking) : Node Schema Sub :=
  { self with
    bookies := self.bookies.modify (self.handle booking.holder) fun map => map.insert booking.actorId booking.booked }

end Node

/-- The same state for all who use it. -/
def Same (one other : Node Schema Sub) : Prop :=
  { one.agent with bookie := other.agent.bookie } = other.agent ∧
  one.handlerSubs = other.handlerSubs ∧ one.handlerCache = other.handlerCache ∧
  ∀ holder actor, one.sees holder actor = other.sees holder actor

variable {node one other : Node Schema Sub} {holder : Holder} {actor : ActorId} {booking : Booking}

/-- A booking is seen by all who share the map, and by nobody else. -/
theorem sees_book (live : node.handle booking.holder < node.bookies.length) :
    (node.book booking).sees holder actor =
      if node.handle booking.holder = node.handle holder ∧ booking.actorId = actor then booking.booked
      else node.sees holder actor := by
  change Bookie.ensure ((node.bookies.modify _ _)[node.handle holder]?.getD ∅) actor = _
  rw [List.getElem?_modify]
  by_cases shared : node.handle booking.holder = node.handle holder
  · have live' : node.bookies[node.handle holder]? = some node.bookies[node.handle holder] :=
      List.getElem?_eq_getElem (shared ▸ live)
    simp only [shared, if_true, true_and, Node.sees, live', Option.map_eq_map, Option.map_some, Option.getD_some]
    exact BookieMirror.ensure_insert
  · rw [if_neg fun both => shared both.1]
    simp only [shared, if_false, Option.map_eq_map, Option.map_id']
    rfl

theorem sees_unlock (state : UnlockedDbState Schema Sub) (stored : Stored Schema Sub)
    (holder : Holder) (actor : ActorId) : ((boot state).unlock stored).sees holder actor =
      match holder with
      | .agent => (initDatabaseState stored).bookie.ensure actor
      | .admin => state.bookie.ensure actor := by
  cases holder <;> rfl

/-- In one node nobody shares the map of a holder, in the other they all share one. -/
structure Parted (one other : Node Schema Sub) : Prop where
  apart : ∀ holder, ∃ elsewhere, one.handle holder ≠ one.handle elsewhere
  shared : ∀ holder elsewhere, other.handle holder = other.handle elsewhere
  live : ∀ holder, one.handle holder < one.bookies.length ∧ other.handle holder < other.bookies.length

theorem Parted.book (parted : Parted one other) (booking : Booking) :
    Parted (one.book booking) (other.book booking) := by
  refine ⟨parted.apart, parted.shared, fun holder => ?_⟩
  rw [Node.book, Node.book, List.length_modify, List.length_modify]
  exact parted.live holder

/-- Nobody knows any version. -/
def Blank (node : Node Schema Sub) : Prop := ∀ holder actor, node.sees holder actor = .new actor

theorem sees_book_new (live : node.handle booking.holder < node.bookies.length) (blank : Blank node)
    (nothing : booking.booked = .new booking.actorId) : (node.book booking).sees holder actor = .new actor := by
  rw [sees_book live]
  split
  case isTrue own => rw [nothing, own.2]
  case isFalse => exact blank holder actor

/-- Where nobody knows any version, a booking makes no difference exactly if it books nothing. -/
theorem same_book_iff (parted : Parted one other) (same : Same one other) (blank : Blank other) :
    Same (one.book booking) (other.book booking) ↔ booking.booked = .new booking.actorId := by
  obtain ⟨agents, subs, cache, seen⟩ := same
  have unknown : Blank one := fun holder actor => (seen holder actor).trans (blank holder actor)
  have live := parted.live booking.holder
  constructor
  · rintro ⟨-, -, -, after⟩
    obtain ⟨elsewhere, apart⟩ := parted.apart booking.holder
    have theirs := after elsewhere booking.actorId
    rw [sees_book live.1, if_neg fun both => apart both.1, sees_book live.2, if_pos ⟨parted.shared _ _, rfl⟩] at theirs
    exact theirs.symm.trans (unknown _ _)
  · intro nothing
    refine ⟨agents, subs, cache, fun holder actor => ?_⟩
    rw [sees_book_new live.1 unknown nothing, sees_book_new live.2 blank nothing]

theorem same_throughout_iff (parted : Parted one other) (same : Same one other) (blank : Blank other)
    (bookings : List Booking) :
    (∀ before, before <+: bookings → Same (before.foldl Node.book one) (before.foldl Node.book other)) ↔
      ∀ booking ∈ bookings, booking.booked = .new booking.actorId := by
  induction bookings generalizing one other with
  | nil =>
    refine ⟨fun _ _ listed => (nomatch listed), fun _ before leads => ?_⟩
    rw [List.prefix_nil.mp leads]
    exact same
  | cons first bookings ih =>
    have turn := @same_book_iff _ _ _ _ first parted same blank
    have later := fun nothing => ih (parted.book first) (turn.mpr nothing)
      fun _ _ => sees_book_new (parted.live _).2 blank nothing
    rw [List.forall_mem_cons]
    constructor
    · intro always
      have nothing := turn.mp (always [first] (List.prefix_append [first] bookings))
      exact ⟨nothing, (later nothing).mp fun before leads =>
        always (first :: before) (List.cons_prefix_cons.mpr ⟨rfl, leads⟩)⟩
    · rintro ⟨nothing, others⟩ before leads
      rcases List.prefix_cons_iff.mp leads with rfl | ⟨rest, rfl, shorter⟩
      · exact same
      · exact (later nothing).mpr others rest shorter

theorem parted_unlock (locked state : UnlockedDbState Schema Sub) (stored : Stored Schema Sub) :
    Parted ((boot locked).unlock stored) (boot state) where
  apart
    | .agent => ⟨.admin, Nat.one_ne_zero⟩
    | .admin => ⟨.agent, Nat.zero_ne_one⟩
  shared
    | .agent, .agent | .agent, .admin | .admin, .agent | .admin, .admin => rfl
  live
    | .agent => ⟨Nat.one_lt_two, Nat.one_pos⟩
    | .admin => ⟨Nat.two_pos, Nat.one_pos⟩

theorem sees_boot (state : UnlockedDbState Schema Sub) (holder : Holder) (actor : ActorId) :
    (boot state).sees holder actor = state.bookie.ensure actor := by
  cases holder <;> rfl

/-- Right after it a remote unlock is like booting unlocked exactly if there are no subscriptions
to restore and the database has no bookkeeping of any actor. -/
theorem same_unlock_iff [Inhabited Schema] (stored : Stored Schema Sub) :
    Same ((boot lockedState).unlock stored) (boot (initDatabaseState stored)) ↔ stored.subscriptions = [] ∧
      Blank (boot (initDatabaseState stored)) := by
  have empty : ∀ actor, Bookie.ensure ((∅ : Bookie).insertIfNew 0 (.new 0)) actor = .new actor := fun actor =>
    ProcessProofs.ensure_insertIfNew.trans (Bookie.ensure_empty actor)
  constructor
  · rintro ⟨-, subs, -, seen⟩
    refine ⟨subs.symm, fun holder actor => ?_⟩
    have admin := seen .admin actor
    rw [sees_unlock, sees_boot] at admin
    rw [sees_boot, ← admin]
    exact empty actor
  · rintro ⟨none, blank⟩
    refine ⟨?_, none.symm, none.symm, fun holder actor => ?_⟩
    · rw [boot, initDatabaseState, none]
      rfl
    · rw [blank, sees_unlock]
      cases holder with
      | agent => exact blank .agent actor
      | admin => exact empty actor

/-- A remote unlock stays like booting unlocked exactly if there are no subscriptions to restore,
the database has no bookkeeping of any actor, and nothing is ever booked: the admin server does
not share the agent's `Bookie`. -/
theorem unlock_same_as_boot_iff [Inhabited Schema] (stored : Stored Schema Sub) (bookings : List Booking) :
    (∀ before, before <+: bookings → Same (before.foldl Node.book ((boot lockedState).unlock stored))
        (before.foldl Node.book (boot (initDatabaseState stored)))) ↔
      stored.subscriptions = [] ∧
      (∀ actor, Bookie.ensure (loadAllFromConn stored.tables stored.dbVersions stored.siteIds) actor = .new actor) ∧
      ∀ booking ∈ bookings, booking.booked = .new booking.actorId := by
  have loaded : Blank (boot (initDatabaseState stored)) ↔
      ∀ actor, Bookie.ensure (loadAllFromConn stored.tables stored.dbVersions stored.siteIds) actor = .new actor := by
    have same : ∀ actor, (initDatabaseState stored).bookie.ensure actor =
        Bookie.ensure (loadAllFromConn stored.tables stored.dbVersions stored.siteIds) actor :=
      fun _ => ProcessProofs.ensure_insertIfNew
    simp only [Blank, sees_boot, same]
    exact ⟨fun blank => blank .agent, fun unknown _ => unknown⟩
  rw [← loaded, ← and_assoc, ← same_unlock_iff]
  constructor
  · intro always
    have same := always [] List.nil_prefix
    exact ⟨same, (same_throughout_iff (parted_unlock _ _ _) same (same_unlock_iff stored |>.mp same).2 _).mp always⟩
  · rintro ⟨same, nothing⟩
    exact (same_throughout_iff (parted_unlock _ _ _) same (same_unlock_iff stored |>.mp same).2 _).mpr nothing

/-- After a remote unlock the admin server does not know an actor whose versions are in the
database, nor one that the agent has booked since, and the restored subscription is registered
nowhere. -/
theorem unlock_forgets_actor_and_subscription :
    let stored : Stored Unit Nat := ⟨1, (), none, {}, (∅ : Map ActorId Nat).insert 2 5, [2], [7]⟩
    let unlocked := (boot lockedState).unlock stored
    let booked := unlocked.book ⟨.agent, 3, { BookedVersions.new 3 with max := some 1 }⟩
    (unlocked.sees .agent 2).max = some 5 ∧ (unlocked.sees .admin 2).max = none ∧
      (booked.sees .agent 3).max = some 1 ∧ (booked.sees .admin 3).max = none ∧
      unlocked.agent.subsManager = [] ∧ unlocked.handlerCache = [] := by
  decide +kernel

end Galvanize.RemoteUnlock
