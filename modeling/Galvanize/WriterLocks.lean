import Galvanize.Runs
import Mathlib.Logic.Relation

/-! The locks of the writers. Whoever writes holds the write permit, the bookie lock and
SQLite's write lock; a PostgreSQL session has SQLite's from its `BEGIN IMMEDIATE` on and asks
for the other two at its first writing statement, the others ask for the permit first. -/
namespace Galvanize.WriterLocks

inductive Lock where
  | permit
  | bookie
  | sqlite
deriving DecidableEq

inductive Kind where
  | session
  -- `make_broadcastable_changes`
  | apiWrite
  -- `process_multiple_changes`
  | batch
  -- `process_fully_buffered_changes`, and the last chunk of a version applied in chunks
  | buffered
  -- an earlier chunk
  | chunk
  -- `collapse_gaps`, actor by actor under one permit
  | reconciliation

/-- The locks of a writer in the order in which it asks for them. -/
def Kind.plan : Kind → List Lock
  | .session => [.sqlite, .permit, .bookie]
  | .apiWrite | .batch | .buffered => [.permit, .bookie, .sqlite]
  | .chunk => [.permit, .sqlite]
  | .reconciliation => [.permit, .sqlite, .bookie]

structure State (W : Type) where
  /-- How many of its locks a writer holds. -/
  taken : W → Nat
  waiting : W → Bool
  holder : Lock → Option W

inductive Event (W : Type) where
  -- a writer asks for its next lock, for the first time or again
  | take (writer : W)
  -- it lets go of all but the first so many: at its end, on an error, before the next actor
  | drop (writer : W) (keeps : Nat)

variable {W : Type} (kind : W → Kind) (self : State W)

/-- The lock a writer asks for next. -/
def State.next (writer : W) : Option Lock := (kind writer).plan[self.taken writer]?

def step [DecidableEq W] (self : State W) : Event W → State W
  | .take writer =>
    match self.next kind writer with
    | none => self
    | some lock =>
      if self.holder lock = none then
        ⟨fun other => if other = writer then self.taken writer + 1 else self.taken other,
          fun other => if other = writer then false else self.waiting other,
          fun other => if other = lock then some writer else self.holder other⟩
      else { self with waiting := fun other => if other = writer then true else self.waiting other }
  | .drop writer keeps =>
    ⟨fun other => if other = writer then min keeps (self.taken writer) else self.taken other,
      fun other => if other = writer then false else self.waiting other,
      fun lock => if self.holder lock = some writer ∧
        lock ∉ (kind writer).plan.take keeps then none else self.holder lock⟩

def start : State W := ⟨fun _ => 0, fun _ => false, fun _ => none⟩

/-- A writer waits for a lock that another has. -/
def State.WaitsFor (writer other : W) : Prop :=
  self.waiting writer = true ∧ ∃ lock, self.next kind writer = some lock ∧ self.holder lock = some other

def State.Deadlocked : Prop := ∃ writer, Relation.TransGen (self.WaitsFor kind) writer writer

/-- A session with an open transaction comes to its first writing statement only while the
permit is free. -/
def Event.InOrder : Event W → Prop
  | .take writer => kind writer = .session → self.taken writer = 1 → self.holder .permit = none
  | .drop _ _ => True

/-- Who holds a lock, and that nobody waits for the bookie lock and no session for the permit. -/
structure Sound (state : State W) : Prop where
  holder : ∀ lock writer, state.holder lock = some writer ↔ lock ∈ (kind writer).plan.take (state.taken writer)
  waiting : ∀ writer, state.waiting writer = true →
    state.next kind writer ≠ some .bookie ∧ (kind writer = .session → state.taken writer = 0)

theorem mem_take_min {list : List Lock} {lock : Lock} {m n : Nat} :
    lock ∈ list.take (min m n) ↔ lock ∈ list.take m ∧ lock ∈ list.take n := by
  constructor
  · intro held
    rw [← List.take_take] at held
    refine ⟨?_, List.mem_of_mem_take held⟩
    rw [List.take_take, Nat.min_comm, ← List.take_take] at held
    exact List.mem_of_mem_take held
  · rintro ⟨low, _⟩
    rcases Nat.le_total m n with least | least <;> simpa [least]

/-- The next lock is new, and whoever asks for the bookie lock has the permit. -/
theorem plan_next {kind : Kind} {n : Nat} {lock : Lock} (next : kind.plan[n]? = some lock) :
    kind.plan.take (n + 1) = kind.plan.take n ++ [lock] ∧ lock ∉ kind.plan.take n ∧
      (lock = .bookie → .permit ∈ kind.plan.take n) := by
  rcases n with _ | _ | _ | n <;> cases kind <;> simp [Kind.plan] at next ⊢ <;> simp [← next]

theorem permit_of_bookie {kind : Kind} {n : Nat} (held : .bookie ∈ kind.plan.take n) : .permit ∈ kind.plan.take n := by
  rcases n with _ | _ | _ | n <;> cases kind <;> simp [Kind.plan] at held ⊢

/-- A writer that holds SQLite's lock and is not a session has no more to ask for than the
bookie lock. -/
theorem next_of_sqlite {kind : Kind} {n : Nat} (held : .sqlite ∈ kind.plan.take n) (other : kind ≠ .session) :
    kind.plan[n]? = none ∨ kind.plan[n]? = some .bookie := by
  rcases n with _ | _ | _ | n <;> cases kind <;> simp [Kind.plan] at held other ⊢

variable {kind self}

theorem sound_start : Sound kind (start : State W) := ⟨fun lock writer => by simp [start], fun writer no => by cases no⟩

/-- Nobody who asks for the bookie lock finds it taken. -/
theorem Sound.bookie_free (sound : Sound kind self) {writer : W} (next : self.next kind writer = some .bookie) :
    self.holder .bookie = none := by
  obtain ⟨-, new, permit⟩ := plan_next next
  cases held : self.holder .bookie with
  | none => rfl
  | some _ =>
    have both := permit_of_bookie ((sound.holder _ _).mp held)
    have same := ((sound.holder _ _).mpr (permit rfl)).symm.trans ((sound.holder _ _).mpr both)
    cases same
    exact absurd ((sound.holder _ _).mp held) new

theorem sound_step [DecidableEq W] (sound : Sound kind self) {event : Event W} (inOrder : event.InOrder kind self) :
    Sound kind (step kind self event) := by
  have holds := sound.holder
  have waits := sound.waiting
  cases event with
  | drop writer _ =>
    constructor <;> grind [step, State.next, mem_take_min]
  | take writer =>
    cases next : self.next kind writer with
    | none => rwa [step, next]
    | some lock =>
      obtain ⟨_, new, -⟩ := plan_next next
      cases held : self.holder lock with
      | none => constructor <;> grind [step, State.next]
      | some _ =>
        have free := @sound.bookie_free
        constructor <;> grind [step, State.next, Event.InOrder, Kind.plan]

/-- Waiting writers wait for writers that wait for a later lock, or not at all. -/
def State.rank (kind : W → Kind) (self : State W) (writer : W) : Nat :=
  if self.waiting writer = false then 2
  else if self.next kind writer = some .permit then 0
  else if self.next kind writer = some .sqlite then 1
  else 2

theorem rank_lt (sound : Sound kind self) {writer other : W} (waits : self.WaitsFor kind writer other) :
    self.rank kind writer < self.rank kind other := by
  obtain ⟨isWaiting, lock, next, held⟩ := waits
  have holds := (sound.holder lock other).mp held
  have mine := sound.waiting writer isWaiting
  cases lock with
  | bookie => exact absurd next mine.1
  | permit =>
    have further : self.next kind other ≠ some .permit := fun again => (plan_next again).2.1 holds
    grind [State.rank]
  | sqlite =>
    have theirs := sound.waiting other
    have last := next_of_sqlite holds
    grind [State.rank, State.next]

theorem Sound.not_deadlocked (sound : Sound kind self) : ¬self.Deadlocked kind := by
  rintro ⟨writer, cycle⟩
  have rises : ∀ {other}, Relation.TransGen (self.WaitsFor kind) writer other →
    self.rank kind writer < self.rank kind other := by
    intro other path
    induction path with
    | single waits => exact rank_lt sound waits
    | tail _ waits ih => exact Nat.lt_trans ih (rank_lt sound waits)
  exact Nat.lt_irrefl _ (rises cycle)

/-- In every run in which sessions ask for the permit only while it is free there is no cycle
of waits. -/
theorem no_writer_deadlock [DecidableEq W] (kind : W → Kind) (events : List (Event W))
    (inOrder : ∀ before event, before ++ [event] <+: events → event.InOrder kind (before.foldl (step kind) start)) :
    ∀ before, before <+: events → ¬(before.foldl (step kind) start).Deadlocked kind := by
  intro before leads
  exact (throughout sound_start (fun _ _ sound suits => sound_step sound suits) inOrder before leads).not_deadlocked

/-- Two sessions (0, 1) and a write of the API (2). -/
def threeWriters (writer : Nat) : Kind := if writer = 2 then .apiWrite else .session

/-- The first session begins, the second one waits for SQLite's lock, the first gets the permit
and the bookie lock and the API waits for the permit. When the session has committed, the second
one begins and the API waits for it. -/
def threeWrites : List (Event Nat) :=
  [.take 0, .take 1, .take 0, .take 0, .take 2, .drop 0 0, .take 1, .take 2, .take 2, .take 2]

theorem three_writes_no_deadlock :
    let after (count : Nat) := (threeWrites.take count).foldl (step threeWriters) start
    (after 2).WaitsFor threeWriters 1 0 ∧ (after 2).holder .permit = none ∧
      (after 5).WaitsFor threeWriters 1 0 ∧ (after 5).WaitsFor threeWriters 2 0 ∧ (after 5).holder .bookie = some 0 ∧
      (after 10).WaitsFor threeWriters 2 1 ∧ ∀ count, ¬(after count).Deadlocked threeWriters := by
  refine ⟨⟨rfl, .sqlite, rfl, rfl⟩, rfl, ⟨rfl, .sqlite, rfl, rfl⟩, ⟨rfl, .permit, rfl, rfl⟩, rfl,
    ⟨rfl, .sqlite, rfl, rfl⟩, ?_⟩
  intro count
  refine no_writer_deadlock threeWriters threeWrites ?_ _ (List.take_prefix count threeWrites)
  -- the first session comes to its first writing statement at the third event, and finds the permit free
  refine kept_cons (fun _ none => by cases none) (kept_cons (fun _ none => by cases none)
    (kept_cons (fun _ _ => rfl) ?_))
  refine kept_cons (fun _ two => by cases two) (kept_cons (fun session => by cases session) (kept_cons trivial ?_))
  refine kept_cons (fun _ none => by cases none) (kept_cons (fun session => by cases session) ?_)
  exact kept_cons (fun session => by cases session) (kept_cons (fun session => by cases session) kept_nil)

/-- A session (0) has begun a transaction when a write of the API (1) gets the permit and the
bookie lock and comes to wait for SQLite's lock; then the session's first writing statement
waits for the permit. -/
theorem session_and_write_deadlock :
    let kind (writer : Nat) : Kind := if writer = 0 then .session else .apiWrite
    (([.take 0, .take 1, .take 1, .take 1, .take 0] : List (Event Nat)).foldl (step kind) start).Deadlocked kind := by
  exact ⟨0, .tail (.single ⟨rfl, .permit, rfl, rfl⟩) ⟨rfl, .sqlite, rfl, (rfl : _ = some 0)⟩⟩

end Galvanize.WriterLocks
