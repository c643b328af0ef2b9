import Galvanize.BookieProofs
import Mathlib.Order.Bounds.Basic

/-! The purpose of the bookkeeping, stated without ranges: an actor's versions
are a set of known numbers, the maximum is the greatest of them, and a version
is needed when it lies between one and the maximum and is not known. `Books`
relates the stored form to that set; every batch extends the set by exactly the
versions it holds, so the relation holds along every run. -/
namespace Galvanize.BookieInvariant
open BookedVersions BookieProofs

/-- `bv` is the bookkeeping of the set `known`. -/
structure Books (bv : BookedVersions) (known : Nat → Prop) : Prop where
  reaches : ∀ version, Reaches bv.max version ↔ ∃ top, known top ∧ version ≤ top
  needed : ∀ version, version ∈ bv.needed ↔ 1 ≤ version ∧ Reaches bv.max version ∧ ¬ known version

theorem Books.reaches_known (books : Books bv known) (held : known version) : Reaches bv.max version :=
  (books.reaches version).mpr ⟨version, held, le_rfl⟩

theorem Books.max_known (books : Books bv known) (is : bv.max = some m) : known m := by
  obtain ⟨reached, bound⟩ := eq_some_iff_reaches.mp is
  obtain ⟨top, held, low⟩ := (books.reaches m).mp reached
  have notAbove : ¬ m + 1 ≤ top := fun above => bound ((books.reaches _).mpr ⟨top, held, above⟩)
  obtain rfl : top = m := by omega
  exact held

/-- The greatest version the actor is known to have produced is never needed. -/
theorem Books.max_not_needed (books : Books bv known) (is : bv.max = some m) : m ∉ bv.needed := by
  intro needed
  exact ((books.needed m).mp needed).2.2 (books.max_known is)

theorem books_new (actorId : ActorId) : Books (BookedVersions.new actorId) (fun _ => False) where
  reaches := by simp
  needed := by simp

/-- The set argument behind every step: what a batch jumps over becomes needed,
what it holds becomes known, and nothing else changes. -/
structure Extends (bv : BookedVersions) (batch : RangeInclusiveSet) (after : BookedVersions) : Prop where
  reached : ∀ version, Reaches after.max version ↔ Reaches bv.max version ∨ ∃ y ∈ batch, version ≤ y
  missing : ∀ version, version ∈ after.needed ↔ version ∉ batch ∧
    (version ∈ bv.needed ∨ (bv.max.getD 0 < version ∧ ∃ y ∈ batch, version < y))

theorem extends_gaps : Extends bv batch (bv.computeAndApplyGaps batch).1 :=
  ⟨fun _ => reaches_max, fun _ => mem_needed⟩

theorem extends_entries (proper : ∀ entry ∈ processed, entry.1.start ≤ entry.1.stop) :
    Extends bv (processedVersions processed) (bv.computeAndApply processed).1 :=
  ⟨fun _ => reaches_computeAndApply proper, fun _ => mem_needed_computeAndApply⟩

theorem books_extend (books : Books bv known) (step : Extends bv batch after) :
    Books after (fun version => known version ∨ version ∈ batch) where
  reaches := by
    intro version
    rw [step.reached, books.reaches]
    constructor
    · rintro (⟨top, held, low⟩ | ⟨y, received, low⟩)
      · exact ⟨top, .inl held, low⟩
      · exact ⟨y, .inr received, low⟩
    · rintro ⟨top, held | received, low⟩
      · exact .inl ⟨top, held, low⟩
      · exact .inr ⟨top, received, low⟩
  needed := by
    intro version
    rw [step.missing, step.reached, books.needed, lt_getD_iff]
    constructor
    · rintro ⟨outside, ⟨positive, old, unknown⟩ | ⟨⟨positive, beyond⟩, y, received, less⟩⟩
      · exact ⟨positive, .inl old, fun either => either.elim unknown outside⟩
      · refine ⟨positive, .inr ⟨y, received, by omega⟩, fun either => either.elim ?_ outside⟩
        exact fun held => beyond (books.reaches_known held)
    · rintro ⟨positive, old | ⟨y, received, low⟩, unknown⟩
      · exact ⟨fun inside => unknown (.inr inside), .inl ⟨positive, old, fun held => unknown (.inl held)⟩⟩
      · have outside : version ∉ batch := fun inside => unknown (.inr inside)
        have less : version < y := by
          rcases Nat.lt_or_eq_of_le low with less | rfl
          · exact less
          · exact absurd received outside
        by_cases old : Reaches bv.max version
        · exact ⟨outside, .inl ⟨positive, old, fun held => unknown (.inl held)⟩⟩
        · exact ⟨outside, .inr ⟨⟨positive, old⟩, y, received, less⟩⟩

theorem books_computeAndApplyGaps (books : Books bv known) :
    Books (bv.computeAndApplyGaps batch).1 (fun version => known version ∨ version ∈ batch) :=
  books_extend books extends_gaps

/-- What survives a restart that forgets part of the maximum: the maximum, or zero
without one, is not itself missing. -/
def Settled (bv : BookedVersions) : Prop := bv.max.getD 0 ∉ bv.needed

theorem settled_new (actorId : ActorId) : Settled (BookedVersions.new actorId) := by
  simp [Settled]

theorem settled_extend (settled : Settled bv) (step : Extends bv batch after) : Settled after := by
  intro needed
  obtain ⟨reached, missing⟩ := step
  obtain ⟨outside, old | ⟨_, y, received, less⟩⟩ := (missing _).mp needed
  · cases top : after.max with
    | none =>
      have unset : bv.max = none := by
        cases before : bv.max with
        | none => rfl
        | some m =>
          have := (reached m).mpr (.inl (by simp [before]))
          simp [top] at this
      rw [top] at old
      exact settled (by rwa [unset])
    | some t =>
      rw [top, Option.getD_some] at old outside
      rcases (reached t).mp (by simp [top]) with ⟨m, is, low⟩ | ⟨y, received, low⟩
      · have high := (reached m).mpr (.inl (by simp [is]))
        rw [top, reaches_some] at high
        obtain rfl : m = t := by omega
        exact settled (by rwa [is, Option.getD_some])
      · have high := (reached y).mpr (.inr ⟨y, received, le_rfl⟩)
        rw [top, reaches_some] at high
        obtain rfl : y = t := by omega
        exact outside received
  · obtain ⟨t, top, high⟩ := (reached y).mpr (.inr ⟨y, received, le_rfl⟩)
    rw [top, Option.getD_some] at less
    omega

/-- One call that hands a batch of versions to the bookkeeping. -/
inductive Call where
  /-- `compute_and_apply_gaps(versions)`. -/
  | gaps (versions : RangeInclusiveSet)
  /-- `compute_and_apply(processed)`. -/
  | entries (processed : List Processed)

namespace Call

def versions : Call → RangeInclusiveSet
  | gaps versions => versions
  | entries processed => processedVersions processed

def apply (bv : BookedVersions) : Call → BookedVersions
  | gaps versions => (bv.computeAndApplyGaps versions).1
  | entries processed => (bv.computeAndApply processed).1

/-- Collecting an inverted range into a `RangeInclusiveSet` panics. -/
def Proper : Call → Prop
  | gaps _ => True
  | entries processed => ∀ entry ∈ processed, entry.1.start ≤ entry.1.stop

end Call

/-- The bookkeeping after a sequence of calls. -/
def run (bv : BookedVersions) (calls : List Call) : BookedVersions := calls.foldl Call.apply bv

/-- The ends of all ranges handed over so far. -/
def ends (calls : List Call) : Set Nat := {stop | ∃ call ∈ calls, ∃ r ∈ call.versions.ranges, r.stop = stop}

theorem books_apply (books : Books bv known) {call : Call} (proper : call.Proper) :
    Books (call.apply bv) (fun version => known version ∨ version ∈ call.versions) := by
  cases call with
  | gaps versions => exact books_computeAndApplyGaps books
  | entries _ => exact books_extend books (extends_entries proper)

theorem books_run {calls : List Call} (books : Books bv known) (proper : ∀ call ∈ calls, call.Proper) :
    Books (run bv calls) (fun version => known version ∨ ∃ call ∈ calls, version ∈ call.versions) := by
  induction calls generalizing bv known with
  | nil => simpa [run] using books
  | cons first _ ih =>
    have next := ih (books_apply books (proper first (by simp))) (fun call member => proper call (by simp [member]))
    simpa only [run, List.foldl_cons, List.mem_cons, exists_eq_or_imp, or_assoc] using next

theorem isGreatest_ends : IsGreatest (ends calls) m ↔ (∃ call ∈ calls, m ∈ call.versions) ∧
      ∀ call ∈ calls, ∀ version ∈ call.versions, version ≤ m := by
  constructor
  · rintro ⟨⟨call, member, r, held, rfl⟩, bound⟩
    refine ⟨⟨call, member, r, held, call.versions.canonical.1 r held, le_rfl⟩, ?_⟩
    rintro other otherMember version ⟨s, otherHeld, inside⟩
    have := bound ⟨other, otherMember, s, otherHeld, rfl⟩
    simp only [RangeInclusive.mem_def] at inside
    omega
  · rintro ⟨⟨call, member, r, held, inside⟩, bound⟩
    have proper := call.versions.canonical.1 r held
    have stopBound := bound call member r.stop ⟨r, held, proper, le_rfl⟩
    simp only [RangeInclusive.mem_def] at inside
    refine ⟨⟨call, member, r, held, by omega⟩, ?_⟩
    rintro stop ⟨other, otherMember, s, otherHeld, rfl⟩
    exact bound other otherMember s.stop ⟨s, otherHeld, other.versions.canonical.1 s otherHeld, le_rfl⟩

/-- **The gap invariant.** After any sequence of batches handed to an empty
`BookedVersions`, the maximum is the greatest end handed over, the needed
versions are exactly those from one to the maximum in no batch, and the maximum
is not among them. -/
theorem needed_is_what_the_batches_lack (actorId : ActorId) (calls : List Call) (proper : ∀ call ∈ calls, call.Proper) :
    (∀ m, (run (.new actorId) calls).max = some m ↔ IsGreatest (ends calls) m) ∧
    (∀ version, version ∈ (run (.new actorId) calls).needed ↔
      (1 ≤ version ∧ ∃ m, (run (.new actorId) calls).max = some m ∧ version ≤ m) ∧
        ∀ call ∈ calls, version ∉ call.versions) ∧
    ∀ m, (run (.new actorId) calls).max = some m → m ∉ (run (.new actorId) calls).needed := by
  have books := books_run (books_new actorId) proper
  refine ⟨fun m => ?_, fun version => ?_, fun m is => books.max_not_needed is⟩
  · rw [isGreatest_ends, eq_some_iff_reaches, books.reaches, books.reaches]
    simp only [false_or]
    constructor
    · rintro ⟨⟨top, ⟨call, member, inside⟩, low⟩, bound⟩
      have upper : ∀ other ∈ calls, ∀ version ∈ other.versions, version ≤ m := by
        intro other otherMember version held
        by_contra above
        exact bound ⟨version, ⟨other, otherMember, held⟩, by omega⟩
      have topBound := upper call member top inside
      obtain rfl : top = m := by omega
      exact ⟨⟨call, member, inside⟩, upper⟩
    · rintro ⟨held, upper⟩
      refine ⟨⟨m, held, le_rfl⟩, ?_⟩
      rintro ⟨top, ⟨call, member, inside⟩, above⟩
      have := upper call member top inside
      omega
  · rw [books.needed]
    simp [Reaches, and_assoc]

example : (run (.new 7) [Call.gaps (.ofRanges [⟨9, 10⟩, ⟨5, 5⟩]),
    Call.entries [(⟨2, 5⟩, none)]]).needed.ranges = [⟨1, 1⟩, ⟨6, 8⟩] := by decide

end Galvanize.BookieInvariant
