import Galvanize.BatchMemory
import Galvanize.BatchingProofs

/-! What the `seen` cache of `handle_changes` vouches for. A cached seq is one
that is queued, in the batch being processed, or known to the bookkeeping; drops
from the queue and evictions keep it so. What does not is a batch that fails, of
which the cache keeps everything, and an entry made by a chunk, which also
answers for the version as a whole. -/
namespace Galvanize.SeenCacheProofs
open BookedVersions BookieProofs ProcessProofs AcceptedChanges BatchMemory BatchingProofs HandleChangesState List
  RangeInclusiveSet RangeInclusive

/-! ### What is still held -/

/-- A seq is in a waiting change or in the bookkeeping. -/
def SeqHeld (waiting : List ChangeV1) (bookie : Bookie) (actor : ActorId) (version seq : Nat) : Prop :=
  (∃ change ∈ waiting, change.actorId = actor ∧ version ∈ change.versions ∧
    ∃ seqs, change.seqs = some seqs ∧ seq ∈ seqs) ∨
  (bookie.ensure actor).contains version (some (.single seq)) = true

/-- A version as a whole is in a waiting change or in the bookkeeping. -/
def VersionHeld (waiting : List ChangeV1) (bookie : Bookie) (actor : ActorId) (version : Nat) : Prop :=
  (∃ change ∈ waiting, change.actorId = actor ∧ version ∈ change.versions ∧ change.seqs = none) ∨
  (bookie.ensure actor).contains version none = true

/-- The actor, versions and seqs of a change are held. -/
def Held (waiting : List ChangeV1) (bookie : Bookie) (change : ChangeV1) : Prop :=
  match change.seqs with
  | some seqs => ∀ version ∈ change.versions, ∀ seq ∈ seqs, SeqHeld waiting bookie change.actorId version seq
  | none => ∀ version ∈ change.versions, VersionHeld waiting bookie change.actorId version

/-- What the cache says is held; an entry alone says so of a version unless a
changeset with seqs has arrived for it. -/
structure Backed (seen : SeenCache) (waiting : List ChangeV1) (bookie : Bookie) (arrived : List ChangeV1) : Prop where
  seqs : ∀ actor version cached, seen.get? (actor, version) = some cached →
    ∀ seq ∈ cached, SeqHeld waiting bookie actor version seq
  versions : ∀ actor version cached, seen.get? (actor, version) = some cached →
    VersionHeld waiting bookie actor version ∨
      ∃ change ∈ arrived, change.seqs ≠ none ∧ change.actorId = actor ∧ version ∈ change.versions

variable {seen : SeenCache} {waiting more arrived later : List ChangeV1} {bookie next : Bookie}
  {change dropped : ChangeV1} {actor : ActorId} {version : Nat}

section
variable (kept : ∀ change ∈ waiting, change ∈ more) (grows : Grows (bookie.ensure actor) (next.ensure actor))
include kept grows

theorem SeqHeld.mono (held : SeqHeld waiting bookie actor version seq) : SeqHeld more next actor version seq := by
  rcases held with ⟨change, listed, is⟩ | contained
  · exact .inl ⟨change, kept change listed, is⟩
  · exact .inr (grows _ _ contained)

theorem VersionHeld.mono (held : VersionHeld waiting bookie actor version) : VersionHeld more next actor version := by
  rcases held with ⟨change, listed, is⟩ | contained
  · exact .inl ⟨change, kept change listed, is⟩
  · exact .inr (grows _ _ contained)

end

theorem Backed.mono (backed : Backed seen waiting bookie arrived) (kept : ∀ change ∈ waiting, change ∈ more)
    (grows : ∀ actor, Grows (bookie.ensure actor) (next.ensure actor)) : Backed seen more next arrived :=
  ⟨fun actor version cached is seq member => (backed.seqs actor version cached is seq member).mono kept (grows actor),
    fun actor version cached is => (backed.versions actor version cached is).imp_left
      (·.mono kept (grows actor))⟩

/-- A batch that is remembered passes from the waiting changes to the bookkeeping. -/
theorem Backed.applied {batch queue : List ChangeV1} (backed : Backed seen (queue ++ batch) bookie arrived)
    (contained : ∀ change ∈ batch, (next.ensure change.actorId).containsAll change.versions change.seqs = true)
    (grows : ∀ actor, Grows (bookie.ensure actor) (next.ensure actor)) : Backed seen queue next arrived := by
  constructor
  · intro actor version cached is seq member
    rcases backed.seqs actor version cached is seq member with ⟨change, listed, rfl, inside, given, has, within⟩ | known
    · rcases mem_append.mp listed with queued | processed
      · exact .inl ⟨change, queued, rfl, inside, given, has, within⟩
      · refine .inr (contains_iff.mpr ?_)
        obtain ⟨known, held⟩ := contains_iff.mp (containsAll_iff.mp (contained change processed) version inside)
        refine ⟨known, fun part isPart => ⟨_, rfl, ?_⟩⟩
        obtain ⟨checked, same, all⟩ := held part isPart
        obtain rfl : given = checked := by
          rw [has] at same
          exact Option.some.inj same
        intro other single
        rw [mem_single] at single
        exact all other (single ▸ within)
    · exact .inr (grows actor _ _ known)
  · intro actor version cached is
    refine (backed.versions actor version cached is).imp_left ?_
    rintro (⟨change, listed, rfl, inside, none_⟩ | known)
    · rcases mem_append.mp listed with queued | processed
      · exact .inl ⟨change, queued, rfl, inside, none_⟩
      · have whole := containsAll_iff.mp (contained change processed) version inside
        rw [none_] at whole
        exact .inr whole
    · exact .inr (grows actor _ _ known)

/-! ### The operations of the cache -/

theorem forgetVersions_get {versions : List Nat}
    (is : (versions.foldl (SeenCache.forgetVersion dropped) seen).get? (actor, version) = some cached) :
    ∃ before, seen.get? (actor, version) = some before ∧ (∀ seq ∈ cached, seq ∈ before) ∧
      (dropped.actorId = actor → version ∈ versions →
        ∃ seqs, dropped.seqs = some seqs ∧ ∀ seq ∈ cached, seq ∉ seqs) := by
  induction versions generalizing seen with
  | nil => exact ⟨cached, is, fun _ member => member, fun _ listed => by cases listed⟩
  | cons first _ ih =>
    obtain ⟨middle, isMiddle, fewer, cut⟩ := ih is
    -- what the first turn does to the entry looked at
    have turn : ∃ before, seen.get? (actor, version) = some before ∧ (∀ seq ∈ middle, seq ∈ before) ∧
        (dropped.actorId = actor → version = first → ∃ seqs, dropped.seqs = some seqs ∧
          ∀ seq ∈ middle, seq ∉ seqs) := by
      unfold SeenCache.forgetVersion at isMiddle
      split at isMiddle
      · split at isMiddle
        · rename_i seqs has
          rw [IndexMap.get?_upsert] at isMiddle
          split at isMiddle
          · rename_i same
            obtain ⟨rfl, rfl⟩ := Prod.mk.injEq .. ▸ same
            rename_i present
            obtain ⟨before, isBefore⟩ := IndexMap.containsKey_iff.mp present
            rw [isBefore] at isMiddle
            obtain rfl := Option.some.inj isMiddle
            simp only [Option.getD_some, mem_remove]
            exact ⟨before, isBefore, fun _ member => member.1, fun _ _ => ⟨seqs, has, fun _ member => member.2⟩⟩
          · rename_i different
            exact ⟨middle, isMiddle, fun _ member => member, fun sameActor sameVersion =>
              absurd (by rw [sameActor, sameVersion]) different⟩
        · rw [IndexMap.get?_swapRemove] at isMiddle
          split at isMiddle
          · cases isMiddle
          · rename_i different
            exact ⟨middle, isMiddle, fun _ member => member, fun sameActor sameVersion =>
              absurd (by rw [sameActor, sameVersion]) different⟩
      · rename_i absent
        refine ⟨middle, isMiddle, fun _ member => member, fun sameActor sameVersion => ?_⟩
        refine absurd (IndexMap.containsKey_iff.mpr ⟨middle, ?_⟩) absent
        rw [sameActor, ← sameVersion]
        exact isMiddle
    obtain ⟨before, isBefore, fewerBefore, cutBefore⟩ := turn
    refine ⟨before, isBefore, fun seq member => fewerBefore seq (fewer seq member), fun own listed => ?_⟩
    rcases mem_cons.mp listed with here | later
    · obtain ⟨seqs, has, none_⟩ := cutBefore own here
      exact ⟨seqs, has, fun seq member => none_ seq (fewer seq member)⟩
    · exact cut own later

/-- Dropping a change from the queue takes what it alone vouched for out of the cache. -/
theorem Backed.forget (backed : Backed seen (dropped :: waiting) bookie arrived)
    (known : dropped ∈ arrived) : Backed (seen.forget dropped) waiting bookie arrived := by
  constructor
  · intro actor version cached is seq member
    obtain ⟨before, isBefore, fewer, cut⟩ := forgetVersions_get is
    rcases backed.seqs actor version before isBefore seq (fewer seq member) with
      ⟨change, listed, own, inside, given, has, within⟩ | contained
    · rcases mem_cons.mp listed with rfl | stays
      · obtain ⟨seqs, isSeqs, none_⟩ := cut own (mem_toList.mpr inside)
        rw [has] at isSeqs
        cases isSeqs
        exact absurd within (none_ seq member)
      · exact .inl ⟨change, stays, own, inside, given, has, within⟩
    · exact .inr contained
  · intro actor version cached is
    obtain ⟨before, isBefore, _, cut⟩ := forgetVersions_get is
    rcases backed.versions actor version before isBefore with (⟨change, listed, own, inside, none_⟩ | contained) | chunk
    · rcases mem_cons.mp listed with rfl | stays
      · obtain ⟨seqs, isSeqs, _⟩ := cut own (mem_toList.mpr inside)
        rw [none_] at isSeqs
        cases isSeqs
      · exact .inl (.inl ⟨change, stays, own, inside, none_⟩)
    · exact .inl (.inr contained)
    · exact .inr chunk

theorem registered_seqs {seq : Nat} {held : Option RangeInclusiveSet} (member : seq ∈ (match change.seqs with
      | some seqs => (held.getD ∅).extend [seqs]
      | none => held.getD ∅)) :
    (∃ before, held = some before ∧ seq ∈ before) ∨ ∃ seqs, change.seqs = some seqs ∧ seq ∈ seqs := by
  cases has : change.seqs with
  | none =>
    rw [has] at member
    cases held with
    | none => exact absurd member not_mem_empty
    | some before => exact .inl ⟨before, rfl, member⟩
  | some seqs =>
    rw [has] at member
    simp only [RangeInclusiveSet.mem_extend, mem_singleton, exists_eq_left] at member
    rcases member with old | new
    · cases held with
      | none => exact absurd old not_mem_empty
      | some before => exact .inl ⟨before, rfl, old⟩
    · exact .inr ⟨seqs, rfl, new⟩

theorem registerVersions_get {versions : List Nat}
    (is : (versions.foldl (SeenCache.registerVersion change) seen).get? (actor, version) = some cached) :
    ((∃ before, seen.get? (actor, version) = some before) ∨ (change.actorId = actor ∧ version ∈ versions)) ∧
    ∀ seq ∈ cached, (∃ before, seen.get? (actor, version) = some before ∧ seq ∈ before) ∨
      (change.actorId = actor ∧ version ∈ versions ∧ ∃ seqs, change.seqs = some seqs ∧ seq ∈ seqs) := by
  induction versions generalizing seen with
  | nil => exact ⟨.inl ⟨cached, is⟩, fun seq member => .inl ⟨cached, is, member⟩⟩
  | cons first _ ih =>
    obtain ⟨present, members⟩ := ih is
    have turn : ∀ middle, (SeenCache.registerVersion change seen first).get? (actor, version) = some middle →
        ((∃ before, seen.get? (actor, version) = some before) ∨ (change.actorId = actor ∧ version = first)) ∧
        ∀ seq ∈ middle, (∃ before, seen.get? (actor, version) = some before ∧ seq ∈ before) ∨
          (change.actorId = actor ∧ version = first ∧ ∃ seqs, change.seqs = some seqs ∧ seq ∈ seqs) := by
      intro middle isMiddle
      rw [SeenCache.registerVersion, IndexMap.get?_upsert] at isMiddle
      split at isMiddle
      · rename_i same
        obtain ⟨rfl, rfl⟩ := Prod.mk.injEq .. ▸ same
        refine ⟨.inr ⟨rfl, rfl⟩, fun seq member => ?_⟩
        rw [← Option.some.inj isMiddle] at member
        have added := @registered_seqs change seq (seen.get? (change.actorId, version)) member
        exact added.imp_right fun own => ⟨rfl, rfl, own⟩
      · exact ⟨.inl ⟨middle, isMiddle⟩, fun seq member => .inl ⟨middle, isMiddle, member⟩⟩
    constructor
    · rcases present with ⟨middle, isMiddle⟩ | ⟨own, listed⟩
      · exact (turn middle isMiddle).1.imp_right fun is => ⟨is.1, mem_cons.mpr (.inl is.2)⟩
      · exact .inr ⟨own, mem_cons_of_mem _ listed⟩
    · intro seq member
      rcases members seq member with ⟨middle, isMiddle, held⟩ | ⟨own, listed, given⟩
      · exact ((turn middle isMiddle).2 seq held).imp_right fun is => ⟨is.1, mem_cons.mpr (.inl is.2.1), is.2.2⟩
      · exact .inr ⟨own, mem_cons_of_mem _ listed, given⟩

section
variable (backed : Backed seen waiting bookie arrived)
include backed

/-- A queued change is registered. -/
theorem Backed.register : Backed (seen.register change) (waiting ++ [change]) bookie (arrived ++ [change]) := by
  have wider := backed.mono (fun other listed => mem_append_left [change] listed) (fun _ => .refl)
  constructor
  · intro actor version cached is seq member
    rcases (registerVersions_get is).2 seq member with ⟨before, isBefore, held⟩ | ⟨own, inside, seqs, has, within⟩
    · exact wider.seqs actor version before isBefore seq held
    · exact .inl ⟨change, by simp, own, mem_toList.mp inside, seqs, has, within⟩
  · intro actor version cached is
    rcases (registerVersions_get is).1 with ⟨before, isBefore⟩ | ⟨own, inside⟩
    · refine (wider.versions actor version before isBefore).imp_right ?_
      rintro ⟨other, listed, other_⟩
      exact ⟨other, mem_append_left _ listed, other_⟩
    · have named := mem_toList.mp inside
      cases has : change.seqs with
      | none => exact .inl (.inl ⟨change, by simp, own, named, has⟩)
      | some seqs => exact .inr ⟨change, by simp, by simp [has], own, named⟩

theorem Backed.maintain : Backed (seen.maintain limit) waiting bookie arrived := by
  unfold SeenCache.maintain
  dsimp only
  split
  · exact ⟨fun actor version cached is => backed.seqs actor version cached (IndexMap.get?_drainFirst is),
      fun actor version cached is => backed.versions actor version cached (IndexMap.get?_drainFirst is)⟩
  · exact backed

end

end Galvanize.SeenCacheProofs
