import Galvanize.Members
import Galvanize.InverseMaps
import Galvanize.Runs

/-! Whether the index of addresses and the table of members stay each other's inverse. An
operation updates both with the address it is given, which need not be the address that is
recorded of the actor, nor one that no other actor has. -/
namespace Galvanize.Members
open Option

variable {clock : Timestamp → Nat} {self : Members} {actor : Actor} {addr : SocketAddr} {id : ActorId}

/-! ### What the operations do to the two maps -/

/-- The member with the ring that the samples of an address give it. -/
def ringed (self : Members) (addr : SocketAddr) (state : MemberState) : MemberState :=
  match self.rtts[addr]?.bind Rtt.maxMs with
  | some max => { state with ring := some (ringWithHysteresis state.ring max) }
  | none => state

theorem ringed_addr : (self.ringed addr state).addr = state.addr := by
  unfold ringed
  cases self.rtts[addr]?.bind Rtt.maxMs with
  | none => rfl
  | some _ => rfl

/-- Nothing but the table of members changes. -/
theorem recalculateRings_eq : ∃ states, self.recalculateRings addr = { self with states } := by
  unfold recalculateRings
  cases self.byAddr[addr]? with
  | none => exact ⟨_, rfl⟩
  | some _ =>
    cases self.rtts[addr]?.bind Rtt.maxMs with
    | none | some max => exact ⟨_, rfl⟩

/-- Only the member that the index names gets a ring. -/
theorem states_recalculateRings : (self.recalculateRings addr).states[id]? =
    (self.states[id]?).map fun state => if self.byAddr[addr]? = some id then self.ringed addr state else state := by
  unfold recalculateRings ringed
  cases isActor : self.byAddr[addr]? with
  | none => simp
  | some actorId =>
    cases isMax : self.rtts[addr]?.bind Rtt.maxMs with
    | none => simp
    | some _ =>
      rw [Std.ExtTreeMap.getElem?_modify]
      by_cases own : actorId = id
      · subst own
        simp
      · have other : compare actorId id ≠ .eq := fun same => own (Std.LawfulEqOrd.compare_eq_iff_eq.mp same)
        simp [own]

theorem addrOf_recalculateRings : (self.recalculateRings addr).addrOf = self.addrOf := by
  funext id
  rw [addrOf, states_recalculateRings, Option.map_map, addrOf]
  apply congrArg (Option.map · _)
  funext state
  change (if self.byAddr[addr]? = some id then self.ringed addr state else state).addr = _
  by_cases own : self.byAddr[addr]? = some id
  · rw [if_pos own]
    exact ringed_addr
  · rw [if_neg own]

theorem actorAt_recalculateRings : (self.recalculateRings addr).actorAt = self.actorAt := by
  obtain ⟨_, is⟩ := @recalculateRings_eq self addr
  rw [is]
  rfl

section
variable {states : Map ActorId MemberState} {byAddr : Map SocketAddr ActorId}

theorem addrOf_erase : { self with states := self.states.erase id, byAddr }.addrOf =
    Function.update self.addrOf id none := by
  change Option.map MemberState.addr ∘ (fun other => (self.states.erase id)[other]?) = _
  rw [lookup_erase, Function.comp_update]
  rfl

theorem addrOf_insert : { self with states := self.states.insert id state, byAddr }.addrOf =
    Function.update self.addrOf id (some state.addr) := by
  change Option.map MemberState.addr ∘ (fun other => (self.states.insert id state)[other]?) = _
  rw [lookup_insert, Function.comp_update]
  rfl

theorem actorAt_erase : { self with states, byAddr := self.byAddr.erase addr }.actorAt =
    Function.update self.actorAt addr none := lookup_erase

theorem actorAt_insert : { self with states, byAddr := self.byAddr.insert addr id }.actorAt =
    Function.update self.actorAt addr (some id) := lookup_insert

end

/-! ### Operations -/

inductive Op where
  | addMember (actor : Actor)
  | removeMember (actor : Actor)
  | addRtt (addr : SocketAddr) (rtt : Nat)

variable (clock self)

namespace Op

def apply : Op → Members
  | addMember actor => (self.addMember clock actor).1
  | removeMember actor => (self.removeMember clock actor).1
  | addRtt addr rtt => self.addRtt addr rtt

end Op

/-- What `add_member` needs: an actor of another member id is known under its address, or
neither of them is known; a new member comes to an address that nobody has; one that is
renewed stays where it was. -/
def AddsInPlace (actor : Actor) : Prop :=
  if actor.memberId ≠ self.memberId then self.actorAt actor.addr = (self.addrOf actor.id).map fun _ => actor.id
  else
    match self.states[actor.id]? with
    | none => self.actorAt actor.addr = none
    | some member => clock member.ts < clock actor.ts → member.addr = actor.addr

/-- What `remove_member` needs: the actor is removed from the address that is recorded. -/
def RemovesInPlace (actor : Actor) : Prop :=
  ∀ member, self.states[actor.id]? = some member → clock member.ts = clock actor.ts → member.addr = actor.addr

/-- The operation is about the address at which the index has the actor. -/
def Op.Keeps : Op → Prop
  | addMember actor => self.AddsInPlace clock actor
  | removeMember actor => self.RemovesInPlace clock actor
  | addRtt _ _ => True

/-- The index maps an address to an actor exactly if the table has the actor with that address. -/
def Consistent : Prop := Inverse self.actorAt self.addrOf

variable {clock self}

theorem addrOf_some (found : self.states[id]? = some member) : self.addrOf id = some member.addr := by
  rw [addrOf, found]
  rfl

section
variable (consistent : self.Consistent)
include consistent

theorem addMember_keeps_iff :
    (self.addMember clock actor).1.Consistent ↔ self.AddsInPlace clock actor := by
  unfold addMember AddsInPlace Consistent
  by_cases other : actor.memberId ≠ self.memberId
  · rw [if_pos other, if_pos other]
    rw [addrOf_erase, actorAt_erase]
    exact consistent.erase_iff
  · rw [if_neg other, if_neg other]
    cases found : self.states[actor.id]? with
    | none =>
      have new : self.addrOf actor.id = none := by
        rw [addrOf, found]
        rfl
      rw [addrOf_recalculateRings, actorAt_recalculateRings, addrOf_insert, actorAt_insert]
      exact consistent.insert_iff new
    | some member =>
      dsimp only
      by_cases newer : clock member.ts < clock actor.ts
      · rw [if_pos newer, imp_iff_right newer]
        rw [addrOf_insert]
        exact consistent.move_iff (addrOf_some found)
      · rw [if_neg newer]
        exact ⟨fun _ is => absurd is newer, fun _ => consistent⟩

theorem removeMember_keeps_iff :
    (self.removeMember clock actor).1.Consistent ↔ self.RemovesInPlace clock actor := by
  unfold removeMember RemovesInPlace Consistent
  cases found : self.states[actor.id]? with
  | none =>
    refine ⟨fun _ member is => ?_, fun _ => consistent⟩
    exact absurd is (some_ne_none member).symm
  | some member =>
    have held := addrOf_some found
    simp only [some.injEq, forall_eq']
    by_cases same : clock member.ts = clock actor.ts
    · rw [if_pos same, imp_iff_right same]
      rw [addrOf_erase, actorAt_erase, consistent.erase_iff, held]
      constructor
      · intro isActor
        exact some.inj (held.symm.trans ((consistent _ _).mp isActor))
      · intro where_
        rw [← where_]
        exact (consistent _ _).mpr held
    · rw [if_neg same]
      exact ⟨fun _ is => absurd is same, fun _ => consistent⟩

theorem addRtt_consistent : (self.addRtt addr rtt).Consistent := by
  unfold addRtt Consistent
  rw [addrOf_recalculateRings, actorAt_recalculateRings]
  exact consistent

/-- From a consistent state an operation leads to another one exactly if it keeps to the
recorded addresses. -/
theorem apply_keeps_iff {op : Op} : (op.apply clock self).Consistent ↔ op.Keeps clock self := by
  cases op with
  | addMember actor => exact addMember_keeps_iff consistent
  | removeMember actor => exact removeMember_keeps_iff consistent
  | addRtt _ _ => exact ⟨fun _ => trivial, fun _ => addRtt_consistent consistent⟩

end

theorem new_consistent {memberId : Option MemberId} : (Members.new memberId).Consistent := by
  intro addr id
  change (∅ : Map SocketAddr ActorId)[addr]? = _ ↔ ((∅ : Map ActorId MemberState)[id]?).map _ = _
  simp

/-! ### Runs -/

def run (clock : Timestamp → Nat) (ops : List Op) (self : Members) : Members := ops.foldl (Op.apply clock) self

/-- A sample for an address is counted for the member at that address and for no other. -/
def SampleReaches (self : Members) : Prop :=
  ∀ (addr : SocketAddr) (rtt : Nat) (id : ActorId) (member : MemberState), self.states[id]? = some member →
    (self.addRtt addr rtt).states[id]? =
      some (if member.addr = addr then (self.addRtt addr rtt).ringed addr member else member)

theorem ringed_recalculateRings : (self.recalculateRings addr).ringed addr state = self.ringed addr state := by
  obtain ⟨_, is⟩ := @recalculateRings_eq self addr
  rw [is]
  rfl

theorem sample_reaches (consistent : self.Consistent) : self.SampleReaches := by
  intro addr _ id member found
  have whose : self.byAddr[addr]? = some id ↔ member.addr = addr := by
    have held := consistent addr id
    rw [addrOf_some found, some.injEq] at held
    exact held
  unfold addRtt
  rw [states_recalculateRings, ringed_recalculateRings]
  rw [found, map_some]
  by_cases own : member.addr = addr
  · rw [if_pos own, if_pos (whose.mpr own)]
  · rw [if_neg own, if_neg fun held => own (whose.mp held)]

/-- In a run from the empty table the two maps are each other's inverse throughout, and each
sample reaches the member at its address, exactly if every operation keeps to the addresses
that are recorded when it comes. -/
theorem index_kept_iff (clock : Timestamp → Nat) (memberId : Option MemberId) (ops : List Op) :
    (∀ before, before <+: ops →
      (run clock before (.new memberId)).Consistent ∧ (run clock before (.new memberId)).SampleReaches) ↔
      ∀ before op, before ++ [op] <+: ops → op.Keeps clock (run clock before (.new memberId)) := by
  have throughout := @throughout_iff _ _ (Op.apply clock) (.new memberId) Consistent (Op.Keeps clock) new_consistent
    (fun _ _ sound => apply_keeps_iff sound) ops
  constructor
  · intro each
    exact throughout.mp fun before leads => (each before leads).1
  · intro each before leads
    have consistent := throughout.mpr each before leads
    exact ⟨consistent, sample_reaches consistent⟩

/-- A node at some address since some time. -/
def nodeAt (addr : SocketAddr) (ts : Timestamp) : Actor := ⟨1, addr, ts, 0, none⟩

/-- After a member has moved from address 10 to address 20 the index still has it at the
old address, and a sample for the new address is not counted for it. -/
theorem moved_member_lost :
    ¬(run (fun ts => ts) [.addMember (nodeAt 10 1), .addMember (nodeAt 20 2)] (.new none)).Consistent ∧
      ¬(run (fun ts => ts) [.addMember (nodeAt 10 1), .addMember (nodeAt 20 2)] (.new none)).SampleReaches := by
  have old : (run (fun ts => ts) [.addMember (nodeAt 10 1), .addMember (nodeAt 20 2)] (.new none)).actorAt 10 =
    some 1 := by
    decide +kernel
  have new : (run (fun ts => ts) [.addMember (nodeAt 10 1), .addMember (nodeAt 20 2)] (.new none)).addrOf 1 =
    some 20 := by
    decide +kernel
  constructor
  · intro consistent
    cases new.symm.trans ((consistent 10 1).mp old)
  · intro reaches
    have counted := reaches 20 3000000 1 ⟨20, 2, 0, none, none, none⟩ (by decide +kernel)
    exact absurd counted (by decide +kernel)

end Galvanize.Members
