import Galvanize.MemberReconciliation

/-! Two identities with one address (`corro-types/src/actor.rs`): the later reading of the
clock wins, while equality goes by its duration. -/
namespace Galvanize.Actor

variable (clock : Timestamp → Nat)

/-- `ActorAddr::eq`: a node known by its address alone has the nil id. -/
def sameAddr (self other : Actor) : Bool :=
  if self.id = 0 ∨ other.id = 0 then self.addr = other.addr else self.id = other.id

/-- `win_addr_conflict` compares the readings, not their durations. -/
def winAddrConflict (self adversary : Actor) : Bool := adversary.ts < self.ts

/-- `renew`, at a reading of the wall clock. -/
def renew (self : Actor) (now : Timestamp) : Actor := { self with ts := now }

/-- What `Timestamp::hash` feeds: the duration. -/
def hashed (ts : Timestamp) : Nat := clock ts

theorem wins_iff {self adversary : Actor} : self.winAddrConflict adversary ↔ adversary.ts < self.ts :=
    decide_eq_true_iff

/-- Timestamps are equal as hash and order say, one of two unequal identities with one address
wins, winning is transitive and a renewed identity wins over the old one, exactly if equal
readings are one reading, the identities have two, and the wall clock is past the old one. -/
theorem conflict_resolved_iff (left right now : Timestamp) (one other third : Actor) :
    ((clock left = clock right → hashed clock left = hashed clock right) ∧
      (clock left = clock right ↔ ¬left < right ∧ ¬right < left) ∧
      (¬one.Same clock other → one.sameAddr other → (one.winAddrConflict other ↔ ¬other.winAddrConflict one)) ∧
      (one.winAddrConflict other → other.winAddrConflict third → one.winAddrConflict third) ∧
      (one.renew now).winAddrConflict one) ↔
    (clock left = clock right → left = right) ∧
      (¬one.Same clock other → one.sameAddr other → one.ts ≠ other.ts) ∧ one.ts < now := by
  have neither (a b : Nat) : ¬a < b ∧ ¬b < a ↔ a = b := by omega
  have exclusive (a b : Nat) : (b < a ↔ ¬a < b) ↔ a ≠ b := by omega
  simp only [wins_iff, neither, exclusive]
  constructor
  · rintro ⟨-, readings, identities, -, later⟩
    exact ⟨readings.mp, identities, later⟩
  · rintro ⟨readings, identities, later⟩
    exact ⟨fun equal => equal, ⟨readings, congrArg clock⟩, identities, fun first second => Nat.lt_trans second first,
      later⟩

/-- The seconds and the nanoseconds of an NTP64 in one number; the carry rounds them. -/
def ntpClock (carry : Nat) (ts : Timestamp) : Nat :=
  ts / 4294967296 * 4294967296 + (ts % 4294967296 * 1000000000 + carry) / 4294967296

/-- Rounded down or up, two readings are equal and yet in order; of two lives with one reading
none wins; and a clock that was set back renews to a loser. -/
theorem conflicts_unresolved : (∀ carry ∈ [0, 4294967295], ntpClock carry 1 = ntpClock carry 2) ∧ (1 : Timestamp) < 2 ∧
    (∃ one other : Actor, ¬one.Same (ntpClock 0) other ∧ one.sameAddr other ∧
      one.winAddrConflict other = false ∧ other.winAddrConflict one = false) ∧
    ((lifeOf 1 5).renew 4).winAddrConflict (lifeOf 1 5) = false := by
  refine ⟨by simp [ntpClock], by simp, ⟨lifeOf 1 5, { lifeOf 1 5 with clusterId := 1 }, ?_, rfl, rfl, rfl⟩, rfl⟩
  simp [Actor.Same, lifeOf]

end Galvanize.Actor
