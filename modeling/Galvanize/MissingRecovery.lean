import Mathlib.Logic.Relation
import Galvanize.OperationCases

/-! Announced messages that did not come: every one of them is in the hands of a timer
that has not fired yet, until it arrives or every sender of its announcement was asked. -/
namespace Galvanize.Plumtree
open List

namespace PlumtreeState
variable {N I P S : Type} [LinearOrder N] [DecidableEq I]
variable {proto : Protocol N I P S} {around : Surround N} {self after : PlumtreeState N I P S}
    {effects : List (Effect N I P)}

/-- Announced and neither received nor given up. -/
def IsMissing (self : PlumtreeState N I P S) (id : I) : Prop := ∃ entry, self.missing.get? id = some entry

omit [LinearOrder N] in
theorem isMissing_shiftRemove {id other : I} :
    IsMissing ({ self with missing := self.missing.shiftRemove other } : PlumtreeState N I P S) id ↔
      id ≠ other ∧ self.IsMissing id := by
  unfold IsMissing
  rw [IndexMap.get?_shiftRemove]
  by_cases same : id = other <;> simp [same]

omit [LinearOrder N] in
theorem isMissing_upsert {id other : I} {change : Option (MissingEntry N) → MissingEntry N} :
    IsMissing ({ self with missing := self.missing.upsert other change } : PlumtreeState N I P S) id ↔
      id = other ∨ self.IsMissing id := by
  unfold IsMissing
  rw [IndexMap.get?_upsert]
  by_cases same : id = other <;> simp [same]

/-! ### Announcements -/

/-- The new ids of the digests so far: distinct, missing, and all that became missing. -/
structure Noted (start : PlumtreeState N I P S) (held : PlumtreeState N I P S × List I) : Prop where
  nodup : held.2.Nodup
  missing : ∀ id ∈ held.2, held.1.IsMissing id
  covered : ∀ id, held.1.IsMissing id → start.IsMissing id ∨ id ∈ held.2

theorem noteDigest_noted {start : PlumtreeState N I P S} {held : PlumtreeState N I P S × List I}
    (noted : Noted start held)
    (sender : N) (digest : IHaveDigest I) : Noted start (noteDigest proto sender held digest) := by
  unfold noteDigest
  by_cases ignored : held.1.ignoresDigest proto digest.id = true
  · rw [if_pos ignored]
    exact noted
  rw [if_neg ignored]
  have new : ¬held.1.IsMissing digest.id := by
    intro missing
    apply ignored
    unfold ignoresDigest
    rw [IndexMap.containsKey_iff.mpr missing, Bool.or_true]
  refine ⟨IndexSet.nodup_append_singleton noted.nodup fun listed => new (noted.missing _ listed), ?_, ?_⟩
  · intro id listed
    rw [isMissing_upsert]
    rcases mem_append.mp listed with before | last
    · exact .inr (noted.missing id before)
    · exact .inl (mem_singleton.mp last)
  · intro id missing
    rw [mem_append, mem_singleton]
    rcases isMissing_upsert.mp missing with same | before
    · exact .inr (.inr same)
    · rcases noted.covered id before with already | listed
      · exact .inl already
      · exact .inr (.inl listed)

theorem noteDigests_noted (sender : N) (digests : List (IHaveDigest I)) :
    Noted self (digests.foldl (noteDigest proto sender) (self, [])) := by
  have start : Noted self ((self, []) : PlumtreeState N I P S × List I) :=
    ⟨nodup_nil, fun _ listed => absurd listed not_mem_nil, fun _ missing => .inl missing⟩
  have keeps (held : PlumtreeState N I P S × List I) (noted : Noted self held) :
      Noted self (digests.foldl (noteDigest proto sender) held) := by
    induction digests generalizing held with
    | nil => exact noted
    | cons first _ ih => exact ih _ (noteDigest_noted noted sender first)
  exact keeps _ start

/-- What an announcement starts: no timer if nothing is new, else one over the new ids with
one or two senders. -/
structure Announced (before after : PlumtreeState N I P S) (effects : List (Effect N I P)) : Prop where
  requests : requests effects = []
  timers : (timers effects = [] ∧ ∀ id, after.IsMissing id → before.IsMissing id) ∨
    ∃ ids senders, timers effects = [⟨ids, 0, senders⟩] ∧ ids.Nodup ∧ 0 < senders.length ∧ senders.length ≤ 2 ∧
      ∀ id, after.IsMissing id → before.IsMissing id ∨ id ∈ ids

theorem handleIHave_announced (sender : N) (digests : List (IHaveDigest I)) :
    Announced self (self.handleIHave proto around sender digests).1
      (self.handleIHave proto around sender digests).2 := by
  have noted := @noteDigests_noted N I P S _ _ proto self sender digests
  unfold handleIHave
  dsimp only
  by_cases none : (digests.foldl (noteDigest proto sender) (self, [])).2 = []
  · rw [if_pos none]
    refine ⟨rfl, .inl ⟨rfl, fun id missing => ?_⟩⟩
    have covered := noted.covered id missing
    rw [none] at covered
    exact covered.resolve_right not_mem_nil
  · rw [if_neg none]
    refine ⟨rfl, .inr ⟨_, _, rfl, noted.nodup, ?_, ?_, noted.covered⟩⟩
    · exact Nat.succ_pos _
    · unfold graftSenders
      cases around.dice.choose (self.eager.items.filter fun peer => decide (peer ≠ sender)) with
      | none => exact Nat.le_succ 1
      | some _ => exact Nat.le_refl 2

/-! ### Timers -/

/-- The ids a timer still asks for: some of its own, and every one of its own that stays
missing. -/
theorem collectRequests_kept (ids : List I) (held : PlumtreeState N I P S × List (GraftRequest I)) :
    ∃ kept : List I, kept.Sublist ids ∧
      (ids.foldl (collectRequest proto) held).2.map (·.id) = held.2.map (·.id) ++ kept ∧
      ∀ id, (ids.foldl (collectRequest proto) held).1.IsMissing id → held.1.IsMissing id ∧ (id ∈ ids → id ∈ kept) := by
  induction ids generalizing held with
  | nil => exact ⟨[], List.Sublist.refl _, (append_nil _).symm, fun _ missing => ⟨missing, id⟩⟩
  | cons first _ ih =>
    obtain ⟨kept, sublist, listed, missing⟩ := ih (collectRequest proto held first)
    rw [foldl_cons]
    by_cases settled : proto.idOrigin first = held.1.localId ∨ proto.contains held.1.seen first = true
    · -- An id of the node itself or one that arrived leaves the missing ones.
      have turn : collectRequest proto held first =
          ({ held.1 with missing := held.1.missing.shiftRemove first }, held.2) := if_pos settled
      rw [turn] at listed missing ⊢
      refine ⟨kept, sublist.cons first, listed, fun id isMissing => ?_⟩
      obtain ⟨before, asked⟩ := missing id isMissing
      obtain ⟨different, before⟩ := isMissing_shiftRemove.mp before
      exact ⟨before, fun member => asked ((mem_cons.mp member).resolve_left different)⟩
    · cases entry : held.1.missing.get? first with
      | none =>
        have turn : collectRequest proto held first = held := by
          rw [collectRequest, if_neg settled, entry]
        rw [turn] at listed missing ⊢
        refine ⟨kept, sublist.cons first, listed, fun id isMissing => ?_⟩
        obtain ⟨before, asked⟩ := missing id isMissing
        refine ⟨before, fun member => asked ((mem_cons.mp member).resolve_left ?_)⟩
        rintro rfl
        obtain ⟨found, isFound⟩ := before
        rw [entry] at isFound
        cases isFound
      | some found =>
        have turn : collectRequest proto held first = (held.1, held.2 ++ [⟨first, found.round⟩]) := by
          rw [collectRequest, if_neg settled, entry]
        rw [turn] at listed missing ⊢
        refine ⟨first :: kept, sublist.cons_cons first, ?_, fun id isMissing => ?_⟩
        · rw [listed, map_append, append_assoc]
          rfl
        · obtain ⟨before, asked⟩ := missing id isMissing
          exact ⟨before, fun member => mem_cons.mpr ((mem_cons.mp member).imp_right asked)⟩

theorem flatten_chunks {size : Nat} (positive : 0 < size) (fuel : Nat) (items : List α)
    (enough : items.length ≤ fuel) : (chunks size fuel items).flatten = items := by
  induction fuel generalizing items with
  | zero =>
    rw [length_eq_zero_iff.mp (Nat.le_zero.mp enough)]
    rfl
  | succ fuel ih =>
    cases items with
    | nil => rfl
    | cons first rest =>
      have shorter : ((first :: rest).drop size).length ≤ fuel := by
        rw [length_drop, length_cons] at *
        omega
      calc (chunks size (fuel + 1) (first :: rest)).flatten
          = (first :: rest).take size ++ (chunks size fuel ((first :: rest).drop size)).flatten := rfl
        _ = (first :: rest).take size ++ (first :: rest).drop size := by rw [ih _ shorter]
        _ = first :: rest := take_append_drop _ _

omit [LinearOrder N] [DecidableEq I] in
theorem requests_grafts (sendTo localId : N) (groups : List (List (GraftRequest I))) :
    requests (groups.map fun chunk => (.send sendTo (.graft localId true chunk) : Effect N I P)) =
      groups.flatten.map fun request => (sendTo, request.id) := by
  induction groups with
  | nil => rfl
  | cons _ _ ih =>
    rw [flatten_cons, map_append, ← ih]
    rfl

omit [LinearOrder N] [DecidableEq I] in
theorem timers_grafts (sendTo localId : N) (groups : List (List (GraftRequest I))) :
    timers (groups.map fun chunk => (.send sendTo (.graft localId true chunk) : Effect N I P)) = [] := by
  induction groups with
  | nil => rfl
  | cons _ _ ih => exact ih

omit [LinearOrder N] in
theorem isMissing_removeAll {ids : List I} {id : I}
    (missing : IsMissing ({ self with missing := ids.foldl (fun missing id => missing.shiftRemove id) self.missing } :
      PlumtreeState N I P S) id) : self.IsMissing id ∧ id ∉ ids := by
  induction ids generalizing self with
  | nil => exact ⟨missing, List.not_mem_nil⟩
  | cons first rest ih =>
    have later := @ih { self with missing := self.missing.shiftRemove first } missing
    obtain ⟨different, before⟩ := isMissing_shiftRemove.mp later.1
    refine ⟨before, fun member => ?_⟩
    rcases List.mem_cons.mp member with same | rest
    · exact different same
    · exact later.2 rest

/-- What a timer does that still has a sender to ask: it asks that sender for some of its
ids, and the ids it leaves missing are handed to one more timer with the next sender. -/
structure Fired (timer : Timer N I) (before after : PlumtreeState N I P S) (effects : List (Effect N I P))
    (kept : List I) : Prop where
  sublist : kept.Sublist timer.ids
  requests : ∃ sendTo, requests effects = kept.map (sendTo, ·)
  timers : timers effects = [] ∨ timers effects = [⟨kept, timer.retries + 1, timer.senders⟩] ∧
    timer.retries + 1 < timer.senders.length
  missing : ∀ id, after.IsMissing id → before.IsMissing id ∧
    (id ∈ timer.ids → ∃ next ∈ Plumtree.timers effects, id ∈ next.ids)

omit [LinearOrder N] in
theorem afterGrafts_cases (requested : List I) (retries : Nat) (senders : List N) (short : senders.length ≤ roundMax) :
    (retries + 1 < senders.length ∧ self.afterGrafts (P := P) requested retries senders =
        (self, [.schedule ⟨requested, retries + 1, senders⟩ self.config.ihaveTimeout])) ∨
    self.afterGrafts (P := P) requested retries senders =
      ({ self with missing := requested.foldl (fun missing id => missing.shiftRemove id) self.missing },
        [.notify (.messageMissing requested.length)]) := by
  have whole := Nat.mod_eq_of_lt (Nat.lt_succ_of_le short)
  unfold afterGrafts
  rw [whole]
  by_cases more : retries + 1 < senders.length
  · exact .inl ⟨more, if_pos more⟩
  · exact .inr (if_neg more)

omit [LinearOrder N] [DecidableEq I] in
/-- The grafts of a timer ask one sender for all that is left. -/
theorem requests_graftFrom (sendTo localId : N) (asked : List (GraftRequest I)) :
    requests ((chunks 10 asked.length asked).map fun chunk =>
      (.send sendTo (.graft localId true chunk) : Effect N I P)) =
      (asked.map (·.id)).map (sendTo, ·) := by
  rw [requests_grafts, flatten_chunks (by omega) _ _ le_rfl, map_map]
  rfl

theorem graftFrom_fired {asked : List (GraftRequest I)}
    (short : timer.senders.length ≤ roundMax) (sublist : (asked.map (·.id)).Sublist timer.ids)
    (missing : ∀ id, self.IsMissing id → before.IsMissing id ∧ (id ∈ timer.ids → id ∈ asked.map (·.id)))
    (ok : self.graftFrom around sendTo asked timer.retries timer.senders = .ok (after, effects)) :
    Fired timer before after effects (asked.map (·.id)) := by
  rcases graftFrom_ok ok with ⟨rfl, rfl, rfl⟩ | ⟨-, throttle, isAfter, isEffects⟩
  · refine ⟨sublist, ⟨sendTo, rfl⟩, .inl rfl, fun id isMissing => ?_⟩
    obtain ⟨was, asks⟩ := missing id isMissing
    exact ⟨was, fun member => absurd (asks member) not_mem_nil⟩
  have grafts := @requests_graftFrom N I P sendTo self.localId asked
  have quiet := @timers_grafts N I P sendTo self.localId (chunks 10 asked.length asked)
  rcases @afterGrafts_cases N I P S _ { self with pruneThrottle := throttle }
    (asked.map (·.id)) timer.retries timer.senders short
    with ⟨more, again⟩ | givesUp
  · rw [again] at isAfter isEffects
    subst isAfter isEffects
    have next :
      timers ((chunks 10 asked.length asked).map (fun chunk => .send sendTo (.graft self.localId true chunk)) ++
        [(.schedule ⟨asked.map (·.id), timer.retries + 1, timer.senders⟩ self.config.ihaveTimeout : Effect N I P)]) =
        [⟨asked.map (·.id), timer.retries + 1, timer.senders⟩] := by
      rw [timers_append, quiet]
      rfl
    refine ⟨sublist, ⟨sendTo, ?_⟩, .inr ⟨next, more⟩, fun id isMissing => ?_⟩
    · rw [requests_append, grafts]
      exact append_nil _
    · obtain ⟨was, asks⟩ := missing id isMissing
      refine ⟨was, fun member => ?_⟩
      rw [next]
      exact ⟨_, mem_singleton_self _, asks member⟩
  · rw [givesUp] at isAfter isEffects
    subst isAfter isEffects
    refine ⟨sublist, ⟨sendTo, ?_⟩, .inl ?_, fun id isMissing => ?_⟩
    · rw [requests_append, grafts]
      exact append_nil _
    · rw [timers_append, quiet]
      rfl
    · obtain ⟨held, notAsked⟩ := @isMissing_removeAll N I P S _ { self with pruneThrottle := throttle } _ _ isMissing
      obtain ⟨was, asks⟩ := missing id held
      exact ⟨was, fun member => absurd (asks member) notAsked⟩

theorem timerFired_fired (short : timer.senders.length ≤ roundMax)
    (more : timer.retries < timer.senders.length) (ok : self.timerFired proto around timer = .ok (after, effects)) :
    ∃ kept, Fired timer self after effects kept := by
  obtain ⟨kept, sublist, listed, missing⟩ := @collectRequests_kept N I P S _ _ proto timer.ids (self, [])
  rw [map_nil, nil_append] at listed
  rcases timerFired_ok ok with ⟨spent, -, -⟩ | ⟨_, -, -, grafts⟩
  · rw [Nat.mod_eq_of_lt (Nat.lt_succ_of_le short)] at spent
    omega
  · rw [← listed] at sublist missing
    exact ⟨_, graftFrom_fired short sublist missing grafts⟩

end PlumtreeState

/-! ### The node with its timers -/

/-- A node, the timers that have not fired, each with the number of the batch it belongs to,
the batches as they were announced, and every payload asked for, with the batch it was
asked for by. -/
structure System (N I P S : Type) where
  state : PlumtreeState N I P S
  outstanding : List (Nat × Timer N I)
  batches : List (Timer N I)
  log : List (Option Nat × N × I)

namespace System
variable {N I P S : Type} [LinearOrder N] [DecidableEq I]

def start (state : PlumtreeState N I P S) : System N I P S := ⟨state, [], [], []⟩

section

variable (sys : System N I P S)

/-- The timers an operation schedules begin new batches. -/
def absorb (after : PlumtreeState N I P S) (effects : List (Effect N I P)) : System N I P S where
  state := after
  outstanding := sys.outstanding ++ ((timers effects).zipIdx sys.batches.length).map fun entry => (entry.2, entry.1)
  batches := sys.batches ++ timers effects
  log := sys.log ++ (requests effects).map fun request => (none, request)

/-- A timer that fires is gone; the timers it schedules go on with its batch. -/
def absorbFired (entry : Nat × Timer N I) (after : PlumtreeState N I P S)
    (effects : List (Effect N I P)) : System N I P S where
  state := after
  outstanding := sys.outstanding.erase entry ++ (timers effects).map (entry.1, ·)
  batches := sys.batches
  log := sys.log ++ (requests effects).map fun request => (some entry.1, request)

/-- Any operation, or a scheduled timer that fires; nothing else fires a timer. -/
inductive Step (proto : Protocol N I P S) (sys : System N I P S) : System N I P S → Prop where
  | operation {around : Surround N} {op : Op N I P} {after : PlumtreeState N I P S} {effects : List (Effect N I P)} :
      (∀ timer, op ≠ .timerFired timer) → sys.state.apply proto around op = .ok (after, effects) →
      Step proto sys (sys.absorb after effects)
  | fire {around : Surround N} {entry : Nat × Timer N I} {after : PlumtreeState N I P S}
    {effects : List (Effect N I P)} :
      entry ∈ sys.outstanding → sys.state.apply proto around (.timerFired entry.2) = .ok (after, effects) →
      Step proto sys (sys.absorbFired entry after effects)

/-- The peers an id was asked of for one batch. -/
def graftedFrom (batch : Nat) (id : I) : List N :=
  (sys.log.filter fun entry => decide (entry.1 = some batch ∧ entry.2.2 = id)).map fun entry => entry.2.1

/-- What a timer that has not fired knows of its batch. -/
structure Held (entry : Nat × Timer N I) (batch : Timer N I) : Prop where
  announced : sys.batches[entry.1]? = some batch
  senders : entry.2.senders = batch.senders
  more : entry.2.retries < batch.senders.length
  nodup : entry.2.ids.Nodup
  grafted : ∀ id, (sys.graftedFrom entry.1 id).length ≤ entry.2.retries

structure Sound : Prop where
  covered : ∀ id, sys.state.IsMissing id → ∃ entry ∈ sys.outstanding, id ∈ entry.2.ids
  numbered : (sys.outstanding.map Prod.fst).Nodup
  held : ∀ entry ∈ sys.outstanding, ∃ batch, Held sys entry batch
  few : ∀ batch ∈ sys.batches, batch.senders.length ≤ 2
  bounded : ∀ number batch, sys.batches[number]? = some batch → ∀ id,
    (sys.graftedFrom number id).length ≤ batch.senders.length
  logged : ∀ entry ∈ sys.log, ∃ number, entry.1 = some number ∧ number < sys.batches.length

end

variable {proto : Protocol N I P S} {sys next : System N I P S}

variable {number : Nat}

omit [LinearOrder N] in
theorem graftedFrom_nil (unused : ∀ entry ∈ sys.log, entry.1 ≠ some number) (id : I) :
    sys.graftedFrom number id = [] := by
  have none : sys.log.filter (fun entry => decide (entry.1 = some number ∧ entry.2.2 = id)) = [] := by
    apply filter_eq_nil_iff.mpr
    intro entry listed asked
    exact unused entry listed (of_decide_eq_true asked).1
  rw [graftedFrom, none, map_nil]

variable {state : PlumtreeState N I P S}

omit [LinearOrder N] in
/-- What a batch asked for does not change when another one asks. -/
theorem graftedFrom_append_other {outstanding : List (Nat × Timer N I)} {batches : List (Timer N I)}
    (other : ∀ entry ∈ more, entry.1 ≠ some number) (id : I) :
    graftedFrom ⟨state, outstanding, batches, sys.log ++ more⟩ number id = sys.graftedFrom number id := by
  have none : more.filter (fun entry => decide (entry.1 = some number ∧ entry.2.2 = id)) = [] := by
    apply filter_eq_nil_iff.mpr
    intro entry listed asked
    exact other entry listed (of_decide_eq_true asked).1
  rw [graftedFrom, filter_append, none, append_nil, graftedFrom]

omit [LinearOrder N] in
/-- A timer asks for an id once at most. -/
theorem length_graftedFrom_append {outstanding : List (Nat × Timer N I)} {batches : List (Timer N I)}
    {kept : List I} (nodup : kept.Nodup) (sendTo : N) (id : I) :
    (graftedFrom ⟨state, outstanding, batches, sys.log ++ (kept.map (sendTo, ·)).map fun request => (some number,
      request)⟩
      number id).length ≤ (sys.graftedFrom number id).length + 1 := by
  have once : ((kept.map (sendTo, ·)).map fun request => (some number, request)).filter
      (fun entry : Option Nat × N × I => decide (entry.1 = some number ∧ entry.2.2 = id)) =
      ((kept.filter fun other => decide (other = id)).map (sendTo, ·)).map fun request => (some number, request) := by
    rw [filter_map, filter_map]
    congr 2
    apply filter_congr
    intro other _
    simp
  have one : (kept.filter fun other => decide (other = id)).length ≤ 1 := by
    rw [← countP_eq_length_filter]
    exact nodup_iff_count_le_one.mp nodup id
  simp only [graftedFrom, filter_append, once, map_append, length_append, length_map]
  omega

open PlumtreeState

variable {after : PlumtreeState N I P S}

/-- An operation that is not a timer asks for nothing and schedules what it announces. -/
theorem operation_announced (noTimer : ∀ timer, op ≠ .timerFired timer)
    (ok : before.apply proto around op = .ok (after, effects)) : Announced before after effects := by
  cases apply_outcome ok with
  | calm calm =>
    refine ⟨calm.quiet.requests, .inl ⟨calm.quiet.timers, fun id missing => ?_⟩⟩
    rw [IsMissing, calm.missing] at missing
    exact missing
  | receipt receipt =>
    refine ⟨receipt.requests, .inl ⟨receipt.timers, fun id missing => ?_⟩⟩
    rw [IsMissing, receipt.missing] at missing
    exact (isMissing_shiftRemove.mp missing).2
  | announcement => exact handleIHave_announced _ _
  | timer _ => exact absurd rfl (noTimer _)

omit [LinearOrder N] in
theorem Held.lt {entry : Nat × Timer N I} (held : Held sys entry batch) : entry.1 < sys.batches.length :=
  (List.getElem?_eq_some_iff.mp held.announced).1

section
variable (sound : Sound sys)
include sound

omit [LinearOrder N] in
/-- A new batch takes a number that is not in use. -/
theorem Sound.batch_fresh : sys.batches.length ∉ sys.outstanding.map Prod.fst := by
  intro used
  obtain ⟨entry, listed, _⟩ := mem_map.mp used
  obtain ⟨_, held⟩ := sound.held entry listed
  exact absurd held.lt (by omega)

omit [LinearOrder N] in
theorem Sound.log_fresh : ∀ entry ∈ sys.log, entry.1 ≠ some sys.batches.length := by
  intro entry listed same
  obtain ⟨_, isNumber, _⟩ := sound.logged entry listed
  rw [isNumber, Option.some.injEq] at same
  omega

omit [LinearOrder N] in
/-- A state in which less is missing. -/
theorem Sound.withState (fewer : ∀ id, after.IsMissing id → sys.state.IsMissing id) :
    Sound { sys with state := after } where
  covered id missing := sound.covered id (fewer id missing)
  numbered := sound.numbered
  held entry listed := by
    obtain ⟨batch, held⟩ := sound.held entry listed
    exact ⟨batch, held.announced, held.senders, held.more, held.nodup, held.grafted⟩
  few := sound.few
  bounded := sound.bounded
  logged := sound.logged

omit [LinearOrder N] in
/-- A new batch with its first timer. -/
theorem Sound.withBatch {ids : List I} (nodup : ids.Nodup) (some : 0 < senders.length) (few : senders.length ≤ 2)
    (covered : ∀ id, after.IsMissing id → sys.state.IsMissing id ∨ id ∈ ids) :
    Sound ⟨after, sys.outstanding ++ [(sys.batches.length, ⟨ids, 0, senders⟩)], sys.batches ++ [⟨ids, 0, senders⟩],
      sys.log⟩ where
  covered id missing := by
    rcases covered id missing with before | new
    · obtain ⟨entry, listed, named⟩ := sound.covered id before
      exact ⟨entry, List.mem_append_left _ listed, named⟩
    · exact ⟨_, List.mem_append_right _ (List.mem_singleton_self _), new⟩
  numbered := by
    rw [List.map_append]
    exact IndexSet.nodup_append_singleton sound.numbered sound.batch_fresh
  held entry listed := by
    rcases List.mem_append.mp listed with before | new
    · obtain ⟨batch, held⟩ := sound.held entry before
      have announced : (sys.batches ++ [⟨ids, 0, senders⟩])[entry.1]? = Option.some batch := by
        rw [List.getElem?_append_left held.lt]
        exact held.announced
      exact ⟨batch, announced, held.senders, held.more, held.nodup, held.grafted⟩
    · rw [List.mem_singleton] at new
      subst new
      refine ⟨⟨ids, 0, senders⟩, List.getElem?_concat_length, rfl, some, nodup, fun id => ?_⟩
      have nothing := graftedFrom_nil sound.log_fresh id
      exact Nat.le_of_eq (congrArg List.length nothing)
  few batch listed := by
    rcases List.mem_append.mp listed with before | new
    · exact sound.few batch before
    · rw [List.mem_singleton] at new
      exact new ▸ few
  bounded number batch announced id := by
    by_cases old : number < sys.batches.length
    · rw [List.getElem?_append_left old] at announced
      exact sound.bounded number batch announced id
    · have inside := (List.getElem?_eq_some_iff.mp announced).1
      rw [List.length_append, List.length_singleton] at inside
      obtain rfl : number = sys.batches.length := by omega
      have nothing := graftedFrom_nil sound.log_fresh id
      exact (Nat.le_of_eq (congrArg List.length nothing)).trans (Nat.zero_le _)
  logged entry listed := by
    obtain ⟨number, same, _⟩ := sound.logged entry listed
    refine ⟨number, same, ?_⟩
    rw [List.length_append, List.length_singleton]
    omega

omit [LinearOrder N] in
theorem sound_absorb (announced : Announced sys.state after effects) : Sound (sys.absorb after effects) := by
  unfold absorb
  rw [announced.requests, map_nil, append_nil]
  rcases announced.timers with ⟨none, fewer⟩ | ⟨ids, _, one, nodup, some, few, covered⟩
  · rw [none, zipIdx_nil, map_nil, append_nil, append_nil]
    exact sound.withState fewer
  · rw [one]
    exact sound.withBatch nodup some few covered

/-- The other timers of a node belong to other batches. -/
theorem Sound.other_batch {entry : Nat × Timer N I} (listed : entry ∈ sys.outstanding) :
    entry.1 ∉ (sys.outstanding.erase entry).map Prod.fst := by
  intro used
  obtain ⟨_, held, same⟩ := mem_map.mp used
  have distinct := List.Nodup.of_map _ sound.numbered
  obtain ⟨different, member⟩ := (distinct.mem_erase_iff).mp held
  exact different (inj_on_of_nodup_map sound.numbered member listed same)

end

section
variable {entry : Nat × Timer N I} {batch : Timer N I} {after : PlumtreeState N I P S}
    {effects : List (Effect N I P)} {kept : List I}

/-- The batch of the timer asked for each id once more at most. -/
theorem Held.grafted_fired (held : Held sys entry batch) (fired : Fired entry.2 sys.state after effects kept) (id : I) :
    ((sys.absorbFired entry after effects).graftedFrom entry.1 id).length ≤ entry.2.retries + 1 := by
  obtain ⟨sendTo, asked⟩ := fired.requests
  have once := @length_graftedFrom_append N I P S _ sys entry.1 after (sys.absorbFired entry after effects).outstanding
    sys.batches kept (held.nodup.sublist fired.sublist) sendTo id
  rw [← asked] at once
  exact once.trans (Nat.succ_le_succ (held.grafted id))

/-- Another batch asked for nothing more. -/
theorem grafted_absorbFired_other (other : number ≠ entry.1) (id : I) :
    (sys.absorbFired entry after effects).graftedFrom number id = sys.graftedFrom number id := by
  apply graftedFrom_append_other
  intro _ listed same
  obtain ⟨_, -, rfl⟩ := mem_map.mp listed
  exact other (Option.some.inj same).symm

theorem Sound.covered_fired (sound : Sound sys) (fired : Fired entry.2 sys.state after effects kept) {id : I}
    (missing : after.IsMissing id) : ∃ other ∈ (sys.absorbFired entry after effects).outstanding, id ∈ other.2.ids := by
  obtain ⟨before, handed⟩ := fired.missing id missing
  obtain ⟨other, listed, named⟩ := sound.covered id before
  by_cases same : other = entry
  · obtain ⟨next, scheduled, again⟩ := handed (same ▸ named)
    exact ⟨_, mem_append_right _ (mem_map.mpr ⟨next, scheduled, rfl⟩), again⟩
  · exact ⟨other, mem_append_left _ ((mem_erase_of_ne same).mpr listed), named⟩

theorem Sound.numbered_fired (sound : Sound sys) (listed : entry ∈ sys.outstanding)
    (fired : Fired entry.2 sys.state after effects kept) :
    ((sys.absorbFired entry after effects).outstanding.map Prod.fst).Nodup := by
  have rest : ((sys.outstanding.erase entry).map Prod.fst).Nodup := sound.numbered.sublist (erase_sublist.map _)
  unfold absorbFired
  rw [map_append]
  rcases fired.timers with none | ⟨one, -⟩
  · rw [none, map_nil, map_nil, append_nil]
    exact rest
  · rw [one]
    exact IndexSet.nodup_append_singleton rest (sound.other_batch listed)

section
variable (sound : Sound sys) (listed : entry ∈ sys.outstanding) (held : Held sys entry batch)
  (fired : Fired entry.2 sys.state after effects kept)
include sound listed held fired

theorem Sound.held_fired :
    ∀ other ∈ (sys.absorbFired entry after effects).outstanding, ∃ batch,
      Held (sys.absorbFired entry after effects) other batch := by
  intro other member
  rcases mem_append.mp member with left | scheduled
  · obtain ⟨own, isHeld⟩ := sound.held other (mem_of_mem_erase left)
    have apart : other.1 ≠ entry.1 := by
      intro same
      exact sound.other_batch listed (mem_map.mpr ⟨other, left, same⟩)
    refine ⟨own, isHeld.announced, isHeld.senders, isHeld.more, isHeld.nodup, fun id => ?_⟩
    rw [grafted_absorbFired_other apart]
    exact isHeld.grafted id
  · obtain ⟨_, isNext, rfl⟩ := mem_map.mp scheduled
    rcases fired.timers with none | ⟨one, more⟩
    · rw [none] at isNext
      cases isNext
    · rw [one, mem_singleton] at isNext
      subst isNext
      refine ⟨batch, held.announced, held.senders, ?_, held.nodup.sublist fired.sublist, held.grafted_fired fired⟩
      rw [← held.senders]
      exact more

theorem sound_absorbFired : Sound (sys.absorbFired entry after effects) where
  covered _ missing := sound.covered_fired fired missing
  numbered := sound.numbered_fired listed fired
  held := sound.held_fired listed held fired
  few := sound.few
  bounded number own announced id := by
    by_cases same : number = entry.1
    · subst same
      obtain rfl : batch = own := Option.some.inj (held.announced.symm.trans announced)
      exact (held.grafted_fired fired id).trans held.more
    · rw [grafted_absorbFired_other same]
      exact sound.bounded number own announced id
  logged logged member := by
    rcases List.mem_append.mp member with before | new
    · exact sound.logged logged before
    · obtain ⟨_, -, rfl⟩ := List.mem_map.mp new
      exact ⟨entry.1, rfl, held.lt⟩

end

end

theorem Step.sound (sound : Sound sys) (step : Step proto sys next) : Sound next := by
  cases step with
  | operation noTimer ok => exact sound_absorb sound (operation_announced noTimer ok)
  | fire listed ok =>
    obtain ⟨batch, held⟩ := sound.held _ listed
    have few := sound.few batch (mem_of_getElem? held.announced)
    have short : batch.senders.length ≤ roundMax := few.trans (by decide)
    obtain ⟨_, fired⟩ := timerFired_fired (held.senders ▸ short) (held.senders ▸ held.more) ok
    exact sound_absorbFired sound listed held fired

omit [LinearOrder N] in
theorem sound_start (none : state.missing = ∅) : Sound (start state) where
  covered id missing := by
    obtain ⟨_, found⟩ := missing
    have listed := IndexMap.get?_eq_some.mp found
    rw [show (start state).state.missing = ∅ from none] at listed
    cases listed
  numbered := nodup_nil
  held _ listed := absurd listed not_mem_nil
  few _ listed := absurd listed not_mem_nil
  bounded _ _ announced := by cases announced
  logged _ listed := absurd listed not_mem_nil

theorem reachable_sound (none : start_.missing = ∅)
    (reached : Relation.ReflTransGen (Step proto) (start start_) sys) : Sound sys := by
  induction reached with
  | refl => exact sound_start none
  | tail _ step ih => exact step.sound ih

omit [LinearOrder N] [DecidableEq I] in
theorem new_missing {localId : N} {seen : S}
    (ok : PlumtreeState.new build localId config seen = .ok state) : state.missing = ∅ := by
  obtain ⟨_, -, same⟩ := bind_ok ok
  cases same
  rfl

/-- From a new node, over any operations, scheduled timers firing once each and in any order:
every missing id is in the hands of a timer that has not fired; an id is asked of no more
peers for a batch than the batch has senders, and asked for by batches only; and when every
timer has fired nothing is missing. -/
theorem missing_in_timers {build : Build} {localId : N} {config : Config} {seen : S} {new : PlumtreeState N I P S}
    (isNew : PlumtreeState.new build localId config seen = .ok new)
    (reached : Relation.ReflTransGen (Step proto) (start new) sys) :
    (∀ id, sys.state.IsMissing id → ∃ entry ∈ sys.outstanding, id ∈ entry.2.ids) ∧
    (∀ number batch, sys.batches[number]? = some batch → ∀ id, (sys.graftedFrom number id).length ≤
      batch.senders.length) ∧
    (∀ entry ∈ sys.log, ∃ number batch, entry.1 = some number ∧ sys.batches[number]? = some batch) ∧
    (sys.outstanding = [] → ∀ id, ¬sys.state.IsMissing id) := by
  have sound := reachable_sound (new_missing isNew) reached
  refine ⟨sound.covered, sound.bounded, ?_, ?_⟩
  · intro entry listed
    obtain ⟨number, same, small⟩ := sound.logged entry listed
    exact ⟨number, _, same, getElem?_eq_getElem small⟩
  · intro none id missing
    obtain ⟨entry, listed, -⟩ := sound.covered id missing
    rw [none] at listed
    cases listed

private theorem graftFrom_asks {self : PlumtreeState N I P S}
    {requests : List (GraftRequest I)} {senders : List N} (asked : requests ≠ [])
    (clock : around.now + graftTtl ≤ instantMax) : self.graftFrom around sendTo requests retries senders =
      .ok ((PlumtreeState.afterGrafts
          { self with pruneThrottle := self.pruneThrottle.upsert sendTo fun _ => around.now + graftTtl }
          (requests.map (·.id)) retries senders).1,
        (chunks 10 requests.length requests).map (fun chunk => .send sendTo (.graft self.localId true chunk)) ++
        (PlumtreeState.afterGrafts
          { self with pruneThrottle := self.pruneThrottle.upsert sendTo fun _ => around.now + graftTtl }
          (requests.map (·.id)) retries senders).2) := by
  unfold PlumtreeState.graftFrom PlumtreeState.recordThrottle
  rw [if_neg asked, if_pos clock]
  rfl

/-- An announced message that never comes: its two senders are asked in turn. -/
theorem announced_then_given_up : ∃ new sys, PlumtreeState.new .dev 0 Config.default ∅ = .ok new ∧
      Relation.ReflTransGen (Step numbered) (start new) sys ∧ sys.graftedFrom 0 300 = [1, 2] ∧ sys.outstanding = [] ∧
      ∀ id, ¬sys.state.IsMissing id := by
  have isNew : ∃ new : PlumtreeState Nat Nat Nat (IndexMap Nat Nat), PlumtreeState.new .dev 0 Config.default ∅ =
    .ok new :=
    ⟨_, rfl⟩
  obtain ⟨new, isNew⟩ := isNew
  have clock : devAround.now + graftTtl ≤ instantMax := by decide
  have reached : ∃ sys, Relation.ReflTransGen (Step numbered) (start new) sys ∧ sys.graftedFrom 0 300 = [1, 2] ∧
      sys.outstanding = [] := by
    cases isNew
    refine ⟨_, .tail (.tail (.tail (.tail .refl
      (@Step.operation _ _ _ _ _ _ _ _ devAround (.addPeersBulk [1, 2]) _ _ ?_ rfl))
      (@Step.operation _ _ _ _ _ _ _ _ devAround (.ihave 1 [⟨300, 0⟩]) _ _ ?_ rfl))
      (@Step.fire _ _ _ _ _ _ _ _ devAround (0, ⟨[300], 0, [1, 2]⟩) _ _ ?_ (graftFrom_asks ?_ clock)))
      (@Step.fire _ _ _ _ _ _ _ _ devAround (0, ⟨[300], 1, [1, 2]⟩) _ _ ?_ (graftFrom_asks ?_ clock)), ?_, ?_⟩
    · intro timer same
      cases same
    · intro timer same
      cases same
    · exact mem_cons_self
    · decide
    · exact mem_cons_self
    · decide
    · rfl
    · rfl
  obtain ⟨sys, reaches, asked, none⟩ := reached
  exact ⟨new, sys, isNew, reaches, asked, none, (missing_in_timers isNew reaches).2.2.2 none⟩

end System
end Galvanize.Plumtree
