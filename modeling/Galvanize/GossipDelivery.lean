import Galvanize.OverlayRuns

/-! Which messages reach the application, and what becomes of a message on its first
receipt. -/
namespace Galvanize.Plumtree
open List

section
variable {N I P S : Type}

/-- A store of seen ids: an observation is the first exactly if the id was not there, and
it is there afterwards. -/
structure SeenLaws (proto : Protocol N I P S) : Prop where
  new_iff : ∀ seen id round, (proto.observe seen id round).1 = none ↔ proto.contains seen id = false
  contains_observe : ∀ seen id round, proto.contains (proto.observe seen id round).2 id = true

/-- The gossip among the effects, peer by peer. -/
def Effect.gossiped : Effect N I P → List (N × PlumtreeMsg N I P)
  | .send peer (.gossip round sender payload) => [(peer, .gossip round sender payload)]
  | .sendAll peers (.gossip round sender payload) => peers.map (·, .gossip round sender payload)
  | _ => []

def transmissions (effects : List (Effect N I P)) : List (N × PlumtreeMsg N I P) := effects.flatMap Effect.gossiped

theorem transmissions_append :
    transmissions (effects ++ more) = transmissions effects ++ transmissions more := List.flatMap_append

theorem transmissions_notices (notices : List (Notification N I)) :
    transmissions (notices.map (.notify : _ → Effect N I P)) = [] := by
  induction notices with
  | nil => rfl
  | cons _ _ ih => exact ih

end

namespace PlumtreeState
variable {N I P S : Type} [LinearOrder N] [DecidableEq I]
variable {proto : Protocol N I P S} {around : Surround N}

/-- What a node went through, with all it asked of the runtime so far. -/
inductive History (proto : Protocol N I P S) (allowed : PlumtreeState N I P S → PlumtreeState N I P S → Prop)
    (start : PlumtreeState N I P S) : PlumtreeState N I P S → List (Effect N I P) → Prop where
  | start : History proto allowed start start []
  | step {state after : PlumtreeState N I P S} {effects more : List (Effect N I P)}
    {around : Surround N} {op : Op N I P} :
      History proto allowed start state effects → state.apply proto around op = .ok (after, more) →
        allowed state after → History proto allowed start after (effects ++ more)

/-- An id that was there stays there. -/
def Retains (proto : Protocol N I P S) (id : I) (before after : PlumtreeState N I P S) : Prop :=
  proto.contains before.seen id = true → proto.contains after.seen id = true

variable {start state : PlumtreeState N I P S} {effects : List (Effect N I P)}

theorem History.localId (history : History proto allowed start state effects) : state.localId = start.localId := by
  induction history with
  | start => rfl
  | step _ ok _ ih => exact (apply_outcome ok).localId.trans ih

/-- The deliveries of one id. -/
def deliveriesOf (proto : Protocol N I P S) (id : I) (effects : List (Effect N I P)) : List P :=
  (deliveries effects).filter fun payload => decide (proto.messageId payload = id)

omit [LinearOrder N] in
theorem deliveriesOf_append (id : I) (effects more : List (Effect N I P)) :
    deliveriesOf proto id (effects ++ more) = deliveriesOf proto id effects ++ deliveriesOf proto id more := by
  simp [deliveriesOf, deliveries_append]

variable {after : PlumtreeState N I P S}

/-- One operation delivers an id at most once, and only one that was not seen and is seen
afterwards. -/
theorem deliveriesOf_apply (laws : SeenLaws proto) (id : I) (ok : state.apply proto around op = .ok (after, effects)) :
    deliveriesOf proto id effects = [] ∨
      (deliveriesOf proto id effects).length = 1 ∧ proto.contains state.seen id = false ∧
        proto.contains after.seen id = true := by
  rcases (apply_outcome ok).deliveries with none | ⟨payload, receipt⟩
  · exact .inl (by rw [deliveriesOf, none, filter_nil])
  · by_cases same : proto.messageId payload = id
    · obtain ⟨_, new, seen⟩ := receipt.seen
      refine .inr ⟨?_, ?_, ?_⟩
      · rw [deliveriesOf, receipt.deliveries]
        simp [same]
      · rw [← same]
        exact (laws.new_iff _ _ _).mp new
      · rw [seen, ← same]
        exact laws.contains_observe _ _ _
    · refine .inl ?_
      rw [deliveriesOf, receipt.deliveries]
      simp [same]

/-- While an id is retained it is delivered once at most; a delivered one is there. -/
theorem delivered_at_most_once (laws : SeenLaws proto) {id : I}
    (history : History proto (Retains proto id) start state effects) : (deliveriesOf proto id effects).length ≤ 1 ∧
      ((deliveriesOf proto id effects).length = 1 → proto.contains state.seen id = true) := by
  induction history with
  | start =>
    constructor
    · exact Nat.zero_le _
    · intro one
      cases one
  | step _ ok retained ih =>
    obtain ⟨most, there⟩ := ih
    rw [deliveriesOf_append, length_append]
    rcases deliveriesOf_apply laws id ok with none | ⟨one, absent, present⟩
    · rw [none, length_nil, Nat.add_zero]
      exact ⟨most, fun delivered => retained (there delivered)⟩
    · have before : (deliveriesOf proto id _).length ≠ 1 := fun delivered => by
        rw [there delivered] at absent
        cases absent
      exact ⟨by omega, fun _ => present⟩

/-- No message of the node itself is delivered. -/
theorem delivered_foreign (history : History proto allowed start state effects) :
    ∀ payload ∈ deliveries effects, proto.origin payload ≠ start.localId := by
  induction history with
  | start =>
    intro payload listed
    cases listed
  | step before ok _ ih =>
    intro payload listed
    rw [deliveries_append, mem_append] at listed
    rcases listed with earlier | now
    · exact ih payload earlier
    · rcases (apply_outcome ok).deliveries with none | ⟨delivered, receipt⟩
      · rw [none] at now
        cases now
      · rw [receipt.deliveries, mem_singleton] at now
        rw [now, ← before.localId]
        exact receipt.foreign

/-! ### First receipts -/

variable {round : Nat} {sender : N} {payload : P}

/-- A peer that stays out of the lazy set, or has a place in it, or takes the place of another. -/
def MayEnter (overlay : Overlay N) (peer : N) : Prop :=
  peer ∈ overlay.eager ∨ peer ∈ overlay.lazy ∨ peer ∉ overlay.known ∨ overlay.lazy.size < overlay.fanout.maxLazy ∨
    overlay.lazy.size ≠ 0

omit [DecidableEq I] in
theorem ensureInLazy_returns_iff {overlay : Overlay N} :
    (∃ after, overlay.ensureInLazy (I := I) dice peer = .ok after) ↔ MayEnter overlay peer := by
  unfold Overlay.ensureInLazy MayEnter
  by_cases stays : peer ∈ overlay.eager ∨ peer ∈ overlay.lazy ∨ peer ∉ overlay.known
  · rw [if_pos stays]
    exact ⟨fun _ => by tauto, fun _ => ⟨_, rfl⟩⟩
  rw [if_neg stays]
  have absent : peer ∉ overlay.lazy := by tauto
  unfold Overlay.insertIntoLazy
  rw [if_neg absent]
  by_cases free : overlay.lazy.size < overlay.fanout.maxLazy
  · rw [if_pos free]
    exact ⟨fun _ => by tauto, fun _ => ⟨_, rfl⟩⟩
  rw [if_neg free]
  by_cases nobody : overlay.lazy.size = 0
  · rw [if_pos nobody]
    constructor
    · rintro ⟨after, ok⟩
      cases ok
    · intro _
      tauto
  · rw [if_neg nobody]
    refine ⟨fun _ => by tauto, fun _ => ?_⟩
    cases overlay.lazy.items[dice.index overlay.lazy.size]? with
    | none | some evicted => exact ⟨_, rfl⟩

omit [DecidableEq I] in
theorem transmissions_forward : transmissions (state.forwardGossip proto round sender payload) =
      (state.forwardPeers sender (proto.origin payload)).map
        (·, .gossip (min (round + 1) roundMax) state.localId payload) := by
  unfold forwardGossip
  by_cases nobody : state.forwardPeers sender (proto.origin payload) = []
  · dsimp only
    rw [if_pos nobody, nobody]
    rfl
  · dsimp only
    rw [if_neg nobody]
    exact append_nil _

theorem transmissions_newGossip (ok : state.newGossip proto around round sender payload = .ok (after, effects)) :
    transmissions effects = (state.forwardPeers sender (proto.origin payload)).map
      (·, .gossip (min (round + 1) roundMax) state.localId payload) := by
  obtain ⟨_, notices, grafts, -, isGrafts, -, rfl⟩ := newGossip_ok ok
  have none : transmissions grafts = [] := by
    rcases optimizationGraft_cases isGrafts with rfl | ⟨peer, asked, rfl⟩
    · rfl
    · rfl
  have rest : transmissions (state.forwardGossip proto round sender payload ++ notices.map .notify ++ grafts) =
      transmissions (state.forwardGossip proto round sender payload) := by
    rw [transmissions_append, transmissions_append, transmissions_notices, none, append_nil, append_nil]
  exact rest.trans transmissions_forward

/-- The eager peers a message goes on to. -/
def GoesOn (proto : Protocol N I P S) (state : PlumtreeState N I P S) (sender : N) (payload : P) (peer : N) : Prop :=
  peer ∈ state.eager ∧ peer ≠ sender ∧ peer ≠ proto.origin payload ∧ peer ≠ state.localId

omit [DecidableEq I] in
theorem mem_forwardPeers :
    peer ∈ state.forwardPeers sender (proto.origin payload) ↔ GoesOn proto state sender payload peer := by
  rw [forwardPeers, mem_filter, decide_eq_true_eq, GoesOn, IndexSet.mem_iff]
  tauto

/-- A message that was delivered, sent on with the next round to exactly these peers, once
each, and queued once for the lazy peers. -/
structure Forwarded (proto : Protocol N I P S) (before after : PlumtreeState N I P S) (effects : List (Effect N I P))
    (round : Nat) (sender : N) (payload : P) : Prop where
  delivered : deliveries effects = [payload]
  sent : ∀ peer msg, (peer, msg) ∈ transmissions effects ↔
    GoesOn proto before sender payload peer ∧ msg = .gossip (round + 1) before.localId payload
  sentOnce : (transmissions effects).Nodup
  queued : after.lazyQueue = before.lazyQueue ++ [⟨proto.messageId payload, round⟩]

/-- What a first receipt needs: a round after which there is one more, or nobody to send it
to; in a development build a round of the announcement that can be compared; and a peer to
evict if the sender has to enter a full lazy set. -/
structure ReceiptRoom (proto : Protocol N I P S) (around : Surround N) (state : PlumtreeState N I P S)
    (round : Nat) (sender : N) (payload : P) : Prop where
  round : round < roundMax ∨ ∀ peer, ¬GoesOn proto state sender payload peer
  sum : around.build = .dev → state.RoundsFit (proto.messageId payload)
  lazy : sender ∈ state.eager ∨ sender ∈ state.lazy ∨ sender ∉ state.known ∨ state.lazy.size < state.fanout.maxLazy ∨
    state.lazy.size ≠ 0

/-- The message is sent on with the round the code computes. -/
theorem newGossip_forwarded_iff (ok : state.newGossip proto around round sender payload = .ok (after, effects)) :
    Forwarded proto state after effects round sender payload ↔
      round < roundMax ∨ ∀ peer, ¬GoesOn proto state sender payload peer := by
  have sends := transmissions_newGossip ok
  constructor
  · intro forwarded
    by_cases somebody : ∃ peer, GoesOn proto state sender payload peer
    · obtain ⟨peer, goes⟩ := somebody
      have listed := (forwarded.sent peer _).mpr ⟨goes, rfl⟩
      rw [sends, mem_map] at listed
      obtain ⟨other, -, same⟩ := listed
      simp only [Prod.mk.injEq, PlumtreeMsg.gossip.injEq] at same
      left
      omega
    · exact .inr fun peer goes => somebody ⟨peer, goes⟩
  · intro room
    have next (peer : N) (goes : GoesOn proto state sender payload peer) : min (round + 1) roundMax = round + 1 := by
      rcases room with small | nobody
      · omega
      · exact absurd goes (nobody peer)
    obtain ⟨_, notices, _, -, isGrafts, rfl, rfl⟩ := newGossip_ok ok
    have rest := ((@forwardGossip_quiet N I P S _ proto state round sender payload).append
      (quiet_notices notices)).append (optimizationGraft_quiet isGrafts)
    refine ⟨congrArg (payload :: ·) rest.deliveries, ?_, ?_, rfl⟩
    · intro peer _
      rw [sends, mem_map]
      constructor
      · rintro ⟨other, listed, same⟩
        have goes := mem_forwardPeers.mp listed
        rw [next other goes] at same
        cases same
        exact ⟨goes, rfl⟩
      · rintro ⟨goes, rfl⟩
        exact ⟨peer, mem_forwardPeers.mpr goes, by rw [next peer goes]⟩
    · rw [sends]
      exact (state.eager.nodup.filter _).map fun _ _ same => congrArg Prod.fst same

section
variable (foreign : proto.origin payload ≠ state.localId)
  (new : (proto.observe state.seen (proto.messageId payload) round).1 = none)
include foreign new

theorem first_gossip_returns_iff : (∃ result, state.handleGossip proto around round sender payload = .ok result) ↔
      MayEnter state.toOverlay sender ∧ (around.build = .dev → state.RoundsFit (proto.messageId payload)) := by
  rw [handleGossip, if_neg foreign, new]
  exact newGossip_returns_iff.trans (and_congr ensureInLazy_returns_iff optimizationGraft_returns_iff)

theorem first_receipt_iff :
    (∃ after effects, state.handleGossip proto around round sender payload = .ok (after, effects) ∧
      Forwarded proto state after effects round sender payload) ↔
    ReceiptRoom proto around state round sender payload := by
  have returns := @first_gossip_returns_iff N I P S _ _ proto around state round sender payload foreign new
  rw [handleGossip, if_neg foreign, new] at returns ⊢
  constructor
  · rintro ⟨after, effects, ok, forwarded⟩
    obtain ⟨lazy, sum⟩ := returns.mp ⟨_, ok⟩
    have noted :
      Forwarded proto (state.noteSeen proto (proto.messageId payload) round) after effects round sender payload :=
      ⟨forwarded.delivered, forwarded.sent, forwarded.sentOnce, forwarded.queued⟩
    exact ⟨(newGossip_forwarded_iff ok).mp noted, sum, lazy⟩
  · intro room
    obtain ⟨⟨after, effects⟩, ok⟩ := returns.mpr ⟨room.lazy, room.sum⟩
    have forwarded := (newGossip_forwarded_iff ok).mpr room.round
    exact ⟨after, effects, ok, forwarded.delivered, forwarded.sent, forwarded.sentOnce, forwarded.queued⟩

end

/-- With a store that keeps its laws: in every history in which an id is retained it is
delivered at most once; no history delivers a message of the node itself; and the first
receipt of a message in any state delivers it, sends it on to exactly the other eager peers
with the next round and queues it once, exactly if it has the room it needs. -/
theorem gossip_delivered (laws : SeenLaws proto) :
    (∀ start state effects id, History proto (Retains proto id) start state effects →
      (deliveriesOf proto id effects).length ≤ 1) ∧
    (∀ start state effects, History proto (fun _ _ => True) start state effects →
      ∀ payload ∈ deliveries effects, proto.origin payload ≠ start.localId) ∧
    ∀ around state round sender payload, proto.origin payload ≠ state.localId →
      proto.contains state.seen (proto.messageId payload) = false →
      ((∃ after effects, state.handleGossip proto around round sender payload = .ok (after, effects) ∧
        Forwarded proto state after effects round sender payload) ↔
      ReceiptRoom proto around state round sender payload) := by
  refine ⟨?_, ?_, ?_⟩
  · intro start state effects id history
    exact (delivered_at_most_once laws history).1
  · intro start state effects history
    exact delivered_foreign history
  · intro around state round sender payload foreign absent
    exact first_receipt_iff foreign ((laws.new_iff _ _ _).mpr absent)

theorem numbered_laws : SeenLaws numbered where
  new_iff seen id round := by
    rw [numbered, Option.map_eq_none_iff, ← Bool.not_eq_true, IndexMap.containsKey_iff]
    simp [Option.eq_none_iff_forall_ne_some]
  contains_observe seen id round := by
    rw [numbered, IndexMap.containsKey_iff]
    exact ⟨_, by rw [IndexMap.get?_upsert, if_pos rfl]⟩

theorem first_gossip_forwarded : ∃ state, runNew Config.default [.addPeersBulk [1, 2]] = .ok state ∧
      ∃ after effects, state.handleGossip numbered devAround 0 1 300 = .ok (after, effects) ∧
        Forwarded numbered state after effects 0 1 300 := by
  refine ⟨_, rfl, ((gossip_delivered numbered_laws).2.2 devAround _ 0 1 300 (by decide) (by decide)).mpr ⟨?_, ?_, ?_⟩⟩
  · exact .inl (by decide)
  · intro _ _ _ announced
    cases announced
  · decide

/-- The last round is sent on unchanged; and a message that was announced with it is
delivered, but then the node stops. -/
theorem last_round_breaks : (∃ state after effects, runNew Config.default [.addPeersBulk [1, 2]] = .ok state ∧
      state.handleGossip numbered devAround 4294967295 1 300 = .ok (after, effects) ∧
      transmissions effects = [(2, .gossip 4294967295 0 300)]) ∧
    ∃ state, runNew Config.default [.addPeersBulk [1, 2], .ihave 2 [⟨300, 4294967293⟩]] = .ok state ∧
      state.handleGossip numbered devAround 0 1 300 = .error .overflow := by
  refine ⟨⟨_, _, _, rfl, rfl, ?_⟩, ⟨_, rfl, ?_⟩⟩
  · decide
  · rfl

/-! ### Rounds -/

omit [DecidableEq I] in
theorem transmissions_duplicate {id : I} (ok : state.duplicateGossip around sender id duplicates =
    .ok (after, effects)) : transmissions effects = [] := by
  rcases ite_eq_iff.mp ok with ⟨-, ok⟩ | ⟨-, ok⟩
  · rcases ite_eq_iff.mp ok with ⟨-, ok⟩ | ⟨-, ok⟩
    · cases ok
      rfl
    · obtain ⟨⟨_, _⟩, prunes, same⟩ := bind_ok ok
      obtain ⟨_, -, rest⟩ := bind_ok prunes
      obtain ⟨⟨_, _⟩, moves, sends⟩ := bind_ok rest
      obtain ⟨_, notices, -, -, rfl⟩ := withOverlay_ok moves
      cases sends
      cases same
      exact transmissions_append.trans (congrArg (· ++ []) (transmissions_notices notices))
  · cases ok
    rfl

/-- A duplicate is not sent on, and a new message not with a smaller round. -/
theorem handleGossip_forwards (word : round ≤ roundMax)
    (ok : state.handleGossip proto around round sender payload = .ok (after, effects))
    (sent : (peer, .gossip later source passed) ∈ transmissions effects) : round ≤ later := by
  rcases ite_eq_iff.mp ok with ⟨-, ok⟩ | ⟨-, ok⟩
  · cases ok
    cases sent
  cases observed : (proto.observe state.seen (proto.messageId payload) round).1 with
  | some _ =>
    rw [observed] at ok
    rw [transmissions_duplicate ok] at sent
    cases sent
  | none =>
    rw [observed] at ok
    rw [transmissions_newGossip ok] at sent
    obtain ⟨_, _, same⟩ := mem_map.mp sent
    cases same
    omega

/-- The messages with rounds; a received round is a 32-bit word. -/
def Rounded : Op N I P → Prop
  | .gossip round _ _ => round ≤ roundMax
  | .ihave .. | .graft .. => True
  | _ => False

/-- If a message is new, the round it was announced with can be added to the threshold. -/
def SumFits (proto : Protocol N I P S) (state : PlumtreeState N I P S) : Op N I P → Prop
  | .gossip round sender payload => proto.origin payload ≠ state.localId →
    (proto.observe state.seen (proto.messageId payload) round).1 = none → MayEnter state.toOverlay sender →
    state.RoundsFit (proto.messageId payload)
  | _ => True

/-- In every state: a message that goes through without overflow checks goes through with
them, and no round that is sent on is smaller than the received one, exactly if `SumFits`. -/
theorem message_rounds_iff {op : Op N I P} (message : Rounded op) :
    (((∃ result, state.apply proto { around with build := .release } op = .ok result) →
        ∃ result, state.apply proto { around with build := .dev } op = .ok result) ∧
      ∀ round sender payload after effects peer next source passed, op = .gossip round sender payload →
        state.apply proto around op = .ok (after, effects) →
        (peer, .gossip next source passed) ∈ transmissions effects → round ≤ next) ↔
    SumFits proto state op := by
  cases op with
  | gossip round sender payload =>
    refine ⟨?_, fun fits => ⟨?_, ?_⟩⟩
    · rintro ⟨checked, -⟩ foreign new room
      simp only [PlumtreeState.apply, first_gossip_returns_iff foreign new] at checked
      exact (checked ⟨room, fun isDev => by cases isDev⟩).2 trivial
    · by_cases own : proto.origin payload = state.localId
      · exact fun _ => ⟨_, if_pos own⟩
      cases observed : (proto.observe state.seen (proto.messageId payload) round).1 with
      | none =>
        simp only [PlumtreeState.apply, first_gossip_returns_iff own observed]
        exact fun goes => ⟨goes.1, fun _ => fits own observed goes.1⟩
      | some _ =>
        -- the answer to a duplicate computes with no round
        simp only [PlumtreeState.apply, handleGossip, if_neg own, observed]
        exact id
    · rintro _ _ _ after effects peer next source passed ⟨⟩ ok
      exact handleGossip_forwards message ok
  | ihave | graft =>
    refine ⟨fun _ => trivial, fun _ => ⟨fun _ => ⟨_, rfl⟩, ?_⟩⟩
    rintro _ _ _ _ _ _ _ _ _ ⟨⟩
  | _ => cases message

theorem first_rounds_fit : ∃ state, runNew Config.default [.addPeersBulk [1, 2]] = .ok state ∧
      ((∃ result, state.apply numbered { devAround with build := .release } (.gossip 0 1 300) = .ok result) →
        ∃ result, state.apply numbered { devAround with build := .dev } (.gossip 0 1 300) = .ok result) := by
  refine ⟨_, rfl, ((message_rounds_iff (Nat.zero_le _)).mpr ?_).1⟩
  intro _ _ _ _ _ announced
  cases announced

/-- A message that was announced with the last round stops a development build; in a release
build the sum is 2, and the peer that announced it is grafted. -/
theorem announced_round_overflows : ∃ state, runNew Config.default [.ihave 1 [⟨100, 4294967295⟩]] = .ok state ∧
      state.apply numbered devAround (.gossip 7 2 100) = .error .overflow ∧
      ∃ after effects, state.apply numbered { devAround with build := .release } (.gossip 7 2 100) =
        .ok (after, .deliver 100 :: effects ++ [.send 1 (.graft 0 false [⟨100, 4294967295⟩])]) :=
  ⟨_, rfl, rfl, _, [], rfl⟩

end PlumtreeState
end Galvanize.Plumtree
