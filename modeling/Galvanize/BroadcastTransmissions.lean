import Mathlib.Data.List.Chain
import Galvanize.HandleBroadcasts

/-! A round of a pending broadcast counts whether or not the payload was handed to a peer.
It was exactly when the plan of the turn chooses a peer and the limiter admits the payload. -/
namespace Galvanize.Broadcasting
open List

variable {world : World} {options : Options}

/-! ### Transmissions -/

/-- The limiter lets a payload pass. -/
def Admits (world : World) (now : Nat) (payload : List UInt8) : Prop :=
  0 < payload.length ∧ payload.length ≤ bytesPerSec ∧ world.grants now payload.length = true

variable {now : Nat}

theorem tryTransmitUni_ok_iff : tryTransmitUni world now payload = .ok () ↔ Admits world now payload := by
  unfold tryTransmitUni Admits bytesPerSec
  by_cases big : payload.length = 0 ∨ 4294967295 < payload.length
  · rw [if_pos big]
    constructor
    · intro ok
      cases ok
    · rintro ⟨_, small, -⟩
      omega
  · rw [if_neg big]
    by_cases burst : 10 * 1024 * 1024 < payload.length
    · rw [if_pos burst]
      constructor
      · intro ok
        cases ok
      · rintro ⟨-, small, -⟩
        omega
    · rw [if_neg burst]
      by_cases granted : world.grants now payload.length = true
      · rw [if_pos granted]
        exact ⟨fun _ => ⟨by omega, by omega, granted⟩, fun _ => rfl⟩
      · rw [if_neg granted]
        constructor
        · intro ok
          cases ok
        · rintro ⟨-, -, now⟩
          exact absurd now granted

/-- A payload of a wrong size is refused at any time. -/
theorem refused_later (failed : tryTransmitUni world now payload = .error e)
    (size : e ≠ .quotaExceeded) (later : Nat) : ¬ Admits world later payload := by
  rintro ⟨_, small, -⟩
  unfold tryTransmitUni at failed
  unfold bytesPerSec at small failed
  rw [if_neg (by omega), if_neg (by omega)] at failed
  rcases ite_eq_iff.mp failed with ⟨-, failed⟩ | ⟨-, failed⟩
  · cases failed
  · cases failed
    exact size rfl

theorem transmitTo_subset (handed : addr ∈ (transmitTo world payload now peers).2) : addr ∈ peers := by
  induction peers generalizing now with
  | nil => exact handed
  | cons _ _ ih =>
    unfold transmitTo at handed
    cases tried : tryTransmitUni world now payload with
    | ok _ =>
      simp only [tried, mem_cons] at handed
      obtain rfl | later := handed
      · exact mem_cons_self
      · exact mem_cons_of_mem _ (ih later)
    | error e =>
      cases e with
      | quotaExceeded => simp only [tried, not_mem_nil] at handed
      | tooBig len | insufficientCapacity =>
        simp only [tried] at handed
        exact mem_cons_of_mem _ (ih handed)

/-- The first peer decides: if it is refused for the size of the payload all are, and if it
is refused for the quota the round is over. -/
theorem transmitTo_nonempty_iff :
    (transmitTo world payload now peers).2 ≠ [] ↔ peers ≠ [] ∧ Admits world now payload := by
  induction peers generalizing now with
  | nil => simp [transmitTo]
  | cons _ _ ih =>
    unfold transmitTo
    cases tried : tryTransmitUni world now payload with
    | ok _ =>
      have admitted := tryTransmitUni_ok_iff.mp tried
      simp [admitted]
    | error e =>
      have refused : ¬ Admits world now payload := by
        intro admitted
        have ok := tryTransmitUni_ok_iff.mpr admitted
        rw [tried] at ok
        cases ok
      cases e with
      | quotaExceeded => simp [refused]
      | tooBig len | insufficientCapacity =>
        have later := refused_later tried TransmitError.noConfusion (now + 1)
        simp [ih, refused, later]

/-- A plan chooses a peer, unless the turn before was limited and the cluster is small. -/
theorem Plan.chooseCount_pos_iff (plan : Plan) : 0 < plan.chooseCount ↔
      (plan.prevRateLimited = true → 20 * plan.config.maxTransmissions ≤ plan.membersCount - plan.ring0Count) := by
  have probes := plan.config.probes
  have transmits := plan.config.transmits
  unfold chooseCount
  by_cases limited : plan.prevRateLimited = true
  · rw [if_pos limited]
    have half : 2 ≤ plan.dynamicCount ↔ 2 * (plan.config.maxTransmissions * 10) ≤ plan.membersCount - plan.ring0Count :=
      Nat.le_div_iff_mul_le (by omega)
    have chosen : 0 < min plan.count (plan.dynamicCount / 2) ↔ 2 ≤ plan.dynamicCount := by
      unfold count
      omega
    constructor
    · intro large _
      omega
    · intro large
      have enough := large limited
      omega
  · rw [if_neg limited]
    constructor
    · intro _ contrary
      exact absurd contrary limited
    · intro _
      unfold count
      omega

/-! ### Rounds -/

/-- What a round must start from for the payload to go out, given a peer for it. -/
def Round.Reaches (world : World) (round : Round) : Prop :=
  (round.plan.prevRateLimited = true →
    20 * round.plan.config.maxTransmissions ≤ round.plan.membersCount - round.plan.ring0Count) ∧
  Admits world round.startedAt round.before.payload

/-- What every round of a run is like. -/
structure Round.Sound (world : World) (round : Round) : Prop where
  reaches : round.handed ≠ [] ↔ round.eligible ≠ [] ∧ round.Reaches world
  peers : ∀ addr ∈ round.handed, addr ∈ round.eligible
  sent : ∀ addr, addr ∈ round.after.sentTo ↔ addr ∈ round.handed ∨ addr ∈ round.before.sentTo
  counts : round.after.sendCount = round.before.sendCount + 1

/-- The history is sound, and no count of what is queued has reached the end of its byte. -/
structure Loop.Sound (world : World) (state : Loop) : Prop where
  rounds : ∀ round ∈ state.rounds, round.Sound world
  queued : ∀ pending ∈ state.toBroadcast, pending.sendCount < 255
  idle : ∀ pending ∈ state.idlePendings, pending.sendCount < 255

theorem Plan.maxTransmissions_le (plan : Plan) : plan.maxTransmissions ≤ 255 := by
  have byte := plan.config.transmissions_byte
  unfold maxTransmissions
  by_cases limited : plan.prevRateLimited = true
  · rw [if_pos limited]
    omega
  · rw [if_neg limited]
    exact byte

theorem counted_sendCount {pending : PendingBroadcast} (low : pending.sendCount < 255) :
    (counted { pending with sentTo }).sendCount = pending.sendCount + 1 := by
  unfold counted
  rw [if_pos low]

theorem counted_sentTo (pending : PendingBroadcast) : (counted pending).sentTo = pending.sentTo := by
  unfold counted
  by_cases low : pending.sendCount < 255
  · rw [if_pos low]
  · rw [if_neg low]

variable {state : Loop} {ring0 : List SocketAddr}

section
variable (sound : state.Sound world)
include sound

theorem sound_broadcastPending (low : pending.sendCount < 255)
    (room : state.inflight < maxInflightBroadcast) :
    (broadcastPending world options ring0 plan state pending).Sound world := by
  constructor
  · intro round done
    obtain rfl | earlier := mem_cons.mp done
    · constructor
      · -- a peer is chosen if there is one, and the plan asks for one
        rw [transmitTo_nonempty_iff, ← length_pos_iff, world.choose_length, ← length_pos_iff, Round.Reaches,
          ← Plan.chooseCount_pos_iff]
        dsimp only
        constructor
        · rintro ⟨chosen, admitted⟩
          exact ⟨by omega, by omega, admitted⟩
        · rintro ⟨_, chosen, admitted⟩
          exact ⟨by omega, admitted⟩
      · intro addr handed
        exact world.choose_mem _ _ _ _ (transmitTo_subset handed)
      · intro addr
        rw [counted_sentTo, mem_append]
      · exact counted_sendCount low
    · exact sound.rounds round earlier
  · exact sound.queued
  · intro waiting idle
    unfold broadcastPending at idle
    dsimp only at idle
    by_cases again : requeues plan pending = true
    · rw [if_pos again] at idle
      obtain rfl | earlier := mem_cons.mp idle
      · have below := (of_decide_eq_true again).2
        have byte := plan.maxTransmissions_le
        rw [counted_sendCount low]
        omega
      · exact sound.idle waiting earlier
    · rw [if_neg again] at idle
      exact sound.idle waiting idle

theorem sound_drainPending (low : ∀ pending ∈ queue, pending.sendCount < 255) :
    (drainPending world options ring0 plan queue state).Sound world := by
  induction queue generalizing state with
  | nil =>
    constructor
    · exact sound.rounds
    · exact low
    · exact sound.idle
  | cons pending _ ih =>
    unfold drainPending
    by_cases room : state.inflight < maxInflightBroadcast
    · rw [if_pos room]
      apply ih
      · exact sound_broadcastPending sound (low pending mem_cons_self) room
      · intro other later
        exact low other (mem_cons_of_mem _ later)
    · rw [if_neg room]
      constructor
      · exact sound.rounds
      · exact low
      · exact sound.idle

/-! ### Runs -/

/-- The local payloads leave what is pending alone. -/
theorem sound_drainLocal : (drainLocal world queue ring0 state).1.Sound world := by
  induction queue generalizing ring0 state with
  | nil => exact ⟨sound.rounds, sound.queued, sound.idle⟩
  | cons payload _ ih =>
    unfold drainLocal
    by_cases room : state.inflight < maxInflightBroadcast
    · rw [if_pos room]
      dsimp only
      generalize transmitLocal world payload _ _ = sent
      by_cases nowhere : sent.rateLimited ∧ sent.spawnCount = 0 ∧ 0 < sent.ring0Count
      · rw [if_pos nowhere]
        exact ⟨sound.rounds, sound.queued, sound.idle⟩
      · rw [if_neg nowhere]
        apply ih
        exact ⟨sound.rounds, sound.queued, sound.idle⟩
    · rw [if_neg room]
      exact ⟨sound.rounds, sound.queued, sound.idle⟩

theorem sound_sendPending : (sendPending world options ring0 prevRateLimited state).Sound world := by
  unfold sendPending
  by_cases sends : state.rateLimited = false ∧ state.toBroadcast ≠ [] ∧ state.inflight < maxInflightBroadcast
  · rw [if_pos sends]
    apply sound_drainPending
    · exact ⟨sound.rounds, sound.queued, sound.idle⟩
    · exact sound.queued
  · rw [if_neg sends]
    exact sound

theorem sound_dropOldestBroadcast : (dropOldestBroadcast options state).Sound world := by
  unfold dropOldestBroadcast
  by_cases full : options.maxQueueLen < state.toBroadcast.length + state.toLocalBroadcast.length
  · rw [if_pos full]
    cases mostSent state.toBroadcast 0 none with
    | some _ =>
      refine ⟨sound.rounds, ?_, sound.idle⟩
      intro pending kept
      exact sound.queued pending (mem_of_mem_eraseIdx kept)
    | none => exact ⟨sound.rounds, sound.queued, sound.idle⟩
  · rw [if_neg full]
    exact sound

theorem sound_sendAll : (sendAll world options state).Sound world := by
  apply sound_dropOldestBroadcast
  apply sound_sendPending
  apply sound_drainLocal
  exact ⟨sound.rounds, sound.queued, sound.idle⟩

/-- What is put at the front of the queue has not been counted too often. -/
theorem Loop.Sound.push {fresh : PendingBroadcast} (low : fresh.sendCount < 255) :
    ∀ pending ∈ fresh :: state.toBroadcast, pending.sendCount < 255 := by
  intro pending queued
  obtain rfl | back := mem_cons.mp queued
  · exact low
  · exact sound.queued pending back

theorem sound_flush : (flush options state).Sound world := by
  unfold flush
  by_cases full : options.bcastCutoff ≤ state.bcastBuf.length
  · rw [if_pos full]
    exact ⟨sound.rounds, sound.push (Nat.zero_lt_succ _), sound.idle⟩
  · rw [if_neg full]
    exact sound

theorem sound_flushLocal : (flushLocal options state).Sound world := by
  unfold flushLocal
  by_cases full : options.bcastCutoff ≤ state.localBcastBuf.length
  · rw [if_pos full]
    exact ⟨sound.rounds, sound.push (Nat.zero_lt_succ _), sound.idle⟩
  · rw [if_neg full]
    exact sound

theorem sound_handleDeadline : (handleDeadline state).Sound world := by
  refine ⟨sound.rounds, ?_, sound.idle⟩
  intro pending queued
  unfold handleDeadline at queued
  dsimp only at queued
  rw [append_assoc, mem_append, mem_append] at queued
  obtain own | other | earlier := queued
  · by_cases empty : state.localBcastBuf = []
    · rw [if_pos empty] at own
      cases own
    · rw [if_neg empty, mem_singleton] at own
      subst own
      exact Nat.zero_lt_succ _
  · by_cases empty : state.bcastBuf = []
    · rw [if_pos empty] at other
      cases other
    · rw [if_neg empty, mem_singleton] at other
      subst other
      exact Nat.zero_lt_succ _
  · exact sound.queued pending earlier

/-- What a branch leaves for the rest of the turn, or for the next turn. -/
def Flow.Sound (world : World) : Flow → Prop
  | .stop => True
  | .skip state => state.Sound world
  | .proceed state => state.Sound world

theorem sound_handleBroadcast (isLocal : Bool) (data : List UInt8) :
    (handleBroadcast options state isLocal data).Sound world := by
  unfold handleBroadcast
  cases isLocal with
  | true =>
    cases encodeFrame data with
    | none => exact sound
    | some payload => exact sound_flushLocal ⟨sound.rounds, sound.queued, sound.idle⟩
  | false =>
    cases encodeFrame data with
    | none => exact ⟨sound.rounds, sound.queued, sound.idle⟩
    | some payload => exact sound_flush ⟨sound.rounds, sound.queued, sound.idle⟩

theorem sound_handleBranch (branch : Branch) : (handleBranch options state branch).Sound world := by
  cases branch with
  | closed | tripped => exact trivial
  | joined => exact ⟨sound.rounds, sound.queued, sound.idle⟩
  | broadcastDeadline => exact sound_handleDeadline sound
  | metrics => exact sound
  | broadcast isLocal encoded =>
    cases encoded with
    | none => exact sound
    | some data => exact sound_handleBroadcast sound isLocal data
  | wokePendingBroadcast position =>
    unfold handleBranch
    dsimp only
    cases found : state.idlePendings[position]? with
    | none => exact sound
    | some woke =>
      refine ⟨sound.rounds, sound.push (sound.idle woke (mem_of_getElem? found)), ?_⟩
      intro pending kept
      exact sound.idle pending (mem_of_mem_eraseIdx kept)

theorem sound_handleBroadcasts {branches : List Branch} :
    (handleBroadcasts world options branches state).Sound world := by
  induction branches generalizing state with
  | nil => exact sound
  | cons branch _ ih =>
    have handled := @sound_handleBranch world options state sound branch
    unfold handleBroadcasts
    cases flow : handleBranch options state branch with
    | stop => exact sound
    | skip next =>
      rw [flow] at handled
      exact ih handled
    | proceed next =>
      rw [flow] at handled
      exact ih (sound_sendAll handled)

end

theorem sound_new : Loop.new.Sound world := by
  refine ⟨?_, ?_, ?_⟩ <;> exact forall_mem_nil _

/-! ### Wasted transmissions -/

/-- A round of the broadcast that another round left. -/
def Follows (earlier later : Round) : Prop := later.before = earlier.after

/-- Peers that a broadcast was sent to are not forgotten in its later rounds. -/
theorem sentTo_kept {rounds : List Round} {round last : Round} (sound : ∀ round ∈ rounds, round.Sound world)
    (linked : rounds.IsChain Follows) (ends : rounds.getLast? = some last) (member : round ∈ rounds)
    (sent : addr ∈ round.after.sentTo) : addr ∈ last.after.sentTo := by
  induction rounds generalizing round with
  | nil => cases member
  | cons _ rest ih =>
    cases rest with
    | nil =>
      cases ends
      rw [mem_singleton] at member
      exact member ▸ sent
    | cons second others =>
      rw [isChain_cons_cons] at linked
      have soundRest : ∀ other ∈ second :: others, other.Sound world := by
        intro other later
        exact sound other (mem_cons_of_mem _ later)
      obtain rfl | later := mem_cons.mp member
      · have kept : addr ∈ second.after.sentTo := by
          rw [(soundRest second mem_cons_self).sent, linked.1]
          exact .inr sent
        exact ih soundRest linked.2 ends mem_cons_self kept
      · exact ih soundRest linked.2 ends later sent

/-- A count goes up only in a round in which the payload was handed to a peer, provided there
was one for it; and no broadcast leaves the loop unsent after rounds that had a peer for it. -/
def NotWasted (rounds : List Round) : Prop :=
  (∀ round ∈ rounds, round.before.sendCount < round.after.sendCount → round.eligible ≠ [] →
    ∃ peer ∈ round.eligible, peer ∈ round.handed) ∧
  ∀ (own : List Round) (last : Round), own.IsChain Follows → (∀ round ∈ own, round ∈ rounds) →
    own.getLast? = some last → last.requeued = false → (∃ round ∈ own, round.eligible ≠ []) → last.after.sentTo ≠ []

theorem Round.Sound.handed_peer {round : Round} (sound : round.Sound world) (peer : round.eligible ≠ [])
    (reaches : round.Reaches world) : ∃ peer ∈ round.eligible, peer ∈ round.handed := by
  obtain ⟨addr, handed⟩ := exists_mem_of_ne_nil _ (sound.reaches.mpr ⟨peer, reaches⟩)
  exact ⟨addr, sound.peers addr handed, handed⟩

/-- In every run nothing is wasted exactly if each round with a peer can send. -/
theorem transmissions_not_wasted_iff (world : World) (options : Options) (branches : List Branch) :
    NotWasted (handleBroadcasts world options branches Loop.new).rounds ↔
      ∀ round ∈ (handleBroadcasts world options branches Loop.new).rounds,
        round.eligible ≠ [] → round.Reaches world := by
  have sound := (@sound_handleBroadcasts world options Loop.new sound_new branches).rounds
  generalize (handleBroadcasts world options branches Loop.new).rounds = rounds at sound
  constructor
  · rintro ⟨handed, -⟩ round done peer
    have raised : round.before.sendCount < round.after.sendCount := by
      have counts := (sound round done).counts
      omega
    obtain ⟨addr, -, held⟩ := handed round done raised peer
    exact ((sound round done).reaches.mp (ne_nil_of_mem held)).2
  · intro reaches
    refine ⟨?_, ?_⟩
    · intro round done _ peer
      exact (sound round done).handed_peer peer (reaches round done peer)
    · intro own _ linked members ends _ offered
      obtain ⟨round, member, peer⟩ := offered
      have done := members round member
      obtain ⟨addr, -, handed⟩ := (sound round done).handed_peer peer (reaches round done peer)
      have soundOwn : ∀ round ∈ own, round.Sound world := by
        intro other listed
        exact sound other (members other listed)
      have sent := ((sound round done).sent addr).mpr (.inl handed)
      exact ne_nil_of_mem (sentTo_kept soundOwn linked ends member sent)

/-! ### A small cluster under load -/

/-- A neighbour in the nearest ring and one further away. -/
def twoNeighbours : Members :=
  { Members.new none with
    states := ((∅ : Map ActorId MemberState).insert 2 ⟨2, 0, 0, some 0, none, none⟩).insert 3 ⟨3, 0, 0,
      some 4, none, none⟩ }

/-- Four transmissions and three probes, as the protocol has them for a small cluster. -/
def smallConfig : FocaConfig := ⟨4, 3, Nat.zero_lt_succ 3, Nat.le_add_left 4 251, Nat.zero_lt_succ 2⟩

/-- The limiter has no capacity at two moments, at which local payloads are to be sent. -/
def loadedWorld : World where
  members _ := twoNeighbours
  clusterId _ := 0
  config _ := smallConfig
  grants now _ := now != 1 && now != 7
  choose _ peers count := peers.take count
  choose_length _ _ _ := List.length_take
  choose_mem _ _ _ _ := List.mem_of_mem_take

/-- A change, the deadline, another change, and the sleep of the first being over. -/
def loadedBranches : List Branch :=
  [.broadcast true (some [7]), .broadcastDeadline, .broadcast true (some [8]), .wokePendingBroadcast 0]

/-- What the loop has done after these. -/
def loadedRounds : List Round := (handleBroadcasts loadedWorld ⟨1, 65536, 20000⟩ loadedBranches Loop.new).rounds

/-- Both rounds of the broadcast come after a turn that was limited, choose no peer and count;
it is gone with the second (the first of the list) and was never sent. -/
theorem broadcast_never_sent : loadedRounds.map Round.eligible = [[3], [3]] ∧ loadedRounds.map Round.handed = [[], []] ∧
      loadedRounds.map (fun round => (round.before.sendCount, round.after.sendCount)) = [(1, 2), (0, 1)] ∧
      loadedRounds.map (fun round => (round.after.sentTo, round.requeued)) = [([], false), ([], true)] ∧
      ¬ NotWasted loadedRounds := by
  have eligible : loadedRounds.map Round.eligible = [[3], [3]] := by decide +kernel
  have handed : loadedRounds.map Round.handed = [[], []] := by decide +kernel
  have counts : loadedRounds.map (fun round => (round.before.sendCount, round.after.sendCount)) = [(1, 2), (0, 1)] := by
    decide +kernel
  refine ⟨eligible, handed, counts, by decide +kernel, ?_⟩
  rintro ⟨kept, -⟩
  obtain ⟨round, rest, shape⟩ : ∃ round rest, loadedRounds = round :: rest := by
    cases shape : loadedRounds with
    | nil =>
      rw [shape] at handed
      cases handed
    | cons round rest => exact ⟨round, rest, rfl⟩
  simp only [shape, map_cons, cons.injEq, Prod.mk.injEq] at eligible handed counts
  obtain ⟨_, -, sent⟩ := kept round (shape ▸ mem_cons_self) (by omega) (by simp [eligible.1])
  rw [handed.1] at sent
  cases sent

end Galvanize.Broadcasting
