import Mathlib.Combinatorics.SimpleGraph.Connectivity.Connected
import Mathlib.Data.Finset.Sort
import Galvanize.Circle
import Galvanize.RingProofs

/-! The ring locks of nodes that all know each other: a symmetric relation whose graph is
connected. -/
namespace Galvanize.Plumtree
open Galvanize.Circle List

namespace Overlay
variable {N : Type} [LinearOrder N] {build : Build} {self : Overlay N}

theorem nodup_ring (foreign : self.localId ∉ self.known) : self.ring.Nodup :=
  ring_perm.nodup_iff.mpr (IndexSet.nodup_append_singleton self.known.nodup foreign)

theorem ringAt_eq_iff (nodup : self.ring.Nodup) (listed : peer ∈ self.ring) (place : Nat) :
    peer = self.ringAt place ↔ place % self.ring.length = self.ring.idxOf peer := by
  have inside : place % self.ring.length < self.ring.length := Nat.mod_lt _ (length_pos_of_mem listed)
  unfold ringAt
  rw [getElem?_eq_getElem inside, Option.getD_some]
  constructor
  · rintro rfl
    exact (nodup.idxOf_getElem _ inside).symm
  · intro same
    rw [← getElem_idxOf (idxOf_lt_length_of_mem listed)]
    simp only [same]

/-- The peers within the radius are those near on the ring, in both builds: where a
difference wraps around, the radius covers the whole ring. -/
theorem withinRadius_iff (foreign : self.localId ∉ self.known) {peer : N} (listed : peer ∈ self.ring) :
    WithinRadius build self peer ↔ Near self.ring.length self.config.radius self.position (self.ring.idxOf peer) := by
  have nodup := nodup_ring foreign
  have own := @position_lt N _ self
  have inside := idxOf_lt_length_of_mem listed
  have different : peer ≠ self.localId ↔ self.position ≠ self.ring.idxOf peer :=
    not_congr ⟨fun same => same ▸ rfl, fun same => ((idxOf_inj local_mem_ring).mp same).symm⟩
  constructor
  · rintro ⟨distance, -, most, apart, after | ⟨_, isBack, before⟩⟩
    · rw [ringAt_eq_iff nodup listed] at after
      refine ⟨different.mp apart, .inl ?_⟩
      rw [← after]
      exact (ahead_add_le own distance).trans most
    · rw [ringAt_eq_iff nodup listed] at before
      refine ⟨different.mp apart, .inr ?_⟩
      by_cases fits : distance ≤ self.position + self.ring.length
      · rw [sub_ok fits] at isBack
        cases isBack
        rw [← before]
        exact (ahead_back_le own fits).trans most
      · have short := @ahead_lt _ _ self.position inside
        omega
  · rintro ⟨apart, forward | backward⟩
    · refine ⟨_, ahead_pos own inside apart, forward, different.mpr apart, .inl ?_⟩
      exact (ringAt_eq_iff nodup listed _).mpr (add_ahead own inside)
    · have short := @ahead_lt _ _ self.position inside
      refine ⟨_, ahead_pos inside own apart.symm, backward, different.mpr apart, .inr ⟨_, sub_ok (by omega), ?_⟩⟩
      exact (ringAt_eq_iff nodup listed _).mpr (back_mod own inside)

end Overlay

variable {N : Type} [LinearOrder N] {build : Build}

/-- Nodes with one membership view: each knows exactly the others, and all have the same
radius. -/
structure SameView (nodes : Finset N) (radius : Nat) (view : N → Overlay N) : Prop where
  localId : ∀ node ∈ nodes, (view node).localId = node
  known : ∀ node ∈ nodes, ∀ peer, peer ∈ (view node).known ↔ peer ∈ nodes ∧ peer ≠ node
  radius : ∀ node ∈ nodes, (view node).config.ringLockedRadius = radius

/-- The place of a node on the common ring. -/
def place (nodes : Finset N) (node : N) : Nat := (nodes.sort (· ≤ ·)).idxOf node

variable {nodes : Finset N}

theorem place_lt (listed : node ∈ nodes) : place nodes node < nodes.card := by
  rw [← nodes.length_sort (· ≤ ·)]
  exact idxOf_lt_length_of_mem ((Finset.mem_sort _).mpr listed)

theorem place_inj (listed : node ∈ nodes) (same : place nodes node = place nodes peer) : node = peer :=
  (List.idxOf_inj ((Finset.mem_sort _).mpr listed)).mp same

theorem exists_place (inside : index < nodes.card) : ∃ node ∈ nodes, place nodes node = index := by
  have short : index < (nodes.sort (· ≤ ·)).length := by rwa [Finset.length_sort]
  refine ⟨(nodes.sort (· ≤ ·))[index], (Finset.mem_sort _).mp (getElem_mem short), ?_⟩
  exact (nodes.sort_nodup _).idxOf_getElem _ short

namespace SameView
variable {nodes : Finset N} {radius : Nat} {view : N → Overlay N} {node peer : N}

section
variable (same : SameView nodes radius view) (listed : node ∈ nodes)
include same listed

omit [LinearOrder N] in
theorem foreign : (view node).localId ∉ (view node).known := by
  rw [same.localId node listed, same.known node listed]
  exact fun both => both.2 rfl

/-- All nodes see one ring. -/
theorem ring_eq : (view node).ring = nodes.sort (· ≤ ·) := by
  have sorted : (view node).ring.Pairwise (· ≤ ·) := pairwise_insertionSort _ _
  have perm : (view node).ring.Perm (nodes.sort (· ≤ ·)) := by
    apply (perm_ext_iff_of_nodup (Overlay.nodup_ring (same.foreign listed)) (nodes.sort_nodup _)).mpr
    intro peer
    rw [Overlay.mem_ring, same.localId node listed, same.known node listed, Finset.mem_sort]
    constructor
    · rintro (⟨held, -⟩ | rfl)
      · exact held
      · exact listed
    · intro held
      by_cases own : peer = node
      · exact .inr own
      · exact .inl ⟨held, own⟩
  exact perm.eq_of_pairwise' sorted (nodes.pairwise_sort _)

theorem length_eq : (view node).ring.length = nodes.card := by
  rw [same.ring_eq listed, Finset.length_sort]

theorem position_eq : (view node).position = place nodes node := by
  rw [Overlay.position, same.ring_eq listed, same.localId node listed, place]

theorem size_known (two : 2 ≤ nodes.card) : (view node).known.size ≠ 0 := by
  have length := same.length_eq listed
  rw [Overlay.length_ring] at length
  omega

omit [LinearOrder N] in
theorem radius_eq (positive : 1 ≤ radius) : (view node).config.radius = radius := by
  rw [Config.radius, same.radius node listed]
  exact Nat.max_eq_left positive

/-- A node locks the nodes near it on the common ring. -/
theorem mem_locked_iff (two : 2 ≤ nodes.card) (positive : 1 ≤ radius) {after : Overlay N}
    (ok : (view node).setRingNeighbors build = .ok after) :
    peer ∈ after.ringLocked ↔ peer ∈ nodes ∧ Near nodes.card radius (place nodes node) (place nodes peer) := by
  obtain ⟨_, rfl, within⟩ := Overlay.setRingNeighbors_ok (same.size_known listed two) ok
  have near (held : peer ∈ (view node).ring) := @Overlay.withinRadius_iff N _ build _ (same.foreign listed) peer held
  rw [same.length_eq listed, same.radius_eq listed positive, same.position_eq listed, same.ring_eq listed,
    Finset.mem_sort, ← place] at near
  rw [within]
  constructor
  · intro inRadius
    have member := ((same.known node listed peer).mp inRadius.known).1
    exact ⟨member, (near member).mp inRadius⟩
  · rintro ⟨member, close⟩
    exact (near member).mpr close

end

/-- Every node got its locks. -/
def Locked (nodes : Finset N) (build : Build) (view locked : N → Overlay N) : Prop :=
  ∀ node ∈ nodes, (view node).setRingNeighbors build = .ok (locked node)

variable {locked : N → Overlay N}

section
variable (same : SameView nodes radius view) (two : 2 ≤ nodes.card) (positive : 1 ≤ radius)
    (ok : Locked nodes build view locked)
include same two positive ok

theorem locks_symm (listed : node ∈ nodes) (locks : peer ∈ (locked node).ringLocked) :
    node ∈ (locked peer).ringLocked := by
  obtain ⟨member, near⟩ := (same.mem_locked_iff listed two positive (ok node listed)).mp locks
  exact (same.mem_locked_iff member two positive (ok peer member)).mpr ⟨listed, near.symm⟩

theorem size_locked (listed : node ∈ nodes) : (locked node).ringLocked.size = min (2 * radius) (nodes.card - 1) := by
  have locks {peer : N} :=
    @mem_locked_iff N _ build nodes radius view node peer same listed two positive _ (ok node listed)
  rw [← card_near (place_lt listed), IndexSet.size, ← toFinset_card_of_nodup (locked node).ringLocked.nodup]
  apply Finset.card_bij fun peer _ => place nodes peer
  · intro peer held
    obtain ⟨member, near⟩ := locks.mp (mem_toFinset.mp held)
    exact Finset.mem_filter.mpr ⟨Finset.mem_range.mpr (place_lt member), near⟩
  · intro peer held _ _ equal
    exact place_inj (locks.mp (mem_toFinset.mp held)).1 equal
  · intro _ listedIndex
    obtain ⟨ranged, near⟩ := Finset.mem_filter.mp listedIndex
    obtain ⟨peer, member, rfl⟩ := exists_place (Finset.mem_range.mp ranged)
    exact ⟨peer, mem_toFinset.mpr (locks.mpr ⟨member, near⟩), rfl⟩

/-- The graph of the locks. -/
def lockGraph (nodes : Finset N) (locked : N → Overlay N) : SimpleGraph { node // node ∈ nodes } :=
  SimpleGraph.fromRel fun node peer => peer.1 ∈ (locked node.1).ringLocked

/-- Along the ring every node is reached from the first one. -/
theorem reachable_from_first (start : place nodes first.1 = 0) (index : Nat)
    (node : { node // node ∈ nodes }) (stands : place nodes node.1 = index) :
    (lockGraph nodes locked).Reachable first node := by
  induction index generalizing node with
  | zero =>
    obtain rfl : first = node := Subtype.ext (place_inj first.2 (start.trans stands.symm))
    exact SimpleGraph.Reachable.refl first
  | succ index ih =>
    have inside := place_lt node.2
    obtain ⟨before, member, stood⟩ := exists_place (by omega : index < nodes.card)
    have near : Near nodes.card radius (place nodes before) (place nodes node.1) := by
      rw [stands, stood]
      exact near_succ positive (by omega)
    have locks := (same.mem_locked_iff member two positive (ok before member)).mpr ⟨node.2, near⟩
    have adjacent : (lockGraph nodes locked).Adj ⟨before, member⟩ node := by
      refine (SimpleGraph.fromRel_adj _ _ _).mpr ⟨?_, .inl locks⟩
      intro equal
      have placed : place nodes before = place nodes node.1 := congrArg (fun other => place nodes other.1) equal
      omega
    exact (ih ⟨before, member⟩ stood).trans adjacent.reachable

theorem lockGraph_connected : (lockGraph nodes locked).Connected := by
  obtain ⟨first, member, start⟩ := exists_place (by omega : 0 < nodes.card)
  have reach (node : { node // node ∈ nodes }) : (lockGraph nodes locked).Reachable ⟨first, member⟩ node :=
    same.reachable_from_first two positive ok start _ node rfl
  have nonempty : Nonempty { node // node ∈ nodes } := ⟨⟨first, member⟩⟩
  exact ⟨fun node peer => (reach node).symm.trans (reach peer)⟩

end

/-- In a development build all nodes return if the radius is not larger than the ring: the
first node of the ring is the one that needs it. -/
theorem locked_iff (same : SameView nodes radius view) (two : 2 ≤ nodes.card) (positive : 1 ≤ radius) :
    (∃ locked, Locked nodes build view locked) ↔ (build = .dev → radius ≤ nodes.card) := by
  have each (node : N) (listed : node ∈ nodes) : (∃ after, (view node).setRingNeighbors build = .ok after) ↔
      (build = .dev → radius ≤ place nodes node + nodes.card) := by
    cases build with
    | release =>
      constructor
      · intro _ dev
        cases dev
      · intro _
        exact Overlay.setRingNeighbors_release
    | dev =>
      rw [Overlay.setRingNeighbors_dev_iff (same.size_known listed two), same.radius_eq listed positive,
        same.position_eq listed, same.length_eq listed]
      simp
  constructor
  · rintro ⟨locked, ok⟩ dev
    obtain ⟨first, member, _⟩ := exists_place (by omega : 0 < nodes.card)
    have fits := (each first member).mp ⟨_, ok first member⟩ dev
    omega
  · intro fits
    have returns : ∀ node, ∃ after, node ∈ nodes → (view node).setRingNeighbors build = .ok after := by
      intro node
      by_cases listed : node ∈ nodes
      · obtain ⟨after, ok⟩ := (each node listed).mpr fun dev => (fits dev).trans (Nat.le_add_left _ _)
        exact ⟨after, fun _ => ok⟩
      · exact ⟨view node, fun held => absurd held listed⟩
    choose locked ok using returns
    exact ⟨locked, ok⟩

end SameView

/-- Among nodes that all know each other, every node gets its ring neighbours, the locks are
symmetric, their graph is connected and each node has as many as the radius asks for or as
there are, exactly if the radius does not exceed the number of nodes; a release build
needs no such bound. -/
theorem ring_locks_connect_iff {nodes : Finset N} {radius : Nat} {view : N → Overlay N}
    (same : SameView nodes radius view) (two : 2 ≤ nodes.card) (positive : 1 ≤ radius) (build : Build) :
    (∃ locked : N → Overlay N, (∀ node ∈ nodes, (view node).setRingNeighbors build = .ok (locked node)) ∧
      (∀ node ∈ nodes, ∀ peer ∈ (locked node).ringLocked, node ∈ (locked peer).ringLocked) ∧
      (SameView.lockGraph nodes locked).Connected ∧
      ∀ node ∈ nodes, (locked node).ringLocked.size = min (2 * radius) (nodes.card - 1)) ↔
    (build = .dev → radius ≤ nodes.card) := by
  rw [← same.locked_iff two positive]
  constructor
  · rintro ⟨locked, ok, -⟩
    exact ⟨locked, ok⟩
  · rintro ⟨locked, ok⟩
    refine ⟨locked, ok, ?_, same.lockGraph_connected two positive ok, ?_⟩
    · intro node listed peer locks
      exact same.locks_symm two positive ok listed locks
    · intro node listed
      exact same.size_locked two positive ok listed

/-- Numbered nodes that know each other. -/
def ringView (nodes : List Nat) (radius node : Nat) : Overlay Nat where
  localId := node
  config := { Config.default with ringLockedRadius := radius }
  eager := ∅
  lazy := ∅
  known := (∅ : IndexSet Nat).extend (nodes.filter fun peer => decide (peer ≠ node))
  ringLocked := ∅
  peerTopology := ∅
  pendingTopology := ∅
  needsRebalance := false
  fanout := ⟨3, 4, 6⟩

theorem sameView_ringView (nodes : List Nat) (radius : Nat) :
    SameView nodes.toFinset radius (ringView nodes radius) where
  localId _ _ := rfl
  known node _ peer := by
    rw [ringView, IndexSet.mem_extend, List.mem_filter, decide_eq_true_eq, List.mem_toFinset]
    simp
  radius _ _ := rfl

theorem three_nodes_connect : ∃ locked : Nat → Overlay Nat,
      (∀ node ∈ [0, 1, 2].toFinset, (ringView [0, 1, 2] 1 node).setRingNeighbors .dev = .ok (locked node)) ∧
      (∀ node ∈ [0, 1, 2].toFinset, ∀ peer ∈ (locked node).ringLocked, node ∈ (locked peer).ringLocked) ∧
      (SameView.lockGraph [0, 1, 2].toFinset locked).Connected ∧
      ∀ node ∈ [0, 1, 2].toFinset, (locked node).ringLocked.size = min (2 * 1) ([0, 1, 2].toFinset.card - 1) :=
  (ring_locks_connect_iff (sameView_ringView [0, 1, 2] 1) (by decide) (by decide) .dev).mpr fun _ => by decide

/-- Two nodes with a radius of three: the first one subtracts more than it has. -/
theorem two_nodes_radius_three : SameView [0, 1].toFinset 3 (ringView [0, 1] 3) ∧ 2 ≤ [0, 1].toFinset.card ∧
      (ringView [0, 1] 3 0).setRingNeighbors .dev = .error .overflow :=
  ⟨sameView_ringView [0, 1] 3, by decide, rfl⟩

end Galvanize.Plumtree
