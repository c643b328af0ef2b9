import Galvanize.ChangeSeenStore
import Galvanize.WireCompression
import Galvanize.SyncNeedProofs

/-! Whether what is read from the wire has ranges that are the right way round. Changes,
sync states and needs are validated by their readers; the id of a change, as Plumtree
carries it in each of its messages, is not. -/
namespace Galvanize
open ByteCodec List

/-! ### The ranges of a message -/

/-- The start is not above the end. -/
def RangeInclusive.Ordered (range : RangeInclusive) : Prop := range.start ≤ range.stop

instance (range : RangeInclusive) : Decidable range.Ordered := inferInstanceAs (Decidable (_ ≤ _))

def Changeset.ranges : Changeset → List RangeInclusive
  | .empty versions _ => [versions]
  | .full _ _ seqs _ _ => [seqs]
  | .emptySet versions _ => versions
  | .fullV2 _ _ _ _ seqs _ => [seqs]

def SyncNeedV1.ranges : SyncNeedV1 → List RangeInclusive
  | .full versions => [versions]
  | .partialVersion _ seqs => seqs
  | .empty _ => []

def SyncStateV1.ranges (state : SyncStateV1) : List RangeInclusive :=
  state.need.toList.flatMap (·.2) ++ state.partialNeed.toList.flatMap fun entry => entry.2.toList.flatMap (·.2)

def SyncMessage.ranges : SyncMessage → List RangeInclusive
  | .v1 (.state state) => state.ranges
  | .v1 (.changeset change) => change.changeset.ranges
  | .v1 (.request request) => request.flatMap fun entry => entry.2.flatMap SyncNeedV1.ranges
  | .v1 (.clock _) | .v1 (.rejection _) | .v1 (.compressedChangeset _) => []

def BroadcastV1.ranges : BroadcastV1 → List RangeInclusive
  | .change held => held.changeset.ranges
  | .compressedChange _ => []

def ChangeId.range (id : ChangeId) : RangeInclusive :=
  match id.changesetId with
  | .full _ seqs _ => seqs
  | .empty versions => versions

/-- The ids that a message of the protocol carries. -/
def PlumtreeMsgV1.ids : PlumtreeMsgV1 → List ChangeId
  | .gossip _ _ payload => [payload.id]
  | .ihave _ digests => digests.map (·.id)
  | .graft _ _ requests => requests.map (·.id)
  | .prune _ triggeredBy => triggeredBy.toList

def PlumtreeMsgV1.bcasts : PlumtreeMsgV1 → List BroadcastV1
  | .gossip _ _ payload => [payload.bcast]
  | _ => []

def PlumtreeMsgV1.ranges (message : PlumtreeMsgV1) : List RangeInclusive :=
  message.ids.map ChangeId.range ++ message.bcasts.flatMap BroadcastV1.ranges

/-! ### What validation says -/

theorem ChangeV1.validateVersions_ok {versions : CrsqlDbVersionRange} (valid : validateVersions versions = .ok ()) :
    versions.Ordered := by
  unfold validateVersions at valid
  split at valid
  case isTrue => cases valid
  case isFalse upright => exact Nat.not_lt.mp upright

theorem ChangeV1.validate_ranges {change : ChangeV1} (valid : change.validate = .ok ()) :
    ∀ range ∈ change.changeset.ranges, range.Ordered := by
  obtain ⟨actor, changeset⟩ := change
  intro range listed
  cases changeset with
  | empty versions ts =>
    cases mem_singleton.mp listed
    exact validateVersions_ok valid
  | emptySet versions ts => exact validateVersions_ok (forM_ok_iff.mp valid range listed)
  | full version changes seqs lastSeq ts | fullV2 actor version changes lastSeq seqs ts =>
    cases mem_singleton.mp listed
    exact validate_seqs valid rfl

theorem SyncNeedV1.validate_ranges {need : SyncNeedV1} (valid : need.validate = .ok ()) :
    ∀ range ∈ need.ranges, range.Ordered := by
  cases need with
  | full versions | partialVersion version seqs => exact SyncNeedProofs.validateRanges_ok.mp valid
  | empty ts =>
    intro range listed
    cases listed

theorem SyncStateV1.validate_ranges {state : SyncStateV1} (valid : state.validate = .ok ()) :
    ∀ range ∈ state.ranges, range.Ordered := by
  obtain ⟨_, needs, partials⟩ := bind_ok valid
  intro range listed
  rcases mem_append.mp listed with inNeed | inPartial
  · obtain ⟨entry, isEntry, held⟩ := mem_flatMap.mp inNeed
    exact SyncNeedProofs.validateRanges_ok.mp (forM_ok_iff.mp needs entry isEntry) range held
  · obtain ⟨entry, isEntry, inEntry⟩ := mem_flatMap.mp inPartial
    obtain ⟨given, isGiven, held⟩ := mem_flatMap.mp inEntry
    have each := forM_ok_iff.mp (forM_ok_iff.mp partials entry isEntry) given isGiven
    exact SyncNeedProofs.validateRanges_ok.mp each range held

/-! ### What the readers accept -/

namespace Wire

/-- Every range of a sync message that is read is the right way round. -/
theorem syncMessage_ordered {message : SyncMessage} (accepted : syncMessage.Accepted message) :
    ∀ range ∈ message.ranges, range.Ordered := by
  obtain ⟨held⟩ := message
  have inner := accepted_syncMessage accepted
  intro range listed
  cases held with
  | state state =>
    have held := accepted_enum rfl inner
    exact state.validate_ranges (accepted_kind.mp held).2 range listed
  | changeset _ => exact ChangeV1.validate_ranges (accepted_syncChangeset inner).2 range listed
  | request request =>
    obtain ⟨entry, isEntry, inEntry⟩ := mem_flatMap.mp listed
    obtain ⟨need, isNeed, inNeed⟩ := mem_flatMap.mp inEntry
    have held := accepted_enum rfl inner
    have needs := (accepted_kind.mp held).2 entry isEntry
    exact SyncNeedV1.validate_ranges (needs.2.2 need isNeed).2 range inNeed
  | clock ts | rejection rejection | compressedChangeset data => cases listed

theorem broadcast_ordered (accepted : broadcastV1.Accepted bcast) : ∀ range ∈ bcast.ranges, range.Ordered := by
  intro range listed
  cases bcast with
  | change _ =>
    have own := accepted_enum rfl accepted
    exact ChangeV1.validate_ranges (accepted_kind.mp own).2 range listed
  | compressedChange _ => cases listed

theorem accepted_uniPayload (accepted : uniPayload.Accepted (.v1 data cluster)) : uniPayloadV1.Accepted data := by
  have held : (kind (pair uniPayloadV1 clusterId) uniV1Kind).Accepted (uniV1Kind.build (data, cluster)) :=
    accepted_enum rfl accepted
  exact (accepted_kind.mp held).1

theorem accepted_broadcast (accepted : uniPayloadV1.Accepted (.broadcast bcast)) : broadcastV1.Accepted bcast := by
  have held := accepted_enum rfl accepted
  exact accepted_kind.mp held

theorem accepted_plumtree {message : PlumtreeMsgV1} (accepted : uniPayloadV1.Accepted (.plumtree (.v1 message))) :
    plumtreeMsg.Accepted message := by
  have wire := accepted_enum rfl accepted
  have held := accepted_enum rfl (accepted_kind.mp wire)
  exact accepted_kind.mp held

/-- The change in a message of the protocol was validated. -/
theorem plumtree_bcasts_ordered {message : PlumtreeMsgV1} (accepted : plumtreeMsg.Accepted message) :
    ∀ bcast ∈ PlumtreeMsgV1.bcasts message, ∀ range ∈ bcast.ranges, range.Ordered := by
  intro bcast listed
  cases message with
  | gossip round sender payload =>
    cases mem_singleton.mp listed
    have held :
      (kind (pair u32 (pair actorId plumtreePayload)) gossipKind).Accepted (gossipKind.build (round,
        sender, payload)) :=
      accepted_enum rfl accepted
    exact broadcast_ordered (accepted_kind.mp held).2.2.2
  | ihave sender digests | graft sender send requests | prune sender triggeredBy => cases listed

end Wire

theorem SyncMessage.fromBuf_ordered {message : SyncMessage}
    (ok : SyncMessage.fromBuf zstd bytes = .ok message) : ∀ range ∈ message.ranges, range.Ordered := by
  obtain ⟨wired, isWired, rest⟩ := bind_ok ok
  have accepted := Wire.syncMessage.yields.run (mapError_ok.mp isWired)
  obtain ⟨held⟩ := wired
  cases held with
  | compressedChangeset _ =>
    obtain ⟨change, isChange, same⟩ := map_ok rest
    cases same
    exact ChangeV1.validate_ranges (decompress_valid (mapError_ok.mp isChange))
  | changeset change | state state | request request | clock ts | rejection rejection =>
    cases rest
    exact Wire.syncMessage_ordered accepted

theorem BroadcastV1.intoChange_ordered {bcast : BroadcastV1} {change : ChangeV1}
    (ordered : ∀ range ∈ bcast.ranges, range.Ordered) (ok : bcast.intoChange zstd dicts = .ok change) :
    ∀ range ∈ change.changeset.ranges, range.Ordered := by
  cases bcast with
  | change _ =>
    cases ok
    exact ordered
  | compressedChange _ => exact ChangeV1.validate_ranges (decompress_valid ok)

/-! ### The store of the seen changes -/

namespace ChangeSeenStore

theorem tryInsert_ordered {set : RangeInclusiveSet} {range : RangeInclusive} (ordered : range.Ordered) :
    set.tryInsert range = .ok (set.insert range) := if_pos ordered

theorem observeFull_ordered {entries : IndexMap (ActorId × Nat) SeenEntry} {key : ActorId × Nat} {seqs : CrsqlSeqRange}
    {lastSeq : Nat} (ordered : seqs.Ordered) : ∃ result, observeFull entries key seqs lastSeq = .ok result := by
  unfold observeFull
  cases entries.get? key with
  | none =>
    rw [tryInsert_ordered ordered]
    exact ⟨_, rfl⟩
  | some entry =>
    dsimp only
    cases entry.seqs with
    | none => exact ⟨_, rfl⟩
    | some stored =>
      dsimp only
      by_cases known : (stored.gaps seqs).isEmpty
      · rw [if_pos known]
        exact ⟨_, rfl⟩
      · rw [if_neg known, tryInsert_ordered ordered]
        exact ⟨_, rfl⟩

/-- The store takes an id, whatever it holds, exactly if its seqs are the right way round. -/
theorem observe_ok_iff {id : ChangeId} : (∀ store : ChangeSeenStore, ∃ result, store.observe id = .ok result) ↔
    ∀ version seqs lastSeq, id.changesetId = .full version seqs lastSeq → seqs.Ordered := by
  constructor
  · intro takes version seqs lastSeq isFull
    obtain ⟨result, ok⟩ := takes (.new 0 ∅)
    by_contra inverted
    rw [observe, isFull] at ok
    have refused : observeFull (∅ : IndexMap (ActorId × Nat) SeenEntry) (id.actorId, version) seqs lastSeq =
        .error .invertedRange := by
      change ((RangeInclusiveSet.tryInsert ∅ seqs).map _) = _
      rw [RangeInclusiveSet.tryInsert, if_neg (by exact inverted)]
      rfl
    change (observeFull (∅ : IndexMap (ActorId × Nat) SeenEntry) (id.actorId, version) seqs lastSeq).map _ = _ at ok
    rw [refused] at ok
    cases ok
  · intro ordered store
    unfold observe
    cases isId : id.changesetId with
    | full version seqs lastSeq =>
      dsimp only
      obtain ⟨result, ok⟩ := @observeFull_ordered store.entries (id.actorId, version) seqs lastSeq
        (ordered version seqs lastSeq isId)
      rw [ok]
      exact ⟨_, rfl⟩
    | empty _ => exact ⟨_, rfl⟩

end ChangeSeenStore

/-- Every range of a sync message or of a broadcast that is decoded, compressed or not, is
the right way round. Of a Plumtree message the ranges are so exactly if those of its ids
are, and only an id with inverted seqs makes the store of the seen changes panic. -/
theorem decoded_ranges_ordered_iff (zstd : Zstd) (dicts : Option ZstdDicts) (bytes : List UInt8) (id : ChangeId) :
    (∀ message, SyncMessage.fromBuf zstd bytes = .ok message → ∀ range ∈ message.ranges, range.Ordered) ∧
    (∀ bcast cluster, Wire.uniPayload.read.run bytes = .ok (.v1 (.broadcast bcast) cluster) →
      (∀ range ∈ bcast.ranges, range.Ordered) ∧
        ∀ change, bcast.intoChange zstd dicts = .ok change → ∀ range ∈ change.changeset.ranges, range.Ordered) ∧
    (∀ message cluster, Wire.uniPayload.read.run bytes = .ok (.v1 (.plumtree (.v1 message)) cluster) →
      ((∀ range ∈ PlumtreeMsgV1.ranges message, range.Ordered) ↔ ∀ id ∈ PlumtreeMsgV1.ids message, id.range.Ordered) ∧
        ∀ bcast ∈ PlumtreeMsgV1.bcasts message, ∀ change, bcast.intoChange zstd dicts = .ok change →
          ∀ range ∈ change.changeset.ranges, range.Ordered) ∧
    ((∀ store : ChangeSeenStore, ∃ result, store.observe id = .ok result) ↔
      ∀ version seqs lastSeq, id.changesetId = .full version seqs lastSeq → seqs.Ordered) := by
  refine ⟨?_, ?_, ?_, ChangeSeenStore.observe_ok_iff⟩
  · intro message ok
    exact SyncMessage.fromBuf_ordered ok
  · intro bcast cluster ok
    have ordered :=
      Wire.broadcast_ordered (Wire.accepted_broadcast (Wire.accepted_uniPayload (Wire.uniPayload.yields.run ok)))
    exact ⟨ordered, fun _ decoded => BroadcastV1.intoChange_ordered ordered decoded⟩
  · intro message cluster ok
    have bcasts :=
      Wire.plumtree_bcasts_ordered (Wire.accepted_plumtree (Wire.accepted_uniPayload (Wire.uniPayload.yields.run ok)))
    refine ⟨⟨?_, ?_⟩, fun bcast listed _ decoded => BroadcastV1.intoChange_ordered (bcasts bcast listed) decoded⟩
    · intro each id listed
      exact each id.range (mem_append_left _ (mem_map_of_mem listed))
    · intro each range listed
      rcases mem_append.mp listed with inIds | inBcasts
      · obtain ⟨id, isId, rfl⟩ := mem_map.mp inIds
        exact each id isId
      · obtain ⟨bcast, isBcast, inBcast⟩ := mem_flatMap.mp inBcasts
        exact bcasts bcast isBcast range inBcast

/-- A gossip about the first version of node 2. -/
def gossipOf (seqs : CrsqlSeqRange) : PlumtreeMsgV1 := .gossip 1 2 ⟨⟨2, .full 1 seqs 0⟩, .compressedChange []⟩

/-- The bytes of the gossip, up to the two ends of the seqs. -/
def gossipBytes (start : UInt8) : List UInt8 :=
  [0, 0, 0, 0, 1, 0, 0, 0, 0, 0, 0, 0, 0, 0, 0, 0, 1, 0, 0, 0] ++ (List.replicate 15 0 ++ [2]) ++
    (List.replicate 15 0 ++ [2]) ++
    [0, 0, 0, 0] ++ (1 :: List.replicate 7 0) ++ (start :: List.replicate 7 0) ++ List.replicate 8 0 ++
      List.replicate 8 0 ++
    [1, 0, 0, 0, 0, 0, 0, 0, 0, 0]

/-- A gossip whose id has the seqs 1 to 0 is decoded, and the node that gets it panics. -/
theorem inverted_gossip_decoded :
    Wire.uniPayload.read.run (gossipBytes 1) = .ok (.v1 (.plumtree (.v1 (gossipOf ⟨1, 0⟩))) 0) ∧
      (∃ range ∈ PlumtreeMsgV1.ranges (gossipOf ⟨1, 0⟩), ¬range.Ordered) ∧
      (ChangeSeenStore.new 1000 ∅).observeGossip 1 ⟨⟨2, .full 1 ⟨1, 0⟩ 0⟩, .compressedChange []⟩ =
        .error .invertedRange := by
  refine ⟨rfl, ⟨⟨1, 0⟩, mem_append_left _ mem_cons_self, by decide⟩, rfl⟩

/-- A gossip with the seqs 0 to 0 has only such ranges. -/
theorem ordered_gossip_decoded :
    Wire.uniPayload.read.run (gossipBytes 0) = .ok (.v1 (.plumtree (.v1 (gossipOf ⟨0, 0⟩))) 0) ∧
      ∀ range ∈ PlumtreeMsgV1.ranges (gossipOf ⟨0, 0⟩), range.Ordered := by
  have decoded : Wire.uniPayload.read.run (gossipBytes 0) = .ok (.v1 (.plumtree (.v1 (gossipOf ⟨0, 0⟩))) 0) := rfl
  have parts := decoded_ranges_ordered_iff (textZstd []) none (gossipBytes 0) ⟨2, .full 1 ⟨0, 0⟩ 0⟩
  refine ⟨decoded, (parts.2.2.1 _ _ decoded).1.mpr ?_⟩
  intro id listed
  cases mem_singleton.mp listed
  exact Nat.le_refl 0

end Galvanize
