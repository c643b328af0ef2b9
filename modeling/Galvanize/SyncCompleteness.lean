import Galvanize.NodeInvariant
import Galvanize.SyncNeedProofs

/-! Nothing that a peer could send is left unasked: whatever the peer fully has
and we do not, and whatever seqs of a shared partial version it has and we lack,
is covered by some need, as long as our record of a partial version reaches as
far as the version does. -/
namespace Galvanize.SyncCompleteness
open BookedVersions BookieProofs SyncNeedProofs NodeInvariant List Option

variable {ours theirs : Bookie} {self peer actor : ActorId} {version seq head last : Nat}

private theorem above_asked (different : actor ≠ self) (low : version ≤ head)
    (above : (ours.ensure actor).max.getD 0 < version) :
    ∃ versions, .full versions ∈ (generateSync ours self).needsOf (generateSync theirs peer) actor head ∧
      version ∈ versions := by
  cases ourMax : (ours.ensure actor).max with
  | none =>
    rw [ourMax, getD_none] at above
    rw [needsOf_none different (by omega) ourMax]
    exact ⟨⟨1, head⟩, mem_cons_self, above, low⟩
  | some last =>
    rw [ourMax, getD_some] at above
    rw [needsOf_some different (by omega) ourMax]
    refine ⟨⟨last + 1, head⟩, mem_append_right _ (mem_headNeeds.mpr ⟨by omega, rfl⟩), above, low⟩

/-- What the peer fully has. -/
private theorem full_asked (different : actor ≠ self) (is : (theirs.ensure actor).max = some head)
    (positive : 1 ≤ version) (has : FullyHas (theirs.ensure actor) version)
    (lacks : ¬ FullyHas (ours.ensure actor) version) :
    (∃ versions, .full versions ∈ (generateSync ours self).needsOf (generateSync theirs peer) actor head ∧
      version ∈ versions) ∨ ∃ held seqs, (ours.ensure actor).partials[version]? = some held ∧ held.isComplete = false ∧
      version ∉ (ours.ensure actor).needed ∧
      .partialVersion version seqs ∈ (generateSync ours self).needsOf (generateSync theirs peer) actor head ∧
      ∀ seq, seq ≤ held.lastSeq → seq ∉ held.seqs → ∃ r ∈ seqs, seq ∈ r := by
  have low := (containsVersion_iff.mp has.1).2
  rw [is, getD_some] at low
  by_cases known : (ours.ensure actor).containsVersion version = true
  · obtain ⟨unneeded, below⟩ := containsVersion_iff.mp known
    cases ourMax : (ours.ensure actor).max with
    | none =>
      rw [ourMax, getD_none] at below
      omega
    | some last =>
      simp only [FullyHas, known, true_and, not_forall, Bool.not_eq_true] at lacks
      obtain ⟨held, isHeld, incomplete⟩ := lacks
      refine .inr ⟨held, held.lacked, isHeld, incomplete, unneeded, ?_,
        fun seq bound outside => mem_lacked.mpr ⟨bound, outside⟩⟩
      rw [needsOf_some different (by omega) ourMax]
      exact mem_append_left _ (mem_append_right _ (seqNeeds_cover is isHeld incomplete positive has))
  · left
    simp only [containsVersion_iff, not_and, not_le] at known
    by_cases needed : version ∈ (ours.ensure actor).needed
    · cases ourMax : (ours.ensure actor).max with
      | none => exact above_asked different low (by rw [ourMax, getD_none]; omega)
      | some last =>
        obtain ⟨part, listed, inside⟩ := @gapNeeds_cover ours theirs actor version head peer is needed positive has
        rw [needsOf_some different (by omega) ourMax]
        exact ⟨part, mem_append_left _ (mem_append_left _ listed), inside⟩
    · exact above_asked different low (known needed)

/-- Of a version we hold in part nothing above our own `last_seq` is asked for, unless the
whole version is needed. -/
private theorem asked_within {need : SyncNeedV1} {held : PartialVersion} (is : (theirs.ensure actor).max = some head)
    (low : version ≤ last)
    (isHeld : (ours.ensure actor).partials[version]? = some held)
    (listed : need ∈ gapNeeds ours theirs peer actor head ++ seqNeeds ours theirs peer actor head ++
      headNeeds last head) (asks : AsksFor need version seq) :
    version ∈ (ours.ensure actor).needed ∧ FullyHas (theirs.ensure actor) version ∨ seq ≤ held.lastSeq := by
  rcases mem_append.mp listed with either | above
  · rcases mem_append.mp either with gap | inPart
    · obtain ⟨part, rfl, -, each⟩ := mem_gapNeeds is gap
      obtain ⟨needed, -, has⟩ := each version (asksFor_full.mp asks)
      exact .inl ⟨needed, has⟩
    · right
      obtain ⟨⟨own, _⟩, entry, inNeeds⟩ := mem_flatMap.mp inPart
      obtain ⟨ownHeld, isOwn, -, rfl⟩ := mem_lackedSeqs.mp (Std.ExtTreeMap.mem_toList_iff_getElem?_eq_some.mp entry)
      rw [partialNeeds_cases is] at inNeeds
      split at inNeeds
      · rw [mem_singleton.mp inNeeds] at asks
        obtain ⟨rfl, asked⟩ := asksFor_partialVersion.mp asks
        cases isHeld.symm.trans isOwn
        exact (mem_lacked.mp asked).1
      · split at inNeeds
        · dsimp only at inNeeds
          split at inNeeds
          · cases inNeeds
          · rw [mem_singleton.mp inNeeds] at asks
            obtain ⟨rfl, asked⟩ := asksFor_partialVersion.mp asks
            cases isHeld.symm.trans isOwn
            exact (mem_sharedSeqs.mp asked).1.1
        · cases inNeeds
  · obtain ⟨-, rfl⟩ := mem_headNeeds.mp above
    have beyond := (asksFor_full.mp asks).1
    dsimp only at beyond
    omega

/-- The needs cover every version that the peer fully has and we do not, by a full need or by
a partial one with all seqs we lack of the version, and every seq we lack and the peer has of
a version both hold in part. `extent` is the last seq of each version. -/
structure Complete (extent : ActorId → Nat → Nat) (us : ActorId) (ours theirs : Bookie)
    (needs : Map ActorId (List SyncNeedV1)) : Prop where
  full : ∀ (actor : ActorId) version, actor ≠ us → 1 ≤ version → FullyHas (theirs.ensure actor) version →
    ¬ FullyHas (ours.ensure actor) version →
    (∃ versions, .full versions ∈ needs[actor]?.getD [] ∧ version ∈ versions) ∨
    ∃ held seqs, (ours.ensure actor).partials[version]? = some held ∧
      .partialVersion version seqs ∈ needs[actor]?.getD [] ∧
      ∀ seq, seq ≤ extent actor version → seq ∉ held.seqs → ∃ r ∈ seqs, seq ∈ r
  shared : ∀ (actor : ActorId) version (held other : PartialVersion), actor ≠ us → 1 ≤ version →
    (ours.ensure actor).partials[version]? = some held → held.isComplete = false →
    (theirs.ensure actor).partials[version]? = some other → other.isComplete = false →
    ∀ seq, seq ∉ held.seqs → seq ∈ other.seqs → ∃ need ∈ needs[actor]?.getD [], AsksFor need version seq

/-- No seq that we lack of a version we hold in part is above the `last_seq` of our record: of
one that the peer fully has and that we do not need as a whole, and of one that the peer holds
in part. -/
structure Recorded (extent : ActorId → Nat → Nat) (us : ActorId) (ours theirs : Bookie) : Prop where
  full : ∀ (actor : ActorId) version (held : PartialVersion), actor ≠ us → 1 ≤ version →
    FullyHas (theirs.ensure actor) version →
    (ours.ensure actor).partials[version]? = some held → held.isComplete = false →
    version ∉ (ours.ensure actor).needed → ∀ seq, seq ≤ extent actor version → seq ∉ held.seqs → seq ≤ held.lastSeq
  shared : ∀ (actor : ActorId) version (held other : PartialVersion), actor ≠ us → 1 ≤ version →
    (ours.ensure actor).partials[version]? = some held → held.isComplete = false →
    (theirs.ensure actor).partials[version]? = some other → other.isComplete = false →
    ∀ seq, seq ∉ held.seqs → seq ∈ other.seqs → seq ≤ held.lastSeq

/-- **Sync need completeness.** From any states two nodes can reach, the needs are complete
exactly if no seq we lack is above the `last_seq` we have recorded for its version. -/
theorem available_needs_complete_iff (extent : ActorId → Nat → Nat) (engine peerEngine : CrSqlite) (self peer : ActorId)
    (store : engine.Store) (peerStore : peerEngine.Store) (steps : List (NodeStep engine))
    (peerSteps : List (NodeStep peerEngine)) (ours theirs : Bookie)
    (reached : ours = ((Node.fresh store).run self steps).bookie)
    (peerReached : theirs = ((Node.fresh peerStore).run peer peerSteps).bookie) :
    ∃ needs, (generateSync ours self).computeAvailableNeeds (generateSync theirs peer) = .ok needs ∧
      (Complete extent self ours theirs needs ↔ Recorded extent self ours theirs) := by
  obtain ⟨needs, ok, listed⟩ := @available_needs ours theirs self peer
  have keyed : ∀ actor, Keyed (ours.ensure actor) := fun actor => reached ▸ keyed_run
  have peerKeyed : ∀ actor, Keyed (theirs.ensure actor) := fun actor => peerReached ▸ keyed_run
  have asked : ∀ (actor : ActorId) head, (theirs.ensure actor).max = some head →
      needs[actor]?.getD [] = (generateSync ours self).needsOf (generateSync theirs peer) actor head := by
    intro actor head is
    rw [listed, is, bind_some]
    split
    · rename_i nothing
      rw [nothing, getD_none]
    · rfl
  have headed : ∀ {actor version}, 1 ≤ version → FullyHas (theirs.ensure actor) version →
      ∃ head, (theirs.ensure actor).max = some head ∧ version ≤ head := by
    intro actor version positive has
    have low := (containsVersion_iff.mp has.1).2
    cases is : (theirs.ensure actor).max with
    | none =>
      rw [is, getD_none] at low
      omega
    | some head =>
      rw [is, getD_some] at low
      exact ⟨head, rfl, low⟩
  -- what is asked for of a version that we hold in part
  have within : ∀ {actor version head need seq} {held : PartialVersion}, actor ≠ self → 1 ≤ version →
      (theirs.ensure actor).max = some head → version ≤ head →
      (ours.ensure actor).partials[version]? = some held → need ∈ needs[actor]?.getD [] → AsksFor need version seq →
      version ∈ (ours.ensure actor).needed ∧ FullyHas (theirs.ensure actor) version ∨ seq ≤ held.lastSeq := by
    intro actor version head need seq held different positive is low isHeld inNeeds asks
    obtain ⟨_, ourMax, reachable⟩ := keyed actor version held isHeld
    rw [asked actor head is, needsOf_some different (by omega) ourMax] at inNeeds
    exact asked_within is reachable isHeld inNeeds asks
  refine ⟨needs, ok, fun complete => ⟨?_, ?_⟩, fun recorded => ⟨?_, ?_⟩⟩
  · intro actor version held different positive has isHeld incomplete unneeded seq bound lacked
    obtain ⟨head, is, low⟩ := headed positive has
    have lacks : ¬ FullyHas (ours.ensure actor) version := by
      intro full
      rw [full.2 held isHeld] at incomplete
      cases incomplete
    have covered : ∃ need ∈ needs[actor]?.getD [], AsksFor need version seq := by
      rcases complete.full actor version different positive has lacks with ⟨versions, inNeeds, inside⟩ | ⟨own, seqs,
        isOwn, inNeeds, covers⟩
      · exact ⟨_, inNeeds, asksFor_full.mpr inside⟩
      · cases isHeld.symm.trans isOwn
        exact ⟨_, inNeeds, asksFor_partialVersion.mpr ⟨rfl, covers seq bound lacked⟩⟩
    obtain ⟨need, inNeeds, asks⟩ := covered
    rcases within different positive is low isHeld inNeeds asks with ⟨needed, -⟩ | bounded
    · exact absurd needed unneeded
    · exact bounded
  · intro actor version held other different positive isHeld incomplete isOther otherIncomplete seq lacked has
    obtain ⟨head, is, low⟩ := peerKeyed actor version other isOther
    obtain ⟨need, inNeeds, asks⟩ :=
      complete.shared actor version held other different positive isHeld incomplete isOther
        otherIncomplete seq lacked has
    rcases within different positive is low isHeld inNeeds asks with ⟨-, full⟩ | bounded
    · rw [full.2 other isOther] at otherIncomplete
      cases otherIncomplete
    · exact bounded
  · intro actor version different positive has lacks
    obtain ⟨head, is, -⟩ := headed positive has
    rw [asked actor head is]
    rcases full_asked different is positive has lacks with full | ⟨held, seqs, isHeld, incomplete,
      unneeded, inNeeds, covers⟩
    · exact .inl full
    · refine .inr ⟨held, seqs, isHeld, inNeeds, fun seq bound lacked => covers seq ?_ lacked⟩
      exact recorded.full actor version held different positive has isHeld incomplete unneeded seq bound lacked
  · intro actor version held other different positive isHeld incomplete isOther otherIncomplete seq lacked has
    obtain ⟨_, ourMax, _⟩ := keyed actor version held isHeld
    obtain ⟨head, is, low⟩ := peerKeyed actor version other isOther
    have bound :=
      recorded.shared actor version held other different positive isHeld incomplete isOther
        otherIncomplete seq lacked has
    obtain ⟨need, inNeeds, asks⟩ := @seqNeeds_share ours theirs actor version seq held head peer
      is isHeld incomplete other isOther otherIncomplete bound lacked has
    refine ⟨need, ?_, asks⟩
    rw [asked actor head is, needsOf_some different (by omega) ourMax]
    exact mem_append_left _ (mem_append_right _ inNeeds)

/-- A chunk of version 2 of actor 3, said to have the seqs up to `last`. -/
def chunkOfSecond (seq last : Nat) : ChangeV1 :=
  ⟨3, .full 2 [⟨"t", [1], "c", .integer 1, 1, 2, seq, 3, 1⟩] (.single seq) last 5⟩

/-- The bookkeeping after one chunk of version 2. -/
def bookedChunk (seq last : Nat) : BookedVersions :=
  { BookedVersions.new 3 with
    partials := (∅ : Map Nat PartialVersion).insert 2 ⟨.ofRanges [.single seq], last, 5⟩
    needed := .ofRanges [⟨1, 1⟩]
    max := some 2 }

theorem partials_chunk {held : PartialVersion}
    (isHeld : (Bookie.ensure ((∅ : Bookie).insert 3 (bookedChunk seq last)) actor).partials[version]? = some held) :
    held = ⟨.ofRanges [.single seq], last, 5⟩ := by
  rw [BookieMirror.ensure_insert] at isHeld
  split at isHeld
  · change ((∅ : Map Nat PartialVersion).insert 2 _)[version]? = some held at isHeld
    rw [Std.ExtTreeMap.getElem?_insert] at isHeld
    split at isHeld
    · cases isHeld
      rfl
    · simp at isHeld
  · simp [Bookie.ensure_empty] at isHeld

/-- We have the first seq of version 2 and the peer the second one. -/
theorem needs_complete_for_two_chunks :
    let ours := ((Node.fresh Lww.empty).run 1 [.changes .none [chunkOfSecond 0 2]] : Node Lww.engine).bookie
    let theirs := ((Node.fresh Lww.empty).run 2 [.changes .none [chunkOfSecond 1 2]] : Node Lww.engine).bookie
    ∃ needs, (generateSync ours 1).computeAvailableNeeds (generateSync theirs 2) = .ok needs ∧
      Complete (fun _ _ => 2) 1 ours theirs needs ∧ ∃ need ∈ needs[(3 : ActorId)]?.getD [], AsksFor need 2 1 := by
  intro ours theirs
  obtain ⟨needs, ok, iff⟩ := available_needs_complete_iff (fun _ _ => 2) Lww.engine Lww.engine 1 2 Lww.empty Lww.empty
    [.changes .none [chunkOfSecond 0 2]] [.changes .none [chunkOfSecond 1 2]] ours theirs rfl rfl
  have oursIs : ∀ {actor version} {held : PartialVersion}, (ours.ensure actor).partials[version]? = some held →
      held = ⟨.ofRanges [.single 0], 2, 5⟩ := fun isHeld => partials_chunk isHeld
  have theirsIs : ∀ {actor version} {held : PartialVersion}, (theirs.ensure actor).partials[version]? = some held →
      held = ⟨.ofRanges [.single 1], 2, 5⟩ := fun isHeld => partials_chunk isHeld
  have complete := iff.mpr
    { full := fun actor version held _ _ _ isHeld _ _ seq bound _ => by
        rw [oursIs isHeld]
        exact bound
      shared := fun actor version held other _ _ isHeld _ isOther _ seq _ has => by
        rw [theirsIs isOther] at has
        rw [oursIs isHeld]
        obtain rfl : seq = 1 := by simpa using has
        decide }
  exact ⟨needs, ok, complete, complete.shared 3 2 _ _ (by decide) (by decide) rfl (by decide) rfl (by decide) 1
    (by decide) (by decide)⟩

/-- We are told that version 2 ends with seq 1 and have its first seq; the peer is told that it
ends with seq 3 and has seq 2. Nothing is asked for. -/
theorem differing_last_seqs_not_asked :
    let ours := ((Node.fresh Lww.empty).run 1 [.changes .none [chunkOfSecond 0 1]] : Node Lww.engine).bookie
    let theirs := ((Node.fresh Lww.empty).run 2 [.changes .none [chunkOfSecond 2 3]] : Node Lww.engine).bookie
    ∃ needs, (generateSync ours 1).computeAvailableNeeds (generateSync theirs 2) = .ok needs ∧
      needs[(3 : ActorId)]?.getD [] = [] ∧ ¬Complete (fun _ _ => 3) 1 ours theirs needs := by
  intro ours theirs
  obtain ⟨needs, ok, listed⟩ := @available_needs ours theirs 1 2
  have nothing : needs[(3 : ActorId)]?.getD [] = [] := by
    rw [listed]
    decide
  refine ⟨needs, ok, nothing, fun complete => ?_⟩
  obtain ⟨need, inNeeds, -⟩ := complete.shared 3 2 ⟨.ofRanges [.single 0], 1, 5⟩ ⟨.ofRanges [.single 2], 3, 5⟩
    (by decide) (by decide) rfl (by decide) rfl (by decide) 2 (by decide) (by decide)
  rw [nothing] at inNeeds
  cases inNeeds

end Galvanize.SyncCompleteness
