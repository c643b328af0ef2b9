import Galvanize.Cluster
import Galvanize.NodeAgreement

/-! Whether all chunks of a version agree on its last seq. The originator takes it
from its transaction; a server takes it from the rows that are left. As long as
the last row of a version is left wherever the version is served from stored
rows, every changeset carries the originator's last seq and ends at or below it,
and what a node holds of the version agrees with every chunk that may arrive. -/
namespace Galvanize.LastSeqAgreement
open BookedVersions BookieProofs ProcessProofs Reload ServeProofs SyncNeedProofs NodeAgreement SyncStateV1 List

variable {engine : CrSqlite} {cluster : Cluster engine} {node : Node engine} {wrote : ActorId → Nat → Nat → Prop}
  {actor site : ActorId} {version last : Nat}

/-! ### What is asked for -/

variable {theirs : SyncStateV1}

/-- What is asked of a version held in part is lacking in it. -/
private theorem partialNeeds_lacked {haves : RangeInclusiveSet} {held : PartialVersion} {seqs : List CrsqlSeqRange}
    (asked : .partialVersion own seqs ∈ theirs.partialNeeds actor haves (version, held.lacked)) :
    own = version ∧ ∀ r ∈ seqs, ∀ seq ∈ r, ∃ gap ∈ held.lacked, seq ∈ gap := by
  simp only [partialNeeds] at asked
  split at asked
  · obtain ⟨rfl, rfl⟩ : own = version ∧ seqs = held.lacked := by simpa using asked
    exact ⟨rfl, fun r listed seq inside => ⟨r, listed, inside⟩⟩
  split at asked
  · split at asked
    · cases asked
    · obtain ⟨rfl, rfl⟩ := by simpa using asked
      refine ⟨rfl, fun r listed seq inside => ?_⟩
      obtain ⟨gap, isGap, part⟩ := mem_flatMap.mp listed
      exact ⟨gap, isGap, (RangeInclusiveSet.mem_intersections.mp ⟨r, part, inside⟩).1⟩
  · cases asked

/-- A range asked for ends at or below the last seq of what the asking node holds. -/
theorem needs_bound {bookie : Bookie} {needs : Map ActorId (List SyncNeedV1)}
    (computed : (generateSync bookie site).computeAvailableNeeds theirs = .ok needs) {listed : List SyncNeedV1}
    (is : needs[actor]? = some listed) {seqs : List CrsqlSeqRange} (asked : .partialVersion version seqs ∈ listed) :
    ∃ held, (bookie.ensure actor).partials[version]? = some held ∧ ∀ r ∈ seqs, ∀ seq ∈ r, seq ≤ held.lastSeq := by
  obtain ⟨_, _, rfl⟩ := computed_needs computed is
  simp only [needsOf] at asked
  split at asked
  · cases asked
  simp only [mem_append, mem_flatMap] at asked
  rcases asked with (⟨_, _, full⟩ | ⟨⟨own, ranges⟩, entry, inPart⟩) | missing
  · simp at full
  · have tells :
      (generateSync bookie site).partialNeedFor actor = (told (generateSync bookie site) actor).partialNeed := rfl
    rw [tells, told_generateSync] at entry
    split at entry
    · simp at entry
    · obtain ⟨held, isHeld, _, rfl⟩ := mem_lackedSeqs.mp (Std.ExtTreeMap.mem_toList_iff_getElem?_eq_some.mp entry)
      obtain ⟨rfl, lacking⟩ := partialNeeds_lacked inPart
      exact ⟨held, isHeld, fun r listed seq inside => (mem_lacked.mp (lacking r listed seq inside)).1⟩
  · simp only [SyncStateV1.missing] at missing
    split at missing
    · split at missing <;> simp at missing
    · simp at missing

/-! ### What is sent -/

variable {info : InsertChangesInfo}

/-- A broadcast carries the last seq of its transaction. -/
theorem broadcastLoop_chunks (ends : EndsBy chunked info.lastSeq) : ∀ message ∈ broadcastLoop site info fuel chunked,
      IsChunk site info.dbVersion info.lastSeq info.lastSeq message := by
  induction fuel generalizing chunked with
  | zero => simp [broadcastLoop]
  | succ fuel ih =>
    intro message listed
    simp only [broadcastLoop] at listed
    split at listed
    · rename_i changes seqs later isNext
      have chunk : chunked.next.1 = some (.ok (changes, seqs)) := by rw [isNext]
      obtain ⟨isChunk, rest⟩ := @EndsBy.next site info.dbVersion info.lastSeq info.ts _ _ 0 _ _ ends chunk
      rw [isNext] at rest
      have laterEnds : EndsBy later info.lastSeq := ⟨rest.drained, rest.last, rest.rows⟩
      rcases mem_cons.mp listed with rfl | more
      · exact isChunk
      · exact ih laterEnds message more
    · cases listed
    · cases listed

theorem broadcastChanges_chunks (bound : ∀ row ∈ node.db.storedRows site info.dbVersion, row.change.seq ≤
    info.lastSeq) : ∀ message ∈ broadcastChanges site node info unreadable,
      IsChunk site info.dbVersion info.lastSeq info.lastSeq message := by
  refine broadcastLoop_chunks (endsBy_new fun change listed => ?_)
  have rowBound : ∀ change ∈ (bySeq (node.db.storedRows site info.dbVersion)).map StoredChange.change,
      change.seq ≤ info.lastSeq := by
    intro change listed
    obtain ⟨row, held, rfl⟩ := mem_map.mp listed
    exact bound row (mem_bySeq.mp held)
  split at listed
  · exact rowBound change (by simpa using listed)
  · refine rowBound change ?_
    simp only [mem_append, mem_map, Except.ok.injEq, exists_eq_right, mem_singleton, reduceCtorEq, or_false] at listed
    exact mem_of_mem_take listed

variable {message : ChangeV1}

theorem messageAgrees_of_chunk (written : wrote actor version last) (low : stop ≤ last)
    (chunk : IsChunk actor version last stop message) : MessageAgrees wrote message := by
  have isChunk := isChunk_mono low chunk
  obtain ⟨_, _, _, _, _, rfl⟩ := chunk
  exact .inr ⟨version, last, written, isChunk⟩

/-- The last row of a version is left if any row of it is. -/
def LastRowLeft (wrote : ActorId → Nat → Nat → Prop) (node : Node engine) (actor : ActorId) (version : Nat) : Prop :=
  node.db.storedRows actor version ≠ [] → ∃ row ∈ node.db.storedRows actor version, wrote actor version row.change.seq

/-- `MAX(seq)` is then what the originator wrote. -/
theorem maxSeq_written (unique : Unique wrote) (agrees : NodeAgrees wrote node)
    (left : LastRowLeft wrote node actor version)
    (isInfo : versionInfo (node.db.storedRows actor version) = (some last, some ts)) : wrote actor version last := by
  obtain ⟨⟨top, listed, rfl⟩, bound⟩ := versionInfo_last (congrArg Prod.fst isInfo)
  obtain ⟨row, held, written⟩ := left (ne_nil_of_mem listed)
  obtain ⟨stored, rfl, rfl⟩ := mem_versionRows.mp listed
  obtain ⟨_, isFinal, low⟩ := agrees.stored top stored
  have high := bound row held
  rw [unique _ _ _ _ isFinal written] at low
  exact le_antisymm high low ▸ written

theorem seqRow_agrees (agrees : NodeAgrees wrote node) (stored : row ∈ node.db.seqRows actor version)
    (chunk : IsChunk actor version row.lastSeq row.endSeq message) : MessageAgrees wrote message := by
  obtain ⟨held, rfl, rfl⟩ := mem_seqRows.mp stored
  obtain ⟨written, low⟩ := agrees.seqs row held
  exact messageAgrees_of_chunk written low chunk

/-- What a server answers agrees, if the last row of each version it has rows of is left and
no seq above the last one is asked for. -/
theorem answerNeed_agrees {need : SyncNeedV1} (unique : Unique wrote) (agrees : NodeAgrees wrote node)
    (left : ∀ version, Mentions need version → LastRowLeft wrote node actor version)
    (asked : ∀ own seqs, need = .partialVersion own seqs →
      ∃ last, wrote actor own last ∧ ∀ r ∈ seqs, ∀ seq ∈ r, seq ≤ last) :
    ∀ message ∈ answerNeed env node actor need, MessageAgrees wrote message := by
  have sends : Sends (MessageAgrees wrote) .start (handleNeed env node.db actor need) := by
    rw [handleNeed]
    split
    · exact sends_of_sent rfl
    rename_i valid
    refine sends_bind sends_statement fun running _ => sends_bind ?_ fun served _ => ?_
    · cases need with
      | full _ =>
        refine sends_serveFull (fun version last ts held message chunk => ?_)
          fun version _ row stored message chunk => seqRow_agrees agrees stored chunk
        obtain ⟨within, isInfo⟩ := mem_storedVersions.mp held
        exact messageAgrees_of_chunk (maxSeq_written unique agrees (left version within) isInfo) le_rfl chunk
      | partialVersion own seqs =>
        obtain ⟨last, written, low⟩ := asked own seqs rfl
        refine sends_servePartial (fun top ts isInfo range listed message chunk => ?_)
          fun row stored message chunk => seqRow_agrees agrees stored chunk
        have top_written := maxSeq_written unique agrees (left own rfl) isInfo
        obtain rfl := unique _ _ _ _ written top_written
        have proper := validateRanges_ok.mp valid range listed
        exact messageAgrees_of_chunk written (low range listed range.stop ⟨proper, le_rfl⟩) chunk
      | empty ts => exact sends_of_sent rfl
    · refine sends_foldlM fun range _ state => sends_mono sends_sendEmpty fun message is => ?_
      subst is
      exact .inl ⟨range, none, rfl⟩
  intro message listed
  unfold answerNeed at listed
  split at listed
  · obtain ⟨_, isSent, each⟩ := sends
    rw [isSent] at listed
    exact each message (by simpa [Serving.start] using listed)
  · cases listed

/-! ### Steps of the cluster -/

/-- The actor committed this version with this last seq. -/
def Wrote (cluster : Cluster engine) (actor : ActorId) (version last : Nat) : Prop :=
  ∃ info, (actor, info) ∈ cluster.committed ∧ info.dbVersion = version ∧ info.lastSeq = last

/-- Everything nodes hold, ask for and send agrees with what was committed. -/
structure Agrees (cluster : Cluster engine) : Prop where
  unique : Unique (Wrote cluster)
  numbered : ∀ actor version last, Wrote cluster actor version last →
    version < engine.peekNextDbVersion (cluster.nodes actor).db.crsql actor
  nodes : ∀ site, NodeAgrees (Wrote cluster) (cluster.nodes site)
  requested : ∀ actor version seqs, (actor, .partialVersion version seqs) ∈ cluster.requested →
    ∃ last, Wrote cluster actor version last ∧ ∀ r ∈ seqs, ∀ seq ∈ r, seq ≤ last
  sent : ∀ message ∈ cluster.sent, MessageAgrees (Wrote cluster) message

theorem agrees_fresh (blank : ∀ site, engine.changes (stores site) = []) : Agrees (Cluster.fresh stores) where
  unique := fun _ _ _ _ ⟨_, listed, _⟩ => by cases listed
  numbered := fun _ _ _ ⟨_, listed, _⟩ => by cases listed
  nodes := fun site => nodeAgrees_fresh (blank site)
  requested := fun _ _ _ listed => by cases listed
  sent := fun _ listed => by cases listed

variable {step : NodeStep engine}

theorem mem_commits : (actor, info) ∈ cluster.commits site step ↔ actor = site ∧ ∃ fails tx, step = .write fails tx ∧
      (insertLocalChanges fails site (cluster.nodes site) tx).2 = .ok (some info) := by
  cases step with
  | write fails tx =>
    simp only [Cluster.commits]
    split
    · rename_i committed isCommitted
      simp [isCommitted, eq_comm]
    · rename_i other
      simp only [not_mem_nil, NodeStep.write.injEq, false_iff]
      rintro ⟨_, _, _, ⟨rfl, rfl⟩, is⟩
      exact other info is
  | changes faults changes | fullyBuffered fails actorId version
  | clearBuffered picked actorId versions | restart => simp [Cluster.commits]

theorem wrote_grows {step : ClusterStep engine} (written : Wrote cluster actor version last) :
    Wrote (cluster.effect step) actor version last := by
  obtain ⟨info, listed, isVersion, isLast⟩ := written
  refine ⟨info, ?_, isVersion, isLast⟩
  cases step with
  | node site step => exact mem_append_right _ listed
  | broadcast site info unreadable | ask site theirs | serve site env actorId need => exact listed

/-- What a step of a node adds to what was committed: its next version. -/
theorem wrote_node (numbers : engine.NumbersWrites)
    (written : Wrote (cluster.effect (.node site step)) actor version last) : Wrote cluster actor version last ∨
      (actor = site ∧ version = engine.peekNextDbVersion (cluster.nodes site).db.crsql site ∧
        version < engine.peekNextDbVersion ((cluster.nodes site).step site step).db.crsql site ∧
        ∃ info, (site, info) ∈ cluster.commits site step ∧ info.lastSeq = last) := by
  obtain ⟨info, listed, rfl, isLast⟩ := written
  rcases mem_append.mp listed with new | old
  · obtain ⟨rfl, _, tx, rfl, committed⟩ := mem_commits.mp new
    obtain ⟨next, used⟩ := peek_committed numbers committed
    exact .inr ⟨rfl, next, used, info, new, isLast⟩
  · exact .inl ⟨info, old, rfl, isLast⟩

section
variable (rowLaws : engine.KeepsRows) (agrees : Agrees cluster) (possible : cluster.possible (.node site step) = true)
include rowLaws agrees possible

theorem node_agrees :
    NodeAgrees (Wrote (cluster.effect (.node site step))) ((cluster.nodes site).step site step) := by
  cases step with
  | changes _ changes =>
    refine agrees_changes rowLaws agrees.unique (agrees.nodes site) fun change listed => agrees.sent change ?_
    simp only [Cluster.possible, all_eq_true, decide_eq_true_eq] at possible
    exact possible change listed
  | write fails tx =>
    refine agrees_write rowLaws (agrees.nodes site) (fun _ _ _ => wrote_grows) fun info committed => ?_
    exact ⟨info, mem_append_left _ (mem_commits.mpr ⟨rfl, fails, tx, rfl, committed⟩), rfl, rfl⟩
  | fullyBuffered fails actorId _ => exact agrees_fullyBuffered rowLaws (agrees.nodes site)
  | clearBuffered _ actorId _ => exact agrees_clearBuffered (agrees.nodes site)
  | restart => exact agrees_restart agrees.unique (agrees.nodes site)

theorem agrees_node (numbers : engine.NumbersWrites) : Agrees (cluster.effect (.node site step)) where
  unique := by
    intro actor version a b isA isB
    rcases wrote_node numbers isA with oldA | ⟨rfl, next, _, infoA, newA, rfl⟩
    · rcases wrote_node numbers isB with oldB | ⟨rfl, next, _⟩
      · exact agrees.unique _ _ _ _ oldA oldB
      · exact absurd (agrees.numbered _ _ _ oldA) (by omega)
    · rcases wrote_node numbers isB with oldB | ⟨_, _, _, infoB, newB, rfl⟩
      · exact absurd (agrees.numbered _ _ _ oldB) (by omega)
      · obtain ⟨_, _, tx, rfl, committed⟩ := mem_commits.mp newA
        obtain ⟨_, _, _, same, again⟩ := mem_commits.mp newB
        cases same
        rw [committed] at again
        cases again
        rfl
  numbered := by
    intro actor version _ written
    rcases wrote_node numbers written with old | ⟨rfl, _, used, _⟩
    · have low := agrees.numbered _ _ _ old
      simp only [Cluster.effect]
      split
      · rename_i same
        subst same
        exact lt_of_lt_of_le low (peek_step numbers)
      · exact low
    · simp only [Cluster.effect, if_pos]
      exact used
  nodes := by
    intro other
    show NodeAgrees _ (if other = site then (cluster.nodes site).step site step else cluster.nodes other)
    split
    · exact node_agrees rowLaws agrees possible
    · exact (agrees.nodes other).mono fun _ _ _ => wrote_grows
  requested := fun actor version seqs listed =>
    (agrees.requested actor version seqs listed).imp fun _ both => ⟨wrote_grows both.1, both.2⟩
  sent := fun message listed => messageAgrees_mono (agrees.sent message listed) fun _ _ _ => wrote_grows

end

section
variable (agrees : Agrees cluster)
include agrees

theorem agrees_ask : Agrees (cluster.effect (.ask site theirs)) where
  unique := agrees.unique
  numbered := agrees.numbered
  nodes := agrees.nodes
  requested := by
    intro actor version seqs listed
    rcases List.mem_append.mp listed with new | old
    · simp only [Cluster.needs] at new
      split at new
      · cases new
      · rename_i needs computed
        obtain ⟨⟨_, listed⟩, entry, inEntry⟩ := List.mem_flatMap.mp new
        obtain ⟨_, isNeed, same⟩ := List.mem_map.mp inEntry
        cases same
        obtain ⟨held, isHeld, bound⟩ :=
          needs_bound computed (Std.ExtTreeMap.mem_toList_iff_getElem?_eq_some.mp entry) isNeed
        exact ⟨held.lastSeq, ((agrees.nodes site).held _ _ held isHeld).1, bound⟩
    · exact agrees.requested actor version seqs old
  sent := agrees.sent

/-- Further changesets that agree. -/
theorem agrees_send (each : ∀ message ∈ more, MessageAgrees (Wrote cluster) message) :
    Agrees { cluster with sent := more ++ cluster.sent } where
  unique := agrees.unique
  numbered := agrees.numbered
  nodes := agrees.nodes
  requested := agrees.requested
  sent := fun message listed => (List.mem_append.mp listed).elim (each message) (agrees.sent message)

theorem agrees_broadcast (possible : cluster.possible (.broadcast site info unreadable) = true) :
    Agrees (cluster.effect (.broadcast site info unreadable)) := by
  have committed : (site, info) ∈ cluster.committed := by simpa [Cluster.possible] using possible
  have written : Wrote cluster site info.dbVersion info.lastSeq := ⟨info, committed, rfl, rfl⟩
  refine agrees_send agrees fun message listed =>
    messageAgrees_of_chunk written le_rfl (broadcastChanges_chunks (fun row held => ?_) message listed)
  obtain ⟨stored, isSite, isVersion⟩ := mem_versionRows.mp held
  obtain ⟨_, isLast, low⟩ := (agrees.nodes site).stored row stored
  rw [isSite, isVersion] at isLast
  exact agrees.unique _ _ _ _ isLast written ▸ low

/-- The condition on a step: where a version is served from stored rows, its last row is left. -/
def Intact (cluster : Cluster engine) : ClusterStep engine → Prop
  | .serve site _ actor need => ∀ version, Mentions need version →
      LastRowLeft (Wrote cluster) (cluster.nodes site) actor version
  | _ => True

theorem agrees_serve {need : SyncNeedV1}
    (possible : cluster.possible (.serve site env actor need) = true)
    (intact : Intact cluster (.serve site env actor need)) :
    Agrees (cluster.effect (.serve site env actor need)) := by
  refine agrees_send agrees (answerNeed_agrees agrees.unique (agrees.nodes site) intact fun own seqs is => ?_)
  subst is
  simp only [Cluster.possible, Cluster.asked, any_eq_true] at possible
  obtain ⟨⟨_, _⟩, listed, part⟩ := possible
  split at part
  · rename_i same
    cases same
    simp only [Bool.and_eq_true, decide_eq_true_eq, all_eq_true] at part
    obtain ⟨⟨rfl, rfl⟩, inside⟩ := part
    obtain ⟨last, written, bound⟩ := agrees.requested _ _ _ listed
    exact ⟨last, written, fun r isPart => bound r (inside r isPart)⟩
  · cases part

end

section
variable (rowLaws : engine.KeepsRows) (numbers : engine.NumbersWrites) (agrees : Agrees cluster)
include rowLaws numbers agrees

theorem agrees_step {step : ClusterStep engine} (intact : Intact cluster step) : Agrees (cluster.step step) := by
  unfold Cluster.step
  split
  · rename_i possible
    cases step with
    | node site step => exact agrees_node rowLaws agrees possible numbers
    | broadcast site _ _ => exact agrees_broadcast agrees possible
    | ask site _ => exact agrees_ask agrees
    | serve site _ _ _ => exact agrees_serve agrees possible intact
  · exact agrees

/-- Each step of the run meets the condition in the state it is taken in. -/
def IntactRun : Cluster engine → List (ClusterStep engine) → Prop
  | _, [] => True
  | cluster, step :: rest => Intact cluster step ∧ IntactRun (cluster.step step) rest

theorem agrees_run (intact : IntactRun cluster steps) : Agrees (cluster.run steps) := by
  induction steps generalizing cluster with
  | nil => exact agrees
  | cons _ _ ih => exact ih (agrees_step rowLaws numbers agrees intact.1) intact.2

end

/-! ### Agreement on the last seq -/

/-- What nodes rely on. -/
structure Agreement (cluster : Cluster engine) : Prop where
  /-- all changesets of a version carry one last seq -/
  same : ∀ a ∈ cluster.sent, ∀ b ∈ cluster.sent, a.actorId = b.actorId → a.versions = b.versions →
    ∀ x y, a.changeset.lastSeq = some x → b.changeset.lastSeq = some y → x = y
  /-- the seqs of a chunk end at or below it -/
  bounded : ∀ message ∈ cluster.sent, ∀ seqs last, message.seqs = some seqs →
    message.changeset.lastSeq = some last → seqs.stop ≤ last
  /-- "last_seq matches for partial version", whichever batch of changesets a node processes -/
  asserted : ∀ site actor processed, (∀ entry ∈ processed, ∃ message ∈ cluster.sent,
      message.actorId = actor ∧ entry = (message.versions, known message)) →
    ((cluster.nodes site).bookie.ensure actor).assertionsHold processed = true
  /-- and when a restart merges the seq rows -/
  reloads :
    ∀ site actor, mergesMatch { new actor with max := (engine.dbVersions (cluster.nodes site).db.crsql)[actor]? }
    (((cluster.nodes site).db.tables.seqs.select (fun row => row.siteId = actor)).map
      (fun row => (row.dbVersion, rowChunk row))) = true

/-- A changeset that carries a last seq is a chunk with the last seq its actor wrote. -/
theorem message_lastSeq (agrees : MessageAgrees wrote message) (carries : message.changeset.lastSeq = some last) :
    ∃ version, message.versions = .single version ∧ wrote message.actorId version last ∧
      ∀ seqs, message.seqs = some seqs → seqs.stop ≤ last := by
  obtain ⟨actorId, changeset⟩ := message
  rcases agrees with ⟨versions, ts, rfl⟩ | ⟨version, _, isWritten, _, seqs, ts, bound, _, isChunk⟩
  · cases carries
  · simp only [ChangeV1.mk.injEq, true_and] at isChunk
    subst isChunk
    cases carries
    exact ⟨version, rfl, isWritten, fun _ is => by cases is; exact bound⟩

theorem agreement_of_agrees (agrees : Agrees cluster) : Agreement cluster where
  same := by
    intro a isA b isB sameActor sameVersions x y carriesA carriesB
    obtain ⟨version, versionsA, writtenA, _⟩ := message_lastSeq (agrees.sent a isA) carriesA
    obtain ⟨_, versionsB, writtenB, _⟩ := message_lastSeq (agrees.sent b isB) carriesB
    rw [versionsA, versionsB] at sameVersions
    cases sameVersions
    exact agrees.unique _ _ _ _ writtenA (sameActor ▸ writtenB)
  bounded := by
    intro message listed seqs _ isSeqs carries
    obtain ⟨_, _, _, bound⟩ := message_lastSeq (agrees.sent message listed) carries
    exact bound seqs isSeqs
  asserted := by
    intro site actor _ each
    refine assertionsHold_agrees agrees.unique (fun versions chunk entry => ?_) ((agrees.nodes site).held actor)
    obtain ⟨message, listed, rfl, same⟩ := each _ entry
    simp only [Prod.mk.injEq] at same
    obtain ⟨rfl, is⟩ := same
    exact known_of_message (agrees.sent message listed) is.symm
  reloads := by
    intro site actor
    refine @mergesMatch_agrees _ actor _ agrees.unique _ (fun version held is => ?_) fun entry listed => ?_
    · simp [new_partials] at is
    · obtain ⟨row, held, rfl⟩ := mem_map.mp listed
      obtain ⟨stored, own⟩ := Table.mem_select.mp held
      obtain rfl : row.siteId = actor := by simpa using own
      exact rowChunk_agrees ((agrees.nodes site).seqs row stored)

/-- In every run in which each version is served from stored rows only while its last row is
left, all changesets of a version agree on its last seq. -/
theorem last_seq_agreement_of_intact (engine : CrSqlite) (rowLaws : engine.KeepsRows) (numbers : engine.NumbersWrites)
    (stores : ActorId → engine.Store) (blank : ∀ site, engine.changes (stores site) = [])
    (steps : List (ClusterStep engine)) (intact : IntactRun (Cluster.fresh stores) steps) :
    Agreement ((Cluster.fresh stores).run steps) :=
  agreement_of_agrees (agrees_run rowLaws numbers (agrees_fresh blank) intact)

/-- A transaction of nine rows that is broadcast in two chunks. -/
def twoChunks : List (ClusterStep Lww.engine) :=
  let large := (List.range 8).map (fun pk => ("t", [pk.toUInt8], "c", SqliteValue.blob (List.replicate 1024 0)))
  [.node 1 (.write false ⟨5, large ++ [("t", [8], "c", .integer 1)]⟩), .broadcast 1 ⟨1, 8, 5⟩ none]

def firstChunk : ChangeV1 :=
  let rows := (List.range 8).map (fun pk =>
    (⟨"t", [pk.toUInt8], "c", .blob (List.replicate 1024 0), 1, 1, pk, 1, 1⟩ : Change))
  ⟨1, .fullV2 1 1 (ChunkedChanges.gathered rows) 8 ⟨0, 7⟩ 5⟩

def lastChunk : ChangeV1 :=
  ⟨1, .fullV2 1 1 (ChunkedChanges.gathered [⟨"t", [8], "c", .integer 1, 1, 1, 8, 1, 1⟩]) 8 ⟨8, 8⟩ 5⟩

/-- Node 2 gets the whole version, node 3 its first chunk. -/
def spread : List (ClusterStep Lww.engine) :=
  twoChunks ++ [.node 2 (.changes .none [firstChunk, lastChunk]), .node 2 (.fullyBuffered false 1 1),
    .node 3 (.changes .none [firstChunk])]

/-- Node 3 asks node 2, in this state, for the seq it lacks, and node 4 asks for all. -/
def answered (earlier : List (ClusterStep Lww.engine)) : List (ClusterStep Lww.engine) :=
  let theirs := generateSync (((Cluster.fresh fun _ => Lww.empty).run earlier).nodes 2).bookie 2
  earlier ++ [.ask 3 theirs, .serve 2 .calm 1 (.partialVersion 1 [⟨8, 8⟩]), .serve 2 .calm 1 (.full ⟨1, 1⟩)]

theorem last_seq_agreement_when_untouched :
    Agreement (((Cluster.fresh fun _ => Lww.empty).run (answered spread) : Cluster Lww.engine)) := by
  have left : ∀ cluster : Cluster Lww.engine, (1, ⟨1, 8, 5⟩) ∈ cluster.committed →
      ⟨⟨"t", [8], "c", .integer 1, 1, 1, 8, 1, 1⟩, 5⟩ ∈ (cluster.nodes 2).db.storedRows 1 1 →
      LastRowLeft (Wrote cluster) (cluster.nodes 2) 1 1 :=
    fun cluster committed held _ => ⟨_, held, ⟨1, 8, 5⟩, committed, rfl, rfl⟩
  refine last_seq_agreement_of_intact Lww.engine Lww.keepsRows Lww.numbersWrites _ (fun _ => rfl) _
    ⟨trivial, trivial, trivial, trivial, trivial, trivial, fun version is => ?_, fun version is => ?_, trivial⟩
  · cases is
    exact left _ (by decide +kernel) (by decide +kernel)
  · obtain rfl : version = 1 := le_antisymm is.2 is.1
    exact left _ (by decide +kernel) (by decide +kernel)

/-- Node 2 overwrites the last row before it answers. -/
def overwritten : List (ClusterStep Lww.engine) := spread ++ [.node 2 (.write false ⟨7, [("t", [8], "c", .integer 2)]⟩)]

/-- The answer to node 3: above its own last seq, and without rows. -/
def misfit : ChangeV1 := ⟨1, .fullV2 1 1 ∅ 7 ⟨8, 8⟩ 5⟩

/-- The originator says 8 and node 2 says 7; the chunk node 3 asked for ends above that, and
the assertion fails when it is merged. -/
theorem last_seq_differs_after_overwrite :
    ((Cluster.fresh fun _ => Lww.empty).run (answered overwritten) : Cluster Lww.engine).sent.map
        (fun message => (message.actorId, message.versions, message.seqs, message.changeset.lastSeq)) =
      [(1, .single 1, some ⟨0, 7⟩, some 7), (1, .single 1, some ⟨8, 8⟩, some 7),
        (1, .single 1, some ⟨0, 7⟩, some 8), (1, .single 1, some ⟨8, 8⟩, some 8)] ∧
    misfit ∈ ((Cluster.fresh fun _ => Lww.empty).run (answered overwritten) : Cluster Lww.engine).sent ∧
    ((((Cluster.fresh fun _ => Lww.empty).run (answered overwritten) : Cluster Lww.engine).nodes 3).bookie.ensure
      1).assertionsHold [(misfit.versions, known misfit)] = false := by
  refine ⟨?_, ?_, ?_⟩ <;> decide +kernel

end Galvanize.LastSeqAgreement
