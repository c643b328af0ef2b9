import Galvanize.NodeInvariant
import Galvanize.ServeProofs

/-! A node whose rows, seq rows and partial versions agree with the last seqs the
originators wrote: every step keeps that, as long as what arrives agrees. -/
namespace Galvanize.NodeAgreement
open BookedVersions BookieProofs BookieMirror ProcessProofs NodeInvariant Reload ServeProofs SyncNeedProofs

variable {engine : CrSqlite} {node : Node engine} (wrote : ActorId → Nat → Nat → Prop)
  {actor self : ActorId} {version seq last : Nat} {bv : BookedVersions}

/-! ### What agrees with the originators -/

/-- The row belongs to a version an actor wrote and is not above its last seq. -/
def RowAgrees (row : StoredChange) : Prop :=
  ∃ last, wrote row.change.siteId row.change.dbVersion last ∧ row.change.seq ≤ last

def PartialAgrees (actor : ActorId) (version : Nat)
    (held : PartialVersion) : Prop :=
  wrote actor version held.lastSeq ∧ ∀ seq ∈ held.seqs, seq ≤ held.lastSeq

/-- An empty range, or a chunk of a version with the last seq it was written with. -/
def MessageAgrees (message : ChangeV1) : Prop :=
  (∃ versions ts, message.changeset = .empty versions ts) ∨
    ∃ version last, wrote message.actorId version last ∧ IsChunk message.actorId version last last message

structure NodeAgrees (node : Node engine) : Prop where
  owned : Owned node.bookie
  held : ∀ (actor : ActorId) (version : Nat) held, (node.bookie.ensure actor).partials[version]? = some held →
    PartialAgrees wrote actor version held
  seqs : ∀ row ∈ node.db.tables.seqs, wrote row.siteId row.dbVersion row.lastSeq ∧ row.endSeq ≤ row.lastSeq
  stored : ∀ row ∈ engine.changes node.db.crsql, RowAgrees wrote row
  buffered : ∀ row ∈ node.db.buffered, RowAgrees wrote row

/-- An actor gave each version one last seq. -/
def Unique : Prop :=
  ∀ actor version a b, wrote actor version a → wrote actor version b → a = b

variable {wrote}

theorem rowAgrees_of_key (agrees : RowAgrees wrote origin) (same : origin.key = row.key) : RowAgrees wrote row := by
  obtain ⟨last, isWritten, low⟩ := agrees
  simp only [StoredChange.key, Prod.mk.injEq] at same
  obtain ⟨site, version, seq⟩ := same
  exact ⟨last, site ▸ version ▸ isWritten, seq ▸ low⟩

/-- What agrees keeps agreeing when more is written. -/
theorem NodeAgrees.mono (agrees : NodeAgrees wrote node)
    (grows : ∀ actor version last, wrote actor version last → more actor version last) : NodeAgrees more node where
  owned := agrees.owned
  held := fun actor version held is =>
    ⟨grows _ _ _ (agrees.held actor version held is).1, (agrees.held actor version held is).2⟩
  seqs := fun row stored => ⟨grows _ _ _ (agrees.seqs row stored).1, (agrees.seqs row stored).2⟩
  stored := fun row stored => (agrees.stored row stored).imp fun _ both => ⟨grows _ _ _ both.1, both.2⟩
  buffered := fun row stored => (agrees.buffered row stored).imp fun _ both => ⟨grows _ _ _ both.1, both.2⟩

variable {message : ChangeV1}

theorem messageAgrees_mono (agrees : MessageAgrees wrote message)
    (grows : ∀ actor version last, wrote actor version last → more actor version last) : MessageAgrees more message :=
  agrees.imp id fun ⟨version, last, written, chunk⟩ => ⟨version, last, grows _ _ _ written, chunk⟩

theorem nodeAgrees_fresh (blank : engine.changes store = []) : NodeAgrees wrote (Node.fresh store : Node engine) where
  owned := fun actor => by simp [Node.fresh]
  held := fun actor version held is => by simp [Node.fresh] at is
  seqs := fun row stored => by simp [Node.fresh] at stored
  stored := fun row stored => by simp [Node.fresh, blank] at stored
  buffered := fun row stored => by simp [Node.fresh] at stored

theorem rows_own {changes : ChangesetPerTable} {change : Change}
    (listed : change ∈ changes.rows version siteId) : change.siteId = siteId ∧ change.dbVersion = version := by
  simp only [ChangesetPerTable.rows, ChangesetPerTable.columnRows, List.mem_flatMap, List.mem_map] at listed
  obtain ⟨_, _, _, _, _, _, rfl⟩ := listed
  exact ⟨rfl, rfl⟩

theorem rows_of_message {parts : ChangesetParts} (agrees : MessageAgrees wrote message)
    (has : message.changeset.intoParts = some parts) :
    ∀ row ∈ StoredChange.ofChanges parts.changes parts.ts, RowAgrees wrote row := by
  intro row listed
  have inParts := (StoredChange.mem_ofChanges.mp listed).1
  obtain ⟨_, changeset⟩ := message
  rcases agrees with ⟨_, ts, rfl⟩ | ⟨_, last, isWritten, changes, _, ts, _, rows, isChunk⟩
  · cases has
  · simp only [ChangeV1.mk.injEq, true_and] at isChunk
    subst isChunk
    cases has
    obtain ⟨site, own⟩ := rows_own inParts
    exact ⟨last, by rw [site, own]; exact isWritten, rows row.change inParts⟩

theorem known_of_message (agrees : MessageAgrees wrote message)
    (is : known message = some chunk) : PartialAgrees wrote message.actorId message.versions.start chunk := by
  obtain ⟨actorId, _⟩ := message
  rcases agrees with ⟨versions, ts, rfl⟩ | ⟨_, _, isWritten, _, _, ts, bound, _, isChunk⟩
  · simp [known, ChangeV1.isComplete, Changeset.isComplete] at is
  · simp only [ChangeV1.mk.injEq, true_and] at isChunk
    subst isChunk
    simp only [known] at is
    split at is
    · cases is
    · simp only [Changeset.intoParts, Option.map_some, Option.some.injEq] at is
      subst is
      refine ⟨isWritten, fun seq inside => ?_⟩
      simp only [RangeInclusiveSet.mem_ofRanges, List.mem_singleton, exists_eq_left] at inside
      exact le_trans inside.2 bound

/-! ### Merging -/

theorem unite_agrees (unique : Unique wrote) {chunks : List PartialVersion}
    (each : ∀ chunk ∈ chunks, PartialAgrees wrote actor version chunk) (is : unite chunks = some united) :
    PartialAgrees wrote actor version united := by
  cases chunks with
  | nil => cases is
  | cons first _ =>
    obtain ⟨lastSeq, _⟩ := unite_head is rfl
    have written := (each first (by simp)).1
    refine ⟨by rw [lastSeq]; exact written, fun seq inside => ?_⟩
    obtain ⟨chunk, listed, within⟩ := (mem_unite is).mp inside
    rw [lastSeq, unique _ _ _ _ written (each chunk listed).1]
    exact (each chunk listed).2 seq within

theorem mergePartial_agrees (unique : Unique wrote) {held : Option PartialVersion}
    (old : ∀ got, held = some got → PartialAgrees wrote actor version got)
    (new : PartialAgrees wrote actor version chunk) : PartialAgrees wrote actor version (mergePartial held chunk) := by
  cases held with
  | none => exact new
  | some got =>
    have written := old got rfl
    refine ⟨written.1, fun seq inside => ?_⟩
    rcases mem_mergePartial.mp inside with ⟨_, same, within⟩ | within
    · cases same
      exact written.2 seq within
    · show seq ≤ got.lastSeq
      rw [unique _ _ _ _ written.1 new.1]
      exact new.2 seq within

section
variable {processed : List Processed}

/-- Every chunk of a batch agrees. -/
def EntriesAgree (wrote : ActorId → Nat → Nat → Prop) (actor : ActorId) (processed : List Processed) : Prop :=
  ∀ versions chunk, (versions, some chunk) ∈ processed → PartialAgrees wrote actor versions.start chunk

theorem united_agrees (unique : Unique wrote) (entries : EntriesAgree wrote actor processed)
    (is : (partialVersions processed)[version]? = some united) : PartialAgrees wrote actor version united := by
  rw [partialVersions_eq] at is
  refine unite_agrees unique (fun chunk listed => ?_) is
  obtain ⟨versions, entry, rfl⟩ := mem_chunksOf.mp listed
  exact entries versions chunk entry

/-- What is held in part agrees. -/
def HeldAgrees (wrote : ActorId → Nat → Nat → Prop) (actor : ActorId) (bv : BookedVersions) : Prop :=
  ∀ (version : Nat) held, bv.partials[version]? = some held → PartialAgrees wrote actor version held

theorem cleared_agrees (held : HeldAgrees wrote actor bv) (is : (cleared bv processed).partials[version]? = some got) :
    PartialAgrees wrote actor version got := by
  rw [cleared_partials] at is
  split at is
  · cases is
  · exact held version got is

theorem computeAndApply_agrees (unique : Unique wrote) (entries : EntriesAgree wrote actor processed)
    (held : HeldAgrees wrote actor bv) (is : (bv.computeAndApply processed).1.partials[version]? = some got) :
    PartialAgrees wrote actor version got := by
  rw [partials_computeAndApply] at is
  split at is
  · exact cleared_agrees held is
  · rename_i united given
    cases is
    exact mergePartial_agrees unique (fun got is => cleared_agrees held is) (united_agrees unique entries given)

theorem mergesMatch_agrees (unique : Unique wrote) {given : List (Nat × PartialVersion)}
    (held : HeldAgrees wrote actor bv) (each : ∀ entry ∈ given, PartialAgrees wrote actor entry.1 entry.2) :
    bv.mergesMatch given = true := by
  induction given generalizing bv with
  | nil => rfl
  | cons first _ ih =>
    have agrees := each first List.mem_cons_self
    simp only [mergesMatch, Bool.and_eq_true]
    refine ⟨?_, ih (fun version got is => ?_) fun entry listed => each entry (List.mem_cons_of_mem _ listed)⟩
    · unfold lastSeqMatches
      split
      · rfl
      · rename_i got is
        exact beq_iff_eq.mpr (unique _ _ _ _ (held first.1 got is).1 agrees.1)
    · rw [insertPartial_partials] at is
      split at is
      · rename_i same
        cases is
        exact same ▸ mergePartial_agrees unique (fun got is => held first.1 got is) agrees
      · exact held version got is

section
variable (unique : Unique wrote) (entries : EntriesAgree wrote actor processed) (held : HeldAgrees wrote actor bv)
include unique entries held

/-- No assertion fails on the way through `compute_and_apply`. -/
theorem assertionsHold_agrees : bv.assertionsHold processed = true := by
  refine mergesMatch_agrees unique (fun version got is => cleared_agrees held is) fun entry listed => ?_
  exact united_agrees unique entries (Std.ExtTreeMap.mem_toList_iff_getElem?_eq_some.mp listed)

/-- The seq rows written for a chunk end at or below its last seq. -/
theorem inserted_agrees (given : (partialVersions processed)[version]? = some united)
    (stored : r ∈ (partialChanges bv processed version united).insertSeqs.ranges) : r.stop ≤ united.lastSeq := by
  have agrees := united_agrees unique entries given
  have inside : r.stop ∈ (partialChanges bv processed version united).insertSeqs :=
    ⟨r, stored, (partialChanges bv processed version united).insertSeqs.canonical.1 r stored, le_rfl⟩
  rcases mem_partialsChange.1.mp inside with ⟨old, inOld, _, within⟩ | within
  · cases is : (cleared bv processed).partials[version]? with
    | none => simp [is, seqsOf] at inOld
    | some _ =>
      have gotAgrees := cleared_agrees held is
      rw [is] at inOld
      rw [← unique _ _ _ _ gotAgrees.1 agrees.1]
      exact gotAgrees.2 _ ⟨old, inOld, within⟩
  · exact agrees.2 _ within

end

end

/-! ### Steps of a node -/

theorem NodeAgrees.congr (agrees : NodeAgrees wrote node)
    (same : ∀ actor, bookie.ensure actor = node.bookie.ensure actor) : NodeAgrees wrote ⟨node.db, bookie⟩ where
  owned := fun actor => by rw [same]; exact agrees.owned actor
  held := fun actor version held is => agrees.held actor version held (by rw [← same]; exact is)
  seqs := agrees.seqs
  stored := agrees.stored
  buffered := agrees.buffered

/-- The rows of a database agree. -/
structure RowsAgree (wrote : ActorId → Nat → Nat → Prop) (db : Database engine) : Prop where
  stored : ∀ row ∈ engine.changes db.crsql, RowAgrees wrote row
  buffered : ∀ row ∈ db.buffered, RowAgrees wrote row

theorem rowsAgree_insert (rowLaws : engine.KeepsRows) {rows : List StoredChange}
    (stored : ∀ row ∈ engine.changes store, RowAgrees wrote row) (new : ∀ row ∈ rows, RowAgrees wrote row) :
    ∀ row ∈ engine.changes (engine.insertChanges store rows).1, RowAgrees wrote row := by
  intro row held
  obtain ⟨origin, old | inserted, same⟩ := rowLaws.changes_insert store rows row held
  · exact rowAgrees_of_key (stored origin old) same
  · exact rowAgrees_of_key (new origin inserted) same

theorem rowsAgree_effect (rowLaws : engine.KeepsRows) {change : ChangeV1} {db next : Database engine}
    (agrees : MessageAgrees wrote change) (effect : DbEffect bv db change next) (rows : RowsAgree wrote db) :
    RowsAgree wrote next := by
  cases effect with
  | set complete empty _ =>
    refine ⟨fun row held => ?_, rows.buffered⟩
    obtain ⟨origin, old, same⟩ := rowLaws.changes_set _ _ _ row held
    exact rowAgrees_of_key (rows.stored origin old) same
  | unset complete empty _ => exact rows
  | applied complete _ parts has =>
    exact ⟨rowsAgree_insert rowLaws rows.stored (rows_of_message agrees has), rows.buffered⟩
  | buffered _ parts has =>
    refine ⟨rows.stored, fun row held => ?_⟩
    rcases Table.mem_of_foldl_insertOrIgnore held with old | new
    · exact rows.buffered row old
    · exact rows_of_message agrees has row new

private theorem agrees_writeBatch (rowLaws : engine.KeepsRows) (unique : Unique wrote)
    (agrees : NodeAgrees wrote node) {after : Node engine} {outcome : Outcome}
    (arrived : ∀ actor : ActorId, ∀ change ∈ unknown[actor]?.getD [],
      change.actorId = actor ∧ MessageAgrees wrote change)
    (ok : writeBatch faults node unknown = .ok (after, outcome)) : NodeAgrees wrote after := by
  obtain ⟨state, written⟩ := writeBatch_ok ok
  have entries : ∀ actor, EntriesAgree wrote actor (entriesOf state.processed actor) := by
    intro actor _ _ entry
    obtain ⟨change, member, _, same, _⟩ := handles_entries (written.handles actor) entry
    simp only [Prod.mk.injEq] at same
    obtain ⟨rfl, is⟩ := same
    obtain ⟨rfl, message⟩ := arrived actor change member
    exact known_of_message message is.symm
  have rows := written.db (RowsAgree wrote) ⟨agrees.stored, agrees.buffered⟩
    fun actor bv change db next member effect held =>
      rowsAgree_effect rowLaws (arrived actor change member).2 effect held
  have tables := written.db (fun db => db.tables = node.db.tables) rfl
    fun actor bv change db next _ effect same => (by cases effect <;> rfl : next.tables = db.tables).trans same
  refine ⟨fun actor => ?_, fun actor version held is => ?_, fun row held => ?_, ?_, ?_⟩
  · rw [written.ensure, computeAndApply_actorId, agrees.owned]
  · rw [written.ensure] at is
    exact computeAndApply_agrees unique (entries actor) (agrees.held actor) is
  · obtain ⟨_, executed⟩ := written.executed
    rcases seqs_of_execute executed held with old | inserted
    · rw [tables] at old
      exact agrees.seqs row old
    · obtain ⟨_, given, stored, lastSeq, _⟩ := (mem_partialInserts agrees.owned).mp inserted
      rw [lastSeq]
      exact ⟨(united_agrees unique (entries row.siteId) given).1,
        inserted_agrees unique (entries row.siteId) (agrees.held row.siteId) given stored⟩
  · rw [written.crsql]
    exact rows.stored
  · rw [written.buffered]
    exact rows.buffered

theorem agrees_changes (rowLaws : engine.KeepsRows) (unique : Unique wrote) (agrees : NodeAgrees wrote node)
    (arrived : ∀ change ∈ changes, MessageAgrees wrote change) :
    NodeAgrees wrote (processMultipleChanges faults node changes).1 := by
  have gathered : NodeAgrees wrote ⟨node.db, (gatherAll node.bookie changes).bookie⟩ :=
    agrees.congr fun actor => ensure_gatherAll
  unfold processMultipleChanges
  dsimp only
  split
  · exact gathered
  split
  · exact gathered
  · rename_i after outcome written
    refine agrees_writeBatch rowLaws unique gathered (fun actor change listed => ?_) written
    obtain ⟨member, own, _⟩ := mem_unknownOf listed
    exact ⟨own, arrived change member⟩

variable {written : BookedVersions × BookieTables} {tables : BookieTables}

/-- Writing back the gaps and cleared versions of one actor adds no seq row. -/
theorem executeChanges_seqs {changes : ComputedChanges} (none_ : changes.partialSeqChanges = [])
    (ok : bv.executeChanges changes tables = .ok written) : ∀ row ∈ written.2.seqs, row ∈ tables.seqs := by
  intro row held
  unfold executeChanges at ok
  split at ok
  · cases ok
  · rename_i after reports executed
    cases ok
    rcases seqs_of_execute executed held with old | inserted
    · exact old
    · simp [BookieDbParams.fromChanges, none_] at inserted

theorem insertDb_seqs {versions : RangeInclusiveSet} (ok : bv.insertDb tables versions = .ok written) :
    ∀ row ∈ written.2.seqs, row ∈ tables.seqs := by
  exact executeChanges_seqs rfl ok

theorem clearPartials_seqs {versions : RangeInclusiveSet} (ok : bv.clearPartials tables versions = .ok written) :
    ∀ row ∈ written.2.seqs, row ∈ tables.seqs := by
  unfold clearPartials at ok
  exact executeChanges_seqs rfl ok

variable {fails : Bool}

/-- Applying a buffered version: its rows agree already. -/
theorem agrees_fullyBuffered (rowLaws : engine.KeepsRows) (agrees : NodeAgrees wrote node) :
    NodeAgrees wrote (processFullyBufferedChanges fails node actor version).1 := by
  have applies := @processFullyBufferedChanges_cases _ node actor version fails
  generalize (processFullyBufferedChanges fails node actor version).1 = after at applies
  cases applies with
  | idle bookie same => exact agrees.congr same
  | applied held _ _ _ _ bookie is _ own isCrsql inserted isLast same =>
    have moved := (clearPartials_ok isLast).trans (by rw [insertDb_ok inserted])
    refine ⟨fun other => ?_, fun other v got isGot => ?_, fun row stored => ?_, ?_, agrees.buffered⟩
    · rw [same]
      split
      · rename_i isOther
        rw [moved]
        exact isOther ▸ agrees.owned actor
      · exact agrees.owned other
    · rw [same] at isGot
      split at isGot
      · rename_i isOther
        rw [moved, clearPartials_partials, computeAndApplyGaps_partials] at isGot
        split at isGot
        · cases isGot
        · exact isOther ▸ agrees.held actor v got isGot
      · exact agrees.held other v got isGot
    · exact agrees.seqs row (insertDb_seqs inserted row (clearPartials_seqs isLast row stored))
    · rcases isCrsql with rfl | rfl
      · exact agrees.stored
      · exact rowsAgree_insert rowLaws agrees.stored fun row listed => agrees.buffered row (own row listed)

theorem agrees_clearBuffered (agrees : NodeAgrees wrote node)
    {versions : CrsqlDbVersionRange} : NodeAgrees wrote (clearBufferedMeta picked node actor versions) :=
  ⟨agrees.owned, agrees.held, agrees.seqs, agrees.stored, fun row held =>
    agrees.buffered row (List.mem_of_mem_filter held)⟩

theorem rowChunk_agrees (agrees : wrote row.siteId row.dbVersion row.lastSeq ∧ row.endSeq ≤ row.lastSeq) :
    PartialAgrees wrote row.siteId row.dbVersion (rowChunk row) := by
  refine ⟨agrees.1, fun seq inside => ?_⟩
  simp only [rowChunk, RangeInclusiveSet.mem_ofRanges, List.mem_singleton, exists_eq_left] at inside
  exact le_trans inside.2 agrees.2

/-- A restart reads partial versions back from rows that agree. -/
theorem agrees_restart (unique : Unique wrote) (agrees : NodeAgrees wrote node) : NodeAgrees wrote (restart node) := by
  refine ⟨fun actor => ?_, fun actor version held is => ?_, agrees.seqs, agrees.stored, agrees.buffered⟩
  · rcases @restart_cases engine node actor with loaded | forgotten
    · rw [loaded, fromConn_actorId]
    · rw [forgotten, new_actorId]
  · rcases @restart_cases engine node actor with loaded | forgotten
    · rw [loaded, fromConn_partials] at is
      refine unite_agrees unique (fun chunk listed => ?_) is
      obtain ⟨row, stored, rfl, rfl, rfl⟩ := mem_storedChunks.mp listed
      exact rowChunk_agrees (agrees.seqs row stored)
    · rw [forgotten, new_partials] at is
      simp at is

theorem agrees_write (rowLaws : engine.KeepsRows) (agrees : NodeAgrees wrote node)
    (grows : ∀ actor version last, wrote actor version last → more actor version last)
    (written : ∀ info, (insertLocalChanges fails self node tx).2 = .ok (some info) →
      more self info.dbVersion info.lastSeq) : NodeAgrees more (insertLocalChanges fails self node tx).1 := by
  have grown := agrees.mono grows
  have cases_ := @insertLocalChanges_cases _ node self fails tx
  generalize insertLocalChanges fails self node tx = result at cases_ written
  cases cases_ with
  | failed _ => exact grown
  | silent none_ =>
    refine ⟨grown.owned, grown.held, grown.seqs, fun row held => ?_, grown.buffered⟩
    rcases rowLaws.changes_write _ _ _ row held with ⟨origin, old, same⟩ | own
    · exact rowAgrees_of_key (grown.stored origin old) same
    · exact absurd none_ (List.ne_nil_of_mem (mem_versionRows.mpr ⟨held, own⟩))
  | recorded last ts bv _ isInfo inserted =>
    have moved := insertDb_ok inserted
    dsimp only at moved
    refine ⟨fun other => ?_, fun other v got isGot => ?_, fun row held => ?_, fun row held => ?_, grown.buffered⟩
    · rw [ensure_insert]
      split
      · rename_i isOther
        rw [moved]
        exact isOther ▸ agrees.owned self
      · exact agrees.owned other
    · rw [ensure_insert] at isGot
      split at isGot
      · rename_i isOther
        rw [moved, computeAndApplyGaps_partials] at isGot
        exact isOther ▸ grown.held self v got isGot
      · exact grown.held other v got isGot
    · exact grown.seqs row (insertDb_seqs inserted row held)
    · rcases rowLaws.changes_write _ _ _ row held with ⟨origin, old, same⟩ | own
      · exact rowAgrees_of_key (grown.stored origin old) same
      · obtain ⟨site, isNext⟩ := own
        have bound := (versionInfo_last (congrArg Prod.fst isInfo)).2 row (mem_versionRows.mpr ⟨held, site, isNext⟩)
        refine ⟨last, ?_, bound⟩
        rw [site, isNext]
        exact written _ rfl

/-! ### Version numbers -/

/-- The next version of a node only grows. -/
theorem peek_step (numbers : engine.NumbersWrites) {step : NodeStep engine} :
    engine.peekNextDbVersion node.db.crsql self ≤ engine.peekNextDbVersion (node.step self step).db.crsql self := by
  cases step with
  | changes _ changes =>
    simp only [Node.step, processMultipleChanges]
    split
    · exact le_rfl
    split
    · exact le_rfl
    · rename_i after outcome ok
      obtain ⟨_, written⟩ := writeBatch_ok ok
      rw [written.crsql]
      refine written.db (fun db => engine.peekNextDbVersion node.db.crsql self ≤
        engine.peekNextDbVersion db.crsql self) le_rfl fun actor bv change db next _ effect low => ?_
      cases effect with
      | set complete empty _ => exact le_trans low (numbers.peek_set _ _ _ _)
      | unset complete empty _ => exact low
      | applied complete _ parts has => exact le_trans low (numbers.peek_insert _ _ _)
      | buffered _ parts has => exact low
  | write fails tx =>
    have cases_ := @insertLocalChanges_cases _ node self fails tx
    simp only [Node.step]
    generalize insertLocalChanges fails self node tx = result at cases_
    cases cases_ with
    | failed _ => exact le_rfl
    | silent none_ | recorded last ts bv tables isInfo inserted => exact numbers.peek_write _ _ _
  | fullyBuffered fails actorId version =>
    have applies := @processFullyBufferedChanges_cases _ node actorId version fails
    simp only [Node.step]
    generalize (processFullyBufferedChanges fails node actorId version).1 = after at applies
    cases applies with
    | idle bookie same => exact le_rfl
    | applied _ _ crsql _ last bookie is complete _ isCrsql inserted _ same =>
      rcases isCrsql with rfl | rfl
      · exact le_rfl
      · exact numbers.peek_insert _ _ _
  | clearBuffered picked actorId versions | restart => exact le_rfl

/-- A committed transaction takes the next version and uses it up. -/
theorem peek_committed (numbers : engine.NumbersWrites)
    (committed : (insertLocalChanges fails self node tx).2 = .ok (some info)) :
    info.dbVersion = engine.peekNextDbVersion node.db.crsql self ∧
      info.dbVersion < engine.peekNextDbVersion (insertLocalChanges fails self node tx).1.db.crsql self := by
  have cases_ := @insertLocalChanges_cases _ node self fails tx
  generalize insertLocalChanges fails self node tx = result at cases_ committed
  cases cases_ with
  | failed error | silent none_ => cases committed
  | recorded _ ts bv _ isInfo _ =>
    cases committed
    obtain ⟨row, listed, _⟩ := (versionInfo_last (congrArg Prod.fst isInfo)).1
    exact ⟨rfl, numbers.peek_taken _ _ _ ⟨row, mem_versionRows.mp listed⟩⟩

end Galvanize.NodeAgreement
