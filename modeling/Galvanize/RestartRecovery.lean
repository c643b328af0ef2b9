import Galvanize.AcceptedChanges
import Galvanize.DatabaseEffects
import Galvanize.Reload

/-! Reloading the bookkeeping from the database. `Recoverable` is what the
rebuild needs, and batches keep it unless an `Empty` ends exactly at a maximum
that only a partial version holds up: the partial row is deleted and nothing else
records the maximum. -/
namespace Galvanize.RestartRecovery
open BookedVersions BookieProofs BookieMirror ProcessProofs DatabaseEffects Reload
open AcceptedChanges (cell whole freshNode)

variable {bv : BookedVersions} {version : Nat} {actor : ActorId}

/-! ### What a reload needs -/

variable {engine : CrSqlite} {node : Node engine} {tables : BookieTables}

/-- The bookkeeping can be rebuilt from the database. -/
structure Recoverable (node : Node engine) : Prop where
  mirrored : Mirrored node.bookie node.db.tables
  /-- Every row carries the `last_seq` and `ts` of the version held. -/
  rows : ∀ row ∈ node.db.tables.seqs, ∀ held,
    (node.bookie.ensure row.siteId).partials[row.dbVersion]? = some held →
      row.lastSeq = held.lastSeq ∧ row.ts = held.ts
  nonempty : ∀ (actor : ActorId) (version : Nat) held, (node.bookie.ensure actor).partials[version]? = some held →
    ∃ seq, seq ∈ held.seqs
  /-- The maximum is what `crsql_db_versions` and the partial versions reach. -/
  max : ∀ actor x, Reaches (node.bookie.ensure actor).max x ↔
    Reaches (dbVersions node.db)[actor]? x ∨
      ∃ (version : Nat) (held : PartialVersion), (node.bookie.ensure actor).partials[version]? = some held ∧
        x ≤ version
  /-- Who has a row in `crsql_db_versions` is listed in `crsql_site_id`. -/
  sites : ∀ actor x, Reaches (dbVersions node.db)[actor]? x → actor ∈ engine.siteIds node.db.crsql

private theorem loaded_partials (recoverable : Recoverable node) (same : SameRows node.db.tables tables) :
    (fromConn tables (dbVersions node.db) actor).partials[version]? =
      (node.bookie.ensure actor).partials[version]? := by
  have seqs := @fromConn_seqs version actor node.bookie node.db.tables tables (dbVersions node.db)
    recoverable.mirrored same
  cases loaded : (fromConn tables (dbVersions node.db) actor).partials[version]? with
  | none =>
    cases held : (node.bookie.ensure actor).partials[version]? with
    | none => rfl
    | some got =>
      obtain ⟨seq, inside⟩ := recoverable.nonempty actor version got held
      rw [loaded, held] at seqs
      rw [show got.seqs = ∅ from seqs.symm] at inside
      exact absurd inside (by simp)
  | some whole =>
    obtain ⟨row, stored, rfl, rfl⟩ := fromConn_isSome.mp ⟨whole, loaded⟩
    have inRanges := (recoverable.mirrored.seqs _ _ row.range).mp ⟨row, (same.seqs row).mp stored, rfl⟩
    cases held : (node.bookie.ensure row.siteId).partials[row.dbVersion]? with
    | none => simp [held, seqsOf] at inRanges
    | some got =>
      rw [loaded, held] at seqs
      -- the first row read gives `last_seq` and `ts`, and every row has those of the version held
      rw [fromConn_partials] at loaded
      cases listed : storedChunks tables row.siteId row.dbVersion with
      | nil => simp [listed, unite] at loaded
      | cons chunk _ =>
        obtain ⟨_, ts⟩ := unite_head loaded (by rw [listed]; rfl)
        obtain ⟨first, firstStored, own, is, rfl⟩ := mem_storedChunks.mp
          (show chunk ∈ storedChunks tables row.siteId row.dbVersion by rw [listed]; exact List.mem_cons_self)
        obtain ⟨_, _⟩ := recoverable.rows first ((same.seqs first).mp firstStored) got (by rw [own, is, held])
        have whole_eq : whole = got := by
          cases whole
          cases got
          simp_all [rowChunk, seqsOf]
        rw [whole_eq]

/-- **A reload gives back what was in memory**, whatever order the rows come in. -/
theorem fromConn_eq (recoverable : Recoverable node) (same : SameRows node.db.tables tables) :
    fromConn tables (dbVersions node.db) actor = node.bookie.ensure actor := by
  have partials : (fromConn tables (dbVersions node.db) actor).partials = (node.bookie.ensure actor).partials :=
    Std.ExtTreeMap.ext_getElem? fun version => loaded_partials recoverable same
  have needed : (fromConn tables (dbVersions node.db) actor).needed = (node.bookie.ensure actor).needed :=
    fromConn_needed recoverable.mirrored same
  have max : (fromConn tables (dbVersions node.db) actor).max = (node.bookie.ensure actor).max := by
    refine reaches_ext fun x => ?_
    rw [recoverable.max, fromConn_reaches, partials]
  have owner : (fromConn tables (dbVersions node.db) actor).actorId = (node.bookie.ensure actor).actorId := by
    rw [recoverable.mirrored.owned actor, fromConn_actorId]
  cases loaded : fromConn tables (dbVersions node.db) actor
  cases memory : node.bookie.ensure actor
  simp_all

/-- Loading every actor at once gives each the same value. -/
theorem loadAllFromConn_eq (recoverable : Recoverable node) :
    (loadAllFromConn tables (dbVersions node.db) (engine.siteIds node.db.crsql)).ensure actor =
      fromConn tables (dbVersions node.db) actor := by
  classical
  rw [Bookie.ensure, getElem_loadAllFromConn]
  split
  · rfl
  · rename_i unlisted
    simp only [listed, not_or, not_exists, not_and] at unlisted
    obtain ⟨noSite, noSeqs, noGaps⟩ := unlisted
    have noVersion : (dbVersions node.db)[actor]? = none := by
      cases held : (dbVersions node.db)[actor]? with
      | none => rfl
      | some version =>
        exact absurd (recoverable.sites actor version (by rw [held]; simp)) noSite
    have noSeqRows : tables.seqs.select (fun row => row.siteId = actor) = [] := by
      refine List.eq_nil_iff_forall_not_mem.mpr fun row member => ?_
      obtain ⟨stored, own⟩ := Table.mem_select.mp member
      exact noSeqs row stored (by simpa using own)
    have noGapRows : tables.gaps.select (fun row => row.actorId = actor) = [] := by
      refine List.eq_nil_iff_forall_not_mem.mpr fun row member => ?_
      obtain ⟨stored, own⟩ := Table.mem_select.mp member
      exact noGaps row stored (by simpa using own)
    rw [fromConn, noVersion, noSeqRows, noGapRows]
    rfl

/-! ### Orderly batches -/

/-- A change that keeps the bookkeeping recoverable: an `Empty` comes from a
listed site and does not end at a maximum that is a partial version, the rows of
a complete changeset are its own, one that groups its rows by table has some,
and a chunk agrees with the version held. -/
structure InOrder (node : Node engine) (change : ChangeV1) : Prop where
  empty : change.isComplete = true → change.isEmpty = true →
    change.actorId ∈ engine.siteIds node.db.crsql ∧
      ¬ ((node.bookie.ensure change.actorId).max = some change.versions.stop ∧
        (node.bookie.ensure change.actorId).partials[change.versions.stop]?.isSome = true)
  rows : OwnRows change
  rowed : change.isComplete = true → change.isEmpty = false →
    ∀ parts ∈ change.changeset.intoParts, parts.changes ≠ []
  chunk : ∀ chunk ∈ known change,
    ∀ held ∈ (node.bookie.ensure change.actorId).partials[change.versions.start]?,
      chunk.lastSeq = held.lastSeq ∧ chunk.ts = held.ts

instance {change : ChangeV1} : Decidable (InOrder node change) :=
  decidable_of_iff (_ ∧ _ ∧ _ ∧ _)
    ⟨fun ⟨empty, rows, rowed, chunk⟩ => ⟨empty, rows, rowed, chunk⟩,
      fun ⟨empty, rows, rowed, chunk⟩ => ⟨empty, rows, rowed, chunk⟩⟩

/-- The changes a batch has to look at are in order. -/
def Orderly (node : Node engine) (changes : List ChangeV1) : Prop :=
  ∀ change ∈ changes,
    (node.bookie.ensure change.actorId).containsAll change.versions change.seqs = false →
      InOrder node change

instance {changes : List ChangeV1} : Decidable (Orderly node changes) :=
  inferInstanceAs (Decidable (∀ change ∈ changes, _ → _))

variable {faults : Faults}

/-! ### One batch -/

theorem recoverable_congr (recoverable : Recoverable node)
    (same : ∀ actor, bookie.ensure actor = node.bookie.ensure actor) : Recoverable ⟨node.db, bookie⟩ := by
  obtain ⟨⟨owned, settled, gaps, seqs⟩, rows, nonempty, max, sites⟩ := recoverable
  simp only [Owned, ← same] at owned settled gaps seqs rows nonempty max
  exact ⟨⟨owned, settled, gaps, seqs⟩, rows, nonempty, max, sites⟩

theorem inOrder_congr {change : ChangeV1} (inOrder : InOrder node change)
    (same : ∀ actor, bookie.ensure actor = node.bookie.ensure actor) : InOrder ⟨node.db, bookie⟩ change := by
  obtain ⟨empty, rows, rowed, chunk⟩ := inOrder
  simp only [← same] at empty chunk
  exact ⟨empty, rows, rowed, chunk⟩

variable {processed : List Processed}

section
variable {unknown : List ChangeV1} (chunks : ∀ versions chunk, (versions, some chunk) ∈ processed →
    ∃ change ∈ unknown, change.versions = versions ∧ known change = some chunk ∧ Upright change)
include chunks

/-- A chunk of a batch comes from a change that names it. -/
private theorem chunk_origin (listed : chunk ∈ chunksOf version processed) :
    ∃ change ∈ unknown, change.versions = .single version ∧ known change = some chunk ∧ ∃ seq, seq ∈ chunk.seqs := by
  obtain ⟨versions, entry, start⟩ := mem_chunksOf.mp listed
  obtain ⟨change, member, rfl, is, upright⟩ := chunks versions chunk entry
  obtain ⟨own, seqs, single, has, held⟩ := known_eq_some is
  have same : own = version := by
    rw [single] at start
    exact start
  refine ⟨change, member, same ▸ single, is, seqs.start, ?_⟩
  rw [held]
  simp [RangeInclusive.mem_def, upright seqs has]

/-- The first chunk of a version gives the united one its `last_seq` and `ts`. -/
private theorem united_origin (is : (partialVersions processed)[version]? = some united) :
    ∃ change ∈ unknown, ∃ chunk, change.versions = .single version ∧ known change = some chunk ∧
      united.lastSeq = chunk.lastSeq ∧ united.ts = chunk.ts ∧ ∃ seq, seq ∈ united.seqs := by
  rw [partialVersions_eq] at is
  cases listed : chunksOf version processed with
  | nil => simp [listed, unite] at is
  | cons chunk _ =>
    have member : chunk ∈ chunksOf version processed := by simp [listed]
    obtain ⟨change, looked, single, isKnown, seq, inside⟩ := chunk_origin chunks member
    obtain ⟨lastSeq, ts⟩ := unite_head is (by rw [listed]; rfl)
    exact ⟨change, looked, chunk, single, isKnown, lastSeq, ts, seq, (mem_unite is).mpr ⟨chunk, member, inside⟩⟩

/-- The maximum after a batch is again what the database reaches. -/
private theorem max_step {before after : Option Nat} (recovers : ∀ x, Reaches bv.max x ↔ Reaches before x ∨
      ∃ (version : Nat) (held : PartialVersion), bv.partials[version]? = some held ∧ x ≤ version)
    (kept : ∀ x, Reaches before x → Reaches after x)
    (sound : ∀ x, Reaches after x → Reaches before x ∨ ∃ entry ∈ processed, x ≤ entry.1.stop ∧
      Reaches after entry.1.stop) (recorded : ∀ versions, (versions, none) ∈ processed → Reaches after versions.stop ∨
      (Reaches bv.max versions.stop ∧ ∃ change ∈ unknown, Emptied change ∧ change.versions = versions))
    (proper : ∀ entry ∈ processed, entry.1.start ≤ entry.1.stop) (empties : ∀ change ∈ unknown, Emptied change →
      ¬ (bv.max = some change.versions.stop ∧ ∃ held, bv.partials[change.versions.stop]? = some held)) (x : Nat) :
    Reaches (bv.computeAndApply processed).1.max x ↔ Reaches after x ∨ ∃ (version : Nat) (held : PartialVersion),
        (bv.computeAndApply processed).1.partials[version]? = some held ∧ x ≤ version := by
  have lower : ∀ {max : Option Nat} {high low : Nat}, Reaches max high → low ≤ high → Reaches max low :=
    fun ⟨m, is, bound⟩ le => ⟨m, is, by omega⟩
  have stays : ∀ version, (∃ chunk, chunk ∈ chunksOf version processed) → ∃ held,
      (bv.computeAndApply processed).1.partials[version]? = some held := fun version ⟨chunk, listed⟩ => by
    obtain ⟨merged, is, _⟩ := @computeAndApply_chunks bv version processed (List.ne_nil_of_mem listed)
    exact ⟨merged, is⟩
  -- what was reached before: its top is recorded, or a partial version that stays, or one that a
  -- complete entry clears
  have old : Reaches bv.max x → Reaches after x ∨ ∃ (version : Nat) (held : PartialVersion),
      (bv.computeAndApply processed).1.partials[version]? = some held ∧ x ≤ version := by
    rintro ⟨m, isMax, low⟩
    have top : Reaches bv.max m := ⟨m, isMax, le_rfl⟩
    rcases (recovers m).mp top with reached | ⟨version, held, is, above⟩
    · exact .inl (lower (kept m reached) low)
    · have bounded := (recovers version).mpr (.inr ⟨version, held, is, le_rfl⟩)
      rw [isMax, reaches_some] at bounded
      obtain rfl : version = m := by omega
      cases now : (bv.computeAndApply processed).1.partials[version]? with
      | some got => exact .inr ⟨version, got, now, low⟩
      | none =>
        have noChunks : chunksOf version processed = [] := by
          by_contra some
          obtain ⟨chunk, listed⟩ := List.exists_mem_of_ne_nil _ some
          obtain ⟨got, isGot⟩ := stays version ⟨chunk, listed⟩
          rw [isGot] at now
          cases now
        rw [computeAndApply_no_chunks noChunks] at now
        have complete : version ∈ completeVersions processed := by
          by_contra incomplete
          rw [if_neg incomplete, is] at now
          cases now
        obtain ⟨versions, entry, inside⟩ := mem_completeVersions.mp complete
        simp only [RangeInclusive.mem_def] at inside
        rcases recorded versions entry with reached | ⟨below, change, member, emptied, rfl⟩
        · exact .inl (lower reached (by omega))
        · rw [isMax, reaches_some] at below
          have ends : change.versions.stop = version := by omega
          exact absurd ⟨by rw [isMax, ends], held, by rw [ends, is]⟩ (empties change member emptied)
  rw [reaches_computeAndApply proper]
  constructor
  · rintro (reached | ⟨y, received, low⟩)
    · exact old reached
    · obtain ⟨⟨versions, given⟩, entry, inside⟩ := mem_processedVersions.mp received
      simp only [RangeInclusive.mem_def] at inside
      cases given with
      | none =>
        rcases recorded versions entry with reached | ⟨below, _⟩
        · exact .inl (lower reached (by omega))
        · exact old (lower below (by omega))
      | some chunk =>
        obtain ⟨change, _, rfl, isKnown, _⟩ := chunks versions chunk entry
        obtain ⟨own, _, single, _, _⟩ := known_eq_some isKnown
        rw [single] at inside entry
        simp only [RangeInclusive.single] at inside
        obtain ⟨held, is⟩ := stays own ⟨chunk, mem_chunksOf.mpr ⟨_, entry, rfl⟩⟩
        exact .inr ⟨own, held, is, by omega⟩
  · rintro (reached | ⟨version, held, is, low⟩)
    · rcases sound x reached with start | ⟨entry, listed, low, _⟩
      · exact .inl ((recovers x).mpr (.inl start))
      · exact .inr ⟨entry.1.stop, mem_processedVersions.mpr ⟨entry, listed, proper entry listed, le_rfl⟩, low⟩
    · by_cases noChunks : chunksOf version processed = []
      · rw [computeAndApply_no_chunks noChunks] at is
        split at is
        · cases is
        · exact .inl ((recovers x).mpr (.inr ⟨version, held, is, low⟩))
      · obtain ⟨chunk, listed⟩ := List.exists_mem_of_ne_nil _ noChunks
        exact .inr ⟨version, mem_processedVersions_of_chunk proper listed, low⟩

end

/-- A version that stays partial keeps its `last_seq` and `ts`. -/
private theorem partials_kept {held now : PartialVersion} (is : bv.partials[version]? = some held)
    (incomplete : version ∉ completeVersions processed)
    (after : (bv.computeAndApply processed).1.partials[version]? = some now) :
    now.lastSeq = held.lastSeq ∧ now.ts = held.ts := by
  rw [partials_computeAndApply, cleared_partials, if_neg incomplete, is] at after
  split at after <;> cases after <;> exact ⟨rfl, rfl⟩

/-- A version of the batch has the `last_seq` and `ts` of its chunks, if they
agree with the version held. -/
private theorem partials_united
    (given : (partialVersions processed)[version]? = some united) (agree : ∀ held, bv.partials[version]? = some held →
      united.lastSeq = held.lastSeq ∧ united.ts = held.ts)
    (after : (bv.computeAndApply processed).1.partials[version]? = some now) :
    now.lastSeq = united.lastSeq ∧ now.ts = united.ts := by
  rw [partials_computeAndApply, given] at after
  cases old : (cleared bv processed).partials[version]? with
  | none =>
    rw [old] at after
    cases after
    exact ⟨rfl, rfl⟩
  | some held =>
    rw [old] at after
    cases after
    rw [cleared_partials] at old
    split at old
    · cases old
    · obtain ⟨lastSeq, ts⟩ := agree held old
      exact ⟨lastSeq.symm, ts.symm⟩

section
variable (laws : engine.TracksVersions) (recoverable : Recoverable node)
include laws recoverable

/-- A committed transaction keeps the bookkeeping recoverable. -/
private theorem recoverable_writeBatch
    {unknown : Map ActorId (List ChangeV1)} {after : Node engine} {outcome : Outcome}
    (own : ∀ actor : ActorId, ∀ change ∈ unknown[actor]?.getD [], change.actorId = actor)
    (inOrder : ∀ actor : ActorId, ∀ change ∈ unknown[actor]?.getD [], InOrder node change)
    (ok : writeBatch faults node unknown = .ok (after, outcome)) : Recoverable after := by
  obtain ⟨state, written⟩ := writeBatch_ok ok
  have effects := batch_effects laws own (fun actor change member => (inOrder actor change member).rows) written.run
  have recorded : ∀ (site : ActorId) versions, (versions, none) ∈ entriesOf state.processed site →
      Reaches (dbVersions state.db)[site]? versions.stop ∨
        (Reaches (node.bookie.ensure site).max versions.stop ∧ ∃ change ∈ unknown[site]?.getD [],
          Emptied change ∧ change.versions = versions) := by
    intro site versions entry
    rcases effects.recorded site versions entry with reached | ⟨change, member, same, ⟨reached, emptied⟩ | rowless⟩
    · exact .inl reached
    · exact .inr ⟨reached, change, member, emptied, same⟩
    · obtain ⟨complete, filled, parts, has, none⟩ := rowless
      exact absurd none ((inOrder site change member).rowed complete filled parts has)
  obtain ⟨tables, executed, mirrored, seqRows⟩ := recoverable.mirrored.step effects.proper
  have owned := recoverable.mirrored.owned
  rw [← effects.tables] at executed
  obtain ⟨_, isTables⟩ := written.executed
  obtain ⟨isCrsql, isBookie⟩ := And.intro written.crsql written.bookie
  obtain ⟨⟨crsql, _, _⟩, bookie⟩ := after
  rw [executed] at isTables
  cases isTables
  subst isCrsql isBookie
  refine ⟨mirrored, fun row stored held is => ?_, fun actor version held is => ?_,
    fun actor x => ?_, fun actor x reached => ?_⟩
  · rw [ensure_computeAndApplyAll] at is
    rcases (seqRows row).mp stored with ⟨old, stays, _⟩ | inserted
    · have inRanges := (recoverable.mirrored.seqs _ _ row.range).mp ⟨row, old, rfl⟩
      cases before : (node.bookie.ensure row.siteId).partials[row.dbVersion]? with
      | none => simp [before, seqsOf] at inRanges
      | some got =>
        have incomplete : row.dbVersion ∉ completeVersions (entriesOf state.processed row.siteId) :=
          fun complete => stays ((mem_completeVersionDeletes owned).mpr ⟨complete, got, before⟩)
        obtain ⟨lastSeq, ts⟩ := partials_kept before incomplete is
        rw [lastSeq, ts]
        exact recoverable.rows row old got before
    · obtain ⟨_, given, _, lastSeq, ts⟩ := (mem_partialInserts owned).mp inserted
      obtain ⟨change, member, chunk, single, isKnown, chunkLast, chunkTs, _⟩ :=
        united_origin (effects.chunks row.siteId) given
      have same := partials_united given (fun before is => by
        obtain ⟨beforeLast, beforeTs⟩ := (inOrder _ change member).chunk chunk isKnown before
          (by rw [own _ change member, single]; exact is)
        exact ⟨chunkLast.trans beforeLast, chunkTs.trans beforeTs⟩) is
      exact ⟨lastSeq.trans same.1.symm, ts.trans same.2.symm⟩
  · rw [ensure_computeAndApplyAll] at is
    by_cases noChunks : chunksOf version (entriesOf state.processed actor) = []
    · rw [computed, computeAndApply_no_chunks noChunks] at is
      split at is
      · cases is
      · exact recoverable.nonempty actor version held is
    · obtain ⟨chunk, listed⟩ := List.exists_mem_of_ne_nil _ noChunks
      obtain ⟨_, _, _, _, seq, inside⟩ := chunk_origin (effects.chunks actor) listed
      obtain ⟨merged, isMerged, seqs⟩ := @computeAndApply_chunks (node.bookie.ensure actor) _ _ noChunks
      obtain rfl : merged = held := by
        rw [computed, isMerged] at is
        exact Option.some.inj is
      exact ⟨seq, (seqs seq).mpr (.inr ⟨chunk, listed, inside⟩)⟩
  · rw [ensure_computeAndApplyAll]
    exact max_step (effects.chunks actor) (recoverable.max actor) (effects.kept actor) (effects.sound actor)
      (recorded actor) (effects.proper actor)
      (fun change member emptied => by
        have apart := ((inOrder actor change member).empty emptied.1 emptied.2).2
        rwa [own actor change member, Option.isSome_iff_exists] at apart) x
  · rcases effects.sites actor x reached with ⟨y, old⟩ | listed | ⟨change, member, complete, empty⟩
    · exact effects.keptSites actor (recoverable.sites actor y old)
    · exact listed
    · have site := ((inOrder actor change member).empty complete empty).1
      rw [own actor change member] at site
      exact effects.keptSites actor site

/-- **An orderly batch keeps the bookkeeping recoverable**, whether it commits or not. -/
theorem recoverable_processMultipleChanges
    (orderly : Orderly node changes) : Recoverable (processMultipleChanges faults node changes).1 := by
  have gathered : Recoverable ⟨node.db, (gatherAll node.bookie changes).bookie⟩ :=
    recoverable_congr recoverable fun actor => ensure_gatherAll
  unfold processMultipleChanges
  dsimp only
  split
  · exact gathered
  split
  · exact gathered
  · rename_i after outcome written
    refine recoverable_writeBatch laws gathered (fun actor change listed => (mem_unknownOf listed).2.1)
      (fun actor change listed => ?_) written
    obtain ⟨member, rfl, missing⟩ := mem_unknownOf listed
    exact inOrder_congr (orderly change member missing) fun actor => ensure_gatherAll

/-! ### Runs -/

/-- The batches of a run, each with the database errors it meets. -/
def runBatches (node : Node engine) (batches : List (Faults × List ChangeV1)) : Node engine :=
  batches.foldl (fun node batch => (processMultipleChanges batch.1 node batch.2).1) node

/-- Every batch is orderly when its turn comes. -/
def OrderlyRun : Node engine → List (Faults × List ChangeV1) → Prop
  | _, [] => True
  | node, batch :: rest =>
    Orderly node batch.2 ∧ OrderlyRun (processMultipleChanges batch.1 node batch.2).1 rest

theorem recoverable_run (orderly : OrderlyRun node batches) : Recoverable (runBatches node batches) := by
  induction batches generalizing node with
  | nil => exact recoverable
  | cons _ _ ih =>
    obtain ⟨first, later⟩ := orderly
    exact ih (recoverable_processMultipleChanges laws recoverable first) later

end

theorem recoverable_fresh (blank : engine.dbVersions store = ∅) : Recoverable (⟨⟨store, ∅, ∅⟩, ∅⟩ : Node engine) where
  mirrored := mirrored_empty
  rows := by simp
  nonempty := by simp
  max := by simp [dbVersions, blank]
  sites := by simp [dbVersions, blank]

/-- **Restart recovery.** After a run of orderly batches on a fresh database,
reloading gives back the bookkeeping of every actor, whatever order the rows are
scanned in, and loading all actors at once agrees with loading one. -/
theorem reload_gives_back_memory (engine : CrSqlite) (laws : engine.TracksVersions)
    (store : engine.Store) (blank : engine.dbVersions store = ∅)
    (batches : List (Faults × List ChangeV1)) (orderly : OrderlyRun ⟨⟨store, ∅, ∅⟩, ∅⟩ batches)
    (node : Node engine) (final : node = runBatches ⟨⟨store, ∅, ∅⟩, ∅⟩ batches)
    (tables : BookieTables) (same : SameRows node.db.tables tables) (actor : ActorId) :
    fromConn tables (dbVersions node.db) actor = node.bookie.ensure actor ∧
      (loadAllFromConn tables (dbVersions node.db) (engine.siteIds node.db.crsql)).ensure actor =
        fromConn tables (dbVersions node.db) actor := by
  subst final
  have recoverable := recoverable_run laws (recoverable_fresh blank) orderly
  exact ⟨fromConn_eq recoverable same, loadAllFromConn_eq recoverable⟩

/-- A chunk of version 5, whose last seq is 1. -/
def fifthHalf : ChangeV1 := ⟨1, .full 5 [cell 5 0] ⟨0, 0⟩ 1 5⟩

/-- Version 1 whole, a chunk of version 5, and an `Empty` that ends above it. -/
def emptiedAbove : List (Faults × List ChangeV1) :=
  [(.none, [whole]), (.none, [fifthHalf]), (.none, [⟨1, .empty ⟨4, 9⟩ none⟩])]

theorem reload_after_emptied_above : OrderlyRun freshNode emptiedAbove ∧
      (fromConn (runBatches freshNode emptiedAbove).db.tables
        (dbVersions (runBatches freshNode emptiedAbove).db) 1).max = some 9 := by
  have orderly : OrderlyRun freshNode emptiedAbove := ⟨by decide, by decide, by decide, trivial⟩
  have reloaded := (reload_gives_back_memory Lww.engine Lww.tracksVersions Lww.empty rfl _ orderly _ rfl
    _ ⟨fun _ => Iff.rfl, fun _ => Iff.rfl⟩ 1).1
  refine ⟨orderly, ?_⟩
  rw [show runBatches freshNode emptiedAbove = runBatches ⟨⟨Lww.empty, ∅, ∅⟩, ∅⟩ emptiedAbove from rfl, reloaded]
  decide

/-- A chunk of version 5, and then an `Empty` for exactly that version. -/
def emptiedMaximum : List (Faults × List ChangeV1) := [(.none, [fifthHalf]), (.none, [⟨1, .empty ⟨5, 5⟩ none⟩])]

/-- The maximum 5 is in memory only; a restart forgets it. -/
theorem reload_forgets_emptied_maximum : ((runBatches freshNode emptiedMaximum).bookie.ensure 1).max = some 5 ∧
      (fromConn (runBatches freshNode emptiedMaximum).db.tables
        (dbVersions (runBatches freshNode emptiedMaximum).db) 1).max = none := by
  decide

end Galvanize.RestartRecovery
