import Galvanize.BookieMirror

/-! Reading the bookkeeping back from the tables. Gaps and partial versions come
back from their rows, whatever order a scan returns them in; the maximum is
rebuilt from `crsql_db_versions` and the partial rows. -/
namespace Galvanize.Reload
open BookedVersions BookieProofs BookieInvariant BookieMirror List Std.ExtTreeMap RangeInclusiveSet

variable {bv : BookedVersions} {version : Nat} {actor : ActorId}

/-! ### Loading one actor -/

/-- The chunk a seq row stands for. -/
def rowChunk (row : SeqRow) : PartialVersion := ⟨.ofRanges [row.range], row.lastSeq, row.ts⟩

theorem foldl_loadSeqRow_partials {rows : List SeqRow} : (rows.foldl loadSeqRow bv).partials[version]? =
      ((rows.filter (fun row => row.dbVersion = version)).map rowChunk).foldl
        (fun held chunk => some (mergePartial held chunk)) bv.partials[version]? := by
  induction rows generalizing bv with
  | nil => rfl
  | cons first _ ih =>
    rw [foldl_cons, ih, loadSeqRow, insertPartial_partials]
    by_cases same : first.dbVersion = version
    · simp [same, rowChunk]
    · simp [same]

theorem foldl_loadSeqRow_frame {rows : List SeqRow} :
    (rows.foldl loadSeqRow bv).needed = bv.needed ∧ (rows.foldl loadSeqRow bv).actorId = bv.actorId := by
  induction rows generalizing bv with
  | nil => exact ⟨rfl, rfl⟩
  | cons first _ ih =>
    simpa [loadSeqRow] using @ih (bv.loadSeqRow first)

/-- Each loaded version raises the maximum; a second row of it need not. -/
theorem foldl_loadSeqRow_reaches {rows : List SeqRow}
    (below : ∀ version held, bv.partials[version]? = some held → Reaches bv.max version) :
    Reaches (rows.foldl loadSeqRow bv).max x ↔ Reaches bv.max x ∨ ∃ row ∈ rows, x ≤ row.dbVersion := by
  induction rows generalizing bv with
  | nil => simp
  | cons first _ ih =>
    have raised : ∀ x, Reaches (bv.loadSeqRow first).max x ↔ Reaches bv.max x ∨ x ≤ first.dbVersion := by
      intro x
      rw [loadSeqRow, insertPartial_reaches]
      cases held : bv.partials[first.dbVersion]? with
      | none => simp
      | some got =>
        obtain ⟨m, is, _⟩ := below _ got held
        simp only [reduceCtorEq, false_and, or_false]
        refine ⟨.inl, ?_⟩
        rintro (reached | low)
        · exact reached
        · exact ⟨m, is, by omega⟩
    rw [foldl_cons, ih ?_, raised]
    · simp [or_assoc]
    · intro version held is
      rw [loadSeqRow, insertPartial_partials] at is
      rw [raised]
      split at is
      · rename_i same
        exact .inr (by omega)
      · exact .inl (below version held is)

theorem foldl_loadGapRow {rows : List GapRow} :
    (∀ x, x ∈ (rows.foldl loadGapRow bv).needed ↔ x ∈ bv.needed ∨ ∃ row ∈ rows, x ∈ row.range) ∧
      (rows.foldl loadGapRow bv).partials = bv.partials ∧
      (rows.foldl loadGapRow bv).max = bv.max ∧ (rows.foldl loadGapRow bv).actorId = bv.actorId := by
  induction rows generalizing bv with
  | nil => simp
  | cons first _ ih =>
    obtain ⟨needed, partials, max, actorId⟩ := @ih (bv.loadGapRow first)
    rw [foldl_cons]
    refine ⟨fun x => ?_, partials, max, actorId⟩
    rw [needed]
    simp only [loadGapRow, mem_insert, mem_cons, exists_eq_or_imp]
    tauto

/-! ### Loading all actors -/

private theorem foldl_adjust {items : List α} {key : α → ActorId}
    {change : α → BookedVersions → BookedVersions} {map : Map ActorId BookedVersions} :
    (items.foldl (fun map item => adjust map (key item) (change item)) map)[actor]? =
      map[actor]?.map (fun bv => (items.filter (fun item => key item = actor)).foldl
        (fun bv item => change item bv) bv) := by
  induction items generalizing map with
  | nil => simp
  | cons first _ ih =>
    rw [foldl_cons, ih, adjust, getElem?_alter]
    by_cases same : key first = actor
    · cases held : map[actor]? <;> simp [same, held]
    · simp [same]

private theorem foldl_insertIfNew {known : List ActorId} {map : Map ActorId BookedVersions} :
    (known.foldl (fun map actorId => map.insertIfNew actorId (BookedVersions.new actorId)) map)[actor]? =
      if map[actor]? = none ∧ actor ∈ known then some (BookedVersions.new actor) else map[actor]? := by
  induction known generalizing map with
  | nil => simp
  | cons first _ ih =>
    rw [foldl_cons, ih, getElem?_insertIfNew]
    by_cases same : first = actor
    · subst same
      cases held : map[first]? <;> simp [held, mem_iff_isSome_getElem?]
    · have different : actor ≠ first := fun equal => same equal.symm
      simp [same, different]

/-- The rows of `crsql_db_versions` for one actor set its maximum. -/
private theorem foldl_setMax {versions : Map ActorId Nat} (unset : bv.max = none) :
    (versions.toList.filter (fun entry => entry.1 = actor)).foldl
      (fun bv entry => { bv with max := some entry.2 }) bv = { bv with max := versions[actor]? } := by
  have rows : ∀ entry ∈ versions.toList.filter (fun entry => entry.1 = actor), versions[actor]? = some entry.2 := by
    rintro ⟨site, version⟩ member
    obtain ⟨stored, rfl⟩ : (site, version) ∈ versions.toList ∧ site = actor := by simpa using member
    exact mem_toList_iff_getElem?_eq_some.mp stored
  have folded : ∀ (entries : List (ActorId × Nat)) (bv : BookedVersions),
      (∀ entry ∈ entries, versions[actor]? = some entry.2) → entries ≠ [] →
      entries.foldl (fun bv entry => { bv with max := some entry.2 }) bv =
        { bv with max := versions[actor]? } := by
    intro entries
    induction entries with
    | nil => exact fun _ _ nonempty => absurd rfl nonempty
    | cons first rest ih =>
      intro bv same _
      by_cases more : rest = []
      · rw [more, same first (by simp)]
        rfl
      · exact ih _ (fun entry member => same entry (by simp [member])) more
  by_cases none : versions.toList.filter (fun entry => entry.1 = actor) = []
  · have missing : versions[actor]? = .none := by
      cases held : versions[actor]? with
      | none => rfl
      | some version =>
        have member := mem_toList_iff_getElem?_eq_some.mpr held
        have := filter_eq_nil_iff.mp none _ member
        simp at this
    rw [none, missing, ← unset]
    rfl
  · exact folded _ bv rows none

/-- The actors `load_all_from_conn` lists. -/
def listed (tables : BookieTables) (siteIds : List ActorId) (actor : ActorId) : Prop :=
  actor ∈ siteIds ∨ (∃ row ∈ tables.seqs, row.siteId = actor) ∨ ∃ row ∈ tables.gaps, row.actorId = actor

/-- `load_all_from_conn` gives each listed actor what `from_conn` gives it. -/
theorem getElem_loadAllFromConn {tables : BookieTables} {dbVersions : Map ActorId Nat}
    [Decidable (listed tables siteIds actor)] : (loadAllFromConn tables dbVersions siteIds)[actor]? =
      if listed tables siteIds actor then some (fromConn tables dbVersions actor) else none := by
  have isListed : actor ∈ siteIds ++ tables.seqs.rows.map SeqRow.siteId ++
      tables.gaps.rows.map GapRow.actorId ↔ listed tables siteIds actor := by
    simp [listed, Table.mem_def]
  simp only [loadAllFromConn]
  rw [foldl_adjust, foldl_adjust, foldl_adjust, foldl_insertIfNew]
  simp only [getElem?_empty, true_and, isListed]
  split
  · simp only [Option.map_some]
    rw [foldl_setMax rfl]
    rfl
  · rfl

/-! ### What the rows give back -/

/-- The same rows, in whatever order a scan returns them. -/
structure SameRows (tables other : BookieTables) : Prop where
  gaps : ∀ row, row ∈ other.gaps ↔ row ∈ tables.gaps
  seqs : ∀ row, row ∈ other.seqs ↔ row ∈ tables.seqs

variable {bookie : Bookie} {stored tables : BookieTables} {dbVersions : Map ActorId Nat}

/-- The chunks stored for a version. -/
def storedChunks (tables : BookieTables) (actor : ActorId) (version : Nat) : List PartialVersion :=
  ((tables.seqs.select (fun row => row.siteId = actor)).filter
    (fun row => row.dbVersion = version)).map rowChunk

theorem mem_storedChunks : chunk ∈ storedChunks tables actor version ↔
    ∃ row ∈ tables.seqs, row.siteId = actor ∧ row.dbVersion = version ∧ rowChunk row = chunk := by
  simp [storedChunks, Table.mem_select, and_assoc]

theorem fromConn_partials : (fromConn tables dbVersions actor).partials[version]? =
    unite (storedChunks tables actor version) := by
  simp only [fromConn, foldl_loadGapRow.2.1, foldl_loadSeqRow_partials, unite, storedChunks]
  simp

theorem fromConn_actorId : (fromConn tables dbVersions actor).actorId = actor := by
  simp only [fromConn, foldl_loadGapRow.2.2.2, foldl_loadSeqRow_frame.2, new_actorId]

theorem fromConn_isSome : (∃ held, (fromConn tables dbVersions actor).partials[version]? = some held) ↔
    ∃ row ∈ tables.seqs, row.siteId = actor ∧ row.dbVersion = version := by
  rw [fromConn_partials, ← Option.isSome_iff_exists, Option.isSome_iff_ne_none, ne_eq, unite_eq_none,
    eq_nil_iff_forall_not_mem]
  simp only [mem_storedChunks, not_forall, not_not]
  constructor
  · rintro ⟨_, row, held, own, same, _⟩
    exact ⟨row, held, own, same⟩
  · rintro ⟨row, held, own, same⟩
    exact ⟨_, row, held, own, same, rfl⟩

theorem fromConn_reaches : Reaches (fromConn tables dbVersions actor).max x ↔
    Reaches dbVersions[actor]? x ∨ ∃ (version : Nat) (held : PartialVersion),
      (fromConn tables dbVersions actor).partials[version]? = some held ∧ x ≤ version := by
  have rows : Reaches (fromConn tables dbVersions actor).max x ↔
      Reaches dbVersions[actor]? x ∨ ∃ row ∈ tables.seqs, row.siteId = actor ∧ x ≤ row.dbVersion := by
    simp only [fromConn, foldl_loadGapRow.2.2.1]
    rw [foldl_loadSeqRow_reaches (by simp)]
    simp [Table.mem_select, and_assoc]
  rw [rows]
  refine or_congr Iff.rfl ⟨?_, ?_⟩
  · rintro ⟨row, held, own, low⟩
    obtain ⟨got, is⟩ := (@fromConn_isSome row.dbVersion actor tables dbVersions).mpr ⟨row, held, own, rfl⟩
    exact ⟨row.dbVersion, got, is, low⟩
  · rintro ⟨version, got, is, low⟩
    obtain ⟨row, held, own, rfl⟩ := fromConn_isSome.mp ⟨got, is⟩
    exact ⟨row, held, own, low⟩

theorem fromConn_needed (mirrored : Mirrored bookie stored) (same : SameRows stored tables) :
    (fromConn tables dbVersions actor).needed = (bookie.ensure actor).needed := by
  ext x
  simp only [fromConn, foldl_loadGapRow.1 x, foldl_loadSeqRow_frame.1, new_needed,
    not_mem_empty, false_or, Table.mem_select, same.gaps, decide_eq_true_eq]
  constructor
  · rintro ⟨row, ⟨held, rfl⟩, inside⟩
    exact ⟨row.range, (mirrored.gaps row).mp held, inside⟩
  · rintro ⟨r, inRanges, inside⟩
    exact ⟨⟨actor, r.start, r.stop⟩, ⟨(mirrored.gaps _).mpr inRanges, rfl⟩, inside⟩

/-- The seqs of every version come back; one without seqs is forgotten. -/
theorem fromConn_seqs (mirrored : Mirrored bookie stored) (same : SameRows stored tables) :
    seqsOf (fromConn tables dbVersions actor).partials[version]? = seqsOf (bookie.ensure actor).partials[version]? := by
  have rows := mirrored.seqs actor version
  ext seq
  have inRows : seq ∈ seqsOf (bookie.ensure actor).partials[version]? ↔
      ∃ row ∈ stored.seqs, row.siteId = actor ∧ row.dbVersion = version ∧ seq ∈ row.range := by
    constructor
    · rintro ⟨r, inRanges, inside⟩
      obtain ⟨row, held, tuple⟩ := (rows r).mpr inRanges
      simp only [SeqRow.tuple, Prod.mk.injEq] at tuple
      refine ⟨row, held, tuple.1, tuple.2.1, ?_⟩
      simpa [SeqRow.range, tuple.2.2.1, tuple.2.2.2, RangeInclusive.mem_def] using inside
    · rintro ⟨row, held, rfl, rfl, inside⟩
      exact ⟨row.range, (rows row.range).mp ⟨row, held, rfl⟩, inside⟩
  rw [inRows, fromConn_partials]
  cases united : unite (storedChunks tables actor version) with
  | none =>
    have nothing := unite_eq_none.mp united
    simp only [seqsOf, not_mem_empty, false_iff]
    rintro ⟨row, held, own, is, _⟩
    have listed := mem_storedChunks.mpr ⟨row, (same.seqs row).mpr held, own, is, rfl⟩
    rw [nothing] at listed
    cases listed
  | some _ =>
    rw [seqsOf, mem_unite united]
    constructor
    · rintro ⟨_, listed, inside⟩
      obtain ⟨row, held, own, is, rfl⟩ := mem_storedChunks.mp listed
      exact ⟨row, (same.seqs row).mp held, own, is, by simpa [rowChunk] using inside⟩
    · rintro ⟨row, held, own, is, inside⟩
      exact ⟨_, mem_storedChunks.mpr ⟨row, (same.seqs row).mpr held, own, is, rfl⟩,
        by simpa [rowChunk] using inside⟩

end Galvanize.Reload
