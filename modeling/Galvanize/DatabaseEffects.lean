import Galvanize.ProcessProofs

/-! What a batch does to the database besides the bookkeeping rows, which it
writes last: how far `crsql_db_versions` moves, which sites get listed, and where
every processed entry comes from. -/
namespace Galvanize.DatabaseEffects
open BookedVersions BookieProofs BookieMirror ProcessProofs List

variable {engine : CrSqlite} {bv : BookedVersions} {actor : ActorId} {changes : List ChangeV1}

/-- `crsql_db_versions` of a node. -/
def dbVersions (db : Database engine) : Map ActorId Nat := engine.dbVersions db.crsql

/-- The rows of a complete changeset are of the actor and version it names. -/
def OwnRows (change : ChangeV1) : Prop :=
  change.isComplete = true → ∀ parts ∈ change.changeset.intoParts, ∀ row ∈ parts.changes,
    row.siteId = change.actorId ∧ row.dbVersion = change.versions.stop

instance {change : ChangeV1} : Decidable (OwnRows change) := inferInstanceAs (Decidable (_ → _))

/-- The change declares its versions empty. -/
abbrev Emptied (change : ChangeV1) : Prop := change.isComplete = true ∧ change.isEmpty = true

/-- A complete changeset that names tables and holds no row. -/
def Rowless (change : ChangeV1) : Prop :=
  change.isComplete = true ∧ change.isEmpty = false ∧
    ∃ parts, change.changeset.intoParts = some parts ∧ parts.changes = []

/-- What the loop over an actor's changes has done so far: `before` is the
database it started from. -/
structure ActorEffects (bv : BookedVersions) (actor : ActorId) (changes : List ChangeV1)
    (before : Database engine) (state : ActorLoop engine) : Prop where
  tables : state.db.tables = before.tables
  kept : ∀ (site : ActorId) x, Reaches (dbVersions before)[site]? x → Reaches (dbVersions state.db)[site]? x
  /-- A version that was not reached before is below a recorded entry. -/
  sound : ∀ (site : ActorId) x, Reaches (dbVersions state.db)[site]? x → Reaches (dbVersions before)[site]? x ∨
    (site = actor ∧ ∃ entry ∈ state.processed, x ≤ entry.1.stop ∧
      Reaches (dbVersions state.db)[actor]? entry.1.stop)
  /-- A complete entry is recorded, unless it was an `Empty` not above the maximum, or had no row. -/
  recorded : ∀ versions, (versions, none) ∈ state.processed →
    Reaches (dbVersions state.db)[actor]? versions.stop ∨
      ∃ change ∈ changes, change.versions = versions ∧
        ((Reaches bv.max versions.stop ∧ Emptied change) ∨ Rowless change)
  chunks : ∀ versions chunk, (versions, some chunk) ∈ state.processed →
    ∃ change ∈ changes, change.versions = versions ∧ known change = some chunk ∧ Upright change
  proper : ∀ entry ∈ state.processed, entry.1.start ≤ entry.1.stop
  keptSites : ∀ site, site ∈ engine.siteIds before.crsql → site ∈ engine.siteIds state.db.crsql
  /-- A recorded site is listed, unless only an `Empty` recorded it. -/
  sites : ∀ (site : ActorId) x, Reaches (dbVersions state.db)[site]? x →
    (∃ y, Reaches (dbVersions before)[site]? y) ∨ site ∈ engine.siteIds state.db.crsql ∨
      (site = actor ∧ ∃ change ∈ changes, Emptied change)

private theorem reaches_of_not_all {max : Option Nat}
    (below : max.all (fun max => stop > max) = false) : Reaches max stop := by
  cases max with
  | none => simp at below
  | some m => simpa using below

private theorem effects_start (nothing : before.processed = []) : ActorEffects bv actor changes before.db before where
  tables := rfl
  kept := fun _ _ reached => reached
  sound := fun _ _ reached => .inl reached
  recorded := by simp [nothing]
  chunks := by simp [nothing]
  proper := by simp [nothing]
  keptSites := fun _ site => site
  sites := fun _ x reached => .inl ⟨x, reached⟩

/-- What one recorded change may bring about. -/
structure DbMoves (engine : CrSqlite) (bv : BookedVersions) (actor : ActorId)
    (change : ChangeV1) (db next : Database engine) : Prop where
  tables : next.tables = db.tables
  kept : ∀ (site : ActorId) x, Reaches (dbVersions db)[site]? x → Reaches (dbVersions next)[site]? x
  sound : ∀ (site : ActorId) x, Reaches (dbVersions next)[site]? x →
    Reaches (dbVersions db)[site]? x ∨ (site = actor ∧ x ≤ change.versions.stop ∧
      Reaches (dbVersions next)[actor]? change.versions.stop)
  recorded : known change = none → Reaches (dbVersions next)[actor]? change.versions.stop ∨
    (Reaches bv.max change.versions.stop ∧ Emptied change) ∨ Rowless change
  keptSites : ∀ site, site ∈ engine.siteIds db.crsql → site ∈ engine.siteIds next.crsql
  sites : ∀ (site : ActorId) x, Reaches (dbVersions next)[site]? x →
    (∃ y, Reaches (dbVersions db)[site]? y) ∨ site ∈ engine.siteIds next.crsql ∨
      (site = actor ∧ Emptied change)

section
variable (laws : engine.TracksVersions)
include laws

private theorem dbMoves {change : ChangeV1} {db next : Database engine}
    (own : change.actorId = actor) (ownRows : OwnRows change)
    (effect : DbEffect bv db change next) : DbMoves engine bv actor change db next := by
  cases effect with
  | set complete isEmpty _ =>
    have reaches : ∀ (site : ActorId) x, Reaches (engine.dbVersions
        (engine.setDbVersion db.crsql change.actorId change.versions.stop))[site]? x ↔ _ :=
      fun site x => laws.dbVersions_set db.crsql change.actorId change.versions.stop site x
    have recorded := (reaches actor _).mpr (.inr ⟨own.symm, le_rfl⟩)
    refine ⟨rfl, fun site x reached => (reaches site x).mpr (.inl reached), fun site x reached => ?_,
      fun _ => .inl recorded, fun site listed => laws.siteIds_set _ _ _ _ listed, fun site x reached => ?_⟩
    · rcases (reaches site x).mp reached with old | ⟨rfl, low⟩
      · exact .inl old
      · exact .inr ⟨own, low, recorded⟩
    · rcases (reaches site x).mp reached with old | ⟨rfl, _⟩
      · exact .inl ⟨x, old⟩
      · exact .inr (.inr ⟨own, complete, isEmpty⟩)
  | unset complete isEmpty below =>
    exact ⟨rfl, fun _ _ reached => reached, fun _ _ reached => .inl reached,
      fun _ => .inr (.inl ⟨reaches_of_not_all below, complete, isEmpty⟩), fun _ listed => listed,
      fun _ x reached => .inl ⟨x, reached⟩⟩
  | applied complete filled parts has =>
    have reaches : ∀ (site : ActorId) x, Reaches (engine.dbVersions (engine.insertChanges db.crsql
        (StoredChange.ofChanges parts.changes parts.ts)).1)[site]? x ↔ _ :=
      fun site x => laws.dbVersions_insert db.crsql _ site x
    refine ⟨rfl, fun site x reached => (reaches site x).mpr (.inl reached), fun site x reached => ?_,
      fun _ => ?_, fun site listed => laws.siteIds_insert _ _ _ (.inl listed),
      fun site x reached => ?_⟩
    · rcases (reaches site x).mp reached with old | ⟨row, listed, rfl, low⟩
      · exact .inl old
      · obtain ⟨site, version⟩ := ownRows complete parts has row.change
          (StoredChange.mem_ofChanges.mp listed).1
        have stop := (reaches actor _).mpr (.inr ⟨row, listed, site.trans own, version.ge⟩)
        exact .inr ⟨site.trans own, by omega, stop⟩
    · by_cases rows : parts.changes = []
      · exact .inr (.inr ⟨complete, filled, parts, has, rows⟩)
      · obtain ⟨change, listed⟩ := exists_mem_of_ne_nil _ rows
        obtain ⟨site, version⟩ := ownRows complete parts has change listed
        exact .inl ((reaches actor _).mpr (.inr ⟨⟨change, parts.ts⟩, by simp [listed], site.trans own, version.ge⟩))
    · rcases (reaches site x).mp reached with old | ⟨row, listed, rfl, _⟩
      · exact .inl ⟨x, old⟩
      · exact .inr (.inl (laws.siteIds_insert _ _ _ (.inr ⟨row, listed, rfl⟩)))
  | buffered incomplete parts has =>
    refine ⟨rfl, fun _ _ reached => reached, fun _ _ reached => .inl reached, fun isNone => ?_,
      fun _ listed => listed, fun _ x reached => .inl ⟨x, reached⟩⟩
    simp [known, incomplete, has] at isNone

private theorem effects_step {change : ChangeV1} {state next : ActorLoop engine} (member : change ∈ changes)
    (own : change.actorId = actor) (ownRows : OwnRows change) (effects : ActorEffects bv actor changes before state)
    (turn : handleChange faults bv state change = .ok next) : ActorEffects bv actor changes before next := by
  rcases handleChange_ok turn with ⟨rfl, _⟩ | ⟨unknown, _, upright, db, effect, _⟩
  · exact effects
  · have moves := dbMoves laws own ownRows effect
    refine ⟨moves.tables.trans effects.tables,
      fun site x reached => moves.kept site x (effects.kept site x reached),
      fun site x reached => ?_, fun versions entry => ?_, fun versions chunk entry => ?_,
      fun entry listed => ?_, fun site listed => moves.keptSites site (effects.keptSites site listed),
      fun site x reached => ?_⟩
    · rcases moves.sound site x reached with old | ⟨rfl, low, recorded⟩
      · rcases effects.sound site x old with start | ⟨rfl, entry, listed, low, recorded⟩
        · exact .inl start
        · exact .inr ⟨rfl, entry, mem_append_left _ listed, low, moves.kept _ _ recorded⟩
      · exact .inr ⟨rfl, (change.versions, known change), by simp [ActorLoop.push], low, recorded⟩
    · simp only [ActorLoop.push, mem_append, mem_singleton, Prod.mk.injEq] at entry
      rcases entry with old | ⟨rfl, isNone⟩
      · exact (effects.recorded versions old).imp_left (moves.kept actor _)
      · exact (moves.recorded isNone.symm).imp_right fun why => ⟨change, member, rfl, why⟩
    · simp only [ActorLoop.push, mem_append, mem_singleton, Prod.mk.injEq] at entry
      rcases entry with old | ⟨rfl, isSome⟩
      · exact effects.chunks versions chunk old
      · exact ⟨change, member, rfl, isSome.symm, upright⟩
    · simp only [ActorLoop.push, mem_append, mem_singleton] at listed
      rcases listed with old | rfl
      · exact effects.proper entry old
      · exact proper_of_unknown unknown
    · rcases moves.sites site x reached with ⟨y, old⟩ | listed | ⟨rfl, emptied⟩
      · rcases effects.sites site y old with start | listed | emptied
        · exact .inl start
        · exact .inr (.inl (moves.keptSites site listed))
        · exact .inr (.inr emptied)
      · exact .inr (.inl listed)
      · exact .inr (.inr ⟨rfl, change, member, emptied⟩)

/-- The whole loop over an actor's changes. -/
theorem actor_effects {before final : ActorLoop engine}
    (own : ∀ change ∈ changes, change.actorId = actor) (ownRows : ∀ change ∈ changes, OwnRows change)
    (nothing : before.processed = []) (run : changes.foldlM (handleChange faults bv) before = .ok final) :
    ActorEffects bv actor changes before.db final :=
  foldlM_invariant (ActorEffects bv actor changes before.db) (effects_start nothing)
    (fun change member _ _ effects turn =>
      effects_step laws member (own change member) (ownRows change member) effects turn) run

/-- The same for the actors of a batch; `unknown` are the changes of each. -/
structure BatchEffects (bookie : Bookie) (unknown : ActorId → List ChangeV1)
    (before : Database engine) (state : BatchLoop engine) : Prop where
  tables : state.db.tables = before.tables
  kept : ∀ (site : ActorId) x, Reaches (dbVersions before)[site]? x →
    Reaches (dbVersions state.db)[site]? x
  sound : ∀ (site : ActorId) x, Reaches (dbVersions state.db)[site]? x →
    Reaches (dbVersions before)[site]? x ∨ ∃ entry ∈ entriesOf state.processed site,
      x ≤ entry.1.stop ∧ Reaches (dbVersions state.db)[site]? entry.1.stop
  recorded : ∀ site versions, (versions, none) ∈ entriesOf state.processed site →
    Reaches (dbVersions state.db)[site]? versions.stop ∨
      ∃ change ∈ unknown site, change.versions = versions ∧
        ((Reaches (bookie.ensure site).max versions.stop ∧ Emptied change) ∨ Rowless change)
  chunks : ∀ site versions chunk, (versions, some chunk) ∈ entriesOf state.processed site →
    ∃ change ∈ unknown site, change.versions = versions ∧ known change = some chunk ∧ Upright change
  proper : Proper state.processed
  keptSites : ∀ site, site ∈ engine.siteIds before.crsql → site ∈ engine.siteIds state.db.crsql
  sites : ∀ (site : ActorId) x, Reaches (dbVersions state.db)[site]? x →
    (∃ y, Reaches (dbVersions before)[site]? y) ∨ site ∈ engine.siteIds state.db.crsql ∨
      ∃ change ∈ unknown site, Emptied change

private theorem batch_step {state next : BatchLoop engine} (own : ∀ change ∈ unknown actor, change.actorId = actor)
    (ownRows : ∀ change ∈ unknown actor, OwnRows change)
    (unmet : state.processed[actor]? = none) (effects : BatchEffects bookie unknown before state)
    (turn : handleActor faults bookie state (actor, unknown actor) = .ok next) :
    BatchEffects bookie unknown before next ∧
      ∀ other, actor ≠ other → next.processed[other]? = state.processed[other]? := by
  obtain ⟨loop, run, db, elsewhere, here⟩ := handleActor_ok turn
  have own := actor_effects laws own ownRows rfl run
  have entries : ∀ site, entriesOf next.processed site =
      if site = actor then loop.processed else entriesOf state.processed site := by
    intro site
    split
    · rename_i same
      rw [same, here unmet]
    · rename_i different
      rw [entriesOf, elsewhere site (Ne.symm different), entriesOf]
  refine ⟨⟨?_, fun site x reached => ?_, fun site x reached => ?_, fun site versions entry => ?_,
    fun site versions chunk entry => ?_, fun site entry listed => ?_, fun site listed => ?_,
    fun site x reached => ?_⟩, elsewhere⟩
  · rw [db, own.tables, effects.tables]
  · rw [db]
    exact own.kept site x (effects.kept site x reached)
  · rw [db] at reached
    rw [entries]
    rcases own.sound site x reached with old | ⟨rfl, new⟩
    · rcases effects.sound site x old with start | ⟨entry, listed, low, recorded⟩
      · exact .inl start
      · split
        · rename_i same
          subst same
          simp [entriesOf, unmet] at listed
        · exact .inr ⟨entry, listed, low, db ▸ own.kept site _ recorded⟩
    · exact .inr (by simpa [db] using new)
  · rw [entries] at entry
    rw [db]
    split at entry
    · rename_i same
      subst same
      exact own.recorded versions entry
    · exact (effects.recorded site versions entry).imp_left (own.kept site _)
  · rw [entries] at entry
    split at entry
    · rename_i same
      subst same
      exact own.chunks versions chunk entry
    · exact effects.chunks site versions chunk entry
  · rw [entries] at listed
    split at listed
    · exact own.proper entry listed
    · exact effects.proper site entry listed
  · rw [db]
    exact own.keptSites site (effects.keptSites site listed)
  · rw [db] at reached ⊢
    rcases own.sites site x reached with ⟨y, old⟩ | listed | ⟨rfl, emptied⟩
    · rcases effects.sites site y old with start | listed | emptied
      · exact .inl start
      · exact .inr (.inl (own.keptSites site listed))
      · exact .inr (.inr emptied)
    · exact .inr (.inl listed)
    · exact .inr (.inr emptied)

theorem batch_effects
    {unknown : Map ActorId (List ChangeV1)} {final : BatchLoop engine}
    (own : ∀ actor : ActorId, ∀ change ∈ unknown[actor]?.getD [], change.actorId = actor)
    (ownRows : ∀ actor : ActorId, ∀ change ∈ unknown[actor]?.getD [], OwnRows change)
    (run : unknown.toList.foldlM (handleActor faults bookie) ⟨before, ∅, []⟩ = .ok final) :
    BatchEffects bookie (fun actor => unknown[actor]?.getD []) before final := by
  have start : BatchEffects bookie (fun actor => unknown[actor]?.getD []) before ⟨before, ∅, []⟩ :=
    ⟨rfl, fun _ _ reached => reached, fun _ _ reached => .inl reached, by simp [entriesOf],
      by simp [entriesOf], by simp [Proper, entriesOf], fun _ listed => listed,
      fun _ x reached => .inl ⟨x, reached⟩⟩
  have folded : ∀ (items : List (ActorId × List ChangeV1)) (state : BatchLoop engine),
      items.Pairwise (fun a b => a.1 ≠ b.1) →
      (∀ item ∈ items, item.2 = unknown[item.1]?.getD []) →
      (∀ item ∈ items, state.processed[item.1]? = none) →
      BatchEffects bookie (fun actor => unknown[actor]?.getD []) before state →
      items.foldlM (handleActor faults bookie) state = .ok final →
      BatchEffects bookie (fun actor => unknown[actor]?.getD []) before final := by
    intro items
    induction items with
    | nil =>
      intro state _ _ _ effects run
      rw [foldlM_nil_ok run]
      exact effects
    | cons first _ ih =>
      intro state distinct are unmet effects run
      obtain ⟨firstNew, restDistinct⟩ := pairwise_cons.mp distinct
      obtain ⟨middle, turn, later⟩ := foldlM_cons_ok run
      rw [show first = (first.1, unknown[first.1]?.getD []) from Prod.ext rfl (are first (by simp))] at turn
      obtain ⟨next, elsewhere⟩ := batch_step laws (own first.1) (ownRows first.1) (unmet first (by simp)) effects turn
      refine ih middle restDistinct (fun item member => are item (by simp [member])) (fun item member => ?_) next later
      rw [elsewhere item.1 (firstNew item member)]
      exact unmet item (by simp [member])
  refine folded unknown.toList _ toList_distinct (fun item member => ?_) (by simp) start run
  rw [Std.ExtTreeMap.mem_toList_iff_getElem?_eq_some.mp member, Option.getD_some]

end

end Galvanize.DatabaseEffects
