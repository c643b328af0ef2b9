import Galvanize.BookieMirror
import Galvanize.ProcessChanges

/-! What one received change can do, said once: it leaves the loop as it was, or
it is recorded with one of four effects on the database. From that, what a batch
records for each actor. -/
namespace Galvanize.ProcessProofs
open BookedVersions BookieMirror List Std.ExtTreeMap Option

/-! ### One change -/

section
variable {engine : CrSqlite} {faults : Faults} {bv : BookedVersions}
  {state after : ActorLoop engine} {change : ChangeV1}

/-- What a change is recorded as: nothing is left to know of a complete one. -/
def known (change : ChangeV1) : Option PartialVersion :=
  if change.isComplete then none
  else change.changeset.intoParts.map (fun parts => ⟨.ofRanges [parts.seqs], parts.lastSeq, parts.ts⟩)

theorem known_eq_none : known change = none ↔ change.isComplete = true := by
  obtain ⟨_, changeset⟩ := change
  cases changeset <;> simp [known, ChangeV1.isComplete, Changeset.isComplete, Changeset.intoParts]

theorem versions_of_seqs {seqs : CrsqlSeqRange} (has : change.seqs = some seqs) :
    ∃ own, change.versions = .single own := by
  obtain ⟨_, changeset⟩ := change
  cases changeset with
  | empty versions ts => cases has
  | emptySet versions ts => cases has
  | full own changes given lastSeq ts | fullV2 actor own changes lastSeq given ts => exact ⟨own, rfl⟩

/-- A chunk names one version and is recorded with the seqs it names. -/
theorem known_eq_some (is : known change = some p) :
    ∃ own seqs, change.versions = .single own ∧ change.seqs = some seqs ∧ p.seqs = .ofRanges [seqs] := by
  have incomplete : ¬ change.isComplete = true := fun complete => by
    rw [known_eq_none.mpr complete] at is
    cases is
  obtain ⟨_, changeset⟩ := change
  cases changeset with
  | empty versions ts | emptySet versions ts => exact absurd rfl incomplete
  | full own changes seqs lastSeq ts | fullV2 actor own changes lastSeq seqs ts =>
    simp only [known, if_neg incomplete, Changeset.intoParts, map_some, some.injEq] at is
    exact ⟨own, seqs, rfl, rfl, by rw [← is]⟩

/-- The effect of a recorded change on the database. -/
inductive DbEffect (bv : BookedVersions) (before : Database engine) (change : ChangeV1) :
    Database engine → Prop where
  | set (complete : change.isComplete = true) (empty : change.isEmpty = true)
      (above : bv.max.all (fun max => change.versions.stop > max) = true) :
      DbEffect bv before change
        { before with crsql := engine.setDbVersion before.crsql change.actorId change.versions.stop }
  | unset (complete : change.isComplete = true) (empty : change.isEmpty = true)
      (below : bv.max.all (fun max => change.versions.stop > max) = false) :
      DbEffect bv before change before
  | applied (complete : change.isComplete = true) (filled : change.isEmpty = false)
      (parts : ChangesetParts) (has : change.changeset.intoParts = some parts) :
      DbEffect bv before change
        { before with crsql := (engine.insertChanges before.crsql (StoredChange.ofChanges parts.changes parts.ts)).1 }
  | buffered (incomplete : change.isComplete = false)
      (parts : ChangesetParts) (has : change.changeset.intoParts = some parts) :
      DbEffect bv before change (processIncompleteVersion before parts).1

/-- The seqs of a change, if it has any, are not inverted. -/
def Upright (change : ChangeV1) : Prop := ∀ seqs, change.seqs = some seqs → seqs.start ≤ seqs.stop

theorem upright_of_valid (valid : change.validate = .ok ()) : Upright change :=
  fun _ has => ChangeV1.validate_seqs valid has

theorem upright_of_complete (complete : change.isComplete = true) : Upright change := by
  intro _ has
  obtain ⟨_, changeset⟩ := change
  cases changeset with
  | empty versions ts => cases has
  | emptySet versions ts => cases has
  | full version changes given lastSeq ts | fullV2 actor version changes lastSeq given ts =>
    cases has
    simp [ChangeV1.isComplete, Changeset.isComplete] at complete
    omega

private theorem not_inverted_iff : ¬ change.seqs.any (fun seqs => seqs.stop < seqs.start) = true ↔ Upright change := by
  unfold Upright
  cases change.seqs with
  | none => simp
  | some seqs => simp

/-- Why a turn leaves the loop as it was. -/
inductive Skipped (faults : Faults) (bv : BookedVersions) (state : ActorLoop engine)
    (change : ChangeV1) : Prop where
  | known (contained : bv.containsAll change.versions change.seqs = true)
  | seen (covered : state.seen.covers change = true)
  | inverted (inverted : ¬ Upright change)
  | failed (error : (faults.singleVersion change).isSome)

/-- A turn that records its change. -/
inductive Recorded (bv : BookedVersions) (state : ActorLoop engine) (change : ChangeV1) :
    ActorLoop engine → Prop where
  | push (unknown : bv.containsAll change.versions change.seqs = false)
      (unseen : state.seen.covers change = false) (upright : Upright change)
      (db : Database engine) (effect : DbEffect bv state.db change db)
      (changesets : List (ActorId × Changeset × Nat)) :
      Recorded bv state change (state.push db change.versions (known change) changesets)

private theorem processSingleVersion_cases (bv : BookedVersions) {db : Database engine}
    {set : Changeset} (filled : ¬ (change.isComplete && change.isEmpty) = true)
    (processed : processSingleVersion state.db change = some (db, k, set)) : DbEffect bv state.db change db ∧
      ((∃ p, k = .partialVersion p ∧ known change = some p) ∨
        ((∀ p, k ≠ .partialVersion p) ∧ known change = none)) := by
  unfold processSingleVersion at processed
  cases parts : change.changeset.intoParts with
  | none => simp [parts] at processed
  | some parts' =>
    simp only [parts, map_some, some.injEq] at processed
    by_cases complete : change.isComplete = true
    · have notEmpty : change.isEmpty = false := by simpa [complete] using filled
      simp only [complete, if_true, processCompleteVersion] at processed
      have recorded : known change = none := by simp [known, complete]
      split at processed <;> simp only [Prod.mk.injEq] at processed <;>
        obtain ⟨rfl, rfl, rfl⟩ := processed <;>
        exact ⟨.applied complete notEmpty parts' parts, .inr ⟨by simp, recorded⟩⟩
    · have incomplete : change.isComplete = false := by simpa using complete
      simp only [incomplete, Bool.false_eq_true, if_false, processIncompleteVersion, Prod.mk.injEq] at processed
      obtain ⟨rfl, rfl, rfl⟩ := processed
      exact ⟨.buffered incomplete parts' parts, .inl ⟨_, rfl, by simp [known, incomplete, parts]⟩⟩

/-- All that one turn of the loop can do. -/
theorem handleChange_ok (ok : handleChange faults bv state change = .ok after) :
    (after = state ∧ Skipped faults bv state change) ∨ Recorded bv state change after := by
  unfold handleChange at ok
  split at ok
  · rename_i contained
    cases ok
    exact .inl ⟨rfl, .known contained⟩
  rename_i unknown
  split at ok
  · rename_i covered
    cases ok
    exact .inl ⟨rfl, .seen covered⟩
  rename_i unseen
  have unknown : bv.containsAll change.versions change.seqs = false := by simpa using unknown
  have unseen : state.seen.covers change = false := by simpa using unseen
  split at ok
  · rename_i emptied
    obtain ⟨complete, empty⟩ : change.isComplete = true ∧ change.isEmpty = true := by
      simpa using emptied
    have recorded : known change = none := by simp [known, complete]
    unfold processEmptyVersion at ok
    have pushed : ∀ db, DbEffect bv state.db change db →
        Recorded bv state change (state.push db change.versions none []) := by
      intro db effect
      have push := Recorded.push unknown unseen (upright_of_complete complete) db effect []
      rwa [recorded] at push
    by_cases above : bv.max.all (fun max => change.versions.stop > max) = true
    · by_cases fails : faults.emptyVersion change = true
      · simp [BookedVersions.last, above, fails] at ok
      · simp only [BookedVersions.last, above, if_true, fails, Bool.false_eq_true, if_false,
          Except.ok.injEq] at ok
        exact .inr (ok ▸ pushed _ (.set complete empty above))
    · simp only [BookedVersions.last, above, Bool.false_eq_true, if_false, Except.ok.injEq] at ok
      exact .inr (ok ▸ pushed _ (.unset complete empty (by simpa using above)))
  · rename_i filled
    split at ok
    · rename_i inverted
      cases ok
      exact .inl ⟨rfl, .inverted fun upright => not_inverted_iff.mpr upright inverted⟩
    rename_i upright
    have upright := not_inverted_iff.mp upright
    split at ok
    · cases ok
    · rename_i fault
      cases ok
      exact .inl ⟨rfl, .failed (by simp [fault])⟩
    · split at ok
      · cases ok
      · rename_i db k _ processed
        obtain ⟨effect, ⟨p, is, recorded⟩ | ⟨none, _⟩⟩ := processSingleVersion_cases bv filled processed
        · cases is
          cases ok
          exact .inr (recorded ▸ .push unknown unseen upright db effect [])
        · exact absurd rfl (none _)
      all_goals
        rename_i processed
        obtain ⟨effect, ⟨p, is, _⟩ | ⟨_, recorded⟩⟩ := processSingleVersion_cases bv filled processed
        · cases is
        · cases ok
          exact .inr (recorded ▸ .push unknown unseen upright _ effect _)

end

/-! ### Gathering -/

variable {bookie : Bookie} {changes : List ChangeV1} {actor : ActorId}

theorem ensure_insertIfNew : Bookie.ensure (bookie.insertIfNew actor (.new actor)) other = bookie.ensure other := by
  simp only [Bookie.ensure, getElem?_insertIfNew, Std.LawfulEqOrd.compare_eq_iff_eq]
  split
  · rename_i added
    obtain ⟨rfl, missing⟩ := added
    rw [getElem?_eq_none missing, getD_some, getD_none]
  · rfl

/-- The changes of an actor that a batch has to look at. -/
def unknownOf (bookie : Bookie) (changes : List ChangeV1) (actor : ActorId) : List ChangeV1 :=
  (gatherAll bookie changes).unknown[actor]?.getD []

/-- What is listed is unknown, and every identity met is known or listed. -/
private structure GatherInv (bookie : Bookie) (changes : List ChangeV1) (state : Gathered) :
    Prop where
  ensure : ∀ actor, state.bookie.ensure actor = bookie.ensure actor
  unknown : ∀ actor : ActorId, ∀ change ∈ state.unknown[actor]?.getD [], change ∈ changes ∧
    change.actorId = actor ∧ (bookie.ensure actor).containsAll change.versions change.seqs = false
  seen : ∀ (actor : ActorId) versions seqs, (actor, versions, seqs) ∈ state.seen →
    (bookie.ensure actor).containsAll versions seqs = true ∨
    ∃ change ∈ state.unknown[actor]?.getD [], change.versions = versions ∧ change.seqs = seqs

variable {unknown : Map ActorId (List ChangeV1)} {change : ChangeV1}

private theorem enlisted :
    (unknown.alter change.actorId (fun held => some (held.getD [] ++ [change])))[actor]?.getD [] =
      unknown[actor]?.getD [] ++ if change.actorId = actor then [change] else [] := by
  simp only [getElem?_alter, Std.LawfulEqOrd.compare_eq_iff_eq]
  split
  · rename_i same
    subst same
    rfl
  · simp

private theorem gather_inv (member : change ∈ changes) (inv : GatherInv bookie changes state) :
    GatherInv bookie changes (gather state change) := by
  have ensures : ∀ actor, Bookie.ensure (state.bookie.insertIfNew change.actorId
      (.new change.actorId)) actor = bookie.ensure actor := fun actor => by
    rw [ensure_insertIfNew, inv.ensure]
  simp only [gather]
  split
  · exact inv
  split
  · rename_i contained
    rw [ensures] at contained
    refine ⟨ensures, inv.unknown, fun actor versions seqs listed => ?_⟩
    rcases mem_cons.mp listed with same | earlier
    · simp only [Prod.mk.injEq] at same
      obtain ⟨rfl, rfl, rfl⟩ := same
      exact .inl contained
    · exact inv.seen actor versions seqs earlier
  · rename_i missing
    rw [ensures] at missing
    refine ⟨ensures, fun actor other listed => ?_, fun actor versions seqs listed => ?_⟩
    · rw [enlisted, mem_append] at listed
      rcases listed with earlier | last
      · exact inv.unknown actor other earlier
      · split at last
        · rename_i same
          subst same
          obtain rfl := mem_singleton.mp last
          exact ⟨member, rfl, by simpa using missing⟩
        · cases last
    · simp only [enlisted]
      rcases mem_cons.mp listed with same | earlier
      · simp only [Prod.mk.injEq] at same
        obtain ⟨rfl, rfl, rfl⟩ := same
        exact .inr ⟨change, by simp, rfl, rfl⟩
      · rcases inv.seen actor versions seqs earlier with contained | ⟨other, held, same⟩
        · exact .inl contained
        · exact .inr ⟨other, mem_append_left _ held, same⟩

private theorem gather_seen : (change.actorId, change.versions, change.seqs) ∈ (gather state change).seen ∧
      ∀ id ∈ state.seen, id ∈ (gather state change).seen := by
  simp only [gather]
  split
  · rename_i repeated
    exact ⟨repeated, fun _ listed => listed⟩
  split <;> exact ⟨mem_cons_self, fun _ listed => mem_cons_of_mem _ listed⟩

private theorem gatherAll_inv : GatherInv bookie changes (gatherAll bookie changes) ∧
      ∀ change ∈ changes, (change.actorId, change.versions, change.seqs) ∈ (gatherAll bookie changes).seen := by
  have folded : ∀ (rest : List ChangeV1) (state : Gathered), (∀ change ∈ rest, change ∈ changes) →
      GatherInv bookie changes state → GatherInv bookie changes (rest.foldl gather state) ∧
        (∀ id ∈ state.seen, id ∈ (rest.foldl gather state).seen) ∧
        ∀ change ∈ rest,
          (change.actorId, change.versions, change.seqs) ∈ (rest.foldl gather state).seen := by
    intro rest
    induction rest with
    | nil => exact fun state _ inv => ⟨inv, fun _ listed => listed, by simp⟩
    | cons first rest ih =>
      intro state included inv
      obtain ⟨holds, keeps, met⟩ := ih (gather state first)
        (fun change member => included change (by simp [member]))
        (gather_inv (included first (by simp)) inv)
      refine ⟨holds, fun id listed => keeps id (gather_seen.2 id listed), fun change member => ?_⟩
      rcases mem_cons.mp member with rfl | later
      · exact keeps _ gather_seen.1
      · exact met change later
  have start : GatherInv bookie changes ⟨[], bookie, ∅⟩ := ⟨fun _ => rfl, by simp, by simp⟩
  obtain ⟨holds, _, met⟩ := folded changes _ (fun _ member => member) start
  exact ⟨holds, met⟩

theorem ensure_gatherAll : (gatherAll bookie changes).bookie.ensure actor = bookie.ensure actor :=
  gatherAll_inv.1.ensure actor

theorem mem_unknownOf (listed : change ∈ unknownOf bookie changes actor) :
    change ∈ changes ∧ change.actorId = actor ∧ (bookie.ensure actor).containsAll change.versions change.seqs = false :=
  gatherAll_inv.1.unknown actor change listed

/-- A change that is not known is looked at, itself or one like it. -/
theorem exists_unknownOf (listed : change ∈ changes)
    (missing : (bookie.ensure change.actorId).containsAll change.versions change.seqs = false) :
    ∃ other ∈ unknownOf bookie changes change.actorId, other.versions = change.versions ∧ other.seqs = change.seqs := by
  rcases gatherAll_inv.1.seen _ _ _ (gatherAll_inv.2 change listed) with contained | found
  · rw [missing] at contained
    cases contained
  · exact found

/-! ### A batch -/

section
variable {engine : CrSqlite} {faults : Faults} {node after : Node engine}

/-- The loop over an actor's changes succeeds, starting from nothing processed
and ending with `processed`. -/
def Handles (engine : CrSqlite) (faults : Faults) (bv : BookedVersions) (changes : List ChangeV1)
    (processed : List Processed) : Prop :=
  ∃ before final : ActorLoop engine, before.seen = [] ∧ before.processed = [] ∧
    changes.foldlM (handleChange faults bv) before = .ok final ∧ final.processed = processed

variable {bv : BookedVersions}

theorem proper_of_unknown (unknown : bv.containsAll change.versions change.seqs = false) :
    change.versions.start ≤ change.versions.stop := by
  by_contra inverted
  have all : bv.containsAll change.versions change.seqs = true := by
    refine BookieProofs.containsAll_iff.mpr fun version inside => ?_
    simp only [RangeInclusive.mem_def] at inside
    omega
  rw [all] at unknown
  cases unknown

/-- Every entry is of a change that the bookkeeping did not know. -/
theorem handles_entries {entry : Processed}
    (handles : Handles engine faults bv changes processed) (listed : entry ∈ processed) :
    ∃ change ∈ changes, bv.containsAll change.versions change.seqs = false ∧
      entry = (change.versions, known change) ∧ Upright change := by
  obtain ⟨_, _, _, nothing, run, rfl⟩ := handles
  refine foldlM_invariant (fun state : ActorLoop engine => ∀ entry ∈ state.processed, ∃ change ∈ changes,
    bv.containsAll change.versions change.seqs = false ∧ entry = (change.versions, known change) ∧
      Upright change) (by simp [nothing]) (fun change member state next holds turn => ?_) run entry listed
  rcases handleChange_ok turn with ⟨rfl, _⟩ | ⟨unknown, _, upright, db, _, _⟩
  · exact holds
  · intro entry pushed
    simp only [ActorLoop.push, mem_append, mem_singleton] at pushed
    rcases pushed with old | rfl
    · exact holds entry old
    · exact ⟨change, member, unknown, rfl, upright⟩

variable {state : BatchLoop engine}

/-- One actor's turn: its loop runs on its own, and only its entries change. -/
theorem handleActor_ok {next : BatchLoop engine} (turn : handleActor faults bookie state item = .ok next) :
    ∃ loop, item.2.foldlM (handleChange faults (bookie.ensure item.1))
        ⟨state.db, [], [], state.changesets⟩ = .ok loop ∧ next.db = loop.db ∧
      (∀ other, item.1 ≠ other → next.processed[other]? = state.processed[other]?) ∧
      (state.processed[item.1]? = none → entriesOf next.processed item.1 = loop.processed) := by
  unfold handleActor at turn
  cases run : item.2.foldlM (handleChange faults (bookie.ensure item.1))
      ⟨state.db, [], [], state.changesets⟩ with
  | error e => simp [run] at turn
  | ok loop =>
    simp only [run, Except.ok.injEq] at turn
    subst turn
    refine ⟨loop, rfl, rfl, fun other different => ?_, fun unmet => ?_⟩
    · dsimp only
      split
      · rfl
      · simp [Std.ExtTreeMap.getElem?_insert, different]
    · dsimp only [entriesOf]
      split
      · rename_i nothing
        rw [unmet, getD_none, isEmpty_iff.mp nothing]
      · simp

/-- Each actor of a batch is handled on its own. -/
private theorem handleActors_processed {items : List (ActorId × List ChangeV1)}
    {start final : BatchLoop engine} (distinct : items.Pairwise (fun a b => a.1 ≠ b.1))
    (ok : items.foldlM (handleActor faults bookie) start = .ok final) :
    (∀ item ∈ items, start.processed[item.1]? = none →
      Handles engine faults (bookie.ensure item.1) item.2 (entriesOf final.processed item.1)) ∧
    ∀ actor, (∀ item ∈ items, item.1 ≠ actor) → final.processed[actor]? = start.processed[actor]? := by
  induction items generalizing start with
  | nil =>
    obtain rfl := foldlM_nil_ok ok
    simp
  | cons first _ ih =>
    obtain ⟨firstNew, restDistinct⟩ := pairwise_cons.mp distinct
    obtain ⟨_, turn, later⟩ := foldlM_cons_ok ok
    obtain ⟨present, absent⟩ := ih restDistinct later
    obtain ⟨loop, run, _, elsewhere, here⟩ := handleActor_ok turn
    refine ⟨fun item member unmet => ?_, fun actor missing => ?_⟩
    · rcases mem_cons.mp member with rfl | isLater
      · refine ⟨_, loop, rfl, rfl, run, ?_⟩
        rw [← here unmet, entriesOf, entriesOf, absent _ (fun other member => (firstNew other member).symm)]
      · exact present item isLater (by rw [elsewhere _ (firstNew item isLater), unmet])
    · rw [absent actor (fun item member => missing item (by simp [member])),
        elsewhere actor (missing first (by simp))]

theorem handles_nil (db : Database engine) : Handles engine faults bv [] [] :=
  ⟨⟨db, [], [], []⟩, ⟨db, [], [], []⟩, rfl, rfl, rfl, rfl⟩

/-- All that a committed batch did: the rows of its changes, then the bookkeeping of what was
processed, in memory and in the tables. -/
structure Written (faults : Faults) (node : Node engine) (unknown : Map ActorId (List ChangeV1))
    (after : Node engine) (state : BatchLoop engine) : Prop where
  run : unknown.toList.foldlM (handleActor faults node.bookie) ⟨node.db, ∅, []⟩ = .ok state
  handles : ∀ actor, Handles engine faults (node.bookie.ensure actor) (unknown[actor]?.getD [])
    (entriesOf state.processed actor)
  crsql : after.db.crsql = state.db.crsql
  buffered : after.db.buffered = state.db.buffered
  executed : ∃ reports, (paramsOf node.bookie state.processed).execute state.db.tables =
    (.ok after.db.tables, reports)
  bookie : after.bookie = (node.bookie.computeAndApplyAll state.processed).bookie

theorem writeBatch_ok {outcome : Outcome} (ok : writeBatch faults node unknown = .ok (after, outcome)) :
    ∃ state, Written faults node unknown after state := by
  unfold writeBatch at ok
  cases run : unknown.toList.foldlM (handleActor faults node.bookie) ⟨node.db, ∅, []⟩ with
  | error e => simp [run] at ok
  | ok state =>
    simp only [run] at ok
    obtain ⟨present, absent⟩ := handleActors_processed toList_distinct run
    have handles : ∀ actor, Handles engine faults (node.bookie.ensure actor) (unknown[actor]?.getD [])
        (entriesOf state.processed actor) := by
      intro actor
      cases held : unknown[actor]? with
      | none =>
        have missing : ∀ item ∈ unknown.toList, item.1 ≠ actor := by
          rintro ⟨_, given⟩ listed rfl
          rw [mem_toList_iff_getElem?_eq_some, held] at listed
          cases listed
        rw [entriesOf, absent actor missing]
        exact handles_nil node.db
      | some given =>
        exact present (actor, given) (mem_toList_iff_getElem?_eq_some.mpr held) (by simp)
    split at ok
    · cases ok
    · rename_i tables reports executed
      split at ok
      · cases ok
      · cases ok
        exact ⟨state, run, handles, rfl, rfl, ⟨reports, executed⟩, rfl⟩

/-- A committed batch: every actor's bookkeeping moves by what was processed for it. -/
theorem Written.ensure (written : Written faults node unknown after state) (actor : ActorId) :
    after.bookie.ensure actor = ((node.bookie.ensure actor).computeAndApply (entriesOf state.processed actor)).1 := by
  rw [written.bookie, ensure_computeAndApplyAll, computed]

/-- What the effect of every change keeps, the rows of a batch keep. -/
theorem Written.db (written : Written faults node unknown after state) (holds : Database engine → Prop)
    (start : holds node.db)
    (step : ∀ (actor : ActorId) bv change db next, change ∈ unknown[actor]?.getD [] → DbEffect bv db change next →
      holds db → holds next) : holds state.db := by
  refine foldlM_invariant (fun state : BatchLoop engine => holds state.db) start
    (fun item listed state next held turn => ?_) written.run
  obtain ⟨_, run, same, _, _⟩ := handleActor_ok turn
  rw [same]
  refine foldlM_invariant (fun state : ActorLoop engine => holds state.db) held
    (fun change member state next held turn => ?_) run
  rcases handleChange_ok turn with ⟨rfl, _⟩ | ⟨_, _, _, db, effect, _⟩
  · exact held
  · refine step item.1 _ change state.db db ?_ effect held
    rw [mem_toList_iff_getElem?_eq_some.mp (show (item.1, item.2) ∈ unknown.toList from listed)]
    exact member

/-- The same for `process_multiple_changes`. -/
theorem processMultipleChanges_actor {outcome : Outcome}
    (ok : processMultipleChanges faults node changes = (after, .ok outcome)) (actor : ActorId) : ∃ processed,
      Handles engine faults (node.bookie.ensure actor) (unknownOf node.bookie changes actor) processed ∧
      after.bookie.ensure actor = ((node.bookie.ensure actor).computeAndApply processed).1 := by
  unfold processMultipleChanges at ok
  dsimp only at ok
  split at ok
  · rename_i nothing
    simp only [Prod.mk.injEq] at ok
    have empty : unknownOf node.bookie changes actor = [] := by
      rw [unknownOf, isEmpty_iff.mp nothing]
      simp
    refine ⟨[], empty ▸ handles_nil node.db, ?_⟩
    rw [← ok.1, computeAndApply_nil]
    exact ensure_gatherAll
  · split at ok
    · cases ok
    · rename_i final announced written
      simp only [Prod.mk.injEq] at ok
      obtain ⟨_, written⟩ := writeBatch_ok written
      have handles := written.handles actor
      have moved := written.ensure actor
      rw [ensure_gatherAll] at handles moved
      exact ⟨_, handles, by rw [← ok.1, moved]⟩

/-- An uncommitted batch leaves every actor's bookkeeping as it was. -/
theorem processMultipleChanges_error
    (failed : processMultipleChanges faults node changes = (after, .error error)) (actor : ActorId) :
    after.bookie.ensure actor = node.bookie.ensure actor := by
  unfold processMultipleChanges at failed
  dsimp only at failed
  split at failed
  · cases failed
  · split at failed
    · simp only [Prod.mk.injEq] at failed
      rw [← failed.1]
      exact ensure_gatherAll
    · cases failed

end

end Galvanize.ProcessProofs
