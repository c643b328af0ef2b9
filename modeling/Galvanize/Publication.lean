import Galvanize.ProcessProofs

/-! `process_multiple_changes` step by step. Readers see the committed database and the
published bookkeeping; the transaction and the working copies are seen by nobody until
`tx.commit()` and `booked_write.commit()`, and every step before may fail. -/
namespace Galvanize.Publication
open BookedVersions BookieMirror ProcessProofs

variable {engine : CrSqlite} {faults : Faults}

/-- How far a batch has come, with what is in its transaction and in its working copies. -/
inductive Stage (engine : CrSqlite) where
  | handling (todo : List (ActorId × List ChangeV1)) (loop : BatchLoop engine)
  | executing (loop : BatchLoop engine)
  | committing (working : Node engine) (outcome : Outcome)
  -- the actors whose working copies are still to be published
  | publishing (todo : List ActorId) (working : Node engine) (outcome : Outcome)
  | finished (result : Except ChangeError Outcome)
  -- every change was known before
  | unneeded

structure Batch (engine : CrSqlite) where
  /-- What readers see. -/
  shared : Node engine
  unknown : Map ActorId (List ChangeV1)
  stage : Stage engine

namespace Batch

/-- A batch whose repetitions and known changes have been left out. -/
def start (node : Node engine) (changes : List ChangeV1) : Batch engine :=
  let gathered := gatherAll node.bookie changes
  ⟨{ node with bookie := gathered.bookie }, gathered.unknown,
    if gathered.unknown.isEmpty then .unneeded else .handling gathered.unknown.toList ⟨node.db, ∅, []⟩⟩

/-- What the transaction holds once the bookkeeping of a loop has been computed and written. -/
def execute (bookie : Bookie) (loop : BatchLoop engine) : Except ChangeError (Node engine × Outcome) :=
  let applied := bookie.computeAndApplyAll loop.processed
  match (BookieDbParams.fromChanges applied.allChanges).execute loop.db.tables with
  | (.error _, _) => .error (.rusqlite none none)
  | (.ok tables, _) => .ok (⟨{ loop.db with tables }, applied.bookie⟩, ⟨loop.changesets, applied.completedVersions⟩)

/-- One step. Up to the commit it may be cut off: by an interrupt, an error of a statement or
a panic. The transaction and the working copies are dropped then. -/
def step (faults : Faults) (self : Batch engine) (cut : Option ChangeError) : Batch engine :=
  match self.stage, cut with
  | .finished _, _ => self
  | .unneeded, _ => self
  | .publishing [] _ outcome, _ => { self with stage := .finished (.ok outcome) }
  | .publishing (actor :: todo) working outcome, _ =>
    { self with
      shared := { self.shared with bookie := self.shared.bookie.insert actor (working.bookie.ensure actor) }
      stage := .publishing todo working outcome }
  | _, some e => { self with stage := .finished (.error e) }
  | .handling (entry :: todo) loop, none =>
    match handleActor faults self.shared.bookie loop entry with
    | .error e => { self with stage := .finished (.error e) }
    | .ok loop => { self with stage := .handling todo loop }
  | .handling [] loop, none => { self with stage := .executing loop }
  | .executing loop, none =>
    match execute self.shared.bookie loop with
    | .error e => { self with stage := .finished (.error e) }
    | .ok (working, outcome) => { self with stage := .committing working outcome }
  | .committing working outcome, none =>
    if faults.commit then { self with stage := .finished (.error (.rusqlite none none)) }
    else
      { self with
        shared := { self.shared with db := working.db }
        stage := .publishing (self.unknown.toList.map Prod.fst) working outcome }

def run (faults : Faults) (cuts : List (Option ChangeError)) (self : Batch engine) : Batch engine :=
  cuts.foldl (step faults) self

/-- Whether the transaction has been committed. -/
def committed (self : Batch engine) : Bool :=
  match self.stage with
  | .publishing _ _ _ => true
  | .finished (.ok _) => true
  | _ => false

end Batch

variable {node : Node engine} {batch : Batch engine}

/-- What is true at each stage of a batch that started with what `node` shows. -/
def Sound (faults : Faults) (node : Node engine) (batch : Batch engine) : Prop :=
  match batch.stage with
  | .handling todo loop => batch.shared = node ∧ ∃ done, batch.unknown.toList = done ++ todo ∧
    done.foldlM (handleActor faults node.bookie) ⟨node.db, ∅, []⟩ = .ok loop
  | .executing loop => batch.shared = node ∧
    batch.unknown.toList.foldlM (handleActor faults node.bookie) ⟨node.db, ∅, []⟩ = .ok loop
  | .committing working outcome => batch.shared = node ∧
    (faults.commit = false → writeBatch faults node batch.unknown = .ok (working, outcome))
  | .publishing todo working outcome => writeBatch faults node batch.unknown = .ok (working, outcome) ∧
    batch.shared.db = working.db ∧ ∀ actor, batch.shared.bookie.ensure actor = working.bookie.ensure actor ∨
      actor ∈ todo ∧ batch.shared.bookie.ensure actor = node.bookie.ensure actor
  | .finished (.ok outcome) => ∃ working, writeBatch faults node batch.unknown = .ok (working, outcome) ∧
    batch.shared.db = working.db ∧ ∀ actor, batch.shared.bookie.ensure actor = working.bookie.ensure actor
  | _ => batch.shared = node

/-- An actor without changes in the batch has the same bookkeeping in the working copies. -/
theorem ensure_absent {after : Node engine} (written : Written faults node unknown after state)
    (absent : unknown[actor]? = none) : after.bookie.ensure actor = node.bookie.ensure actor := by
  obtain ⟨_, _, -, none, run, processed⟩ := written.handles actor
  rw [absent, Option.getD_none] at run
  rw [written.ensure, ← processed, foldlM_nil_ok run, none, computeAndApply_nil]

theorem sound_step (sound : Sound faults node batch) (cut : Option ChangeError) :
    Sound faults node (batch.step faults cut) := by
  obtain ⟨shared, unknown, stage⟩ := batch
  cases stage with
  | finished result => exact sound
  | unneeded => exact sound
  | publishing todo working outcome =>
    obtain ⟨written, db, each⟩ := sound
    cases todo with
    | nil => exact ⟨working, written, db, fun actor => (each actor).resolve_right fun listed => by cases listed.1⟩
    | cons own todo =>
      refine ⟨written, db, fun actor => ?_⟩
      dsimp only [Batch.step]
      rw [ensure_insert]
      by_cases same : own = actor
      · rw [if_pos same, same]
        exact .inl rfl
      · rw [if_neg same]
        refine (each actor).imp_right fun ⟨listed, old⟩ => ⟨?_, old⟩
        exact (List.mem_cons.mp listed).resolve_left fun equal => same equal.symm
  | handling todo loop =>
    obtain ⟨rfl, done, split, ran⟩ := sound
    cases cut with
    | some e => cases todo <;> exact rfl
    | none =>
      cases todo with
      | nil =>
        rw [List.append_nil] at split
        exact ⟨rfl, (congrArg (List.foldlM _ _) split).trans ran⟩
      | cons entry todo =>
        unfold Batch.step
        dsimp only
        cases turn : handleActor faults shared.bookie loop entry with
        | error e => exact rfl
        | ok _ =>
          refine ⟨rfl, done ++ [entry], by rw [split, List.append_assoc]; rfl, ?_⟩
          exact foldlM_concat_ok.mpr ⟨loop, ran, turn⟩
  | executing loop =>
    obtain ⟨rfl, ran⟩ := sound
    cases cut with
    | some e => exact rfl
    | none =>
      unfold Batch.step
      dsimp only
      cases executed : Batch.execute shared.bookie loop with
      | error e => exact rfl
      | ok result =>
        refine ⟨rfl, fun commits => ?_⟩
        unfold Batch.execute at executed
        unfold writeBatch
        rw [ran]
        dsimp only at executed ⊢
        generalize (BookieDbParams.fromChanges (shared.bookie.computeAndApplyAll loop.processed).allChanges).execute
          loop.db.tables = written at executed ⊢
        obtain ⟨tables, _⟩ := written
        cases tables with
        | error e => cases executed
        | ok tables =>
          cases executed
          rw [commits]
          rfl
  | committing working outcome =>
    obtain ⟨rfl, writes⟩ := sound
    cases cut with
    | some e => exact rfl
    | none =>
      unfold Batch.step
      cases commits : faults.commit with
      | true => exact rfl
      | false =>
        have written := writes commits
        obtain ⟨_, parts⟩ := writeBatch_ok written
        refine ⟨written, rfl, fun actor => ?_⟩
        cases held : unknown[actor]? with
        | none => exact .inl (ensure_absent parts held).symm
        | some changes =>
          refine .inr ⟨?_, rfl⟩
          exact List.mem_map.mpr ⟨(actor, changes), Std.ExtTreeMap.mem_toList_iff_getElem?_eq_some.mpr held, rfl⟩

theorem sound_start (node : Node engine) (changes : List ChangeV1) :
    Sound faults (Batch.start node changes).shared (Batch.start node changes) := by
  unfold Sound Batch.start
  dsimp only
  cases nothing : (gatherAll node.bookie changes).unknown.isEmpty with
  | true => exact rfl
  | false => exact ⟨rfl, [], rfl, rfl⟩

end Galvanize.Publication
