import Galvanize.BundleSession
import Galvanize.ReceiverOrder

/-! A bundle is applied as a whole or not at all, and only once. -/
namespace Galvanize.HighLow

variable {engine : CrSqlite} {codec : Codec} {low : Option LowConfig} {self : ActorId} {around : Surroundings engine}
  {node : HighNode engine} {store : HighStore engine} {high : High} {bundle : Bundle} {event : Event}
  {manifestName : String}

/-! ### The transaction -/

/-- Nothing of the node has changed, and the transaction has this copy. -/
def InTx (node : HighNode engine) (store : HighStore engine) (session : Session engine) : Prop :=
  session.toHighNode = node ∧ session.working = some store

/-- The same for the part of the copy that belongs to the link. -/
def Holding (node : HighNode engine) (high : High) (session : Session engine) : Prop :=
  ∃ store, store.high = high ∧ InTx node store session

/-- A call that fails has not touched the node. -/
def Untouched (node : HighNode engine) (_ : Error) (session : Session engine) : Prop := session.toHighNode = node

theorem holding_untouched (holding : Holding node high session) : session.toHighNode = node := by
  obtain ⟨_, _, same, _⟩ := holding
  exact same

theorem spec_ofExcept (untouched : ∀ session, pre session → session.toHighNode = node) :
    Spec pre (ofExcept result) (fun value session => result = .ok value ∧ pre session) (Untouched node) := by
  cases result with
  | ok value => exact spec_pure fun session holds => ⟨rfl, holds⟩
  | error error => exact spec_throw untouched

/-- A fallible step that the transaction does not see. -/
theorem spec_checked {rest : α → Program engine β} {post : β → Session engine → Prop}
    (each : ∀ value, result = .ok value → Spec (Holding node high) (rest value) post (Untouched node)) :
    Spec (Holding node high) (ofExcept result >>= rest) post (Untouched node) :=
  spec_bind (spec_ofExcept fun _ => holding_untouched) fun value => spec_assume (each value)

variable {point : Point} {error : Error}

theorem spec_query {read : HighStore engine → α} : Spec (InTx node store) (query around point error read)
      (fun value session => value = read store ∧ InTx node store session) (Untouched node) := by
  rintro session ⟨same, working⟩
  unfold query
  rw [working]
  cases around.fails point with
  | true => exact same
  | false => exact ⟨rfl, same, working⟩

theorem spec_statement {effect : HighStore engine → HighStore engine} :
    Spec (InTx node store) (statement around point error effect) (fun _ => InTx node (effect store))
      (Untouched node) := by
  rintro session ⟨same, working⟩
  unfold statement
  rw [working]
  cases around.fails point with
  | true => exact same
  | false => exact ⟨same, rfl⟩

/-- A statement that only touches what belongs to the link. -/
theorem spec_highStatement (effect : High → High) :
    Spec (Holding node high) (statement around point error fun store => { store with high := effect store.high })
      (fun _ => Holding node (effect high)) (Untouched node) := by
  apply spec_exists
  intro store session
  rintro ⟨rfl, inTx⟩
  exact (spec_weaken spec_statement fun _ _ after => ⟨_, rfl, after⟩) session inTx

theorem spec_highQuery (read : High → α) :
    Spec (Holding node high) (query around point error fun store => read store.high)
      (fun value session => value = read high ∧ Holding node high session) (Untouched node) := by
  apply spec_exists
  intro store session
  rintro ⟨rfl, inTx⟩
  exact (spec_weaken spec_query fun _ _ after => ⟨after.1, store, rfl, after.2⟩) session inTx

theorem spec_userStatement {effect : HighDb → HighDb} :
    Spec (Holding node high) (userStatement self around point error event effect)
      (fun _ => Holding node { high with db := effect high.db }) (Untouched node) := by
  rintro session ⟨_, rfl, same, working⟩
  unfold userStatement
  rw [working]
  cases around.fails point with
  | true => exact same
  | false => exact ⟨_, rfl, same, rfl⟩

theorem spec_beginSession :
    Spec (fun session => session.toHighNode = node) (beginSession self around) (fun _ => InTx node node.committed)
      (Untouched node) := by
  rintro session rfl
  unfold beginSession
  cases around.fails .begin with
  | true => rfl
  | false => exact ⟨rfl, rfl⟩

/-! ### The events -/

variable {position : Nat}

theorem spec_upsertEvent : Spec (Holding node high) (upsertEvent codec self around position event)
      (fun _ session => ∃ db, applyUpsert codec high.db event = .ok db ∧ Holding node { high with db } session)
      (Untouched node) := by
  apply spec_checked
  intro cols mapped
  cases empty : cols.isEmpty with
  | true =>
    apply spec_pure
    intro session holding
    exact ⟨high.db, by rw [applyUpsert, mapped]; exact if_pos empty, holding⟩
  | false =>
    apply spec_checked
    intro _ safe
    apply spec_checked
    intro key named
    apply spec_bind (spec_highQuery fun high => high.db.ownedFields event.table key)
    intro _
    apply spec_assume
    rintro rfl
    apply spec_bind spec_userStatement
    intro _
    apply spec_weaken (spec_highStatement fun high => { high with db := high.db.markLowOrigin event key })
    intro _ session holding
    refine ⟨_, ?_, holding⟩
    rw [refuseIf_ok] at safe
    rw [applyUpsert, mapped]
    change (if cols.isEmpty = true then _ else _) = _
    rw [empty, if_neg (by decide), safe, if_neg (by decide), named]
    rfl

theorem spec_deleteEvent : Spec (Holding node high) (deleteEvent codec self around position event)
      (fun _ session => ∃ db, applyDelete codec high.db event = .ok db ∧ Holding node { high with db } session)
      (Untouched node) := by
  apply spec_checked
  intro _ keyed
  apply spec_checked
  intro _ safe
  apply spec_checked
  intro _ bounds
  apply spec_bind spec_userStatement
  intro _
  apply spec_checked
  intro key named
  apply spec_weaken (spec_highStatement fun high =>
    { high with db := { high.db with provenance := high.db.provenance.shiftRemove (event.table, key) } })
  intro _ session holding
  refine ⟨_, ?_, holding⟩
  rw [refuseIf_ok] at keyed safe
  rw [applyDelete, keyed, if_neg (by decide), safe, if_neg (by decide), bounds, named]
  rfl

/-- The loop applies the events as `applyEvents` does, each in its place. -/
theorem spec_applyEventsFrom : Spec (Holding node high) (applyEventsFrom codec self around position stats events)
      (fun _ session => ∃ db, applyEvents codec high.db events = .ok db ∧ Holding node { high with db } session)
      (Untouched node) := by
  induction events generalizing position stats high with
  | nil =>
    apply spec_pure
    intro session holding
    exact ⟨high.db, rfl, holding⟩
  | cons event events ih =>
    apply spec_checked
    intro _ valid
    have step : ∀ {db next}, applyEvent codec high.db event = .ok next → applyEvents codec next events = .ok db →
        applyEvents codec high.db (event :: events) = .ok db := by
      intro db next applied rest
      rw [applyEvents, List.foldlM_cons, applied]
      exact rest
    cases kind : event.operation with
    | upsert =>
      apply spec_bind spec_upsertEvent
      intro _
      apply spec_exists
      intro next
      apply spec_assume
      intro upserted
      apply spec_weaken ih
      rintro _ session ⟨db, rest, holding⟩
      refine ⟨db, step ?_ rest, holding⟩
      rw [applyEvent, valid, kind]
      exact upserted
    | delete =>
      apply spec_bind spec_deleteEvent
      intro _
      apply spec_exists
      intro next
      apply spec_assume
      intro deleted
      apply spec_weaken ih
      rintro _ session ⟨db, rest, holding⟩
      refine ⟨db, step ?_ rest, holding⟩
      rw [applyEvent, valid, kind]
      exact deleted

theorem spec_applyEventsOf : Spec (Holding node high) (applyEventsOf codec self around bundle)
      (fun _ session => ∃ db, applyEvents codec high.db bundle.events = .ok db ∧ Holding node { high with db } session)
      (Untouched node) := by
  apply spec_checked
  intro _ _
  exact spec_applyEventsFrom

/-! ### The inbox and the bookkeeping -/

/-- A bundle that is registered already leaves the copy as it is; another one is
entered as `registerReceived` does. -/
theorem spec_registerBundle : Spec (InTx node store) (registerBundle codec around bundle) (fun isNew session =>
        if isNew then ∃ high, registerReceived codec store.high bundle = .ok (high, true) ∧ Holding node high session
        else registerReceived codec store.high bundle = .ok (store.high, false) ∧ InTx node store session)
      (Untouched node) := by
  apply spec_bind (spec_ofExcept fun _ inTx => inTx.1)
  intro _
  apply spec_assume
  intro valid
  apply spec_bind spec_query
  intro found
  apply spec_assume
  intro foundIs
  cases found with
  | true =>
    apply spec_pure
    intro session inTx
    refine ⟨?_, inTx⟩
    rw [registerReceived, valid]
    exact if_pos foundIs.symm
  | false =>
    intro session inTx
    have holding : Holding node store.high session := ⟨store, rfl, inTx⟩
    revert holding
    apply spec_bind (spec_highStatement fun high =>
      { high with
        inbox := high.inbox ++ [⟨bundle.bundleId, bundle.streamId, bundle.sequenceFirst, bundle.sequenceLast, none⟩] })
    intro _
    apply spec_bind (spec_highStatement fun high =>
      { high with streams := high.streams.upsert bundle.streamId (noteRange bundle) })
    intro _
    apply spec_pure
    intro session holding
    refine ⟨_, ?_, holding⟩
    rw [registerReceived, valid]
    exact if_neg (by rw [← foundIs]; decide)

theorem spec_insertGaps {versions : RangeInclusiveSet} :
    Spec (Holding node high) (insertGaps around versions) (fun _ => Holding node high) (Untouched node) := by
  rintro session ⟨store, rfl, same, working⟩
  unfold insertGaps
  rw [working]
  cases session.writer with
  | none => exact same
  | some _ =>
    dsimp only
    cases around.fails .gaps with
    | true => exact same
    | false =>
      cases BookedVersions.executeChanges _ _ store.db.tables with
      | error _ => exact same
      | ok _ =>
        refine ⟨_, ?_, same, rfl⟩
        rfl

theorem spec_captureLow :
    Spec (Holding node high) (captureLow codec low self around dbVersion) (fun _ => Holding node high)
      (Untouched node) := by
  rintro session ⟨store, rfl, same, working⟩
  unfold captureLow
  rw [working]
  cases low with
  | none => exact ⟨store, rfl, same, working⟩
  | some _ =>
    refine ⟨_, ?_, same, rfl⟩
    rfl

theorem spec_peekVersion (untouched : ∀ session, pre session → session.toHighNode = node) :
    Spec pre (peekVersion self around) (fun _ => pre) (Untouched node) := by
  intro session holds
  unfold peekVersion
  cases around.fails .peek with
  | true => exact untouched session holds
  | false => exact holds

theorem spec_insertBundleChanges :
    Spec (Holding node high) (insertBundleChanges codec low self around) (fun _ => Holding node high)
      (Untouched node) := by
  apply spec_bind (spec_peekVersion fun _ => holding_untouched)
  intro _
  apply spec_exists
  intro store
  apply spec_assume
  rintro rfl
  apply spec_bind spec_query
  intro info
  apply spec_assume
  intro _
  cases info.1 with
  | none =>
    apply spec_pure
    intro session inTx
    exact ⟨store, rfl, inTx⟩
  | some _ =>
    intro session inTx
    have holding : Holding node store.high session := ⟨store, rfl, inTx⟩
    revert holding
    apply spec_bind spec_insertGaps
    intro _
    apply spec_bind spec_captureLow
    intro _
    exact spec_pure fun _ holding => holding

/-! ### The call -/

/-- The bundle of a call is new, and this is what the link has after it. -/
def Applied (codec : Codec) (bundle : Bundle) (manifestName : String) (before after : High) : Prop :=
  ∃ registered, registerReceived codec before bundle = .ok (registered, true) ∧
    ∃ db, applyEvents codec registered.db bundle.events = .ok db ∧
      after = { registered with db := db, inbox := registered.inbox.map (setDetail manifestName bundle.bundleId) }

/-- The bundle of a call is registered already. -/
def Registered (codec : Codec) (bundle : Bundle) (high : High) : Prop :=
  registerReceived codec high bundle = .ok (high, false)

theorem spec_applyNew (entered : registerReceived codec before bundle = .ok (high, true)) :
    Spec (Holding node high) (applyNew codec low self around bundle manifestName)
      (fun prepared session => prepared.1.isSome = true ∧
        ∃ after, Applied codec bundle manifestName before after ∧ Holding node after session) (Untouched node) := by
  apply spec_bind spec_applyEventsOf
  intro _
  apply spec_exists
  intro db
  apply spec_assume
  intro applied
  apply spec_bind (spec_highStatement fun high =>
    { high with inbox := high.inbox.map (setDetail manifestName bundle.bundleId) })
  intro _
  apply spec_bind spec_insertBundleChanges
  intro _
  apply spec_pure
  intro session holding
  exact ⟨rfl, _, ⟨high, entered, db, applied, rfl⟩, holding⟩

theorem spec_prepareBundle :
    Spec (fun session => session.toHighNode = node) (prepareBundle codec low self around bundle manifestName)
      (fun prepared session =>
        (prepared = (none, none) ∧ Registered codec bundle node.committed.high ∧ InTx node node.committed session) ∨
        (prepared.1.isSome = true ∧
          ∃ after, Applied codec bundle manifestName node.committed.high after ∧ Holding node after session))
      (Untouched node) := by
  apply spec_bind spec_beginSession
  intro _
  apply spec_bind spec_registerBundle
  intro isNew
  cases isNew with
  | true =>
    apply spec_exists
    intro high
    apply spec_assume
    intro entered
    apply spec_weaken (spec_applyNew entered)
    intro prepared session done
    exact .inr done
  | false =>
    apply spec_assume
    intro known
    apply spec_pure
    intro session inTx
    exact .inl ⟨rfl, known, inTx⟩

theorem spec_commitTransaction : Spec (InTx node store) (commitTransaction around)
      (fun _ session => session.committed = store ∧ session.published = node.published ∧
        session.broadcasts = node.broadcasts) (Untouched node) := by
  rintro session ⟨rfl, working⟩
  unfold commitTransaction
  rw [working]
  cases around.fails .commit with
  | true => rfl
  | false => exact ⟨rfl, rfl, rfl⟩

/-- Nothing fails after the commit. -/
theorem spec_publish :
    Spec (fun session => session.committed = store) (publish self info) (fun _ session => session.committed = store)
      (Untouched node) := by
  rintro session rfl
  unfold publish
  cases session.writer with
  | none => rfl
  | some _ => rfl

theorem spec_finishBundle (prepared : Option ApplyStats × Option InsertChangesInfo) :
    Spec (fun session => session.committed = store ∧ session.published = node.published ∧
        session.broadcasts = node.broadcasts) (finishBundle self prepared)
      (fun stats session => stats = prepared.1 ∧ session.committed = store ∧
        (prepared.2 = none → session.published = node.published ∧ session.broadcasts = node.broadcasts))
      (Untouched node) := by
  unfold finishBundle
  cases prepared.2 with
  | none => exact spec_pure fun session after => ⟨rfl, after.1, fun _ => after.2⟩
  | some _ =>
    rintro session ⟨committed, -⟩
    revert committed
    apply spec_bind spec_publish
    intro _
    apply spec_pure
    intro session committed
    refine ⟨rfl, committed, fun absent => ?_⟩
    cases absent

theorem spec_bundleProgram :
    Spec (fun session => session.toHighNode = node) (bundleProgram codec low self around bundle manifestName)
      (fun stats session =>
        (stats = none ∧ Registered codec bundle node.committed.high ∧ session.toHighNode = node) ∨
        (stats.isSome = true ∧ Applied codec bundle manifestName node.committed.high session.committed.high))
      (Untouched node) := by
  apply spec_bind spec_prepareBundle
  rintro prepared session (⟨rfl, known, inTx⟩ | ⟨new, _, applied, _, rfl, inTx⟩)
  · revert inTx
    apply spec_bind spec_commitTransaction
    intro _
    apply spec_weaken (spec_finishBundle (none, none))
    rintro stats ⟨⟨committed, _, _⟩, _, _, _⟩ ⟨rfl, rfl, rest⟩
    obtain ⟨rfl, rfl⟩ := rest rfl
    exact .inl ⟨rfl, known, rfl⟩
  · revert inTx
    apply spec_bind spec_commitTransaction
    intro _
    apply spec_weaken (spec_finishBundle prepared)
    rintro stats session ⟨rfl, rfl, -⟩
    exact .inr ⟨new, applied⟩

/-- The three ways in which a call ends. -/
theorem processBundle_cases :
    (∃ error, processBundle codec low self around node bundle manifestName = (.error error, node)) ∨
    (processBundle codec low self around node bundle manifestName = (.ok none, node) ∧
      Registered codec bundle node.committed.high) ∨
    ∃ stats after, processBundle codec low self around node bundle manifestName = (.ok (some stats), after) ∧
      Applied codec bundle manifestName node.committed.high after.committed.high := by
  unfold processBundle
  cases ran : bundleProgram codec low self around bundle manifestName ⟨node, none, [], none⟩ with
  | error error session =>
    have same := spec_error spec_bundleProgram rfl ran
    exact .inl ⟨error, congrArg (Prod.mk _) same⟩
  | ok stats session =>
    obtain ⟨rfl, known, same⟩ | ⟨new, applied⟩ := spec_ok spec_bundleProgram rfl ran
    · exact .inr (.inl ⟨congrArg (Prod.mk _) same, known⟩)
    · obtain ⟨stats, rfl⟩ := Option.isSome_iff_exists.mp new
      exact .inr (.inr ⟨stats, session.toHighNode, rfl, applied⟩)

/-! ### The received bundles -/

theorem registerReceived_ok {registered : High}
    (entered : registerReceived codec high bundle = .ok (registered, isNew)) : bundle.validate codec = .ok () ∧
      (isNew = false ↔ ∃ row ∈ high.inbox, row.bundleId = bundle.bundleId) ∧
      ∀ row ∈ high.inbox, row ∈ registered.inbox := by
  obtain ⟨valid, rest⟩ := unit_bind_ok.mp entered
  refine ⟨valid, ?_⟩
  split at rest
  · rename_i found
    cases rest
    exact ⟨⟨fun _ => by simpa using found, fun _ => rfl⟩, fun row listed => listed⟩
  · rename_i absent
    cases rest
    refine ⟨⟨fun same => ?_, fun found => ?_⟩, fun row listed => List.mem_append_left _ listed⟩
    · cases same
    · exact absurd (by simpa using found) absent

theorem registered_iff : Registered codec bundle high ↔
      bundle.validate codec = .ok () ∧ ∃ row ∈ high.inbox, row.bundleId = bundle.bundleId := by
  constructor
  · intro registered
    obtain ⟨valid, known, -⟩ := registerReceived_ok registered
    exact ⟨valid, known.mp rfl⟩
  · rintro ⟨valid, found⟩
    rw [Registered, registerReceived, valid]
    exact if_pos (by simpa using found)

theorem bundleId_setDetail (manifest bundleId : String) (row : InboxRow) :
    (setDetail manifest bundleId row).bundleId = row.bundleId := by
  unfold setDetail
  split
  · rfl
  · rfl

/-- An applied bundle is registered, and so are those before it. -/
theorem Applied.registered {after : High} (applied : Applied codec bundle manifestName before after) :
    Registered codec bundle after ∧ ∀ other, Registered codec other before → Registered codec other after := by
  obtain ⟨registered, entered, db, -, rfl⟩ := applied
  obtain ⟨valid, _, kept⟩ := registerReceived_ok entered
  have listed : ∀ id : String, (∃ row ∈ registered.inbox, row.bundleId = id) →
      ∃ row ∈ registered.inbox.map (setDetail manifestName bundle.bundleId), row.bundleId = id := by
    rintro id ⟨row, member, rfl⟩
    exact ⟨_, List.mem_map.mpr ⟨row, member, rfl⟩, bundleId_setDetail _ _ row⟩
  constructor
  · refine registered_iff.mpr ⟨valid, listed _ ?_⟩
    rw [registerReceived, valid] at entered
    split at entered
    · cases entered
    · cases entered
      exact ⟨_, List.mem_append_right _ (List.mem_singleton.mpr rfl), rfl⟩
  · intro other earlier
    obtain ⟨otherValid, row, member, same⟩ := registered_iff.mp earlier
    exact registered_iff.mpr ⟨otherValid, listed _ ⟨row, kept row member, same⟩⟩

/-- The call refines the receiver's account of it. -/
theorem Applied.processIncomingBundle {after : High} (applied : Applied codec bundle manifestName before after) :
    HighLow.processIncomingBundle codec (smoothly manifestName "") before bundle = .ok after := by
  obtain ⟨registered, entered, db, events, rfl⟩ := applied
  have valid := (registerReceived_ok entered).1
  have loop : applyBundle codec (fun _ => false) registered.db bundle = .ok db := by
    refine unit_bind_ok.mpr ⟨valid, ?_⟩
    rw [← events, applyEvents]
    congr 1
    funext db event
    cases applyEvent codec db event with
    | error _ => rfl
    | ok _ => rfl
  refine unit_bind_ok.mpr ⟨rfl, bind_ok_iff.mpr ⟨_, entered, bind_ok_iff.mpr ⟨_, ?_, rfl⟩⟩⟩
  change (applyBundle codec (fun _ => false) registered.db bundle).map _ = _
  rw [loop]
  rfl

/-! ### Many calls -/

/-- A call of `process_incoming_bundle`. -/
structure Call (engine : CrSqlite) where
  around : Surroundings engine
  bundle : Bundle
  manifestName : String

def processAll (codec : Codec) (low : Option LowConfig) (self : ActorId) (node : HighNode engine)
    (calls : List (Call engine)) : HighNode engine :=
  calls.foldl (fun node call => (processBundle codec low self call.around node call.bundle call.manifestName).2) node

/-- The calls that return `Ok(Some(stats))`, each from the node the calls before it leave. -/
def appliedCalls (codec : Codec) (low : Option LowConfig) (self : ActorId) (node : HighNode engine) :
    List (Call engine) → List (Call engine)
  | [] => []
  | call :: calls =>
    match processBundle codec low self call.around node call.bundle call.manifestName with
    | (.ok (some _), after) => call :: appliedCalls codec low self after calls
    | (_, after) => appliedCalls codec low self after calls

/-- A run of calls does to the link what the receiver's account says of exactly those that return
`Ok(Some(stats))`, in their order: the others, which fail or bring a bundle again, leave no trace. -/
theorem calls_refine_receiver (codec : Codec) (low : Option LowConfig) (self : ActorId) (node : HighNode engine)
    (calls : List (Call engine)) : (appliedCalls codec low self node calls).foldlM
        (fun high call => HighLow.processIncomingBundle codec (smoothly call.manifestName "") high call.bundle)
        node.committed.high = .ok (processAll codec low self node calls).committed.high := by
  induction calls generalizing node with
  | nil => rfl
  | cons call calls ih =>
    rw [appliedCalls, processAll, List.foldl_cons]
    obtain ⟨_, same⟩ | ⟨same, -⟩ | ⟨_, after, same, applied⟩ :=
      @processBundle_cases _ codec low self call.around node call.bundle call.manifestName
    · rw [same]
      exact ih node
    · rw [same]
      exact ih node
    · rw [same, List.foldlM_cons, applied.processIncomingBundle]
      exact ih after

theorem registered_processBundle (earlier : Registered codec other node.committed.high) :
    Registered codec other (processBundle codec low self around node bundle manifestName).2.committed.high := by
  obtain ⟨_, result⟩ | ⟨result, -⟩ | ⟨_, _, result, applied⟩ :=
    @processBundle_cases _ codec low self around node bundle manifestName
  · rw [result]
    exact earlier
  · rw [result]
    exact earlier
  · rw [result]
    exact applied.registered.2 other earlier

theorem registered_processAll (calls : List (Call engine)) (earlier : Registered codec bundle node.committed.high) :
    Registered codec bundle (processAll codec low self node calls).committed.high := by
  induction calls generalizing node with
  | nil => exact earlier
  | cons _ calls ih => exact ih (registered_processBundle earlier)

/-- A call for a registered bundle changes nothing. -/
theorem processBundle_of_registered (known : Registered codec bundle node.committed.high) :
    (processBundle codec low self around node bundle manifestName).2 = node ∧
      ∀ stats, (processBundle codec low self around node bundle manifestName).1 = .ok stats → stats = none := by
  obtain ⟨_, result⟩ | ⟨result, -⟩ | ⟨stats, _, result, _, entered, -⟩ :=
    @processBundle_cases _ codec low self around node bundle manifestName
  · rw [result]
    refine ⟨rfl, fun stats ok => ?_⟩
    cases ok
  · rw [result]
    refine ⟨rfl, fun stats ok => ?_⟩
    cases ok
    rfl
  · rw [Registered, entered] at known
    cases known

/-- A call that fails leaves the database, the published bookkeeping and the
broadcasts as they were, wherever it fails; and after a call that succeeded, and
any other calls, another one for the same bundle changes none of them. -/
theorem bundle_applied_once (codec : Codec) (low : Option LowConfig) (self : ActorId) (around : Surroundings engine)
    (node : HighNode engine) (bundle : Bundle) (manifestName : String) :
    (∀ error, (processBundle codec low self around node bundle manifestName).1 = .error error →
      (processBundle codec low self around node bundle manifestName).2 = node) ∧
    ∀ stats, (processBundle codec low self around node bundle manifestName).1 = .ok stats → ∀ calls again otherName,
        let later := processAll codec low self (processBundle codec low self around node bundle manifestName).2 calls
        (processBundle codec low self again later bundle otherName).2 = later ∧
          ∀ stats, (processBundle codec low self again later bundle otherName).1 = .ok stats → stats = none := by
  obtain ⟨error, result⟩ | ⟨result, known⟩ | ⟨stats, _, result, applied⟩ :=
    @processBundle_cases _ codec low self around node bundle manifestName
  · rw [result]
    refine ⟨fun _ _ => rfl, fun stats ok => ?_⟩
    cases ok
  · rw [result]
    refine ⟨fun _ _ => rfl, fun stats _ calls again otherName => ?_⟩
    exact processBundle_of_registered (registered_processAll calls known)
  · rw [result]
    refine ⟨fun _ failed => ?_, fun _ _ calls again otherName => ?_⟩
    · cases failed
    · exact processBundle_of_registered (registered_processAll calls applied.registered.1)

/-! ### One user -/

def newUser : Bundle where
  format := bundleFormat
  bundleId := "first"
  streamId := "low"
  sequenceFirst := 1
  sequenceLast := 1
  schemaHash := "schema"
  replay := false
  events := [⟨"low", 1, "tx", "users", [("id", .integer 1)], .upsert, [⟨"name", .text "Ada"⟩], "actor", 0⟩]

/-- The statement of an event sets one cell; failures are as given. -/
def usersAround (fails : Point → Bool) : Surroundings Lww.engine where
  fails := fails
  reason := "disk I/O error"
  writes := fun events => ⟨0, events.map fun event => (event.table, [1], "name", .text "Ada")⟩
  leftover := id
  capture := ⟨false, false, false, fun _ => false⟩
  nowMs := 0
  clock := 0

def emptyHigh : HighNode Lww.engine := ⟨⟨⟨⟨∅, ∅⟩, [], ∅⟩, ⟨Lww.empty, ∅, ∅⟩, []⟩, ∅, []⟩

/-- A bundle is applied once; a failure on the way leaves nothing. -/
theorem new_user_once :
    (processBundle plainCodec none 1 (usersAround fun _ => false) emptyHigh newUser "manifest").1 = .ok (some ⟨1, 0⟩) ∧
    (processBundle plainCodec none 1 (usersAround fun _ => false) emptyHigh newUser "manifest").2.broadcasts.length =
      1 ∧
    (processBundle plainCodec none 1 (usersAround fun point => point = .provenance 0) emptyHigh newUser "manifest").2 =
      emptyHigh ∧ (processBundle plainCodec none 1 (usersAround fun _ => false)
        (processBundle plainCodec none 1 (usersAround fun _ => false) emptyHigh newUser "manifest").2 newUser
          "manifest").2 =
      (processBundle plainCodec none 1 (usersAround fun _ => false) emptyHigh newUser "manifest").2 := by
  refine ⟨rfl, rfl, ?_, ?_⟩
  · exact (bundle_applied_once plainCodec none 1 (usersAround fun point => point = .provenance 0) emptyHigh newUser
      "manifest").1 _ rfl
  · exact ((bundle_applied_once plainCodec none 1 (usersAround fun _ => false) emptyHigh newUser "manifest").2
      (some ⟨1, 0⟩) rfl [] (usersAround fun _ => false) "manifest").1

end Galvanize.HighLow
