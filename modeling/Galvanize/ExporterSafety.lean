import Galvanize.CaptureAtomicity
import Galvanize.Exporter

/-! The exporter through failures and crashes. The exported rows are a part of
the journal from its start, each of them in a bundle whose two files are in
place; and no later upload touches the files of a bundle that is marked, because
their names are taken in the outbox. -/
namespace Galvanize.HighLow
open List

variable {codec : Codec} {sealer : Sealer} {low : LowConfig} {journal later : List JournalRow} {node : LowNode}
  {count start : Nat} {events : List Event} {bundle : Bundle} {artifacts : Artifacts}

/-! ### The journal -/

/-- The rows of the one stream, numbered from one. -/
def Numbered (low : LowConfig) (journal : List JournalRow) : Prop :=
  ∀ (i : Nat) row, journal[i]? = some row →
    row.streamId = low.streamId ∧ row.sequence = i + 1 ∧ row.event.streamId = low.streamId ∧ row.event.sequence = i + 1

/-- The first `count` rows are exported, and no other. -/
def ExportedUpTo (journal : List JournalRow) (count : Nat) : Prop :=
  count ≤ journal.length ∧ ∀ (i : Nat) row, journal[i]? = some row → (row.exported = true ↔ i < count)

/-- The events are what is read back from the rows after the first `start`. -/
def Excerpt (codec : Codec) (journal : List JournalRow) (start : Nat) (events : List Event) : Prop :=
  ∀ (i : Nat) event, events[i]? = some event →
    ∃ row, journal[start + i]? = some row ∧ row.event.reread codec = .ok event

/-- Rows stay where they are with their events. -/
def Grows (journal later : List JournalRow) : Prop :=
  ∀ (i : Nat) row, journal[i]? = some row → ∃ next, later[i]? = some next ∧ next.event = row.event

theorem Excerpt.grows (grows : Grows journal later) (excerpt : Excerpt codec journal start events) :
    Excerpt codec later start events := by
  intro i event listed
  obtain ⟨row, found, read⟩ := excerpt i event listed
  obtain ⟨next, held, same⟩ := grows (start + i) row found
  exact ⟨next, held, by rw [same, read]⟩

variable {row : JournalRow} {i : Nat} {sequence : Int}

theorem getElem?_journalRows
    {rows : List (WrittenVersion × (String × List UInt8) × List Change)}
    (found : (journalRows codec low sequence rows)[i]? = some row) :
    row.streamId = low.streamId ∧ row.sequence = sequence + i + 1 ∧ row.event.streamId = low.streamId ∧
      row.event.sequence = sequence + i + 1 ∧ row.exported = false := by
  induction rows generalizing sequence i with
  | nil => simp [journalRows] at found
  | cons _ rows ih =>
    cases i with
    | zero =>
      cases found
      exact ⟨rfl, by simp, rfl, by simp [captureEvent], rfl⟩
    | succ i =>
      obtain ⟨stream, _, own, _, new⟩ := ih found
      exact ⟨stream, by omega, own, by omega, new⟩

theorem Numbered.lastSequence_eq (numbered : Numbered low journal) :
    lastSequence low.streamId journal = journal.length := by
  induction journal using List.reverseRecOn with
  | nil => rfl
  | append_singleton journal row ih =>
    have before : Numbered low journal := by
      intro i other found
      apply numbered i other
      rw [List.getElem?_append_left (List.getElem?_eq_some_iff.mp found).1]
      exact found
    obtain ⟨stream, number, -, -⟩ := numbered journal.length row (by simp)
    rw [lastSequence_concat row stream (by rw [ih before, number]), number]
    simp

theorem Numbered.append (numbered : Numbered low journal)
    (taken : List (WrittenVersion × (String × List UInt8) × List Change)) :
    Numbered low (journal ++ journalRows codec low (lastSequence low.streamId journal) taken) := by
  intro i row found
  rw [getElem?_append] at found
  split at found
  case isTrue => exact numbered i row found
  case isFalse beyond =>
    obtain ⟨stream, number, own, same, -⟩ := getElem?_journalRows found
    rw [numbered.lastSequence_eq] at number same
    exact ⟨stream, by omega, own, by omega⟩

theorem ExportedUpTo.append (exported : ExportedUpTo journal count)
    (taken : List (WrittenVersion × (String × List UInt8) × List Change)) :
    ExportedUpTo (journal ++ journalRows codec low sequence taken) count := by
  have within := exported.1
  refine ⟨by rw [length_append]; omega, fun i row found => ?_⟩
  rw [getElem?_append] at found
  split at found
  case isTrue => exact exported.2 i row found
  case isFalse beyond =>
    obtain ⟨-, -, -, -, unexported⟩ := getElem?_journalRows found
    rw [unexported]
    simp only [Bool.false_eq_true, false_iff]
    omega

theorem grows_append (more : List JournalRow) : Grows journal (journal ++ more) := by
  intro i row found
  refine ⟨row, ?_, rfl⟩
  rw [List.getElem?_append_left (List.getElem?_eq_some_iff.mp found).1]
  exact found

/-! ### Selection -/

theorem pendingRows_eq (numbered : Numbered low journal) (exported : ExportedUpTo journal count) (maximum : Nat) :
    pendingRows low.streamId maximum journal = (journal.drop count).take maximum := by
  have kept : journal.filter (fun row => row.streamId = low.streamId && !row.exported) = journal.drop count := by
    nth_rewrite 1 [← take_append_drop count journal]
    rw [filter_append]
    have none : (journal.take count).filter (fun row => row.streamId = low.streamId && !row.exported) = [] := by
      apply filter_eq_nil_iff.mpr
      intro row member
      obtain ⟨i, found⟩ := mem_iff_getElem?.mp member
      rw [getElem?_take] at found
      split at found
      case isTrue small => simp [(exported.2 i row found).mpr small]
      case isFalse => cases found
    have all : (journal.drop count).filter (fun row => row.streamId = low.streamId && !row.exported) =
      journal.drop count := by
      apply filter_eq_self.mpr
      intro row member
      obtain ⟨i, found⟩ := mem_iff_getElem?.mp member
      rw [getElem?_drop] at found
      have unexported : ¬ row.exported = true := by
        rw [exported.2 (count + i) row found]
        omega
      simp [(numbered (count + i) row found).1, unexported]
    rw [none, all, nil_append]
  have sorted : (journal.drop count).Pairwise (fun row other => row.sequence ≤ other.sequence) := by
    apply pairwise_iff_getElem.mpr
    intro i j iBound jBound _
    have first := numbered (count + i) _ (by rw [← getElem?_drop, getElem?_eq_getElem iBound])
    have second := numbered (count + j) _ (by rw [← getElem?_drop, getElem?_eq_getElem jBound])
    omega
  rw [pendingRows, kept, List.Pairwise.insertionSort_eq sorted]

theorem pendingEvents_excerpt {maximum : Nat} (numbered : Numbered low journal) (exported : ExportedUpTo journal count)
    (selected : pendingEvents codec low.streamId maximum journal = .ok events) :
    Excerpt codec journal count events := by
  obtain ⟨-, -, read⟩ := bind_ok selected
  obtain ⟨found, listed, checked⟩ := bind_ok read
  have same : found = events := by
    rw [validatePending] at checked
    split at checked
    case isTrue =>
      cases checked
      rfl
    case isFalse =>
      obtain ⟨-, -, same⟩ := map_ok checked
      exact same
  rw [pendingRows_eq numbered exported, mapM_ok_iff, same] at listed
  intro i _ member
  obtain ⟨row, taken, reread⟩ := forall₂_getElem? listed member
  rw [getElem?_take] at taken
  split at taken
  case isTrue =>
    rw [getElem?_drop] at taken
    exact ⟨row, taken, reread⟩
  case isFalse => cases taken

theorem Event.reread_ids {event other : Event} (read : event.reread codec = .ok other) :
    other.streamId = event.streamId ∧ other.sequence = event.sequence := by
  rw [Event.reread] at read
  split at read
  · cases read
    exact ⟨rfl, rfl⟩
  · cases read

/-! ### Bundles -/

/-- A bundle of the events after the first `start`. -/
structure BundleOf (codec : Codec) (low : LowConfig) (journal : List JournalRow) (start : Nat) (bundle : Bundle) :
    Prop where
  excerpt : Excerpt codec journal start bundle.events
  nonempty : bundle.events ≠ []
  stream : bundle.streamId = low.streamId
  first : bundle.sequenceFirst = start + 1
  last : bundle.sequenceLast = start + bundle.events.length

theorem BundleOf.grows (grows : Grows journal later) (part : BundleOf codec low journal start bundle) :
    BundleOf codec low later start bundle :=
  { part with excerpt := part.excerpt.grows grows }

variable {schemaHash bundleId : String}

theorem Bundle.new_ok {replay : Bool} (made : Bundle.new codec bundleId events schemaHash replay = .ok bundle) :
    bundle.events = events ∧ ∃ first last, events.head? = some first ∧ events.getLast? = some last ∧
      bundle.streamId = first.streamId ∧ bundle.sequenceFirst = first.sequence ∧ bundle.sequenceLast =
        last.sequence := by
  obtain ⟨-, -, rest⟩ := bind_ok made
  obtain ⟨-, -, rest⟩ := bind_ok rest
  split at rest
  case h_1 first last isFirst isLast =>
    cases rest
    exact ⟨rfl, first, last, isFirst, isLast, rfl, rfl, rfl⟩
  case h_2 => cases rest

theorem sealEvents_bundle (numbered : Numbered low journal) (excerpt : Excerpt codec journal start events)
    (done : sealEvents codec sealer low.streamId bundleId schemaHash events = .ok artifacts) :
    BundleOf codec low journal start artifacts.bundle := by
  obtain ⟨bundle, made, rest⟩ := bind_ok done
  obtain ⟨-, -, rest⟩ := bind_ok rest
  have same : artifacts.bundle = bundle := by
    iterate 6 obtain ⟨-, -, rest⟩ := bind_ok rest
    cases rest
    rfl
  obtain ⟨rfl, _, _, isFirst, isLast, stream, _, _⟩ := Bundle.new_ok made
  have some : bundle.events ≠ [] := by
    intro none
    rw [none] at isFirst
    cases isFirst
  have size := length_pos_iff.mpr some
  rw [head?_eq_getElem?] at isFirst
  rw [getLast?_eq_getElem?] at isLast
  obtain ⟨_, firstFound, firstRead⟩ := excerpt _ _ isFirst
  obtain ⟨_, lastFound, lastRead⟩ := excerpt _ _ isLast
  obtain ⟨firstStream, _⟩ := Event.reread_ids firstRead
  obtain ⟨_, _⟩ := Event.reread_ids lastRead
  obtain ⟨-, -, firstOwn, _⟩ := numbered _ _ firstFound
  obtain ⟨-, -, _, _⟩ := numbered _ _ lastFound
  rw [same]
  exact ⟨excerpt, some, by rw [stream, firstStream, firstOwn], by omega, by omega⟩

/-! ### The invariant -/

/-- Both files of a bundle are in place under a name. -/
def LowNode.InPlace (node : LowNode) (name : String) (bundle : Bundle) : Prop :=
  node.payloads.get? name = some bundle ∧ node.manifests.get? name = some bundle

/-- A bundle that has been published in full. -/
def LowNode.Published (node : LowNode) (bundle : Bundle) : Prop := ∃ name, node.InPlace name bundle

/-- The id and the file name of some artifacts are not in the outbox, except in
their own row. -/
def Fresh (outbox : List OutboxRow) (artifacts : Artifacts) : Prop :=
  ∀ row ∈ outbox, row.bundleId = artifacts.bundle.bundleId ∨ row.payloadFilename = artifacts.payloadFilename →
    row = artifacts.outboxRow

/-- What a round of the exporter can rely on. -/
def PhaseSafe (codec : Codec) (low : LowConfig) (node : LowNode) (count : Nat) : Phase → Prop
  | .idle => True
  | .selected events _ => Excerpt codec node.journal count events
  | .sealed artifacts => BundleOf codec low node.journal count artifacts.bundle
  | .recorded artifacts => BundleOf codec low node.journal count artifacts.bundle ∧ Fresh node.outbox artifacts
  | .uploading artifacts =>
    BundleOf codec low node.journal count artifacts.bundle ∧ Fresh node.outbox artifacts ∧
      node.payloads.get? artifacts.payloadFilename = some artifacts.bundle
  | .published artifacts =>
    BundleOf codec low node.journal count artifacts.bundle ∧ Fresh node.outbox artifacts ∧
      node.InPlace artifacts.payloadFilename artifacts.bundle

structure Safe (codec : Codec) (low : LowConfig) (node : LowNode) (count : Nat) : Prop where
  numbered : Numbered low node.journal
  exported : ExportedUpTo node.journal count
  delivered : ∀ i < count, ∃ sent ∈ node.outbox, sent.uploaded = true ∧ ∃ bundle,
    node.InPlace sent.payloadFilename bundle ∧ bundle.sequenceFirst ≤ i + 1 ∧ (i + 1 : Int) ≤ bundle.sequenceLast
  parts : ∀ name bundle, node.payloads.get? name = some bundle →
    ∃ start ≤ count, BundleOf codec low node.journal start bundle
  phase : PhaseSafe codec low node count node.phase

theorem safe_new : Safe codec low LowNode.new 0 where
  numbered := by
    intro i row found
    cases found
  exported := by
    refine ⟨Nat.zero_le _, ?_⟩
    intro i row found
    cases found
  delivered := by
    intro i small
    cases small
  parts := by
    intro _ _ found
    cases found
  phase := trivial

/-- A round that ends leaves the rest as it is. -/
theorem Safe.idle (safe : Safe codec low node count) : Safe codec low { node with phase := .idle } count where
  numbered := safe.numbered
  exported := safe.exported
  delivered := safe.delivered
  parts := safe.parts
  phase := trivial

theorem PhaseSafe.grows {next : LowNode} (grows : Grows node.journal next.journal) (outbox : next.outbox = node.outbox)
    (payloads : next.payloads = node.payloads) (manifests : next.manifests = node.manifests)
    (safe : PhaseSafe codec low node count phase) : PhaseSafe codec low next count phase := by
  cases phase with
  | idle => trivial
  | selected _ _ => exact Excerpt.grows grows safe
  | sealed artifacts => exact BundleOf.grows grows safe
  | recorded artifacts => exact ⟨safe.1.grows grows, by rw [outbox]; exact safe.2⟩
  | uploading artifacts =>
    exact ⟨safe.1.grows grows, by rw [outbox]; exact safe.2.1, by rw [payloads]; exact safe.2.2⟩
  | published artifacts =>
    refine ⟨safe.1.grows grows, by rw [outbox]; exact safe.2.1, ?_⟩
    rw [LowNode.InPlace, payloads, manifests]
    exact safe.2.2

theorem Safe.append (safe : Safe codec low node count) (transaction : LowTransaction) :
    Safe codec low { node with journal := (transaction.outcome codec low node.journal).journal } count := by
  obtain ⟨taken, extended⟩ := @outcome_journal codec low node.journal transaction
  rw [extended]
  exact
    { numbered := safe.numbered.append taken
      exported := safe.exported.append taken
      delivered := safe.delivered
      parts := by
        intro name bundle found
        obtain ⟨start, before, part⟩ := safe.parts name bundle found
        exact ⟨start, before, part.grows (grows_append _)⟩
      phase := by
        refine PhaseSafe.grows ?_ ?_ ?_ ?_ safe.phase
        · exact grows_append _
        all_goals rfl }

theorem Safe.select (safe : Safe codec low node count) (schemaHash : String) :
    Safe codec low (node.select codec low schemaHash) count := by
  rw [LowNode.select]
  split
  · exact safe
  case h_2 events _ selected =>
    exact { safe with phase := pendingEvents_excerpt safe.numbered safe.exported selected }
  · exact safe

theorem Safe.sealSelected (safe : Safe codec low node count) (bundleId : String)
    (excerpt : Excerpt codec node.journal count events) :
    Safe codec low (node.sealSelected codec sealer low events schemaHash bundleId) count := by
  rw [LowNode.sealSelected]
  split
  case h_1 artifacts done => exact { safe with phase := sealEvents_bundle safe.numbered excerpt done }
  case h_2 => exact safe.idle

variable {outbox : List OutboxRow}

theorem recordOutbox_ok {next : List OutboxRow} (recorded : recordOutbox outbox artifacts = .ok next) :
    next = outbox ++ [artifacts.outboxRow] ∧
      ∀ row ∈ outbox, row.bundleId ≠ artifacts.bundle.bundleId ∧ row.payloadFilename ≠ artifacts.payloadFilename := by
  obtain ⟨-, -, rest⟩ := bind_ok recorded
  obtain ⟨-, -, rest⟩ := bind_ok rest
  obtain ⟨_, new, rest⟩ := bind_ok rest
  cases rest
  refine ⟨rfl, fun row member => ?_⟩
  have free := any_eq_false.mp (refuseIf_ok.mp new) row member
  simpa [not_or] using free

theorem Safe.record (safe : Safe codec low node count) (commits : Bool)
    (part : BundleOf codec low node.journal count artifacts.bundle) :
    Safe codec low (node.record artifacts commits) count := by
  unfold LowNode.record
  split
  case h_2 => exact safe.idle
  case h_1 next recorded =>
    obtain ⟨rfl, new⟩ := recordOutbox_ok recorded
    have kept : ∀ row ∈ node.outbox, row ∈ if commits then node.outbox ++ [artifacts.outboxRow] else node.outbox := by
      intro row member
      split
      · exact mem_append_left _ member
      · exact member
    have fresh : Fresh (if commits then node.outbox ++ [artifacts.outboxRow] else node.outbox) artifacts := by
      intro row member taken
      have listed : row ∈ node.outbox ++ [artifacts.outboxRow] := by
        split at member
        · exact member
        · exact mem_append_left _ member
      rcases mem_append.mp listed with old | own
      · obtain ⟨otherId, otherName⟩ := new row old
        rcases taken with same | same
        · exact absurd same otherId
        · exact absurd same otherName
      · exact mem_singleton.mp own
    exact
      { numbered := safe.numbered
        exported := safe.exported
        delivered := by
          intro i small
          obtain ⟨sent, member, uploaded, bundle, covered⟩ := safe.delivered i small
          exact ⟨sent, kept sent member, uploaded, bundle, covered⟩
        parts := safe.parts
        phase := ⟨part, fresh⟩ }

variable {sent : OutboxRow}

/-- A marked bundle does not share its file name with one that is under way. -/
theorem Fresh.apart (fresh : Fresh outbox artifacts) (member : sent ∈ outbox) (uploaded : sent.uploaded = true) :
    sent.payloadFilename ≠ artifacts.payloadFilename := by
  intro same
  rw [fresh sent member (.inr same)] at uploaded
  cases uploaded

section
variable (safe : Safe codec low node count) (part : BundleOf codec low node.journal count artifacts.bundle)
  (fresh : Fresh node.outbox artifacts)
include safe part fresh

theorem Safe.putPayload : Safe codec low (node.putPayload artifacts) count where
  numbered := safe.numbered
  exported := safe.exported
  delivered := by
    intro i small
    obtain ⟨sent, member, uploaded, bundle, inPlace, covered⟩ := safe.delivered i small
    refine ⟨sent, member, uploaded, bundle, ⟨?_, inPlace.2⟩, covered⟩
    rw [LowNode.putPayload, IndexMap.get?_upsert, if_neg (fresh.apart member uploaded)]
    exact inPlace.1
  parts := by
    intro name bundle found
    rw [LowNode.putPayload, IndexMap.get?_upsert] at found
    split at found
    · cases found
      exact ⟨count, Nat.le_refl count, part⟩
    · exact safe.parts name bundle found
  phase := by
    refine ⟨part, fresh, ?_⟩
    rw [LowNode.putPayload, IndexMap.get?_upsert, if_pos rfl]

theorem Safe.putManifest (payload : node.payloads.get? artifacts.payloadFilename = some artifacts.bundle) :
    Safe codec low (node.putManifest artifacts) count where
  numbered := safe.numbered
  exported := safe.exported
  delivered := by
    intro i small
    obtain ⟨sent, member, uploaded, bundle, inPlace, covered⟩ := safe.delivered i small
    refine ⟨sent, member, uploaded, bundle, ⟨inPlace.1, ?_⟩, covered⟩
    rw [LowNode.putManifest, IndexMap.get?_upsert, if_neg (fresh.apart member uploaded)]
    exact inPlace.2
  parts := safe.parts
  phase := by
    refine ⟨part, fresh, payload, ?_⟩
    rw [LowNode.putManifest, IndexMap.get?_upsert, if_pos rfl]

end

/-! ### The mark -/

theorem getElem?_markExported (found : (journal.map (JournalRow.markExported sent))[i]? = some row) :
    ∃ old, journal[i]? = some old ∧ row = old.markExported sent := by
  rw [getElem?_map] at found
  obtain ⟨old, held, rfl⟩ := Option.map_eq_some_iff.mp found
  exact ⟨old, held, rfl⟩

theorem markExported_fields (sent : OutboxRow) (row : JournalRow) :
    (row.markExported sent).streamId = row.streamId ∧ (row.markExported sent).sequence = row.sequence ∧
      (row.markExported sent).event = row.event := by
  rw [JournalRow.markExported]
  split <;> exact ⟨rfl, rfl, rfl⟩

theorem Numbered.mark (numbered : Numbered low journal) (sent : OutboxRow) :
    Numbered low (journal.map (JournalRow.markExported sent)) := by
  intro i _ found
  obtain ⟨old, held, rfl⟩ := getElem?_markExported found
  obtain ⟨stream, number, event⟩ := markExported_fields sent old
  rw [stream, number, event]
  exact numbered i old held

theorem grows_mark (sent : OutboxRow) : Grows journal (journal.map (JournalRow.markExported sent)) := by
  intro i row found
  refine ⟨row.markExported sent, ?_, (markExported_fields sent row).2.2⟩
  rw [getElem?_map, found, Option.map_some]

/-- The mark of the bundle after the exported rows moves their end to its end. -/
theorem ExportedUpTo.mark (numbered : Numbered low journal) (exported : ExportedUpTo journal count)
    (part : BundleOf codec low journal count artifacts.bundle) :
    ExportedUpTo (journal.map (JournalRow.markExported artifacts.outboxRow))
      (count + artifacts.bundle.events.length) := by
  have size := List.length_pos_iff.mpr part.nonempty
  have within : count + artifacts.bundle.events.length ≤ journal.length := by
    have last : artifacts.bundle.events.length - 1 < artifacts.bundle.events.length := by omega
    obtain ⟨row, found, -⟩ := part.excerpt _ _ (List.getElem?_eq_getElem last)
    have bound := (List.getElem?_eq_some_iff.mp found).1
    omega
  refine ⟨by rw [List.length_map]; exact within, fun i row found => ?_⟩
  obtain ⟨old, held, rfl⟩ := getElem?_markExported found
  obtain ⟨stream, _, -, -⟩ := numbered i old held
  have before := exported.2 i old held
  have opens := part.first
  have ends := part.last
  rw [JournalRow.markExported]
  split
  case isTrue inside =>
    simp only [Bool.and_eq_true, decide_eq_true_eq] at inside
    simp only [Artifacts.outboxRow] at inside
    simp only [true_iff]
    omega
  case isFalse outside =>
    simp only [Artifacts.outboxRow, stream, part.stream, decide_true, Bool.true_and, Bool.and_eq_true,
      decide_eq_true_eq, not_and] at outside
    rw [before]
    omega

theorem mem_upload (member : sent ∈ outbox) (uploaded : sent.uploaded = true ∨ sent.bundleId = bundleId) :
    ∃ row ∈ outbox.map (OutboxRow.upload bundleId), row.uploaded = true ∧
      row.payloadFilename = sent.payloadFilename := by
  refine ⟨sent.upload bundleId, mem_map.mpr ⟨sent, member, rfl⟩, ?_⟩
  rw [OutboxRow.upload]
  split
  case isTrue => exact ⟨rfl, rfl⟩
  case isFalse different => exact ⟨uploaded.resolve_right different, rfl⟩

theorem Safe.mark (safe : Safe codec low node count) (commits : Bool)
    (part : BundleOf codec low node.journal count artifacts.bundle) (fresh : Fresh node.outbox artifacts)
    (inPlace : node.InPlace artifacts.payloadFilename artifacts.bundle) :
    ∃ count, Safe codec low (node.mark artifacts commits) count := by
  rw [LowNode.mark, markUploaded]
  cases row : node.outbox.find? fun row => row.bundleId = artifacts.bundle.bundleId with
  | none => exact ⟨count, safe.idle⟩
  | some sent =>
    have listed := mem_of_find?_eq_some row
    have named : sent.bundleId = artifacts.bundle.bundleId := by simpa using find?_some row
    have own := fresh sent listed (.inl named)
    cases commits with
    | false => exact ⟨count, safe.idle⟩
    | true =>
      refine ⟨count + artifacts.bundle.events.length, ?_⟩
      exact
        { numbered := safe.numbered.mark sent
          exported := by
            rw [own]
            exact safe.exported.mark safe.numbered part
          delivered := by
            intro i _
            by_cases old : i < count
            · obtain ⟨_, member, uploaded, bundle, held, covered⟩ := safe.delivered i old
              obtain ⟨next, kept, marked, name⟩ := @mem_upload artifacts.bundle.bundleId _ _ member (.inl uploaded)
              exact ⟨next, kept, marked, bundle, by rw [name]; exact held, covered⟩
            · obtain ⟨next, kept, marked, name⟩ := mem_upload listed (.inr named)
              refine ⟨next, kept, marked, artifacts.bundle, ?_, ?_⟩
              · rw [name, own]
                exact inPlace
              · have opens := part.first
                have ends := part.last
                omega
          parts := by
            intro name bundle found
            obtain ⟨start, _, excerpt⟩ := safe.parts name bundle found
            exact ⟨start, by omega, excerpt.grows (grows_mark sent)⟩
          phase := trivial }

/-! ### Runs -/

theorem safe_step (safe : Safe codec low node count) (action : LowAction) :
    ∃ count, Safe codec low (node.step codec sealer low action) count := by
  have phase := safe.phase
  unfold LowNode.step
  split
  · exact ⟨count, safe.append _⟩
  · exact ⟨count, safe.idle⟩
  · exact ⟨count, safe.select _⟩
  case h_4 bundleId events schemaHash up =>
    rw [up] at phase
    exact ⟨count, safe.sealSelected bundleId phase⟩
  case h_5 commits artifacts up =>
    rw [up] at phase
    exact ⟨count, safe.record commits phase⟩
  case h_6 artifacts up =>
    rw [up] at phase
    exact ⟨count, safe.putPayload phase.1 phase.2⟩
  case h_7 artifacts up =>
    rw [up] at phase
    exact ⟨count, safe.putManifest phase.1 phase.2.1 phase.2.2⟩
  case h_8 commits artifacts up =>
    rw [up] at phase
    exact safe.mark commits phase.1 phase.2.1 phase.2.2
  · exact ⟨count, safe⟩

theorem safe_run (actions : List LowAction) : ∃ count, Safe codec low (LowNode.run codec sealer low actions) count := by
  induction actions using reverseRecOn with
  | nil => exact ⟨0, safe_new⟩
  | append_singleton actions action ih =>
    obtain ⟨count, safe⟩ := ih
    rw [LowNode.run, foldl_append]
    exact safe_step safe action

/-- A row's event is in a bundle. -/
def Carries (codec : Codec) (bundle : Bundle) (row : JournalRow) : Prop :=
  ∃ event ∈ bundle.events, event.streamId = row.streamId ∧ event.sequence = row.sequence ∧
    row.event.reread codec = .ok event

/-- A bundle carries the rows its numbers name. -/
theorem BundleOf.carries (numbered : Numbered low journal) (part : BundleOf codec low journal start bundle)
    (found : journal[i]? = some row) (above : start ≤ i) (below : i < start + bundle.events.length) :
    Carries codec bundle row := by
  have inside : i - start < bundle.events.length := by omega
  obtain ⟨_, same, read⟩ := part.excerpt (i - start) _ (getElem?_eq_getElem inside)
  rw [show start + (i - start) = i by omega, found] at same
  cases same
  obtain ⟨stream, sequence⟩ := Event.reread_ids read
  obtain ⟨own, number, eventOwn, eventNumber⟩ := numbered i row found
  exact ⟨_, getElem_mem inside, by rw [stream, eventOwn, own], by rw [sequence, eventNumber, number], read⟩

theorem Safe.part (safe : Safe codec low node count) (published : node.Published bundle) :
    ∃ start ≤ count, BundleOf codec low node.journal start bundle := by
  obtain ⟨name, payload, -⟩ := published
  exact safe.parts name bundle payload

theorem Safe.carried (safe : Safe codec low node count) (found : node.journal[i]? = some row)
    (small : i < count) : ∃ bundle, node.Published bundle ∧ Carries codec bundle row := by
  obtain ⟨sent, -, -, bundle, inPlace, _, _⟩ := safe.delivered i small
  have published : node.Published bundle := ⟨sent.payloadFilename, inPlace⟩
  obtain ⟨_, -, part⟩ := safe.part published
  have opens := part.first
  have ends := part.last
  exact ⟨bundle, published, part.carries safe.numbered found (by omega) (by omega)⟩

/-- The event of a number is the same in all bundles. -/
theorem BundleOf.same_event (numbered : Numbered low journal)
    (part : BundleOf codec low journal start bundle) (otherPart : BundleOf codec low journal begin other)
    (member : event ∈ bundle.events) (otherMember : same ∈ other.events) (equal : event.sequence = same.sequence) :
    event = same := by
  obtain ⟨i, listed⟩ := mem_iff_getElem?.mp member
  obtain ⟨j, otherListed⟩ := mem_iff_getElem?.mp otherMember
  obtain ⟨row, found, read⟩ := part.excerpt i event listed
  obtain ⟨otherRow, otherFound, otherRead⟩ := otherPart.excerpt j same otherListed
  obtain ⟨-, -, -, _⟩ := numbered _ row found
  obtain ⟨-, -, -, _⟩ := numbered _ otherRow otherFound
  have sequence := (Event.reread_ids read).2
  have otherSequence := (Event.reread_ids otherRead).2
  have position : start + i = begin + j := by omega
  rw [position, otherFound] at found
  cases found
  rw [read] at otherRead
  cases otherRead
  rfl

/-- After every run of a new node, with captures, failures and crashes at any
point: an exported event is in a bundle that has been published in full; an event
that is in none of these is still pending, and beyond all of them; and published
bundles agree on the event of a number. -/
theorem exported_events_published (codec : Codec) (sealer : Sealer) (low : LowConfig) (actions : List LowAction) :
    (∀ row ∈ (LowNode.run codec sealer low actions).journal, row.exported = true →
      ∃ bundle, (LowNode.run codec sealer low actions).Published bundle ∧ Carries codec bundle row) ∧
    (∀ row ∈ (LowNode.run codec sealer low actions).journal,
      (∃ bundle, (LowNode.run codec sealer low actions).Published bundle ∧ Carries codec bundle row) ∨
      (row.exported = false ∧
        ∀ bundle, (LowNode.run codec sealer low actions).Published bundle → bundle.sequenceLast < row.sequence)) ∧
    (∀ bundle other, (LowNode.run codec sealer low actions).Published bundle →
      (LowNode.run codec sealer low actions).Published other → bundle.streamId = other.streamId →
      ∀ event ∈ bundle.events, ∀ same ∈ other.events, event.sequence = same.sequence → event = same) := by
  obtain ⟨count, safe⟩ := @safe_run codec sealer low actions
  refine ⟨?_, ?_, ?_⟩
  · intro row member exported
    obtain ⟨i, found⟩ := mem_iff_getElem?.mp member
    exact safe.carried found ((safe.exported.2 i row found).mp exported)
  · intro row member
    obtain ⟨i, found⟩ := mem_iff_getElem?.mp member
    by_cases carried : ∃ bundle, (LowNode.run codec sealer low actions).Published bundle ∧ Carries codec bundle row
    · exact .inl carried
    · have beyond : ¬ i < count := fun small => carried (safe.carried found small)
      refine .inr ⟨?_, fun bundle published => ?_⟩
      · have pending : ¬ row.exported = true := fun exported => beyond ((safe.exported.2 i row found).mp exported)
        simpa using pending
      · obtain ⟨start, _, part⟩ := safe.part published
        have number := (safe.numbered i row found).2.1
        have ends := part.last
        have outside : ¬ i < start + bundle.events.length := fun inside =>
          carried ⟨bundle, published, part.carries safe.numbered found (by omega) inside⟩
        omega
  · intro bundle other published otherPublished _ event member same otherMember equal
    obtain ⟨start, -, part⟩ := safe.part published
    obtain ⟨_, -, otherPart⟩ := safe.part otherPublished
    exact part.same_event safe.numbered otherPart member otherMember equal

/-- Everything is small. -/
def lightSealer : Sealer := ⟨fun _ => 0, fun _ => 0, fun _ => 0, false⟩

/-- A write of two rows, and a round of the exporter. -/
def oneRound : List LowAction :=
  [.append (.localWrite { twoUsers with capture := ⟨false, false, false, fun _ => false⟩ }),
    .select "0000000000000000000000000000000000000000000000000000000000000000", .sealEvents "id",
      .record true, .putPayload, .putManifest, .mark true]

/-- Two users are journalled and published in one round. -/
theorem both_users_published : (LowNode.run plainCodec lightSealer usersLow oneRound).journal.length = 2 ∧
    ∀ row ∈ (LowNode.run plainCodec lightSealer usersLow oneRound).journal, row.exported = true ∧
      ∃ bundle, (LowNode.run plainCodec lightSealer usersLow oneRound).Published bundle ∧
        Carries plainCodec bundle row := by
  have all : (LowNode.run plainCodec lightSealer usersLow oneRound).journal.all JournalRow.exported = true := by decide
  refine ⟨by decide, fun row member => ?_⟩
  have exported := all_eq_true.mp all row member
  exact ⟨exported, (exported_events_published plainCodec lightSealer usersLow oneRound).1 row member exported⟩

end Galvanize.HighLow
