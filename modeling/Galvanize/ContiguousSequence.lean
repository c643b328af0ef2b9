import Galvanize.BundleAtomicity

/-! What High notes of the bundles it has received (`register_received`), and the sequence
up to which there is no gap. -/
namespace Galvanize.HighLow

variable {codec : Codec} {high : High} {bundle : Bundle}

/-- `register_received` in a transaction, which is rolled back when it fails. -/
def register (codec : Codec) (high : High) (bundle : Bundle) : High :=
  match registerReceived codec high bundle with
  | .ok (next, _) => next
  | .error _ => high

/-- A registered bundle of the stream holds the sequence number. -/
def High.Has (high : High) (streamId : String) (sequence : Int) : Prop :=
  ∃ row ∈ high.inbox, row.streamId = streamId ∧ row.sequenceFirst ≤ sequence ∧ sequence ≤ row.sequenceLast

/-- Every stream of the inbox has a row, in which the contiguous sequence is still zero. -/
def Untracked (high : High) : Prop :=
  (∀ streamId row, high.streams.get? streamId = some row → row.highestContiguous = 0) ∧
  ∀ row ∈ high.inbox, high.streams.get? row.streamId ≠ none

theorem register_known (known : ∃ row ∈ high.inbox, row.bundleId = bundle.bundleId) :
    register codec high bundle = high := by
  unfold register registerReceived
  cases bundle.validate codec with
  | error _ => rfl
  | ok _ =>
    have found : (high.inbox.any fun row => row.bundleId = bundle.bundleId) = true := by simpa using known
    simp [bind, Except.bind, found]

theorem untracked_register (untracked : Untracked high) : Untracked (register codec high bundle) := by
  unfold register registerReceived
  cases bundle.validate codec with
  | error _ => exact untracked
  | ok _ =>
    simp only [bind, Except.bind]
    split_ifs
    · exact untracked
    · constructor <;> simp only [IndexMap.get?_upsert] <;> grind [Untracked]

/-- Whatever bundles are registered one after the other, `highest_contiguous_sequence` is
the end of what was received without a gap, and a bundle registered again changes nothing,
exactly as long as the first number of the stream is not there. -/
theorem contiguous_tracked_iff (codec : Codec) (db : HighDb) (bundles : List Bundle) (streamId : String) :
    let high := bundles.foldl (register codec) ⟨db, [], ∅⟩
    ((∀ row, high.streams.get? streamId = some row → 0 ≤ row.highestContiguous ∧
      ¬high.Has streamId (row.highestContiguous + 1) ∧
        ∀ sequence, 1 ≤ sequence → sequence ≤ row.highestContiguous → high.Has streamId sequence) ∧
      ∀ bundle, (∃ row ∈ high.inbox, row.bundleId = bundle.bundleId) → register codec high bundle = high) ↔
    ¬high.Has streamId 1 := by
  intro high
  obtain ⟨zero, streams⟩ : Untracked high := by
    refine List.foldlRecOn bundles (register codec) ?_ fun _ untracked _ _ => untracked_register untracked
    simp [Untracked, IndexMap.get?]
  constructor
  · rintro ⟨contiguous, -⟩ first
    obtain ⟨entry, listed, own, -⟩ := id first
    obtain ⟨row, held⟩ := Option.ne_none_iff_exists'.mp (streams entry listed)
    rw [own] at held
    exact (contiguous row held).2.1 (zero streamId row held ▸ first)
  · refine fun none => ⟨fun row held => ?_, fun bundle => register_known⟩
    rw [zero streamId row held]
    exact ⟨Int.le_refl 0, none, fun sequence low high => by omega⟩

/-- The first bundle of a stream holds its first number, and the row says zero. -/
theorem first_bundle_not_contiguous :
    let high := register plainCodec ⟨⟨∅, ∅⟩, [], ∅⟩ newUser
    high.streams.get? "low" = some ⟨1, 0⟩ ∧ high.inbox = [⟨"first", "low", 1, 1, none⟩] := by
  decide +kernel

end Galvanize.HighLow
