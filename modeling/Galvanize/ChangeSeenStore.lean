import Galvanize.WireFormat

/-! The store of the changes that were seen (`corro-agent/src/plumtree/mod.rs`), as the
Plumtree protocol asks it about the ids in its messages. The seqs of a version are kept in
an interval set, which does not take an inverted range: the insertion panics. -/
namespace Galvanize

inductive Panicked where
  /-- Range start can not be after range end. -/
  | invertedRange
deriving DecidableEq

/-- `RangeInclusiveSet::insert`. -/
def RangeInclusiveSet.tryInsert (set : RangeInclusiveSet) (range : RangeInclusive) :
    Except Panicked RangeInclusiveSet :=
  if range.start ≤ range.stop then .ok (set.insert range) else .error .invertedRange

structure SeenEntry where
  seqs : Option RangeInclusiveSet
  lastSeq : Option Nat
  /-- A `u32`, which wraps in a release build. -/
  duplicateCount : UInt32

structure ChangeSeenStore where
  entries : IndexMap (ActorId × Nat) SeenEntry
  maxEntries : Nat
  bookie : Bookie

namespace ChangeSeenStore

def new (maxEntries : Nat) (bookie : Bookie) : ChangeSeenStore := ⟨∅, maxEntries, bookie⟩

variable (self : ChangeSeenStore) (id : ChangeId) (entries : IndexMap (ActorId × Nat) SeenEntry)

def containsBooked : Bool :=
  match self.bookie[id.actorId]? with
  | none => false
  | some booked =>
    match id.changesetId with
    | .full version seqs _ => booked.contains version (some seqs)
    | .empty versions => versions.toList.all fun version => booked.contains version none

def hasCacheEntry : Bool :=
  match id.changesetId with
  | .full version _ _ => self.entries.containsKey (id.actorId, version)
  | .empty versions => versions.toList.any fun version => self.entries.containsKey (id.actorId, version)

/-- One more of what was seen before. -/
def countDuplicate (key : ActorId × Nat) (entry : SeenEntry) :
    Option UInt32 × IndexMap (ActorId × Nat) SeenEntry :=
  (some (entry.duplicateCount + 1),
    entries.upsert key fun _ => { entry with duplicateCount := entry.duplicateCount + 1 })

/-- `observe` for some seqs of a version. -/
def observeFull (key : ActorId × Nat) (seqs : CrsqlSeqRange) (lastSeq : Nat) :
    Except Panicked (Option UInt32 × IndexMap (ActorId × Nat) SeenEntry) :=
  match entries.get? key with
  | none => (RangeInclusiveSet.tryInsert ∅ seqs).map fun incoming => (none,
    entries.upsert key fun _ => ⟨some incoming, some lastSeq, 0⟩)
  | some entry =>
    match entry.seqs with
    | none => .ok (countDuplicate entries key entry)
    | some stored =>
      if (stored.gaps seqs).isEmpty then
        -- a partial change never causes a prune while the rest is on its way
        .ok (if (stored.gaps ⟨0, lastSeq⟩).isEmpty then countDuplicate entries key entry else (some 0, entries))
      else (stored.tryInsert seqs).map fun more => (none, entries.upsert key fun _ => { entry with seqs := some more })

/-- `observe` for one of the versions of an empty changeset. -/
def observeEmptied (actor : ActorId) (held : List UInt32 × IndexMap (ActorId × Nat) SeenEntry) (version : Nat) :
    List UInt32 × IndexMap (ActorId × Nat) SeenEntry :=
  match held.2.get? (actor, version) with
  | some entry =>
    (held.1 ++ [entry.duplicateCount + 1],
      held.2.upsert (actor, version) fun _ =>
        { entry with lastSeq := none, duplicateCount := entry.duplicateCount + 1 })
  | none => (held.1 ++ [0], held.2.upsert (actor, version) fun _ => ⟨none, none, 0⟩)

def observeEmpty (actor : ActorId) (versions : CrsqlDbVersionRange) :
    Option UInt32 × IndexMap (ActorId × Nat) SeenEntry :=
  let (counts, entries) := versions.toList.foldl (observeEmptied actor) ([], entries)
  let minSeen := counts.min?.getD 0
  (if minSeen = 0 then none else some minSeen, entries)

/-- What was applied already counts as seen, so that it is not delivered again. A change
with an entry of its own is answered by it. -/
def observed (result : Option UInt32 × IndexMap (ActorId × Nat) SeenEntry) :
    Option UInt32 × ChangeSeenStore :=
  (if !self.hasCacheEntry id && self.containsBooked id then some 0 else result.1, { self with entries := result.2 })

/-- Notes a change, with how often it came before. -/
def observe : Except Panicked (Option UInt32 × ChangeSeenStore) :=
  match id.changesetId with
  | .full version seqs lastSeq => (observeFull self.entries (id.actorId, version) seqs lastSeq).map (self.observed id)
  | .empty versions => .ok (self.observed id (observeEmpty self.entries id.actorId versions))

/-- What `handle_gossip` asks of the store, if the message is from another node. -/
def observeGossip (localId : ActorId) (payload : PlumtreePayload) :
    Except Panicked (Option UInt32 × ChangeSeenStore) :=
  if payload.id.actorId = localId then .ok (none, self) else self.observe payload.id

end ChangeSeenStore
end Galvanize
