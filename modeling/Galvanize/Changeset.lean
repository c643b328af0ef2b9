import Galvanize.BaseTypes
import Galvanize.IndexMap

/-! `corro-types/src/change.rs` and `corro-types/src/broadcast.rs`: the changes
that travel between nodes and what can be asked of a changeset. -/
namespace Galvanize

inductive SqliteValue where
  | null
  | integer (value : Int)
  /-- The bits of the double. -/
  | real (bits : UInt64)
  | text (value : String)
  | blob (bytes : List UInt8)
deriving DecidableEq

def SqliteValue.estimatedByteSize (self : SqliteValue) : Nat :=
  1 + match self with
    | null => 1
    | integer _ => 8
    | real _ => 8
    | text value => 4 + value.utf8ByteSize
    | blob bytes => 4 + bytes.length

/-- A row of `crsql_changes`: the last write of one cell. -/
structure Change where
  table : String
  pk : List UInt8
  cid : String
  val : SqliteValue
  colVersion : Int
  dbVersion : Nat
  seq : Nat
  siteId : ActorId
  cl : Int
deriving DecidableEq

def Change.isOf (self : Change) (table : String) (pk : List UInt8) : Bool := self.table = table ∧ self.pk = pk

/-- `estimated_column_byte_size`: the column and its `col_version`, `seq`, `cl`. -/
def Change.estimatedColumnByteSize (self : Change) : Nat :=
  self.cid.utf8ByteSize + self.val.estimatedByteSize + 8 + 8 + 8

/-- What remains of a change under its table and primary key. -/
structure ColumnChange where
  cid : String
  val : SqliteValue
  colVersion : Int
  seq : Nat
  cl : Int
deriving DecidableEq

def Change.column (self : Change) : ColumnChange := ⟨self.cid, self.val, self.colVersion, self.seq, self.cl⟩

/-- What a subscription matches by. -/
structure MatchableChange where
  table : String
  pk : List UInt8
  column : String
  cl : Int

def Change.matchable (self : Change) : MatchableChange := ⟨self.table, self.pk, self.cid, self.cl⟩

abbrev ChangesetPerTablePk := IndexMap (List UInt8) (List ColumnChange)

/-- `ChangesetPerTable`: the changes of one version, grouped. -/
abbrev ChangesetPerTable := IndexMap String ChangesetPerTablePk

namespace ChangesetPerTable

/-- `insert`: the grouped changes and the estimated size the change adds. -/
def insert (self : ChangesetPerTable) (change : Change) : ChangesetPerTable × Nat :=
  let perTable := ((self.entries.find? (fun entry => entry.1 = change.table)).map Prod.snd).getD ∅
  let cost := change.estimatedColumnByteSize +
    (if self.containsKey change.table then 0 else change.table.utf8ByteSize) +
    (if perTable.containsKey change.pk then 0 else change.pk.length)
  (self.upsert change.table (fun held =>
    (held.getD ∅).upsert change.pk (fun columns => columns.getD [] ++ [change.column])), cost)

/-- The changes of one primary key, with the columns the grouping left out. -/
def columnRows (table : String) (pk : List UInt8) (version : Nat) (siteId : ActorId)
    (columns : List ColumnChange) : List Change :=
  columns.map (fun c => ⟨table, pk, c.cid, c.val, c.colVersion, version, c.seq, siteId, c.cl⟩)

/-- Ungroup: table by table, key by key. -/
def rows (self : ChangesetPerTable) (version : Nat) (siteId : ActorId) : List Change :=
  self.entries.flatMap (fun (table, perPk) =>
    perPk.entries.flatMap (fun (pk, columns) => columnRows table pk version siteId columns))

@[simp] theorem rows_empty {version : Nat} : rows ∅ version siteId = [] := rfl

/-- The rows of one table and primary key stay in the order of their insertion. -/
theorem filter_rows_insert {change : Change} {version : Nat} {table : String} :
    ((insert self change).1.rows version siteId).filter (·.isOf table pk) =
      (self.rows version siteId).filter (·.isOf table pk) ++
      [{ change with dbVersion := version, siteId }].filter (·.isOf table pk) := by
  have elsewhere : ∀ (other : String) (key : List UInt8) (columns : List ColumnChange), ¬ (other = table ∧ key = pk) →
      (columnRows other key version siteId columns).filter (·.isOf table pk) = [] := by
    intro other key columns different
    simpa [columnRows, Change.isOf] using fun _ _ => not_and.mp different
  have only : [{ change with dbVersion := version, siteId }].filter (·.isOf table pk) = [] ∨
      change.table = table ∧ change.pk = pk := by
    by_cases same : change.table = table ∧ change.pk = pk
    · exact .inr same
    · exact .inl (by simpa [Change.isOf] using same)
  simp only [rows, List.filter_flatMap]
  refine @flatMap_upsertEntry _ _ _ change.table _ self.entries _ (fun other (perPk : ChangesetPerTablePk) =>
    perPk.entries.flatMap fun entry => (columnRows other entry.1 version siteId entry.2).filter (·.isOf table pk)) _
    self.distinct (fun held => ?_) (only.imp_right fun same other different perPk => ?_)
  · refine (@flatMap_upsertEntry _ _ _ change.pk (fun columns => columns.getD [] ++ [change.column])
      (held.getD ∅).entries _
      (fun key columns => (columnRows change.table key version siteId columns).filter (·.isOf table pk)) _
      (held.getD ∅).distinct (fun columns => ?_) (only.imp_right fun same other different columns => ?_)).trans ?_
    · cases columns <;> simp [columnRows, Change.column]
    · exact elsewhere _ _ _ fun equal => different (equal.2.trans same.2.symm)
    · cases held <;> rfl
  · rw [List.flatMap_eq_nil_iff]
    exact fun entry _ => elsewhere _ _ _ fun equal => different (equal.1.trans same.1.symm)

/-- `matchable_changes`. -/
def matchableChanges (self : ChangesetPerTable) : List MatchableChange :=
  self.entries.flatMap fun (table, perPk) =>
    perPk.entries.flatMap fun (pk, columns) => columns.map fun c => ⟨table, pk, c.cid, c.cl⟩

end ChangesetPerTable

inductive Changeset where
  | empty (versions : CrsqlDbVersionRange) (ts : Option Timestamp)
  | full (version : Nat) (changes : List Change) (seqs : CrsqlSeqRange) (lastSeq : Nat)
      (ts : Timestamp)
  | emptySet (versions : List CrsqlDbVersionRange) (ts : Timestamp)
  | fullV2 (actorId : ActorId) (version : Nat) (changes : ChangesetPerTable) (lastSeq : Nat)
      (seqs : CrsqlSeqRange) (ts : Timestamp)
deriving DecidableEq

structure ChangesetParts where
  version : Nat
  changes : List Change
  seqs : CrsqlSeqRange
  lastSeq : Nat
  ts : Timestamp

namespace Changeset

/-- `versions`: an `EmptySet` answers with the dummy range `0..=0`. -/
def versions : Changeset → CrsqlDbVersionRange
  | empty versions _ => versions
  | emptySet _ _ => .single 0
  | full version _ _ _ _ => .single version
  | fullV2 _ version _ _ _ _ => .single version

def seqs : Changeset → Option CrsqlSeqRange
  | empty _ _ => none
  | emptySet _ _ => none
  | full _ _ seqs _ _ => some seqs
  | fullV2 _ _ _ _ seqs _ => some seqs

def lastSeq : Changeset → Option Nat
  | empty _ _ => none
  | emptySet _ _ => none
  | full _ _ _ lastSeq _ => some lastSeq
  | fullV2 _ _ _ lastSeq _ _ => some lastSeq

/-- `is_complete`: the seqs run from zero to the last one. -/
def isComplete : Changeset → Bool
  | empty _ _ => true
  | emptySet _ _ => true
  | full _ _ seqs lastSeq _ => seqs.start == 0 && seqs.stop == lastSeq
  | fullV2 _ _ _ lastSeq seqs _ => seqs.start == 0 && seqs.stop == lastSeq

def isEmpty : Changeset → Bool
  | empty _ _ => true
  | emptySet _ _ => true
  | full _ changes _ _ _ => changes.isEmpty
  | fullV2 _ _ changes _ _ _ => changes.isEmpty

/-- `len`: how many changes a changeset carries. -/
def len : Changeset → Nat
  | empty _ _ => 0
  | emptySet versions _ => versions.length
  | full _ changes _ _ _ => changes.length
  | fullV2 _ _ changes _ _ _ =>
    (changes.entries.flatMap (fun (_, perPk) => perPk.entries.flatMap Prod.snd)).length

/-- `processing_cost`: the estimated work of a change, where a range of cleared
versions counts for twenty at most. -/
def processingCost (self : Changeset) : Nat :=
  match self with
  | empty versions _ => min versions.len 20
  | emptySet versions _ => versions.foldl (fun cost versions => cost + min versions.len 20) 0
  | full _ changes _ _ _ => changes.length
  | fullV2 _ _ _ _ _ _ => self.len

/-- `into_parts`: the changes of a `FullV2` are those of its own actor and version. -/
def intoParts : Changeset → Option ChangesetParts
  | empty _ _ => none
  | emptySet _ _ => none
  | full version changes seqs lastSeq ts => some ⟨version, changes, seqs, lastSeq, ts⟩
  | fullV2 actorId version changes lastSeq seqs ts =>
    some ⟨version, changes.rows version actorId, seqs, lastSeq, ts⟩

def matchableChanges : Changeset → List MatchableChange
  | full _ changes _ _ _ => changes.map Change.matchable
  | fullV2 _ _ changes _ _ _ => changes.matchableChanges
  | empty _ _ | emptySet _ _ => []

end Changeset

/-- `ChangeV1`: a changeset and the actor it comes from. -/
structure ChangeV1 where
  actorId : ActorId
  changeset : Changeset
deriving DecidableEq

inductive ChangeValidationError where
  | invertedVersions (start stop : Nat)
  | invertedSeqs (start stop : Nat)
deriving DecidableEq

def ChangeValidationError.message : ChangeValidationError → String
  | invertedVersions start stop =>
    s!"invalid changeset version range: start {start} is greater than end {stop}"
  | invertedSeqs start stop =>
    s!"invalid changeset sequence range: start {start} is greater than end {stop}"

namespace ChangeV1
variable (self : ChangeV1)

def versions : CrsqlDbVersionRange := self.changeset.versions

def seqs : Option CrsqlSeqRange := self.changeset.seqs

def isComplete : Bool := self.changeset.isComplete

def isEmpty : Bool := self.changeset.isEmpty

def processingCost : Nat := self.changeset.processingCost

def validateVersions (versions : CrsqlDbVersionRange) : Except ChangeValidationError Unit :=
  if versions.start > versions.stop then .error (.invertedVersions versions.start versions.stop)
  else .ok ()

def validateSeqs (seqs : CrsqlSeqRange) : Except ChangeValidationError Unit :=
  if seqs.start > seqs.stop then .error (.invertedSeqs seqs.start seqs.stop) else .ok ()

/-- `validate`, which every change read from the wire has passed. -/
def validate : Except ChangeValidationError Unit :=
  match self.changeset with
  | .empty versions _ => validateVersions versions
  | .emptySet versions _ => versions.forM validateVersions
  | .full _ _ seqs _ _ => validateSeqs seqs
  | .fullV2 _ _ _ _ seqs _ => validateSeqs seqs

theorem validate_versions {change : ChangeV1} (valid : change.validate = .ok ()) :
    change.versions.start ≤ change.versions.stop := by
  obtain ⟨_, changeset⟩ := change
  cases changeset with
  | empty versions ts =>
    simp only [validate, validateVersions] at valid
    split at valid
    · cases valid
    · rename_i upright
      exact Nat.not_lt.mp upright
  | emptySet versions ts | full version changes seqs lastSeq ts
  | fullV2 _ version changes lastSeq seqs ts => exact le_rfl

theorem validate_seqs {change : ChangeV1} {seqs : CrsqlSeqRange} (valid : change.validate = .ok ())
    (has : change.seqs = some seqs) : seqs.start ≤ seqs.stop := by
  obtain ⟨_, changeset⟩ := change
  have upright : ∀ given : CrsqlSeqRange, validateSeqs given = .ok () → given.start ≤ given.stop := by
    intro given ok
    simp only [validateSeqs] at ok
    split at ok
    · cases ok
    · rename_i notAbove
      exact Nat.not_lt.mp notAbove
  cases changeset with
  | empty versions ts => cases has
  | emptySet versions ts => cases has
  | full version changes given lastSeq ts | fullV2 actor version changes lastSeq given ts =>
    cases has
    exact upright _ valid

end ChangeV1

end Galvanize
