import Galvanize.Changeset

/-! `ChunkedChanges` (`corro-types/src/change.rs`): the rows of a version in the
order of their seqs, cut into changesets of bounded size whose seq ranges follow
one another. -/
namespace Galvanize
open List

/-- `MAX_CHANGES_BYTE_SIZE` -/
def maxChangesByteSize : Nat := 8 * 1024

/-- A row that SQLite fails to step to or that does not convert. -/
inductive RowError where
  | unreadable
deriving DecidableEq

structure ChunkedChanges where
  /-- The rows not yet read. -/
  iter : List (Except RowError Change)
  changes : ChangesetPerTable
  lastPushedSeq : Nat
  lastStartSeq : Nat
  lastSeq : Nat
  maxBufSize : Nat
  bufferedSize : Nat
  done : Bool

namespace ChunkedChanges

def new (iter : List (Except RowError Change)) (startSeq lastSeq maxBufSize : Nat) : ChunkedChanges where
  iter
  changes := ∅
  lastPushedSeq := 0
  lastStartSeq := startSeq
  lastSeq
  maxBufSize
  bufferedSize := 0
  done := false

variable (self : ChunkedChanges)

def setMaxBufSize (size : Nat) : ChunkedChanges := { self with maxBufSize := size }

abbrev Item := Except RowError (ChangesetPerTable × CrsqlSeqRange)

/-- After the loop of `next`: whatever is buffered goes with the rest of the range. -/
def finish : Option Item × ChunkedChanges :=
  (some (.ok (self.changes, ⟨self.lastStartSeq, self.lastSeq⟩)), { self with done := true })

/-- The loop of `next`, over the rows still to be read. -/
def pushRows (self : ChunkedChanges) : List (Except RowError Change) → Option Item × ChunkedChanges
  | [] => { self with iter := [] }.finish
  | .error e :: rest => (some (.error e), { self with iter := rest })
  | .ok change :: rest =>
    let (changes, size) := self.changes.insert change
    let self := { self with
      iter := rest, changes, lastPushedSeq := change.seq, bufferedSize := self.bufferedSize + size }
    if self.lastPushedSeq = self.lastSeq then self.finish
    else if self.bufferedSize ≥ self.maxBufSize then
      if rest.isEmpty then self.finish
      else (some (.ok (self.changes, ⟨self.lastStartSeq, self.lastPushedSeq⟩)),
        { self with changes := ∅, lastStartSeq := self.lastPushedSeq + 1 })
    else self.pushRows rest

def next : Option Item × ChunkedChanges :=
  if self.done then (none, self)
  else { self with bufferedSize := 0 }.pushRows self.iter

/-! ### What a chunk holds -/

/-- The rows of one chunk, grouped. -/
def gathered (taken : List Change) : ChangesetPerTable := taken.foldl (fun held change => (held.insert change).1) ∅

theorem gathered_concat {change : Change} : gathered (taken ++ [change]) = ((gathered taken).insert change).1 := by
  simp [gathered]

/-- Grouping loses nothing but the version and the site. -/
theorem filter_rows_gathered {version : Nat} {table : String} :
    ((gathered taken).rows version siteId).filter (·.isOf table pk) =
      (taken.filter (·.isOf table pk)).map fun change => { change with dbVersion := version, siteId } := by
  induction taken using reverseRecOn with
  | nil => rfl
  | append_singleton _ change ih =>
    rw [gathered_concat, ChangesetPerTable.filter_rows_insert, ih, filter_append, map_append, filter_singleton,
      filter_singleton, Change.isOf, Change.isOf]
    cases decide (change.table = table ∧ change.pk = pk) <;> rfl

theorem mem_rows_gathered {version : Nat} : row ∈ (gathered taken).rows version siteId ↔
      ∃ change ∈ taken, row = { change with dbVersion := version, siteId } := by
  have listed : row ∈ (gathered taken).rows version siteId ↔
      row ∈ ((gathered taken).rows version siteId).filter (·.isOf row.table row.pk) := by
    simp [Change.isOf]
  rw [listed, filter_rows_gathered, mem_map]
  constructor
  · rintro ⟨change, taken, rfl⟩
    exact ⟨change, (mem_filter.mp taken).1, rfl⟩
  · rintro ⟨change, taken, rfl⟩
    exact ⟨change, mem_filter.mpr ⟨taken, by simp [Change.isOf]⟩, rfl⟩

theorem gathered_isEmpty : (gathered taken).isEmpty = taken.isEmpty := by
  induction taken using reverseRecOn with
  | nil => rfl
  | append_singleton _ _ ih =>
    rw [gathered_concat, ChangesetPerTable.insert, IndexMap.upsert_isEmpty]
    simp

/-- What a call of `next` between two chunks can do. -/
inductive Turn (self : ChunkedChanges) : Option Item × ChunkedChanges → Prop where
  | spent (done : self.done = true) : Turn self (none, self)
  | last (taken : List Change) (rest : List (Except RowError Change)) (after : ChunkedChanges)
      (rows : self.iter = taken.map .ok ++ rest)
      (ended : rest = [] ∨ ∃ change ∈ taken, change.seq = self.lastSeq)
      (done : after.done = true) :
      Turn self (some (.ok (gathered taken, ⟨self.lastStartSeq, self.lastSeq⟩)), after)
  | chunk (taken : List Change) (final : Change) (rest : List (Except RowError Change))
      (after : ChunkedChanges) (rows : self.iter = (taken ++ [final]).map .ok ++ rest)
      (more : rest ≠ []) (left : after.iter = rest) (drained : after.changes = ∅)
      (open_ : after.done = false) (start : after.lastStartSeq = final.seq + 1)
      (stop : after.lastSeq = self.lastSeq) :
      Turn self (some (.ok (gathered (taken ++ [final]), ⟨self.lastStartSeq, final.seq⟩)), after)
  | failed (taken : List Change) (rest : List (Except RowError Change)) (e : RowError)
      (after : ChunkedChanges) (rows : self.iter = taken.map .ok ++ .error e :: rest) :
      Turn self (some (.error e), after)

/-- The loop, in the middle of a chunk that started with `taken`. -/
private theorem pushRows_turn {origin self : ChunkedChanges} {taken : List Change}
    {rows : List (Except RowError Change)} (split : origin.iter = taken.map .ok ++ rows)
    (held : self.changes = gathered taken) (start : self.lastStartSeq = origin.lastStartSeq)
    (stop : self.lastSeq = origin.lastSeq) (open_ : self.done = false) : Turn origin (self.pushRows rows) := by
  induction rows generalizing self taken with
  | nil =>
    simp only [pushRows, finish, held, start, stop]
    exact .last taken [] _ split (.inl rfl) rfl
  | cons first rest ih =>
    cases first with
    | error e => exact .failed taken rest e _ split
    | ok change =>
      have longer : origin.iter = (taken ++ [change]).map .ok ++ rest := by simp [split]
      have grown : (self.changes.insert change).1 = gathered (taken ++ [change]) := by
        rw [gathered_concat, held]
      simp only [pushRows]
      split
      · rename_i reached
        simp only [finish, grown, start, stop]
        exact .last _ rest _ longer (.inr ⟨change, by simp, reached.trans stop⟩) rfl
      · split
        · split
          · rename_i none_
            simp only [finish, grown, start, stop]
            exact .last _ rest _ longer (.inl (isEmpty_iff.mp none_)) rfl
          · rename_i more
            simp only [grown, start]
            exact .chunk taken change rest _ longer (fun none_ => more (by simp [none_])) rfl rfl open_ rfl stop
        · exact ih longer grown start stop open_

theorem next_turn {self : ChunkedChanges} (drained : self.done = false → self.changes = ∅) : Turn self self.next := by
  rw [next]
  cases done : self.done with
  | true => exact .spent done
  | false => exact @pushRows_turn self _ [] _ rfl (drained done) rfl rfl rfl

/-! ### All chunks of a version -/

/-- The chunks one after the other, with the limit that is set before each step; `none` if
the iteration has not ended after all of them. -/
def collect (self : ChunkedChanges) : (limits : List Nat) → Option (List Item)
  | [] => none
  | limit :: limits =>
    match (self.setMaxBufSize limit).next with
    | (none, _) => some []
    | (some item, after) => (after.collect limits).map (item :: ·)

/-- Ranges that are not empty and follow one another from the start to the stop. -/
def Tiles (start stop : Nat) : List CrsqlSeqRange → Prop
  | [] => False
  | r :: rest => r.start = start ∧ r.start ≤ r.stop ∧ (rest = [] ∧ r.stop = stop ∨ Tiles (r.stop + 1) stop rest)

/-- The changes each chunk is made of, with its range. -/
structure Chunks (changes : List Change) (start stop : Nat) (chunks : List (List Change × CrsqlSeqRange)) : Prop where
  tiles : Tiles start stop (chunks.map Prod.snd)
  changes : chunks.flatMap Prod.fst = changes
  inside : ∀ chunk ∈ chunks, ∀ change ∈ chunk.1, change.seq ∈ chunk.2

theorem split_ok {changes taken : List Change} {rest : List (Except RowError Change)}
    (split : changes.map .ok = taken.map .ok ++ rest) : ∃ more, changes = taken ++ more ∧ rest = more.map .ok := by
  obtain ⟨_, more, rfl, same, rfl⟩ := map_eq_append_iff.mp split
  have isFront := map_injective_iff.mpr (fun _ _ => Except.ok.inj) same
  exact ⟨more, by rw [isFront], rfl⟩

theorem collect_chunks {self : ChunkedChanges} {changes : List Change} {limits : List Nat} (open_ : self.done = false)
    (drained : self.changes = ∅) (rows : self.iter = changes.map .ok)
    (ascending : changes.Pairwise fun a b => a.seq < b.seq)
    (within : ∀ change ∈ changes, self.lastStartSeq ≤ change.seq ∧ change.seq ≤ self.lastSeq)
    (ordered : self.lastStartSeq ≤ self.lastSeq) (enough : changes.length + 2 ≤ limits.length) :
    ∃ chunks, self.collect limits = some (chunks.map fun chunk => .ok (gathered chunk.1, chunk.2)) ∧
      Chunks changes self.lastStartSeq self.lastSeq chunks := by
  induction limits generalizing self changes with
  | nil => cases enough
  | cons limit limits ih =>
    have turn := @next_turn (self.setMaxBufSize limit) fun _ => drained
    rw [collect]
    generalize (self.setMaxBufSize limit).next = result at turn
    cases turn with
    | spent done => cases open_.symm.trans done
    | last taken rest after split ended done =>
      obtain ⟨more, rfl, rfl⟩ := split_ok (rows.symm.trans split)
      have isAll : more = [] := by
        rcases ended with none | ⟨change, listed, isLast⟩
        · exact map_eq_nil_iff.mp none
        · -- a change after the last seq would be outside
          refine eq_nil_iff_forall_not_mem.mpr fun other later => ?_
          have greater := (pairwise_append.mp ascending).2.2 change listed other later
          have inside := (within other (mem_append_right _ later)).2
          change change.seq = self.lastSeq at isLast
          omega
      subst isAll
      rw [append_nil] at within ⊢
      obtain ⟨second, others, rfl⟩ := exists_cons_of_length_pos (l := limits) (by simp at enough; omega)
      have ends : after.collect (second :: others) = some [] := by
        rw [collect, next, if_pos (by exact done)]
      refine ⟨[(taken, ⟨self.lastStartSeq, self.lastSeq⟩)], ?_, ⟨rfl, ordered, .inl ⟨rfl, rfl⟩⟩, append_nil taken, ?_⟩
      · dsimp only
        rw [ends]
        rfl
      · simpa [RangeInclusive.mem_mk] using within
    | chunk taken final rest after split more left drained open_ start stop =>
      obtain ⟨others, rfl, rfl⟩ := split_ok (rows.symm.trans split)
      obtain ⟨front, later, apart⟩ := pairwise_append.mp ascending
      have own := within final (by simp)
      have after_ : ∀ change ∈ others, final.seq + 1 ≤ change.seq ∧ change.seq ≤ self.lastSeq := by
        intro change listed
        exact ⟨apart final (by simp) change listed, (within change (mem_append_right _ listed)).2⟩
      obtain ⟨next, isNext⟩ := exists_mem_of_ne_nil others (by simpa using more)
      change after.lastSeq = self.lastSeq at stop
      obtain ⟨chunks, collected, rest⟩ := @ih after others open_ drained left later (by rw [start, stop]; exact after_)
        (by have := after_ next isNext; omega) (by simp at enough; omega)
      rw [start, stop] at rest
      refine ⟨(taken ++ [final], ⟨self.lastStartSeq, final.seq⟩) :: chunks, ?_, ⟨rfl, own.1, .inr rest.tiles⟩, ?_, ?_⟩
      · dsimp only
        rw [collected]
        rfl
      · rw [flatMap_cons, rest.changes]
      · refine forall_mem_cons.mpr ⟨fun change listed => ?_, rest.inside⟩
        rcases mem_append.mp listed with earlier | isFinal
        · have less := (pairwise_append.mp front).2.2 change earlier final (mem_singleton_self final)
          exact ⟨(within change (mem_append_left _ listed)).1, Nat.le_of_lt less⟩
        · rw [mem_singleton.mp isFinal]
          exact ⟨own.1, le_rfl⟩
    | failed taken rest e after split =>
      obtain ⟨more, -, no⟩ := split_ok (rows.symm.trans split)
      cases more <;> cases no

/-- The chunks of a version tile its range and take its changes one after the other; in a
chunk the changes are grouped, in their order for each table and primary key. -/
theorem chunks_tile_changes (changes : List Change) (startSeq lastSeq maxBufSize : Nat) (limits : List Nat)
    (ascending : changes.Pairwise fun a b => a.seq < b.seq)
    (within : ∀ change ∈ changes, startSeq ≤ change.seq ∧ change.seq ≤ lastSeq) (ordered : startSeq ≤ lastSeq)
    (enough : changes.length + 2 ≤ limits.length) :
    ∃ chunks, (new (changes.map .ok) startSeq lastSeq maxBufSize).collect limits =
        some (chunks.map fun chunk => .ok (gathered chunk.1, chunk.2)) ∧ Chunks changes startSeq lastSeq chunks ∧
      ∀ chunk ∈ chunks, ∀ version siteId table pk, ((gathered chunk.1).rows version siteId).filter (·.isOf table pk) =
        (chunk.1.filter (·.isOf table pk)).map fun change => { change with dbVersion := version, siteId } := by
  obtain ⟨chunks, collected, sound⟩ :=
    @collect_chunks (new (changes.map .ok) startSeq lastSeq maxBufSize) changes limits
    rfl rfl rfl ascending within ordered enough
  exact ⟨chunks, collected, sound, fun _ _ _ _ _ _ => filter_rows_gathered⟩

/-- A change of the first version of the first site. -/
def cell (table : String) (seq : Nat) : Change := ⟨table, [1], "name", .integer seq, 1, 1, seq, 1, 1⟩

theorem chunks_tile_three_changes :
    ∃ chunks, (new ([cell "a" 0, cell "b" 1, cell "a" 2].map .ok) 0 3 0).collect [0, 9000, 9000, 9000, 9000] =
      some (chunks.map fun chunk => .ok (gathered chunk.1, chunk.2)) ∧
        Chunks [cell "a" 0, cell "b" 1, cell "a" 2] 0 3 chunks := by
  obtain ⟨chunks, collected, sound, -⟩ := chunks_tile_changes [cell "a" 0, cell "b" 1, cell "a" 2] 0 3 0
    [0, 9000, 9000, 9000, 9000] (by decide) (by decide) (by decide) (by decide)
  exact ⟨chunks, collected, sound⟩

/-- The change of the second table comes last in the only chunk. -/
theorem chunk_regroups_tables : ∃ chunk,
    (new ([cell "a" 0, cell "b" 1, cell "a" 2].map .ok) 0 2 9000).collect [9000, 9000] = some [.ok (chunk, ⟨0, 2⟩)] ∧
      chunk.rows 1 1 = [cell "a" 0, cell "a" 2, cell "b" 1] :=
  ⟨gathered [cell "a" 0, cell "b" 1, cell "a" 2], rfl, by decide +kernel⟩

/-- The changes of one version and site, grouped one after the other, come back with their
order for each table and primary key, and the grouped changeset answers as the plain one. -/
theorem per_table_changeset_agrees (actorId : ActorId) (version lastSeq : Nat) (seqs : CrsqlSeqRange) (ts : Timestamp)
    (changes : List Change) (own : ∀ change ∈ changes, change.dbVersion = version ∧ change.siteId = actorId) :
    let grouped := Changeset.fullV2 actorId version (gathered changes) lastSeq seqs ts
    let plain := Changeset.full version changes seqs lastSeq ts
    (∃ parts, grouped.intoParts = some ⟨version, parts, seqs, lastSeq, ts⟩ ∧ parts.Perm changes ∧
      ∀ table pk, parts.filter (·.isOf table pk) = changes.filter (·.isOf table pk)) ∧
    grouped.len = plain.len ∧ grouped.isEmpty = plain.isEmpty ∧ grouped.isComplete = plain.isComplete ∧
    grouped.matchableChanges.Perm plain.matchableChanges := by
  have ordered : ∀ table pk, ((gathered changes).rows version actorId).filter (·.isOf table pk) =
      changes.filter (·.isOf table pk) := by
    intro table pk
    rw [filter_rows_gathered]
    refine (map_congr_left fun change listed => ?_).trans (map_id _)
    obtain ⟨isVersion, isSite⟩ := own change (mem_filter.mp listed).1
    rw [← isVersion, ← isSite]
    rfl
  have perm : ((gathered changes).rows version actorId).Perm changes := by
    rw [perm_iff_count]
    intro row
    have same := congrArg (count row) (ordered row.table row.pk)
    rwa [count_filter (by simp [Change.isOf]), count_filter (by simp [Change.isOf])] at same
  refine ⟨⟨_, rfl, perm, ordered⟩, ?_, gathered_isEmpty, rfl, ?_⟩
  · rw [Changeset.len, Changeset.len, ← perm.length_eq]
    simp [ChangesetPerTable.rows, ChangesetPerTable.columnRows, length_flatMap]
  · have matched := perm.map Change.matchable
    simp only [ChangesetPerTable.rows, ChangesetPerTable.columnRows, map_flatMap, map_map] at matched
    exact matched

theorem three_changes_agree : (Changeset.fullV2 1 1 (gathered [cell "a" 0, cell "b" 1, cell "a" 2]) 2 ⟨0, 2⟩ 0).len =
    3 :=
  (per_table_changeset_agrees 1 1 2 ⟨0, 2⟩ 0 [cell "a" 0, cell "b" 1, cell "a" 2] (by decide)).2.1

end ChunkedChanges

end Galvanize
