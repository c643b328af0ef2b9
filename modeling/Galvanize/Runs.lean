import Mathlib.Data.List.Forall2
import Mathlib.Data.List.Induction
import Mathlib.Logic.Basic
import Std.Data.ExtTreeMap

/-! Loops: what a successful loop whose turns may fail went through, what it
keeps, and what a loop over the entries of a map does to each key. Nothing here
knows what a turn does. -/
namespace Galvanize
open List Std.ExtTreeMap

variable {ε σ α : Type} {f : σ → α → Except ε σ} {before after : σ}

variable {β γ : Type} {g : β → Except ε γ} {x : Except ε β} {result : γ}

theorem bind_ok (ok : x >>= g = .ok result) : ∃ value, x = .ok value ∧ g value = .ok result := by
  cases x with
  | error e => cases ok
  | ok value => exact ⟨value, rfl, ok⟩

theorem bind_ok_iff : x >>= g = .ok result ↔ ∃ value, x = .ok value ∧ g value = .ok result := by
  constructor
  · exact bind_ok
  · rintro ⟨value, rfl, ok⟩
    exact ok

theorem bind_error_iff : x >>= g = .error e ↔ x = .error e ∨ ∃ value, x = .ok value ∧ g value = .error e := by
  cases x with
  | error other =>
    constructor
    · intro failed
      cases failed
      exact .inl rfl
    · rintro (failed | ⟨value, ok, -⟩)
      · cases failed
        rfl
      · cases ok
  | ok value =>
    constructor
    · intro failed
      exact .inr ⟨value, rfl, failed⟩
    · rintro (failed | ⟨other, ok, failed⟩)
      · cases failed
      · cases ok
        exact failed

theorem map_ok {g : β → γ} (ok : x.map g = .ok result) : ∃ value, x = .ok value ∧ g value = result := by
  cases x with
  | error e => cases ok
  | ok value =>
    cases ok
    exact ⟨value, rfl, rfl⟩

theorem ok_bind (first : ∃ value, x = .ok value) (second : ∀ value, ∃ result, g value = .ok result) :
    ∃ result, x >>= g = .ok result := by
  obtain ⟨value, rfl⟩ := first
  exact second value

/-- What the first part returns with is what the second part needs. -/
theorem bind_returns {middle : β → Prop} {post : γ → Prop} (first : ∃ value, x = .ok value ∧ middle value)
    (second : ∀ value, middle value → ∃ result, g value = .ok result ∧ post result) :
    ∃ result, x >>= g = .ok result ∧ post result := by
  obtain ⟨value, rfl, holds⟩ := first
  exact second value holds

theorem unit_bind_ok {x : Except ε Unit} {g : Unit → Except ε β} {result : β} :
    x >>= g = .ok result ↔ x = .ok () ∧ g () = .ok result := by
  cases x with
  | error e => exact ⟨(nomatch ·), fun both => (nomatch both.1)⟩
  | ok _ => exact ⟨fun ok => ⟨rfl, ok⟩, fun both => both.2⟩

theorem unit_bind_error {x : Except ε Unit} {g : Unit → Except ε β} :
    x >>= g = .error e ↔ x = .error e ∨ x = .ok () ∧ g () = .error e := by
  rw [bind_error_iff]
  exact or_congr_right ⟨fun ⟨_, ok, failed⟩ => ⟨ok, failed⟩, fun ⟨ok, failed⟩ => ⟨(), ok, failed⟩⟩

variable {items : List α}

theorem forM_ok_iff {g : α → Except ε Unit} : items.forM g = .ok () ↔ ∀ item ∈ items, g item = .ok () := by
  induction items with
  | nil => exact ⟨fun _ _ listed => (nomatch listed), fun _ => rfl⟩
  | cons _ _ ih =>
    rw [forall_mem_cons, ← ih]
    exact unit_bind_ok

variable {results : List β}

theorem exists_mem_of_forall₂ (both : List.Forall₂ related items results)
    (listed : item ∈ items) : ∃ result, result ∈ results ∧ related item result := by
  induction both with
  | nil => cases listed
  | cons first _ ih =>
    rcases mem_cons.mp listed with rfl | later
    · exact ⟨_, mem_cons_self, first⟩
    · obtain ⟨result, member, holds⟩ := ih later
      exact ⟨result, mem_cons_of_mem _ member, holds⟩

/-- Every item of a loop that gives results has one. -/
theorem mapM_some {g : α → Option β} (is : items.mapM g = some results) :
    (∀ item ∈ items, ∃ result ∈ results, g item = some result) ∧
      ∀ result ∈ results, ∃ item ∈ items, g item = some result := by
  have both : List.Forall₂ (fun item result => g item = some result) items results := by
    induction items generalizing results with
    | nil =>
      cases is
      exact .nil
    | cons _ _ ih =>
      simp only [mapM_cons, bind, Option.bind_eq_some_iff, pure, Option.some.injEq] at is
      obtain ⟨result, isResult, _, isOthers, rfl⟩ := is
      exact .cons isResult (ih isOthers)
  exact ⟨fun item listed => exists_mem_of_forall₂ both listed,
    fun result listed => exists_mem_of_forall₂ both.flip listed⟩

theorem mapM_isSome {g : α → Option β} {items : List α} (each : ∀ item ∈ items, ∃ result, g item = some result) :
    ∃ results, items.mapM g = some results := by
  induction items with
  | nil => exact ⟨[], rfl⟩
  | cons first _ ih =>
    obtain ⟨result, isResult⟩ := each first mem_cons_self
    obtain ⟨others, isOthers⟩ := ih fun item listed => each item (mem_cons_of_mem _ listed)
    exact ⟨result :: others, by simp [mapM_cons, isResult, isOthers]⟩

/-- A loop gives the results of its items, in their order. -/
theorem mapM_ok_iff {g : α → Except ε β} :
    items.mapM g = .ok results ↔ List.Forall₂ (fun item result => g item = .ok result) items results := by
  induction items generalizing results with
  | nil =>
    constructor
    · intro ok
      cases ok
      exact .nil
    · intro both
      cases both
      rfl
  | cons item items ih =>
    rw [mapM_cons]
    constructor
    · intro ok
      obtain ⟨result, first, rest⟩ := bind_ok ok
      obtain ⟨_, later, same⟩ := bind_ok rest
      cases same
      exact .cons first (ih.mp later)
    · intro both
      cases both with
      | cons first later => rw [first, ih.mpr later]; rfl

theorem forall₂_getElem? (both : List.Forall₂ related items results) {position : Nat}
    {result : β} (found : results[position]? = some result) :
    ∃ item, items[position]? = some item ∧ related item result := by
  induction both generalizing position with
  | nil => simp at found
  | cons first _ ih =>
    cases position with
    | zero =>
      cases found
      exact ⟨_, rfl, first⟩
    | succ position => exact ih found

theorem foldlM_nil_ok (ok : ([] : List α).foldlM f before = .ok after) : after = before := by
  cases ok
  rfl

theorem foldlM_cons_ok {rest : List α} (ok : (first :: rest).foldlM f before = .ok after) :
    ∃ middle, f before first = .ok middle ∧ rest.foldlM f middle = .ok after := by
  rw [foldlM_cons] at ok
  cases step : f before first with
  | error e =>
    rw [step] at ok
    cases ok
  | ok middle =>
    rw [step] at ok
    exact ⟨middle, rfl, ok⟩

theorem foldlM_concat_ok {last : α} : (items ++ [last]).foldlM f before = .ok after ↔
      ∃ middle, items.foldlM f before = .ok middle ∧ f middle last = .ok after := by
  rw [foldlM_append]
  constructor
  · intro ok
    obtain ⟨middle, ran, rest⟩ := bind_ok ok
    obtain ⟨final, turn, nothing⟩ := foldlM_cons_ok rest
    exact ⟨middle, ran, foldlM_nil_ok nothing ▸ turn⟩
  · rintro ⟨middle, ran, turn⟩
    rw [ran]
    change (f middle last >>= fun final => .ok final) = _
    rw [turn]
    rfl

/-- What every successful turn keeps, a successful loop keeps. -/
theorem foldlM_invariant (holds : σ → Prop) (start : holds before)
    (step : ∀ item ∈ items, ∀ state next, holds state → f state item = .ok next → holds next)
    (ok : items.foldlM f before = .ok after) : holds after := by
  induction items generalizing before with
  | nil => exact foldlM_nil_ok ok ▸ start
  | cons first _ ih =>
    obtain ⟨middle, turn, later⟩ := foldlM_cons_ok ok
    exact ih (step first (by simp) before middle start turn) (fun item member => step item (by simp [member])) later

/-- A loop of turns that cannot fail does not fail. -/
theorem foldlM_ok (step : ∀ item ∈ items, ∀ state, ∃ next, f state item = .ok next) :
    ∃ after, items.foldlM f before = .ok after := by
  induction items generalizing before with
  | nil => exact ⟨before, rfl⟩
  | cons first _ ih =>
    obtain ⟨_, turn⟩ := step first (by simp) before
    rw [foldlM_cons, turn]
    exact ih fun item member => step item (by simp [member])

/-- Each turn adds what its item adds: the loop adds what some item adds. -/
theorem foldlM_adds (view : σ → β → Prop) (adds : α → β → Prop)
    (step : ∀ item ∈ items, ∀ state next, f state item = .ok next → ∀ fact, view next fact ↔
      view state fact ∨ adds item fact) (ok : items.foldlM f before = .ok after) (fact : β) :
    view after fact ↔ view before fact ∨ ∃ item ∈ items, adds item fact := by
  induction items generalizing before with
  | nil =>
    rw [foldlM_nil_ok ok]
    simp
  | cons first _ ih =>
    obtain ⟨_, turn, later⟩ := foldlM_cons_ok ok
    rw [ih (fun item member => step item (by simp [member])) later, step first (by simp) _ _ turn]
    simp [or_assoc]

/-- What relates a state to the outcome of each turn, and composes, relates it to the
outcome of the loop, whether the loop fails or not. -/
theorem foldlM_related {related : σ → Except ε σ → Prop} (refl : ∀ state, related state (.ok state))
    (trans : ∀ a b result, related a (.ok b) → related b result → related a result)
    (step : ∀ item ∈ items, ∀ state, related state (f state item)) : related before (items.foldlM f before) := by
  induction items generalizing before with
  | nil => exact refl before
  | cons first _ ih =>
    have turn := step first (by simp) before
    rw [foldlM_cons]
    cases result : f before first with
    | error e =>
      rw [result] at turn
      exact turn
    | ok _ =>
      rw [result] at turn
      exact trans _ _ _ turn (ih fun item member => step item (by simp [member]))

/-! ### Loops over the entries of a map -/

section
variable {κ ν β : Type} {step : σ → κ × ν → σ} {view : σ → κ → β} {update : κ → ν → β → β}

/-- Each turn changes what is seen at its own key: the entry of a key, if there is
one, is all that matters there. -/
theorem foldl_view (own : ∀ state key value, view (step state (key, value)) key = update key value (view state key))
    (elsewhere : ∀ state key value other, key ≠ other → view (step state (key, value)) other = view state other)
    {entries : List (κ × ν)} (distinct : entries.Pairwise (fun a b => a.1 ≠ b.1)) {state : σ} {key : κ} :
    (∀ value, (key, value) ∈ entries → view (entries.foldl step state) key = update key value (view state key)) ∧
    ((∀ value, (key, value) ∉ entries) → view (entries.foldl step state) key = view state key) := by
  induction entries generalizing state with
  | nil => simp
  | cons first _ ih =>
    obtain ⟨firstNew, restDistinct⟩ := pairwise_cons.mp distinct
    obtain ⟨present, absent⟩ := @ih restDistinct (step state first)
    refine ⟨fun value listed => ?_, fun missing => ?_⟩
    · rcases mem_cons.mp listed with rfl | later
      · rw [foldl_cons, absent fun other member => firstNew _ member rfl, own]
      · rw [foldl_cons, present value later, elsewhere _ _ _ _ (firstNew _ later)]
    · have different : first.1 ≠ key := fun same => missing first.2 (by simp [← same])
      rw [foldl_cons, absent fun value member => missing value (by simp [member]),
        elsewhere _ _ _ _ different]

variable [Ord κ] [Std.TransOrd κ] [Std.LawfulEqOrd κ] {map : Std.ExtTreeMap κ ν}

theorem toList_distinct : map.toList.Pairwise (fun a b => a.1 ≠ b.1) := by
  have distinct := distinct_keys_toList (t := map)
  simpa only [Std.LawfulEqOrd.compare_eq_iff_eq] using distinct

theorem foldl_toList_view
    (own : ∀ state key value, view (step state (key, value)) key = update key value (view state key))
    (elsewhere : ∀ state key value other, key ≠ other → view (step state (key, value)) other = view state other)
    {state : σ} {key : κ} : view (map.toList.foldl step state) key =
      match map[key]? with
      | some value => update key value (view state key)
      | none => view state key := by
  obtain ⟨present, absent⟩ := @foldl_view _ _ _ _ _ _ _ own elsewhere _ toList_distinct state key
  cases held : map[key]? with
  | some value => exact present value (mem_toList_iff_getElem?_eq_some.mpr held)
  | none =>
    refine absent fun value listed => ?_
    rw [mem_toList_iff_getElem?_eq_some, held] at listed
    cases listed

end

section
variable {σ α : Type} {step : σ → α → σ} {start : σ} {holds : σ → Prop} {keeps : σ → α → Prop} {items : List α}

/-- What holds at the start of a run, and is kept by every item that comes to a state it
suits, holds throughout a run of such items. -/
theorem throughout (initial : holds start) (each : ∀ state item, holds state → keeps state item →
    holds (step state item))
    (kept : ∀ before item, before ++ [item] <+: items → keeps (before.foldl step start) item) :
    ∀ before, before <+: items → holds (before.foldl step start) := by
  intro before leads
  induction before using reverseRecOn with
  | nil => exact initial
  | append_singleton earlier item ih =>
    rw [foldl_concat]
    exact each _ item (ih ((prefix_append earlier [item]).trans leads)) (kept earlier item leads)

/-- What holds at the start of a run holds throughout it exactly if every item keeps it in
the state that the item comes to. -/
theorem throughout_iff (initial : holds start)
    (each : ∀ state item, holds state → (holds (step state item) ↔ keeps state item)) (items : List α) :
    (∀ before, before <+: items → holds (before.foldl step start)) ↔
      ∀ before item, before ++ [item] <+: items → keeps (before.foldl step start) item := by
  constructor
  · intro always before item leads
    have first := always before ((prefix_append before [item]).trans leads)
    have then_ := always (before ++ [item]) leads
    rw [foldl_concat] at then_
    exact (each _ item first).mp then_
  · intro kept
    exact throughout initial (fun state item now keeps => (each state item now).mpr keeps) kept

theorem kept_nil : ∀ before item, before ++ [item] <+: [] → keeps (before.foldl step start) item := by
  intro before item leads
  have none := prefix_nil.mp leads
  simp at none

/-- The items of a run suit the states they come to, one after the other. -/
theorem kept_cons {first : α} (now : keeps start first)
    (later : ∀ before item, before ++ [item] <+: items → keeps (before.foldl step (step start first)) item) :
    ∀ before item, before ++ [item] <+: first :: items → keeps (before.foldl step start) item := by
  intro before item leads
  cases before with
  | nil =>
    cases (cons_prefix_cons.mp leads).1
    exact now
  | cons head before =>
    obtain ⟨rfl, shorter⟩ := cons_prefix_cons.mp leads
    exact later before item shorter

end

end Galvanize
