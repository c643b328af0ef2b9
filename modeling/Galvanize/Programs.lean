import Mathlib.Logic.Basic

/-! Programs that change a state and may fail half-way, with what they have done
so far left in place. A specification says in which states a program returns and
in which it fails. Nothing here knows what the state is. -/
namespace Galvanize

variable {ε σ α β : Type}

/-- From a state with `pre`, the program returns in a state with `post`, or fails
in one with `fails`. -/
def Spec (pre : σ → Prop) (program : EStateM ε σ α) (post : α → σ → Prop) (fails : ε → σ → Prop) : Prop :=
  ∀ state, pre state →
    match program state with
    | .ok value next => post value next
    | .error error next => fails error next

variable {fails : ε → σ → Prop}

theorem spec_ok {state next : σ} (spec : Spec pre program post fails) (holds : pre state)
    (ran : program state = .ok value next) : post value next := by
  have outcome := spec state holds
  rw [ran] at outcome
  exact outcome

theorem spec_error {state next : σ} (spec : Spec pre program post fails) (holds : pre state)
    (ran : program state = .error error next) : fails error next := by
  have outcome := spec state holds
  rw [ran] at outcome
  exact outcome

theorem spec_pure (holds : ∀ state, pre state → post value state) : Spec pre (pure value : EStateM ε σ α) post fails :=
  holds

theorem spec_throw (holds : ∀ state, pre state → fails error state) :
    Spec pre (throw error : EStateM ε σ α) post fails :=
  holds

theorem spec_bind {rest : α → EStateM ε σ β} {after : β → σ → Prop}
    (first : Spec pre program middle fails) (second : ∀ value, Spec (middle value) (rest value) after fails) :
    Spec pre (program >>= rest) after fails := by
  intro state holds
  change match EStateM.bind program rest state with
    | .ok value next => after value next
    | .error error next => fails error next
  unfold EStateM.bind
  have outcome := first state holds
  cases ran : program state with
  | ok value next =>
    rw [ran] at outcome
    exact second value next outcome
  | error error next =>
    rw [ran] at outcome
    exact outcome

theorem spec_weaken (spec : Spec pre program post fails) (weaker : ∀ value state, post value state →
    post' value state) : Spec pre program post' fails := by
  intro state holds
  have outcome := spec state holds
  cases ran : program state with
  | ok value next =>
    rw [ran] at outcome
    exact weaker value next outcome
  | error error next =>
    rw [ran] at outcome
    exact outcome

/-- What is known apart from the state may be used as a fact. -/
theorem spec_assume (spec : fact → Spec pre program post fails) :
    Spec (fun state => fact ∧ pre state) program post fails := by
  rintro state ⟨known, holds⟩
  exact spec known state holds

theorem spec_exists {known : γ → σ → Prop} (spec : ∀ value, Spec (known value) program post fails) :
    Spec (fun state => ∃ value, known value state) program post fails := by
  rintro state ⟨value, holds⟩
  exact spec value state holds

end Galvanize
