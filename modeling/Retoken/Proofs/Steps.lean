import Mathlib.Logic.Basic
import Retoken.ClassFile.Error

/-!
# Steps that may fail

A step works on a state and may fail with an error. `Meets` says of one run what holds afterwards if it succeeds, and which errors are possible if it does not, so both are proved in one pass over the definition of a step.
-/

namespace Retoken

variable {σ α β : Type}

def Meets (step : StateT σ (Except ClassError) α) (state : σ) (after : α → σ → Prop)
    (fails : ClassError → Prop) : Prop :=
  match step state with
  | .ok (a, state') => after a state'
  | .error error => fails error

namespace Meets

variable {step first : StateT σ (Except ClassError) α} {next : α → StateT σ (Except ClassError) β}
  {state state' : σ} {after after' : α → σ → Prop} {afterNext : β → σ → Prop} {fails fails' : ClassError → Prop}

theorem of_ok {a : α} (hmeets : Meets step state after fails) (hrun : step state = .ok (a, state')) :
    after a state' := by
  rw [Meets, hrun] at hmeets
  exact hmeets

theorem of_error {error : ClassError} (hmeets : Meets step state after fails)
    (hrun : step state = .error error) : fails error := by
  rw [Meets, hrun] at hmeets
  exact hmeets

theorem imp (hmeets : Meets step state after fails) (hafter : ∀ a state', after a state' → after' a state')
    (hfails : ∀ error, fails error → fails' error) : Meets step state after' fails' := by
  rw [Meets] at hmeets ⊢
  cases hrun : step state with
  | error error =>
    rw [hrun] at hmeets
    exact hfails error hmeets
  | ok result =>
    rw [hrun] at hmeets
    exact hafter result.1 result.2 hmeets

theorem and (hmeets : Meets step state after fails) (hmeets' : Meets step state after' fails') :
    Meets step state (fun a state' => after a state' ∧ after' a state') (fun error => fails error ∧ fails' error) := by
  rw [Meets] at hmeets hmeets' ⊢
  cases hrun : step state with
  | error error =>
    rw [hrun] at hmeets hmeets'
    exact ⟨hmeets, hmeets'⟩
  | ok result =>
    rw [hrun] at hmeets hmeets'
    exact ⟨hmeets, hmeets'⟩

theorem pure {a : α} (hafter : after a state) : Meets (pure a) state after fails :=
  hafter

theorem lift {result : Except ClassError α} (hok : ∀ a, result = .ok a → after a state)
    (herror : ∀ error, result = .error error → fails error) :
    Meets (liftM result) state after fails := by
  cases result with
  | error error => exact herror error rfl
  | ok a => exact hok a rfl

theorem bind (hfirst : Meets first state after fails)
    (hnext : ∀ a state', after a state' → Meets (next a) state' afterNext fails) :
    Meets (first >>= next) state afterNext fails := by
  rw [Meets] at hfirst
  have hrun : (first >>= next) state = (first state).bind fun result => next result.1 result.2 := rfl
  cases hresult : first state with
  | error error =>
    rw [hresult] at hfirst hrun
    rw [Meets, hrun]
    exact hfirst
  | ok result =>
    rw [hresult] at hfirst hrun
    have hmeets := hnext result.1 result.2 hfirst
    rw [Meets] at hmeets ⊢
    rw [hrun]
    exact hmeets

theorem get_bind {next : σ → StateT σ (Except ClassError) β}
    (hnext : Meets (next state) state afterNext fails) :
    Meets ((get : StateT σ (Except ClassError) σ) >>= next) state afterNext fails :=
  hnext

theorem throw_bind {error : ClassError} (hfails : fails error) :
    Meets ((MonadExcept.throw error : StateT σ (Except ClassError) α) >>= next) state afterNext fails :=
  hfails

/-- A loop keeps what each of its rounds keeps. The invariant may speak about the items that are done. -/
theorem forM {items : List α} {step : α → StateT σ (Except ClassError) PUnit}
    (invariant : List α → σ → Prop)
    (hstep : ∀ done item rest state, items = done ++ item :: rest → invariant done state →
      Meets (step item) state (fun _ => invariant (done ++ [item])) fails)
    (hstart : invariant [] state) : Meets (items.forM step) state (fun _ => invariant items) fails := by
  have hfrom : ∀ rest done state, items = done ++ rest → invariant done state →
      Meets (rest.forM step) state (fun _ => invariant items) fails := by
    intro rest
    induction rest with
    | nil =>
      intro done state hitems hinvariant
      rw [List.append_nil] at hitems
      subst hitems
      exact Meets.pure hinvariant
    | cons item rest ih =>
      intro done state hitems hinvariant
      change Meets (step item >>= fun _ => rest.forM step) state _ _
      refine Meets.bind (hstep done item rest state hitems hinvariant) fun _ state' hinvariant' => ?_
      exact ih (done ++ [item]) state' (by rw [hitems, List.append_assoc]; rfl) hinvariant'
  exact hfrom items [] state rfl hstart

end Meets

end Retoken
