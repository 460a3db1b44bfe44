import Mathlib.Data.List.Basic

/-!
# Guarded runs

Runs whose steps all meet a condition on the state they are taken in.
-/

namespace IronCache.Guarded

variable {S A : Type} {step : S → A → S} {allowed : S → A → Prop}

def Throughout (step : S → A → S) (allowed : S → A → Prop) : S → List A → Prop
  | _, [] => True
  | state, action :: rest => allowed state action ∧ Throughout step allowed (step state action) rest

variable {state : S} {actions : List A}

/-- What every allowed step keeps holds wherever a guarded run leads. -/
theorem Throughout.invariant {holds : S → Prop}
    (keeps : ∀ state action, holds state → allowed state action → holds (step state action))
    (start : holds state) (meets : Throughout step allowed state actions) :
    holds (actions.foldl step state) := by
  induction actions generalizing state with
  | nil => exact start
  | cons action actions ih =>
    exact ih (keeps state action start meets.1) meets.2

theorem Throughout.and_forall {property : A → Prop} (meets : Throughout step allowed state actions)
    (each : ∀ action ∈ actions, property action) :
    Throughout step (fun state action => allowed state action ∧ property action) state actions := by
  induction actions generalizing state with
  | nil => trivial
  | cons action actions ih =>
    refine ⟨⟨meets.1, each action List.mem_cons_self⟩, ih meets.2 fun other member => ?_⟩
    exact each other (List.mem_cons_of_mem _ member)

theorem Throughout.of_append (meets : Throughout step allowed state (earlier ++ later)) :
    Throughout step allowed state earlier ∧
      Throughout step allowed (earlier.foldl step state) later := by
  induction earlier generalizing state with
  | nil => exact ⟨trivial, meets⟩
  | cons action earlier ih =>
    obtain ⟨first, second⟩ := ih meets.2
    exact ⟨⟨meets.1, first⟩, second⟩

end IronCache.Guarded
