import Ferrugem.Library.EventSystem

/-!
# Refinement of event systems

A system refines another one when an abstraction of its states and a reading of
its actions, which may look at the state, turn each of its steps into a step of
the other with the same event.
-/

set_option autoImplicit false

namespace EventSystem

variable {State Action Event Abstract Request : Type*}

/-- The actions of a run as the abstract system sees them. -/
def requestsFrom (system : EventSystem State Action Event) (read : State → Action → Request) :
    State → List Action → List Request
  | _, [] => []
  | state, action :: rest =>
      read state action :: requestsFrom system read (system.step state action).1 rest

theorem run_refines {system : EventSystem State Action Event}
    {spec : EventSystem Abstract Request Event} {condition : State → Action → Prop}
    (Inv : State → Prop) (view : State → Abstract) (read : State → Action → Request)
    (steps : ∀ state action, Inv state → condition state action →
      Inv (system.step state action).1 ∧
        spec.step (view state) (read state action) =
          (view (system.step state action).1, (system.step state action).2))
    {state : State} {actions : List Action} (initial : Inv state)
    (meets : system.StepsMeet condition state actions) :
    Inv (system.runFrom state actions) ∧
      spec.runFrom (view state) (system.requestsFrom read state actions) =
        view (system.runFrom state actions) ∧
      spec.traceFrom (view state) (system.requestsFrom read state actions) =
        system.traceFrom state actions := by
  induction actions generalizing state with
  | nil => exact ⟨initial, rfl, rfl⟩
  | cons action rest ih =>
      obtain ⟨kept, same⟩ := steps state action initial meets.1
      obtain ⟨final, states, events⟩ := ih kept meets.2
      simp only [requestsFrom, runFrom, traceFrom, same]
      rw [events]
      exact ⟨final, states, rfl⟩

end EventSystem
