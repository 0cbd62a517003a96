import Ferrugem.Library.EventSystem

/-!
# Ledgers of what flows through a system

A system that holds items in order: its steps put items in at the end, and its
events say which items were given out at the front. When every step balances,
nothing is lost, doubled or reordered in any run.
-/

set_option autoImplicit false

namespace FlowLedgers

variable {State Action Event Item : Type*} (system : EventSystem State Action Event)

def entered (enters : State → Action → List Item) : State → List Action → List Item
  | _, [] => []
  | state, action :: rest =>
      enters state action ++ entered enters (system.step state action).1 rest

variable {system} {condition : State → Action → Prop} (Inv : State → Prop)

theorem run_balances {held : State → List Item} {enters : State → Action → List Item}
    {leaves : Event → List Item}
    (stepPreserves : ∀ state action, Inv state → condition state action →
      Inv (system.step state action).1)
    (stepBalances : ∀ state action, Inv state → condition state action →
      held state ++ enters state action =
        (system.step state action).2.toList.flatMap leaves ++ held (system.step state action).1)
    {state : State} {actions : List Action} (initial : Inv state)
    (meets : system.StepsMeet condition state actions) :
    held state ++ entered system enters state actions =
      (system.traceFrom state actions).flatMap leaves ++ held (system.runFrom state actions) := by
  induction actions generalizing state with
  | nil => exact List.append_nil _
  | cons action rest ih =>
      have first := stepBalances state action initial meets.1
      have later := ih (stepPreserves state action initial meets.1) meets.2
      rw [entered, EventSystem.traceFrom, EventSystem.runFrom, List.flatMap_append,
        ← List.append_assoc, first, List.append_assoc, List.append_assoc, later]

theorem entered_eq_offered (enters : State → Action → List Item) (offers : Action → List Item)
    {state : State} {actions : List Action}
    (meets : system.StepsMeet (fun state action => enters state action = offers action) state
      actions) :
    entered system enters state actions = actions.flatMap offers := by
  induction actions generalizing state with
  | nil => rfl
  | cons action rest ih =>
      rw [entered, List.flatMap_cons, meets.1, ih meets.2]

end FlowLedgers
