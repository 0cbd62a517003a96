import Mathlib.Data.List.Basic

/-!
# Event systems

A deterministic labelled transition system whose steps may emit one event.
Nondeterminism (an interrupt, a scheduler, a user program) is the choice of
the action list. A run is therefore a computable function of its actions, so
a concrete interleaving can be evaluated, while safety is stated over every
list whose steps all meet a condition on the state before the step.
-/

set_option autoImplicit false

structure EventSystem (State Action Event : Type*) where
  init : State
  step : State → Action → State × Option Event

namespace EventSystem

variable {State Action Event : Type*} (system : EventSystem State Action Event)

def runFrom : State → List Action → State
  | state, [] => state
  | state, action :: rest => runFrom (system.step state action).1 rest

def traceFrom : State → List Action → List Event
  | _, [] => []
  | state, action :: rest =>
      (system.step state action).2.toList ++ traceFrom (system.step state action).1 rest

/-- Every step of the run is taken from a state that meets the condition. -/
def StepsMeet (condition : State → Action → Prop) : State → List Action → Prop
  | _, [] => True
  | state, action :: rest =>
      condition state action ∧ StepsMeet condition (system.step state action).1 rest

instance decidableStepsMeet (condition : State → Action → Prop)
    [∀ state action, Decidable (condition state action)] :
    ∀ state actions, Decidable (system.StepsMeet condition state actions)
  | _, [] => isTrue trivial
  | state, action :: rest =>
      have := decidableStepsMeet condition (system.step state action).1 rest
      inferInstanceAs (Decidable (_ ∧ _))

theorem run_from_append (state : State) (before after : List Action) :
    system.runFrom state (before ++ after) =
      system.runFrom (system.runFrom state before) after := by
  induction before generalizing state with
  | nil => rfl
  | cons action rest ih => exact ih (system.step state action).1

theorem trace_from_append (state : State) (before after : List Action) :
    system.traceFrom state (before ++ after) =
      system.traceFrom state before ++
        system.traceFrom (system.runFrom state before) after := by
  induction before generalizing state with
  | nil => rfl
  | cons action rest ih =>
      simp only [List.cons_append, traceFrom, runFrom, ih, List.append_assoc]

theorem steps_meet_append (condition : State → Action → Prop) (state : State)
    (before after : List Action) :
    system.StepsMeet condition state (before ++ after) ↔
      system.StepsMeet condition state before ∧
        system.StepsMeet condition (system.runFrom state before) after := by
  induction before generalizing state with
  | nil => simp [StepsMeet, runFrom]
  | cons action rest ih =>
      simp only [List.cons_append, StepsMeet, runFrom, ih, and_assoc]

theorem steps_meet_mono {strong weak : State → Action → Prop}
    (weaker : ∀ state action, strong state action → weak state action) {state : State}
    {actions : List Action} (meets : system.StepsMeet strong state actions) :
    system.StepsMeet weak state actions := by
  induction actions generalizing state with
  | nil => exact meets
  | cons action rest ih => exact ⟨weaker state action meets.1, ih meets.2⟩

theorem steps_meet_of_forall {admits : Action → Prop} (state : State) {actions : List Action}
    (each : ∀ action ∈ actions, admits action) :
    system.StepsMeet (fun _ action => admits action) state actions := by
  induction actions generalizing state with
  | nil => exact trivial
  | cons action rest ih =>
      exact ⟨each action List.mem_cons_self,
        ih _ fun later member => each later (List.mem_cons_of_mem action member)⟩

variable {system} {condition : State → Action → Prop} (Inv : State → Prop)

theorem run_preserves
    (stepPreserves : ∀ state action, Inv state → condition state action →
      Inv (system.step state action).1)
    {state : State} {actions : List Action}
    (initial : Inv state) (meets : system.StepsMeet condition state actions) :
    Inv (system.runFrom state actions) := by
  induction actions generalizing state with
  | nil => exact initial
  | cons action rest ih =>
      exact ih (stepPreserves state action initial meets.1) meets.2

theorem run_keeps (stepKeeps : ∀ state action, Inv state → Inv (system.step state action).1)
    {state : State} (actions : List Action) (initial : Inv state) :
    Inv (system.runFrom state actions) := by
  induction actions generalizing state with
  | nil => exact initial
  | cons action rest ih => exact ih (stepKeeps state action initial)

theorem runs_stay_related {Rel : State → State → Prop}
    (steps : ∀ first second action, Rel first second → condition first action →
      Rel (system.step first action).1 (system.step second action).1)
    {first second : State} {actions : List Action} (initial : Rel first second)
    (meets : system.StepsMeet condition first actions) :
    Rel (system.runFrom first actions) (system.runFrom second actions) := by
  induction actions generalizing first second with
  | nil => exact initial
  | cons action rest ih => exact ih (steps first second action initial meets.1) meets.2

/-- A property of single steps that follows from the invariant and the
condition holds at every step of an admissible run. -/
theorem steps_satisfy {Property : State → Action → Prop}
    (stepPreserves : ∀ state action, Inv state → condition state action →
      Inv (system.step state action).1)
    (stepMeets : ∀ state action, Inv state → condition state action → Property state action)
    {state : State} {actions : List Action}
    (initial : Inv state) (meets : system.StepsMeet condition state actions) :
    system.StepsMeet Property state actions := by
  induction actions generalizing state with
  | nil => exact meets
  | cons action rest ih =>
      exact ⟨stepMeets state action initial meets.1,
        ih (stepPreserves state action initial meets.1) meets.2⟩

theorem steps_hold {Property : State → Action → Prop}
    (stepKeeps : ∀ state action, Inv state → Inv (system.step state action).1)
    (stepHolds : ∀ state action, Inv state → Property state action)
    {state : State} (actions : List Action) (initial : Inv state) :
    system.StepsMeet Property state actions := by
  induction actions generalizing state with
  | nil => exact trivial
  | cons action rest ih =>
      exact ⟨stepHolds state action initial, ih (stepKeeps state action initial)⟩

/-- What one admissible step preserves unless it emits a stopping event, a run
without such an event keeps. -/
theorem run_preserves_unless {Stop : Event → Prop}
    (stepPreserves : ∀ state action, Inv state → condition state action →
      (∀ event, (system.step state action).2 = some event → ¬Stop event) →
      Inv (system.step state action).1)
    {state : State} {actions : List Action}
    (initial : Inv state) (meets : system.StepsMeet condition state actions)
    (silent : ∀ event ∈ system.traceFrom state actions, ¬Stop event) :
    Inv (system.runFrom state actions) := by
  induction actions generalizing state with
  | nil => exact initial
  | cons action rest ih =>
      simp only [traceFrom, List.mem_append, Option.mem_toList] at silent
      exact ih (stepPreserves state action initial meets.1
        fun event emitted => silent event (.inl emitted)) meets.2
        fun event later => silent event (.inr later)

/-- The event rule: an event property that holds at every admissible step
from an invariant state holds of every event of a run. -/
theorem trace_satisfies {Good : Event → Prop}
    (stepPreserves : ∀ state action, Inv state → condition state action →
      Inv (system.step state action).1)
    (stepEmits : ∀ state action event, Inv state → condition state action →
      (system.step state action).2 = some event → Good event)
    {state : State} {actions : List Action}
    (initial : Inv state) (meets : system.StepsMeet condition state actions) :
    ∀ event ∈ system.traceFrom state actions, Good event := by
  induction actions generalizing state with
  | nil => simp [traceFrom]
  | cons action rest ih =>
      intro event member
      simp only [traceFrom, List.mem_append, Option.mem_toList] at member
      rcases member with emitted | later
      · exact stepEmits state action event initial meets.1 emitted
      · exact ih (stepPreserves state action initial meets.1) meets.2 event later

/-- When the invariant needs no condition and, from an invariant state, a
step's event is good exactly when the condition holds, then all events of a
run are good exactly when all its steps meet the condition. -/
theorem trace_satisfies_iff {Good : Event → Prop}
    (stepPreserves : ∀ state action, Inv state → Inv (system.step state action).1)
    (stepEmits : ∀ state action, Inv state →
      ((∀ event, (system.step state action).2 = some event → Good event) ↔
        condition state action))
    {state : State} (actions : List Action) (initial : Inv state) :
    (∀ event ∈ system.traceFrom state actions, Good event) ↔
      system.StepsMeet condition state actions := by
  induction actions generalizing state with
  | nil => simp [traceFrom, StepsMeet]
  | cons action rest ih =>
      simp only [traceFrom, StepsMeet, List.mem_append, Option.mem_toList, or_imp, forall_and]
      rw [stepEmits state action initial, ih (stepPreserves state action initial)]

/-- When a step from an invariant state leads to an invariant state exactly
under the condition, all states of a run are invariant exactly when all its
steps meet the condition. -/
theorem reached_satisfy_iff
    (stepMeets : ∀ state action, Inv state →
      (Inv (system.step state action).1 ↔ condition state action))
    {state : State} (actions : List Action) (initial : Inv state) :
    (∀ before, before <+: actions → Inv (system.runFrom state before)) ↔
      system.StepsMeet condition state actions := by
  induction actions generalizing state with
  | nil =>
      simp only [List.prefix_nil, forall_eq, runFrom, StepsMeet, iff_true]
      exact initial
  | cons action rest ih =>
      simp only [StepsMeet]
      constructor
      · intro reached
        have next : Inv (system.step state action).1 :=
          reached [action] (List.prefix_append [action] rest)
        refine ⟨(stepMeets state action initial).mp next, (ih next).mp ?_⟩
        intro before isPrefix
        exact reached (action :: before) (List.cons_prefix_cons.mpr ⟨rfl, isPrefix⟩)
      · rintro ⟨meets, later⟩ before isPrefix
        have next := (stepMeets state action initial).mpr meets
        cases before with
        | nil => exact initial
        | cons head tail =>
            obtain ⟨rfl, tailPrefix⟩ := List.cons_prefix_cons.mp isPrefix
            exact (ih next).mpr later tail tailPrefix

/-- The simulation rule: a relation between the states of two systems that
holds at the start and is kept by equal steps, which emit equal events, makes
the systems indistinguishable on every action list. -/
theorem trace_eq_of_simulation {Abstract : Type*} {spec : EventSystem Abstract Action Event}
    (Simulates : State → Abstract → Prop)
    (steps : ∀ state abstract action, Simulates state abstract →
      Simulates (system.step state action).1 (spec.step abstract action).1 ∧
        (system.step state action).2 = (spec.step abstract action).2)
    {state : State} {abstract : Abstract} (initial : Simulates state abstract)
    (actions : List Action) :
    system.traceFrom state actions = spec.traceFrom abstract actions ∧
      Simulates (system.runFrom state actions) (spec.runFrom abstract actions) := by
  induction actions generalizing state abstract with
  | nil => exact ⟨rfl, initial⟩
  | cons action rest ih =>
      obtain ⟨next, same⟩ := steps state abstract action initial
      obtain ⟨later, final⟩ := ih next
      refine ⟨?_, final⟩
      simp only [traceFrom]
      rw [same, later]

end EventSystem
