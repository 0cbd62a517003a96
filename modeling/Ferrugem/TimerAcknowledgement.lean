import Ferrugem.TaskLifecycle

/-!
# Acknowledging the timer interrupt

The machine of `Ferrugem.KernelMachine` with the in-service bit of IRQ0 in the
8259A. The bit is set when the timer interrupt is taken, and `pic::eoi(0)`,
which follows `tick()` in the handler, clears it; while it is set the
controller delivers no timer interrupt. `tick()` may switch tasks before the
handler reaches its `eoi`. Then the incoming task sends one only if its own
`schedule()` was called in the handler as well.
-/

namespace Ferrugem.TimerAcknowledgement

open Ferrugem.SchedulerModel Ferrugem.KernelMachine Ferrugem.TaskLifecycle

set_option autoImplicit false

/-- `inHandler slot` tells whether the `schedule()` call suspended on the
slot's stack was made by `tick()`. -/
structure TimerMachine where
  machine : Machine
  inService : Bool
  inHandler : Slot → Bool

namespace TimerMachine

/-- A switch to the slot goes on inside a handler, which then sends its `eoi`. -/
def resumesHandler (state : TimerMachine) (slot : Slot) : Bool :=
  match state.machine.savedStacks slot with
  | .fresh _ _ => false
  | .suspended _ => state.inHandler slot

/-- A `schedule()` call, from the handler or from elsewhere, up to the point
where a task executes outside the handler again. -/
def schedule (state : TimerMachine) (fromHandler : Bool) : TimerMachine :=
  let next := state.machine.kernel.pickNext
  if next = state.machine.kernel.current then
    { state with
      machine := state.machine.schedule.1
      inService := state.inService && !fromHandler }
  else
    { machine := state.machine.schedule.1
      inService := state.inService && !state.resumesHandler next
      inHandler := Function.update state.inHandler state.machine.kernel.current fromHandler }

/-- The interrupt is taken: `tick()` runs with the bit set. -/
def interrupted (state : TimerMachine) : TimerMachine :=
  { state with machine := state.machine.tickCounted, inService := true }

def tick (state : TimerMachine) : TimerMachine :=
  if state.interrupted.machine.kernel.tickCount % 10 = 0 then state.interrupted.schedule true
  else { state.interrupted with inService := false }

/-- The controller and the processor let a timer interrupt through. -/
def delivers (state : TimerMachine) : Bool :=
  !state.inService && state.machine.irqsOn && !state.machine.halted && !state.machine.returning

def step (state : TimerMachine) : Action → TimerMachine
  | .tick => if state.delivers then state.tick else state
  | .schedule =>
      if state.machine.halted ∨ state.machine.returning then state else state.schedule false
  | action => { state with machine := (state.machine.step action).1 }

end TimerMachine

def timerSystem : EventSystem TimerMachine Action Unit where
  init := { machine := bootMachine, inService := false, inHandler := fun _ => false }
  step := fun state action => (state.step action, none)

theorem schedule_machine (state : TimerMachine) (fromHandler : Bool) :
    (state.schedule fromHandler).machine = state.machine.schedule.1 := by
  unfold TimerMachine.schedule
  dsimp only
  split_ifs <;> rfl

theorem tick_machine (state : TimerMachine) : state.tick.machine = state.machine.tick.1 := by
  unfold TimerMachine.tick Machine.tick
  by_cases due : state.machine.tickCounted.kernel.tickCount % 10 = 0
  · rw [if_pos due, if_pos (show state.interrupted.machine.kernel.tickCount % 10 = 0 from due)]
    exact schedule_machine state.interrupted true
  · rw [if_neg due, if_neg (show ¬state.interrupted.machine.kernel.tickCount % 10 = 0 from due)]
    rfl

/-- The machine below moves as it does without the controller, except that a
timer interrupt may be held back. -/
theorem timer_step_machine (state : TimerMachine) (action : Action) :
    (state.step action).machine = (state.machine.step action).1 ∨
      (action = .tick ∧ state.inService = true ∧ state.step action = state) := by
  cases action with
  | tick =>
      unfold TimerMachine.step
      by_cases busy : state.inService = true
      · have held : ¬state.delivers = true := by simp [TimerMachine.delivers, busy]
        rw [if_neg held]
        exact .inr ⟨rfl, busy, rfl⟩
      left
      by_cases stopped : state.machine.halted = true ∨ state.machine.returning = true
      · have held : ¬state.delivers = true := by
          rcases stopped with halted | returning
          · simp [TimerMachine.delivers, halted]
          · simp [TimerMachine.delivers, returning]
        rw [if_neg held, step_of_stopped stopped (by decide)]
      · simp only [not_or, Bool.not_eq_true] at stopped busy
        rw [step_of_running .tick stopped.1 stopped.2]
        by_cases enabled : state.machine.irqsOn = true
        · have delivered : state.delivers = true := by
            simp [TimerMachine.delivers, busy, enabled, stopped]
          simp only [if_pos delivered, Machine.perform, if_pos enabled]
          exact tick_machine state
        · have held : ¬state.delivers = true := by simp [TimerMachine.delivers, enabled]
          simp only [if_neg held, Machine.perform, if_neg enabled]
  | schedule =>
      left
      unfold TimerMachine.step
      by_cases stopped : state.machine.halted = true ∨ state.machine.returning = true
      · rw [if_pos stopped, step_of_stopped stopped (by decide)]
      · rw [if_neg stopped, schedule_machine]
        simp only [not_or, Bool.not_eq_true] at stopped
        rw [step_of_running .schedule stopped.1 stopped.2]
        rfl
  | _ => exact .inl rfl

/-- While tasks run, which they do outside the handler between any two steps,
the timer interrupt is not in service. -/
def Acknowledged (state : TimerMachine) : Prop :=
  state.machine.halted = false → state.inService = false

/-- A tick that switches tasks switches to one that was itself switched out by
a tick. -/
def SwitchesToHandler (state : TimerMachine) (action : Action) : Prop :=
  action = .tick → state.delivers = true →
    state.interrupted.machine.kernel.tickCount % 10 = 0 →
    state.interrupted.machine.kernel.pickNext ≠ state.machine.kernel.current →
      state.interrupted.resumesHandler state.interrupted.machine.kernel.pickNext = true

theorem acknowledged_tick {state : TimerMachine}
    (handled : state.interrupted.machine.kernel.tickCount % 10 = 0 →
      state.interrupted.machine.kernel.pickNext ≠ state.machine.kernel.current →
      state.interrupted.resumesHandler state.interrupted.machine.kernel.pickNext = true) :
    state.tick.inService = false := by
  have current : state.interrupted.machine.kernel.current = state.machine.kernel.current :=
    (tick_counted_evolves state.machine).current
  unfold TimerMachine.tick
  split_ifs with due
  · unfold TimerMachine.schedule
    dsimp only
    split_ifs with same
    · rw [Bool.not_true, Bool.and_false]
    · rw [current] at same
      rw [handled due same, Bool.not_true, Bool.and_false]
  · rfl

theorem acknowledged_schedule {state : TimerMachine} (clear : state.inService = false) :
    (state.schedule false).inService = false := by
  unfold TimerMachine.schedule
  dsimp only
  split_ifs
  · rw [clear, Bool.false_and]
  · rw [clear, Bool.false_and]

theorem halted_step {machine : Machine} (action : Action) (halted : machine.halted = true) :
    (machine.step action).1.halted = true := by
  unfold Machine.step
  rw [if_pos halted]
  exact halted

theorem acknowledged_step (state : TimerMachine) (action : Action)
    (acknowledged : Acknowledged state) (handled : SwitchesToHandler state action) :
    Acknowledged (state.step action) := by
  by_cases halted : state.machine.halted = true
  · intro running
    rcases timer_step_machine state action with machine | ⟨_, _, same⟩
    · rw [machine, halted_step action halted] at running
      cases running
    · rw [same, halted] at running
      cases running
  · have clear := acknowledged (by simpa using halted)
    intro _
    cases action with
    | tick =>
        simp only [TimerMachine.step]
        split_ifs with delivered
        · exact acknowledged_tick (handled rfl delivered)
        · exact clear
    | schedule =>
        simp only [TimerMachine.step]
        split_ifs
        · exact clear
        · exact acknowledged_schedule clear
    | _ => exact clear

/-- In every run whose ticks switch only to tasks that a tick had switched out,
the timer interrupt is acknowledged whenever a task runs. -/
theorem timer_acknowledged {actions : List Action}
    (handled : timerSystem.StepsMeet SwitchesToHandler timerSystem.init actions) :
    Acknowledged (timerSystem.runFrom timerSystem.init actions) :=
  EventSystem.run_preserves Acknowledged acknowledged_step (fun _ => rfl) handled

def userSpawned : List Action :=
  [.spawnGather (.user 0x10000 0x19000 0x20000 0 0x7000), .spawnChoose, .spawnInstall]

instance decidableSwitchesToHandler (state : TimerMachine) (action : Action) :
    Decidable (SwitchesToHandler state action) :=
  inferInstanceAs (Decidable (_ → _ → _ → _ → _))

/-- The user task is entered by a `schedule()` of its own and then preempted by
ticks that find no other task ready. -/
theorem timer_acknowledged_for_lone_task :
    Acknowledged (timerSystem.runFrom timerSystem.init
      (userSpawned ++ [.schedule] ++ List.replicate 20 .tick)) :=
  timer_acknowledged (by decide +kernel)

/-- The tenth tick enters the new task from inside the handler. -/
theorem new_task_entered_in_service :
    ¬∀ actions : List Action, Acknowledged (timerSystem.runFrom timerSystem.init actions) := by
  intro acknowledged
  have clear := acknowledged (userSpawned ++ List.replicate 10 .tick) (by decide +kernel)
  revert clear
  decide +kernel

end Ferrugem.TimerAcknowledgement
