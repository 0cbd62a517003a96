import Ferrugem.ZombieStates

/-!
# The slot a creation takes

Task creation looks for the first slot that is empty or holds a zombie. A task
terminated by a signal is a zombie while it still executes, so its own slot is
a candidate when it creates a task itself. Interrupts may come between the
iterations of the search; a creation leaves its caller's slot alone as long as
no iteration that looks at that slot finds a zombie there.
-/

namespace Ferrugem.SlotReuse

open Ferrugem.ProcessModel Ferrugem.SchedulerModel Ferrugem.KernelMachine
open Ferrugem.KernelEvolution Ferrugem.TaskLifecycle Ferrugem.PreemptedCalls
open Ferrugem.ZombieStates

set_option autoImplicit false

/-- The new task does not take the slot whose kernel stack is executing. -/
def InstalledElsewhere : Event → Prop
  | .installed slot current => slot ≠ current
  | _ => True

/-- The slot that the move looks at, if it is an iteration of a slot search. -/
def slotTested (machine : Machine) : Move → Option Slot
  | .advances =>
      if machine.halted then none
      else
        match machine.running.progress with
        | .creating _ _ (.searching (slot :: _)) => some slot
        | _ => none
  | _ => none

def SearchSparesCaller (machine : Machine) (move : Move) : Prop :=
  slotTested machine move = some machine.kernel.current →
    machine.kernel.vacant machine.kernel.current = false

instance decidableSearchSparesCaller (machine : Machine) (move : Move) :
    Decidable (SearchSparesCaller machine move) :=
  inferInstanceAs (Decidable (_ → _))

theorem first_vacant_least {kernel : Kernel} {slot : Slot}
    (found : kernel.firstVacant = some slot) :
    slot ≠ idleSlot ∧ kernel.vacant slot = true ∧
      ∀ lower, lower ≠ idleSlot → lower < slot → kernel.vacant lower = false := by
  obtain ⟨vacant, before, after, split, occupied⟩ := List.find?_eq_some_iff_append.mp found
  have sorted : taskSlots.Pairwise (· < ·) := (List.pairwise_lt_finRange maxTasks).tail
  have member : slot ∈ taskSlots := List.mem_of_find?_eq_some found
  refine ⟨?_, vacant, ?_⟩
  · rintro rfl
    exact absurd member (by decide)
  · intro lower different below
    have listed := mem_task_slots different
    rw [split] at listed sorted
    rcases List.mem_append.mp listed with earlier | later
    · simpa using occupied lower earlier
    · rcases List.mem_cons.mp later with same | beyond
      · exact absurd same below.ne
      · have above := List.rel_of_pairwise_cons (List.pairwise_append.mp sorted).2.1 beyond
        exact absurd above below.asymm

def slotFound : CreationPoint → Option Slot
  | .searching _ => none
  | .reading slot => some slot
  | .adding slot _ => some slot
  | .storing slot _ _ => some slot
  | .counting slot _ _ => some slot
  | .installing slot _ => some slot

def creationSlot : Progress → Option Slot
  | .statements _ => none
  | .creating _ _ point => slotFound point

def CreatorsSpared (machine : Machine) : Prop :=
  ∀ slot, creationSlot (progressOf machine slot) ≠ some slot

theorem creators_spared_boot : CreatorsSpared bootMachine := by
  intro slot
  unfold progressOf
  split_ifs <;> exact nofun

theorem creators_spared_with {machine : Machine} {kernel : Kernel} {progress : Progress}
    (spared : CreatorsSpared machine) (current : kernel.current = machine.kernel.current)
    (other : creationSlot progress ≠ some machine.kernel.current) :
    CreatorsSpared (withProgress (machine.withKernel kernel) progress) := by
  intro slot
  rw [progress_of_with_progress current]
  split_ifs with running
  · rw [running]
    exact other
  · exact spared slot

theorem next_point_slot {machine : Machine} {request : Kernel.SpawnRequest} {userRsp : Nat}
    {point : CreationPoint} (running : machine.halted = false)
    (left : machine.running.progress = .creating request userRsp point)
    (spares : SearchSparesCaller machine .advances)
    (other : slotFound point ≠ some machine.kernel.current) :
    creationSlot (creationProgress request userRsp (nextPoint machine.kernel request point)) ≠
      some machine.kernel.current := by
  cases point with
  | searching slots =>
      cases slots with
      | nil => exact nofun
      | cons slot slots =>
          simp only [nextPoint, creationProgress, creationSlot]
          split_ifs with vacant
          · intro own
            cases own
            have occupied := spares (by simp [slotTested, running, left])
            rw [vacant] at occupied
            cases occupied
          · exact nofun
  | counting slot pid fds => cases fds <;> exact other
  | installing slot pid => exact nofun
  | reading slot => exact other
  | adding slot pid => exact other
  | storing slot pid loaded => exact other

theorem creators_spared_step (machine : Machine) (move : Move) (spared : CreatorsSpared machine)
    (spares : SearchSparesCaller machine move) : CreatorsSpared (step machine move).1 := by
  have own := spared machine.kernel.current
  rw [progress_current] at own
  have shape := move_case machine move
  generalize step machine move = result at shape ⊢
  cases shape with
  | idle => exact spared
  | whole running going taken =>
      intro slot
      rw [progress_of_perform taken]
      exact spared slot
  | @begins call running rests =>
      refine @creators_spared_with machine machine.kernel _ spared rfl ?_
      cases call with
      | spawn kind =>
          simp only [beginning]
          split <;> exact nofun
      | _ => exact (Option.some_ne_none _).symm
  | @switches rest running left =>
      intro slot
      rw [progress_of_schedule]
      exact @creators_spared_with machine machine.kernel (.statements rest) spared rfl nofun slot
  | @runs stage rest running left stays =>
      exact creators_spared_with spared (stage_effect machine.kernel stage).current nofun
  | creates running left earlier =>
      rw [left] at own
      exact creators_spared_with spared (point_effect_earlier machine.kernel earlier).2.1
        (next_point_slot running left spares own)
  | @installs request userRsp target pid running left =>
      intro slot
      rw [progress_of_store_task]
      split_ifs
      · exact nofun
      · exact spared slot

theorem whole_installs_nothing {machine : Machine} {action : Action} {slot current : Slot}
    (taken : isInterrupt action = true ∨ staysWhole action = true ∧ atRest machine = true) :
    (machine.perform action).2 ≠ some (.installed slot current) := by
  intro emitted
  have shape := perform_case machine action
  generalize machine.perform action = result at shape emitted
  cases shape with
  | @switches _ before source evolves others =>
      obtain ⟨slot, switchedOut, loaded, other⟩ := schedule_emits emitted
      cases other
  | installs chosen =>
      rcases taken with interrupt | ⟨stays, -⟩
      · exact absurd interrupt Bool.false_ne_true
      · exact absurd stays Bool.false_ne_true
  | returns inside =>
      simp only [Machine.sysret, inside] at emitted
      cases emitted
  | _ => cases emitted

theorem installs_from {machine : Machine} {move : Move} {slot current : Slot}
    (emitted : (step machine move).2 = some (.installed slot current)) :
    ∃ request userRsp pid, machine.halted = false ∧ move = .advances ∧
      machine.running.progress = .creating request userRsp (.installing slot pid) ∧
      current = machine.kernel.current := by
  have shape := move_case machine move
  generalize step machine move = result at shape emitted
  cases shape with
  | whole running going taken => exact absurd emitted (whole_installs_nothing taken)
  | switches running left =>
      obtain ⟨slot, switchedOut, loaded, other⟩ := schedule_emits emitted
      cases other
  | installs running left =>
      cases emitted
      exact ⟨_, _, _, running, rfl, left, rfl⟩
  | _ => cases emitted

theorem step_installs_elsewhere (machine : Machine) (move : Move) (event : Event)
    (spared : CreatorsSpared machine) (emitted : (step machine move).2 = some event) :
    InstalledElsewhere event := by
  cases event with
  | installed slot current =>
      obtain ⟨request, userRsp, pid, -, -, left, rfl⟩ := installs_from emitted
      have own := spared machine.kernel.current
      rw [progress_current, left] at own
      exact fun same => own (congrArg some same)
  | _ => trivial

/-- In every run in which no slot search finds its caller's own slot vacant, no new
task is installed in the running slot. -/
theorem running_slot_never_given_away (moves : List Move)
    (spares : preemptedSystem.StepsMeet SearchSparesCaller preemptedSystem.init moves) :
    ∀ event ∈ preemptedSystem.traceFrom preemptedSystem.init moves, InstalledElsewhere event :=
  EventSystem.trace_satisfies CreatorsSpared creators_spared_step
    (fun machine move event spared _ emitted =>
      step_installs_elsewhere machine move event spared emitted) creators_spared_boot spares

def forkAgain : List Move :=
  .begins (.spawn (.fork 0x50000 0x59000 0x60000 0x7000)) :: advances 23

/-- The terminated task forks: its own slot is the first vacant one. -/
theorem running_slot_taken_by_fork :
    ¬∀ moves : List Move,
      ∀ event ∈ preemptedSystem.traceFrom preemptedSystem.init moves,
        InstalledElsewhere event := by
  intro elsewhere
  have wrong := elsewhere (killedWhileRunning ++ forkAgain)
    (.installed ⟨1, by decide⟩ ⟨1, by decide⟩) (by decide +kernel)
  exact wrong rfl

/-- A living task forks twice. -/
theorem running_slot_kept_by_live_fork :
    preemptedSystem.StepsMeet SearchSparesCaller preemptedSystem.init (forked ++ forkAgain) ∧
      ∀ event ∈ preemptedSystem.traceFrom preemptedSystem.init (forked ++ forkAgain),
        InstalledElsewhere event := by
  have spares : preemptedSystem.StepsMeet SearchSparesCaller preemptedSystem.init
      (forked ++ forkAgain) := by
    decide +kernel
  exact ⟨spares, running_slot_never_given_away _ spares⟩

end Ferrugem.SlotReuse
