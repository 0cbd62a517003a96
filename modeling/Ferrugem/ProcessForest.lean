import Ferrugem.ExitStatuses

/-!
# The process forest

A pid is drawn after the parent's pid was read, and before the task is stored in
its slot. Interrupts may switch tasks anywhere in between, and a parent may be gone
by then. As long as no other draw comes inside a draw and the counter does not run
out, a pid nevertheless names one slot and one parent for a whole run, and a parent
was drawn before its children, so that the parent links lead down to the idle task.
-/

namespace Ferrugem.ProcessForest

open Ferrugem.ProcessModel Ferrugem.SchedulerModel Ferrugem.KernelMachine
open Ferrugem.KernelEvolution Ferrugem.TaskLifecycle Ferrugem.PreemptedCalls
open Ferrugem.ZombieStates Ferrugem.ExitStatuses

set_option autoImplicit false

/-- The slots that the creation may still store its task in. -/
def slotsAhead : CreationPoint → List Slot
  | .searching slots => slots
  | .reading slot => [slot]
  | .adding slot _ => [slot]
  | .storing slot _ _ => [slot]
  | .counting slot _ _ => [slot]
  | .installing slot _ => [slot]

/-- The parent's pid is below the child's, and the idle slot is not looked at. -/
def ParentDrawn (nextPid : Nat) : Progress → Prop
  | .statements _ => True
  | .creating request userRsp point =>
      request.child.ppid < (drawnPid (.creating request userRsp point)).getD nextPid ∧
        idleSlot ∉ slotsAhead point

theorem parent_drawn_mono {nextPid later : Nat} {progress : Progress}
    (drawn : ParentDrawn nextPid progress) (grows : nextPid ≤ later) :
    ParentDrawn later progress := by
  cases progress with
  | statements stages => trivial
  | creating request userRsp point =>
      refine ⟨?_, drawn.2⟩
      have parent := drawn.1
      cases pid : drawnPid (.creating request userRsp point) with
      | none =>
          rw [pid] at parent
          exact parent.trans_le grows
      | some own =>
          rw [pid] at parent
          exact parent

theorem current_pid_drawn {kernel : Kernel} (fresh : PidsFresh kernel)
    (positive : 0 < kernel.nextPid) : kernel.currentPid < kernel.nextPid := by
  unfold Kernel.currentPid Kernel.currentTask
  cases present : kernel.tasks kernel.current with
  | none => exact positive
  | some task => exact fresh.below kernel.current task present

theorem spawn_request_parent {machine : Machine} {kind : Machine.SpawnKind}
    {request : Kernel.SpawnRequest} {userRsp : Nat}
    (gathered : machine.spawnRequest kind = some (request, userRsp)) :
    request.child.ppid = machine.kernel.currentPid := by
  cases kind with
  | kernelFn guardPhys stackTop => cases gathered; rfl
  | user guardPhys stackTop pageTablePhys heapBrk userRsp => cases gathered; rfl
  | fork guardPhys stackTop pageTablePhys userRsp =>
      simp only [Machine.spawnRequest, Kernel.spawnForkRequest, Option.map_map,
        Option.map_eq_some_iff] at gathered
      obtain ⟨parent, -, made⟩ := gathered
      cases made
      rfl

theorem beginning_drawn {machine : Machine} (call : Call) (fresh : PidsFresh machine.kernel)
    (positive : 0 < machine.kernel.nextPid) :
    ParentDrawn machine.kernel.nextPid (beginning machine call) := by
  cases call with
  | spawn kind =>
      simp only [beginning]
      split
      · rename_i request userRsp gathered
        refine ⟨?_, fun member => (mem_task_slots_iff idleSlot).mp member rfl⟩
        rw [spawn_request_parent gathered]
        exact current_pid_drawn fresh positive
      · trivial
  | _ => trivial

/-- The idle task has pid zero; every other task has an older parent. -/
def ParentsOlder (kernel : Kernel) : Prop :=
  ∀ slot task, kernel.tasks slot = some task →
    if slot = idleSlot then task.pid = 0 else task.ppid < task.pid

structure Forest (machine : Machine) : Prop where
  apart : PidsApart machine
  positive : 0 < machine.kernel.nextPid
  older : ParentsOlder machine.kernel
  creations : ∀ slot, ParentDrawn machine.kernel.nextPid (progressOf machine slot)

theorem forest_boot : Forest bootMachine where
  apart := pids_apart_boot
  positive := Nat.one_pos
  older := by
    intro slot task present
    simp only [bootMachine, boot] at present
    split_ifs at present with idle
    cases present
    rw [if_pos idle]
    rfl
  creations := by
    intro slot
    unfold progressOf
    split_ifs <;> trivial

theorem parents_older_kept {before after : Kernel} (older : ParentsOlder before)
    (kept : IdentitiesKept before after) : ParentsOlder after := by
  intro slot later present
  obtain ⟨prior, priorPresent, pid, ppid⟩ := kept.tasks slot later present
  rw [pid, ppid]
  exact older slot prior priorPresent

theorem creations_with {machine : Machine} {kernel : Kernel} {progress : Progress}
    (creations : ∀ slot, ParentDrawn machine.kernel.nextPid (progressOf machine slot))
    (current : kernel.current = machine.kernel.current)
    (grows : machine.kernel.nextPid ≤ kernel.nextPid)
    (drawn : ParentDrawn kernel.nextPid progress) (slot : Slot) :
    ParentDrawn kernel.nextPid
      (progressOf (withProgress (machine.withKernel kernel) progress) slot) := by
  rw [progress_of_with_progress current]
  split_ifs
  · exact drawn
  · exact parent_drawn_mono (creations slot) grows

theorem next_point_drawn {kernel : Kernel} {request : Kernel.SpawnRequest} {userRsp : Nat}
    {point : CreationPoint} (drawn : ParentDrawn kernel.nextPid (.creating request userRsp point))
    (earlier : ∀ slot pid, point ≠ .installing slot pid)
    (stored : ∀ slot pid loaded, point = .storing slot pid loaded → kernel.nextPid = pid) :
    ParentDrawn (pointEffect kernel request point).nextPid
      (creationProgress request userRsp (nextPoint kernel request point)) := by
  obtain ⟨parent, ahead⟩ := drawn
  cases point with
  | searching slots =>
      cases slots with
      | nil => trivial
      | cons slot slots =>
          obtain ⟨here, later⟩ := not_or.mp (fun member => ahead (List.mem_cons.mpr member))
          simp only [nextPoint, creationProgress]
          split_ifs
          · exact ⟨parent, fun member => here (List.mem_singleton.mp member)⟩
          · exact ⟨parent, later⟩
  | reading slot => exact ⟨parent, ahead⟩
  | adding slot pid => exact ⟨parent, ahead⟩
  | storing slot pid loaded =>
      have next := stored slot pid loaded rfl
      subst next
      exact ⟨parent, ahead⟩
  | counting slot pid fds => cases fds <;> exact ⟨parent, ahead⟩
  | installing slot pid => exact absurd rfl (earlier slot pid)

theorem point_keeps_counter {machine : Machine} {request : Kernel.SpawnRequest}
    {userRsp : Nat} {point : CreationPoint} (apart : PidsApart machine)
    (left : machine.running.progress = .creating request userRsp point)
    (stored : ∀ slot pid loaded, point = .storing slot pid loaded →
      machine.kernel.nextPid = pid ∧ pid < u64Max) :
    machine.kernel.nextPid ≤ (pointEffect machine.kernel request point).nextPid := by
  cases point with
  | storing slot pid loaded =>
      obtain ⟨next, small⟩ := stored slot pid loaded rfl
      rw [(@pids_apart_draw machine request userRsp slot pid loaded apart left next small []).1]
      omega
  | counting slot pid fds => cases fds <;> exact le_rfl
  | _ => exact le_rfl

theorem parents_older_store {machine : Machine} {request : Kernel.SpawnRequest} {userRsp : Nat}
    {target : Slot} {pid : Nat} (forest : Forest machine)
    (left : machine.running.progress = .creating request userRsp (.installing target pid)) :
    ParentsOlder (storeTask machine request userRsp target pid).kernel := by
  have drawn := forest.creations machine.kernel.current
  rw [progress_current, left] at drawn
  obtain ⟨parent, ahead⟩ := drawn
  intro other task present
  rcases stored_task present with ⟨rfl, rfl⟩ | prior
  · rw [if_neg fun idle => ahead (List.mem_singleton.mpr idle.symm)]
    exact parent
  · exact forest.older other task prior

theorem forest_step (machine : Machine) (move : Move) (forest : Forest machine)
    (pids : PidsLeft machine move) : Forest (step machine move).1 := by
  have apart := pids_apart_step machine move forest.apart pids
  have shape := move_case machine move
  generalize step machine move = result at shape apart ⊢
  cases shape with
  | idle => exact forest
  | whole running going taken =>
      have kept := identities_perform taken
      refine ⟨apart, ?_, parents_older_kept forest.older kept, ?_⟩
      · rw [kept.nextPid]
        exact forest.positive
      · intro slot
        rw [kept.nextPid, progress_of_perform taken]
        exact forest.creations slot
  | @begins call running rests =>
      exact ⟨apart, forest.positive, forest.older,
        @creations_with machine machine.kernel _ forest.creations rfl le_rfl
          (beginning_drawn call forest.apart.fresh forest.positive)⟩
  | @switches rest running left =>
      have popped := @creations_with machine machine.kernel (.statements rest) forest.creations
        rfl le_rfl trivial
      have kept := identities_schedule (withProgress machine (.statements rest))
      refine ⟨apart, ?_, parents_older_kept forest.older kept, ?_⟩
      · rw [kept.nextPid]
        exact forest.positive
      · intro slot
        rw [kept.nextPid, progress_of_schedule]
        exact popped slot
  | @runs stage rest running left stays =>
      have kept := identities_stage machine.kernel stage
      refine ⟨apart, ?_, parents_older_kept forest.older kept, ?_⟩
      · change 0 < (effect machine.kernel stage).nextPid
        rw [kept.nextPid]
        exact forest.positive
      · exact creations_with forest.creations (stage_effect machine.kernel stage).current
          kept.nextPid.ge trivial
  | @creates request userRsp point running left earlier =>
      have stored : ∀ slot pid loaded, point = .storing slot pid loaded →
          machine.kernel.nextPid = pid ∧ pid < u64Max := by
        rintro slot pid loaded rfl
        exact pids pid (by simp [pidInHand, point_taken_eq running left])
      obtain ⟨tasks, current, -, -⟩ := @point_effect_earlier request point machine.kernel earlier
      have grows := point_keeps_counter forest.apart left stored
      have drawn := forest.creations machine.kernel.current
      rw [progress_current, left] at drawn
      refine ⟨apart, forest.positive.trans_le grows, ?_, ?_⟩
      · intro slot task present
        exact forest.older slot task (tasks ▸ present)
      · exact creations_with forest.creations current grows
          (next_point_drawn drawn earlier fun slot pid loaded same =>
            (stored slot pid loaded same).1)
  | @installs request userRsp target pid running left =>
      refine ⟨apart, forest.positive, parents_older_store forest left, ?_⟩
      intro slot
      rw [progress_of_store_task]
      split_ifs
      · trivial
      · exact forest.creations slot

/-- In every run that does not exhaust the pids, and in which no draw is disturbed, a
pid names one slot and one parent for good, and the parent's pid is the smaller one. -/
theorem pids_name_tasks (before after : List Move)
    (left : preemptedSystem.StepsMeet PidsLeft preemptedSystem.init (before ++ after))
    {slot other : Slot} {early late : Task}
    (earlyPresent :
      (preemptedSystem.runFrom preemptedSystem.init before).kernel.tasks slot = some early)
    (latePresent : (preemptedSystem.runFrom preemptedSystem.init
      (before ++ after)).kernel.tasks other = some late)
    (same : early.pid = late.pid) :
    slot = other ∧ early.ppid = late.ppid ∧
      if slot = idleSlot then early.pid = 0 else early.ppid < early.pid := by
  obtain ⟨leftBefore, leftAfter⟩ := (preemptedSystem.steps_meet_append _ _ _ _).mp left
  have forest := EventSystem.run_preserves Forest forest_step forest_boot leftBefore
  set start := preemptedSystem.runFrom preemptedSystem.init before
  -- The task of the earlier state is the only one that may have its pid.
  have settled : PidSettled (fun holder parent => holder = slot ∧ parent = early.ppid)
      early.pid start := by
    refine ⟨forest.apart.fresh.below slot early earlyPresent, ?_, ?_⟩
    · intro holder task present named
      have here := forest.apart.fresh.distinct holder slot task early present earlyPresent named
      subst here
      rw [Option.some.inj (present.symm.trans earlyPresent)]
      exact ⟨rfl, rfl⟩
    · intro holder member
      exact forest.apart.new holder early.pid member slot early earlyPresent rfl
  have kept := EventSystem.run_preserves
    (fun machine => PidsApart machine ∧
      PidSettled (fun holder parent => holder = slot ∧ parent = early.ppid) early.pid machine)
    (fun machine move both pids => ⟨pids_apart_step machine move both.1 pids,
      pid_settled_step machine move both.1 both.2 pids⟩)
    ⟨forest.apart, settled⟩ leftAfter
  rw [EventSystem.run_from_append] at latePresent
  obtain ⟨here, parent⟩ := kept.2.held other late latePresent same.symm
  exact ⟨here.symm, parent.symm, forest.older slot early earlyPresent⟩

/-- A task forks, is switched out, and its child forks in its turn, with a tick inside
the draw of the grandchild's pid. -/
def grandchildren : List Move :=
  forked ++ [.whole .schedule, .begins (.spawn (.fork 0x50000 0x59000 0x60000 0x7000))] ++
    advances 5 ++ ticks 1 ++ advances 19

theorem grandchild_named :
    ∃ early late,
      (preemptedSystem.runFrom preemptedSystem.init grandchildren).kernel.tasks ⟨3, by decide⟩ =
          some early ∧
        (preemptedSystem.runFrom preemptedSystem.init
          (grandchildren ++ [.whole .schedule])).kernel.tasks ⟨3, by decide⟩ = some late ∧
        early.ppid = late.ppid ∧ early.ppid < early.pid := by
  have presence (moves : List Move)
      (present : ((preemptedSystem.runFrom preemptedSystem.init moves).kernel.tasks
        ⟨3, by decide⟩).any (fun task => task.pid == 3) = true) :
      ∃ task, (preemptedSystem.runFrom preemptedSystem.init moves).kernel.tasks ⟨3, by decide⟩ =
        some task ∧ task.pid = 3 := by
    simpa [Option.any_eq_true] using present
  obtain ⟨early, earlyPresent, earlyPid⟩ := presence grandchildren (by decide +kernel)
  obtain ⟨late, latePresent, latePid⟩ := presence (grandchildren ++ [.whole .schedule])
    (by decide +kernel)
  have left : preemptedSystem.StepsMeet PidsLeft preemptedSystem.init
      (grandchildren ++ [.whole .schedule]) := by
    decide +kernel
  have named := pids_name_tasks grandchildren [.whole .schedule] left earlyPresent latePresent
    (earlyPid.trans latePid.symm)
  exact ⟨early, late, earlyPresent, latePresent, named.2.1, named.2.2⟩

end Ferrugem.ProcessForest
