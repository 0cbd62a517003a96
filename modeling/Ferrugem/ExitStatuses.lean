import Ferrugem.SlotReuse

/-!
# Exit statuses

`waitpid` takes an exit status from the slot of the terminated child. The
creation functions treat such a slot as vacant, so the status survives until
the parent asks only if no creation has found the slot in the meantime. Pids
are drawn from a counter. A pid identifies one child, and no two calls of
`waitpid` return the same one, as long as no task switch comes inside a draw.
-/

namespace Ferrugem.ExitStatuses

open Ferrugem.ProcessModel Ferrugem.SchedulerModel Ferrugem.KernelMachine
open Ferrugem.KernelEvolution Ferrugem.TaskLifecycle Ferrugem.PreemptedCalls
open Ferrugem.ZombieStates Ferrugem.SlotReuse

set_option autoImplicit false

def reapedPid : Event → Option Nat
  | .reaped _ pid _ => some pid
  | _ => none

def pointTaken (machine : Machine) : Move → Option CreationPoint
  | .advances =>
      if machine.halted then none
      else
        match machine.running.progress with
        | .creating _ _ point => some point
        | _ => none
  | _ => none

/-- The slot in which the move installs a new task, if it does. -/
def installSlot (machine : Machine) (move : Move) : Option Slot :=
  match pointTaken machine move with
  | some (.installing slot _) => some slot
  | _ => none

/-- The pid of a draw that the move goes on with: `NEXT_PID` has been read and not
yet been written. -/
def pidInHand (machine : Machine) (move : Move) : Option Nat :=
  match pointTaken machine move with
  | some (.adding _ pid) => some pid
  | some (.storing _ pid _) => some pid
  | _ => none

/-- The counter still holds the pid in hand, and is not exhausted. -/
def PidsLeft (machine : Machine) (move : Move) : Prop :=
  ∀ pid ∈ pidInHand machine move, machine.kernel.nextPid = pid ∧ pid < u64Max

instance decidablePidsLeft (machine : Machine) (move : Move) : Decidable (PidsLeft machine move) :=
  inferInstanceAs (Decidable (∀ pid ∈ pidInHand machine move, _))

def awaits (parentPid : Nat) (task : Task) : Bool :=
  task.state == .zombie && task.ppid == parentPid

/-- No pid is drawn twice; a creation does not take the slot of an uncollected child;
an uncollected child that is still running neither blocks nor stores another exit
code, and no wake-up makes it ready. -/
structure KeepsChildrenOf (parentPid : Nat) (machine : Machine) (move : Move) : Prop where
  pids : PidsLeft machine move
  slots : ∀ slot ∈ installSlot machine move,
    (machine.kernel.tasks slot).all (fun task => !awaits parentPid task) = true
  running : (blocks machine move || storesExitCode machine move) = true →
    machine.kernel.currentTask.all (fun task => !awaits parentPid task) = true
  woken : ∀ slot ∈ storesReady machine move,
    (machine.kernel.tasks slot).all (fun task => !awaits parentPid task) = true

theorem keeps_children_of_iff {parentPid : Nat} {machine : Machine} {move : Move} :
    KeepsChildrenOf parentPid machine move ↔
      PidsLeft machine move ∧
      (∀ slot ∈ installSlot machine move,
        (machine.kernel.tasks slot).all (fun task => !awaits parentPid task) = true) ∧
      ((blocks machine move || storesExitCode machine move) = true →
        machine.kernel.currentTask.all (fun task => !awaits parentPid task) = true) ∧
      ∀ slot ∈ storesReady machine move,
        (machine.kernel.tasks slot).all (fun task => !awaits parentPid task) = true :=
  ⟨fun keeps => ⟨keeps.pids, keeps.slots, keeps.running, keeps.woken⟩,
    fun all => ⟨all.1, all.2.1, all.2.2.1, all.2.2.2⟩⟩

instance decidableKeepsChildrenOf (parentPid : Nat) (machine : Machine) (move : Move) :
    Decidable (KeepsChildrenOf parentPid machine move) :=
  decidable_of_iff' _ keeps_children_of_iff

structure PidsFresh (kernel : Kernel) : Prop where
  below : ∀ slot task, kernel.tasks slot = some task → task.pid < kernel.nextPid
  distinct : ∀ first second left right, kernel.tasks first = some left →
    kernel.tasks second = some right → left.pid = right.pid → first = second
  bound : kernel.nextPid ≤ u64Max

theorem pids_fresh_boot : PidsFresh boot where
  below := by
    intro slot task present
    simp only [boot] at present
    split_ifs at present
    cases present
    decide
  distinct := by
    intro first second left right leftPresent rightPresent same
    simp only [boot] at leftPresent rightPresent
    split_ifs at leftPresent rightPresent with firstIdle secondIdle
    exact firstIdle.trans secondIdle.symm
  bound := by decide

def SameIdentity (before after : Task) : Prop := after.pid = before.pid ∧ after.ppid = before.ppid

structure IdentitiesKept (before after : Kernel) : Prop where
  tasks : ∀ slot later, after.tasks slot = some later →
    ∃ prior, before.tasks slot = some prior ∧ SameIdentity prior later
  nextPid : after.nextPid = before.nextPid

theorem pids_fresh_kept {before after : Kernel} (fresh : PidsFresh before)
    (kept : IdentitiesKept before after) : PidsFresh after where
  below := by
    intro slot task present
    obtain ⟨prior, priorPresent, pid, -⟩ := kept.tasks slot task present
    rw [pid, kept.nextPid]
    exact fresh.below slot prior priorPresent
  distinct := by
    intro first second left right leftPresent rightPresent same
    obtain ⟨priorLeft, priorLeftPresent, leftPid, -⟩ := kept.tasks first left leftPresent
    obtain ⟨priorRight, priorRightPresent, rightPid, -⟩ := kept.tasks second right rightPresent
    exact fresh.distinct first second priorLeft priorRight priorLeftPresent priorRightPresent
      (leftPid.symm.trans (same.trans rightPid))
  bound := kept.nextPid ▸ fresh.bound

theorem identities_of_evolves {before after : Kernel} (evolves : KernelEvolves before after) :
    IdentitiesKept before after where
  tasks := fun _ _ present => by
    obtain ⟨prior, priorPresent, change⟩ := evolves.task_before present
    exact ⟨prior, priorPresent, change.pid, change.ppid⟩
  nextPid := evolves.nextPid

theorem identities_refl (kernel : Kernel) : IdentitiesKept kernel kernel :=
  identities_of_evolves (KernelEvolves.refl kernel)

theorem identities_set_task {base kernel : Kernel} {slot : Slot} {before after : Task}
    (tasks : base.tasks = kernel.tasks) (nextPid : base.nextPid = kernel.nextPid)
    (present : kernel.tasks slot = some before) (same : SameIdentity before after) :
    IdentitiesKept kernel (base.setTask slot after) where
  tasks := by
    intro other later laterPresent
    by_cases here : other = slot
    · subst here
      rw [set_task_same] at laterPresent
      cases laterPresent
      exact ⟨before, present, same⟩
    · rw [set_task_other base after here, tasks] at laterPresent
      exact ⟨later, laterPresent, rfl, rfl⟩
  nextPid := nextPid

theorem identities_modify {kernel : Kernel} {change : Task → Task}
    (same : ∀ task, SameIdentity task (change task)) :
    IdentitiesKept kernel (kernel.modifyCurrent change) := by
  unfold Kernel.modifyCurrent
  split
  · rename_i task present
    exact identities_set_task rfl rfl present (same task)
  · exact identities_refl _

theorem identities_trans {first second third : Kernel} (left : IdentitiesKept first second)
    (right : IdentitiesKept second third) : IdentitiesKept first third where
  tasks := by
    intro slot later present
    obtain ⟨middle, middlePresent, upper⟩ := right.tasks slot later present
    obtain ⟨prior, priorPresent, lower⟩ := left.tasks slot middle middlePresent
    exact ⟨prior, priorPresent, upper.1.trans lower.1, upper.2.trans lower.2⟩
  nextPid := right.nextPid.trans left.nextPid

theorem identities_schedule (machine : Machine) :
    IdentitiesKept machine.kernel machine.schedule.1.kernel := by
  have shape := schedule_case machine
  generalize machine.schedule = result at shape ⊢
  cases shape with
  | stays => exact identities_refl _
  | halts => exact identities_refl _
  | @switched next prevTask nextTask picked different incoming outgoing =>
      rw [resume_kernel]
      have saved : IdentitiesKept machine.kernel (machine.kernel.setTask machine.kernel.current
          { prevTask with fsBase := machine.fsBase }) :=
        identities_set_task rfl rfl outgoing ⟨rfl, rfl⟩
      exact ⟨saved.tasks, rfl⟩

theorem identities_perform {machine : Machine} {action : Action}
    (taken : isInterrupt action = true ∨ staysWhole action = true ∧ atRest machine = true) :
    IdentitiesKept machine.kernel (machine.perform action).1.kernel := by
  have shape := perform_case machine action
  generalize machine.perform action = result at shape ⊢
  cases shape with
  | quiet origin evolves => exact identities_of_evolves evolves
  | @switches _ before source evolves others =>
      exact identities_trans (identities_of_evolves evolves) (identities_schedule before)
  | halts => exact identities_refl _
  | exits present => exact identities_set_task rfl rfl present ⟨rfl, rfl⟩
  | @reaps _ _ reapedSlot _ found present =>
      refine ⟨?_, rfl⟩
      intro slot later remaining
      by_cases cleared : slot = reapedSlot
      · subst cleared
        simp [Machine.withKernel] at remaining
      · simp only [Machine.withKernel, Function.update_of_ne cleared] at remaining
        exact ⟨later, remaining, rfl, rfl⟩
  | blocksOnChild absent living present => exact identities_set_task rfl rfl present ⟨rfl, rfl⟩
  | blocksOnTty present => exact identities_set_task rfl rfl present ⟨rfl, rfl⟩
  | blocksOnPipe must present => exact identities_set_task rfl rfl present ⟨rfl, rfl⟩
  | gathers unchosen => exact identities_refl _
  | chooses gathered vacant => exact identities_refl _
  | installs chosen =>
      rcases taken with interrupt | ⟨stays, -⟩
      · exact absurd interrupt Bool.false_ne_true
      · exact absurd stays Bool.false_ne_true
  | setsFsBase => exact identities_modify fun _ => ⟨rfl, rfl⟩
  | writesFsBase => exact identities_refl _
  | execs inside =>
      simp only [Machine.execve, inside]
      exact identities_modify fun _ => ⟨rfl, rfl⟩
  | movesStack outside => exact identities_refl _
  | enters outside user => exact identities_refl _
  | returns inside =>
      rw [sysret_kernel]
      exact identities_refl _

theorem identities_stage (kernel : Kernel) (stage : Stage) :
    IdentitiesKept kernel (effect kernel stage) where
  tasks := by
    intro slot later present
    have related := (stage_effect kernel stage).tasks slot
    rw [present] at related
    obtain ⟨prior, priorPresent, change⟩ := option_rel_before related
    exact ⟨prior, priorPresent, change.pid, change.ppid⟩
  nextPid := (stage_effect kernel stage).nextPid

/-- The pid that a creation has drawn and not stored yet. -/
def drawnPid : Progress → Option Nat
  | .creating _ _ (.counting _ pid _) => some pid
  | .creating _ _ (.installing _ pid) => some pid
  | _ => none

/-- The pid in hand and the value that is about to be incremented. -/
def drawing : Progress → Option (Nat × Nat)
  | .creating _ _ (.storing _ pid loaded) => some (pid, loaded)
  | _ => none

/-- The pids of the tasks and those drawn for new ones are all different. -/
structure PidsApart (machine : Machine) : Prop where
  fresh : PidsFresh machine.kernel
  below : ∀ slot, ∀ pid ∈ drawnPid (progressOf machine slot), pid < machine.kernel.nextPid
  new : ∀ slot, ∀ pid ∈ drawnPid (progressOf machine slot), ∀ other task,
    machine.kernel.tasks other = some task → task.pid ≠ pid
  once : ∀ first second, ∀ pid ∈ drawnPid (progressOf machine first),
    pid ∈ drawnPid (progressOf machine second) → first = second
  loaded : ∀ slot, ∀ draw ∈ drawing (progressOf machine slot), draw.2 = draw.1

theorem pids_apart_boot : PidsApart bootMachine := by
  have rest : ∀ slot, progressOf bootMachine slot = .statements [] := by
    intro slot
    unfold progressOf
    split_ifs <;> rfl
  constructor
  · exact pids_fresh_boot
  · intro slot pid member
    rw [rest] at member
    cases member
  · intro slot pid member
    rw [rest] at member
    cases member
  · intro first second pid member
    rw [rest] at member
    cases member
  · intro slot draw member
    rw [rest] at member
    cases member

theorem pids_apart_kept {before after : Machine} (apart : PidsApart before)
    (kept : IdentitiesKept before.kernel after.kernel)
    (drawn : ∀ slot, ∀ pid ∈ drawnPid (progressOf after slot),
      pid ∈ drawnPid (progressOf before slot))
    (loaded : ∀ slot, ∀ draw ∈ drawing (progressOf after slot), draw.2 = draw.1) :
    PidsApart after where
  fresh := pids_fresh_kept apart.fresh kept
  below := fun slot pid member => kept.nextPid ▸ apart.below slot pid (drawn slot pid member)
  new := by
    intro slot pid member other task present
    obtain ⟨prior, priorPresent, same, -⟩ := kept.tasks other task present
    rw [same]
    exact apart.new slot pid (drawn slot pid member) other prior priorPresent
  once := fun first second pid left right =>
    apart.once first second pid (drawn first pid left) (drawn second pid right)
  loaded := loaded

theorem pids_apart_with {machine : Machine} {kernel : Kernel} {progress : Progress}
    (apart : PidsApart machine) (kept : IdentitiesKept machine.kernel kernel)
    (current : kernel.current = machine.kernel.current)
    (drawn : ∀ pid ∈ drawnPid progress, pid ∈ drawnPid machine.running.progress)
    (loaded : ∀ draw ∈ drawing progress, draw.2 = draw.1) :
    PidsApart (withProgress (machine.withKernel kernel) progress) := by
  have after := progress_of_with_progress current progress
  refine pids_apart_kept apart kept ?_ ?_
  · intro slot pid member
    rw [after] at member
    split_ifs at member with here
    · subst here
      rw [progress_current]
      exact drawn pid member
    · exact member
  · intro slot draw member
    rw [after] at member
    split_ifs at member with here
    · exact loaded draw member
    · exact apart.loaded slot draw member

theorem pids_apart_undrawn {machine : Machine} {kernel : Kernel} {progress : Progress}
    (apart : PidsApart machine) (kept : IdentitiesKept machine.kernel kernel)
    (current : kernel.current = machine.kernel.current)
    (undrawn : drawnPid progress = none) (unread : drawing progress = none) :
    PidsApart (withProgress (machine.withKernel kernel) progress) := by
  refine pids_apart_with apart kept current ?_ ?_
  · intro pid member
    rw [undrawn] at member
    cases member
  · intro draw member
    rw [unread] at member
    cases member

theorem point_taken_eq {machine : Machine} {request : Kernel.SpawnRequest} {userRsp : Nat}
    {point : CreationPoint} (running : machine.halted = false)
    (left : machine.running.progress = .creating request userRsp point) :
    pointTaken machine .advances = some point := by
  simp [pointTaken, running, left]

theorem pids_apart_draw {machine : Machine} {request : Kernel.SpawnRequest} {userRsp : Nat}
    {slot : Slot} {pid loaded : Nat} (apart : PidsApart machine)
    (left : machine.running.progress = .creating request userRsp (.storing slot pid loaded))
    (next : machine.kernel.nextPid = pid) (small : pid < u64Max) {fds : List Fd} :
    (pointEffect machine.kernel request (.storing slot pid loaded)).nextPid = pid + 1 ∧
      PidsApart (withProgress
        (machine.withKernel (pointEffect machine.kernel request (.storing slot pid loaded)))
        (.creating request userRsp (.counting slot pid fds))) := by
  have same : loaded = pid := apart.loaded machine.kernel.current (pid, loaded) (by
    rw [progress_current, left]
    rfl)
  subst same
  have counter : (pointEffect machine.kernel request (.storing slot loaded loaded)).nextPid =
      loaded + 1 := by
    refine Nat.mod_eq_of_lt ?_
    simp only [u64Max] at small
    omega
  refine ⟨counter, ?_⟩
  have after := @progress_of_with_progress machine
    (pointEffect machine.kernel request (.storing slot loaded loaded)) rfl
    (.creating request userRsp (.counting slot loaded fds))
  have others : ∀ other, ∀ drawn ∈ drawnPid (progressOf machine other), drawn < loaded := by
    intro other drawn member
    rw [← next]
    exact apart.below other drawn member
  constructor
  · constructor
    · intro other task present
      have below := apart.fresh.below other task present
      change task.pid < (pointEffect machine.kernel request (.storing slot loaded loaded)).nextPid
      rw [counter]
      omega
    · exact apart.fresh.distinct
    · change (pointEffect machine.kernel request (.storing slot loaded loaded)).nextPid ≤ u64Max
      rw [counter]
      exact small
  · intro other drawn member
    change drawn < (pointEffect machine.kernel request (.storing slot loaded loaded)).nextPid
    rw [counter]
    rw [after] at member
    split_ifs at member with here
    · cases member
      exact Nat.lt_succ_self loaded
    · have := others other drawn member
      omega
  · intro other drawn member holder task present
    have below := apart.fresh.below holder task present
    rw [after] at member
    split_ifs at member with here
    · cases member
      omega
    · exact apart.new other drawn member holder task present
  · intro first second drawn leftMember rightMember
    rw [after] at leftMember rightMember
    split_ifs at leftMember rightMember with here there there
    · exact here.trans there.symm
    · cases leftMember
      exact absurd (others second loaded rightMember) (Nat.lt_irrefl loaded)
    · cases rightMember
      exact absurd (others first loaded leftMember) (Nat.lt_irrefl loaded)
    · exact apart.once first second drawn leftMember rightMember
  · intro other draw member
    rw [after] at member
    split_ifs at member with here
    · cases member
    · exact apart.loaded other draw member

theorem stored_task {machine : Machine} {request : Kernel.SpawnRequest} {userRsp : Nat}
    {target other : Slot} {pid : Nat} {task : Task}
    (present : (storeTask machine request userRsp target pid).kernel.tasks other = some task) :
    other = target ∧ task = { request.child with pid := pid } ∨
      machine.kernel.tasks other = some task := by
  by_cases written : other = target
  · subst written
    simp only [storeTask, withProgress, Machine.withKernel, pointEffect, Function.update_self,
      Option.some.injEq] at present
    exact .inl ⟨rfl, present.symm⟩
  · simp only [storeTask, withProgress, Machine.withKernel, pointEffect,
      Function.update_of_ne written] at present
    exact .inr present

theorem drawn_after_store {machine : Machine} {request : Kernel.SpawnRequest} {userRsp : Nat}
    {target other : Slot} {pid drawn : Nat}
    (member : drawn ∈ drawnPid
      (progressOf (storeTask machine request userRsp target pid) other)) :
    other ≠ machine.kernel.current ∧ drawn ∈ drawnPid (progressOf machine other) := by
  rw [progress_of_store_task] at member
  split_ifs at member with gone
  · cases member
  · exact ⟨fun here => gone (.inl here), member⟩

theorem pids_apart_store {machine : Machine} {request : Kernel.SpawnRequest} {userRsp : Nat}
    {target : Slot} {pid : Nat} (apart : PidsApart machine)
    (left : machine.running.progress = .creating request userRsp (.installing target pid)) :
    PidsApart (storeTask machine request userRsp target pid) := by
  have mine : pid ∈ drawnPid (progressOf machine machine.kernel.current) := by
    rw [progress_current, left]
    rfl
  constructor
  · constructor
    · intro other task present
      rcases stored_task present with ⟨-, rfl⟩ | prior
      · exact apart.below _ pid mine
      · exact apart.fresh.below other task prior
    · intro first second leftTask rightTask leftPresent rightPresent same
      rcases stored_task leftPresent with ⟨firstNew, rfl⟩ | leftPrior
      · rcases stored_task rightPresent with ⟨secondNew, -⟩ | rightPrior
        · exact firstNew.trans secondNew.symm
        · exact absurd same.symm (apart.new _ pid mine second rightTask rightPrior)
      · rcases stored_task rightPresent with ⟨secondNew, rfl⟩ | rightPrior
        · exact absurd same (apart.new _ pid mine first leftTask leftPrior)
        · exact apart.fresh.distinct first second leftTask rightTask leftPrior rightPrior same
    · exact apart.fresh.bound
  · intro other drawn member
    exact apart.below other drawn (drawn_after_store member).2
  · intro other drawn member holder task present
    obtain ⟨different, member⟩ := drawn_after_store member
    rcases stored_task present with ⟨-, rfl⟩ | prior
    · rintro rfl
      exact different (apart.once other machine.kernel.current pid member mine)
    · exact apart.new other drawn member holder task prior
  · intro first second drawn leftMember rightMember
    exact apart.once first second drawn (drawn_after_store leftMember).2
      (drawn_after_store rightMember).2
  · intro other draw member
    rw [progress_of_store_task] at member
    split_ifs at member with gone
    · cases member
    · exact apart.loaded other draw member

theorem pids_apart_point {machine : Machine} {request : Kernel.SpawnRequest} {userRsp : Nat}
    {point : CreationPoint} (apart : PidsApart machine) (running : machine.halted = false)
    (left : machine.running.progress = .creating request userRsp point)
    (earlier : ∀ slot pid, point ≠ .installing slot pid) (pids : PidsLeft machine .advances) :
    PidsApart (withProgress (machine.withKernel (pointEffect machine.kernel request point))
      (creationProgress request userRsp (nextPoint machine.kernel request point))) := by
  have taken := point_taken_eq running left
  have same : IdentitiesKept machine.kernel machine.kernel := identities_refl _
  cases point with
  | searching slots =>
      cases slots with
      | nil => exact pids_apart_undrawn apart same rfl rfl rfl
      | cons slot slots =>
          simp only [nextPoint, creationProgress]
          split_ifs <;> exact pids_apart_undrawn apart same rfl rfl rfl
  | reading slot => exact pids_apart_undrawn apart same rfl rfl rfl
  | adding slot pid =>
      refine pids_apart_with apart same rfl (fun _ member => by cases member) ?_
      intro draw member
      cases member
      exact (pids pid (by simp [pidInHand, taken])).1
  | storing slot pid loaded =>
      obtain ⟨next, small⟩ := pids pid (by simp [pidInHand, taken])
      exact (pids_apart_draw apart left next small).2
  | counting slot pid fds =>
      have kept : IdentitiesKept machine.kernel
          (pointEffect machine.kernel request (.counting slot pid fds)) := by
        cases fds <;> exact ⟨fun _ later present => ⟨later, present, rfl, rfl⟩, rfl⟩
      have current := (@point_effect_earlier request _ machine.kernel earlier).2.1
      cases fds <;>
      · refine pids_apart_with apart kept current ?_ (fun _ member => by cases member)
        rw [left]
        exact fun _ member => member
  | installing slot pid => exact absurd rfl (earlier slot pid)

theorem beginning_undrawn {machine : Machine} {call : Call} :
    drawnPid (beginning machine call) = none ∧ drawing (beginning machine call) = none := by
  cases call with
  | spawn kind =>
      simp only [beginning]
      split <;> exact ⟨rfl, rfl⟩
  | _ => exact ⟨rfl, rfl⟩

theorem pids_apart_step (machine : Machine) (move : Move) (apart : PidsApart machine)
    (pids : PidsLeft machine move) : PidsApart (step machine move).1 := by
  have shape := move_case machine move
  generalize step machine move = result at shape ⊢
  cases shape with
  | idle => exact apart
  | whole running going taken =>
      refine pids_apart_kept apart (identities_perform taken) ?_ ?_ <;>
        intro slot <;> rw [progress_of_perform taken]
      · exact fun _ member => member
      · exact apart.loaded slot
  | @begins call running rests =>
      exact @pids_apart_undrawn machine machine.kernel _ apart (identities_refl _) rfl
        beginning_undrawn.1 beginning_undrawn.2
  | @switches rest running left =>
      have popped : PidsApart (withProgress machine (.statements rest)) :=
        @pids_apart_undrawn machine machine.kernel (.statements rest) apart (identities_refl _)
          rfl rfl rfl
      refine pids_apart_kept popped (identities_schedule _) ?_ ?_ <;>
        intro slot <;> rw [progress_of_schedule]
      · exact fun _ member => member
      · exact popped.loaded slot
  | @runs stage rest running left stays =>
      exact pids_apart_undrawn apart (identities_stage machine.kernel stage)
        (stage_effect machine.kernel stage).current rfl rfl
  | creates running left earlier => exact pids_apart_point apart running left earlier pids
  | installs running left => exact pids_apart_store apart left

/-- A pid that is drawn for no further task: only a task in a slot and with a parent that
`holders` allows has it. -/
structure PidSettled (holders : Slot → Nat → Prop) (pid : Nat) (machine : Machine) : Prop where
  drawn : pid < machine.kernel.nextPid
  held : ∀ slot task, machine.kernel.tasks slot = some task → task.pid = pid →
    holders slot task.ppid
  undrawn : ∀ slot, pid ∉ drawnPid (progressOf machine slot)

abbrev PidGone : Nat → Machine → Prop := PidSettled fun _ _ => False

theorem pid_settled_kept {holders : Slot → Nat → Prop} {pid : Nat} {before after : Machine}
    (settled : PidSettled holders pid before) (kept : IdentitiesKept before.kernel after.kernel)
    (drawn : ∀ slot, pid ∈ drawnPid (progressOf after slot) →
      pid ∈ drawnPid (progressOf before slot)) : PidSettled holders pid after where
  drawn := kept.nextPid ▸ settled.drawn
  held := by
    intro slot later present named
    obtain ⟨prior, priorPresent, same, parent⟩ := kept.tasks slot later present
    rw [parent]
    exact settled.held slot prior priorPresent (same.symm.trans named)
  undrawn := fun slot member => settled.undrawn slot (drawn slot member)

theorem pid_settled_with {holders : Slot → Nat → Prop} {pid : Nat} {machine : Machine}
    {kernel : Kernel} {progress : Progress} (settled : PidSettled holders pid machine)
    (kept : IdentitiesKept machine.kernel kernel) (current : kernel.current = machine.kernel.current)
    (drawn : pid ∈ drawnPid progress → pid ∈ drawnPid machine.running.progress) :
    PidSettled holders pid (withProgress (machine.withKernel kernel) progress) := by
  refine pid_settled_kept settled kept ?_
  intro slot member
  rw [progress_of_with_progress current] at member
  split_ifs at member with here
  · rw [here, progress_current]
    exact drawn member
  · exact member

theorem pid_settled_undrawn {holders : Slot → Nat → Prop} {pid : Nat} {machine : Machine}
    {kernel : Kernel} {progress : Progress} (settled : PidSettled holders pid machine)
    (kept : IdentitiesKept machine.kernel kernel) (current : kernel.current = machine.kernel.current)
    (undrawn : drawnPid progress = none) :
    PidSettled holders pid (withProgress (machine.withKernel kernel) progress) := by
  refine pid_settled_with settled kept current ?_
  intro member
  rw [undrawn] at member
  cases member

theorem pid_settled_point {holders : Slot → Nat → Prop} {settledPid : Nat} {machine : Machine}
    {request : Kernel.SpawnRequest} {userRsp : Nat} {point : CreationPoint}
    (settled : PidSettled holders settledPid machine)
    (apart : PidsApart machine) (running : machine.halted = false)
    (left : machine.running.progress = .creating request userRsp point)
    (earlier : ∀ slot pid, point ≠ .installing slot pid) (pids : PidsLeft machine .advances) :
    PidSettled holders settledPid (withProgress
      (machine.withKernel (pointEffect machine.kernel request point))
      (creationProgress request userRsp (nextPoint machine.kernel request point))) := by
  have taken := point_taken_eq running left
  have same : IdentitiesKept machine.kernel machine.kernel := identities_refl _
  cases point with
  | searching slots =>
      cases slots with
      | nil => exact pid_settled_undrawn settled same rfl rfl
      | cons slot slots =>
          simp only [nextPoint, creationProgress]
          split_ifs <;> exact pid_settled_undrawn settled same rfl rfl
  | reading slot => exact pid_settled_undrawn settled same rfl rfl
  | adding slot pid => exact pid_settled_undrawn settled same rfl rfl
  | storing slot pid loaded =>
      obtain ⟨next, small⟩ := pids pid (by simp [pidInHand, taken])
      have old := settled.drawn
      obtain ⟨counter, -⟩ :=
        @pids_apart_draw machine request userRsp slot pid loaded apart left next small []
      refine ⟨?_, settled.held, ?_⟩
      · change settledPid <
          (pointEffect machine.kernel request (.storing slot pid loaded)).nextPid
        rw [counter]
        omega
      · intro other member
        rw [@progress_of_with_progress machine
          (pointEffect machine.kernel request (.storing slot pid loaded)) rfl] at member
        split_ifs at member with here
        · cases member
          omega
        · exact settled.undrawn other member
  | counting slot pid fds =>
      have kept : IdentitiesKept machine.kernel
          (pointEffect machine.kernel request (.counting slot pid fds)) := by
        cases fds <;> exact ⟨fun _ later present => ⟨later, present, rfl, rfl⟩, rfl⟩
      have current := (@point_effect_earlier request _ machine.kernel earlier).2.1
      cases fds <;>
      · refine pid_settled_with settled kept current ?_
        rw [left]
        exact id
  | installing slot pid => exact absurd rfl (earlier slot pid)

theorem pid_settled_step {holders : Slot → Nat → Prop} {pid : Nat} (machine : Machine)
    (move : Move) (apart : PidsApart machine) (settled : PidSettled holders pid machine)
    (pids : PidsLeft machine move) : PidSettled holders pid (step machine move).1 := by
  have shape := move_case machine move
  generalize step machine move = result at shape ⊢
  cases shape with
  | idle => exact settled
  | whole running going taken =>
      refine pid_settled_kept settled (identities_perform taken) ?_
      intro slot
      rw [progress_of_perform taken]
      exact id
  | @begins call running rests =>
      exact @pid_settled_undrawn holders pid machine machine.kernel _ settled
        (identities_refl _) rfl beginning_undrawn.1
  | @switches rest running left =>
      have popped : PidSettled holders pid (withProgress machine (.statements rest)) :=
        @pid_settled_undrawn holders pid machine machine.kernel (.statements rest) settled
          (identities_refl _) rfl rfl
      refine pid_settled_kept popped (identities_schedule _) ?_
      intro slot
      rw [progress_of_schedule]
      exact id
  | @runs stage rest running left stays =>
      exact pid_settled_undrawn settled (identities_stage machine.kernel stage)
        (stage_effect machine.kernel stage).current rfl
  | creates running left earlier => exact pid_settled_point settled apart running left earlier pids
  | @installs request userRsp target own running left =>
      refine ⟨settled.drawn, ?_, ?_⟩
      · intro slot task present named
        rcases stored_task present with ⟨-, rfl⟩ | prior
        · subst named
          exact absurd (by rw [progress_current, left]; rfl)
            (settled.undrawn machine.kernel.current)
        · exact settled.held slot task prior named
      · intro slot member
        exact settled.undrawn slot (drawn_after_store member).2

theorem whole_reaps {machine : Machine} {action : Action} {parentPid pid : Nat}
    {status : BitVec 32}
    (emitted : (machine.perform action).2 = some (.reaped parentPid pid status)) :
    ∃ slot task, machine.kernel.tasks slot = some task ∧ task.pid = pid ∧
      (machine.perform action).1.kernel =
        { machine.kernel with tasks := Function.update machine.kernel.tasks slot none } := by
  have shape := perform_case machine action
  generalize machine.perform action = result at shape emitted ⊢
  cases shape with
  | @switches _ before source evolves others =>
      obtain ⟨slot, switchedOut, loaded, other⟩ := schedule_emits emitted
      cases other
  | @reaps _ _ slot task found present =>
      cases emitted
      exact ⟨slot, task, present, rfl, rfl⟩
  | installs chosen => cases emitted
  | returns inside =>
      simp only [Machine.sysret, inside] at emitted
      cases emitted
  | _ => cases emitted

theorem step_reaps {machine : Machine} {move : Move} {parentPid pid : Nat}
    {status : BitVec 32} (emitted : (step machine move).2 = some (.reaped parentPid pid status)) :
    (∃ slot task, machine.kernel.tasks slot = some task ∧ task.pid = pid ∧
      (step machine move).1.kernel =
        { machine.kernel with tasks := Function.update machine.kernel.tasks slot none }) ∧
      ∀ slot, progressOf (step machine move).1 slot = progressOf machine slot := by
  have shape := move_case machine move
  generalize step machine move = result at shape emitted ⊢
  cases shape with
  | whole running going taken => exact ⟨whole_reaps emitted, progress_of_perform taken⟩
  | switches running left =>
      obtain ⟨slot, switchedOut, loaded, other⟩ := schedule_emits emitted
      cases other
  | _ => cases emitted

theorem reaped_pid_gone {machine : Machine} {move : Move} {parentPid pid : Nat}
    {status : BitVec 32} (apart : PidsApart machine)
    (emitted : (step machine move).2 = some (.reaped parentPid pid status)) :
    PidGone pid (step machine move).1 := by
  obtain ⟨⟨slot, task, present, rfl, after⟩, progress⟩ := step_reaps emitted
  refine ⟨?_, ?_, ?_⟩
  · rw [after]
    exact apart.fresh.below slot task present
  · rw [after]
    intro other rest remaining same
    by_cases cleared : other = slot
    · subst cleared
      simp at remaining
    · simp only [Function.update_of_ne cleared] at remaining
      exact cleared (apart.fresh.distinct other slot rest task remaining present same)
  · intro other member
    rw [progress] at member
    exact apart.new other task.pid member slot task present rfl

theorem gone_pid_not_reaped {machine : Machine} {move : Move} {event : Event} {pid : Nat}
    (gone : PidGone pid machine) (emitted : (step machine move).2 = some event) :
    reapedPid event ≠ some pid := by
  intro reaped
  cases event with
  | reaped parentPid other status =>
      cases reaped
      obtain ⟨⟨slot, task, present, same, -⟩, -⟩ := step_reaps emitted
      exact gone.held slot task present same
  | _ => cases reaped

theorem reaped_pids_nodup {machine : Machine} (moves : List Move) (apart : PidsApart machine)
    (left : preemptedSystem.StepsMeet PidsLeft machine moves) :
    ((preemptedSystem.traceFrom machine moves).filterMap reapedPid).Nodup := by
  induction moves generalizing machine with
  | nil => exact List.nodup_nil
  | cons move rest ih =>
      have next : PidsApart (step machine move).1 := pids_apart_step machine move apart left.1
      have later : ((preemptedSystem.traceFrom (preemptedSystem.step machine move).1
          rest).filterMap reapedPid).Nodup := ih next left.2
      simp only [EventSystem.traceFrom, List.filterMap_append]
      cases emitted : (preemptedSystem.step machine move).2 with
      | none => simpa using later
      | some event =>
          cases reaped : reapedPid event with
          | none => simpa [reaped] using later
          | some pid =>
              have gone : PidGone pid (step machine move).1 := by
                cases event with
                | reaped parentPid other status =>
                    cases reaped
                    exact reaped_pid_gone apart emitted
                | _ => cases reaped
              have others := EventSystem.trace_satisfies
                (fun state => PidsApart state ∧ PidGone pid state)
                (fun state move both left => ⟨pids_apart_step state move both.1 left,
                  pid_settled_step state move both.1 both.2 left⟩)
                (fun _ _ _ both _ emitted => gone_pid_not_reaped both.2 emitted) ⟨next, gone⟩
                left.2
              simpa [reaped] using ⟨others, later⟩

/-- A later `waitpid(child.pid)` by the parent reports the status of every
child found terminated after `before`, unless an earlier call has; and no pid
is reported twice. Slot zero is the idle task, which is no one's child. -/
def ExitStatusKept (parentPid : Nat) (before between : List Move) : Prop :=
  (∀ slot child, slot ≠ idleSlot →
    (preemptedSystem.runFrom preemptedSystem.init before).kernel.tasks slot = some child →
    child.state = .zombie → child.ppid = parentPid →
    (∀ event ∈ preemptedSystem.traceFrom preemptedSystem.init (before ++ between),
      reapedPid event ≠ some child.pid) →
    (preemptedSystem.runFrom preemptedSystem.init (before ++ between)).halted = false →
    (preemptedSystem.runFrom preemptedSystem.init (before ++ between)).returning = false →
    atRest (preemptedSystem.runFrom preemptedSystem.init (before ++ between)) = true →
    (preemptedSystem.runFrom preemptedSystem.init (before ++ between)).kernel.currentPid =
      parentPid →
    ∀ noHang, (step (preemptedSystem.runFrom preemptedSystem.init (before ++ between))
        (.whole (.waitpid child.pid noHang))).2 =
      some (.reaped parentPid child.pid (Kernel.exitStatus child.exitCode))) ∧
  ((preemptedSystem.traceFrom preemptedSystem.init (before ++ between)).filterMap
    reapedPid).Nodup

/-- The record of a terminated child is still in its slot. -/
structure Recorded (slot : Slot) (child : Task) (machine : Machine) : Prop where
  apart : PidsApart machine
  record : ∃ task, machine.kernel.tasks slot = some task ∧ task.pid = child.pid ∧
    task.ppid = child.ppid ∧ task.exitCode = child.exitCode ∧ task.state = .zombie

theorem install_slot_of_event {machine : Machine} {move : Move} {slot current : Slot}
    (emitted : (step machine move).2 = some (.installed slot current)) :
    installSlot machine move = some slot := by
  obtain ⟨request, userRsp, pid, running, rfl, left, -⟩ := installs_from emitted
  simp [installSlot, point_taken_eq running left]

theorem recorded_step {parentPid : Nat} {slot : Slot} {child : Task} (machine : Machine)
    (move : Move) (parent : child.ppid = parentPid) (recorded : Recorded slot child machine)
    (keeps : KeepsChildrenOf parentPid machine move)
    (silent : ∀ event, (step machine move).2 = some event → ¬reapedPid event = some child.pid) :
    Recorded slot child (step machine move).1 := by
  refine ⟨pids_apart_step machine move recorded.apart keeps.pids, ?_⟩
  obtain ⟨task, present, pid, ppid, exitCode, zombie⟩ := recorded.record
  have uncollected : awaits parentPid task = true := by
    simp [awaits, zombie, ppid, parent]
  have shape := @zombie_step machine move slot task present zombie
  have installs := @install_slot_of_event machine move slot
  generalize step machine move = result at shape silent installs ⊢
  generalize result.1.kernel.tasks slot = after at shape ⊢
  generalize result.2 = event at shape silent installs
  cases shape with
  | kept pidKept ppidKept codeKept zombie =>
      exact ⟨_, rfl, pidKept.trans pid, ppidKept.trans ppid, codeKept.trans exitCode, zombie⟩
  | exitsAgain exits current pidKept ppidKept zombie =>
      have settled := keeps.running (by simp [exits])
      rw [current] at present
      simp [Kernel.currentTask, present, uncollected] at settled
  | blocks blocks current pidKept state =>
      have settled := keeps.running (by simp [blocks])
      rw [current] at present
      simp [Kernel.currentTask, present, uncollected] at settled
  | revives stores state =>
      have settled := keeps.woken slot stores
      simp [present, uncollected] at settled
  | reaped call caller => exact absurd (congrArg some pid) (silent _ rfl)
  | replaced =>
      have settled := keeps.slots slot (installs rfl)
      simp [present, uncollected] at settled

/-- A recorded status is what `waitpid` finds first. -/
theorem waitpid_reports {slot : Slot} {child : Task} {machine : Machine}
    (recorded : Recorded slot child machine) (different : slot ≠ idleSlot)
    (running : machine.halted = false) (free : machine.returning = false)
    (rests : atRest machine = true)
    (caller : machine.kernel.currentPid = child.ppid) (noHang : Bool) :
    (step machine (.whole (.waitpid child.pid noHang))).2 =
      some (.reaped child.ppid child.pid (Kernel.exitStatus child.exitCode)) := by
  obtain ⟨task, present, pid, ppid, exitCode, zombie⟩ := recorded.record
  have fresh := recorded.apart.fresh
  have member : slot ∈ taskSlots := mem_task_slots different
  have matching : (machine.kernel.tasks slot).any
      (Kernel.isZombieChild child.ppid child.pid) = true := by
    simp [present, Kernel.isZombieChild, zombie, ppid, pid]
  have found : machine.kernel.findZombieChild child.ppid child.pid = some slot := by
    unfold Kernel.findZombieChild
    cases search : taskSlots.find? fun slot =>
        (machine.kernel.tasks slot).any (Kernel.isZombieChild child.ppid child.pid) with
    | none => exact absurd matching (List.find?_eq_none.mp search slot member)
    | some other =>
        have hit := List.find?_some search
        obtain ⟨candidate, candidatePresent, isChild⟩ := Option.any_eq_true .. |>.mp hit
        have small : child.pid ≠ u64Max := by
          have := fresh.below slot task present
          have := fresh.bound
          omega
        simp only [Kernel.isZombieChild, Bool.and_eq_true, Bool.or_eq_true, beq_iff_eq, small,
          false_or] at isChild
        rw [fresh.distinct other slot candidate task candidatePresent present
          (isChild.2.trans pid.symm)]
  have reported : machine.kernel.waitpid child.pid noHang =
      some ({ machine.kernel with tasks := Function.update machine.kernel.tasks slot none },
        .reaped child.pid (Kernel.exitStatus child.exitCode)) := by
    simp only [Kernel.waitpid, caller, found, present, Option.map_some, pid, exitCode]
  rw [step_whole (by rw [rests]; rfl) running free]
  simp only [Machine.perform, Machine.waitpid, reported, caller]

/-- In every run that keeps the uncollected children of a task, each of their
exit statuses reaches it, once. -/
theorem exit_status_kept (parentPid : Nat) (before between : List Move)
    (keeps : preemptedSystem.StepsMeet (KeepsChildrenOf parentPid) preemptedSystem.init
      (before ++ between)) :
    ExitStatusKept parentPid before between := by
  have left : preemptedSystem.StepsMeet PidsLeft preemptedSystem.init (before ++ between) :=
    preemptedSystem.steps_meet_mono (fun _ _ keeps => keeps.pids) keeps
  refine ⟨?_, reaped_pids_nodup _ pids_apart_boot left⟩
  intro slot child different present zombie parent unreported running free rests caller noHang
  obtain ⟨-, keepsBetween⟩ := (preemptedSystem.steps_meet_append _ _ _ _).mp keeps
  obtain ⟨leftBefore, -⟩ := (preemptedSystem.steps_meet_append _ _ _ _).mp left
  have apart := EventSystem.run_preserves PidsApart pids_apart_step pids_apart_boot leftBefore
  have recorded := EventSystem.run_preserves_unless (Recorded slot child)
    (fun machine move recorded keeps silent =>
      recorded_step machine move parent recorded keeps silent)
    ⟨apart, child, present, rfl, rfl, rfl, zombie⟩ keepsBetween
    (fun event member => unreported event (by
      rw [preemptedSystem.trace_from_append]
      exact List.mem_append_right _ member))
  subst parent
  rw [preemptedSystem.run_from_append] at running free rests caller ⊢
  exact waitpid_reports recorded different running free rests caller noHang

theorem status_lost (parentPid pid : Nat) (before between : List Move) (slot : Slot)
    (different : slot ≠ idleSlot)
    (dead : ((preemptedSystem.runFrom preemptedSystem.init before).kernel.tasks slot).map
      (fun task => (task.pid, task.ppid, task.state)) = some (pid, parentPid, .zombie))
    (unreported : ∀ event ∈ preemptedSystem.traceFrom preemptedSystem.init (before ++ between),
      reapedPid event ≠ some pid)
    (running : (preemptedSystem.runFrom preemptedSystem.init (before ++ between)).halted = false)
    (free : (preemptedSystem.runFrom preemptedSystem.init (before ++ between)).returning = false)
    (rests : atRest (preemptedSystem.runFrom preemptedSystem.init (before ++ between)) = true)
    (caller : (preemptedSystem.runFrom preemptedSystem.init
      (before ++ between)).kernel.currentPid = parentPid)
    (silent : (step (preemptedSystem.runFrom preemptedSystem.init (before ++ between))
      (.whole (.waitpid pid true))).2 = none) :
    ¬∀ parentPid before between, ExitStatusKept parentPid before between := by
  intro kept
  obtain ⟨child, present, fields⟩ := Option.map_eq_some_iff.mp dead
  simp only [Prod.mk.injEq] at fields
  obtain ⟨rfl, parent, zombie⟩ := fields
  have reported := (kept parentPid before between).1 slot child different present zombie parent
    unreported running free rests caller true
  rw [silent] at reported
  cases reported

/-- A user task forks and yields; the child exits with status 7. -/
def childExits : List Move :=
  forked ++ [.whole .schedule, .begins (.exitCurrent 7)] ++ advances 165

/-- The parent forks again before it waits: the second child takes the slot of the first,
and its status is gone. -/
theorem exit_status_lost_to_new_child :
    ¬∀ parentPid before between, ExitStatusKept parentPid before between :=
  status_lost 1 2 childExits forkAgain ⟨2, by decide⟩ (by decide) (by decide +kernel)
    (by decide +kernel) (by decide +kernel) (by decide +kernel) (by decide +kernel)
    (by decide +kernel) (by decide +kernel)

theorem exit_status_kept_without_second_child :
    preemptedSystem.StepsMeet (KeepsChildrenOf 1) preemptedSystem.init
        (childExits ++ ticks 1) ∧
      ExitStatusKept 1 childExits (ticks 1) := by
  have keeps : preemptedSystem.StepsMeet (KeepsChildrenOf 1) preemptedSystem.init
      (childExits ++ ticks 1) := by
    decide +kernel
  exact ⟨keeps, exit_status_kept 1 childExits (ticks 1) keeps⟩

end Ferrugem.ExitStatuses
