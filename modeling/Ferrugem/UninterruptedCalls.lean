import Ferrugem.KernelOperations
import Ferrugem.PreemptedCalls

/-!
# Kernel functions that nothing interrupts

Taken statement by statement without an interrupt, the functions of
`Ferrugem.PreemptedCalls` do what `Ferrugem.SchedulerModel` and
`Ferrugem.DescriptorSyscalls` have them do as a whole.
-/

namespace Ferrugem.UninterruptedCalls

open Ferrugem.PipePoolModel Ferrugem.ProcessModel Ferrugem.SchedulerModel
open Ferrugem.DescriptorSyscalls Ferrugem.KernelMachine Ferrugem.KernelEvolution
open Ferrugem.KernelOperations Ferrugem.PreemptedCalls

set_option autoImplicit false

def switches : Stage → Bool
  | .schedule => true
  | _ => false

/-- The statements and those they lead to, one after the other, take the kernel from the
first state to the second. -/
inductive Performs : List Stage → Kernel → Kernel → Prop where
  | nothing (kernel : Kernel) : Performs [] kernel kernel
  | statement {stage : Stage} {stages : List Stage} {kernel after : Kernel}
      (stays : switches stage = false)
      (later : Performs (next kernel stage ++ stages) (effect kernel stage) after) :
      Performs (stage :: stages) kernel after

theorem Performs.append {first second : List Stage} {before between after : Kernel}
    (performs : Performs first before between) (later : Performs second between after) :
    Performs (first ++ second) before after := by
  induction performs with
  | nothing => exact later
  | @statement stage stages kernel between stays _ ih =>
      have continued := ih later
      rw [List.append_assoc] at continued
      exact .statement stays continued

/-- A statement with what it leads to, and none after it. -/
theorem Performs.single {stage : Stage} {kernel after : Kernel} (stays : switches stage = false)
    (later : Performs (next kernel stage) (effect kernel stage) after) :
    Performs [stage] kernel after :=
  .statement stays (by rwa [List.append_nil])

theorem Performs.only {stage : Stage} {kernel : Kernel} (stays : switches stage = false)
    (last : next kernel stage = []) : Performs [stage] kernel (effect kernel stage) :=
  .single stays (last ▸ .nothing _)

theorem set_task_self {kernel : Kernel} {slot : Slot} {task : Task}
    (present : kernel.tasks slot = some task) : kernel.setTask slot task = kernel := by
  unfold Kernel.setTask
  rw [← present, Function.update_eq_self]

theorem set_task_twice (kernel : Kernel) (slot : Slot) (first second : Task) :
    (kernel.setTask slot first).setTask slot second = kernel.setTask slot second := by
  simp [Kernel.setTask]

theorem modify_slot_some {kernel : Kernel} {slot : Slot} {task : Task}
    (present : kernel.tasks slot = some task) (change : Task → Task) :
    modifySlot kernel slot change = kernel.setTask slot (change task) := by
  unfold modifySlot
  rw [present]

/-- A wake-up from its test on. -/
theorem performs_wake (kernel : Kernel) (slot : Slot) :
    Performs [.testBlocked slot] kernel (kernel.wakeSlot slot) := by
  refine .single rfl ?_
  unfold Kernel.wakeSlot
  change Performs (if isBlocked kernel slot then [.storeReady slot] else []) kernel _
  cases present : kernel.tasks slot with
  | none =>
      have free : isBlocked kernel slot = false := by simp [isBlocked, present]
      rw [free]
      exact .nothing kernel
  | some task =>
      by_cases blocked : task.state = .blocked
      · have waits : isBlocked kernel slot = true := by simp [isBlocked, present, blocked]
        have woken : Kernel.wake task = { task with state := .ready } := if_pos blocked
        have stored : effect kernel (.storeReady slot) =
            kernel.setTask slot (Kernel.wake task) := by
          rw [woken]
          exact modify_slot_some present _
        rw [waits, if_pos rfl]
        dsimp only
        rw [← stored]
        exact .only rfl rfl
      · have free : isBlocked kernel slot = false := by simp [isBlocked, present, blocked]
        have kept : Kernel.wake task = task := if_neg blocked
        rw [free]
        dsimp only
        rw [kept, set_task_self present]
        exact .nothing kernel

theorem performs_raise (kernel : Kernel) (slot : Slot) (sig : Nat) :
    Performs [.raise slot sig, .testBlocked slot] kernel (kernel.raiseAndWake slot sig) := by
  refine .statement rfl ?_
  have woken := performs_wake (effect kernel (.raise slot sig)) slot
  have same : (effect kernel (.raise slot sig)).wakeSlot slot = kernel.raiseAndWake slot sig := by
    unfold Kernel.wakeSlot Kernel.raiseAndWake
    cases present : kernel.tasks slot with
    | none =>
        have kept : effect kernel (.raise slot sig) = kernel := by
          simp [effect, modifySlot, present]
        rw [kept, present]
    | some task =>
        have raised : effect kernel (.raise slot sig) =
            kernel.setTask slot (task.raiseSignal sig) := modify_slot_some present _
        rw [raised, set_task_same]
        exact set_task_twice kernel slot _ _
  rw [same] at woken
  exact woken

theorem performs_raise_search (kernel : Kernel) (targetPid sig : Nat) (slots : List Slot) :
    Performs [.raiseSearch targetPid sig slots] kernel
      (match slots.find? fun slot =>
          (kernel.tasks slot).any fun task => task.pid == targetPid && task.state != .zombie with
        | some slot => kernel.raiseAndWake slot sig
        | none => kernel) := by
  induction slots with
  | nil => exact .only rfl rfl
  | cons slot rest ih =>
      refine .single rfl ?_
      rw [List.find?_cons]
      change Performs (if _ then _ else _) kernel _
      cases (kernel.tasks slot).any fun task =>
          task.pid == targetPid && task.state != .zombie with
      | true => exact performs_raise kernel slot sig
      | false => exact ih

theorem performs_raise_signal (kernel : Kernel) (targetPid sig : Nat) :
    Performs [.raiseSearch targetPid sig allSlots] kernel
      (kernel.raiseSignalToPid targetPid sig).1 := by
  have performs := performs_raise_search kernel targetPid sig allSlots
  unfold Kernel.raiseSignalToPid
  unfold allSlots at performs ⊢
  split
  · rename_i slot found
    rw [found] at performs
    exact performs
  · rename_i none
    rw [none] at performs
    exact performs

theorem performs_kill_task (kernel : Kernel) (slot : Slot) :
    Performs (if slot = idleSlot ∨ slot = kernel.current then [] else [.killTest slot]) kernel
      (kernel.killTask slot).1 := by
  unfold Kernel.killTask
  split_ifs with spared live
  · exact .nothing kernel
  · refine .single rfl ?_
    change Performs (if _ then _ else _) kernel _
    rw [if_pos live]
    exact performs_raise kernel slot sigkill
  · refine .single rfl ?_
    change Performs (if _ then _ else _) kernel _
    rw [if_neg live]
    exact .nothing kernel

theorem performs_wake_pipe_waiter (kernel : Kernel) (idx : Nat) :
    Performs [.loadPipeWaiter idx] kernel (kernel.wakePipeWaiter idx) := by
  refine .single rfl ?_
  unfold Kernel.wakePipeWaiter
  by_cases bound : idx < maxPipes
  · simp only [next, effect, dif_pos bound]
    cases record : kernel.pipeWaiters ⟨idx, bound⟩ with
    | none =>
        have same : Function.update kernel.pipeWaiters ⟨idx, bound⟩ none =
            kernel.pipeWaiters := by
          rw [← record, Function.update_eq_self]
        have cleared : effect kernel (.clearPipeWaiter idx) = kernel := by
          simp only [effect, dif_pos bound, same]
        exact cast (congrArg (Performs _ kernel) cleared) (.only rfl rfl)
    | some slot =>
        have cleared : effect kernel (.clearPipeWaiter idx) = _ := dif_pos bound
        refine .statement rfl ?_
        rw [cleared]
        exact performs_wake _ slot
  · simp only [next, effect, dif_neg bound]
    exact .nothing kernel

theorem performs_closed_search (kernel : Kernel) (indices : List PipeIndex) :
    Performs [.closedSearch indices] kernel (indices.foldl Kernel.wakeClosedPipeReader kernel) := by
  induction indices generalizing kernel with
  | nil => exact .only rfl rfl
  | cons index rest ih =>
      refine .single rfl ?_
      rw [List.foldl_cons, Kernel.wakeClosedPipeReader]
      change Performs (if _ then _ else _) kernel _
      cases opened : pipeWriteOpen kernel.pool index.val with
      | true => simpa using ih kernel
      | false =>
          cases record : kernel.pipeWaiters index with
          | none =>
              have same : kernel.wakePipeWaiter index.val = kernel := by
                unfold Kernel.wakePipeWaiter
                rw [dif_pos index.isLt]
                simp only [Fin.eta, record]
              simpa [same] using ih kernel
          | some slot =>
              simpa using (performs_wake_pipe_waiter kernel index.val).append (ih _)

/-- What an iteration makes of the task in its slot. -/
def childWoken (exitingPid parentPid : Nat) (task : Task) : Task :=
  if Kernel.wakesOnExit exitingPid parentPid task then
    { task with waitingForPid := 0, state := .ready }
  else task

theorem child_woken_twice (exitingPid parentPid : Nat) (task : Task) :
    childWoken exitingPid parentPid (childWoken exitingPid parentPid task) =
      childWoken exitingPid parentPid task := by
  by_cases wakes : Kernel.wakesOnExit exitingPid parentPid task = true
  · have woken : childWoken exitingPid parentPid task =
        { task with waitingForPid := 0, state := .ready } := if_pos wakes
    rw [woken]
    exact if_neg (by simp [Kernel.wakesOnExit])
  · have kept : childWoken exitingPid parentPid task = task := if_neg wakes
    rw [kept, kept]

theorem performs_child_search (kernel : Kernel) (exitingPid parentPid : Nat)
    (slots : List Slot) :
    Performs [.childSearch exitingPid parentPid slots] kernel
      { kernel with
        tasks := fun slot =>
          if slot ∈ slots then (kernel.tasks slot).map (childWoken exitingPid parentPid)
          else kernel.tasks slot } := by
  induction slots generalizing kernel with
  | nil =>
      simp only [List.not_mem_nil, if_false]
      exact .only rfl rfl
  | cons slot rest ih =>
      refine .single rfl ?_
      change Performs (if _ then _ else _) kernel _
      have settles : ∀ between : Kernel,
          between =
            { kernel with
              tasks := Function.update kernel.tasks slot
                ((kernel.tasks slot).map (childWoken exitingPid parentPid)) } →
          Performs [.childSearch exitingPid parentPid rest] between
            { kernel with
              tasks := fun other =>
                if other ∈ slot :: rest then
                  (kernel.tasks other).map (childWoken exitingPid parentPid)
                else kernel.tasks other } := by
        intro between shape
        have performs := ih between
        rw [shape] at performs ⊢
        convert performs using 2
        funext other
        by_cases here : other = slot
        · subst here
          cases kernel.tasks other with
          | none => simp
          | some task => simp [child_woken_twice]
        · simp [here]
      cases present : kernel.tasks slot with
      | none =>
          rw [Option.any_none]
          refine settles kernel ?_
          rw [present, Option.map_none, ← present, Function.update_eq_self]
      | some task =>
          rw [Option.any_some]
          cases wakes : Kernel.wakesOnExit exitingPid parentPid task with
          | false =>
              refine settles kernel ?_
              rw [present, Option.map_some, childWoken, wakes]
              simp only [Bool.false_eq_true, if_false]
              rw [← present, Function.update_eq_self]
          | true =>
              have cleared : effect kernel (.clearWait slot) =
                  kernel.setTask slot { task with waitingForPid := 0 } :=
                modify_slot_some present _
              have stored : effect (effect kernel (.clearWait slot)) (.storeReady slot) =
                  kernel.setTask slot { task with waitingForPid := 0, state := .ready } := by
                rw [cleared]
                refine (modify_slot_some (set_task_same _ _ _) _).trans ?_
                exact set_task_twice kernel slot _ _
              refine .statement rfl (.statement rfl ?_)
              refine settles _ ?_
              rw [stored, present, Option.map_some, childWoken, wakes]
              rfl

theorem performs_wake_child_waiters (kernel : Kernel) (exitingPid parentPid : Nat) :
    Performs [.childSearch exitingPid parentPid allSlots] kernel
      (kernel.wakeChildWaiters exitingPid parentPid) := by
  have performs := performs_child_search kernel exitingPid parentPid allSlots
  simp only [allSlots, List.mem_finRange, if_true] at performs
  exact performs

theorem performs_parent_search (kernel : Kernel) (parentPid : Nat) (slots : List Slot) :
    Performs [.parentSearch parentPid slots] kernel
      (match slots.find? fun slot =>
          (kernel.tasks slot).any fun task => task.pid == parentPid with
        | some slot => modifySlot kernel slot fun task => task.raiseSignal sigchld
        | none => kernel) := by
  induction slots with
  | nil => exact .only rfl rfl
  | cons slot rest ih =>
      refine .single rfl ?_
      rw [List.find?_cons]
      change Performs (if _ then _ else _) kernel _
      cases (kernel.tasks slot).any fun task => task.pid == parentPid with
      | true => exact .only rfl rfl
      | false => exact ih

theorem performs_signal_parent (kernel : Kernel) (parentPid : Nat) :
    Performs [.parentSearch parentPid allSlots] kernel
      (kernel.signalParent parentPid sigchld) :=
  performs_parent_search kernel parentPid allSlots

theorem performs_closed_fds (kernel : Kernel) (fds : List Fd) :
    Performs [.closeFds fds] kernel (fds.foldl closeOneFd kernel) := by
  induction fds generalizing kernel with
  | nil => exact .only rfl rfl
  | cons fd rest ih => exact .single rfl (ih (closeOneFd kernel fd))

theorem closed_fds {kernel : Kernel} {task : Task} (present : kernel.currentTask = some task)
    (fds : List Fd) (distinct : fds.Nodup) :
    fds.foldl closeOneFd kernel =
      { kernel with
        pool := fds.foldl (fun pool fd => releaseEntry pool (task.fdTable fd))
          kernel.pool }.setTask kernel.current
        { task with fdTable := fun fd => if fd ∈ fds then .empty else task.fdTable fd } := by
  induction fds generalizing kernel task with
  | nil => simpa using (set_task_self present).symm
  | cons fd rest ih =>
      obtain ⟨fresh, later⟩ := List.nodup_cons.mp distinct
      have closed : closeOneFd kernel fd =
          { kernel with pool := releaseEntry kernel.pool (task.fdTable fd) }.setTask
            kernel.current { task with fdTable := Function.update task.fdTable fd .empty } := by
        simp only [closeOneFd, present]
      have released : rest.foldl (fun pool other =>
            releaseEntry pool (Function.update task.fdTable fd .empty other))
            (releaseEntry kernel.pool (task.fdTable fd)) =
          rest.foldl (fun pool other => releaseEntry pool (task.fdTable other))
            (releaseEntry kernel.pool (task.fdTable fd)) := by
        refine List.foldl_ext _ _ _ fun pool other member => ?_
        rw [Function.update_of_ne]
        rintro rfl
        exact fresh member
      have emptied : (fun other => if other ∈ rest then FdEntry.empty
            else Function.update task.fdTable fd .empty other) =
          fun other => if other ∈ fd :: rest then .empty else task.fdTable other := by
        funext other
        by_cases here : other = fd <;> simp [here]
      rw [List.foldl_cons, closed, ih (set_task_same _ _ _) later]
      simp only [Kernel.setTask, released, emptied, Function.update_idem, List.foldl_cons]

theorem effect_exit_stores (kernel : Kernel) (task : Task) (code : BitVec 32) :
    effect (effect (kernel.setTask kernel.current task) (.storeExitCode code)) .storeZombie =
      kernel.setTask kernel.current { task with exitCode := code, state := .zombie } := by
  have coded : effect (kernel.setTask kernel.current task) (.storeExitCode code) =
      kernel.setTask kernel.current { task with exitCode := code } :=
    (modify_slot_some (set_task_same _ _ _) _).trans (set_task_twice _ _ _ _)
  rw [coded]
  exact (modify_slot_some (set_task_same _ _ _) _).trans (set_task_twice _ _ _ _)

theorem performs_exit_mark {kernel : Kernel} {task : Task}
    (present : kernel.currentTask = some task) (code : BitVec 32) :
    Performs [.closeFds allFds, .storeExitCode code, .storeZombie] kernel
      (kernel.exitMark code) := by
  have closed := performs_closed_fds kernel allFds
  rw [closed_fds present allFds (List.nodup_finRange maxFds)] at closed
  have emptied : (fun fd => if fd ∈ allFds then FdEntry.empty else task.fdTable fd) =
      fun _ => .empty := by
    funext fd
    exact if_pos (List.mem_finRange fd)
  rw [emptied] at closed
  refine closed.append (.statement rfl (.single rfl ?_))
  have marked : kernel.exitMark code =
      { kernel with pool := FdTable.closeAll kernel.pool task.fdTable }.setTask kernel.current
        { task with fdTable := fun _ => .empty, exitCode := code, state := .zombie } := by
    unfold Kernel.exitMark
    rw [present]
    rfl
  have stored := effect_exit_stores
    { kernel with pool := FdTable.closeAll kernel.pool task.fdTable }
    { task with fdTable := fun _ => .empty } code
  rw [marked]
  exact cast (congrArg (Performs [] _) stored) (.nothing _)

/-- `exit_current` before its `schedule()`. -/
theorem performs_exit {kernel : Kernel} {task : Task} (present : kernel.currentTask = some task)
    (code : BitVec 32) :
    Performs
      [.closeFds allFds, .storeExitCode code, .storeZombie,
        .childSearch task.pid task.ppid allSlots, .parentSearch task.ppid allSlots,
        .closedSearch (List.finRange maxPipes)]
      kernel (exitKernel kernel code task) :=
  (performs_exit_mark present code).append
    ((performs_wake_child_waiters _ _ _).append
      ((performs_signal_parent _ _).append (performs_closed_search _ _)))

theorem performs_wake_if_closed (kernel : Kernel) (idx : Nat) :
    Performs [.wakeIfWriteClosed idx] kernel (wakeIfWriteClosed kernel idx) := by
  refine .single rfl ?_
  change Performs (if pipeWriteOpen kernel.pool idx then [] else [.loadPipeWaiter idx]) kernel
    (if pipeWriteOpen kernel.pool idx then kernel else kernel.wakePipeWaiter idx)
  split_ifs
  · exact .nothing kernel
  · exact performs_wake_pipe_waiter kernel idx

theorem close_nothing {kernel : Kernel} {fd : Nat} (free : (currentFdClose kernel fd).2 = none) :
    (currentFdClose kernel fd).1 = kernel := by
  unfold currentFdClose at free ⊢
  split at free
  · rfl
  · split at free
    · rfl
    · cases free

theorem performs_close (kernel : Kernel) (fd : Nat) :
    Performs [.closeFd fd] kernel (sysClose kernel fd).1 := by
  refine .single rfl ?_
  have free := @close_nothing kernel fd
  simp only [next, effect, sysClose]
  generalize currentFdClose kernel fd = result at free ⊢
  obtain ⟨closed, entry⟩ := result
  cases entry with
  | none =>
      rw [show closed = kernel from free rfl]
      exact .nothing kernel
  | some entry =>
      cases entry with
      | pipeRead idx => exact .only rfl rfl
      | pipeWrite idx => exact .statement rfl (performs_wake_if_closed _ idx)
      | socketPair readIdx writeIdx =>
          exact .statement rfl (.statement rfl (performs_wake_if_closed _ writeIdx))
      | _ => exact .nothing closed

/-- The kernel after the loop of `Pipe::write` and the wake-up for the bytes it stored. -/
def putResult (kernel : Kernel) (index : PipeIndex) (data : List UInt8) (written : Bool) :
    Kernel :=
  let result := (kernel.pool index).pipe.write data
  let after := modifyPipe kernel index fun _ => result.1
  if written ∨ 0 < result.2 then after.wakePipeWaiter index.val else after

theorem modify_pipe_same (kernel : Kernel) (index : PipeIndex) :
    modifyPipe kernel index (fun _ => (kernel.pool index).pipe) = kernel := by
  simp [modifyPipe]

theorem performs_put_bytes (kernel : Kernel) (index : PipeIndex) (data : List UInt8)
    (written : Bool) :
    Performs [.putBytes index data written] kernel (putResult kernel index data written) := by
  have stops : ∀ kernel data written, (kernel.pool index).pipe.write data =
      ((kernel.pool index).pipe, 0) → Performs (if written then [.loadPipeWaiter index.val] else [])
      kernel (putResult kernel index data written) := by
    intro kernel data written nothing
    unfold putResult
    rw [nothing]
    dsimp only
    rw [modify_pipe_same]
    cases written with
    | true => simpa using performs_wake_pipe_waiter kernel index.val
    | false => simpa using Performs.nothing kernel
  induction data generalizing kernel written with
  | nil => exact .single rfl (stops kernel [] written rfl)
  | cons byte rest ih =>
      refine .single rfl ?_
      by_cases full : nextIndex (kernel.pool index).pipe.head = (kernel.pool index).pipe.tail
      · have isFull : (kernel.pool index).pipe.isFull = true := by simp [Pipe.isFull, full]
        simp only [next, isFull, if_true]
        exact stops kernel (byte :: rest) written (if_pos full)
      · have isFull : (kernel.pool index).pipe.isFull = false := by simp [Pipe.isFull, full]
        simp only [next, isFull, Bool.false_eq_true, if_false]
        refine .statement rfl (.statement rfl ?_)
        have later := ih (effect (effect kernel (.storeByte index byte))
          (.storeHead index (nextIndex (kernel.pool index).pipe.head))) true
        have same : putResult (effect (effect kernel (.storeByte index byte))
              (.storeHead index (nextIndex (kernel.pool index).pipe.head))) index rest true =
            putResult kernel index (byte :: rest) written := by
          unfold putResult
          simp [effect, modifyPipe, Pipe.write, full]
        rw [same] at later
        exact later

theorem performs_pipe_write (kernel : Kernel) (idx : Nat) (data : List UInt8) :
    Performs [.pipeWrite idx data] kernel
      (if 0 < (pipeWrite kernel.pool idx data).2 then
        { kernel with pool := (pipeWrite kernel.pool idx data).1 }.wakePipeWaiter idx
      else { kernel with pool := (pipeWrite kernel.pool idx data).1 }) := by
  refine .single rfl ?_
  by_cases bound : idx < maxPipes
  · by_cases used : (kernel.pool ⟨idx, bound⟩).inUse
    · have performs := performs_put_bytes kernel ⟨idx, bound⟩ data false
      simp only [putResult, modifyPipe, Bool.false_eq_true, false_or] at performs
      simp only [next, effect, pipeWrite, dif_pos bound, if_pos used]
      exact performs
    · simp only [next, effect, pipeWrite, dif_pos bound, if_neg used]
      exact .nothing kernel
  · simp only [next, effect, pipeWrite, dif_neg bound]
    exact .nothing kernel

theorem performs_write (kernel : Kernel) (fd : Nat) (data : List UInt8) :
    Performs (writeStages kernel fd data) kernel (sysWritePipe kernel fd data).1 := by
  unfold writeStages sysWritePipe
  split_ifs with empty
  · exact .nothing kernel
  · cases (currentFdGet kernel fd).bind writePipe with
    | none => exact .nothing kernel
    | some idx =>
        dsimp only
        cases pipeReadOpen kernel.pool idx with
        | false => exact .nothing kernel
        | true => exact performs_pipe_write kernel idx data

/-- The running context makes some of its statements, one after the other. -/
def Reaches (before after : Machine) : Prop :=
  ∃ count, preemptedSystem.runFrom before (List.replicate count .advances) = after

theorem Reaches.refl (machine : Machine) : Reaches machine machine := ⟨0, rfl⟩

theorem Reaches.step {before between after : Machine} {event : Option Event}
    (moved : PreemptedCalls.step before .advances = (between, event))
    (later : Reaches between after) : Reaches before after := by
  obtain ⟨count, reached⟩ := later
  refine ⟨count + 1, ?_⟩
  change preemptedSystem.runFrom (PreemptedCalls.step before .advances).1 _ = after
  rw [moved]
  exact reached

theorem Reaches.trans {before between after : Machine} (first : Reaches before between)
    (second : Reaches between after) : Reaches before after := by
  obtain ⟨count, reached⟩ := first
  obtain ⟨more, onward⟩ := second
  refine ⟨count + more, ?_⟩
  rw [List.replicate_add, EventSystem.run_from_append, reached, onward]

theorem performs_reaches {stages : List Stage} {before after : Kernel}
    (performs : Performs stages before after) (machine : Machine) (rest : List Stage)
    (running : machine.halted = false) :
    Reaches (withProgress (machine.withKernel before) (.statements (stages ++ rest)))
      (withProgress (machine.withKernel after) (.statements rest)) := by
  induction performs with
  | nothing kernel => exact .refl _
  | @statement stage stages kernel after stays _ ih =>
      rw [List.append_assoc] at ih
      have apart : stage ≠ .schedule := by
        rintro rfl
        cases stays
      have moved := @step_stage
        (withProgress (machine.withKernel kernel) (.statements (stage :: (stages ++ rest)))) stage _
        running rfl
      rw [run_stage_eq _ _ apart] at moved
      exact .step moved ih

theorem with_progress_rest {machine : Machine} (rests : atRest machine = true) :
    withProgress machine (.statements []) = machine := by
  have empty : machine.running.progress = .statements [] := by
    unfold atRest at rests
    split at rests
    · assumption
    · cases rests
  unfold withProgress
  rw [← empty]

section Calls

variable {machine : Machine} (running : machine.halted = false)
  (free : machine.returning = false) (rests : atRest machine = true)

include running free rests in
theorem step_begins (call : Call) :
    step machine (.begins call) = (withProgress machine (beginning machine call), none) := by
  unfold step
  dsimp only
  rw [if_neg (by simp [running, free, rests])]

include running free rests in
theorem begins_reaches {call : Call} {after : Machine}
    (reached : Reaches (withProgress machine (beginning machine call)) after) :
    ∃ count, preemptedSystem.runFrom machine
      (.begins call :: List.replicate count .advances) = after := by
  obtain ⟨count, ran⟩ := reached
  refine ⟨count, ?_⟩
  change preemptedSystem.runFrom (PreemptedCalls.step machine (.begins call)).1 _ = after
  rw [step_begins running free rests]
  exact ran

include running rests in
theorem statements_reach {stages : List Stage} {after : Kernel}
    (performs : Performs stages machine.kernel after) :
    Reaches (withProgress machine (.statements stages)) (machine.withKernel after) := by
  have reached := performs_reaches performs machine [] running
  rw [List.append_nil] at reached
  have back : withProgress (machine.withKernel after) (.statements []) =
      machine.withKernel after := with_progress_rest rests
  rw [back] at reached
  exact reached

include running rests in
theorem statements_switch {stages : List Stage} {after : Kernel}
    (performs : Performs stages machine.kernel after) :
    Reaches (withProgress machine (.statements (stages ++ [.schedule])))
      (machine.withKernel after).schedule.1 := by
  refine (performs_reaches performs machine [.schedule] running).trans ?_
  have back : withProgress (machine.withKernel after) (.statements []) =
      machine.withKernel after := with_progress_rest rests
  refine @Reaches.step _ _ _ (machine.withKernel after).schedule.2 ?_ (.refl _)
  rw [← back]
  exact @step_stage (withProgress (machine.withKernel after) (.statements [.schedule])) _ _
    running rfl

end Calls

def storesTask : CreationPoint → Bool
  | .installing _ _ => true
  | _ => false

theorem point_reaches {machine after : Machine} {request : Kernel.SpawnRequest} {userRsp : Nat}
    {point : CreationPoint} (running : machine.halted = false) (earlier : storesTask point = false)
    (later : Reaches
      (withProgress (machine.withKernel (pointEffect machine.kernel request point))
        (creationProgress request userRsp (nextPoint machine.kernel request point))) after) :
    Reaches (withProgress machine (.creating request userRsp point)) after := by
  have moved := @step_point (withProgress machine (.creating request userRsp point)) request
    userRsp point running rfl
  have made : runPoint (withProgress machine (.creating request userRsp point)) request userRsp
        point =
      (withProgress (machine.withKernel (pointEffect machine.kernel request point))
        (creationProgress request userRsp (nextPoint machine.kernel request point)), none) := by
    cases point <;> first | rfl | cases earlier
  exact .step (moved.trans made) later

theorem search_reaches (machine : Machine) (request : Kernel.SpawnRequest) (userRsp : Nat)
    (running : machine.halted = false) (slots : List Slot) :
    Reaches (withProgress machine (.creating request userRsp (.searching slots)))
      (withProgress machine (creationProgress request userRsp
        ((slots.find? machine.kernel.vacant).map .reading))) := by
  induction slots with
  | nil => exact point_reaches running rfl (.refl _)
  | cons slot rest ih =>
      refine point_reaches running rfl ?_
      rw [List.find?_cons]
      simp only [nextPoint]
      cases machine.kernel.vacant slot with
      | true => exact .refl _
      | false => exact ih

theorem count_reaches (machine : Machine) (request : Kernel.SpawnRequest) (userRsp : Nat)
    (running : machine.halted = false) (slot : Slot) (pid : Nat) (fds : List Fd) :
    Reaches (withProgress machine (.creating request userRsp (.counting slot pid fds)))
      (withProgress
        (machine.withKernel
          { machine.kernel with
            pool := fds.foldl (fun pool fd => dupEntry pool (request.child.fdTable fd))
              machine.kernel.pool })
        (.creating request userRsp (.installing slot pid))) := by
  induction fds generalizing machine with
  | nil => exact point_reaches running rfl (.refl _)
  | cons fd rest ih =>
      refine point_reaches running rfl ?_
      exact ih (machine.withKernel
        { machine.kernel with
          pool := dupEntry machine.kernel.pool (request.child.fdTable fd) }) running

theorem install_reaches (machine : Machine) (request : Kernel.SpawnRequest) (userRsp : Nat)
    (running : machine.halted = false) (slot : Slot) :
    Reaches (withProgress machine (.creating request userRsp (.reading slot)))
      (withProgress
        { machine with
          kernel := machine.kernel.install slot request
          savedStacks := Function.update machine.savedStacks slot
            (.fresh (Context.entering userRsp) request.child.isUser) }
        (.statements [])) := by
  let drawn := machine.withKernel
    { machine.kernel with nextPid := (machine.kernel.nextPid + 1) % 2 ^ 64 }
  refine point_reaches running rfl (point_reaches running rfl (point_reaches running rfl ?_))
  refine (count_reaches drawn request userRsp running slot machine.kernel.nextPid _).trans ?_
  have counted : (if request.inheritsFds then allFds else []).foldl
        (fun pool fd => dupEntry pool (request.child.fdTable fd)) drawn.kernel.pool =
      if request.inheritsFds then FdTable.dupAll machine.kernel.pool request.child.fdTable
      else machine.kernel.pool := by
    split_ifs <;> rfl
  rw [counted]
  exact .step (step_point running rfl) (.refl _)

section Creations

variable {machine : Machine} {kind : Machine.SpawnKind} (running : machine.halted = false)
  (free : machine.returning = false) (fresh : machine.running.spawning = none)

include running free in
theorem spawn_steps :
    kernelSystem.runFrom machine [.spawnGather kind, .spawnChoose, .spawnInstall] =
      ((machine.spawnGather kind).spawnChoose.spawnInstall).1 := by
  have gathering := @step_performs machine (.spawnGather kind) running free
  have choosing := @step_performs (machine.spawnGather kind) .spawnChoose running free
  have chosen : (machine.spawnGather kind).spawnChoose.halted = false ∧
      (machine.spawnGather kind).spawnChoose.returning = false := by
    unfold Machine.spawnChoose
    split <;> exact ⟨running, free⟩
  have installing := @step_performs (machine.spawnGather kind).spawnChoose .spawnInstall chosen.1
    chosen.2
  simp only [EventSystem.runFrom, kernelSystem, gathering, Machine.perform, choosing, installing]

include running free fresh in
theorem spawn_fails
    (fails : machine.spawnRequest kind = none ∨ machine.kernel.firstVacant = none) :
    kernelSystem.runFrom machine [.spawnGather kind, .spawnChoose, .spawnInstall] = machine := by
  have idle : machine.setSpawning none = machine := by
    unfold Machine.setSpawning
    rw [← fresh]
  rw [spawn_steps running free]
  cases gathered : machine.spawnRequest kind with
  | none =>
      simp only [Machine.spawnGather, gathered, Option.map_none, idle, Machine.spawnChoose, fresh,
        Machine.spawnInstall]
  | some pair =>
      have full : machine.kernel.firstVacant = none := by simpa [gathered] using fails
      have chosen : (machine.spawnGather kind).spawnChoose = machine.setSpawning none := by
        simp [Machine.spawnGather, Machine.spawnChoose, gathered, Machine.setSpawning, full]
      rw [chosen, idle]
      simp only [Machine.spawnInstall, fresh]

include running free fresh in
theorem spawn_installs {request : Kernel.SpawnRequest} {userRsp : Nat} {slot : Slot}
    (gathered : machine.spawnRequest kind = some (request, userRsp))
    (vacant : machine.kernel.firstVacant = some slot) :
    kernelSystem.runFrom machine [.spawnGather kind, .spawnChoose, .spawnInstall] =
      { machine with
        kernel := machine.kernel.install slot request
        savedStacks := Function.update machine.savedStacks slot
          (.fresh (Context.entering userRsp) request.child.isUser) } := by
  have chosen : (machine.spawnGather kind).spawnChoose =
      machine.setSpawning (some (.chosen slot request userRsp)) := by
    simp [Machine.spawnGather, Machine.spawnChoose, gathered, Machine.setSpawning, vacant]
  rw [spawn_steps running free, chosen]
  simp only [Machine.spawnInstall, Machine.setSpawning, ← fresh]

end Creations

/-- The calls that are one operation each. `sys_kill` refuses an unknown signal, and a
caller that it ends is an `exit_current`. -/
def isOperation (kernel : Kernel) : Call → Bool
  | .kill targetPid sig => decide (sig % 256 ≤ 31) && !endsCaller kernel targetPid (sig % 256)
  | _ => true

def operationOf : Call → Operation
  | .exitCurrent code => .exitCurrent code
  | .kill targetPid sig => .act (.raiseSignal targetPid (sig % 256)) rfl
  | .killTask slot => .act (.killTask slot) rfl
  | .write fd data => .act (.writePipe fd data) rfl
  | .close fd => .act (.close fd) rfl
  | .spawn kind => .spawn kind

theorem exit_reaches {machine : Machine} (running : machine.halted = false)
    (free : machine.returning = false) (rests : atRest machine = true) (code : BitVec 32) :
    Reaches (withProgress machine (beginning machine (.exitCurrent code)))
      (operationSystem.step machine (.exitCurrent code)).1 := by
  change Reaches _ (kernelSystem.runFrom machine _)
  cases present : machine.kernel.currentTask with
  | some task =>
      rw [exit_run running free present]
      simp only [beginning, exitStages, present]
      exact statements_switch running rests (performs_exit present code)
  | none =>
      simp only [Operation.actions, beginning, exitStages, present]
      change Reaches _ (machine.step .schedule).1
      rw [step_performs running free]
      exact statements_switch running rests (.nothing machine.kernel)

theorem spawn_reaches {machine : Machine} (running : machine.halted = false)
    (free : machine.returning = false) (rests : atRest machine = true)
    (fresh : machine.running.spawning = none) (kind : Machine.SpawnKind) :
    Reaches (withProgress machine (beginning machine (.spawn kind)))
      (operationSystem.step machine (.spawn kind)).1 := by
  change Reaches _
    (kernelSystem.runFrom machine [.spawnGather kind, .spawnChoose, .spawnInstall])
  simp only [beginning]
  cases gathered : machine.spawnRequest kind with
  | none =>
      rw [spawn_fails running free fresh (.inl gathered)]
      exact statements_reach running rests (.nothing machine.kernel)
  | some pair =>
      obtain ⟨request, userRsp⟩ := pair
      refine (search_reaches machine request userRsp running taskSlots).trans ?_
      change Reaches (withProgress machine (creationProgress request userRsp
        (machine.kernel.firstVacant.map .reading))) _
      cases vacant : machine.kernel.firstVacant with
      | none =>
          rw [spawn_fails running free fresh (.inr vacant)]
          exact statements_reach running rests (.nothing machine.kernel)
      | some slot =>
          rw [spawn_installs running free fresh gathered vacant]
          have reached := install_reaches machine request userRsp running slot
          have back := @with_progress_rest
            { machine with
              kernel := machine.kernel.install slot request
              savedStacks := Function.update machine.savedStacks slot
                (.fresh (Context.entering userRsp) request.child.isUser) } rests
          rw [back] at reached
          exact reached

theorem kill_reaches {machine : Machine} (running : machine.halted = false)
    (rests : atRest machine = true) {targetPid sig : Nat}
    (returns : isOperation machine.kernel (.kill targetPid sig) = true) :
    Reaches (withProgress machine (beginning machine (.kill targetPid sig)))
      (machine.perform (.raiseSignal targetPid (sig % 256))).1 := by
  simp only [isOperation, Bool.and_eq_true, decide_eq_true_eq, Bool.not_eq_true'] at returns
  obtain ⟨known, other⟩ := returns
  have stages : beginning machine (.kill targetPid sig) =
      .statements [.raiseSearch targetPid (sig % 256) allSlots] := by
    simp only [beginning, killStages, other, if_neg (Nat.not_lt.mpr known), Bool.false_eq_true,
      if_false]
  have raised : sysRaise machine.kernel targetPid (sig % 256) =
      (machine.kernel.raiseSignalToPid targetPid (sig % 256)).1 := by
    simp only [sysRaise, other, Bool.false_eq_true, false_and, if_false]
  simp only [stages, Machine.perform, raised]
  exact statements_reach running rests (performs_raise_signal _ targetPid _)

/-- A call that nothing interrupts is the operation of `operationSystem`. -/
theorem uninterrupted_call {machine : Machine} (running : machine.halted = false)
    (free : machine.returning = false) (rests : atRest machine = true)
    (fresh : machine.running.spawning = none) (call : Call)
    (returns : isOperation machine.kernel call = true) :
    ∃ count, preemptedSystem.runFrom machine
        (.begins call :: List.replicate count .advances) =
      (operationSystem.step machine (operationOf call)).1 := by
  refine begins_reaches running free rests ?_
  have performed : ∀ {before : Machine} (action : Action),
      Reaches before (machine.perform action).1 → Reaches before (machine.step action).1 := by
    intro before action reached
    rw [step_performs running free]
    exact reached
  cases call with
  | exitCurrent code => exact exit_reaches running free rests code
  | kill targetPid sig => exact performed _ (kill_reaches running rests returns)
  | killTask slot =>
      exact performed (.killTask slot)
        (statements_reach running rests (performs_kill_task machine.kernel slot))
  | write fd data =>
      exact performed (.writePipe fd data)
        (statements_reach running rests (performs_write machine.kernel fd data))
  | close fd =>
      exact performed (.close fd)
        (statements_reach running rests (performs_close machine.kernel fd))
  | spawn kind => exact spawn_reaches running free rests fresh kind

end Ferrugem.UninterruptedCalls
