import Ferrugem.TaskLifecycle

/-!
# Kernel functions with interrupts inside them

A kernel task, or a call through `INT 0x80`, runs its kernel functions with
`IF = 1`. Here the machine of `Ferrugem.KernelMachine` takes the functions that
write task states, wait records or `NEXT_PID` statement by statement, and a timer
interrupt may come before each of them and switch to another task, whose calls
are taken the same way. What a function does with interrupts disabled stays whole,
and so do reading a pipe and the calls that only change the running task's own
descriptors. `take()` on a wait record and the increment of `NEXT_PID` are a load and a
store; `pending_signals |= …` and the reference counts of a pipe are one statement each.

A statement that writes through a reference to a slot that has been emptied in
the meantime changes nothing here: the source leaves bytes behind in an empty
`Option`, which is a matter of memory layout.
-/

namespace Ferrugem.PreemptedCalls

open Ferrugem.PipePoolModel Ferrugem.ProcessModel Ferrugem.SchedulerModel
open Ferrugem.DescriptorSyscalls Ferrugem.KernelMachine Ferrugem.KernelEvolution
open Ferrugem.TaskLifecycle

set_option autoImplicit false

def allSlots : List Slot := List.finRange maxTasks

def allFds : List Fd := List.finRange maxFds

def modifySlot (kernel : Kernel) (slot : Slot) (change : Task → Task) : Kernel :=
  match kernel.tasks slot with
  | some task => kernel.setTask slot (change task)
  | none => kernel

def modifyPipe (kernel : Kernel) (index : PipeIndex) (change : Pipe → Pipe) : Kernel :=
  { kernel with
    pool := Function.update kernel.pool index
      { kernel.pool index with pipe := change (kernel.pool index).pipe } }

/-- One round of `close_all` on the running task. -/
def closeOneFd (kernel : Kernel) (fd : Fd) : Kernel :=
  match kernel.currentTask with
  | some task =>
      { kernel with pool := releaseEntry kernel.pool (task.fdTable fd) }.setTask kernel.current
        { task with fdTable := Function.update task.fdTable fd .empty }
  | none => kernel

/-- What the statement writes, `schedule` apart. -/
def effect (kernel : Kernel) : Stage → Kernel
  | .raise slot sig => modifySlot kernel slot fun task => task.raiseSignal sig
  | .storeReady slot => modifySlot kernel slot fun task => { task with state := .ready }
  | .clearPipeWaiter idx =>
      if bound : idx < maxPipes then
        { kernel with pipeWaiters := Function.update kernel.pipeWaiters ⟨idx, bound⟩ none }
      else kernel
  | .clearWait slot => modifySlot kernel slot fun task => { task with waitingForPid := 0 }
  | .closeFds (fd :: _) => closeOneFd kernel fd
  | .storeExitCode code =>
      modifySlot kernel kernel.current fun task => { task with exitCode := code }
  | .storeZombie => modifySlot kernel kernel.current fun task => { task with state := .zombie }
  | .storeByte index byte =>
      modifyPipe kernel index fun pipe =>
        { pipe with buf := Function.update pipe.buf pipe.head byte }
  | .storeHead index next => modifyPipe kernel index fun pipe => { pipe with head := next }
  | .closeFd fd => (currentFdClose kernel fd).1
  | .releaseEntry entry => { kernel with pool := releaseEntry kernel.pool entry }
  | _ => kernel

/-- The statements that come next, before the rest of the call. -/
def next (kernel : Kernel) : Stage → List Stage
  | .raiseSearch targetPid sig (slot :: slots) =>
      if (kernel.tasks slot).any fun task => task.pid == targetPid && task.state != .zombie then
        [.raise slot sig, .testBlocked slot]
      else [.raiseSearch targetPid sig slots]
  | .killTest slot =>
      if (kernel.tasks slot).any fun task => task.state != .zombie then
        [.raise slot sigkill, .testBlocked slot]
      else []
  | .testBlocked slot => if isBlocked kernel slot then [.storeReady slot] else []
  | .loadPipeWaiter idx =>
      if bound : idx < maxPipes then
        .clearPipeWaiter idx :: (kernel.pipeWaiters ⟨idx, bound⟩).toList.map .testBlocked
      else []
  | .closedSearch (index :: indices) =>
      if (kernel.pipeWaiters index).isSome && !pipeWriteOpen kernel.pool index.val then
        [.loadPipeWaiter index.val, .closedSearch indices]
      else [.closedSearch indices]
  | .childSearch exitingPid parentPid (slot :: slots) =>
      if (kernel.tasks slot).any (Kernel.wakesOnExit exitingPid parentPid) then
        [.clearWait slot, .storeReady slot, .childSearch exitingPid parentPid slots]
      else [.childSearch exitingPid parentPid slots]
  | .parentSearch parentPid (slot :: slots) =>
      if (kernel.tasks slot).any fun task => task.pid == parentPid then [.raise slot sigchld]
      else [.parentSearch parentPid slots]
  | .closeFds (_ :: fds) => [.closeFds fds]
  | .pipeWrite idx data =>
      if bound : idx < maxPipes then
        if (kernel.pool ⟨idx, bound⟩).inUse then [.putBytes ⟨idx, bound⟩ data false] else []
      else []
  | .putBytes index [] written => if written then [.loadPipeWaiter index.val] else []
  | .putBytes index (byte :: rest) written =>
      if (kernel.pool index).pipe.isFull then
        if written then [.loadPipeWaiter index.val] else []
      else
        [.storeByte index byte, .storeHead index (nextIndex (kernel.pool index).pipe.head),
          .putBytes index rest true]
  | .closeFd fd =>
      match (currentFdClose kernel fd).2 with
      | some (.pipeRead idx) => [.releaseEntry (.pipeRead idx)]
      | some (.pipeWrite idx) => [.releaseEntry (.pipeWrite idx), .wakeIfWriteClosed idx]
      | some (.socketPair readIdx writeIdx) =>
          [.releaseEntry (.pipeRead readIdx), .releaseEntry (.pipeWrite writeIdx),
            .wakeIfWriteClosed writeIdx]
      | _ => []
  | .wakeIfWriteClosed idx => if pipeWriteOpen kernel.pool idx then [] else [.loadPipeWaiter idx]
  | _ => []

/-- The kernel functions that are called with interrupts on. -/
inductive Call where
  | exitCurrent (code : BitVec 32)
  | kill (targetPid sig : Nat)
  | killTask (slot : Slot)
  | write (fd : Nat) (data : List UInt8)
  | close (fd : Nat)
  | spawn (kind : Machine.SpawnKind)
  deriving DecidableEq

def exitStages (kernel : Kernel) (code : BitVec 32) : List Stage :=
  match kernel.currentTask with
  | some task =>
      [.closeFds allFds, .storeExitCode code, .storeZombie,
        .childSearch task.pid task.ppid allSlots, .parentSearch task.ppid allSlots,
        .closedSearch (List.finRange maxPipes), .schedule]
  | none => [.schedule]

def killStages (kernel : Kernel) (targetPid sig : Nat) : List Stage :=
  let sig := sig % 256
  if 31 < sig then []
  else if endsCaller kernel targetPid sig then
    exitStages kernel (BitVec.ofNat 32 sig) ++ [.raiseSearch targetPid sig allSlots]
  else [.raiseSearch targetPid sig allSlots]

def writeStages (kernel : Kernel) (fd : Nat) (data : List UInt8) : List Stage :=
  if data = [] then []
  else
    match (currentFdGet kernel fd).bind writePipe with
    | some idx => if pipeReadOpen kernel.pool idx then [.pipeWrite idx data] else []
    | none => []

/-- The statements of a call. `spawn_fn` looks for its slot before it gathers what the
others gather first. -/
def beginning (machine : Machine) : Call → Progress
  | .exitCurrent code => .statements (exitStages machine.kernel code)
  | .kill targetPid sig => .statements (killStages machine.kernel targetPid sig)
  | .killTask slot =>
      .statements (if slot = idleSlot ∨ slot = machine.kernel.current then [] else [.killTest slot])
  | .write fd data => .statements (writeStages machine.kernel fd data)
  | .close fd => .statements [.closeFd fd]
  | .spawn kind =>
      match machine.spawnRequest kind with
      | some (request, userRsp) => .creating request userRsp (.searching taskSlots)
      | none => .statements []

def pointEffect (kernel : Kernel) (request : Kernel.SpawnRequest) : CreationPoint → Kernel
  | .storing _ _ loaded => { kernel with nextPid := (loaded + 1) % 2 ^ 64 }
  | .counting _ _ (fd :: _) =>
      { kernel with pool := dupEntry kernel.pool (request.child.fdTable fd) }
  | .installing slot pid =>
      { kernel with
        guardPhys := Function.update kernel.guardPhys slot request.guardPhys
        tasks := Function.update kernel.tasks slot (some { request.child with pid := pid }) }
  | _ => kernel

/-- `none` is the end of the creation, with or without a slot. -/
def nextPoint (kernel : Kernel) (request : Kernel.SpawnRequest) :
    CreationPoint → Option CreationPoint
  | .searching [] => none
  | .searching (slot :: slots) =>
      some (if kernel.vacant slot then .reading slot else .searching slots)
  | .reading slot => some (.adding slot kernel.nextPid)
  | .adding slot pid => some (.storing slot pid kernel.nextPid)
  | .storing slot pid _ => some (.counting slot pid (if request.inheritsFds then allFds else []))
  | .counting slot pid [] => some (.installing slot pid)
  | .counting slot pid (_ :: fds) => some (.counting slot pid fds)
  | .installing _ _ => none

def withProgress (machine : Machine) (progress : Progress) : Machine :=
  { machine with running := { machine.running with progress := progress } }

/-- One statement, and `rest` is what comes after it in the call. -/
def runStage (machine : Machine) (rest : List Stage) : Stage → Machine × Option Event
  | .schedule => (withProgress machine (.statements rest)).schedule
  | stage =>
      (withProgress (machine.withKernel (effect machine.kernel stage))
        (.statements (next machine.kernel stage ++ rest)), none)

def creationProgress (request : Kernel.SpawnRequest) (userRsp : Nat) :
    Option CreationPoint → Progress
  | some point => .creating request userRsp point
  | none => .statements []

/-- The last statement of a creation: the slot gets the task, and its stack the frame
that the task starts from. -/
def storeTask (machine : Machine) (request : Kernel.SpawnRequest) (userRsp : Nat) (slot : Slot)
    (pid : Nat) : Machine :=
  { withProgress
      (machine.withKernel (pointEffect machine.kernel request (.installing slot pid)))
      (.statements []) with
    savedStacks := Function.update machine.savedStacks slot
      (.fresh (Context.entering userRsp) request.child.isUser) }

def runPoint (machine : Machine) (request : Kernel.SpawnRequest) (userRsp : Nat) :
    CreationPoint → Machine × Option Event
  | .installing slot pid =>
      (storeTask machine request userRsp slot pid, some (.installed slot machine.kernel.current))
  | point =>
      (withProgress (machine.withKernel (pointEffect machine.kernel request point))
        (creationProgress request userRsp (nextPoint machine.kernel request point)), none)

def atRest (machine : Machine) : Bool :=
  match machine.running.progress with
  | .statements [] => true
  | _ => false

/-- Interrupt handlers, which may come in before any statement. -/
def isInterrupt : Action → Bool
  | .tick => true
  | .ttyInput => true
  | _ => false

/-- The sections that no interrupt comes into, and those of user code. -/
def staysWhole : Action → Bool
  | .exitMark _ | .wakeChildWaiters _ _ | .signalParent _ | .wakeClosedPipeReaders
  | .writePipe _ _ | .raiseSignal _ _ | .killTask _ | .close _
  | .spawnGather _ | .spawnChoose | .spawnInstall => false
  | _ => true

inductive Move where
  | whole (action : Action)
  | begins (call : Call)
  | advances
  deriving DecidableEq

def step (machine : Machine) : Move → Machine × Option Event
  | .whole action =>
      if isInterrupt action || staysWhole action && atRest machine then machine.step action
      else (machine, none)
  | .begins call =>
      if machine.halted || machine.returning || !atRest machine then (machine, none)
      else (withProgress machine (beginning machine call), none)
  | .advances =>
      if machine.halted then (machine, none)
      else
        match machine.running.progress with
        | .statements [] => (machine, none)
        | .statements (stage :: rest) => runStage machine rest stage
        | .creating request userRsp point => runPoint machine request userRsp point

/-- Every interleaving of statements, whole sections, interrupts and user code from
boot. -/
def preemptedSystem : EventSystem Machine Move Event where
  init := bootMachine
  step := step

def progressOf (machine : Machine) (slot : Slot) : Progress :=
  if slot = machine.kernel.current then machine.running.progress
  else (machine.savedStacks slot).context.progress

theorem progress_of_frame {before after : Machine}
    (progress : after.running.progress = before.running.progress)
    (current : after.kernel.current = before.kernel.current)
    (savedStacks : after.savedStacks = before.savedStacks) (slot : Slot) :
    progressOf after slot = progressOf before slot := by
  unfold progressOf
  rw [progress, current, savedStacks]

theorem progress_of_with_kernel {machine : Machine} {kernel : Kernel}
    (current : kernel.current = machine.kernel.current) (slot : Slot) :
    progressOf (machine.withKernel kernel) slot = progressOf machine slot :=
  @progress_of_frame machine (machine.withKernel kernel) rfl current rfl slot

theorem progress_of_schedule (machine : Machine) (slot : Slot) :
    progressOf machine.schedule.1 slot = progressOf machine slot := by
  have shape := schedule_case machine
  generalize machine.schedule = result at shape ⊢
  cases shape with
  | stays => rfl
  | halts => rfl
  | @switched next prevTask nextTask picked different incoming outgoing =>
      obtain ⟨irqsOn, fsBase, halted, shape⟩ := resume_keeps
        (machine.switchOut next prevTask nextTask) next (machine.savedStacks next)
      rw [shape]
      change (if slot = next then (machine.savedStacks next).context.progress
        else ((machine.switchOut next prevTask nextTask).savedStacks slot).context.progress) = _
      unfold progressOf
      by_cases entered : slot = next
      · subst entered
        rw [if_pos rfl, if_neg different]
      · by_cases left : slot = machine.kernel.current
        · subst left
          rw [if_neg entered, if_pos rfl]
          simp [Machine.switchOut, SavedStack.context]
        · rw [if_neg entered, if_neg left]
          simp [Machine.switchOut, left]

theorem progress_of_perform {machine : Machine} {action : Action}
    (taken : isInterrupt action = true ∨ staysWhole action = true ∧ atRest machine = true)
    (slot : Slot) : progressOf (machine.perform action).1 slot = progressOf machine slot := by
  have shape := perform_case machine action
  generalize machine.perform action = result at shape ⊢
  cases shape with
  | quiet source evolves => exact progress_of_with_kernel evolves.current slot
  | @switches _ before source evolves others =>
      rw [progress_of_schedule]
      refine progress_of_frame ?_ evolves.current ?_ slot
      · rw [others]
        rfl
      · rw [others]
        rfl
  | installs chosen =>
      rcases taken with interrupt | ⟨stays, -⟩
      · exact absurd interrupt (by decide)
      · exact absurd stays (by decide)
  | setsFsBase => exact progress_of_with_kernel (modify_current_current _ _) slot
  | execs inside =>
      refine progress_of_frame ?_ ?_ ?_ slot <;> simp only [Machine.execve, inside]
      exact modify_current_current _ _
  | returns inside =>
      refine progress_of_frame ?_ (by rw [sysret_kernel]) ?_ slot <;>
        simp only [Machine.sysret, inside, Machine.applyExecRedirect] <;> split <;> rfl
  | _ => exact progress_of_frame rfl rfl rfl slot

theorem progress_current (machine : Machine) :
    progressOf machine machine.kernel.current = machine.running.progress := if_pos rfl

theorem progress_of_with_progress {machine : Machine} {kernel : Kernel}
    (current : kernel.current = machine.kernel.current) (progress : Progress) (slot : Slot) :
    progressOf (withProgress (machine.withKernel kernel) progress) slot =
      if slot = machine.kernel.current then progress else progressOf machine slot := by
  unfold progressOf
  change (if slot = kernel.current then _ else _) = _
  rw [current]
  split_ifs <;> rfl

theorem progress_of_store_task (machine : Machine) (request : Kernel.SpawnRequest)
    (userRsp : Nat) (target : Slot) (pid : Nat) (slot : Slot) :
    progressOf (storeTask machine request userRsp target pid) slot =
      if slot = machine.kernel.current ∨ slot = target then .statements []
      else progressOf machine slot := by
  change (if slot = machine.kernel.current then Progress.statements []
    else (Function.update machine.savedStacks target _ slot).context.progress) = _
  unfold progressOf
  by_cases here : slot = machine.kernel.current
  · rw [if_pos here, if_pos (.inl here)]
  · by_cases written : slot = target
    · rw [if_neg here, if_pos (.inr written), written, Function.update_self]
      rfl
    · rw [if_neg here, if_neg (by simp [here, written]), if_neg here,
        Function.update_of_ne written]

inductive MoveCase (machine : Machine) : Move → Machine × Option Event → Prop where
  | idle {move : Move}
      (rests : ∀ stage rest, move = .advances → machine.halted = false →
        machine.running.progress ≠ .statements (stage :: rest)) :
      MoveCase machine move (machine, none)
  | whole {action : Action} (running : machine.halted = false)
      (going : machine.returning = false ∨ action = .sysret)
      (taken : isInterrupt action = true ∨ staysWhole action = true ∧ atRest machine = true) :
      MoveCase machine (.whole action) (machine.perform action)
  | begins {call : Call} (running : machine.halted = false) (rests : atRest machine = true) :
      MoveCase machine (.begins call) (withProgress machine (beginning machine call), none)
  | switches {rest : List Stage} (running : machine.halted = false)
      (left : machine.running.progress = .statements (.schedule :: rest)) :
      MoveCase machine .advances (withProgress machine (.statements rest)).schedule
  | runs {stage : Stage} {rest : List Stage} (running : machine.halted = false)
      (left : machine.running.progress = .statements (stage :: rest)) (stays : stage ≠ .schedule) :
      MoveCase machine .advances
        (withProgress (machine.withKernel (effect machine.kernel stage))
          (.statements (next machine.kernel stage ++ rest)), none)
  | creates {request : Kernel.SpawnRequest} {userRsp : Nat} {point : CreationPoint}
      (running : machine.halted = false)
      (left : machine.running.progress = .creating request userRsp point)
      (earlier : ∀ slot pid, point ≠ .installing slot pid) :
      MoveCase machine .advances
        (withProgress (machine.withKernel (pointEffect machine.kernel request point))
          (creationProgress request userRsp (nextPoint machine.kernel request point)), none)
  | installs {request : Kernel.SpawnRequest} {userRsp : Nat} {slot : Slot} {pid : Nat}
      (running : machine.halted = false)
      (left : machine.running.progress = .creating request userRsp (.installing slot pid)) :
      MoveCase machine .advances
        (storeTask machine request userRsp slot pid, some (.installed slot machine.kernel.current))

theorem step_stage {machine : Machine} {stage : Stage} {rest : List Stage}
    (running : machine.halted = false)
    (left : machine.running.progress = .statements (stage :: rest)) :
    step machine .advances = runStage machine rest stage := by
  unfold step
  dsimp only
  rw [if_neg (by simp [running]), left]

theorem step_point {machine : Machine} {request : Kernel.SpawnRequest} {userRsp : Nat}
    {point : CreationPoint} (running : machine.halted = false)
    (left : machine.running.progress = .creating request userRsp point) :
    step machine .advances = runPoint machine request userRsp point := by
  unfold step
  dsimp only
  rw [if_neg (by simp [running]), left]

theorem run_stage_eq (machine : Machine) (rest : List Stage) {stage : Stage}
    (stays : stage ≠ .schedule) :
    runStage machine rest stage =
      (withProgress (machine.withKernel (effect machine.kernel stage))
        (.statements (next machine.kernel stage ++ rest)), none) := by
  cases stage <;> first | rfl | exact absurd rfl stays

theorem advances_case {machine : Machine} (running : machine.halted = false) :
    MoveCase machine .advances (step machine .advances) := by
  cases left : machine.running.progress with
  | statements stages =>
      cases stages with
      | nil =>
          have stays : step machine .advances = (machine, none) := by simp [step, left]
          rw [stays]
          exact .idle fun _ _ _ _ same => by simp [left] at same
      | cons stage rest =>
          rw [step_stage running left]
          by_cases switches : stage = .schedule
          · subst switches
            exact .switches running left
          · rw [run_stage_eq machine rest switches]
            exact .runs running left switches
  | creating request userRsp point =>
      rw [step_point running left]
      cases point with
      | installing slot pid => exact .installs running left
      | searching slots => exact .creates running left nofun
      | reading slot => exact .creates running left nofun
      | adding slot pid => exact .creates running left nofun
      | storing slot pid loaded => exact .creates running left nofun
      | counting slot pid fds => exact .creates running left nofun

theorem move_case (machine : Machine) (move : Move) :
    MoveCase machine move (step machine move) := by
  cases running : machine.halted with
  | true =>
      have stopped : step machine move = (machine, none) := by
        cases move with
        | whole action => simp [step, Machine.step, running]
        | begins call => simp [step, running]
        | advances => simp [step, running]
      rw [stopped]
      exact .idle fun _ _ _ same => by simp [running] at same
  | false =>
      cases move with
      | whole action =>
          unfold step
          dsimp only
          split_ifs with taken
          · simp only [Bool.or_eq_true, Bool.and_eq_true] at taken
            exact step_rule (MoveCase machine (.whole action)) (.idle fun _ _ same => by cases same)
              fun running going => .whole running going taken
          · exact .idle fun _ _ same => by cases same
      | begins call =>
          unfold step
          dsimp only
          split_ifs with blocked
          · exact .idle fun _ _ same => by cases same
          · simp only [Bool.or_eq_true, not_or, Bool.not_eq_true', Bool.not_eq_true] at blocked
            exact .begins running (by simpa using blocked.2)
      | advances => exact advances_case running

theorem step_whole {machine : Machine} {action : Action}
    (taken : (isInterrupt action || staysWhole action && atRest machine) = true)
    (running : machine.halted = false) (free : machine.returning = false) :
    step machine (.whole action) = machine.perform action := by
  unfold step
  dsimp only
  rw [if_pos taken]
  unfold Machine.step
  rw [if_neg (by simp [running]), if_neg (by simp [free])]

structure StageChange (kernel : Kernel) (stage : Stage) (slot : Slot) (before after : Task) :
    Prop where
  pid : after.pid = before.pid
  ppid : after.ppid = before.ppid
  exitCode : after.exitCode = before.exitCode ∨
    (∃ code, stage = .storeExitCode code) ∧ slot = kernel.current
  state : after.state = before.state ∨ stage = .storeReady slot ∧ after.state = .ready ∨
    stage = .storeZombie ∧ slot = kernel.current ∧ after.state = .zombie

theorem StageChange.refl (kernel : Kernel) (stage : Stage) (slot : Slot) (task : Task) :
    StageChange kernel stage slot task task :=
  ⟨rfl, rfl, .inl rfl, .inl rfl⟩

structure StageEffect (kernel : Kernel) (stage : Stage) (after : Kernel) : Prop where
  tasks : ∀ slot,
    Option.Rel (StageChange kernel stage slot) (kernel.tasks slot) (after.tasks slot)
  current : after.current = kernel.current
  nextPid : after.nextPid = kernel.nextPid
  ttyWaiter : after.ttyWaiter = kernel.ttyWaiter
  pipeWaiters : after.pipeWaiters = kernel.pipeWaiters ∨
    ∃ index : PipeIndex, stage = .clearPipeWaiter index.val ∧
      after.pipeWaiters = Function.update kernel.pipeWaiters index none

theorem stage_effect_same {kernel after : Kernel} {stage : Stage}
    (tasks : after.tasks = kernel.tasks) (current : after.current = kernel.current)
    (nextPid : after.nextPid = kernel.nextPid) (ttyWaiter : after.ttyWaiter = kernel.ttyWaiter)
    (pipeWaiters : after.pipeWaiters = kernel.pipeWaiters) : StageEffect kernel stage after :=
  ⟨fun slot => tasks ▸ option_rel_refl (StageChange.refl kernel stage slot) _, current, nextPid,
    ttyWaiter, .inl pipeWaiters⟩

theorem stage_effect_set_task {base kernel : Kernel} {stage : Stage} {slot : Slot}
    {before after : Task} (present : kernel.tasks slot = some before)
    (tasks : base.tasks = kernel.tasks) (current : base.current = kernel.current)
    (nextPid : base.nextPid = kernel.nextPid) (ttyWaiter : base.ttyWaiter = kernel.ttyWaiter)
    (pipeWaiters : base.pipeWaiters = kernel.pipeWaiters)
    (change : StageChange kernel stage slot before after) :
    StageEffect kernel stage (base.setTask slot after) where
  tasks := by
    refine set_task_cases
      (fun other task => Option.Rel (StageChange kernel stage other) (kernel.tasks other) task)
      base slot after ?_ ?_
    · rw [present]
      exact .some change
    · intro other _
      rw [tasks]
      exact option_rel_refl (StageChange.refl kernel stage other) _
  current := current
  nextPid := nextPid
  ttyWaiter := ttyWaiter
  pipeWaiters := .inl pipeWaiters

theorem modify_slot_effect {kernel : Kernel} {stage : Stage} {slot : Slot} {change : Task → Task}
    (changes : ∀ task, StageChange kernel stage slot task (change task)) :
    StageEffect kernel stage (modifySlot kernel slot change) := by
  unfold modifySlot
  split
  · rename_i task present
    exact stage_effect_set_task present rfl rfl rfl rfl rfl (changes task)
  · exact stage_effect_same rfl rfl rfl rfl rfl

theorem stage_effect (kernel : Kernel) (stage : Stage) :
    StageEffect kernel stage (effect kernel stage) := by
  have idle : StageEffect kernel stage kernel := stage_effect_same rfl rfl rfl rfl rfl
  cases stage with
  | raise slot sig => exact modify_slot_effect fun _ => ⟨rfl, rfl, .inl rfl, .inl rfl⟩
  | storeReady slot =>
      exact modify_slot_effect fun _ => ⟨rfl, rfl, .inl rfl, .inr (.inl ⟨rfl, rfl⟩)⟩
  | clearWait slot => exact modify_slot_effect fun _ => ⟨rfl, rfl, .inl rfl, .inl rfl⟩
  | storeExitCode code =>
      exact modify_slot_effect fun _ => ⟨rfl, rfl, .inr ⟨⟨code, rfl⟩, rfl⟩, .inl rfl⟩
  | storeZombie =>
      exact modify_slot_effect fun _ => ⟨rfl, rfl, .inl rfl, .inr (.inr ⟨rfl, rfl, rfl⟩)⟩
  | clearPipeWaiter idx =>
      simp only [effect]
      split_ifs with bound
      · exact ⟨idle.tasks, rfl, rfl, rfl, .inr ⟨⟨idx, bound⟩, rfl, rfl⟩⟩
      · exact idle
  | closeFds fds =>
      cases fds with
      | nil => exact idle
      | cons fd fds =>
          simp only [effect, closeOneFd]
          split
          · rename_i task present
            exact stage_effect_set_task present rfl rfl rfl rfl rfl ⟨rfl, rfl, .inl rfl, .inl rfl⟩
          · exact idle
  | closeFd fd =>
      simp only [effect, currentFdClose]
      split
      · exact idle
      · rename_i task present
        split
        · exact idle
        · exact stage_effect_set_task present rfl rfl rfl rfl rfl ⟨rfl, rfl, .inl rfl, .inl rfl⟩
  | storeByte index byte => exact stage_effect_same rfl rfl rfl rfl rfl
  | storeHead index next => exact stage_effect_same rfl rfl rfl rfl rfl
  | releaseEntry entry => exact stage_effect_same rfl rfl rfl rfl rfl
  | _ => exact idle

theorem point_effect_earlier {request : Kernel.SpawnRequest} {point : CreationPoint}
    (kernel : Kernel) (earlier : ∀ slot pid, point ≠ .installing slot pid) :
    (pointEffect kernel request point).tasks = kernel.tasks ∧
      (pointEffect kernel request point).current = kernel.current ∧
      (pointEffect kernel request point).ttyWaiter = kernel.ttyWaiter ∧
      (pointEffect kernel request point).pipeWaiters = kernel.pipeWaiters := by
  cases point with
  | installing slot pid => exact absurd rfl (earlier slot pid)
  | counting slot pid fds => cases fds <;> exact ⟨rfl, rfl, rfl, rfl⟩
  | _ => exact ⟨rfl, rfl, rfl, rfl⟩

end Ferrugem.PreemptedCalls
