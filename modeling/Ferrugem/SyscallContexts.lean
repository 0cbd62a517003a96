import Ferrugem.SyscallReturnStack

/-!
# The context of a system call

The stubs of `arch/x86_64/idt.rs` and `syscall_entry_rust`, `dispatch`,
`sys_fork`, `sys_clone` and `sys_execve` of `syscall/mod.rs`, over the machine
of `Ferrugem.KernelMachine`, one access to a global at a time. The gate of
`INT 0x80` leaves interrupts enabled, so a timer interrupt may come in between
any two of these accesses; `SYSCALL` clears `IF`.

The context of a call travels in four globals that all tasks share. `entry` and
`id` in a call, `execOwner` and `callCount` say whose values they are, and are
history variables.
-/

namespace Ferrugem.SyscallContexts

open Ferrugem.ProcessModel Ferrugem.SchedulerModel Ferrugem.KernelMachine
open Ferrugem.KernelEvolution Ferrugem.TaskLifecycle Ferrugem.SyscallReturnStack

set_option autoImplicit false

/-- `SYSCALL_USER_IP`, `SYSCALL_USER_SP` and the words of `SYSCALL_USER_REGS`. -/
inductive ContextWord where
  | ip
  | sp
  | reg (index : Fin 6)
  deriving DecidableEq

def regWords : List ContextWord := (List.finRange 6).map .reg

/-- `set_user_ctx`, then the first statement of `dispatch`. -/
def entryStores : List ContextWord := .ip :: .sp :: regWords

/-- `(new_ip, new_sp, new_pt_phys)`. -/
abbrev Redirect := Nat × Nat × Nat

inductive Gate where
  | int80
  | syscall
  deriving DecidableEq

/-- Where a call stands: `loads` is what `sys_fork` or `sys_clone` has still to
read, `own` what the call's own `sys_execve` has put into `EXEC_CTX`, and
`found` what `take_exec_ctx` has read there, with the call that had set it. -/
inductive Stage where
  | storing (left : List ContextWord)
  | handling (loads : List ContextWord)
  | redirecting (target : Redirect)
  | leaving (own : Option Redirect)
  | clearing (own : Option Redirect) (found : Option (Nat × Redirect))
  deriving DecidableEq

structure Call where
  id : Nat
  gate : Gate
  nr : Nat
  entry : ContextWord → Nat
  stage : Stage

def sysClone : Nat := 56

def sysFork : Nat := 57

def sysExecve : Nat := 59

instance sixArguments : NeZero 6 := ⟨by decide⟩

namespace Call

def reads (call : Call) : List ContextWord :=
  if call.nr = sysFork then .sp :: .ip :: regWords
  else if call.nr = sysClone then
    if (call.entry (.reg 0)).testBit 16 then []
    else if call.entry (.reg 1) = 0 then .sp :: .ip :: regWords
    else .ip :: regWords
  else []

/-- The word was stored at the entry and has still to be read. -/
def awaits (call : Call) (word : ContextWord) : Bool :=
  match call.stage with
  | .storing left => !left.contains word && call.reads.contains word
  | .handling loads => loads.contains word
  | _ => false

/-- The handler runs, past its reads of the context words. -/
def isHandling (call : Call) : Bool := call.stage == .handling []

def afterStore (call : Call) : List ContextWord → Call
  | [] => { call with stage := .handling call.reads }
  | left => { call with stage := .storing left }

/-- `sys_fork` and `sys_clone` give up after reading a zero instruction pointer. -/
def afterLoad (call : Call) (word : ContextWord) (value : Nat) (left : List ContextWord) : Call :=
  { call with stage := .handling (if word = .ip ∧ value = 0 then [] else left) }

end Call

def entryWord (ip sp : Nat) (regs : Fin 6 → Nat) : ContextWord → Nat
  | .ip => ip
  | .sp => sp
  | .reg index => regs index

/-- `running` is the call on the current kernel stack, `suspended slot` the one
on the saved stack of the slot. -/
structure CallMachine where
  machine : Machine
  words : ContextWord → Nat
  execOwner : Nat
  callCount : Nat
  running : Option Call
  suspended : Slot → Option Call

inductive CallEvent where
  | loaded (word : ContextWord) (stored read : Nat)
  | returned (call : Nat) (own : Option Redirect) (found : Option (Nat × Redirect))
  deriving DecidableEq

/-- `kernel` is any section of `Ferrugem.KernelMachine` or an interrupt;
`finish` is the return of the handler into the stub. -/
inductive CallAction where
  | kernel (action : Action)
  | enter (gate : Gate) (nr ip : Nat) (regs : Fin 6 → Nat)
  | store
  | load
  | execveCurrent (newIp newSp newPt heapStart : Nat)
  | setExecCtx
  | finish
  | readExecCtx
  | clearExecCtx

/-- The redirect of the stub and its return to user code: `apply_exec_redirect`
and `iretq`, or `apply_exec_redirect_syscall` and `sysretq`. -/
def leave (machine : Machine) : Gate → Option Redirect → Machine
  | .int80, some (_, newSp, newPt) =>
      { machine with
        execCtx := none
        cr3 := newPt
        running := { machine.running with userRsp := newSp } }
  | .int80, none => { machine with execCtx := none }
  | .syscall, _ => machine.sysret.1

/-- What may run outside the accesses above: interrupts at any time, user code
outside a call, and the sections of the kernel outside a call or in its
handler. -/
def mayRun (running : Option Call) : Action → Bool
  | .tick | .ttyInput => true
  | .userStack _ => running.isNone
  | .syscallEntry | .sysret | .execve _ _ _ _ => false
  | _ => running.all Call.isHandling

def installedSlot (machine : Machine) : Action → Option Slot
  | .spawnInstall => machine.running.spawning.bind Spawning.slot
  | _ => none

namespace CallMachine

def withCall (state : CallMachine) (call : Call) : CallMachine :=
  { state with running := some call }

/-- The kernel stacks are exchanged when `CURRENT` changes. -/
def follow (state : CallMachine) (after : Machine) : CallMachine :=
  if after.kernel.current = state.machine.kernel.current then { state with machine := after }
  else
    { state with
      machine := after
      running := state.suspended after.kernel.current
      suspended :=
        Function.update state.suspended state.machine.kernel.current state.running }

def kernelStep (state : CallMachine) (action : Action) : CallMachine :=
  let followed := state.follow (state.machine.perform action).1
  { followed with
    suspended := fun slot =>
      if slot ∈ installedSlot state.machine action then none else followed.suspended slot }

def enter (state : CallMachine) (gate : Gate) (nr ip : Nat) (regs : Fin 6 → Nat) : CallMachine :=
  if state.running.isNone ∧ state.machine.kernel.currentTask.any Task.isUser then
    { state with
      machine :=
        match gate with
        | .int80 => state.machine
        | .syscall => state.machine.syscallEntry
      callCount := state.callCount + 1
      running := some
        { id := state.callCount
          gate := gate
          nr := nr
          entry := entryWord ip state.machine.running.userRsp regs
          stage := .storing entryStores } }
  else state

def access (state : CallMachine) (call : Call) :
    CallAction → Stage → CallMachine × Option CallEvent
  | .store, .storing (word :: left) =>
      ({ state.withCall (call.afterStore left) with
          words := Function.update state.words word (call.entry word) }, none)
  | .load, .handling (word :: left) =>
      (state.withCall (call.afterLoad word (state.words word) left),
        some (.loaded word (call.entry word) (state.words word)))
  | .execveCurrent newIp newSp newPt heapStart, .handling [] =>
      if call.nr = sysExecve then
        ({ state.withCall { call with stage := .redirecting (newIp, newSp, newPt) } with
            machine :=
              { state.machine with
                kernel := state.machine.kernel.execveTask newPt heapStart
                fsBase := 0 } }, none)
      else (state, none)
  | .setExecCtx, .redirecting target =>
      ({ state.withCall { call with stage := .leaving (some target) } with
          machine := { state.machine with execCtx := some target }
          execOwner := call.id }, none)
  | .finish, .handling [] => (state.withCall { call with stage := .leaving none }, none)
  | .readExecCtx, .leaving own =>
      (state.withCall
        { call with
          stage := .clearing own (state.machine.execCtx.map (Prod.mk state.execOwner)) }, none)
  | .clearExecCtx, .clearing own found =>
      ({ state with
          machine := leave state.machine call.gate (found.map Prod.snd)
          running := none },
        some (.returned call.id own found))
  | _, _ => (state, none)

def step (state : CallMachine) (action : CallAction) : CallMachine × Option CallEvent :=
  if state.machine.halted then (state, none)
  else
    match action with
    | .kernel action =>
        (if mayRun state.running action then state.kernelStep action else state, none)
    | .enter gate nr ip regs => (state.enter gate nr ip regs, none)
    | action =>
        match state.running with
        | some call => state.access call action call.stage
        | none => (state, none)

end CallMachine

/-- The call in which the task of the slot runs or may still run. -/
def CallMachine.callAt (state : CallMachine) (slot : Slot) : Option Call :=
  if slot = state.machine.kernel.current then state.running
  else if resumable state.machine.kernel slot then state.suspended slot
  else none

def Stage.stores : Stage → CallAction → Option ContextWord
  | .storing (word :: _), .store => some word
  | _, _ => none

/-- A call without a redirect of its own in `EXEC_CTX` sets, reads or clears it. -/
def Stage.touches : Stage → CallAction → Bool
  | .redirecting _, .setExecCtx => true
  | .leaving none, .readExecCtx => true
  | .clearing none _, .clearExecCtx => true
  | _, _ => false

/-- No entry overwrites a word that the call of another task has stored
otherwise and has still to read, and `EXEC_CTX` is empty whenever a call
without a redirect of its own comes to it. -/
def KeepsContexts (state : CallMachine) (action : CallAction) : Prop :=
  ∀ call ∈ state.running,
    (∀ word ∈ call.stage.stores action, ∀ slot, ∀ other ∈ state.callAt slot,
      slot ≠ state.machine.kernel.current → other.awaits word = true →
        other.entry word = call.entry word) ∧
      (call.stage.touches action = true → state.machine.execCtx = none)

instance decidableKeepsContexts (state : CallMachine) (action : CallAction) :
    Decidable (KeepsContexts state action) :=
  inferInstanceAs (Decidable (∀ call ∈ state.running,
    (∀ word ∈ call.stage.stores action, ∀ slot, ∀ other ∈ state.callAt slot, _ → _ → _) ∧ (_ → _)))

section

variable {state : CallMachine} {call : Call}

end

/-- The idle task starts two user tasks with different stacks and enters the
first. -/
def twoTasks : List CallAction :=
  [.kernel (.spawnGather (.user 0x10000 0x19000 0x20000 0 0x7000)), .kernel .spawnChoose,
    .kernel .spawnInstall,
    .kernel (.spawnGather (.user 0x30000 0x39000 0x40000 0 0x6000)), .kernel .spawnChoose,
    .kernel .spawnInstall, .kernel .schedule]

end Ferrugem.SyscallContexts
