import Ferrugem.PipeContents
import Ferrugem.PreemptedCalls

/-!
# Reads and writes of a pipe, statement by statement

`sys_read` and `sys_write` on a pipe or a socket pair run loops over the ring, and a
call that came in through `INT 0x80` can be interrupted before each statement of
them, since its gate leaves interrupts on. Here both calls are taken statement by
statement, interleaved with all other operations of the machine. The bytes that each
pipe has accepted and given out since it was opened are recorded; the fields
`unseen`, `fetched` and `disturbed` of a call record what other tasks did since the
statement that they are counted from. No transition reads a record. A loop that
nothing interrupts does what `Pipe::write` and `Pipe::read` do in one call.
-/

namespace Ferrugem.PipeTransfers

open Ferrugem.PipePoolModel Ferrugem.ProcessModel Ferrugem.SchedulerModel
open Ferrugem.DescriptorSyscalls Ferrugem.KernelMachine Ferrugem.KernelEvolution
open Ferrugem.KernelOperations Ferrugem.ByteRings Ferrugem.PipeContents Ferrugem.PreemptedCalls

set_option autoImplicit false

/-- The statement of `sys_read` that comes next: the test of `pipe_read`, the loop of
`Pipe::read` with the bytes read so far, and the rest of the call's own loop. The
`schedule()` at the end of `block_on_pipe` is `yielding`. -/
inductive ReadPhase where
  | entering
  | looking (got : List UInt8)
  | copying (got : List UInt8)
  | advancing (got : List UInt8) (byte : UInt8)
  | storing (got : List UInt8) (byte : UInt8) (next : Fin pipeBuf)
  | testing
  | blocking
  | yielding
  deriving DecidableEq

/-- A `sys_read` with the pipe its descriptor denoted at entry. Since the last test
whether the ring is empty, `unseen` bytes were put into the ring or left there
unseen, and other reads took `fetched` bytes. -/
structure ReadFrame where
  idx : Nat
  length : Nat
  phase : ReadPhase
  unseen : Nat
  fetched : Nat
  disturbed : Bool
  deriving DecidableEq

/-- The statement of `sys_write` that comes next: the tests of `sys_write` and
`pipe_write`, the loop of `Pipe::write`, and `wake_pipe_waiter`. -/
inductive WritePhase where
  | checking
  | entering
  | loading
  | testing (next : Fin pipeBuf)
  | filling (next : Fin pipeBuf)
  | storing (next : Fin pipeBuf)
  | taking
  | clearing (record : Option Slot)
  | waking (slot : Slot)
  | readying (slot : Slot)
  deriving DecidableEq

/-- A `sys_write` with the bytes it has not written yet. It is disturbed when another
write stores a byte or the head while this one has the head loaded. -/
structure WriteFrame where
  idx : Nat
  rest : List UInt8
  written : Bool
  phase : WritePhase
  disturbed : Bool
  deriving DecidableEq

inductive Transfer where
  | read (frame : ReadFrame)
  | write (frame : WriteFrame)
  deriving DecidableEq

def Transfer.idx : Transfer → Nat
  | .read frame => frame.idx
  | .write frame => frame.idx

/-- What calls on the pipe notice when another write fills a cell of the ring. -/
def Transfer.sawFill (idx : Nat) : Transfer → Transfer
  | .read frame => .read frame
  | .write frame => if frame.idx = idx then .write { frame with disturbed := true } else .write frame

/-- The same when another write stores the head. -/
def Transfer.sawStore (idx : Nat) : Transfer → Transfer
  | .read frame =>
      if frame.idx = idx then .read { frame with unseen := frame.unseen + 1 } else .read frame
  | .write frame => if frame.idx = idx then .write { frame with disturbed := true } else .write frame

/-- The same when another read stores the tail. -/
def Transfer.sawTake (idx : Nat) : Transfer → Transfer
  | .read frame =>
      if frame.idx = idx then
        .read { frame with fetched := frame.fetched + 1, disturbed := true }
      else .read frame
  | .write frame => .write frame

/-- The same when the slot of the pool is handed out anew. -/
def Transfer.sawOpen (opened : List PipeIndex) : Transfer → Transfer
  | .read frame =>
      if frame.idx ∈ opened.map Fin.val then
        .read { frame with unseen := 0, fetched := 0, disturbed := true }
      else .read frame
  | .write frame =>
      if frame.idx ∈ opened.map Fin.val then .write { frame with disturbed := true }
      else .write frame

structure TransferState where
  machine : Machine
  calls : Slot → Option Transfer
  accepted : PipeIndex → List UInt8
  taken : PipeIndex → List UInt8

/-- A read takes a byte out of the ring, and returns what it got, or 0 from its loop. -/
inductive TransferEvent where
  | took (slot : Slot) (idx : Nat) (byte : UInt8)
  | filled (slot : Slot) (idx : Nat) (bytes : List UInt8)
  | endOfFile (slot : Slot) (idx : Nat)
  deriving DecidableEq

inductive TransferAction where
  | operation (operation : Operation)
  | sysRead (fd buf len : Nat)
  | sysWrite (fd buf : Nat) (data : List UInt8)
  | advance

/-- The sections of `sys_read` and `sys_write`, which are taken statement by statement. -/
def isTransferSection : Operation → Bool
  | .act (.readPipe _ _) _ => true
  | .act (.writePipe _ _) _ => true
  | .act (.blockOnPipe _) _ => true
  | _ => false

def interrupts : Operation → Bool
  | .act .tick _ => true
  | .act .ttyInput _ => true
  | _ => false

/-- `POOL[i].pipe`; the loops run only after `i < MAX_PIPES` has been tested. -/
def ringOf (pool : Pool) (idx : Nat) : Pipe :=
  if bound : idx < maxPipes then rings pool ⟨idx, bound⟩ else Pipe.new

def changeRing (pool : Pool) (idx : Nat) (change : Pipe → Pipe) : Pool :=
  if bound : idx < maxPipes then
    Function.update pool ⟨idx, bound⟩
      { pool ⟨idx, bound⟩ with pipe := change (pool ⟨idx, bound⟩).pipe }
  else pool

def pipeInUse (pool : Pool) (idx : Nat) : Bool :=
  if bound : idx < maxPipes then (pool ⟨idx, bound⟩).inUse else false

/-- A history with one more byte of the pipe. -/
def withByte (history : PipeIndex → List UInt8) (idx : Nat) (byte : UInt8) (index : PipeIndex) :
    List UInt8 :=
  if idx = index.val then history index ++ [byte] else history index

namespace TransferState

def current (state : TransferState) : Slot := state.machine.kernel.current

def pool (state : TransferState) : Pool := state.machine.kernel.pool

def going (state : TransferState) : Bool := !state.machine.halted && !state.machine.returning

/-- Inside a call the running task does nothing else, but it is interrupted. -/
def admits (state : TransferState) (operation : Operation) : Bool :=
  !isTransferSection operation && ((state.calls state.current).isNone || interrupts operation)

/-- The slot in which the operation places a new task. -/
def installs (state : TransferState) : Operation → Option Slot
  | .spawn kind =>
      if state.going && (state.machine.spawnRequest kind).isSome then
        state.machine.kernel.firstVacant
      else none
  | _ => none

/-- The slots of the pool that the operation hands out. -/
def opens (state : TransferState) : Operation → List PipeIndex
  | .act action _ => if state.going then openedPipes state.machine.kernel action else []
  | _ => []

def operate (state : TransferState) (operation : Operation) : TransferState where
  machine := (operationSystem.step state.machine operation).1
  calls := fun slot =>
    if state.installs operation = some slot then none
    else (state.calls slot).map (Transfer.sawOpen (state.opens operation))
  accepted := fun index => if index ∈ state.opens operation then [] else state.accepted index
  taken := fun index => if index ∈ state.opens operation then [] else state.taken index

def setCall (state : TransferState) (call : Option Transfer) : TransferState :=
  { state with calls := fun slot => if slot = state.current then call else state.calls slot }

/-- A statement that writes a ring, which the calls of the other tasks notice. -/
def touch (state : TransferState) (idx : Nat) (change : Pipe → Pipe)
    (saw : Transfer → Transfer) : TransferState :=
  { state with
    machine := state.machine.withKernel
      { state.machine.kernel with pool := changeRing state.pool idx change }
    calls := fun slot =>
      if slot = state.current then state.calls slot else (state.calls slot).map saw }

/-- `sys_read` up to its loop; other descriptors are served elsewhere. -/
def beginRead (state : TransferState) (fd buf len : Nat) : TransferState :=
  if len = 0 ∨ buf = 0 then state
  else
    match (currentFdGet state.machine.kernel fd).bind readPipe with
    | some idx =>
        state.setCall (some (.read
          { idx := idx
            length := len
            phase := .entering
            unseen := 0
            fetched := 0
            disturbed := false }))
    | none => state

def beginWrite (state : TransferState) (fd buf : Nat) (data : List UInt8) : TransferState :=
  if data = [] ∨ buf = 0 then state
  else
    match (currentFdGet state.machine.kernel fd).bind writePipe with
    | some idx =>
        state.setCall (some (.write
          { idx := idx
            rest := data
            written := false
            phase := .checking
            disturbed := false }))
    | none => state

/-- The next statement of `sys_read`. -/
def readStatement (state : TransferState) (frame : ReadFrame) :
    TransferState × Option TransferEvent :=
  let pipe := ringOf state.pool frame.idx
  match frame.phase with
  | .entering =>
      if pipeInUse state.pool frame.idx then
        (state.setCall (some (.read { frame with phase := .looking [] })), none)
      else
        (state.setCall (some (.read
          { frame with
            phase := .testing
            unseen := (pipeBytes pipe).length
            fetched := 0
            disturbed := false })), none)
  | .looking got =>
      if got.length = frame.length ∨ pipe.head = pipe.tail then
        if got = [] then
          (state.setCall (some (.read
            { frame with
              phase := .testing
              unseen := 0
              fetched := 0
              disturbed := false })), none)
        else (state.setCall none, some (.filled state.current frame.idx got))
      else
        (state.setCall (some (.read
          { frame with
            phase := .copying got
            unseen := 0
            fetched := 0
            disturbed := false })), none)
  | .copying got =>
      (state.setCall (some (.read
        { frame with phase := .advancing got (pipe.buf pipe.tail) })), none)
  | .advancing got byte =>
      (state.setCall (some (.read
        { frame with phase := .storing got byte (nextIndex pipe.tail) })), none)
  | .storing got byte next =>
      (({ state.touch frame.idx (fun pipe => { pipe with tail := next })
              (Transfer.sawTake frame.idx) with
            taken := withByte state.taken frame.idx byte }.setCall
          (some (.read { frame with phase := .looking (got ++ [byte]) }))),
        some (.took state.current frame.idx byte))
  | .testing =>
      if pipeWriteOpen state.pool frame.idx then
        (state.setCall (some (.read { frame with phase := .blocking })), none)
      else (state.setCall none, some (.endOfFile state.current frame.idx))
  | .blocking =>
      let waiting :=
        if state.machine.kernel.mustBlockOnPipe frame.idx then ReadPhase.yielding else .entering
      ({ state.setCall (some (.read { frame with phase := waiting })) with
          machine := (state.machine.step (.blockOnPipe frame.idx)).1 }, none)
  | .yielding =>
      ({ state.setCall (some (.read { frame with phase := .entering })) with
          machine := (state.machine.step .schedule).1 }, none)

/-- The end of the loop of `Pipe::write`. -/
def wrote (frame : WriteFrame) : Option Transfer :=
  if frame.written then some (.write { frame with phase := .taking }) else none

/-- The next statement of `sys_write`. -/
def writeStatement (state : TransferState) (frame : WriteFrame) : TransferState :=
  let pipe := ringOf state.pool frame.idx
  match frame.phase with
  | .checking =>
      state.setCall (if pipeReadOpen state.pool frame.idx then
        some (.write { frame with phase := .entering }) else none)
  | .entering =>
      state.setCall (if pipeInUse state.pool frame.idx then
        some (.write { frame with phase := .loading }) else none)
  | .loading =>
      state.setCall (if frame.rest = [] then wrote frame
        else some (.write
          { frame with phase := .testing (nextIndex pipe.head), disturbed := false }))
  | .testing next =>
      state.setCall (if next = pipe.tail then wrote frame
        else some (.write { frame with phase := .filling next }))
  | .filling next =>
      match frame.rest with
      | byte :: _ =>
          (state.touch frame.idx
            (fun pipe => { pipe with buf := Function.update pipe.buf pipe.head byte })
            (Transfer.sawFill frame.idx)).setCall
              (some (.write { frame with phase := .storing next }))
      | [] => state.setCall none
  | .storing next =>
      match frame.rest with
      | byte :: rest =>
          { state.touch frame.idx (fun pipe => { pipe with head := next })
              (Transfer.sawStore frame.idx) with
            accepted := withByte state.accepted frame.idx byte }.setCall
              (some (.write { frame with rest := rest, written := true, phase := .loading }))
      | [] => state.setCall none
  | .taking =>
      state.setCall (if bound : frame.idx < maxPipes then
        some (.write { frame with
          phase := .clearing (state.machine.kernel.pipeWaiters ⟨frame.idx, bound⟩) }) else none)
  | .clearing record =>
      { state.setCall (record.map fun slot => .write { frame with phase := .waking slot }) with
        machine := state.machine.withKernel
          (effect state.machine.kernel (.clearPipeWaiter frame.idx)) }
  | .waking slot =>
      state.setCall (if isBlocked state.machine.kernel slot then
        some (.write { frame with phase := .readying slot }) else none)
  | .readying slot =>
      { state.setCall none with
        machine := state.machine.withKernel (effect state.machine.kernel (.storeReady slot)) }

end TransferState

def transferSystem : EventSystem TransferState TransferAction TransferEvent where
  init :=
    { machine := bootMachine
      calls := fun _ => none
      accepted := fun _ => []
      taken := fun _ => [] }
  step := fun state action =>
    match action with
    | .operation operation =>
        if state.admits operation then (state.operate operation, none) else (state, none)
    | .sysRead fd buf len =>
        if state.going && (state.calls state.current).isNone then
          (state.beginRead fd buf len, none)
        else (state, none)
    | .sysWrite fd buf data =>
        if state.going && (state.calls state.current).isNone then
          (state.beginWrite fd buf data, none)
        else (state, none)
    | .advance =>
        match state.calls state.current with
        | some (.read frame) => if state.going then state.readStatement frame else (state, none)
        | some (.write frame) =>
            if state.going then (state.writeStatement frame, none) else (state, none)
        | none => (state, none)

def advances (count : Nat) : List TransferAction := List.replicate count .advance

def TransferState.withRing (state : TransferState) (idx : Nat) (change : Pipe → Pipe) : Machine :=
  state.machine.withKernel
    { state.machine.kernel with pool := changeRing state.pool idx change }

theorem change_ring_id (pool : Pool) (idx : Nat) {change : Pipe → Pipe}
    (same : change (ringOf pool idx) = ringOf pool idx) : changeRing pool idx change = pool := by
  unfold changeRing
  split_ifs with bound
  · have held : change (pool ⟨idx, bound⟩).pipe = (pool ⟨idx, bound⟩).pipe := by
      simpa only [ringOf, dif_pos bound, rings] using same
    rw [held, Function.update_eq_self]
  · rfl

theorem change_ring_twice (pool : Pool) (idx : Nat) (first second : Pipe → Pipe) :
    changeRing (changeRing pool idx first) idx second =
      changeRing pool idx fun pipe => second (first pipe) := by
  unfold changeRing
  split_ifs with bound
  · simp
  · rfl

theorem ring_of_change {pool : Pool} {idx : Nat} (bound : idx < maxPipes)
    (change : Pipe → Pipe) : ringOf (changeRing pool idx change) idx = change (ringOf pool idx) := by
  simp [ringOf, changeRing, rings, bound]

theorem change_ring_congr {pool : Pool} {idx : Nat} {first second : Pipe → Pipe}
    (same : first (ringOf pool idx) = second (ringOf pool idx)) :
    changeRing pool idx first = changeRing pool idx second := by
  unfold changeRing
  split_ifs with bound
  · simp only [ringOf, dif_pos bound, rings] at same
    rw [same]
  · rfl

theorem write_step {state : TransferState} {frame : WriteFrame}
    (left : state.calls state.current = some (.write frame)) (going : state.going = true) :
    (transferSystem.step state .advance).1 = state.writeStatement frame := by
  simp only [transferSystem, left, going, if_true]

theorem read_step {state : TransferState} {frame : ReadFrame}
    (left : state.calls state.current = some (.read frame)) (going : state.going = true) :
    (transferSystem.step state .advance).1 = (state.readStatement frame).1 := by
  simp only [transferSystem, left, going, if_true]

theorem set_call_current (state : TransferState) (call : Option Transfer) :
    (state.setCall call).calls (state.setCall call).current = call := if_pos rfl

theorem with_ring_same {state : TransferState} {idx : Nat} {change : Pipe → Pipe}
    (same : change (ringOf state.pool idx) = ringOf state.pool idx) :
    state.withRing idx change = state.machine := by
  unfold TransferState.withRing
  rw [change_ring_id _ _ same]
  rfl

theorem with_ring_twice {state after : TransferState} {idx : Nat} {first second whole : Pipe → Pipe}
    (machine : after.machine = state.withRing idx first)
    (same : second (first (ringOf state.pool idx)) = whole (ringOf state.pool idx)) :
    after.withRing idx second = state.withRing idx whole := by
  unfold TransferState.withRing TransferState.pool
  rw [machine]
  exact congrArg
    (fun pool => state.machine.withKernel { state.machine.kernel with pool := pool })
    ((change_ring_twice state.pool idx first second).trans (change_ring_congr same))

/-- One round of the loop of `Pipe::write`. -/
theorem write_round {state : TransferState} {frame : WriteFrame} {byte : UInt8}
    {data : List UInt8} (left : state.calls state.current = some (.write frame))
    (going : state.going = true) (phase : frame.phase = .loading)
    (rest : frame.rest = byte :: data)
    (room : nextIndex (ringOf state.pool frame.idx).head ≠ (ringOf state.pool frame.idx).tail) :
    ∃ after, transferSystem.runFrom state (advances 4) = after ∧
      after.machine = state.withRing frame.idx (fun pipe =>
        { pipe with
          buf := Function.update pipe.buf pipe.head byte
          head := nextIndex (ringOf state.pool frame.idx).head }) ∧
      after.calls after.current = some (.write
        { frame with rest := data, written := true, phase := .loading, disturbed := false }) := by
  obtain ⟨idx, rest', written, phase', disturbed⟩ := frame
  cases rest
  cases phase
  let next := nextIndex (ringOf state.pool idx).head
  let frame : WriteFrame :=
    { idx := idx
      rest := byte :: data
      written := written
      phase := .loading
      disturbed := false }
  let first := state.setCall
    (some (.write { frame with phase := .testing next }))
  let second := first.setCall
    (some (.write { frame with phase := .filling next }))
  let third := (second.touch frame.idx
    (fun pipe => { pipe with buf := Function.update pipe.buf pipe.head byte })
    (Transfer.sawFill frame.idx)).setCall
      (some (.write { frame with phase := .storing next }))
  have loads : (transferSystem.step state .advance).1 = first := by
    rw [write_step left going]
    rfl
  have tests : (transferSystem.step first .advance).1 = second :=
    (write_step (set_call_current _ _) going).trans (congrArg first.setCall (if_neg room))
  have fills : (transferSystem.step second .advance).1 = third :=
    write_step (set_call_current _ _) going
  have stores : (transferSystem.step third .advance).1 = third.writeStatement _ :=
    write_step (set_call_current _ _) going
  refine ⟨(transferSystem.step third .advance).1, ?_, ?_, ?_⟩
  · change (transferSystem.step (transferSystem.step (transferSystem.step
      (transferSystem.step state .advance).1 .advance).1 .advance).1 .advance).1 = _
    rw [loads, tests, fills]
  · rw [stores]
    exact congrArg
      (fun pool => state.machine.withKernel { state.machine.kernel with pool := pool })
      (change_ring_twice second.pool frame.idx
        (fun pipe => { pipe with buf := Function.update pipe.buf pipe.head byte })
        fun pipe => { pipe with head := next })
  · rw [stores]
    exact set_call_current _ _

theorem run_advances_add (state : TransferState) (first second : Nat) :
    transferSystem.runFrom state (advances (first + second)) =
      transferSystem.runFrom (transferSystem.runFrom state (advances first)) (advances second) := by
  rw [← transferSystem.run_from_append, advances, List.replicate_add]
  rfl

/-- Without interruption the loop is `Pipe::write`. -/
theorem write_loop (data : List UInt8) (state : TransferState) (frame : WriteFrame)
    (left : state.calls state.current = some (.write frame)) (going : state.going = true)
    (bound : frame.idx < maxPipes) (phase : frame.phase = .loading) (rest : frame.rest = data) :
    ∃ steps, (transferSystem.runFrom state (advances steps)).machine =
      state.withRing frame.idx fun pipe => (pipe.write data).1 := by
  induction data generalizing state frame with
  | nil => exact ⟨0, (with_ring_same rfl).symm⟩
  | cons byte data ih =>
      by_cases full : nextIndex (ringOf state.pool frame.idx).head =
          (ringOf state.pool frame.idx).tail
      · have nothing : (ringOf state.pool frame.idx).write (byte :: data) =
            (ringOf state.pool frame.idx, 0) := if_pos full
        exact ⟨0, (with_ring_same (congrArg Prod.fst nothing)).symm⟩
      · obtain ⟨after, round, machine, own⟩ := write_round left going phase rest full
        have onward : after.going = true := by
          simp only [TransferState.going, machine]
          exact going
        obtain ⟨steps, reached⟩ := ih after _ own onward bound rfl rfl
        refine ⟨4 + steps, ?_⟩
        have writes : (ringOf state.pool frame.idx).write (byte :: data) = _ := if_neg full
        rw [run_advances_add, round, reached]
        exact with_ring_twice machine (congrArg Prod.fst writes).symm

/-- One round of the loop of `Pipe::read`. -/
theorem read_round {state : TransferState} {frame : ReadFrame} {got : List UInt8}
    (left : state.calls state.current = some (.read frame)) (going : state.going = true)
    (phase : frame.phase = .looking got) (wanting : got.length ≠ frame.length)
    (some : (ringOf state.pool frame.idx).head ≠ (ringOf state.pool frame.idx).tail) :
    ∃ after, transferSystem.runFrom state (advances 4) = after ∧
      after.machine = state.withRing frame.idx (fun pipe =>
        { pipe with tail := nextIndex (ringOf state.pool frame.idx).tail }) ∧
      after.calls after.current = .some (.read
        { frame with
          phase := .looking (got ++
            [(ringOf state.pool frame.idx).buf (ringOf state.pool frame.idx).tail])
          unseen := 0
          fetched := 0
          disturbed := false }) := by
  obtain ⟨idx, length, phase', unseen, fetched, disturbed⟩ := frame
  cases phase
  let pipe := ringOf state.pool idx
  let byte := pipe.buf pipe.tail
  let next := nextIndex pipe.tail
  let frame : ReadFrame :=
    { idx := idx
      length := length
      phase := .copying got
      unseen := 0
      fetched := 0
      disturbed := false }
  let first := state.setCall (.some (.read frame))
  let second := first.setCall (.some (.read { frame with phase := .advancing got byte }))
  let third := second.setCall (.some (.read { frame with phase := .storing got byte next }))
  have looks : (transferSystem.step state .advance).1 = first := by
    rw [read_step left going]
    refine congrArg Prod.fst (?_ : state.readStatement _ = (first, none))
    exact if_neg (not_or.mpr ⟨wanting, some⟩)
  have copies : (transferSystem.step first .advance).1 = second :=
    read_step (set_call_current _ _) going
  have advances : (transferSystem.step second .advance).1 = third :=
    read_step (set_call_current _ _) going
  have stores : (transferSystem.step third .advance).1 = (third.readStatement _).1 :=
    read_step (set_call_current _ _) going
  refine ⟨(transferSystem.step third .advance).1, ?_, ?_, ?_⟩
  · change (transferSystem.step (transferSystem.step (transferSystem.step
      (transferSystem.step state .advance).1 .advance).1 .advance).1 .advance).1 = _
    rw [looks, copies, advances]
  · rw [stores]
    rfl
  · rw [stores]
    exact set_call_current _ _

/-- Without interruption the loop is `Pipe::read`. -/
theorem read_loop (count : Nat) (state : TransferState) (frame : ReadFrame) (got : List UInt8)
    (left : state.calls state.current = some (.read frame)) (going : state.going = true)
    (bound : frame.idx < maxPipes) (phase : frame.phase = .looking got)
    (wanted : got.length + count = frame.length) :
    ∃ steps after, transferSystem.runFrom state (advances steps) = after ∧
      after.machine = state.withRing frame.idx (fun pipe => (pipe.read count).1) ∧
      ∃ frame', after.calls after.current = some (.read frame') ∧
        frame'.phase = .looking (got ++ ((ringOf state.pool frame.idx).read count).2) := by
  induction count generalizing state frame got with
  | zero =>
      refine ⟨0, state, rfl, (with_ring_same rfl).symm, frame, left, ?_⟩
      rw [phase]
      exact congrArg ReadPhase.looking (List.append_nil got).symm
  | succ count ih =>
      by_cases empty : (ringOf state.pool frame.idx).head = (ringOf state.pool frame.idx).tail
      · have nothing : (ringOf state.pool frame.idx).read (count + 1) =
            (ringOf state.pool frame.idx, []) := if_pos empty
        refine ⟨0, state, rfl, (with_ring_same (congrArg Prod.fst nothing)).symm, frame, left, ?_⟩
        rw [phase, nothing, List.append_nil]
      · obtain ⟨after, round, machine, own⟩ := read_round left going phase (by omega) empty
        have onward : after.going = true := by
          simp only [TransferState.going, machine]
          exact going
        have takes : (ringOf state.pool frame.idx).read (count + 1) = _ := if_neg empty
        have ring : ringOf after.pool frame.idx =
            { ringOf state.pool frame.idx with
              tail := nextIndex (ringOf state.pool frame.idx).tail } := by
          unfold TransferState.pool
          rw [machine]
          exact ring_of_change bound _
        obtain ⟨steps, last, reached, whole, frame', held, phase'⟩ :=
          ih after _ _ own onward bound rfl (by simp; omega)
        refine ⟨4 + steps, last, ?_, ?_, frame', held, ?_⟩
        · rw [run_advances_add, round, reached]
        · rw [whole]
          exact with_ring_twice machine (congrArg Prod.fst takes).symm
        · rw [phase', takes]
          simp only [ring, List.append_assoc, List.singleton_append]

end Ferrugem.PipeTransfers
