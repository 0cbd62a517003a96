import Mathlib.Data.List.Basic
import Ferrugem.ByteRings
import Ferrugem.Library.FlowLedgers

/-!
# Input from the serial line and the keyboard

The interrupt handlers of `drivers/serial` and `drivers/keyboard` fill two rings,
which one task empties in `sys_read` or in the shell's `read_char`. Other tasks do not
read the console here: `kernel_main` starts no shell beside a userspace `init`, so that
stdin is not shared; two readers could take one byte twice. The rings are not locked:
an interrupt may come between any two of the three accesses that `RingBuf::pop` makes.
Only the test in `block_on_tty` runs with interrupts off. On riscv64 and aarch64 the
keyboard is the serial line again.
-/

namespace Ferrugem.ConsoleInput

open Ferrugem.ByteRings

set_option autoImplicit false

/-- `ps2::try_read`, with what the two ports hold. -/
def tryRead (status data : UInt8) : Option UInt8 :=
  if status &&& 0x01 = 0 then none
  else if status &&& 0x20 ≠ 0 then none
  else some data

def scancodeMap : List UInt8 :=
  [0, 0,
    0x31, 0x32, 0x33, 0x34, 0x35, 0x36, 0x37, 0x38, 0x39, 0x30, 0x2D, 0x3D, 0x08,
    0x09, 0x71, 0x77, 0x65, 0x72, 0x74, 0x79, 0x75, 0x69, 0x6F, 0x70, 0x5B, 0x5D, 0x0A,
    0,
    0x61, 0x73, 0x64, 0x66, 0x67, 0x68, 0x6A, 0x6B, 0x6C, 0x3B, 0x27, 0x60,
    0,
    0x5C, 0x7A, 0x78, 0x63, 0x76, 0x62, 0x6E, 0x6D, 0x2C, 0x2E, 0x2F,
    0,
    0, 0, 0x20]

/-- `ps2::scancode_to_ascii` -/
def ps2Ascii (sc : UInt8) : Option UInt8 :=
  if sc &&& 0x80 ≠ 0 then none
  else
    match scancodeMap[sc.toNat]? with
    | some c => if c ≠ 0 then some c else none
    | none => none

/-- `uart_kbd::scancode_to_ascii` -/
def uartAscii (sc : UInt8) : Option UInt8 :=
  if 0x20 ≤ sc ∧ sc ≤ 0x7E ∨ sc = 0x0A ∨ sc = 0x0D ∨ sc = 0x08 ∨ sc = 0x09 then some sc else none

/-- `serial::print_bytes`, as the bytes on the line. -/
def printBytes (bytes : List UInt8) : List UInt8 :=
  bytes.flatMap fun b => if b = 0x0A then [0x0D, b] else [b]

def echoStdinByte (b : UInt8) : List UInt8 :=
  if b = 0x0D ∨ b = 0x0A then printBytes [0x0D, 0x0A]
  else if b = 0x7F ∨ b = 0x08 then printBytes [0x08, 0x20, 0x08]
  else [b]

inductive Driver where
  | serial | keyboard
  deriving DecidableEq

/-- The keyboard of the board: its own on x86_64, else the serial line. -/
inductive Board where
  | ps2 | uart
  deriving DecidableEq

namespace Board

def ring : Board → Driver → Driver
  | .ps2, driver => driver
  | .uart, _ => .serial

def scancodeToAscii : Board → UInt8 → Option UInt8
  | .ps2 => ps2Ascii
  | .uart => uartAscii

/-- What the reader makes of a byte of `read_byte` or of `read_scancode`. -/
def decoded (board : Board) : Driver → UInt8 → Option UInt8
  | .serial, byte => some byte
  | .keyboard, byte => board.scancodeToAscii byte

end Board

inductive Reader where
  | readChar | sysRead

namespace Reader

def gives : Reader → UInt8 → UInt8
  | .readChar, b => b
  | .sysRead, b => if b = 0x0D then 0x0A else b

def echoes : Reader → UInt8 → List UInt8
  | .readChar, _ => []
  | .sysRead, b => echoStdinByte b

end Reader

inductive Stage where
  /-- Outside a call. -/
  | outside
  /-- `self.head == self.tail` in `pop` -/
  | check (driver : Driver)
  /-- `self.buf[self.tail]` -/
  | fetch (driver : Driver)
  /-- `self.tail = (self.tail + 1) % N`, and what the caller does with the byte. -/
  | advance (driver : Driver) (byte : UInt8)
  /-- The part of `block_on_tty` with interrupts off. -/
  | park
  /-- In the `schedule()` of `block_on_tty`. -/
  | asleep
  deriving DecidableEq

structure Console where
  rings : Driver → RingBuf 63
  stage : Stage
  ttyWaiter : Bool
  blocked : Bool

/-- A byte that the reader has taken from a ring, what its caller gets for it
and what is echoed. -/
structure Taken where
  driver : Driver
  raw : UInt8
  given : Option UInt8
  echo : List UInt8
  deriving DecidableEq

inductive Action where
  | read
  /-- The bytes that the UART hands out until it is empty. -/
  | serialIrq (received : List UInt8)
  | keyboardIrq (status data : UInt8)
  /-- Something else makes the reader `Ready`. -/
  | wake
  deriving DecidableEq

namespace Console

def boot : Console where
  rings := fun _ => RingBuf.new 63
  stage := .outside
  ttyWaiter := false
  blocked := false

def pushAll (ring : RingBuf 63) (bytes : List UInt8) : RingBuf 63 :=
  bytes.foldl (fun ring byte => (ring.push byte).1) ring

/-- `wake_tty_waiter` -/
def wakeTtyWaiter (console : Console) : Console :=
  if console.ttyWaiter then { console with ttyWaiter := false, blocked := false } else console

def received (console : Console) (driver : Driver) (bytes : List UInt8) : Console :=
  { console with
    rings := Function.update console.rings driver (pushAll (console.rings driver) bytes) }

def serialIrq (console : Console) (bytes : List UInt8) : Console :=
  if bytes = [] then console else (console.received .serial bytes).wakeTtyWaiter

/-- `keyboard::handle_irq`, which does nothing where there is no keyboard. -/
def keyboardIrq (board : Board) (console : Console) (status data : UInt8) : Console :=
  match board with
  | .uart => console
  | .ps2 =>
      match tryRead status data with
      | some sc => (console.received .keyboard [sc]).wakeTtyWaiter
      | none => console

def hasInput (board : Board) (console : Console) (driver : Driver) : Bool :=
  !(console.rings (board.ring driver)).isEmpty

/-- The end of `pop`, and the byte in its caller. -/
def take (board : Board) (reader : Reader) (console : Console) (driver : Driver) (byte : UInt8) :
    Console × Option Taken :=
  let ring := console.rings (board.ring driver)
  let popped := Function.update console.rings (board.ring driver)
    { ring with tail := RingBuf.nextIndex ring.tail }
  match board.decoded driver byte with
  | some c => ({ console with rings := popped, stage := .outside },
      some ⟨driver, byte, some (reader.gives c), reader.echoes c⟩)
  | none => ({ console with rings := popped, stage := .park }, some ⟨driver, byte, none, []⟩)

def readStep (board : Board) (reader : Reader) (console : Console) : Console × Option Taken :=
  match console.stage with
  | .outside => ({ console with stage := .check .serial }, none)
  | .check driver =>
      let ring := console.rings (board.ring driver)
      if ring.head = ring.tail then
        match driver with
        | .serial => ({ console with stage := .check .keyboard }, none)
        | .keyboard => ({ console with stage := .park }, none)
      else ({ console with stage := .fetch driver }, none)
  | .fetch driver =>
      let ring := console.rings (board.ring driver)
      ({ console with stage := .advance driver (ring.buf ring.tail) }, none)
  | .advance driver byte => console.take board reader driver byte
  | .park =>
      if console.hasInput board .keyboard || console.hasInput board .serial then
        ({ console with stage := .check .serial }, none)
      else ({ console with stage := .asleep, ttyWaiter := true, blocked := true }, none)
  | .asleep =>
      if console.blocked then (console, none)
      else ({ console with stage := .check .serial }, none)

def step (board : Board) (reader : Reader) (console : Console) (action : Action) :
    Console × Option Taken :=
  match action with
  | .read => console.readStep board reader
  | .serialIrq received => (console.serialIrq received, none)
  | .keyboardIrq status data => (console.keyboardIrq board status data, none)
  | .wake => ({ console with blocked := false }, none)

def queued (console : Console) (driver : Driver) : List UInt8 := ringBytes (console.rings driver)

end Console

def consoleSystem (board : Board) (reader : Reader) : EventSystem Console Action Taken where
  init := Console.boot
  step := Console.step board reader

def offered (board : Board) (driver : Driver) : Action → List UInt8
  | .serialIrq received => if driver = .serial then received else []
  | .keyboardIrq status data =>
      if board = .ps2 ∧ driver = .keyboard then (tryRead status data).toList else []
  | .read | .wake => []

def accepted (board : Board) (driver : Driver) (console : Console) (action : Action) : List UInt8 :=
  (offered board driver action).take (63 - (console.queued driver).length)

def takenFrom (board : Board) (driver : Driver) (taken : Taken) : List UInt8 :=
  if board.ring taken.driver = driver then [taken.raw] else []

section

variable {capacity : Nat}

theorem ring_bytes_le (ring : RingBuf capacity) : (ringBytes ring).length ≤ capacity := by
  rw [ringBytes, GapRing.length_contents]
  exact Nat.le_of_lt_succ (ringView ring).queued_lt

theorem ring_bytes_push (ring : RingBuf capacity) (byte : UInt8) :
    ringBytes (ring.push byte).1 =
      ringBytes ring ++ [byte].take (capacity - (ringBytes ring).length) := by
  have same := (ring_simulates ring _ (.push byte) rfl).1
  have bound := ring_bytes_le ring
  simp only [ringSystem, ringQueue] at same
  rw [same]
  split
  · rw [show capacity - (ringBytes ring).length = 0 by omega]
    simp
  · rw [List.take_of_length_le (by rw [List.length_singleton]; omega)]

theorem ring_bytes_pop {ring : RingBuf capacity} (some : ring.head ≠ ring.tail) :
    ringBytes ring =
      ring.buf ring.tail :: ringBytes { ring with tail := RingBuf.nextIndex ring.tail } :=
  @GapRing.contents_pop _ _ (ringView ring) some

theorem ring_bytes_eq_nil_iff (ring : RingBuf capacity) :
    ringBytes ring = [] ↔ ring.head = ring.tail := by
  rw [ring_empty_iff, List.length_eq_zero_iff]

theorem is_empty_iff (ring : RingBuf capacity) : ring.isEmpty = true ↔ ringBytes ring = [] := by
  rw [RingBuf.isEmpty, beq_iff_eq, ring_bytes_eq_nil_iff]

end

namespace Console

theorem push_all_bytes (ring : RingBuf 63) (bytes : List UInt8) :
    ringBytes (pushAll ring bytes) =
      ringBytes ring ++ bytes.take (63 - (ringBytes ring).length) := by
  induction bytes generalizing ring with
  | nil => simp [pushAll]
  | cons byte rest ih =>
      have bound := ring_bytes_le ring
      have pushed := ring_bytes_push ring byte
      change ringBytes (pushAll (ring.push byte).1 rest) = _
      rw [ih, pushed]
      cases room : 63 - (ringBytes ring).length with
      | zero => simp [room]
      | succ left =>
          rw [List.take_succ_cons, List.take_succ_cons, List.take_nil, List.append_assoc,
            List.length_append, List.length_singleton,
            show 63 - ((ringBytes ring).length + 1) = left by omega]
          rfl

@[simp] theorem wake_queued (console : Console) (driver : Driver) :
    console.wakeTtyWaiter.queued driver = console.queued driver := by
  unfold wakeTtyWaiter
  split <;> rfl

@[simp] theorem wake_stage (console : Console) : console.wakeTtyWaiter.stage = console.stage := by
  unfold wakeTtyWaiter
  split <;> rfl

theorem received_queued (console : Console) (driver other : Driver) (bytes : List UInt8) :
    (console.received driver bytes).queued other =
      console.queued other ++
        (if other = driver then bytes else []).take (63 - (console.queued other).length) := by
  unfold queued received
  dsimp only
  by_cases same : other = driver
  · rw [if_pos same, same, Function.update_self]
    exact push_all_bytes _ _
  · rw [if_neg same, Function.update_of_ne same, List.take_nil, List.append_nil]

end Console

section

variable {board : Board} {reader : Reader} {console : Console} {driver : Driver}

variable (board reader console driver) in
theorem irq_queued {action : Action} (irq : action ≠ .read) :
    (console.step board reader action).1.queued driver =
      console.queued driver ++ accepted board driver console action := by
  cases action with
  | read => exact absurd rfl irq
  | wake => simp [Console.step, Console.queued, accepted, offered]
  | serialIrq received =>
      simp only [Console.step, Console.serialIrq, accepted, offered]
      by_cases silent : received = []
      · simp [silent]
      · rw [if_neg silent, Console.wake_queued]
        exact console.received_queued .serial driver received
  | keyboardIrq status data =>
      simp only [Console.step, Console.keyboardIrq, accepted, offered]
      cases board with
      | uart => simp
      | ps2 =>
          cases read : tryRead status data with
          | none => simp
          | some sc =>
              simp only [Console.wake_queued, true_and]
              exact console.received_queued .keyboard driver [sc]

theorem irq_stage {action : Action} (irq : action ≠ .read) :
    (console.step board reader action).1.stage = console.stage := by
  cases action with
  | read => exact absurd rfl irq
  | wake => rfl
  | serialIrq received =>
      simp only [Console.step, Console.serialIrq]
      split
      · rfl
      · exact Console.wake_stage _
  | keyboardIrq status data =>
      simp only [Console.step, Console.keyboardIrq]
      cases board with
      | uart => rfl
      | ps2 =>
          cases read : tryRead status data with
          | none => rfl
          | some sc => exact Console.wake_stage _

/-- After the wake-up of a handler the reader is registered only if it was not
before, and blocked only if it was not registered. -/
theorem wake_sleeps (asleep : console.wakeTtyWaiter.blocked = true) :
    console.blocked = true ∧ console.ttyWaiter = false := by
  unfold Console.wakeTtyWaiter at asleep
  split at asleep
  · exact nomatch asleep
  · rename_i unregistered
    exact ⟨asleep, Bool.not_eq_true _ ▸ unregistered⟩

variable (board reader console) in
theorem irq_sleeps {action : Action} (irq : action ≠ .read)
    (asleep : (console.step board reader action).1.blocked = true) :
    console.blocked = true ∧ (console.ttyWaiter = true →
      (console.step board reader action).1.ttyWaiter = true ∧
        ∀ driver, offered board driver action = []) := by
  cases action with
  | read => exact absurd rfl irq
  | wake => exact nomatch asleep
  | serialIrq received =>
      simp only [Console.step, Console.serialIrq] at asleep ⊢
      by_cases silent : received = []
      · rw [if_pos silent] at asleep ⊢
        refine ⟨asleep, fun registered => ⟨registered, ?_⟩⟩
        intro driver
        simp [offered, silent]
      · rw [if_neg silent] at asleep
        obtain ⟨blocked, unregistered⟩ := wake_sleeps asleep
        refine ⟨blocked, fun registered => ?_⟩
        exact absurd (registered.symm.trans unregistered) (by decide)
  | keyboardIrq status data =>
      simp only [Console.step, Console.keyboardIrq] at asleep ⊢
      cases board with
      | uart => exact ⟨asleep, fun registered => ⟨registered, fun _ => by simp [offered]⟩⟩
      | ps2 =>
          cases read : tryRead status data with
          | none =>
              rw [read] at asleep
              exact ⟨asleep, fun registered => ⟨registered, fun _ => by simp [offered, read]⟩⟩
          | some sc =>
              rw [read] at asleep
              obtain ⟨blocked, unregistered⟩ := wake_sleeps asleep
              refine ⟨blocked, fun registered => ?_⟩
              exact absurd (registered.symm.trans unregistered) (by decide)

end

/-- The byte that is being taken stays the first of its ring; and who sleeps
has seen both rings empty and is registered. -/
def Kept (board : Board) (console : Console) : Prop :=
  match console.stage with
  | .fetch driver => console.queued (board.ring driver) ≠ []
  | .advance driver byte => (console.queued (board.ring driver)).head? = some byte
  | .asleep => console.blocked = true →
      console.ttyWaiter = true ∧ ∀ driver, console.queued (board.ring driver) = []
  | .outside | .check _ | .park => True

theorem boot_kept (board : Board) : Kept board Console.boot := trivial

section

variable {board : Board} {reader : Reader} {console : Console} {driver : Driver}

theorem irq_kept {action : Action} (irq : action ≠ .read) (kept : Kept board console) :
    Kept board (console.step board reader action).1 := by
  have more := fun driver => irq_queued board reader console driver irq
  have sleeps := irq_sleeps board reader console irq
  unfold Kept at kept ⊢
  rw [irq_stage irq]
  cases stage : console.stage with
  | fetch driver =>
      simp only [stage] at kept ⊢
      rw [more]
      exact fun empty => kept (List.append_eq_nil_iff.mp empty).1
  | advance driver byte =>
      simp only [stage] at kept ⊢
      rw [more, List.head?_append, kept]
      rfl
  | asleep =>
      simp only [stage] at kept ⊢
      intro asleep
      obtain ⟨blocked, silent⟩ := sleeps asleep
      obtain ⟨registered, empty⟩ := kept blocked
      obtain ⟨still, nothing⟩ := silent registered
      refine ⟨still, fun driver => ?_⟩
      rw [more, empty driver, accepted, nothing, List.take_nil]
      rfl
  | outside => trivial
  | check driver => trivial
  | park => trivial

theorem read_kept (kept : Kept board console) :
    Kept board (console.readStep board reader).1 := by
  unfold Console.readStep
  cases stage : console.stage with
  | outside => trivial
  | check driver =>
      dsimp only
      split_ifs with empty
      · cases driver with
        | serial => trivial
        | keyboard => trivial
      · exact fun none => empty ((ring_bytes_eq_nil_iff _).mp none)
  | fetch driver =>
      simp only [Kept, stage] at kept ⊢
      have some : (console.rings (board.ring driver)).head ≠
          (console.rings (board.ring driver)).tail :=
        fun empty => kept ((ring_bytes_eq_nil_iff _).mpr empty)
      change (ringBytes (console.rings (board.ring driver))).head? = _
      rw [ring_bytes_pop some]
      rfl
  | advance driver byte =>
      unfold Console.take
      dsimp only
      split <;> trivial
  | park =>
      dsimp only
      split_ifs with input
      · trivial
      · refine fun _ => ⟨rfl, fun driver => ?_⟩
        rw [Bool.not_eq_true, Bool.or_eq_false_iff] at input
        have silent : console.hasInput board driver = false := by
          cases driver with
          | serial => exact input.2
          | keyboard => exact input.1
        rw [Console.hasInput, Bool.not_eq_false'] at silent
        exact (is_empty_iff _).mp silent
  | asleep =>
      dsimp only
      split_ifs with blocked
      · exact kept
      · trivial

end

theorem step_kept {board : Board} (reader : Reader) {console : Console}
    (kept : Kept board console) (action : Action) :
    Kept board (console.step board reader action).1 := by
  by_cases irq : action = .read
  · rw [irq]
    exact read_kept kept
  · exact irq_kept irq kept

section

variable {board : Board} {reader : Reader} {console : Console}

variable (reader) in
theorem read_balances (kept : Kept board console) (driver : Driver) :
    console.queued driver =
      (console.readStep board reader).2.toList.flatMap (takenFrom board driver) ++
        (console.readStep board reader).1.queued driver := by
  unfold Console.readStep
  cases stage : console.stage with
  | outside => rfl
  | check source =>
      dsimp only
      split_ifs
      · cases source <;> rfl
      · rfl
  | fetch source => rfl
  | advance source byte =>
      simp only [Kept, stage] at kept
      have nonempty : (console.rings (board.ring source)).head ≠
          (console.rings (board.ring source)).tail := by
        intro empty
        have none := (ring_bytes_eq_nil_iff _).mpr empty
        rw [Console.queued, none] at kept
        exact nomatch kept
      have first := ring_bytes_pop nonempty
      have byteFirst : (console.rings (board.ring source)).buf
          (console.rings (board.ring source)).tail = byte := by
        rw [Console.queued, first] at kept
        exact Option.some.inj kept
      have balance : ∀ outcome : Console × Option Taken,
          outcome.1.rings = Function.update console.rings (board.ring source)
            { console.rings (board.ring source) with
              tail := RingBuf.nextIndex (console.rings (board.ring source)).tail } →
          (∃ given echo, outcome.2 = some ⟨source, byte, given, echo⟩) →
          console.queued driver =
            outcome.2.toList.flatMap (takenFrom board driver) ++ outcome.1.queued driver := by
        rintro outcome rings ⟨given, echo, taken⟩
        rw [taken, Console.queued, Console.queued, rings]
        by_cases same : board.ring source = driver
        · subst same
          rw [Function.update_self, first, byteFirst]
          simp [takenFrom]
        · rw [Function.update_of_ne (Ne.symm same)]
          simp [takenFrom, same]
      unfold Console.take
      dsimp only
      split
      · exact balance _ rfl ⟨_, _, rfl⟩
      · exact balance _ rfl ⟨_, _, rfl⟩
  | park =>
      dsimp only
      split_ifs <;> rfl
  | asleep =>
      dsimp only
      split_ifs <;> rfl

theorem step_balances (kept : Kept board console) (driver : Driver) (action : Action) :
    console.queued driver ++ accepted board driver console action =
      (console.step board reader action).2.toList.flatMap (takenFrom board driver) ++
        (console.step board reader action).1.queued driver := by
  by_cases irq : action = .read
  · subst irq
    have nothing : accepted board driver console .read = [] := List.take_nil
    rw [nothing, List.append_nil]
    exact read_balances _ kept driver
  · rw [irq_queued _ _ _ _ irq]
    cases action with
    | read => exact absurd rfl irq
    | _ => rfl

end

theorem input_balances (board : Board) (reader : Reader) (driver : Driver)
    (actions : List Action) :
    ((consoleSystem board reader).traceFrom Console.boot actions).flatMap
          (takenFrom board driver) ++
        ((consoleSystem board reader).runFrom Console.boot actions).queued driver =
      FlowLedgers.entered (consoleSystem board reader) (accepted board driver) Console.boot
        actions := by
  have free : (consoleSystem board reader).StepsMeet (fun _ _ => True) Console.boot actions :=
    (consoleSystem board reader).steps_meet_of_forall _ fun _ _ => trivial
  have balance := FlowLedgers.run_balances (Kept board)
    (fun _ action kept _ => step_kept reader kept action)
    (fun _ action kept _ => step_balances kept driver action) (boot_kept board) free
  have empty : Console.boot.queued driver = [] := GapRing.contents_empty rfl
  rw [empty, List.nil_append] at balance
  exact balance.symm

/-- What the caller gets and what is echoed is settled by the byte taken. -/
structure Taken.Lawful (board : Board) (reader : Reader) (taken : Taken) : Prop where
  given : taken.given = (board.decoded taken.driver taken.raw).map reader.gives
  echo : taken.echo = ((board.decoded taken.driver taken.raw).map reader.echoes).getD []

theorem take_taken (board : Board) (reader : Reader) (console : Console) (driver : Driver)
    (byte : UInt8) :
    (console.take board reader driver byte).2 =
      some ⟨driver, byte, (board.decoded driver byte).map reader.gives,
        ((board.decoded driver byte).map reader.echoes).getD []⟩ := by
  unfold Console.take
  cases board.decoded driver byte <;> rfl

theorem read_taken {board : Board} {reader : Reader} {console : Console} {taken : Taken}
    (emitted : (console.readStep board reader).2 = some taken) : taken.Lawful board reader := by
  unfold Console.readStep at emitted
  cases stage : console.stage with
  | advance driver byte =>
      rw [stage] at emitted
      rw [take_taken] at emitted
      cases emitted
      exact ⟨rfl, rfl⟩
  | check driver =>
      rw [stage] at emitted
      dsimp only at emitted
      split_ifs at emitted
      cases driver <;> exact nomatch emitted
  | outside =>
      rw [stage] at emitted
      exact nomatch emitted
  | fetch driver =>
      rw [stage] at emitted
      exact nomatch emitted
  | park =>
      rw [stage] at emitted
      dsimp only at emitted
      split_ifs at emitted
  | asleep =>
      rw [stage] at emitted
      dsimp only at emitted
      split_ifs at emitted

theorem trace_taken (board : Board) (reader : Reader) (actions : List Action) :
    ∀ taken ∈ (consoleSystem board reader).traceFrom Console.boot actions,
      taken.Lawful board reader := by
  have free : (consoleSystem board reader).StepsMeet (fun _ _ => True) Console.boot actions :=
    (consoleSystem board reader).steps_meet_of_forall _ fun _ _ => trivial
  refine EventSystem.trace_satisfies (fun _ => True) (fun _ _ _ _ => trivial) ?_ trivial free
  intro console action taken _ _ emitted
  cases action with
  | read => exact read_taken emitted
  | _ => exact nomatch emitted

/-- Wherever the interrupts come, the bytes that the reader takes from a ring and
those still in it are the ones for which there was room, each once and in order;
and each is given and echoed as its value says. -/
theorem input_taken_once (board : Board) (reader : Reader) (actions : List Action) :
    (∀ driver,
      ((consoleSystem board reader).traceFrom Console.boot actions).flatMap
          (takenFrom board driver) ++
          ((consoleSystem board reader).runFrom Console.boot actions).queued driver =
        FlowLedgers.entered (consoleSystem board reader) (accepted board driver) Console.boot
          actions) ∧
      ∀ taken ∈ (consoleSystem board reader).traceFrom Console.boot actions,
        taken.Lawful board reader :=
  ⟨fun driver => input_balances board reader driver actions, trace_taken board reader actions⟩

def makeCode (c : UInt8) : UInt8 := UInt8.ofNat (scancodeMap.idxOf c)

/-- The text that a sequence of scancodes stands for, whatever is released between. -/
def Types (scancodes text : List UInt8) : Prop :=
  scancodes.filter (fun sc => sc &&& 0x80 = 0) = text.map makeCode

def givenBy (driver : Driver) (taken : Taken) : Option UInt8 :=
  if taken.driver = driver then taken.given else none

theorem make_code_ascii : ∀ c ∈ scancodeMap, c ≠ 0 → ps2Ascii (makeCode c) = some c ∧ c ≠ 0x0D := by
  decide +kernel

theorem types_ascii {scancodes text : List UInt8} (types : Types scancodes text)
    (keys : ∀ c ∈ text, c ∈ scancodeMap ∧ c ≠ 0) : scancodes.filterMap ps2Ascii = text := by
  have pressed : scancodes.filterMap ps2Ascii =
      (scancodes.filter fun sc => sc &&& 0x80 = 0).filterMap ps2Ascii := by
    rw [List.filterMap_filter]
    apply List.filterMap_congr
    intro sc _
    by_cases press : sc &&& 0x80 = 0
    · simp [press]
    · simp [press, ps2Ascii]
  rw [pressed, types, List.filterMap_map]
  have each : ∀ c ∈ text, (ps2Ascii ∘ makeCode) c = some c := fun c member =>
    (make_code_ascii c (keys c member).1 (keys c member).2).1
  rw [List.filterMap_congr each, List.filterMap_some]

theorem ps2_ascii_mem {sc c : UInt8} (ascii : ps2Ascii sc = some c) : c ∈ scancodeMap := by
  unfold ps2Ascii at ascii
  split_ifs at ascii
  split at ascii
  · rename_i found entry
    split_ifs at ascii
    cases ascii
    exact List.mem_of_getElem? entry
  · exact nomatch ascii

theorem gives_ps2_ascii (reader : Reader) (sc : UInt8) :
    (ps2Ascii sc).map reader.gives = ps2Ascii sc := by
  cases ascii : ps2Ascii sc with
  | none => rfl
  | some c =>
      have notReturn : c ≠ 0x0D := ne_of_mem_of_not_mem (ps2_ascii_mem ascii) (by decide)
      cases reader with
      | readChar => rfl
      | sysRead => simp [Reader.gives, notReturn]

theorem given_by_keyboard {reader : Reader} {trace : List Taken}
    (lawful : ∀ taken ∈ trace, taken.Lawful .ps2 reader) :
    trace.filterMap (givenBy .keyboard) =
      (trace.flatMap (takenFrom .ps2 .keyboard)).filterMap ps2Ascii := by
  induction trace with
  | nil => rfl
  | cons taken rest ih =>
      have others := ih fun later member => lawful later (List.mem_cons_of_mem _ member)
      have given := (lawful taken List.mem_cons_self).given
      rw [List.flatMap_cons, List.filterMap_append, ← others]
      by_cases keyboard : taken.driver = .keyboard
      · rw [keyboard] at given
        change _ = (ps2Ascii taken.raw).map reader.gives at given
        rw [gives_ps2_ascii] at given
        simp [givenBy, takenFrom, Board.ring, keyboard, given, List.filterMap_cons]
        cases ps2Ascii taken.raw <;> rfl
      · simp [givenBy, takenFrom, Board.ring, keyboard]

/-- No interrupt finds too little room in the keyboard's ring. -/
def Roomy (console : Console) (action : Action) : Prop :=
  (console.queued .keyboard).length + (offered .ps2 .keyboard action).length ≤ 63

instance (console : Console) (action : Action) : Decidable (Roomy console action) :=
  inferInstanceAs (Decidable (_ ≤ _))

/-- Text typed on a PS/2 keyboard reaches the reader as it was typed. What is
still in the ring is the rest of it. -/
theorem typed_text_read (reader : Reader) (text : List UInt8)
    (keys : ∀ c ∈ text, c ∈ scancodeMap ∧ c ≠ 0) (actions : List Action)
    (types : Types (actions.flatMap (offered .ps2 .keyboard)) text)
    (room : (consoleSystem .ps2 reader).StepsMeet Roomy Console.boot actions) :
    ((consoleSystem .ps2 reader).traceFrom Console.boot actions).filterMap (givenBy .keyboard) ++
        (((consoleSystem .ps2 reader).runFrom Console.boot actions).queued .keyboard).filterMap
          ps2Ascii = text := by
  have once := input_balances .ps2 reader .keyboard actions
  have all := FlowLedgers.entered_eq_offered (accepted .ps2 .keyboard) (offered .ps2 .keyboard)
    ((consoleSystem .ps2 reader).steps_meet_mono (fun console action fits =>
      List.take_of_length_le (Nat.le_sub_of_add_le' fits)) room)
  rw [given_by_keyboard (trace_taken .ps2 reader actions), ← List.filterMap_append, once, all]
  exact types_ascii types keys

/-- `l`, `s` and Enter, the last two overlapping, with one `read` between. -/
def listKeys : List Action :=
  [.keyboardIrq 0x1D 0x26, .read, .keyboardIrq 0x1D 0xA6, .read, .read, .keyboardIrq 0x1D 0x1F,
    .read, .keyboardIrq 0x1D 0x1C, .read, .keyboardIrq 0x3D 0x08, .keyboardIrq 0x1D 0x9F]

theorem list_keys_read :
    ((consoleSystem .ps2 .sysRead).traceFrom Console.boot listKeys).filterMap (givenBy .keyboard) ++
        (((consoleSystem .ps2 .sysRead).runFrom Console.boot listKeys).queued .keyboard).filterMap
          ps2Ascii = [0x6C, 0x73, 0x0A] :=
  typed_text_read .sysRead [0x6C, 0x73, 0x0A] (by decide +kernel) listKeys rfl (by decide)

def Deliverable (board : Board) (console : Console) : Prop :=
  (∃ b ∈ console.queued (board.ring .keyboard), (board.scancodeToAscii b).isSome) ∨
    board = .ps2 ∧ console.queued .serial ≠ []

def distance (board : Board) (console : Console) : Nat :=
  6 * (console.queued (board.ring .keyboard)).length +
    match console.stage with
    | .outside | .park | .asleep => 5
    | .check .serial => 4
    | .check .keyboard => if console.queued (board.ring .keyboard) = [] then 6 else 3
    | .fetch _ => 2
    | .advance _ _ => 1

section

variable {board : Board} {reader : Reader} {console : Console}

theorem deliverable_queued (deliverable : Deliverable board console) :
    ∃ driver, console.queued (board.ring driver) ≠ [] := by
  rcases deliverable with ⟨b, member, -⟩ | ⟨rfl, serial⟩
  · exact ⟨.keyboard, List.ne_nil_of_mem member⟩
  · exact ⟨.serial, serial⟩

variable (reader) in
theorem read_nearer (kept : Kept board console) (deliverable : Deliverable board console) :
    (∃ taken, (console.readStep board reader).2 = some taken ∧ taken.given.isSome) ∨
      Deliverable board (console.readStep board reader).1 ∧
        distance board (console.readStep board reader).1 < distance board console := by
  unfold Console.readStep
  cases stage : console.stage with
  | outside =>
      refine .inr ⟨deliverable, ?_⟩
      simp only [distance, stage]
      exact Nat.lt_succ_self _
  | check driver =>
      dsimp only
      split_ifs with empty
      · have none : console.queued (board.ring driver) = [] := (ring_bytes_eq_nil_iff _).mpr empty
        cases driver with
        | serial =>
            refine .inr ⟨deliverable, ?_⟩
            have some : console.queued (board.ring .keyboard) ≠ [] := by
              rcases deliverable with ⟨b, member, -⟩ | ⟨rfl, serial⟩
              · exact List.ne_nil_of_mem member
              · exact absurd none serial
            simp only [distance, stage]
            change 6 * (console.queued (board.ring .keyboard)).length +
              (if console.queued (board.ring .keyboard) = [] then 6 else 3) < _
            rw [if_neg some]
            exact Nat.lt_succ_self _
        | keyboard =>
            refine .inr ⟨deliverable, ?_⟩
            simp only [distance, stage, none, if_true]
            change 6 * (console.queued (board.ring .keyboard)).length + 5 < _
            rw [none]
            exact Nat.lt_succ_self _
      · refine .inr ⟨deliverable, ?_⟩
        have some : console.queued (board.ring driver) ≠ [] := fun none =>
          empty ((ring_bytes_eq_nil_iff _).mp none)
        cases driver with
        | serial =>
            simp only [distance, stage]
            exact Nat.add_lt_add_left (by decide) _
        | keyboard =>
            simp only [distance, stage, if_neg some]
            exact Nat.lt_succ_self _
  | fetch driver =>
      refine .inr ⟨deliverable, ?_⟩
      simp only [distance, stage]
      exact Nat.lt_succ_self _
  | advance driver byte =>
      have balance := fun source => read_balances reader kept source
      simp only [Console.readStep, stage, take_taken] at balance
      dsimp only
      rw [take_taken]
      cases decoded : board.decoded driver byte with
      | some c => exact .inl ⟨_, rfl, rfl⟩
      | none =>
          rw [decoded] at balance
          cases driver with
          | serial => exact nomatch decoded
          | keyboard =>
              have own := balance (board.ring .keyboard)
              simp only [Option.toList_some, List.flatMap_cons, List.flatMap_nil, takenFrom,
                if_true, List.append_nil, List.singleton_append] at own
              have shape : (console.take board reader .keyboard byte).1.stage = .park := by
                unfold Console.take
                rw [decoded]
              refine .inr ⟨?_, ?_⟩
              · rcases deliverable with ⟨b, member, ascii⟩ | ⟨rfl, serial⟩
                · refine .inl ⟨b, ?_, ascii⟩
                  rw [own, List.mem_cons] at member
                  rcases member with rfl | rest
                  · rw [show board.scancodeToAscii b = none from decoded] at ascii
                    exact nomatch ascii
                  · exact rest
                · refine .inr ⟨rfl, ?_⟩
                  have other := balance .serial
                  simp only [Option.toList_some, List.flatMap_cons, List.flatMap_nil, takenFrom,
                    Board.ring, reduceCtorEq, if_false, List.nil_append] at other
                  rw [← other]
                  exact serial
              · simp only [distance, stage, shape]
                rw [own, List.length_cons]
                omega
  | park =>
      obtain ⟨driver, some⟩ := deliverable_queued deliverable
      have input : console.hasInput board driver = true := by
        rw [Console.hasInput, Bool.not_eq_true']
        exact Bool.eq_false_iff.mpr fun empty => some ((is_empty_iff _).mp empty)
      have either :
          (console.hasInput board .keyboard || console.hasInput board .serial) = true := by
        cases driver with
        | serial => rw [input, Bool.or_true]
        | keyboard => rw [input, Bool.true_or]
      dsimp only
      rw [if_pos either]
      refine .inr ⟨deliverable, ?_⟩
      simp only [distance, stage]
      exact Nat.lt_succ_self _
  | asleep =>
      obtain ⟨driver, some⟩ := deliverable_queued deliverable
      have awake : ¬console.blocked = true := by
        intro blocked
        simp only [Kept, stage] at kept
        exact some ((kept blocked).2 driver)
      dsimp only
      rw [if_neg awake]
      refine .inr ⟨deliverable, ?_⟩
      simp only [distance, stage]
      exact Nat.lt_succ_self _

theorem distance_bounds (board : Board) (console : Console) :
    1 ≤ distance board console ∧
      distance board console ≤ 6 * (console.queued (board.ring .keyboard)).length + 6 := by
  unfold distance
  split
  · omega
  · omega
  · omega
  · omega
  · split <;> omega
  · omega
  · omega

variable (reader) in
theorem reads_return (kept : Kept board console) (deliverable : Deliverable board console) :
    ∃ n ≤ distance board console, ∃ taken ∈ (consoleSystem board reader).traceFrom console
      (List.replicate n .read), taken.given.isSome := by
  induction bound : distance board console using Nat.strong_induction_on generalizing console with
  | _ d ih =>
      cases read_nearer reader kept deliverable with
      | inl returned =>
          obtain ⟨taken, emitted, given⟩ := returned
          refine ⟨1, bound ▸ (distance_bounds board console).1, taken, ?_, given⟩
          rw [List.replicate_one, EventSystem.traceFrom, List.mem_append]
          exact .inl (Option.mem_toList.mpr emitted)
      | inr later =>
          obtain ⟨still, nearer⟩ := later
          rw [bound] at nearer
          obtain ⟨n, small, taken, member, given⟩ := ih _ nearer (read_kept kept) still rfl
          refine ⟨n + 1, by omega, taken, ?_, given⟩
          rw [List.replicate_succ, EventSystem.traceFrom, List.mem_append]
          exact .inr member

end

/-- A byte in the rings is never left lying: whatever happened before, the reader
does not sleep, and its next steps return a byte. -/
theorem queued_input_returned (board : Board) (reader : Reader) (actions : List Action)
    (deliverable : Deliverable board
      ((consoleSystem board reader).runFrom Console.boot actions)) :
    ∃ n ≤ 384, ∃ taken ∈ (consoleSystem board reader).traceFrom
      ((consoleSystem board reader).runFrom Console.boot actions) (List.replicate n .read),
        taken.given.isSome := by
  have free : (consoleSystem board reader).StepsMeet (fun _ _ => True) Console.boot actions :=
    (consoleSystem board reader).steps_meet_of_forall _ fun _ _ => trivial
  have kept := EventSystem.run_preserves (Kept board)
    (fun _ action kept _ => step_kept reader kept action) (boot_kept board) free
  obtain ⟨n, small, returned⟩ := reads_return reader kept deliverable
  have length : (((consoleSystem board reader).runFrom Console.boot actions).queued
      (board.ring .keyboard)).length ≤ 63 := ring_bytes_le _
  have bound := (distance_bounds board
    ((consoleSystem board reader).runFrom Console.boot actions)).2
  exact ⟨n, by omega, returned⟩

theorem enter_returned : ∃ n ≤ 384,
    ∃ taken ∈ (consoleSystem .ps2 .readChar).traceFrom
      ((consoleSystem .ps2 .readChar).runFrom Console.boot [.read, .keyboardIrq 0x1D 0x1C])
      (List.replicate n .read), taken.given.isSome :=
  queued_input_returned .ps2 .readChar [.read, .keyboardIrq 0x1D 0x1C]
    (.inl ⟨0x1C, by decide, by decide⟩)

end Ferrugem.ConsoleInput
