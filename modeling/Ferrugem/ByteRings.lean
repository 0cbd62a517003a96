import Ferrugem.Library.EventSystem
import Ferrugem.Library.GapRing
import Ferrugem.PipePoolModel

/-!
# The byte rings are bounded queues

`Pipe` of `kernel/src/ipc/mod.rs` moves many bytes in one call; `RingBuf` of
`kernel/src/drivers/ring_buf.rs` moves one. `N` of the source is `capacity + 1`
here, since an array of no bytes has no index. Both are rings that keep one
cell free, and every sequence of calls answers as a queue of bytes would.
-/

namespace Ferrugem.ByteRings

open Ferrugem.PipePoolModel

set_option autoImplicit false

structure RingBuf (capacity : Nat) where
  buf : Fin (capacity + 1) → UInt8
  head : Fin (capacity + 1)
  tail : Fin (capacity + 1)

namespace RingBuf

variable {capacity : Nat}

def new (capacity : Nat) : RingBuf capacity where
  buf := fun _ => 0
  head := 0
  tail := 0

def nextIndex (index : Fin (capacity + 1)) : Fin (capacity + 1) :=
  ⟨(index.val + 1) % (capacity + 1), Nat.mod_lt _ (Nat.succ_pos capacity)⟩

def push (ring : RingBuf capacity) (byte : UInt8) : RingBuf capacity × Bool :=
  let next := nextIndex ring.head
  if next = ring.tail then (ring, false)
  else
    ({ ring with
        buf := Function.update ring.buf ring.head byte
        head := next }, true)

def pop (ring : RingBuf capacity) : RingBuf capacity × Option UInt8 :=
  if ring.head = ring.tail then (ring, none)
  else ({ ring with tail := nextIndex ring.tail }, some (ring.buf ring.tail))

def isEmpty (ring : RingBuf capacity) : Bool := ring.head == ring.tail

end RingBuf

inductive PipeCall where
  | write (data : List UInt8)
  | read (length : Nat)
  | isEmpty
  | isFull

inductive PipeReply where
  | wrote (count : Nat)
  | filled (count : Nat) (bytes : List UInt8)
  | flag (value : Bool)
  deriving DecidableEq

inductive RingCall where
  | push (byte : UInt8)
  | pop
  | isEmpty

inductive RingReply where
  | pushed (accepted : Bool)
  | popped (byte : Option UInt8)
  | flag (value : Bool)
  deriving DecidableEq

def pipeSystem : EventSystem Pipe PipeCall PipeReply where
  init := Pipe.new
  step := fun pipe call =>
    match call with
    | .write data => ((pipe.write data).1, some (.wrote (pipe.write data).2))
    | .read length =>
        ((pipe.read length).1, some (.filled (pipe.read length).2.length (pipe.read length).2))
    | .isEmpty => (pipe, some (.flag pipe.isEmpty))
    | .isFull => (pipe, some (.flag pipe.isFull))

def ringSystem (capacity : Nat) : EventSystem (RingBuf capacity) RingCall RingReply where
  init := RingBuf.new capacity
  step := fun ring call =>
    match call with
    | .push byte => ((ring.push byte).1, some (.pushed (ring.push byte).2))
    | .pop => (ring.pop.1, some (.popped ring.pop.2))
    | .isEmpty => (ring, some (.flag ring.isEmpty))

/-- A queue of at most `capacity` bytes that takes and gives as many as it can. -/
def pipeQueue (capacity : Nat) : EventSystem (List UInt8) PipeCall PipeReply where
  init := []
  step := fun queue call =>
    match call with
    | .write data =>
        (queue ++ data.take (capacity - queue.length),
          some (.wrote (min data.length (capacity - queue.length))))
    | .read length =>
        (queue.drop length, some (.filled (min length queue.length) (queue.take length)))
    | .isEmpty => (queue, some (.flag (queue.length == 0)))
    | .isFull => (queue, some (.flag (queue.length == capacity)))

def ringQueue (capacity : Nat) : EventSystem (List UInt8) RingCall RingReply where
  init := []
  step := fun queue call =>
    match call with
    | .push byte =>
        if queue.length = capacity then (queue, some (.pushed false))
        else (queue ++ [byte], some (.pushed true))
    | .pop => (queue.tail, some (.popped queue.head?))
    | .isEmpty => (queue, some (.flag (queue.length == 0)))

def pipeRing (pipe : Pipe) : GapRing UInt8 pipeBuf := ⟨pipe.buf, pipe.head, pipe.tail⟩

def pipeBytes (pipe : Pipe) : List UInt8 := (pipeRing pipe).contents

theorem pipe_bytes_lt (pipe : Pipe) : (pipeBytes pipe).length < pipeBuf := by
  rw [pipeBytes, GapRing.length_contents]
  exact (pipeRing pipe).queued_lt

theorem pipe_full_iff (pipe : Pipe) :
    nextIndex pipe.head = pipe.tail ↔ (pipeBytes pipe).length + 1 = pipeBuf := by
  rw [pipeBytes, GapRing.length_contents]
  exact (pipeRing pipe).full_iff

theorem pipe_empty_iff (pipe : Pipe) : pipe.head = pipe.tail ↔ (pipeBytes pipe).length = 0 := by
  rw [pipeBytes, GapRing.length_contents]
  exact (pipeRing pipe).empty_iff

/-- `self.buf[self.head] = b` -/
theorem pipe_fill_bytes (pipe : Pipe) (byte : UInt8) :
    pipeBytes { pipe with buf := Function.update pipe.buf pipe.head byte } = pipeBytes pipe :=
  (pipeRing pipe).contents_fill byte

/-- `self.head = next` -/
theorem pipe_store_bytes {pipe : Pipe} (room : nextIndex pipe.head ≠ pipe.tail) :
    pipeBytes { pipe with head := nextIndex pipe.head } =
      pipeBytes pipe ++ [pipe.buf pipe.head] :=
  @GapRing.contents_advance _ _ (pipeRing pipe) room

/-- `self.tail = (self.tail + 1) % PIPE_BUF` -/
theorem pipe_take_bytes {pipe : Pipe} (some : pipe.head ≠ pipe.tail) :
    pipeBytes pipe =
      pipe.buf pipe.tail :: pipeBytes { pipe with tail := nextIndex pipe.tail } :=
  @GapRing.contents_pop _ _ (pipeRing pipe) some

theorem next_index_injective {first second : Fin pipeBuf}
    (same : nextIndex first = nextIndex second) : first = second := by
  have left := first.isLt
  have right := second.isLt
  simp only [nextIndex, Fin.mk.injEq, pipeBuf] at same left right
  apply Fin.ext
  omega

theorem pipe_write (pipe : Pipe) (data : List UInt8) :
    pipeBytes (pipe.write data).1 =
        pipeBytes pipe ++ data.take (pipeBuf - 1 - (pipeBytes pipe).length) ∧
      (pipe.write data).2 = min data.length (pipeBuf - 1 - (pipeBytes pipe).length) := by
  induction data generalizing pipe with
  | nil => simp [Pipe.write]
  | cons byte rest ih =>
      have bound := pipe_bytes_lt pipe
      unfold Pipe.write
      split_ifs with full
      · have last := (pipe_full_iff pipe).mp full
        rw [show pipeBuf - 1 - (pipeBytes pipe).length = 0 by omega]
        simp
      · have room : (pipeBytes pipe).length + 1 ≠ pipeBuf := fun last =>
          full ((pipe_full_iff pipe).mpr last)
        have pushed : pipeBytes { pipe with
            buf := Function.update pipe.buf pipe.head byte
            head := nextIndex pipe.head } = pipeBytes pipe ++ [byte] :=
          @GapRing.contents_push _ _ (pipeRing pipe) full byte
        obtain ⟨bytes, count⟩ := ih { pipe with
            buf := Function.update pipe.buf pipe.head byte
            head := nextIndex pipe.head }
        rw [pushed, List.length_append, List.length_singleton] at bytes count
        obtain ⟨space, free⟩ : ∃ space, pipeBuf - 1 - (pipeBytes pipe).length = space + 1 :=
          ⟨pipeBuf - 1 - (pipeBytes pipe).length - 1, by omega⟩
        rw [show pipeBuf - 1 - ((pipeBytes pipe).length + 1) = space by omega] at bytes count
        rw [free, List.take_succ_cons, List.length_cons]
        constructor
        · rw [bytes, List.append_assoc]
          rfl
        · dsimp only
          rw [count]
          omega

theorem pipe_read (pipe : Pipe) (length : Nat) :
    pipeBytes (pipe.read length).1 = (pipeBytes pipe).drop length ∧
      (pipe.read length).2 = (pipeBytes pipe).take length := by
  induction length generalizing pipe with
  | zero => simp [Pipe.read]
  | succ length ih =>
      unfold Pipe.read
      split_ifs with empty
      · have none := GapRing.contents_empty
          (show (pipeRing pipe).head = (pipeRing pipe).tail from empty)
        simp only [pipeBytes, none]
        simp
      · have first := pipe_take_bytes empty
        obtain ⟨left, taken⟩ := ih { pipe with tail := nextIndex pipe.tail }
        rw [first, List.drop_succ_cons, List.take_succ_cons]
        refine ⟨left, ?_⟩
        dsimp only
        rw [taken]

theorem pipe_simulates (pipe : Pipe) (queue : List UInt8) (call : PipeCall)
    (same : pipeBytes pipe = queue) :
    pipeBytes (pipeSystem.step pipe call).1 = ((pipeQueue (pipeBuf - 1)).step queue call).1 ∧
      (pipeSystem.step pipe call).2 = ((pipeQueue (pipeBuf - 1)).step queue call).2 := by
  subst same
  cases call with
  | write data =>
      obtain ⟨bytes, count⟩ := pipe_write pipe data
      exact ⟨bytes, by simp only [pipeSystem, pipeQueue, count]⟩
  | read length =>
      obtain ⟨left, taken⟩ := pipe_read pipe length
      exact ⟨left, by simp only [pipeSystem, pipeQueue, taken, List.length_take]⟩
  | isEmpty =>
      refine ⟨rfl, ?_⟩
      have agree : pipe.isEmpty = ((pipeBytes pipe).length == 0) := by
        rw [Pipe.isEmpty, Bool.eq_iff_iff, beq_iff_eq, beq_iff_eq]
        exact pipe_empty_iff pipe
      simp only [pipeSystem, pipeQueue, agree]
  | isFull =>
      refine ⟨rfl, ?_⟩
      have agree : pipe.isFull = ((pipeBytes pipe).length == pipeBuf - 1) := by
        rw [Pipe.isFull, Bool.eq_iff_iff, beq_iff_eq, beq_iff_eq, pipe_full_iff]
        simp only [pipeBuf]
        omega
      simp only [pipeSystem, pipeQueue, agree]

section

variable {capacity : Nat}

def ringView (ring : RingBuf capacity) : GapRing UInt8 (capacity + 1) :=
  ⟨ring.buf, ring.head, ring.tail⟩

def ringBytes (ring : RingBuf capacity) : List UInt8 := (ringView ring).contents

theorem ring_full_iff (ring : RingBuf capacity) :
    RingBuf.nextIndex ring.head = ring.tail ↔ (ringBytes ring).length = capacity := by
  rw [ringBytes, GapRing.length_contents, ← Nat.add_right_cancel_iff]
  exact (ringView ring).full_iff

theorem ring_empty_iff (ring : RingBuf capacity) :
    ring.head = ring.tail ↔ (ringBytes ring).length = 0 := by
  rw [ringBytes, GapRing.length_contents]
  exact (ringView ring).empty_iff

theorem ring_simulates (ring : RingBuf capacity) (queue : List UInt8) (call : RingCall)
    (same : ringBytes ring = queue) :
    ringBytes ((ringSystem capacity).step ring call).1 = ((ringQueue capacity).step queue call).1 ∧
      ((ringSystem capacity).step ring call).2 = ((ringQueue capacity).step queue call).2 := by
  subst same
  cases call with
  | push byte =>
      simp only [ringSystem, ringQueue, RingBuf.push]
      by_cases full : RingBuf.nextIndex ring.head = ring.tail
      · rw [if_pos full, if_pos ((ring_full_iff ring).mp full)]
        exact ⟨rfl, rfl⟩
      · rw [if_neg full, if_neg fun last => full ((ring_full_iff ring).mpr last)]
        exact ⟨@GapRing.contents_push _ _ (ringView ring) full byte, rfl⟩
  | pop =>
      simp only [ringSystem, ringQueue, RingBuf.pop]
      by_cases empty : ring.head = ring.tail
      · have none : ringBytes ring = [] := @GapRing.contents_empty _ _ (ringView ring) empty
        rw [if_pos empty, none]
        exact ⟨rfl, rfl⟩
      · have first := @GapRing.contents_pop _ _ (ringView ring) empty
        change ringBytes ring = _ at first
        rw [if_neg empty, first]
        exact ⟨rfl, rfl⟩
  | isEmpty =>
      refine ⟨rfl, ?_⟩
      have agree : ring.isEmpty = ((ringBytes ring).length == 0) := by
        rw [RingBuf.isEmpty, Bool.eq_iff_iff, beq_iff_eq, beq_iff_eq]
        exact ring_empty_iff ring
      simp only [ringSystem, ringQueue, agree]

end

/-- Every sequence of calls on a pipe is answered as by a queue of 4095 bytes,
and every sequence of calls on a ring of `capacity + 1` cells as by a queue of
`capacity` bytes. -/
theorem rings_refine_queues :
    (∀ calls, pipeSystem.traceFrom pipeSystem.init calls = (pipeQueue 4095).traceFrom [] calls ∧
      pipeBytes (pipeSystem.runFrom pipeSystem.init calls) = (pipeQueue 4095).runFrom [] calls) ∧
    ∀ capacity calls,
      (ringSystem capacity).traceFrom (ringSystem capacity).init calls =
          (ringQueue capacity).traceFrom [] calls ∧
        ringBytes ((ringSystem capacity).runFrom (ringSystem capacity).init calls) =
          (ringQueue capacity).runFrom [] calls := by
  constructor
  · intro calls
    apply EventSystem.trace_eq_of_simulation (fun pipe queue => pipeBytes pipe = queue)
    · exact pipe_simulates
    · exact GapRing.contents_empty rfl
  · intro capacity calls
    apply EventSystem.trace_eq_of_simulation (fun ring queue => ringBytes ring = queue)
    · exact ring_simulates
    · exact GapRing.contents_empty rfl

end Ferrugem.ByteRings
