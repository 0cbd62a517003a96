import Mathlib.Data.List.FinRange
import Mathlib.Logic.Function.Basic

/-!
# The pipe pool

`kernel/src/ipc/mod.rs`: a fixed pool of eight byte rings, each with an
`in_use` flag and two reference counts. The ring keeps one slot free, so equal
indices mean empty. The counts are `u8` in the source; an increment is guarded
by `< 255` and a decrement by `> 0`, so no wrap-around is possible and `Nat`
loses nothing.
-/

namespace Ferrugem.PipePoolModel

set_option autoImplicit false

def pipeBuf : Nat := 4096

structure Pipe where
  buf : Fin pipeBuf → UInt8
  head : Fin pipeBuf
  tail : Fin pipeBuf

def nextIndex (index : Fin pipeBuf) : Fin pipeBuf :=
  ⟨(index.val + 1) % pipeBuf, Nat.mod_lt _ (by decide)⟩

namespace Pipe

def new : Pipe where
  buf := fun _ => 0
  head := ⟨0, by decide⟩
  tail := ⟨0, by decide⟩

def isEmpty (pipe : Pipe) : Bool := pipe.head == pipe.tail

def isFull (pipe : Pipe) : Bool := nextIndex pipe.head == pipe.tail

/-- Accepts bytes until the ring is full; returns how many were written. -/
def write (pipe : Pipe) : List UInt8 → Pipe × Nat
  | [] => (pipe, 0)
  | byte :: rest =>
      if nextIndex pipe.head = pipe.tail then (pipe, 0)
      else
        let result := write
          { pipe with
            buf := Function.update pipe.buf pipe.head byte
            head := nextIndex pipe.head } rest
        (result.1, result.2 + 1)

/-- Fills a caller buffer of the given length; the returned list holds the
bytes that were read, so its length is the source's return value. -/
def read (pipe : Pipe) : Nat → Pipe × List UInt8
  | 0 => (pipe, [])
  | count + 1 =>
      if pipe.head = pipe.tail then (pipe, [])
      else
        let result := read { pipe with tail := nextIndex pipe.tail } count
        (result.1, pipe.buf pipe.tail :: result.2)

end Pipe

def maxPipes : Nat := 8

abbrev PipeIndex := Fin maxPipes

/-- A free slot has no references: every operation that clears `in_use` has
seen both counts at zero, and none counts references to a free slot. -/
structure PipeSlot where
  pipe : Pipe
  inUse : Bool
  readCount : Nat
  writeCount : Nat
  unreferenced : inUse = false → readCount = 0 ∧ writeCount = 0

def PipeSlot.new : PipeSlot where
  pipe := Pipe.new
  inUse := false
  readCount := 0
  writeCount := 0
  unreferenced := fun _ => ⟨rfl, rfl⟩

/-- `POOL`. -/
abbrev Pool := PipeIndex → PipeSlot

def emptyPool : Pool := fun _ => PipeSlot.new

def allocPipe (pool : Pool) : Option (PipeIndex × Pool) :=
  ((List.finRange maxPipes).find? fun index => !(pool index).inUse).map fun index =>
    (index, Function.update pool index
      { pipe := Pipe.new
        inUse := true
        readCount := 1
        writeCount := 1
        unreferenced := fun free => by cases free })

def PipeSlot.recount (slot : PipeSlot) (live : slot.inUse = true) (readCount writeCount : Nat) :
    PipeSlot :=
  { slot with
    readCount := readCount
    writeCount := writeCount
    unreferenced := fun free => by rw [live] at free; cases free }

/-- The guard `i < MAX_PIPES && POOL[i].in_use` shared by the four
reference-count operations. -/
def modifyInUse (pool : Pool) (idx : Nat)
    (change : (slot : PipeSlot) → slot.inUse = true → PipeSlot) : Pool :=
  if bound : idx < maxPipes then
    if live : (pool ⟨idx, bound⟩).inUse = true then
      Function.update pool ⟨idx, bound⟩ (change (pool ⟨idx, bound⟩) live)
    else pool
  else pool

def dupPipeRead (pool : Pool) (idx : Nat) : Pool :=
  modifyInUse pool idx fun slot live =>
    if slot.readCount < 255 then slot.recount live (slot.readCount + 1) slot.writeCount else slot

def dupPipeWrite (pool : Pool) (idx : Nat) : Pool :=
  modifyInUse pool idx fun slot live =>
    if slot.writeCount < 255 then slot.recount live slot.readCount (slot.writeCount + 1) else slot

/-- The tail of both close operations: the slot is freed once both counts
are zero. -/
def freeIfUnreferenced (slot : PipeSlot) : PipeSlot :=
  if empty : slot.readCount = 0 ∧ slot.writeCount = 0 then
    { slot with inUse := false, unreferenced := fun _ => empty }
  else slot

def closePipeRead (pool : Pool) (idx : Nat) : Pool :=
  modifyInUse pool idx fun slot live =>
    freeIfUnreferenced (slot.recount live (slot.readCount - 1) slot.writeCount)

def closePipeWrite (pool : Pool) (idx : Nat) : Pool :=
  modifyInUse pool idx fun slot live =>
    freeIfUnreferenced (slot.recount live slot.readCount (slot.writeCount - 1))

def pipeWriteOpen (pool : Pool) (idx : Nat) : Bool :=
  if bound : idx < maxPipes then decide (0 < (pool ⟨idx, bound⟩).writeCount) else false

def pipeReadOpen (pool : Pool) (idx : Nat) : Bool :=
  if bound : idx < maxPipes then decide (0 < (pool ⟨idx, bound⟩).readCount) else false

def pipeWrite (pool : Pool) (idx : Nat) (data : List UInt8) : Pool × Nat :=
  if bound : idx < maxPipes then
    let slot := pool ⟨idx, bound⟩
    if slot.inUse then
      let result := slot.pipe.write data
      (Function.update pool ⟨idx, bound⟩ { slot with pipe := result.1 }, result.2)
    else (pool, 0)
  else (pool, 0)

def pipeRead (pool : Pool) (idx : Nat) (length : Nat) : Pool × List UInt8 :=
  if bound : idx < maxPipes then
    let slot := pool ⟨idx, bound⟩
    if slot.inUse then
      let result := slot.pipe.read length
      (Function.update pool ⟨idx, bound⟩ { slot with pipe := result.1 }, result.2)
    else (pool, [])
  else (pool, [])

def pipeHasData (pool : Pool) (idx : Nat) : Bool :=
  if bound : idx < maxPipes then !(pool ⟨idx, bound⟩).pipe.isEmpty else false

end Ferrugem.PipePoolModel
