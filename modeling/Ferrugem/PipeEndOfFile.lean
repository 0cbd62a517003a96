import Ferrugem.PipeLedgers

/-!
# The end of a pipe

`sys_read` on a pipe or a socket pair takes what the ring holds, then asks whether a
write end is open, then blocks. Nothing keeps the other tasks from the ring between
the first statement and the second. A read returns 0 too early when bytes came in
between that nobody has taken out again, and only then.
-/

namespace Ferrugem.PipeEndOfFile

open Ferrugem.PipePoolModel Ferrugem.SchedulerModel Ferrugem.KernelMachine
open Ferrugem.KernelOperations Ferrugem.PipeEnds Ferrugem.ByteRings
open Ferrugem.PipeCountInvariant Ferrugem.PipeReferenceCounts Ferrugem.PipeContents
open Ferrugem.PipeTransfers Ferrugem.PipeLedgers

set_option autoImplicit false

/-- The read that tests the write ends in this step. -/
def testedRead (state : TransferState) : TransferAction → Option ReadFrame
  | .advance =>
      match state.calls state.current with
      | some (.read frame) =>
          if state.going = true ∧ frame.phase = .testing then some frame else none
      | _ => none
  | _ => none

/-- Where the test finds no write end open, all bytes that came in behind the read since
it last looked at the ring have been fetched by other reads. -/
def SeesAll (state : TransferState) (action : TransferAction) : Prop :=
  ∀ frame ∈ testedRead state action, pipeWriteOpen state.pool frame.idx = false →
    frame.idx < maxPipes → frame.fetched = frame.unseen

instance decidableSeesAll (state : TransferState) (action : TransferAction) :
    Decidable (SeesAll state action) :=
  inferInstanceAs (Decidable (∀ frame ∈ testedRead state action, _))

def TransferAction.act (action : Action) : TransferAction :=
  if whole : isWhole action = true then .operation (.act action whole) else .advance

/-- A user task opens a pipe, forks and closes its own write end. -/
def pipeShared : List TransferAction :=
  [.operation (.spawn (.user 0x10000 0x19000 0x20000 0 0x7000)), TransferAction.act .schedule,
    TransferAction.act (.pipe 0x6100),
    .operation (.spawn (.fork 0x30000 0x39000 0x40000 0x7000)), TransferAction.act (.close 4)]

end Ferrugem.PipeEndOfFile
