import Ferrugem.Library.FlowLedgers
import Ferrugem.PipeEndOfFile

/-!
# Pipes are streams

From the call that opens a pipe until its slot of the pool is opened again,
whatever processes write and read it and wherever interrupts fall, the bytes
that the reads take are the bytes that the writes put in, in the same order,
short of those that still wait in the ring. Two writes, and two reads, may take
turns, but not within one byte.
-/

namespace Ferrugem.PipeStreams

open Ferrugem.PipePoolModel Ferrugem.SchedulerModel Ferrugem.KernelMachine
open Ferrugem.KernelOperations Ferrugem.ByteRings Ferrugem.PipeContents Ferrugem.PipeTransfers
open Ferrugem.PipeLedgers Ferrugem.PipeEndOfFile

set_option autoImplicit false

def bytesRead (index : PipeIndex) : TransferEvent → List UInt8
  | .took _ idx byte => if idx = index.val then [byte] else []
  | _ => []

/-- The byte that a write counts as written to the pipe, with the store of the head. -/
def bytesWritten (index : PipeIndex) (state : TransferState) : TransferAction → List UInt8
  | .advance =>
      match state.calls state.current with
      | some (.write frame) =>
          match frame.phase with
          | .storing _ =>
              if state.going = true ∧ frame.idx = index.val then frame.rest.take 1 else []
          | _ => []
      | _ => []
  | _ => []

/-- The step is a `pipe` or `socketpair` call that takes this slot of the pool. -/
def Opens (index : PipeIndex) (state : TransferState) : TransferAction → Prop
  | .operation operation => state.admits operation = true ∧ index ∈ state.opens operation
  | _ => False

instance decidableOpens (index : PipeIndex) (state : TransferState) (action : TransferAction) :
    Decidable (Opens index state action) :=
  match action with
  | .operation _ => inferInstanceAs (Decidable (_ ∧ _))
  | .sysRead _ _ _ => isFalse id
  | .sysWrite _ _ _ => isFalse id
  | .advance => isFalse id

def waiting (index : PipeIndex) (state : TransferState) : List UInt8 :=
  pipeBytes (rings state.pool index)

def Records (index : PipeIndex) (state after : TransferState) (written read : List UInt8) : Prop :=
  after.accepted index = state.accepted index ++ written ∧
    after.taken index = state.taken index ++ read

theorem records_nothing {index : PipeIndex} {state after : TransferState}
    (accepted : after.accepted = state.accepted) (taken : after.taken = state.taken) :
    Records index state after [] [] := by
  simp [Records, accepted, taken]

theorem read_records (index : PipeIndex) (state : TransferState) (frame : ReadFrame) :
    Records index state (state.readStatement frame).1 []
      ((state.readStatement frame).2.toList.flatMap (bytesRead index)) := by
  unfold TransferState.readStatement
  cases frame.phase with
  | storing got byte next =>
      refine ⟨(List.append_nil _).symm, ?_⟩
      simp only [TransferState.setCall, withByte, Option.toList_some, List.flatMap_singleton,
        bytesRead]
      split_ifs
      · rfl
      · exact (List.append_nil _).symm
  | entering =>
      dsimp only
      split_ifs <;> exact records_nothing rfl rfl
  | looking got =>
      dsimp only
      split_ifs <;> exact records_nothing rfl rfl
  | testing =>
      dsimp only
      split_ifs <;> exact records_nothing rfl rfl
  | _ => exact records_nothing rfl rfl

theorem write_records (index : PipeIndex) {state : TransferState} {frame : WriteFrame}
    (left : state.calls state.current = some (.write frame)) (going : state.going = true) :
    Records index state (state.writeStatement frame) (bytesWritten index state .advance) [] := by
  unfold TransferState.writeStatement
  simp only [bytesWritten, left]
  cases frame.phase with
  | filling next =>
      dsimp only
      split <;> exact records_nothing rfl rfl
  | storing next =>
      dsimp only
      split
      · rename_i byte rest remaining
        refine ⟨?_, (List.append_nil _).symm⟩
        simp only [TransferState.setCall, withByte, going, true_and, remaining]
        split_ifs
        · rfl
        · exact (List.append_nil _).symm
      · rename_i remaining
        simp only [remaining, List.take_nil, ite_self]
        exact records_nothing rfl rfl
  | _ => exact records_nothing rfl rfl

theorem step_records (index : PipeIndex) (state : TransferState) (action : TransferAction)
    (kept : ¬Opens index state action) :
    Records index state (transferSystem.step state action).1 (bytesWritten index state action)
      ((transferSystem.step state action).2.toList.flatMap (bytesRead index)) := by
  cases action with
  | operation operation =>
      simp only [transferSystem, bytesWritten]
      split_ifs with admitted
      · have outside : index ∉ state.opens operation := fun member => kept ⟨admitted, member⟩
        simp [Records, TransferState.operate, outside]
      · exact records_nothing rfl rfl
  | sysRead fd buf len =>
      simp only [transferSystem, bytesWritten, TransferState.beginRead]
      split_ifs
      · exact records_nothing rfl rfl
      · split <;> exact records_nothing rfl rfl
      · exact records_nothing rfl rfl
  | sysWrite fd buf data =>
      simp only [transferSystem, bytesWritten, TransferState.beginWrite]
      split_ifs
      · exact records_nothing rfl rfl
      · split <;> exact records_nothing rfl rfl
      · exact records_nothing rfl rfl
  | advance =>
      simp only [transferSystem]
      split
      · rename_i frame left
        have unwritten : bytesWritten index state .advance = [] := by
          simp only [bytesWritten, left]
        rw [unwritten]
        split_ifs
        · exact read_records index state frame
        · exact records_nothing rfl rfl
      · rename_i frame left
        split_ifs with going
        · exact write_records index left going
        · have unwritten : bytesWritten index state .advance = [] := by
            simp only [bytesWritten, left]
            split <;> simp [going]
          rw [unwritten]
          exact records_nothing rfl rfl
      · rename_i left
        have unwritten : bytesWritten index state .advance = [] := by
          simp only [bytesWritten, left]
        rw [unwritten]
        exact records_nothing rfl rfl

theorem step_balances (index : PipeIndex) (state : TransferState) (action : TransferAction)
    (sound : Sound state) (alone : StoresAlone state action) (kept : ¬Opens index state action) :
    waiting index state ++ bytesWritten index state action =
      (transferSystem.step state action).2.toList.flatMap (bytesRead index) ++
        waiting index (transferSystem.step state action).1 := by
  have after := (sound_step state action sound alone).ledger index
  obtain ⟨accepted, taken⟩ := step_records index state action kept
  rw [accepted, taken, sound.ledger index, List.append_assoc, List.append_assoc] at after
  exact List.append_cancel_left after

end Ferrugem.PipeStreams
