import Ferrugem.PipeReferenceCounts
import Ferrugem.PipeTransfers

/-!
# The ledger of a pipe

What a pipe has accepted is what it has given out, followed by what its ring holds:
each statement of a read or a write keeps that, provided that no other call of the
same kind came between its load and its store of an index. The counts of the ends are
not touched by either call.
-/

namespace Ferrugem.PipeLedgers

open Ferrugem.PipePoolModel Ferrugem.ProcessModel Ferrugem.SchedulerModel
open Ferrugem.DescriptorSyscalls Ferrugem.KernelMachine Ferrugem.KernelEvolution
open Ferrugem.TaskLifecycle Ferrugem.KernelOperations Ferrugem.PipeEnds Ferrugem.ByteRings
open Ferrugem.PipeCountInvariant Ferrugem.PipeReferenceCounts Ferrugem.PipeContents
open Ferrugem.PreemptedCalls Ferrugem.PipeTransfers

set_option autoImplicit false

/-- The call is about to store the head or the tail, and another call of its kind has
written to the ring since it loaded that. -/
def storesDisturbed : Transfer → Bool
  | .write frame =>
      match frame.phase with
      | .storing _ => frame.disturbed
      | _ => false
  | .read frame =>
      match frame.phase with
      | .storing _ _ _ => frame.disturbed
      | _ => false

def StoresAlone (state : TransferState) : TransferAction → Prop
  | .advance => ∀ call ∈ state.calls state.current, storesDisturbed call = false
  | _ => True

instance decidableStoresAlone (state : TransferState) (action : TransferAction) :
    Decidable (StoresAlone state action) :=
  match action with
  | .advance => inferInstanceAs (Decidable (∀ call ∈ state.calls state.current, _))
  | .operation _ => isTrue trivial
  | .sysRead _ _ _ => isTrue trivial
  | .sysWrite _ _ _ => isTrue trivial

def WriteFits (pipe : Pipe) (frame : WriteFrame) : Prop :=
  frame.disturbed = false →
    match frame.phase with
    | .testing next => next = nextIndex pipe.head
    | .filling next => next = nextIndex pipe.head ∧ next ≠ pipe.tail
    | .storing next =>
        next = nextIndex pipe.head ∧ next ≠ pipe.tail ∧
          frame.rest.head? = some (pipe.buf pipe.head)
    | _ => True

def ReadFits (pipe : Pipe) (frame : ReadFrame) : Prop :=
  frame.disturbed = false →
    match frame.phase with
    | .copying _ => pipe.head ≠ pipe.tail
    | .advancing _ byte => pipe.head ≠ pipe.tail ∧ pipe.buf pipe.tail = byte
    | .storing _ byte next =>
        pipe.head ≠ pipe.tail ∧ pipe.buf pipe.tail = byte ∧ next = nextIndex pipe.tail
    | _ => True

/-- At the liveness test the ring holds what the call has not seen and others have not
fetched. -/
def TestFits (pipe : Pipe) (frame : ReadFrame) : Prop :=
  frame.length ≠ 0 ∧
    (frame.phase = .testing → (pipeBytes pipe).length + frame.fetched = frame.unseen)

def Fits (pipe : Pipe) : Transfer → Prop
  | .write frame => WriteFits pipe frame
  | .read frame => ReadFits pipe frame ∧ TestFits pipe frame

section

variable {pipe : Pipe} {call : Transfer}

theorem fits_saw_fill (byte : UInt8) (fits : Fits pipe call) :
    Fits { pipe with buf := Function.update pipe.buf pipe.head byte }
      (call.sawFill call.idx) := by
  cases call with
  | write frame =>
      simp only [Transfer.sawFill, Transfer.idx, if_true]
      exact nofun
  | read frame =>
      obtain ⟨relies, length, tests⟩ := fits
      refine ⟨fun alone => ?_, length, fun phase => ?_⟩
      · have prior := relies alone
        cases phase : frame.phase with
        | copying got => simpa [phase] using prior
        | advancing got own =>
            simp only [phase] at prior ⊢
            rw [Function.update_of_ne prior.1.symm]
            exact prior
        | storing got own next =>
            simp only [phase] at prior ⊢
            rw [Function.update_of_ne prior.1.symm]
            exact prior
        | _ => trivial
      · rw [pipe_fill_bytes]
        exact tests phase

theorem fits_saw_store (room : nextIndex pipe.head ≠ pipe.tail) (fits : Fits pipe call) :
    Fits { pipe with head := nextIndex pipe.head } (call.sawStore call.idx) := by
  cases call with
  | write frame =>
      simp only [Transfer.sawStore, Transfer.idx, if_true]
      exact nofun
  | read frame =>
      simp only [Transfer.sawStore, Transfer.idx, if_true]
      obtain ⟨relies, length, tests⟩ := fits
      refine ⟨fun alone => ?_, length, fun phase => ?_⟩
      · have prior := relies alone
        cases phase : frame.phase with
        | copying got => exact room
        | advancing got own =>
            simp only [phase] at prior ⊢
            exact ⟨room, prior.2⟩
        | storing got own next =>
            simp only [phase] at prior ⊢
            exact ⟨room, prior.2⟩
        | _ => trivial
      · have counted := tests phase
        rw [pipe_store_bytes room, List.length_append, List.length_singleton]
        dsimp only
        omega

theorem fits_saw_take (some : pipe.head ≠ pipe.tail) (fits : Fits pipe call) :
    Fits { pipe with tail := nextIndex pipe.tail } (call.sawTake call.idx) := by
  cases call with
  | write frame =>
      intro alone
      have prior := fits alone
      have apart : nextIndex pipe.head ≠ nextIndex pipe.tail := mt next_index_injective some
      cases phase : frame.phase with
      | testing next => simpa [phase] using prior
      | filling next =>
          simp only [phase] at prior ⊢
          exact ⟨prior.1, prior.1 ▸ apart⟩
      | storing next =>
          simp only [phase] at prior ⊢
          exact ⟨prior.1, prior.1 ▸ apart, prior.2.2⟩
      | _ => trivial
  | read frame =>
      simp only [Transfer.sawTake, Transfer.idx, if_true]
      obtain ⟨relies, length, tests⟩ := fits
      refine ⟨nofun, length, fun phase => ?_⟩
      have counted := tests phase
      rw [pipe_take_bytes some, List.length_cons] at counted
      dsimp only
      omega

theorem fits_saw_open {opened : List PipeIndex} (fits : Fits pipe call)
    (member : call.idx ∈ opened.map Fin.val) : Fits Pipe.new (call.sawOpen opened) := by
  cases call with
  | write frame =>
      have here : frame.idx ∈ opened.map Fin.val := member
      simp only [Transfer.sawOpen, if_pos here]
      exact nofun
  | read frame =>
      have here : frame.idx ∈ opened.map Fin.val := member
      simp only [Transfer.sawOpen, if_pos here]
      refine ⟨nofun, fits.2.1, fun _ => ?_⟩
      rw [new_pipe_bytes]
      rfl

end

/-- What a pipe has accepted is what it has given out and what its ring holds, and the
calls in progress find the ring as they left it, or know that it was disturbed. -/
structure Sound (state : TransferState) : Prop where
  ledger : ∀ index, state.accepted index =
    state.taken index ++ pipeBytes (rings state.pool index)
  fits : ∀ slot call, state.calls slot = some call → ∀ index : PipeIndex,
    index.val = call.idx → Fits (rings state.pool index) call

theorem step_rings (machine : Machine) {action : Action} (keeps : movesBytes action = false) :
    rings (machine.step action).1.kernel.pool = rings machine.kernel.pool := by
  apply step_rule (fun result => rings result.1.kernel.pool = rings machine.kernel.pool)
  · rfl
  · exact fun _ _ => perform_rings machine keeps

theorem rings_change (pool : Pool) (idx : Nat) (change : Pipe → Pipe) (index : PipeIndex) :
    rings (changeRing pool idx change) index =
      if idx = index.val then change (rings pool index) else rings pool index := by
  unfold changeRing rings
  split_ifs with bound here here
  · subst here
    simp
  · have elsewhere : index ≠ ⟨idx, bound⟩ := fun same => here (congrArg Fin.val same).symm
    simp [elsewhere]
  · exact absurd (here ▸ index.isLt) bound
  · rfl

theorem ring_of_eq (pool : Pool) {idx : Nat} {index : PipeIndex} (same : index.val = idx) :
    ringOf pool idx = rings pool index := by
  subst same
  exact dif_pos index.isLt

section

variable {state : TransferState}

theorem sound_set_call {own : Option Transfer} (sound : Sound state)
    (mine : ∀ call ∈ own, ∀ index : PipeIndex, index.val = call.idx →
      Fits (rings state.pool index) call) : Sound (state.setCall own) where
  ledger := sound.ledger
  fits := by
    intro slot call present
    simp only [TransferState.setCall] at present
    split_ifs at present
    · exact mine call present
    · exact sound.fits slot call present

theorem sound_machine {machine : Machine} (sound : Sound state)
    (same : rings machine.kernel.pool = rings state.pool) :
    Sound { state with machine := machine } where
  ledger := by
    intro index
    change _ = _ ++ pipeBytes (rings machine.kernel.pool index)
    rw [same]
    exact sound.ledger index
  fits := by
    intro slot call present index here
    change Fits (rings machine.kernel.pool index) call
    rw [same]
    exact sound.fits slot call present index here

/-- A statement that writes one ring: the other calls on it notice, and those on other
pipes have nothing to notice. -/
theorem sound_touch {idx : Nat} {change : Pipe → Pipe} {saw : Transfer → Transfer}
    {own : Option Transfer} {accepted taken : PipeIndex → List UInt8} (sound : Sound state)
    (same : ∀ call, (saw call).idx = call.idx)
    (elsewhere : ∀ call : Transfer, call.idx ≠ idx → saw call = call)
    (others : ∀ (index : PipeIndex) (call : Transfer), index.val = idx → call.idx = idx →
      Fits (rings state.pool index) call → Fits (change (rings state.pool index)) (saw call))
    (ledger : ∀ index : PipeIndex, accepted index = taken index ++
      pipeBytes (if idx = index.val then change (rings state.pool index)
        else rings state.pool index))
    (mine : ∀ call ∈ own, ∀ index : PipeIndex, index.val = call.idx → call.idx = idx ∧
      Fits (change (rings state.pool index)) call) :
    Sound ({ state.touch idx change saw with accepted := accepted, taken := taken }.setCall
      own) where
  ledger := by
    intro index
    change _ = _ ++ pipeBytes (rings (changeRing state.pool idx change) index)
    rw [rings_change]
    exact ledger index
  fits := by
    intro slot call present index here
    change Fits (rings (changeRing state.pool idx change) index) call
    rw [rings_change]
    by_cases running : slot = state.current
    · have held : call ∈ own := (if_pos running).symm.trans present
      obtain ⟨touched, fits⟩ := mine call held index here
      rw [if_pos (touched.symm.trans here.symm)]
      exact fits
    · have held : (state.calls slot).map saw = some call := by
        refine Eq.trans ?_ present
        change _ = if slot = state.current then _ else
          (if slot = state.current then _ else (state.calls slot).map saw)
        rw [if_neg running, if_neg running]
      obtain ⟨prior, priorPresent, rfl⟩ := Option.map_eq_some_iff.mp held
      rw [same] at here
      have fits := sound.fits slot prior priorPresent index here
      split_ifs with touched
      · exact others index prior touched.symm (here.symm.trans touched.symm) fits
      · rw [elsewhere prior fun touches => touched (touches.symm.trans here.symm)]
        exact fits

theorem saw_fill_idx (idx : Nat) (call : Transfer) : (call.sawFill idx).idx = call.idx := by
  cases call with
  | read frame => rfl
  | write frame =>
      simp only [Transfer.sawFill]
      split_ifs <;> rfl

theorem saw_store_idx (idx : Nat) (call : Transfer) : (call.sawStore idx).idx = call.idx := by
  cases call <;> simp only [Transfer.sawStore] <;> split_ifs <;> rfl

theorem saw_take_idx (idx : Nat) (call : Transfer) : (call.sawTake idx).idx = call.idx := by
  cases call with
  | read frame =>
      simp only [Transfer.sawTake]
      split_ifs <;> rfl
  | write frame => rfl

theorem saw_elsewhere {idx : Nat} {call : Transfer} (elsewhere : call.idx ≠ idx) :
    call.sawFill idx = call ∧ call.sawStore idx = call ∧ call.sawTake idx = call := by
  cases call with
  | read frame =>
      have other : ¬frame.idx = idx := elsewhere
      simp [Transfer.sawFill, Transfer.sawStore, Transfer.sawTake, other]
  | write frame =>
      have other : ¬frame.idx = idx := elsewhere
      simp [Transfer.sawFill, Transfer.sawStore, Transfer.sawTake, other]

theorem read_sound {frame : ReadFrame} (sound : Sound state)
    (left : state.calls state.current = some (.read frame))
    (alone : storesDisturbed (.read frame) = false) :
    Sound (state.readStatement frame).1 := by
  have own : ∀ index : PipeIndex, index.val = frame.idx →
      Fits (rings state.pool index) (.read frame) := sound.fits state.current _ left
  have ring : ∀ index : PipeIndex, index.val = frame.idx →
      ringOf state.pool frame.idx = rings state.pool index :=
    fun _ same => ring_of_eq state.pool same
  unfold TransferState.readStatement
  cases phase : frame.phase with
  | entering =>
      dsimp only
      split_ifs
      · refine sound_set_call sound ?_
        intro call member index same
        cases member
        exact ⟨fun _ => trivial, (own index same).2.1, nofun⟩
      · refine sound_set_call sound ?_
        intro call member index same
        cases member
        refine ⟨fun _ => trivial, (own index same).2.1, fun _ => ?_⟩
        rw [ring index same]
        rfl
  | looking got =>
      dsimp only
      split_ifs with ended nothing
      · refine sound_set_call sound ?_
        intro call member index same
        cases member
        have length := (own index same).2.1
        refine ⟨fun _ => trivial, length, fun _ => ?_⟩
        subst nothing
        rw [ring index same] at ended
        have empty := ended.resolve_left fun none => length none.symm
        simpa using (pipe_empty_iff _).mp empty
      · exact sound_set_call sound nofun
      · refine sound_set_call sound ?_
        intro call member index same
        cases member
        rw [ring index same, not_or] at ended
        exact ⟨fun _ => ended.2, (own index same).2.1, nofun⟩
  | copying got =>
      refine sound_set_call sound ?_
      intro call member index same
      cases member
      refine ⟨fun undisturbed => ?_, (own index same).2.1, nofun⟩
      have some := (own index same).1 undisturbed
      simp only [phase] at some
      exact ⟨some, by rw [ring index same]⟩
  | advancing got byte =>
      refine sound_set_call sound ?_
      intro call member index same
      cases member
      refine ⟨fun undisturbed => ?_, (own index same).2.1, nofun⟩
      have prior := (own index same).1 undisturbed
      simp only [phase] at prior
      exact ⟨prior.1, prior.2, by rw [ring index same]⟩
  | storing got byte next =>
      have ready : ∀ index : PipeIndex, index.val = frame.idx →
          (rings state.pool index).head ≠ (rings state.pool index).tail ∧
            (rings state.pool index).buf (rings state.pool index).tail = byte ∧
            next = nextIndex (rings state.pool index).tail := by
        intro index same
        have prior := (own index same).1 (by simpa [storesDisturbed, phase] using alone)
        simpa only [phase] using prior
      refine sound_touch sound (saw_take_idx frame.idx) (fun _ other => (saw_elsewhere other).2.2)
        ?_ ?_ ?_
      · intro index call same touches fits
        obtain ⟨some, -, next⟩ := ready index same
        subst next
        rw [← touches]
        exact fits_saw_take some fits
      · intro index
        have held := sound.ledger index
        change state.accepted index = _
        unfold withByte
        split_ifs with here
        · obtain ⟨some, byte, next⟩ := ready index here.symm
          subst next byte
          rw [held, pipe_take_bytes some, List.append_assoc]
          rfl
        · exact held
      · intro call member index same
        cases member
        exact ⟨rfl, fun _ => trivial, (own index same).2.1, nofun⟩
  | testing =>
      dsimp only
      split_ifs
      · refine sound_set_call sound ?_
        intro call member index same
        cases member
        exact ⟨fun _ => trivial, (own index same).2.1, nofun⟩
      · exact sound_set_call sound nofun
  | blocking =>
      have kept := @step_rings state.machine (.blockOnPipe frame.idx) rfl
      refine sound_machine (sound_set_call sound ?_) kept
      intro call member index same
      cases member
      refine ⟨fun _ => ?_, (own index same).2.1, ?_⟩
      · dsimp only
        split_ifs <;> trivial
      · dsimp only
        split_ifs <;> exact nofun
  | yielding =>
      have kept := @step_rings state.machine .schedule rfl
      refine sound_machine (sound_set_call sound ?_) kept
      intro call member index same
      cases member
      exact ⟨fun _ => trivial, (own index same).2.1, nofun⟩

theorem wrote_fits (frame : WriteFrame) (pipe : Pipe) :
    ∀ call ∈ TransferState.wrote frame, Fits pipe call := by
  intro call member
  unfold TransferState.wrote at member
  split_ifs at member
  · cases member
    exact fun _ => trivial
  · cases member

theorem write_sound {frame : WriteFrame} (sound : Sound state)
    (left : state.calls state.current = some (.write frame))
    (alone : storesDisturbed (.write frame) = false) :
    Sound (state.writeStatement frame) := by
  have own : ∀ index : PipeIndex, index.val = frame.idx →
      WriteFits (rings state.pool index) frame := sound.fits state.current _ left
  have ring : ∀ index : PipeIndex, index.val = frame.idx →
      ringOf state.pool frame.idx = rings state.pool index :=
    fun _ same => ring_of_eq state.pool same
  unfold TransferState.writeStatement
  cases phase : frame.phase with
  | checking =>
      refine sound_set_call sound ?_
      intro call member index same
      split_ifs at member <;> cases member
      exact fun _ => trivial
  | entering =>
      refine sound_set_call sound ?_
      intro call member index same
      split_ifs at member <;> cases member
      exact fun _ => trivial
  | loading =>
      refine sound_set_call sound ?_
      intro call member index same
      split_ifs at member
      · exact wrote_fits frame _ call member
      · cases member
        exact fun _ => by rw [ring index same]
  | testing next =>
      refine sound_set_call sound ?_
      intro call member index same
      split_ifs at member with full
      · exact wrote_fits frame _ call member
      · cases member
        intro undisturbed
        have prior := own index same undisturbed
        simp only [phase] at prior
        rw [ring index same] at full
        exact ⟨prior, full⟩
  | filling next =>
      dsimp only
      split
      · rename_i byte rest remaining
        refine @sound_touch state frame.idx _ _ _ state.accepted state.taken sound
          (saw_fill_idx frame.idx) (fun _ other => (saw_elsewhere other).1) ?_ ?_ ?_
        · intro index call same touches fits
          rw [← touches]
          exact fits_saw_fill byte fits
        · intro index
          split_ifs
          · rw [pipe_fill_bytes]
            exact sound.ledger index
          · exact sound.ledger index
        · intro call member index same
          cases member
          refine ⟨rfl, fun undisturbed => ?_⟩
          have prior := own index same undisturbed
          simp only [phase] at prior
          refine ⟨prior.1, prior.2, ?_⟩
          simp [remaining]
      · exact sound_set_call sound nofun
  | storing next =>
      dsimp only
      split
      · rename_i byte rest remaining
        have ready : ∀ index : PipeIndex, index.val = frame.idx →
            next = nextIndex (rings state.pool index).head ∧
              next ≠ (rings state.pool index).tail ∧
              byte = (rings state.pool index).buf (rings state.pool index).head := by
          intro index same
          have prior := own index same (by simpa [storesDisturbed, phase] using alone)
          simpa [phase, remaining] using prior
        refine sound_touch sound (saw_store_idx frame.idx)
          (fun _ other => (saw_elsewhere other).2.1) ?_ ?_ ?_
        · intro index call same touches fits
          obtain ⟨fresh, room, -⟩ := ready index same
          subst fresh
          rw [← touches]
          exact fits_saw_store room fits
        · intro index
          have held := sound.ledger index
          change _ = state.taken index ++ _
          unfold withByte
          split_ifs with here
          · obtain ⟨fresh, room, byte⟩ := ready index here.symm
            subst fresh byte
            rw [held, pipe_store_bytes room, List.append_assoc]
          · exact held
        · intro call member index same
          cases member
          exact ⟨rfl, fun _ => trivial⟩
      · exact sound_set_call sound nofun
  | taking =>
      refine sound_set_call sound ?_
      intro call member index same
      split_ifs at member <;> cases member
      exact fun _ => trivial
  | clearing record =>
      refine sound_machine (sound_set_call sound ?_) ?_
      · intro call member index same
        obtain ⟨slot, -, rfl⟩ := Option.map_eq_some_iff.mp member
        exact fun _ => trivial
      · simp only [effect]
        split_ifs <;> rfl
  | waking slot =>
      refine sound_set_call sound ?_
      intro call member index same
      split_ifs at member <;> cases member
      exact fun _ => trivial
  | readying slot =>
      refine sound_machine (sound_set_call sound nofun) ?_
      simp only [effect, modifySlot]
      split <;> rfl

theorem saw_open_idx (opened : List PipeIndex) (call : Transfer) :
    (call.sawOpen opened).idx = call.idx := by
  cases call <;> simp only [Transfer.sawOpen] <;> split_ifs <;> rfl

theorem saw_open_elsewhere {opened : List PipeIndex} {call : Transfer}
    (other : call.idx ∉ opened.map Fin.val) : call.sawOpen opened = call := by
  cases call with
  | read frame => exact if_neg other
  | write frame => exact if_neg other

theorem going_iff : state.going = true ↔
    state.machine.halted = false ∧ state.machine.returning = false := by
  simp [TransferState.going]

theorem operation_opens {operation : Operation} (outside : isTransferSection operation = false)
    (index : PipeIndex) :
    rings (operationSystem.step state.machine operation).1.kernel.pool index =
      if index ∈ state.opens operation then Pipe.new else rings state.pool index := by
  cases operation with
  | act action whole =>
      change rings (state.machine.step action).1.kernel.pool index = _
      have calls (opened : PipeIndex → Pipe) (leaving : action ≠ .sysret)
          (after : ∀ index, rings (state.machine.perform action).1.kernel.pool index =
            opened index)
          (same : ∀ index, opened index = if index ∈ openedPipes state.machine.kernel action
            then Pipe.new else rings state.pool index) :
          rings (state.machine.step action).1.kernel.pool index =
            if index ∈ state.opens (.act action whole) then Pipe.new
            else rings state.pool index := by
        by_cases going : state.going = true
        · obtain ⟨running, free⟩ := going_iff.mp going
          have opens : state.opens (.act action whole) =
              openedPipes state.machine.kernel action := if_pos going
          simp only [opens]
          rw [step_of_running action running free, after]
          exact same index
        · have stopped : state.machine.halted = true ∨ state.machine.returning = true := by
            simpa [TransferState.going, Classical.or_iff_not_imp_left] using going
          have opens : state.opens (.act action whole) = [] := if_neg going
          simp only [opens, List.not_mem_nil, if_false]
          rw [step_of_stopped stopped leaving]
          rfl
      by_cases moves : movesBytes action = true
      · cases action <;> simp only [movesBytes, Bool.false_eq_true] at moves
        case readPipe => cases outside
        case writePipe => cases outside
        case pipe fdsPtr =>
          exact calls _ (by simp) (fun _ => rfl) (sys_pipe_rings state.machine.kernel fdsPtr)
        case socketpair svPtr =>
          exact calls _ (by simp) (fun _ => rfl) (sys_socketpair_rings state.machine.kernel svPtr)
      · have none : openedPipes state.machine.kernel action = [] := by
          cases action <;> first | rfl | exact absurd rfl moves
        rw [step_rings state.machine (by simpa using moves)]
        simp only [TransferState.opens, none, ite_self, List.not_mem_nil, if_false]
        rfl
  | exitCurrent code =>
      rw [operation_rings state.machine rfl]
      simp [TransferState.opens, TransferState.pool]
  | spawn kind =>
      rw [operation_rings state.machine rfl]
      simp [TransferState.opens, TransferState.pool]

theorem operate_sound {operation : Operation} (sound : Sound state)
    (admitted : state.admits operation = true) : Sound (state.operate operation) := by
  have outside : isTransferSection operation = false := by
    simp only [TransferState.admits, Bool.and_eq_true, Bool.not_eq_true'] at admitted
    exact admitted.1
  have after := @operation_opens state operation outside
  constructor
  · intro index
    change (if _ then _ else _) = (if _ then _ else _) ++
      pipeBytes (rings (operationSystem.step state.machine operation).1.kernel.pool index)
    rw [after]
    split_ifs
    · rw [new_pipe_bytes]
      rfl
    · exact sound.ledger index
  · intro slot call present index here
    change Fits (rings (operationSystem.step state.machine operation).1.kernel.pool index) call
    rw [after]
    simp only [TransferState.operate] at present
    split_ifs at present
    obtain ⟨prior, priorPresent, rfl⟩ := Option.map_eq_some_iff.mp present
    rw [saw_open_idx] at here
    have fits := sound.fits slot prior priorPresent index here
    split_ifs with opened
    · exact fits_saw_open fits (here ▸ List.mem_map_of_mem opened)
    · have other : prior.idx ∉ (state.opens operation).map Fin.val := by
        intro member
        obtain ⟨found, foundOpened, same⟩ := List.mem_map.mp member
        exact opened (Fin.ext (same.trans here.symm) ▸ foundOpened)
      rw [saw_open_elsewhere other]
      exact fits

theorem begin_sound (sound : Sound state) (fd buf len : Nat) (data : List UInt8) :
    Sound (state.beginRead fd buf len) ∧ Sound (state.beginWrite fd buf data) := by
  constructor
  · unfold TransferState.beginRead
    split_ifs with nothing
    · exact sound
    · split
      · refine sound_set_call sound ?_
        intro call member index same
        cases member
        exact ⟨fun _ => trivial, fun none => nothing (.inl none), nofun⟩
      · exact sound
  · unfold TransferState.beginWrite
    split_ifs
    · exact sound
    · split
      · refine sound_set_call sound ?_
        intro call member index same
        cases member
        exact fun _ => trivial
      · exact sound

theorem sound_step (state : TransferState) (action : TransferAction) (sound : Sound state)
    (alone : StoresAlone state action) : Sound (transferSystem.step state action).1 := by
  cases action with
  | operation operation =>
      simp only [transferSystem]
      split_ifs with admitted
      · exact operate_sound sound admitted
      · exact sound
  | sysRead fd buf len =>
      simp only [transferSystem]
      split_ifs
      · exact (begin_sound sound fd buf len []).1
      · exact sound
  | sysWrite fd buf data =>
      simp only [transferSystem]
      split_ifs
      · exact (begin_sound sound fd buf 0 data).2
      · exact sound
  | advance =>
      simp only [transferSystem]
      split
      · rename_i frame left
        split_ifs
        · exact read_sound sound left (alone _ left)
        · exact sound
      · rename_i frame left
        split_ifs
        · exact write_sound sound left (alone _ left)
        · exact sound
      · exact sound

end

/-- No descriptor is duplicated, and pipes are opened with room for both ends. -/
def CountsEnds (state : TransferState) : TransferAction → Prop
  | .operation operation =>
      state.admits operation = true → CountsDescriptors state.machine operation
  | _ => True

instance decidableCountsEnds (state : TransferState) (action : TransferAction) :
    Decidable (CountsEnds state action) :=
  match action with
  | .operation operation =>
      inferInstanceAs (Decidable (_ → CountsDescriptors state.machine operation))
  | .sysRead _ _ _ => isTrue trivial
  | .sysWrite _ _ _ => isTrue trivial
  | .advance => isTrue trivial

section

variable {state : TransferState}

end

end Ferrugem.PipeLedgers
