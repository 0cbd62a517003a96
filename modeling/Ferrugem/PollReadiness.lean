import Ferrugem.PollEntries

/-!
# Polled pipes

What `sys_poll` reports for a pipe or a socket pair, beside what `sys_read` and
`sys_write` would do in the same state. The reading side asks the ring for data, as the
transfer does; the writing side asks for a reader only, and not whether the ring is
full. A write end is never polled for reading.
-/

namespace Ferrugem.PollReadiness

open Ferrugem.PipePoolModel Ferrugem.ProcessModel Ferrugem.SchedulerModel
open Ferrugem.SyscallStores Ferrugem.PollEntries
open Ferrugem.DescriptorSyscalls (currentFdGet sysWritePipe)

set_option autoImplicit false

/-- A `sys_read` into any buffer returns before another task has run. -/
def ReadReturns (state : SyscallState) (fd : Nat) : Prop :=
  ∀ buf len, buf ≠ 0 → 0 < len → (sysRead state [] fd buf len).result ≠ none

/-- A `sys_write` of any bytes takes one of them at least. -/
def WriteAccepts (state : SyscallState) (fd : Nat) : Prop :=
  ∀ data, data ≠ [] → 0 < (sysWritePipe state.kernel fd data).2

def isPipeEnd : FdEntry → Bool
  | .pipeRead _ => true
  | .pipeWrite _ => true
  | .socketPair _ _ => true
  | _ => false

/-- The entry `k` of the array names the pipe or socket pair `entry`. -/
structure PollsPipe (state : SyscallState) (fdsPtr : Address) (nfds k : Nat) (entry : FdEntry) :
    Prop where
  fits : 8 * nfds ≤ 2 ^ 64
  pointed : fdsPtr ≠ 0
  inside : k < nfds
  valid : 0 ≤ fdAt state.memory fdsPtr k
  opened : currentFdGet state.kernel (fdAt state.memory fdsPtr k).toNat = some entry
  isPipe : isPipeEnd entry = true

/-- What was asked for is reported exactly when the transfer would make it true. -/
structure PollAgrees (state : SyscallState) (fdsPtr : Address) (nfds k : Nat) (timeoutMs : Int) :
    Prop where
  reading : wants (eventsAt state.memory fdsPtr k) pollIn = true →
    ((wants (reventsAt (memoryAfter state.memory (sysPoll state fdsPtr nfds timeoutMs)) fdsPtr k)
          pollIn = true ∨
        wants (reventsAt (memoryAfter state.memory (sysPoll state fdsPtr nfds timeoutMs)) fdsPtr k)
          pollHup = true) ↔
      ReadReturns state (fdAt state.memory fdsPtr k).toNat)
  writing : wants (eventsAt state.memory fdsPtr k) pollOut = true →
    (wants (reventsAt (memoryAfter state.memory (sysPoll state fdsPtr nfds timeoutMs)) fdsPtr k)
        pollOut = true ↔
      WriteAccepts state (fdAt state.memory fdsPtr k).toNat)

def pipeIsFull (pool : Pool) (idx : Nat) : Bool :=
  if bound : idx < maxPipes then (pool ⟨idx, bound⟩).pipe.isFull else false

/-- A pipe that is asked for writing has no reader, or is not full. -/
def RoomOrNoReader (pool : Pool) (idx : Nat) : Prop :=
  pipeReadOpen pool idx = true → pipeIsFull pool idx = false

/-- A write end is asked for reading only together with writing and without a reader,
and a socket pair without a reader is not asked for both while a read would block. -/
def ReadinessMatches (pool : Pool) (events : BitVec 16) : FdEntry → Prop
  | .pipeWrite idx =>
      (wants events pollIn = true → wants events pollOut = true ∧ pipeReadOpen pool idx = false) ∧
        (wants events pollOut = true → RoomOrNoReader pool idx)
  | .socketPair readIdx writeIdx =>
      (wants events pollIn = true → wants events pollOut = true →
          pipeReadOpen pool writeIdx = false →
          pipeHasData pool readIdx = true ∨ pipeWriteOpen pool readIdx = false) ∧
        (wants events pollOut = true → RoomOrNoReader pool writeIdx)
  | _ => True

theorem ring_read_iff (pipe : Pipe) {len : Nat} (some : 0 < len) :
    (pipe.read len).2 ≠ [] ↔ pipe.isEmpty = false := by
  cases len with
  | zero => omega
  | succ count =>
      unfold Pipe.read Pipe.isEmpty
      by_cases empty : pipe.head = pipe.tail
      · rw [if_pos empty, beq_iff_eq.mpr empty]
        exact iff_of_false (fun other => other rfl) nofun
      · rw [if_neg empty, beq_eq_false_iff_ne.mpr empty]
        exact iff_of_true (List.cons_ne_nil _ _) rfl

theorem ring_write_iff (pipe : Pipe) {data : List UInt8} (some : data ≠ []) :
    0 < (pipe.write data).2 ↔ pipe.isFull = false := by
  cases data with
  | nil => exact absurd rfl some
  | cons byte rest =>
      unfold Pipe.write Pipe.isFull
      by_cases full : nextIndex pipe.head = pipe.tail
      · rw [if_pos full, beq_iff_eq.mpr full]
        exact iff_of_false (lt_irrefl 0) nofun
      · rw [if_neg full, beq_eq_false_iff_ne.mpr full]
        exact iff_of_true (Nat.succ_pos _) rfl

section

variable {pool : Pool} {idx : Nat}

theorem free_slot_closed {slot : PipeIndex} (free : (pool slot).inUse = false) :
    pipeWriteOpen pool slot.val = false ∧ pipeReadOpen pool slot.val = false := by
  obtain ⟨reads, writes⟩ := (pool slot).unreferenced free
  unfold pipeWriteOpen pipeReadOpen
  simp [slot.isLt, reads, writes]

theorem pool_read_iff {len : Nat} (some : 0 < len) :
    (pipeRead pool idx len).2 ≠ [] ∨ pipeWriteOpen pool idx = false ↔
      pipeHasData pool idx = true ∨ pipeWriteOpen pool idx = false := by
  by_cases bound : idx < maxPipes
  · cases live : (pool ⟨idx, bound⟩).inUse with
    | false =>
        have closed := (@free_slot_closed pool ⟨idx, bound⟩ live).1
        exact iff_of_true (.inr closed) (.inr closed)
    | true =>
        have taken : (pipeRead pool idx len).2 = ((pool ⟨idx, bound⟩).pipe.read len).2 := by
          unfold pipeRead
          simp only [bound, live, dif_pos, if_pos]
        have data : pipeHasData pool idx = !(pool ⟨idx, bound⟩).pipe.isEmpty := dif_pos bound
        rw [taken, data, ring_read_iff _ some, Bool.not_eq_true']
  · have nothing : (pipeRead pool idx len).2 = [] := by
      unfold pipeRead
      rw [dif_neg bound]
    have noData : pipeHasData pool idx = false := dif_neg bound
    rw [nothing, noData]
    simp

theorem pool_write_iff {data : List UInt8} (some : data ≠ [])
    (reader : pipeReadOpen pool idx = true) :
    0 < (pipeWrite pool idx data).2 ↔ pipeIsFull pool idx = false := by
  by_cases bound : idx < maxPipes
  · have live : (pool ⟨idx, bound⟩).inUse = true := by
      by_contra free
      have closed := (@free_slot_closed pool ⟨idx, bound⟩ (Bool.eq_false_iff.mpr free)).2
      rw [show (⟨idx, bound⟩ : PipeIndex).val = idx from rfl, reader] at closed
      cases closed
    have taken : (pipeWrite pool idx data).2 = ((pool ⟨idx, bound⟩).pipe.write data).2 := by
      unfold pipeWrite
      simp only [bound, live, dif_pos, if_pos]
    have full : pipeIsFull pool idx = (pool ⟨idx, bound⟩).pipe.isFull := dif_pos bound
    rw [taken, full, ring_write_iff _ some]
  · unfold pipeReadOpen at reader
    rw [dif_neg bound] at reader
    cases reader

end

section

variable {state : SyscallState} {fd idx : Nat}

/-- `sys_read` on the reading side of a pipe. -/
theorem read_side_returns_iff {entry : FdEntry}
    (opened : currentFdGet state.kernel fd = some entry)
    (reads : entry = .pipeRead idx ∨ ∃ writeIdx, entry = .socketPair idx writeIdx) :
    ReadReturns state fd ↔
      pipeHasData state.kernel.pool idx = true ∨ pipeWriteOpen state.kernel.pool idx = false := by
  have returns : ∀ buf len, buf ≠ 0 → 0 < len →
      ((sysRead state [] fd buf len).result ≠ none ↔
        pipeHasData state.kernel.pool idx = true ∨
          pipeWriteOpen state.kernel.pool idx = false) := by
    intro buf len pointed some
    have loop : sysRead state [] fd buf len = readFromPipe idx buf len [state] := by
      unfold sysRead
      rw [if_neg (by omega), if_neg pointed, opened]
      rcases reads with rfl | ⟨writeIdx, rfl⟩ <;> rfl
    rw [loop, ← pool_read_iff some]
    unfold readFromPipe readFromPipe
    dsimp only
    split_ifs with taken closed
    · exact iff_of_true nofun (.inl taken)
    · exact iff_of_true nofun (.inr (by simpa using closed))
    · refine iff_of_false (fun other => other rfl) (not_or.mpr ⟨taken, ?_⟩)
      simpa using closed
  constructor
  · intro reading
    exact (returns 1 1 (by decide) Nat.one_pos).mp (reading 1 1 (by decide) Nat.one_pos)
  · exact fun ready buf len pointed some => (returns buf len pointed some).mpr ready

/-- `sys_read` on a write end fails at once. -/
theorem write_end_returns (opened : currentFdGet state.kernel fd = some (.pipeWrite idx)) :
    ReadReturns state fd := by
  intro buf len pointed some
  unfold sysRead
  rw [if_neg (by omega), if_neg pointed, opened]
  exact nofun

/-- `sys_write` on the writing side of a pipe. -/
theorem write_side_accepts_iff {entry : FdEntry}
    (opened : currentFdGet state.kernel fd = some entry)
    (writes : entry = .pipeWrite idx ∨ ∃ readIdx, entry = .socketPair readIdx idx) :
    WriteAccepts state fd ↔
      pipeReadOpen state.kernel.pool idx = true ∧ pipeIsFull state.kernel.pool idx = false := by
  have accepts : ∀ data, data ≠ [] → (0 < (sysWritePipe state.kernel fd data).2 ↔
      pipeReadOpen state.kernel.pool idx = true ∧ pipeIsFull state.kernel.pool idx = false) := by
    intro data some
    have named : (currentFdGet state.kernel fd).bind DescriptorSyscalls.writePipe = .some idx := by
      rw [opened]
      rcases writes with rfl | ⟨readIdx, rfl⟩ <;> rfl
    unfold sysWritePipe
    rw [if_neg some, named]
    dsimp only
    cases reader : pipeReadOpen state.kernel.pool idx with
    | false => simp
    | true =>
        rw [if_neg (by decide), ← pool_write_iff some reader]
        simp
  constructor
  · intro writing
    exact (accepts [0] (List.cons_ne_nil _ _)).mp (writing [0] (List.cons_ne_nil _ _))
  · exact fun ready data some => (accepts data some).mpr ready

/-- `sys_write` on a read end fails. -/
theorem read_end_refuses (opened : currentFdGet state.kernel fd = some (.pipeRead idx)) :
    ¬WriteAccepts state fd := by
  intro accepts
  have positive := accepts [0] (List.cons_ne_nil _ _)
  unfold sysWritePipe at positive
  rw [if_neg (List.cons_ne_nil _ _), opened] at positive
  dsimp only [Option.bind, DescriptorSyscalls.writePipe] at positive
  omega

end

section

variable {pool : Pool} {events : BitVec 16}

/-- `POLLIN` or `POLLHUP`. -/
def reportsReading (revents : BitVec 16) : Bool := wants revents pollIn || wants revents pollHup

theorem wants_or (left right flag : BitVec 16) :
    wants (left ||| right) flag = (wants left flag || wants right flag) := by
  rw [Bool.eq_iff_iff, Bool.or_eq_true, wants_iff, wants_iff, wants_iff,
    BitVec.and_or_distrib_right, or_ne_zero_iff]

theorem reports_reading_or (left right : BitVec 16) :
    reportsReading (left ||| right) = (reportsReading left || reportsReading right) := by
  unfold reportsReading
  rw [wants_or, wants_or]
  cases wants left pollIn <;> cases wants right pollIn <;> simp

theorem reading_reports (pool : Pool) (idx : Nat) (events : BitVec 16) :
    reportsReading (pollReading pool idx events).1 = readingReady pool idx events ∧
      wants (pollReading pool idx events).1 pollOut = false := by
  unfold pollReading readingReady
  cases wants events pollIn <;> cases pipeHasData pool idx <;> cases pipeWriteOpen pool idx <;>
    decide

theorem writing_reports (pool : Pool) (idx : Nat) (events : BitVec 16) :
    reportsReading (pollWriting pool idx events).1 =
        (wants events pollOut && !pipeReadOpen pool idx) ∧
      wants (pollWriting pool idx events).1 pollOut =
        (wants events pollOut && pipeReadOpen pool idx) := by
  unfold pollWriting
  cases wants events pollOut <;> cases pipeReadOpen pool idx <;> decide

end

def EntryAgrees (state : SyscallState) (fd : Nat) (events revents : BitVec 16) : Prop :=
  (wants events pollIn = true → (reportsReading revents = true ↔ ReadReturns state fd)) ∧
    (wants events pollOut = true → (wants revents pollOut = true ↔ WriteAccepts state fd))

theorem entry_agrees_iff {state : SyscallState} {fd : Nat} {entry : FdEntry}
    (events : BitVec 16) (opened : currentFdGet state.kernel fd = some entry)
    (isPipe : isPipeEnd entry = true) :
    EntryAgrees state fd events (pollEntry state fd events).1 ↔
      ReadinessMatches state.kernel.pool events entry := by
  unfold EntryAgrees pollEntry
  rw [if_neg (by omega), Int.toNat_natCast, opened]
  cases entry with
  | pipeRead idx =>
      dsimp only [ReadinessMatches]
      rw [(reading_reports _ _ _).1, (reading_reports _ _ _).2,
        read_side_returns_iff opened (.inl rfl)]
      refine iff_of_true ⟨?_, ?_⟩ trivial
      · intro asked
        unfold readingReady
        rw [asked, Bool.true_and, Bool.or_eq_true, Bool.not_eq_true']
      · intro _
        exact iff_of_false nofun (read_end_refuses opened)
  | pipeWrite idx =>
      dsimp only [ReadinessMatches]
      rw [(writing_reports _ _ _).1, (writing_reports _ _ _).2,
        write_side_accepts_iff opened (.inl rfl), iff_true_right (write_end_returns opened)]
      unfold RoomOrNoReader
      cases wants events pollIn <;> cases wants events pollOut <;>
        cases pipeReadOpen state.kernel.pool idx <;> simp
  | socketPair readIdx writeIdx =>
      dsimp only [ReadinessMatches]
      rw [reports_reading_or, wants_or, (reading_reports _ _ _).1, (reading_reports _ _ _).2,
        (writing_reports _ _ _).1, (writing_reports _ _ _).2,
        read_side_returns_iff opened (.inr ⟨_, rfl⟩), write_side_accepts_iff opened (.inr ⟨_, rfl⟩)]
      unfold RoomOrNoReader readingReady
      cases wants events pollIn <;> cases wants events pollOut <;>
        cases pipeReadOpen state.kernel.pool writeIdx <;>
        cases pipeHasData state.kernel.pool readIdx <;>
        cases pipeWriteOpen state.kernel.pool readIdx <;> simp
  | _ => cases isPipe

/-- For every state of the pool and every array that fits into the address space. -/
theorem poll_agrees_iff (state : SyscallState) (fdsPtr : Address) (nfds k : Nat) (timeoutMs : Int)
    (entry : FdEntry) (polls : PollsPipe state fdsPtr nfds k entry) :
    PollAgrees state fdsPtr nfds k timeoutMs ↔
      ReadinessMatches state.kernel.pool (eventsAt state.memory fdsPtr k) entry := by
  have reports :
      reventsAt (memoryAfter state.memory (sysPoll state fdsPtr nfds timeoutMs)) fdsPtr k =
        (pollEntry state (fdAt state.memory fdsPtr k).toNat (eventsAt state.memory fdsPtr k)).1 := by
    rw [Int.toNat_of_nonneg polls.valid]
    exact revents_reported polls.fits polls.pointed polls.inside
  rw [← entry_agrees_iff _ polls.opened polls.isPipe, ← reports]
  unfold EntryAgrees reportsReading
  simp only [Bool.or_eq_true]
  exact ⟨fun agrees => ⟨agrees.reading, agrees.writing⟩, fun agrees => ⟨agrees.1, agrees.2⟩⟩

theorem pair_polls : PollsPipe pairPolled 0x8000002000 1 0 (.socketPair 0 1) where
  fits := by decide
  pointed := by decide
  inside := by decide
  valid := by decide +kernel
  opened := by decide +kernel
  isPipe := rfl

/-- A socket pair with a byte to read and room to write. -/
theorem pair_agrees : PollAgrees pairPolled 0x8000002000 1 0 0 := by
  refine (poll_agrees_iff pairPolled 0x8000002000 1 0 0 _ pair_polls).mpr ⟨?_, ?_⟩
  · exact fun _ _ unread => absurd unread (by decide +kernel)
  · exact fun _ _ => by decide +kernel

def fullPipe : PipeSlot :=
  match allocPipe emptyPool with
  | some (idx, pool) =>
      { pool idx with pipe := ⟨fun _ => 0, ⟨4095, by decide⟩, Pipe.new.tail⟩ }
  | none => PipeSlot.new

/-- The task that has filled the pipe, and asks whether descriptor 3 can be written. -/
def fullPolled : SyscallState where
  kernel :=
    { FailedPipes.runningWith fun fd => if fd.val = 3 then .pipeWrite 0 else .empty with
      pool := fun _ => fullPipe }
  fs := RamFsModel.RamFs.new
  memory := fun address =>
    if address.toNat = 0x8000002000 then 3 else if address.toNat = 0x8000002004 then 4 else 0
  serialByte := none
  keyByte := none
  hasInput := false
  entropy := fun _ => 0
  versionFull := []
  elsewhere := fun _ _ => none
  located := by
    intro task present
    cases present
    decide

/-- It is told that it can, and its next `sys_write` takes nothing. -/
theorem full_pipe_reported_writable :
    (sysPoll fullPolled 0x8000002000 1 0).result = some (.value 1) ∧
      (sysWritePipe fullPolled.kernel 3 [0x41]).2 = 0 ∧
      ¬PollAgrees fullPolled 0x8000002000 1 0 0 := by
  have refused : (sysWritePipe fullPolled.kernel 3 [0x41]).2 = 0 := by decide +kernel
  refine ⟨by decide +kernel, refused, ?_⟩
  intro agrees
  have accepts := (agrees.writing (by decide +kernel)).mp (by decide +kernel)
  have taken := accepts [0x41] (List.cons_ne_nil _ _)
  rw [show (fdAt fullPolled.memory 0x8000002000 0).toNat = 3 by decide +kernel, refused] at taken
  omega

end Ferrugem.PollReadiness
