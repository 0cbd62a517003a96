import Ferrugem.SyscallStores

/-!
# The entries of a poll

`sys_poll` goes over its array of `PollFd`, sets `revents` of each entry and counts in
`ready`. A socket pair that is ready both ways is counted twice, and the counter is an
`i32`.
-/

namespace Ferrugem.PollEntries

open Ferrugem.PipePoolModel Ferrugem.ProcessModel Ferrugem.SchedulerModel
open Ferrugem.DirectoryEnumeration Ferrugem.SyscallStores
open Ferrugem.DescriptorSyscalls (currentFdGet)

set_option autoImplicit false

/-- The address of the byte `offset` of the array. -/
def byteAt (pfd : Address) (offset : Nat) : Address := pfd + BitVec.ofNat 64 offset

def fdAt (memory : UserMemory) (pfd : Address) (k : Nat) : Int :=
  (BitVec.ofNat 32 (fromLe (memory.read (byteAt pfd (8 * k)) 4))).toInt

def eventsAt (memory : UserMemory) (pfd : Address) (k : Nat) : BitVec 16 :=
  BitVec.ofNat 16 (fromLe (memory.read (byteAt pfd (8 * k + 4)) 2))

def reventsAt (memory : UserMemory) (pfd : Address) (k : Nat) : BitVec 16 :=
  BitVec.ofNat 16 (fromLe (memory.read (byteAt pfd (8 * k + 6)) 2))

def memoryAfter (memory : UserMemory) (outcome : Outcome) : UserMemory :=
  outcome.stores.foldl UserMemory.apply memory

/-- The entries that the call leaves with a `revents` that is not zero. -/
def reported (state : SyscallState) (fdsPtr : Address) (nfds : Nat) (timeoutMs : Int) : Nat :=
  (List.range nfds).countP fun k =>
    reventsAt (memoryAfter state.memory (sysPoll state fdsPtr nfds timeoutMs)) fdsPtr k != 0

/-- A result that is not negative is the number of these entries. -/
def CountsEntries (state : SyscallState) (fdsPtr : Address) (nfds : Nat) (timeoutMs : Int) : Prop :=
  ∀ value, (sysPoll state fdsPtr nfds timeoutMs).result = some (.value value) → 0 ≤ value →
    value = reported state fdsPtr nfds timeoutMs ∧ value ≤ nfds

/-- The reading side of a pipe has something, or will never have. -/
def readingReady (pool : Pool) (idx : Nat) (events : BitVec 16) : Bool :=
  wants events pollIn && (pipeHasData pool idx || !pipeWriteOpen pool idx)

/-- The entries about which there is something to report. -/
def hasReport (state : SyscallState) (fd : Int) (events : BitVec 16) : Bool :=
  if fd < 0 then false
  else
    match currentFdGet state.kernel fd.toNat with
    | none => true
    | some .stdin => wants events pollIn && state.hasInput
    | some .stdout => wants events pollOut
    | some .stderr => wants events pollOut
    | some .devNull => wants events pollOut
    | some .devZero => wants events pollOut
    | some .devUrandom => wants events pollOut
    | some (.vfsFile _ _ _) => wants events (pollIn ||| pollOut)
    | some (.pipeRead idx) => readingReady state.kernel.pool idx events
    | some (.pipeWrite _) => wants events pollOut
    | some (.socketPair readIdx _) =>
        readingReady state.kernel.pool readIdx events || wants events pollOut
    | some (.vfsDir _ _) => true
    | some .empty => true

/-- A socket pair with something to report for both of its sides. -/
def readyBothWays (state : SyscallState) (fd : Int) (events : BitVec 16) : Bool :=
  if fd < 0 then false
  else
    match currentFdGet state.kernel fd.toNat with
    | some (.socketPair readIdx _) =>
        readingReady state.kernel.pool readIdx events && wants events pollOut
    | _ => false

/-- How many entries have something to report, before the call. -/
def reportable (state : SyscallState) (fdsPtr : Address) (nfds : Nat) : Nat :=
  (List.range nfds).countP fun k =>
    hasReport state (fdAt state.memory fdsPtr k) (eventsAt state.memory fdsPtr k)

/-- How many of them are socket pairs that are ready both ways. -/
def twofold (state : SyscallState) (fdsPtr : Address) (nfds : Nat) : Nat :=
  (List.range nfds).countP fun k =>
    readyBothWays state (fdAt state.memory fdsPtr k) (eventsAt state.memory fdsPtr k)

section

variable {pool : Pool} {idx : Nat} {events : BitVec 16}

theorem poll_reading_answer :
    ((pollReading pool idx events).1 ≠ 0 ↔ readingReady pool idx events = true) ∧
      (pollReading pool idx events).2 = (readingReady pool idx events).toNat := by
  unfold pollReading readingReady
  cases wants events pollIn <;> cases pipeHasData pool idx <;> cases pipeWriteOpen pool idx <;>
    decide

theorem poll_writing_answer :
    ((pollWriting pool idx events).1 ≠ 0 ↔ wants events pollOut = true) ∧
      (pollWriting pool idx events).2 = (wants events pollOut).toNat := by
  unfold pollWriting
  cases wants events pollOut <;> cases pipeReadOpen pool idx <;> decide

theorem or_ne_zero_iff (left right : BitVec 16) : left ||| right ≠ 0 ↔ left ≠ 0 ∨ right ≠ 0 :=
  BitVec.or_eq_zero_iff.not.trans not_and_or

theorem wants_iff (flag : BitVec 16) : wants events flag = true ↔ events &&& flag ≠ 0 := by
  unfold wants
  exact bne_iff_ne

theorem poll_entry_answer (state : SyscallState) (fd : Int) (events : BitVec 16) :
    ((pollEntry state fd events).1 ≠ 0 ↔ hasReport state fd events = true) ∧
      (pollEntry state fd events).2 =
        (hasReport state fd events).toNat + (readyBothWays state fd events).toNat := by
  have single : ∀ (ready : Bool) {flag : BitVec 16}, flag ≠ 0 →
      ((if ready = true then (flag, 1) else (0, 0) : BitVec 16 × Nat).1 ≠ 0 ↔ ready = true) ∧
        (if ready = true then (flag, 1) else (0, 0) : BitVec 16 × Nat).2 =
          ready.toNat + false.toNat := by
    intro ready flag nonzero
    cases ready with
    | true => exact ⟨iff_of_true nonzero rfl, rfl⟩
    | false => exact ⟨iff_of_false (fun other => other rfl) nofun, rfl⟩
  have invalid : (((pollNval, 1) : BitVec 16 × Nat).1 ≠ 0 ↔ true = true) ∧
      ((pollNval, 1) : BitVec 16 × Nat).2 = true.toNat + false.toNat := by
    decide
  unfold pollEntry hasReport readyBothWays
  by_cases negative : fd < 0
  · rw [if_pos negative, if_pos negative, if_pos negative]
    decide
  · rw [if_neg negative, if_neg negative, if_neg negative]
    cases currentFdGet state.kernel fd.toNat with
    | none => exact invalid
    | some entry =>
        cases entry with
        | stdin => exact single _ (by decide)
        | stdout => exact single _ (by decide)
        | stderr => exact single _ (by decide)
        | devNull => exact single _ (by decide)
        | devZero => exact single _ (by decide)
        | devUrandom => exact single _ (by decide)
        | vfsFile inode offset writable =>
            dsimp only
            by_cases wanted : events &&& (pollIn ||| pollOut) ≠ 0
            · rw [if_pos wanted, (wants_iff _).mpr wanted]
              exact ⟨iff_of_true wanted rfl, rfl⟩
            · rw [if_neg wanted, Bool.eq_false_iff.mpr ((wants_iff _).not.mpr wanted)]
              exact ⟨iff_of_false (fun other => other rfl) nofun, rfl⟩
        | pipeRead idx => exact poll_reading_answer
        | pipeWrite idx => exact poll_writing_answer
        | socketPair readIdx writeIdx =>
            dsimp only
            obtain ⟨reads, readCount⟩ := @poll_reading_answer state.kernel.pool readIdx events
            obtain ⟨writes, writeCount⟩ := @poll_writing_answer state.kernel.pool writeIdx events
            rw [or_ne_zero_iff, reads, writes, readCount, writeCount, Bool.or_eq_true]
            refine ⟨Iff.rfl, ?_⟩
            cases readingReady state.kernel.pool readIdx events <;>
              cases wants events pollOut <;> rfl
        | vfsDir inode pos => exact invalid
        | empty => exact invalid

end

section

theorem byte_at_next (pfd : Address) (offset : Nat) :
    byteAt (pfd + 8) offset = byteAt pfd (offset + 8) := by
  unfold byteAt
  bv_omega

/-- A store of `revents` leaves the other bytes alone. -/
theorem apply_elsewhere (memory : UserMemory) (pfd : Address) {bytes : RamFsModel.Bytes}
    {offset : Nat} (two : bytes.length = 2) (bound : offset < 2 ^ 64)
    (outside : offset < 6 ∨ 8 ≤ offset) :
    memory.apply ⟨pfd + 6, bytes⟩ (byteAt pfd offset) = memory (byteAt pfd offset) := by
  have far : ¬(byteAt pfd offset - (pfd + 6)).toNat < 2 := by
    unfold byteAt
    bv_omega
  unfold UserMemory.apply
  dsimp only
  rw [two, if_neg far]

theorem read_congr {first second : UserMemory} {start : Address} {length : Nat}
    (same : ∀ i < length, first (start + BitVec.ofNat 64 i) = second (start + BitVec.ofNat 64 i)) :
    first.read start length = second.read start length := by
  unfold UserMemory.read
  exact List.map_congr_left fun i inside => same i (List.mem_range.mp inside)

theorem byte_at_add (pfd : Address) (offset i : Nat) :
    byteAt pfd offset + BitVec.ofNat 64 i = byteAt pfd (offset + i) := by
  unfold byteAt
  bv_omega

theorem later_entry (memory : UserMemory) (pfd : Address) {bytes : RamFsModel.Bytes} {k : Nat}
    (two : bytes.length = 2) (fits : 8 * (k + 2) ≤ 2 ^ 64) :
    fdAt (memory.apply ⟨pfd + 6, bytes⟩) (pfd + 8) k = fdAt memory pfd (k + 1) ∧
      eventsAt (memory.apply ⟨pfd + 6, bytes⟩) (pfd + 8) k = eventsAt memory pfd (k + 1) := by
  have same : ∀ offset length, 8 ≤ offset → offset + length ≤ 8 * (k + 2) →
      (memory.apply ⟨pfd + 6, bytes⟩).read (byteAt pfd offset) length =
        memory.read (byteAt pfd offset) length := by
    intro offset length behind inside
    apply read_congr
    intro i near
    rw [byte_at_add]
    exact apply_elsewhere memory pfd two (by omega) (.inr (by omega))
  unfold fdAt eventsAt
  rw [byte_at_next, byte_at_next, same (8 * k + 8) 4 (by omega) (by omega),
    same (8 * k + 4 + 8) 2 (by omega) (by omega), show 8 * (k + 1) = 8 * k + 8 by omega,
    show 8 * k + 8 + 4 = 8 * k + 4 + 8 by omega]
  exact ⟨rfl, rfl⟩

theorem read_stored (memory : UserMemory) (start : Address) {bytes : RamFsModel.Bytes}
    (small : bytes.length ≤ 2 ^ 64) :
    (memory.apply ⟨start, bytes⟩).read start bytes.length = bytes := by
  unfold UserMemory.read
  apply List.ext_getElem
  · rw [List.length_map, List.length_range]
  · intro i left right
    have offset : (start + BitVec.ofNat 64 i - start).toNat = i := by bv_omega
    rw [List.getElem_map, List.getElem_range]
    unfold UserMemory.apply
    dsimp only
    rw [offset, if_pos right, List.getD_eq_getElem?_getD, List.getElem?_eq_getElem right,
      Option.getD_some]

variable (state : SyscallState)

theorem loop_elsewhere (count : Nat) (pfd : Address) (memory : UserMemory) {offset : Nat}
    (behind : 8 * count ≤ offset) (bound : offset < 2 ^ 64) :
    (pollLoop state count pfd memory).1.foldl UserMemory.apply memory (byteAt pfd offset) =
      memory (byteAt pfd offset) := by
  induction count generalizing pfd memory offset with
  | zero => rfl
  | succ count ih =>
      unfold pollLoop
      dsimp only
      rw [List.foldl_cons, show offset = offset - 8 + 8 by omega, ← byte_at_next,
        ih (pfd + 8) _ (by omega) (by omega), byte_at_next]
      exact apply_elsewhere memory pfd (length_le_bytes 2 _) (by omega) (.inr (by omega))

def answerAt (memory : UserMemory) (pfd : Address) (k : Nat) : BitVec 16 × Nat :=
  pollEntry state (fdAt memory pfd k) (eventsAt memory pfd k)

theorem first_answer (memory : UserMemory) (pfd : Address) :
    pollEntry state (BitVec.ofNat 32 (fromLe (memory.read pfd 4))).toInt
        (BitVec.ofNat 16 (fromLe (memory.read (pfd + 4) 2))) = answerAt state memory pfd 0 := by
  unfold answerAt fdAt eventsAt byteAt
  rw [Nat.mul_zero, Nat.zero_add, BitVec.ofNat_eq_ofNat, BitVec.add_zero]

/-- `revents` holds the answer once the loop is over. -/
theorem revents_after (count : Nat) (pfd : Address) (memory : UserMemory)
    (fits : 8 * count ≤ 2 ^ 64) {k : Nat} (inside : k < count) :
    reventsAt ((pollLoop state count pfd memory).1.foldl UserMemory.apply memory) pfd k =
      (answerAt state memory pfd k).1 := by
  induction count generalizing pfd memory k with
  | zero => omega
  | succ count ih =>
      unfold pollLoop
      dsimp only
      rw [List.foldl_cons, first_answer]
      generalize stored : leBytes 2 (answerAt state memory pfd 0).1.toNat = bytes
      have two : bytes.length = 2 := by rw [← stored, length_le_bytes]
      cases k with
      | zero =>
          have kept : ((pollLoop state count (pfd + 8) (memory.apply ⟨pfd + 6, bytes⟩)).1.foldl
              UserMemory.apply (memory.apply ⟨pfd + 6, bytes⟩)).read (byteAt pfd 6) 2 =
                (memory.apply ⟨pfd + 6, bytes⟩).read (byteAt pfd 6) 2 := by
            apply read_congr
            intro i near
            have before : byteAt pfd 6 + BitVec.ofNat 64 i =
                byteAt (pfd + 8) (2 ^ 64 - 2 + i) := by
              unfold byteAt
              bv_omega
            rw [before]
            exact loop_elsewhere state count _ _ (by omega) (by omega)
          have back := read_stored memory (pfd + 6) (by omega : bytes.length ≤ 2 ^ 64)
          rw [two] at back
          unfold reventsAt
          rw [kept, show byteAt pfd (8 * 0 + 6) = pfd + 6 from rfl, back, ← stored, from_le_bytes]
          apply BitVec.eq_of_toNat_eq
          rw [BitVec.toNat_ofNat]
          omega
      | succ k =>
          have later := ih (pfd + 8) (memory.apply ⟨pfd + 6, bytes⟩) (by omega)
            (Nat.lt_of_succ_lt_succ inside)
          obtain ⟨sameFd, sameEvents⟩ := @later_entry memory pfd bytes k two (by omega)
          unfold answerAt at later ⊢
          rw [sameFd, sameEvents] at later
          rw [← later]
          unfold reventsAt
          rw [byte_at_next, show 8 * (k + 1) + 6 = 8 * k + 6 + 8 by omega]

theorem loop_counts (count : Nat) (pfd : Address) (memory : UserMemory)
    (fits : 8 * count ≤ 2 ^ 64) :
    (pollLoop state count pfd memory).2 =
      ((List.range count).countP fun k =>
          hasReport state (fdAt memory pfd k) (eventsAt memory pfd k)) +
        (List.range count).countP fun k =>
          readyBothWays state (fdAt memory pfd k) (eventsAt memory pfd k) := by
  induction count generalizing pfd memory with
  | zero => rfl
  | succ count ih =>
      unfold pollLoop
      dsimp only
      rw [ih _ _ (by omega), first_answer, List.range_succ_eq_map, List.countP_cons,
        List.countP_cons, List.countP_map, List.countP_map]
      generalize stored : leBytes 2 (answerAt state memory pfd 0).1.toNat = bytes
      have two : bytes.length = 2 := by rw [← stored, length_le_bytes]
      have later : ∀ ready : Int → BitVec 16 → Bool,
          ((List.range count).countP fun k =>
              ready (fdAt (memory.apply ⟨pfd + 6, bytes⟩) (pfd + 8) k)
                (eventsAt (memory.apply ⟨pfd + 6, bytes⟩) (pfd + 8) k)) =
            (List.range count).countP
              ((fun k => ready (fdAt memory pfd k) (eventsAt memory pfd k)) ∘ Nat.succ) := by
        intro ready
        apply List.countP_congr
        intro k inside
        rw [List.mem_range] at inside
        obtain ⟨sameFd, sameEvents⟩ := @later_entry memory pfd bytes k two (by omega)
        rw [sameFd, sameEvents]
        rfl
      have first := (poll_entry_answer state (fdAt memory pfd 0) (eventsAt memory pfd 0)).2
      unfold answerAt
      rw [first, later, later]
      cases hasReport state (fdAt memory pfd 0) (eventsAt memory pfd 0) <;>
        cases readyBothWays state (fdAt memory pfd 0) (eventsAt memory pfd 0) <;>
        simp <;> omega

end

section

variable {state : SyscallState} {fdsPtr : Address} {nfds : Nat} {timeoutMs : Int}

theorem twofold_le : twofold state fdsPtr nfds ≤ reportable state fdsPtr nfds := by
  apply List.countP_mono_left
  intro k _ both
  unfold readyBothWays at both
  unfold hasReport
  split at both
  · cases both
  · rename_i notNegative
    rw [if_neg notNegative]
    split at both
    · rename_i readIdx writeIdx found
      rw [found]
      dsimp only
      rw [(Bool.and_eq_true_iff.mp both).1, Bool.true_or]
    · cases both

theorem revents_reported (fits : 8 * nfds ≤ 2 ^ 64) (pointed : fdsPtr ≠ 0) {k : Nat}
    (inside : k < nfds) :
    reventsAt (memoryAfter state.memory (sysPoll state fdsPtr nfds timeoutMs)) fdsPtr k =
      (pollEntry state (fdAt state.memory fdsPtr k) (eventsAt state.memory fdsPtr k)).1 := by
  have stores : (sysPoll state fdsPtr nfds timeoutMs).stores =
      (pollLoop state nfds fdsPtr state.memory).1 := by
    unfold sysPoll
    rw [if_neg (by omega), if_neg pointed]
    rfl
  unfold memoryAfter
  rw [stores]
  exact revents_after state nfds fdsPtr state.memory fits inside

theorem reported_eq (fits : 8 * nfds ≤ 2 ^ 64) (pointed : fdsPtr ≠ 0) :
    reported state fdsPtr nfds timeoutMs = reportable state fdsPtr nfds := by
  apply List.countP_congr
  intro k inside
  rw [revents_reported fits pointed (List.mem_range.mp inside), bne_iff_ne]
  exact (poll_entry_answer _ _ _).1

theorem reported_le : reported state fdsPtr nfds timeoutMs ≤ nfds :=
  List.countP_le_length.trans_eq List.length_range

end

/-- For every state and every array that fits into the address space. -/
theorem counts_entries_iff (state : SyscallState) (fdsPtr : Address) (nfds : Nat) (timeoutMs : Int)
    (fits : 8 * nfds ≤ 2 ^ 64) :
    CountsEntries state fdsPtr nfds timeoutMs ↔
      fdsPtr = 0 ∨
        twofold state fdsPtr nfds = 0 ∧ reportable state fdsPtr nfds < 2 ^ 31 ∨
        timeoutMs = 0 ∧
          2 ^ 31 ≤ (reportable state fdsPtr nfds + twofold state fdsPtr nfds) % 2 ^ 32 := by
  have noMore := @twofold_le state fdsPtr nfds
  have within := @reported_le state fdsPtr nfds timeoutMs
  by_cases none : nfds = 0
  · subst none
    refine iff_of_true ?_ (.inr (.inl ⟨rfl, Nat.two_pow_pos 31⟩))
    intro value returned _
    cases returned
    exact ⟨rfl, le_rfl⟩
  by_cases pointed : fdsPtr = 0
  · refine iff_of_true ?_ (.inl pointed)
    intro value returned
    unfold sysPoll at returned
    rw [if_neg none, if_pos pointed] at returned
    cases returned
  rw [or_iff_right pointed]
  have counted := loop_counts state nfds fdsPtr state.memory fits
  change _ = reportable state fdsPtr nfds + twofold state fdsPtr nfds at counted
  have same := @reported_eq state fdsPtr nfds timeoutMs fits pointed
  rw [same] at within
  unfold CountsEntries
  rw [same]
  unfold sysPoll
  rw [if_neg none, if_neg pointed]
  dsimp only [returns]
  rw [counted, BitVec.toInt_eq_toNat_cond, BitVec.toNat_ofNat]
  simp only [Option.some.injEq, Return.value.injEq, forall_eq']
  generalize reportable state fdsPtr nfds = entries at *
  generalize twofold state fdsPtr nfds = twice at *
  by_cases immediate : timeoutMs = 0
  · rw [if_pos (.inr immediate)]
    omega
  · split_ifs <;> omega

/-- A task with a socket pair behind its descriptors 3 and 4, which has sent itself a
byte through the second. -/
def pairOpened : Kernel :=
  (DescriptorSyscalls.sysWritePipe
    (DescriptorSyscalls.sysSocketpair (FailedPipes.runningWith fun _ => .empty)
      0x8000001000).1 4
    [0x41]).1

/-- It asks whether descriptor 3 can be read and written. -/
def pairPolled : SyscallState where
  kernel := pairOpened
  fs := RamFsModel.RamFs.new
  memory := fun address =>
    if address.toNat = 0x8000002000 then 3 else if address.toNat = 0x8000002004 then 5 else 0
  serialByte := none
  keyByte := none
  hasInput := false
  entropy := fun _ => 0
  versionFull := []
  elsewhere := fun _ _ => none
  located := by
    intro task present
    have inRoot :
        pairOpened.currentTask.all (fun task => decide (task.cwd < RamFsModel.maxInodes)) =
          true := by
      decide +kernel
    rw [present] at inRoot
    rw [Option.all_some] at inRoot
    exact of_decide_eq_true inRoot

/-- One entry, and two are reported. -/
theorem socket_pair_counted_twice :
    (sysPoll pairPolled 0x8000002000 1 0).result = some (.value 2) ∧
      reported pairPolled 0x8000002000 1 0 = 1 ∧
      ¬CountsEntries pairPolled 0x8000002000 1 0 := by
  have twice : (sysPoll pairPolled 0x8000002000 1 0).result = some (.value 2) := by
    decide +kernel
  refine ⟨twice, by decide +kernel, ?_⟩
  intro counts
  have within := (counts 2 twice (by decide)).2
  omega

/-- The byte alone is counted once. -/
theorem byte_counted_once :
    CountsEntries { pairPolled with memory := fun address =>
      if address.toNat = 0x8000002000 then 3 else if address.toNat = 0x8000002004 then 1 else 0 }
      0x8000002000 1 0 := by
  refine (counts_entries_iff _ _ _ _ (by decide)).mpr (.inr (.inl ?_))
  exact ⟨by decide +kernel, by decide +kernel⟩

end Ferrugem.PollEntries
