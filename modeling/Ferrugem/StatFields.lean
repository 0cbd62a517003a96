import Ferrugem.PathSyscalls
import Ferrugem.PollEntries

/-!
# `stat` and `fstat`

`sys_open`, `sys_stat` and `sys_fstat` each have their own list of devices, and the
calls number the devices in their own ways. Both describe what a path opens exactly
if it is `/dev/null`, or no device and still in use.
-/

namespace Ferrugem.StatFields

open Ferrugem.ProcessModel Ferrugem.SchedulerModel Ferrugem.RamFsModel
open Ferrugem.FileSyscalls Ferrugem.SyscallStores Ferrugem.PathSyscalls
open Ferrugem.DirectoryEnumeration (field field_skip field_here length_le_bytes)
open Ferrugem.DescriptorSyscalls (currentFdAlloc currentFdGet)
open Ferrugem.PollEntries (memoryAfter read_stored)

set_option autoImplicit false

structure Fields where
  dev : Nat
  ino : Nat
  mode : Nat
  rdev : Nat
  size : Nat
  deriving DecidableEq

/-- `size_of::<Stat>()`. -/
def statSize : Nat := 144

def Fields.decode (bytes : Bytes) : Fields where
  dev := field bytes 0 8
  ino := field bytes 8 8
  mode := field bytes 24 4
  rdev := field bytes 40 8
  size := field bytes 48 8

/-- What the caller finds in its buffer after a call that returned 0. -/
def filled (memory : UserMemory) (buf : Address) (outcome : Outcome) : Option Fields :=
  if outcome.result = some (.value 0) then
    some (Fields.decode ((memoryAfter memory outcome).read buf statSize))
  else none

/-- `stat` of the path succeeds, and `fstat` of the descriptor fills in the same. -/
def Agree (opened : SyscallState) (pathPtr statBuf fstatBuf : Address) (fd : Nat) : Prop :=
  filled opened.memory statBuf (sysStat opened pathPtr statBuf) ≠ none ∧
    filled opened.memory statBuf (sysStat opened pathPtr statBuf) =
      filled opened.memory fstatBuf (sysFstat opened fd fstatBuf)

def SameObject (state : SyscallState) (pathPtr statBuf fstatBuf : Address) : Prop :=
  ∀ fd : Nat, (sysOpen state pathPtr 0).2.result = some (.value fd) →
    Agree (sysOpen state pathPtr 0).1 pathPtr statBuf fstatBuf fd

def nullPath : Bytes := ascii ['/', 'd', 'e', 'v', '/', 'n', 'u', 'l', 'l']

/-- The path is `/dev/null`, or it is no device and what it comes to is in use. -/
def Described (state : SyscallState) (path : Bytes) : Prop :=
  path = nullPath ∨
    openDevPath path = none ∧
      ∀ idx ∈ state.fs.resolve path state.cwd, (state.fs.inodes idx).used = true

theorem length_stat_bytes (stat : Stat) : stat.bytes.length = statSize := by
  simp [Stat.bytes, length_le_bytes, statSize]

theorem decode_bytes (stat : Stat) : Fields.decode stat.bytes =
    { dev := stat.dev % 256 ^ 8
      ino := stat.ino % 256 ^ 8
      mode := stat.mode % 256 ^ 4
      rdev := stat.rdev % 256 ^ 8
      size := stat.size % 256 ^ 8 } := by
  rw [Fields.decode, Stat.bytes]
  simp only [List.append_assoc]
  rw [Fields.mk.injEq]
  refine ⟨field_here _ _ _, ?_, ?_, ?_, ?_⟩
  · change field _ (8 + 0) 8 = _
    rw [field_skip, field_here]
  · change field _ (8 + (8 + (8 + 0))) 4 = _
    simp only [field_skip, field_here]
  · change field _ (8 + (8 + (8 + (4 + (4 + (4 + (4 + 0))))))) 8 = _
    simp only [field_skip, field_here]
  · change field _ (8 + (8 + (8 + (4 + (4 + (4 + (4 + (8 + 0)))))))) 8 = _
    simp only [field_skip, field_here]

theorem filled_fill_stat (memory : UserMemory) (buf : Address) (stat : Stat) :
    filled memory buf (fillStat buf stat) = some (Fields.decode stat.bytes) := by
  rw [filled, fillStat, returns, if_pos rfl, memoryAfter, List.foldl_cons, List.foldl_nil,
    ← length_stat_bytes stat, read_stored memory buf (by rw [length_stat_bytes]; decide)]

theorem filled_fails (memory : UserMemory) (buf : Address) (errno : Nat) :
    filled memory buf (fails errno) = none := rfl

section

variable {state : SyscallState} {path : Bytes}

structure Opened (state opened : SyscallState) (entry : FdEntry) (fd : Nat) : Prop where
  fs : opened.fs = state.fs
  memory : opened.memory = state.memory
  cwd : opened.cwd = state.cwd
  entry : currentFdGet opened.kernel fd = some entry
  low : 3 ≤ fd
  high : fd < maxFds

theorem cwd_eq {task : Task} (present : state.kernel.currentTask = some task) :
    state.cwd.val = task.cwd := by
  unfold SyscallState.cwd
  split
  · rename_i other same
    rw [present] at same
    cases same
    rfl
  · rename_i absent
    rw [present] at absent
    cases absent

theorem free_fd_regular {table : FdTable} {fd : Fd} (found : FdTable.freeFd table = some fd) :
    3 ≤ fd.val := by
  have member := List.mem_of_find?_eq_some found
  have among : ∀ other ∈ (List.finRange maxFds).drop 3, 3 ≤ other.val := by decide
  exact among fd member

theorem alloc_some {kernel : Kernel} {entry : FdEntry} {fd : Fd}
    (allocated : (currentFdAlloc kernel entry).2 = some fd) :
    ∃ task table, kernel.currentTask = some task ∧
      FdTable.alloc task.fdTable entry = some (fd, table) ∧
      (currentFdAlloc kernel entry).1.currentTask = some { task with fdTable := table } := by
  unfold currentFdAlloc at allocated ⊢
  cases present : kernel.currentTask with
  | none =>
      rw [present] at allocated
      cases allocated
  | some task =>
      rw [present] at allocated
      dsimp only at allocated ⊢
      cases made : FdTable.alloc task.fdTable entry with
      | none =>
          rw [made] at allocated
          cases allocated
      | some found =>
          rw [made] at allocated
          cases allocated
          exact ⟨task, found.2, rfl, made, Function.update_self _ _ _⟩

theorem install_opened {entry : FdEntry} {fd : Nat} (isEntry : entry ≠ .empty)
    (returned : (installEntry state entry).2.result = some (.value fd)) :
    Opened state (installEntry state entry).1 entry fd := by
  have allocated : ∃ found : Fd, (currentFdAlloc state.kernel entry).2 = some found ∧
      found.val = fd := by
    unfold installEntry at returned
    dsimp only at returned
    cases installed : (currentFdAlloc state.kernel entry).2 with
    | none =>
        rw [installed] at returned
        cases returned
    | some found =>
        rw [installed] at returned
        have same : (found.val : Int) = fd := Return.value.inj (Option.some.inj returned)
        exact ⟨found, rfl, Int.ofNat.inj same⟩
  obtain ⟨found, installed, rfl⟩ := allocated
  obtain ⟨task, table, present, made, after⟩ := alloc_some installed
  change (installEntry state entry).1.kernel.currentTask = _ at after
  refine ⟨rfl, rfl, ?_, ?_, ?_, found.isLt⟩
  · apply Fin.ext
    rw [cwd_eq after, cwd_eq present]
  · rw [currentFdGet, after]
    exact Truncation.get_alloc made isEntry
  · obtain ⟨free, chosen, pair⟩ := Option.map_eq_some_iff.mp made
    cases pair
    exact free_fd_regular chosen

theorem install_returns (entry : FdEntry) (room : HasRoom state) :
    ∃ fd : Nat, (installEntry state entry).2.result = some (.value fd) := by
  cases installed : (currentFdAlloc state.kernel entry).2 with
  | none => exact absurd room ((alloc_none_iff entry).mp installed)
  | some fd =>
      refine ⟨fd.val, ?_⟩
      unfold installEntry
      rw [installed]
      rfl

def readEntry (fs : RamFs) (cwd : InodeIndex) (path : Bytes) : Option FdEntry :=
  (openDevPath path).or ((fs.resolve path cwd).map fun idx =>
    if (fs.inodes idx).kind = .dir then .vfsDir idx.val 0 else .vfsFile idx.val 0 false)

theorem open_entry_read (fs : RamFs) (cwd : InodeIndex) :
    openEntry fs cwd path 0 = (fs, readEntry fs cwd path) := by
  unfold openEntry readEntry
  cases openDevPath path with
  | some device => rfl
  | none =>
      simp only [Nat.zero_testBit, Bool.or_self, Bool.false_eq_true, if_false, Bool.and_false,
        Option.none_or]
      unfold RamFs.openCheck openDir
      cases fs.resolve path cwd with
      | none => rfl
      | some idx =>
          rw [Option.bind_some, perm_root rfl]
          cases kind : (fs.inodes idx).kind <;> simp [kind, Option.filter]

theorem sys_open_read {pathPtr : Address} (read : state.memory.readPath pathPtr = some path)
    (isPath : path ≠ []) :
    sysOpen state pathPtr 0 = (readEntry state.fs state.cwd path).elim (state, fails 2)
      (installEntry state) := by
  have present : pathPtr ≠ 0 := by
    rintro rfl
    cases read
  rw [sysOpen, if_neg present, withPath, read]
  dsimp only
  rw [if_neg isPath, operate, openPath, open_entry_read]
  cases readEntry state.fs state.cwd path <;> rfl

def inodeFields (fs : RamFs) (idx : Nat) : Option Fields :=
  if bound : idx < maxInodes then
    if (fs.inodes ⟨idx, bound⟩).used then
      some (Fields.decode (Stat.inode idx (fs.inodes ⟨idx, bound⟩)).bytes)
    else none
  else none

/-- What `sys_stat` describes. -/
def pathFields (fs : RamFs) (cwd : InodeIndex) (path : Bytes) : Option Fields :=
  match devStat path with
  | some stat => some (Fields.decode stat.bytes)
  | none => (fs.resolve path cwd).bind fun idx => inodeFields fs idx.val

/-- What `sys_fstat` describes. -/
def entryFields (fs : RamFs) (fd : Nat) : FdEntry → Option Fields
  | .vfsFile inode _ _ => inodeFields fs inode
  | .vfsDir inode _ => inodeFields fs inode
  | .stdin => some (Fields.decode (Stat.tty fd).bytes)
  | .stdout => some (Fields.decode (Stat.tty fd).bytes)
  | .stderr => some (Fields.decode (Stat.tty fd).bytes)
  | .devNull => some (Fields.decode (Stat.device 3 259).bytes)
  | .devZero => some (Fields.decode (Stat.device 3 261).bytes)
  | .devUrandom => some (Fields.decode (Stat.device 3 265).bytes)
  | _ => none

theorem filled_inode {buf : Address} (pointed : buf ≠ 0) (memory : UserMemory) (idx : Nat) :
    filled memory buf (fillInodeStat state buf idx) = inodeFields state.fs idx := by
  unfold fillInodeStat inodeFields
  rw [if_neg pointed]
  by_cases bound : idx < maxInodes
  · rw [dif_pos bound, dif_pos bound]
    cases (state.fs.inodes ⟨idx, bound⟩).used with
    | true => exact filled_fill_stat memory buf _
    | false => exact filled_fails memory buf 2
  · rw [dif_neg bound, dif_neg bound, filled_fails]

theorem filled_stat {pathPtr buf : Address} (pointed : buf ≠ 0)
    (read : state.memory.readPath pathPtr = some path) (isPath : path ≠ []) :
    filled state.memory buf (sysStat state pathPtr buf) =
      pathFields state.fs state.cwd path := by
  rw [sysStat, if_neg pointed, read]
  dsimp only
  rw [if_neg isPath, statPath, pathFields]
  cases devStat path with
  | some stat => exact filled_fill_stat _ buf stat
  | none =>
      cases state.fs.resolve path state.cwd with
      | none => rfl
      | some idx => exact filled_inode pointed _ idx.val

theorem filled_fstat {fd : Nat} {buf : Address} {entry : FdEntry} (pointed : buf ≠ 0)
    (opened : currentFdGet state.kernel fd = some entry) :
    filled state.memory buf (sysFstat state fd buf) = entryFields state.fs fd entry := by
  rw [sysFstat, if_neg pointed, opened]
  cases entry with
  | vfsFile inode offset writable => exact filled_inode pointed _ inode
  | vfsDir inode pos => exact filled_inode pointed _ inode
  | stdin => exact filled_fill_stat _ buf _
  | stdout => exact filled_fill_stat _ buf _
  | stderr => exact filled_fill_stat _ buf _
  | devNull => exact filled_fill_stat _ buf _
  | devZero => exact filled_fill_stat _ buf _
  | devUrandom => exact filled_fill_stat _ buf _
  | _ => rfl

/-- The devices that can be opened, and what `sys_stat` knows of them. -/
inductive Device : Bytes → FdEntry → Option Stat → Prop where
  | null : Device nullPath .devNull (some (Stat.device 3 259))
  | zero {path : Bytes} (other : path ≠ nullPath) : Device path .devZero (some (Stat.device 5 261))
  | urandom {path : Bytes} (other : path ≠ nullPath) :
      Device path .devUrandom (some (Stat.device 9 265))
  | hwrng {path : Bytes} (other : path ≠ nullPath) : Device path .devUrandom none
  | tty {path : Bytes} (other : path ≠ nullPath) : Device path .stdout (some (Stat.tty 0))

theorem device_cases {device : FdEntry} (opens : openDevPath path = some device) :
    Device path device (devStat path) := by
  unfold openDevPath at opens
  split_ifs at opens with isNull isZero isRandom isTty
  · cases opens
    rw [isNull]
    exact .null
  · cases opens
    rw [isZero]
    exact .zero (by decide)
  · cases opens
    rcases isRandom with rfl | rfl | rfl
    · exact .urandom (by decide)
    · exact .urandom (by decide)
    · exact .hwrng (by decide)
  · cases opens
    rcases isTty with rfl | rfl
    · exact .tty (by decide)
    · exact .tty (by decide)

theorem read_entry_present {fs : RamFs} {cwd : InodeIndex} {entry : FdEntry}
    (opens : readEntry fs cwd path = some entry) : entry ≠ .empty := by
  rintro rfl
  unfold readEntry at opens
  cases device : openDevPath path with
  | some other =>
      rw [device] at opens
      cases opens
      have isDevice := device_cases device
      generalize devStat path = stat at isDevice
      cases isDevice
  | none =>
      rw [device, Option.none_or] at opens
      obtain ⟨idx, -, shown⟩ := Option.map_eq_some_iff.mp opens
      split_ifs at shown

theorem dev_stat_none (regular : openDevPath path = none) : devStat path = none := by
  unfold openDevPath at regular
  split_ifs at regular with isNull isZero isRandom isTty
  unfold devStat
  rw [if_neg isNull, if_neg isZero, if_neg, if_neg isTty]
  rintro (urandom | random)
  · exact isRandom (.inl urandom)
  · exact isRandom (.inr (.inl random))

theorem inode_fields_some_iff (fs : RamFs) (idx : InodeIndex) :
    inodeFields fs idx.val ≠ none ↔ (fs.inodes idx).used = true := by
  rw [inodeFields, dif_pos idx.isLt]
  cases (fs.inodes idx).used <;> simp

theorem inode_fields_rdev {fs : RamFs} {idx : Nat} {fields : Fields}
    (described : inodeFields fs idx = some fields) : fields.rdev = 0 := by
  unfold inodeFields at described
  split_ifs at described
  rw [← Option.some.inj described, decode_bytes]
  exact Nat.zero_mod _

theorem device_agrees_iff {device : FdEntry} {stat : Option Stat} {fd : Nat} (fs : RamFs)
    (cwd : InodeIndex) (known : devStat path = stat) (isDevice : Device path device stat)
    (low : 3 ≤ fd) (high : fd < maxFds) :
    pathFields fs cwd path ≠ none ∧ pathFields fs cwd path = entryFields fs fd device ↔
      path = nullPath := by
  rw [pathFields, known]
  cases isDevice with
  | null => exact iff_of_true ⟨nofun, rfl⟩ rfl
  | zero other =>
      refine iff_of_false (fun both => ?_) other
      have ino := congrArg Fields.ino (Option.some.inj both.2)
      rw [decode_bytes, decode_bytes] at ino
      exact absurd ino (by decide)
  | urandom other =>
      refine iff_of_false (fun both => ?_) other
      have ino := congrArg Fields.ino (Option.some.inj both.2)
      rw [decode_bytes, decode_bytes] at ino
      exact absurd ino (by decide)
  | hwrng other =>
      refine iff_of_false (fun both => ?_) other
      obtain ⟨described, same⟩ := both
      dsimp only at described same
      cases found : fs.resolve path cwd with
      | none => exact described (by rw [found]; rfl)
      | some idx =>
          rw [found] at same
          have rdev := inode_fields_rdev same
          rw [decode_bytes] at rdev
          exact absurd rdev (by decide)
  | tty other =>
      refine iff_of_false (fun both => ?_) other
      have ino := congrArg Fields.ino (Option.some.inj both.2)
      rw [decode_bytes, decode_bytes] at ino
      unfold maxFds at high
      dsimp only [Stat.tty] at ino
      omega

theorem agrees_iff {entry : FdEntry} {fd : Nat}
    (opens : readEntry state.fs state.cwd path = some entry) (low : 3 ≤ fd) (high : fd < maxFds) :
    pathFields state.fs state.cwd path ≠ none ∧
        pathFields state.fs state.cwd path = entryFields state.fs fd entry ↔
      Described state path := by
  unfold readEntry at opens
  unfold Described
  cases regular : openDevPath path with
  | some device =>
      rw [regular, Option.some_or, Option.some.injEq] at opens
      subst opens
      rw [device_agrees_iff _ _ rfl (device_cases regular) low high]
      simp
  | none =>
      have isPlain : path ≠ nullPath := by
        rintro rfl
        cases regular
      rw [regular, Option.none_or] at opens
      obtain ⟨idx, found, shown⟩ := Option.map_eq_some_iff.mp opens
      have same : entryFields state.fs fd entry = inodeFields state.fs idx.val := by
        rw [← shown]
        split <;> rfl
      rw [pathFields, dev_stat_none regular, same, found, or_iff_right isPlain]
      simp [inode_fields_some_iff]

end

theorem sys_open_unusable {state : SyscallState} {pathPtr : Address}
    (unusable : ∀ path, state.memory.readPath pathPtr = some path → path = []) :
    ∃ errno, sysOpen state pathPtr 0 = (state, fails errno) := by
  unfold sysOpen
  split
  · exact ⟨14, rfl⟩
  · exact ⟨2, with_path_fails unusable⟩

theorem opened_agrees_iff {state : SyscallState} {pathPtr statBuf fstatBuf : Address} {path : Bytes}
    {entry : FdEntry} {fd : Nat} (read : state.memory.readPath pathPtr = some path)
    (isPath : path ≠ []) (statPointed : statBuf ≠ 0) (fstatPointed : fstatBuf ≠ 0)
    (opens : readEntry state.fs state.cwd path = some entry)
    (returned : (installEntry state entry).2.result = some (.value fd)) :
    Agree (installEntry state entry).1 pathPtr statBuf fstatBuf fd ↔ Described state path := by
  have opened := install_opened (read_entry_present opens) returned
  rw [Agree, filled_stat statPointed (opened.memory ▸ read) isPath,
    filled_fstat fstatPointed opened.entry, opened.fs, opened.cwd]
  exact agrees_iff opens opened.low opened.high

/-- For any state, path and buffers: `stat` and `fstat` fill in the same for what can be
opened exactly if it is `/dev/null`, or no device and in use. -/
theorem same_object_iff (state : SyscallState) (pathPtr statBuf fstatBuf : Address)
    (statPointed : statBuf ≠ 0) (fstatPointed : fstatBuf ≠ 0) :
    SameObject state pathPtr statBuf fstatBuf ↔
      ∀ path ∈ state.memory.readPath pathPtr, path ≠ [] → HasRoom state →
        (readEntry state.fs state.cwd path).isSome = true → Described state path := by
  unfold SameObject
  by_cases usable : ∃ path, state.memory.readPath pathPtr = some path ∧ path ≠ []
  · obtain ⟨path, read, isPath⟩ := usable
    simp only [read, Option.mem_some_iff, forall_eq', isPath, not_false_iff, true_imp_iff, ne_eq]
    rw [sys_open_read read isPath]
    cases opens : readEntry state.fs state.cwd path with
    | none => exact iff_of_true nofun nofun
    | some entry =>
        dsimp only [Option.elim_some]
        constructor
        · intro same room _
          obtain ⟨fd, returned⟩ := install_returns entry room
          exact (opened_agrees_iff read isPath statPointed fstatPointed opens returned).mp
            (same fd returned)
        · intro covered fd returned
          refine (opened_agrees_iff read isPath statPointed fstatPointed opens returned).mpr
            (covered ?_ rfl)
          by_contra full
          obtain ⟨errno, refused⟩ := (install_refuses_iff entry).mpr full
          rw [returned] at refused
          cases refused
  · simp only [not_exists, not_and, not_not] at usable
    obtain ⟨errno, failed⟩ := sys_open_unusable usable
    rw [failed]
    exact iff_of_true nofun fun path read isPath => absurd (usable path read) isPath

/-- `/etc/motd` has one description. -/
theorem motd_described_alike :
    SameObject (pathCaller InodeWrites.motdPath) 0x9000 0x8000 0x8100 := by
  refine (same_object_iff _ _ _ _ (by decide) (by decide)).mpr ?_
  intro path read _ _ _
  have same : (pathCaller InodeWrites.motdPath).memory.readPath 0x9000 =
      some InodeWrites.motdPath := by
    decide +kernel
  rw [same, Option.mem_some_iff] at read
  subst read
  exact .inr ⟨by decide +kernel, by decide +kernel⟩

def zeroPath : Bytes := ascii ['/', 'd', 'e', 'v', '/', 'z', 'e', 'r', 'o']

/-- `/dev/zero` has inode 5 by its path and 3 by its descriptor. -/
theorem zero_described_twice :
    let opened := sysOpen (pathCaller zeroPath) 0x9000 0
    opened.2.result = some (.value 3) ∧
      (filled opened.1.memory 0x8000 (sysStat opened.1 0x9000 0x8000)).map Fields.ino = some 5 ∧
      (filled opened.1.memory 0x8100 (sysFstat opened.1 3 0x8100)).map Fields.ino = some 3 ∧
      ¬SameObject (pathCaller zeroPath) 0x9000 0x8000 0x8100 := by
  intro opened
  have opens : opened.2.result = some (.value 3) := by decide +kernel
  have byPath : (filled opened.1.memory 0x8000 (sysStat opened.1 0x9000 0x8000)).map Fields.ino =
      some 5 := by
    decide +kernel
  have byFd : (filled opened.1.memory 0x8100 (sysFstat opened.1 3 0x8100)).map Fields.ino =
      some 3 := by
    decide +kernel
  refine ⟨opens, byPath, byFd, fun same => ?_⟩
  have alike := congrArg (Option.map Fields.ino) (same 3 opens).2
  rw [byPath, byFd] at alike
  cases alike

end Ferrugem.StatFields
