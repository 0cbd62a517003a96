import Ferrugem.AddressSpaceModel
import Ferrugem.ByteRings
import Ferrugem.SyscallStores

/-!
# Pointers of the caller

No handler of `syscall::dispatch` looks at where a pointer points, except that it
is not null. A call therefore stays in the user's part of the address space if the
buffers it is given do, or if it is refused for another reason before it stores.
-/

namespace Ferrugem.UserPointers

open Ferrugem.PipePoolModel Ferrugem.ProcessModel Ferrugem.SchedulerModel
open Ferrugem.RamFsModel Ferrugem.DirectoryEnumeration Ferrugem.FailedPipes
open Ferrugem.SyscallStores Ferrugem.PagingModel
open Ferrugem.DescriptorSyscalls (currentFdGet currentFdAlloc)

set_option autoImplicit false

def InUser (span : Span) : Prop := ∀ address, span.Has address → userBaseVa ≤ address.toNat

/-- The buffers that the arguments name for the call to fill. A null pointer stands
for no buffer where the interface allows it. -/
def outputs (nr : Nat) (args : Arguments) : List Span :=
  match nr with
  | nrRead => [⟨args.a1, args.a2.toNat⟩]
  | nrPoll => [⟨args.a0, 8 * args.a1.toNat⟩]
  | nrRtSigaction => if args.a2 = 0 then [] else [⟨args.a2, 24 + min args.a3.toNat 128⟩]
  | nrRtSigprocmask => if args.a2 = 0 then [] else [⟨args.a2, min args.a3.toNat 128⟩]
  | nrArchPrctl => if args.a0.toNat = archGetFs then [⟨args.a1, 8⟩] else []
  | nrSigaltstack => if args.a1 = 0 then [] else [⟨args.a1, 24⟩]
  | nrGetrandom => [⟨args.a0, args.a1.toNat⟩]
  | nrNewfstatat => [⟨args.a2, 144⟩]
  | nrStat => [⟨args.a1, 144⟩]
  | nrFstat => [⟨args.a1, 144⟩]
  | nrLstat => [⟨args.a1, 144⟩]
  | nrIoctl => if args.a1.toNat = tiocgwinsz then [⟨args.a2, 8⟩] else []
  | nrPipe => [⟨args.a0, 8⟩]
  | nrPipe2 => [⟨args.a0, 8⟩]
  | nrSocketpair => [⟨args.a3, 8⟩]
  | nrRecvfrom => [⟨args.a1, args.a2.toNat⟩]
  | nrGetcwd => [⟨args.a0, args.a1.toNat⟩]
  | nrWait4 => if args.a1 = 0 then [] else [⟨args.a1, 4⟩]
  | nrUname => [⟨args.a0, 325⟩]
  | nrClockGettime => [⟨args.a1, 16⟩]
  | nrGetdents64 => [⟨args.a1, args.a2.toNat⟩]
  | _ => []

/-- Every byte is stored in the user's part, and a buffer that leaves it is an
error. -/
structure KeepsToUser (buffers : List Span) (outcome : Outcome) : Prop where
  stored : ∀ store ∈ outcome.stores, InUser store.span
  reported : (∃ buffer ∈ buffers, ¬InUser buffer) → ∃ errno, outcome.result = some (.error errno)

def readable : FdEntry → Bool
  | .stdin => true
  | .vfsFile _ _ _ => true
  | .pipeRead _ => true
  | .socketPair _ _ => true
  | .devNull => true
  | .devZero => true
  | .devUrandom => true
  | _ => false

def usedInode (fs : RamFs) (idx : Nat) : Bool :=
  if bound : idx < maxInodes then (fs.inodes ⟨idx, bound⟩).used else false

def statable (fs : RamFs) : FdEntry → Bool
  | .vfsFile inode _ _ => usedInode fs inode
  | .vfsDir inode _ => usedInode fs inode
  | .stdin => true
  | .stdout => true
  | .stderr => true
  | .devNull => true
  | .devZero => true
  | .devUrandom => true
  | _ => false

def isDirectory : FdEntry → Bool
  | .vfsDir _ _ => true
  | _ => false

def named (state : SyscallState) (cwd : InodeIndex) (path : Bytes) : Bool :=
  (devStat path).isSome || (state.fs.resolve path cwd).any fun idx => usedInode state.fs idx.val

def fdRefused (state : SyscallState) (fd : Nat) (accepted : FdEntry → Bool) : Prop :=
  (currentFdGet state.kernel fd).any accepted = false

def statRefused (state : SyscallState) (pathPtr buf : Address) : Prop :=
  buf = 0 ∨ (state.memory.readPath pathPtr).any
    (fun path => path != [] && named state state.cwd path) = false

def newfstatatRefused (state : SyscallState) (dirfd pathPtr buf : Address) : Prop :=
  buf = 0 ∨
    match state.memory.readPath pathPtr with
    | none => True
    | some path =>
        if path = [] then dirfd.toInt = -100 ∨ fdRefused state dirfd.toNat (statable state.fs)
        else named state (state.atCwd dirfd) path = false

/-- The caller has no child, at the call or when it goes on after having waited for
one. -/
def childless (target : Nat) (noHang : Bool) : List SyscallState → Prop
  | [] => False
  | state :: later =>
      state.kernel.findZombieChild state.kernel.currentPid target = none ∧
        (state.kernel.hasLivingChild state.kernel.currentPid = false ∨
          (noHang = false ∧ state.kernel.currentTask ≠ none ∧ childless target noHang later))

/-- The call ends with an error before it stores anything. -/
def Refused (state : SyscallState) (later : List SyscallState) (nr : Nat) (args : Arguments) :
    Prop :=
  match nr with
  | nrRead => args.a2.toNat ≠ 0 ∧ (args.a1 = 0 ∨ fdRefused state args.a0.toNat readable)
  | nrPoll => args.a1.toNat ≠ 0 ∧ args.a0 = 0
  | nrRtSigaction => args.a0.toNat = 0 ∨ 64 < args.a0.toNat
  | nrRtSigprocmask => False
  | nrArchPrctl =>
      args.a0.toNat ≠ archSetFs ∧ (args.a0.toNat = archGetFs → args.a1 = 0)
  | nrSigaltstack => False
  | nrGetrandom => args.a0 = 0
  | nrNewfstatat => newfstatatRefused state args.a0 args.a1 args.a2
  | nrStat => statRefused state args.a0 args.a1
  | nrFstat => args.a1 = 0 ∨ fdRefused state args.a0.toNat (statable state.fs)
  | nrLstat => statRefused state args.a0 args.a1
  | nrIoctl =>
      fdRefused state args.a0.toNat isTty ∨ (args.a1.toNat = tiocgwinsz → args.a2 = 0)
  | nrPipe => args.a0 = 0 ∨ freePipes state.kernel.pool = 0 ∨ callerFreeFds state.kernel < 2
  | nrPipe2 => args.a0 = 0 ∨ freePipes state.kernel.pool = 0 ∨ callerFreeFds state.kernel < 2
  | nrSocketpair =>
      args.a3 = 0 ∨ freePipes state.kernel.pool < 2 ∨ callerFreeFds state.kernel < 2
  | nrRecvfrom => args.a2.toNat ≠ 0 ∧ (args.a1 = 0 ∨ fdRefused state args.a0.toNat readable)
  | nrGetcwd =>
      args.a0 = 0 ∨ args.a1.toNat = 0 ∨
        (state.cwd ≠ rootInode ∧ (state.fs.inodes state.cwd).used = false)
  | nrWait4 => childless args.a0.toNat (args.a2.getLsbD 0) (state :: later)
  | nrUname => args.a0 = 0
  | nrClockGettime => args.a1 = 0 ∨ 1 < args.a0.toNat
  | nrGetdents64 =>
      args.a1 = 0 ∨ args.a2.toNat = 0 ∨
        fdRefused state args.a0.toNat isDirectory
  | _ => False

/-- What a handler does with its buffers: it stores only there, no byte if it is
refused, and the whole buffer if it ends with an error all the same. -/
structure Handles (buffers : List Span) (refused : Prop) (outcome : Outcome) : Prop where
  inside : ∀ store ∈ outcome.stores, ∀ address, store.span.Has address →
    ∃ buffer ∈ buffers, buffer.Has address
  refuses : refused → (∀ store ∈ outcome.stores, store.bytes = []) ∧
    ∃ errno, outcome.result = some (.error errno)
  fills : ¬refused → (∃ errno, outcome.result = some (.error errno)) →
    ∀ buffer ∈ buffers, ∀ address, buffer.Has address →
      ∃ store ∈ outcome.stores, store.span.Has address

theorem keeps_iff {buffers : List Span} {refused : Prop} {outcome : Outcome}
    (handles : Handles buffers refused outcome) :
    KeepsToUser buffers outcome ↔ (∀ buffer ∈ buffers, InUser buffer) ∨ refused := by
  constructor
  · intro keeps
    by_contra neither
    push Not at neither
    obtain ⟨⟨buffer, member, leaves⟩, accepted⟩ := neither
    obtain ⟨address, has, low⟩ : ∃ address, buffer.Has address ∧ address.toNat < userBaseVa := by
      unfold InUser at leaves
      push Not at leaves
      exact leaves
    have failed := keeps.reported ⟨buffer, member, leaves⟩
    obtain ⟨store, stored, covers⟩ := handles.fills accepted failed buffer member address has
    have high := keeps.stored store stored address covers
    omega
  · rintro (inUser | refused)
    · constructor
      · intro store stored address covers
        obtain ⟨buffer, member, has⟩ := handles.inside store stored address covers
        exact inUser buffer member address has
      · rintro ⟨buffer, member, leaves⟩
        exact absurd (inUser buffer member) leaves
    · obtain ⟨nothing, failed⟩ := handles.refuses refused
      constructor
      · intro store stored address covers
        unfold Span.Has Store.span at covers
        rw [nothing store stored] at covers
        exact absurd covers (Nat.not_lt_zero _)
      · exact fun _ => failed

def StoreIn (buffer : Span) (store : Store) : Prop :=
  ∃ offset, store.start = buffer.start + BitVec.ofNat 64 offset ∧
    offset + store.bytes.length ≤ buffer.length

theorem store_in_has {buffer : Span} {store : Store} (within : StoreIn buffer store)
    {address : Address} (has : store.span.Has address) : buffer.Has address := by
  obtain ⟨offset, start, fits⟩ := within
  unfold Span.Has Store.span at *
  rw [start] at has
  have apart : address - buffer.start =
      (address - (buffer.start + BitVec.ofNat 64 offset)) + BitVec.ofNat 64 offset := by
    bv_omega
  have sum := BitVec.toNat_add (address - (buffer.start + BitVec.ofNat 64 offset))
    (BitVec.ofNat 64 offset)
  rw [← apart, BitVec.toNat_ofNat] at sum
  dsimp only at has
  have low := Nat.mod_le offset (2 ^ 64)
  have less := Nat.mod_le ((address - (buffer.start + BitVec.ofNat 64 offset)).toNat +
    offset % 2 ^ 64) (2 ^ 64)
  omega

section

variable {buffers : List Span} {refused : Prop}

theorem handles_fails (errno : Nat) (isRefused : refused) :
    Handles buffers refused (fails errno) where
  inside := nofun
  refuses := fun _ => ⟨nofun, errno, rfl⟩
  fills := fun accepted => absurd isRefused accepted

theorem handles_accepted {outcome : Outcome} (accepted : ¬refused)
    (noError : ∀ errno, outcome.result ≠ some (.error errno))
    (within : ∀ store ∈ outcome.stores, ∃ buffer ∈ buffers, StoreIn buffer store) :
    Handles buffers refused outcome where
  inside := by
    intro store stored address has
    obtain ⟨buffer, member, storeIn⟩ := within store stored
    exact ⟨buffer, member, store_in_has storeIn has⟩
  refuses := fun isRefused => absurd isRefused accepted
  fills := by
    rintro _ ⟨errno, failed⟩
    exact absurd failed (noError errno)

theorem handles_returns {stores : List Store} {value : Int} (accepted : ¬refused)
    (within : ∀ store ∈ stores, ∃ buffer ∈ buffers, StoreIn buffer store) :
    Handles buffers refused (returns stores value) :=
  handles_accepted accepted nofun within

theorem handles_fill {start : Address} {length : Nat} {bytes : Bytes} {value : Int}
    (accepted : ¬refused) (fits : bytes.length ≤ length) :
    Handles [⟨start, length⟩] refused (returns [⟨start, bytes⟩] value) := by
  apply handles_returns accepted
  intro store stored
  rw [List.mem_singleton.mp stored]
  refine ⟨_, List.mem_singleton_self _, 0, (BitVec.add_zero start).symm, ?_⟩
  dsimp only
  omega

theorem handles_nothing {value : Int} (accepted : ¬refused) :
    Handles buffers refused (returns [] value) :=
  handles_returns accepted nofun

end

section

variable {refused : Prop} {buf : Address} {len : Nat}

theorem pipe_read_length (pool : Pool) (idx len : Nat) : (pipeRead pool idx len).2.length ≤ len := by
  unfold pipeRead
  split_ifs with bound
  · dsimp only
    split_ifs
    · dsimp only
      rw [(ByteRings.pipe_read _ len).2, List.length_take]
      exact Nat.min_le_left _ _
    · exact Nat.zero_le _
  · exact Nat.zero_le _

theorem read_inode_length (fs : RamFs) (idx offset len : Nat) :
    (readInode fs idx offset len).length ≤ len := by
  unfold readInode RamFs.inodeRead
  split_ifs with bound
  · dsimp only
    split_ifs
    · exact Nat.zero_le _
    · rw [List.length_map, List.length_range]
      exact Nat.min_le_left _ _
  · exact Nat.zero_le _

theorem seed_bytes_length (seeds : Nat → BitVec 64) (len : Nat) :
    (seedBytes seeds len).length ≤ len := by
  unfold seedBytes
  rw [List.length_take]
  exact Nat.min_le_left _ _

theorem handles_stdin (accepted : ¬refused) (room : len ≠ 0) (states : List SyscallState) :
    Handles [⟨buf, len⟩] refused (readStdin buf states) := by
  induction states with
  | nil => exact handles_accepted accepted nofun nofun
  | cons state later ih =>
      unfold readStdin
      split
      · exact handles_fill accepted (Nat.one_le_iff_ne_zero.mpr room)
      · split
        · exact handles_fill accepted (Nat.one_le_iff_ne_zero.mpr room)
        · exact ih

theorem handles_from_pipe (accepted : ¬refused) (idx : Nat) (states : List SyscallState) :
    Handles [⟨buf, len⟩] refused (readFromPipe idx buf len states) := by
  induction states with
  | nil => exact handles_accepted accepted nofun nofun
  | cons state later ih =>
      unfold readFromPipe
      dsimp only
      split_ifs
      · exact handles_fill accepted (pipe_read_length _ _ _)
      · exact handles_nothing accepted
      · exact ih

theorem handles_read (state : SyscallState) (later : List SyscallState) (fd : Nat) :
    Handles [⟨buf, len⟩] (len ≠ 0 ∧ (buf = 0 ∨ fdRefused state fd readable))
      (sysRead state later fd buf len) := by
  unfold sysRead
  split_ifs with empty null
  · exact handles_nothing fun refused => refused.1 empty
  · exact handles_fails 14 ⟨empty, .inl null⟩
  · unfold fdRefused
    cases opened : currentFdGet state.kernel fd with
    | none => exact handles_fails 9 ⟨empty, .inr rfl⟩
    | some entry =>
        rw [Option.any_some]
        cases entry <;> simp only [readable, null, empty, ne_eq, not_false_eq_true, or_true,
          false_or, true_and, Bool.true_eq_false]
        case stdin => exact handles_stdin id empty _
        case vfsFile inode offset writable => exact handles_fill id (read_inode_length _ _ _ _)
        case pipeRead idx => exact handles_from_pipe id idx _
        case socketPair readIdx writeIdx => exact handles_from_pipe id readIdx _
        case devNull => exact handles_nothing id
        case devZero => exact handles_fill id (by rw [List.length_replicate])
        case devUrandom => exact handles_fill id (seed_bytes_length _ _)
        all_goals exact handles_fails _ trivial

theorem handles_getrandom (state : SyscallState) :
    Handles [⟨buf, len⟩] (buf = 0) (sysGetrandom state buf len) := by
  unfold sysGetrandom
  split_ifs with null
  · exact handles_fails 14 null
  · exact handles_fill null (seed_bytes_length _ _)

theorem dirents_length {fs : RamFs} {pos count : Nat} (children : List InodeIndex)
    (loop : DirentLoop) (fits : loop.written.length ≤ count) :
    (children.foldl (direntStep fs pos count) loop).written.length ≤ count := by
  induction children generalizing loop with
  | nil => exact fits
  | cons child rest ih =>
      rw [List.foldl_cons]
      apply ih
      unfold direntStep writeDirent64
      split_ifs with early narrow
      · exact fits
      · exact fits
      · dsimp only
        rw [List.length_append, length_dirent64]
        omega

theorem handles_getdents64 (state : SyscallState) (fd : Nat) :
    Handles [⟨buf, len⟩] (buf = 0 ∨ len = 0 ∨ fdRefused state fd isDirectory)
      (getdents64 state fd buf len) := by
  unfold getdents64 fdRefused currentFdGet
  split_ifs with bad
  · exact handles_fails 22 (by tauto)
  · cases state.kernel.currentTask with
    | none => exact handles_fails 9 (.inr (.inr rfl))
    | some task =>
        dsimp only [Option.bind_some]
        cases opened : FdTable.get task.fdTable fd with
        | none => exact handles_fails 9 (.inr (.inr rfl))
        | some entry =>
            rw [Option.any_some]
            cases entry
            case vfsDir inode pos =>
              apply handles_fill
              · simp only [isDirectory, Bool.true_eq_false, or_false]
                exact bad
              · unfold sysGetdents64
                rw [if_neg (by rw [BitVec.toNat_eq] at bad; exact bad), opened]
                exact dirents_length _ _ (Nat.zero_le _)
            all_goals exact handles_fails 20 (.inr (.inr rfl))

end

section

variable {refused : Prop} {buf : Address}

theorem stat_bytes_length (stat : Stat) : stat.bytes.length = 144 := by
  unfold Stat.bytes
  simp only [List.length_append, length_le_bytes, List.length_replicate]

theorem handles_fill_stat (accepted : ¬refused) (stat : Stat) :
    Handles [⟨buf, 144⟩] refused (fillStat buf stat) :=
  handles_fill accepted (stat_bytes_length stat).le

theorem handles_inode_stat (state : SyscallState) (notNull : buf ≠ 0) (idx : Nat) :
    Handles [⟨buf, 144⟩] (usedInode state.fs idx = false) (fillInodeStat state buf idx) := by
  unfold fillInodeStat usedInode
  rw [if_neg notNull]
  split_ifs with bound used
  · rw [used]
    exact handles_fill_stat (by decide) _
  · exact handles_fails 2 (Bool.eq_false_iff.mpr used)
  · exact handles_fails 2 rfl

theorem handles_stat_path (state : SyscallState) (cwd : InodeIndex) (path : Bytes)
    (notNull : buf ≠ 0) :
    Handles [⟨buf, 144⟩] (named state cwd path = false) (statPath state cwd path buf) := by
  unfold statPath named
  cases devStat path with
  | some stat => exact handles_fill_stat nofun stat
  | none =>
      rw [Option.isSome_none, Bool.false_or]
      cases state.fs.resolve path cwd with
      | none => exact handles_fails 2 rfl
      | some idx => exact handles_inode_stat state notNull idx.val

theorem handles_fstat (state : SyscallState) (fd : Nat) :
    Handles [⟨buf, 144⟩] (buf = 0 ∨ fdRefused state fd (statable state.fs))
      (sysFstat state fd buf) := by
  unfold sysFstat
  split_ifs with null
  · exact handles_fails 14 (.inl null)
  · rw [or_iff_right null]
    unfold fdRefused
    cases opened : currentFdGet state.kernel fd with
    | none => exact handles_fails 9 rfl
    | some entry =>
        rw [Option.any_some]
        cases entry
        case vfsFile inode offset writable => exact handles_inode_stat state null inode
        case vfsDir inode pos => exact handles_inode_stat state null inode
        case empty => exact handles_fails 9 rfl
        case pipeRead idx => exact handles_fails 9 rfl
        case pipeWrite idx => exact handles_fails 9 rfl
        case socketPair readIdx writeIdx => exact handles_fails 9 rfl
        all_goals exact handles_fill_stat nofun _

theorem handles_stat (state : SyscallState) (pathPtr : Address) :
    Handles [⟨buf, 144⟩] (statRefused state pathPtr buf) (sysStat state pathPtr buf) := by
  unfold sysStat statRefused
  split_ifs with null
  · exact handles_fails 14 (.inl null)
  · rw [or_iff_right null]
    cases state.memory.readPath pathPtr with
    | none => exact handles_fails 2 rfl
    | some path =>
        dsimp only [Option.any_some]
        split_ifs with empty
        · subst empty
          exact handles_fails 2 rfl
        · rw [bne_iff_ne.mpr empty, Bool.true_and]
          exact handles_stat_path state state.cwd path null

theorem handles_newfstatat (state : SyscallState) (dirfd pathPtr : Address) :
    Handles [⟨buf, 144⟩] (newfstatatRefused state dirfd pathPtr buf)
      (sysNewfstatat state dirfd pathPtr buf) := by
  unfold sysNewfstatat newfstatatRefused
  by_cases null : buf = 0
  · rw [if_pos null]
    exact handles_fails 14 (.inl null)
  · rw [if_neg null, or_iff_right null]
    cases state.memory.readPath pathPtr with
    | none => exact handles_fails 14 trivial
    | some path =>
        dsimp only
        split_ifs with empty cwd
        · exact handles_fails 22 (.inl cwd)
        · have filled := @handles_fstat buf state dirfd.toNat
          rw [or_iff_right null] at filled
          rw [or_iff_right cwd]
          exact filled
        · exact handles_stat_path state (state.atCwd dirfd) path null

end

section

variable {state : SyscallState}

theorem fd_pair_none_iff {kernel : Kernel} {first second : FdEntry} (filled : first ≠ .empty)
    (filledToo : second ≠ .empty) :
    fdPair kernel first second = none ↔ callerFreeFds kernel < 2 := by
  unfold fdPair
  dsimp only
  by_cases two : 2 ≤ callerFreeFds kernel
  · obtain ⟨opened, openedToo⟩ := two_fds_taken two filled filledToo
    obtain ⟨r, reading⟩ := Option.ne_none_iff_exists'.mp opened
    obtain ⟨w, writing⟩ := Option.ne_none_iff_exists'.mp openedToo
    rw [reading, writing]
    exact iff_of_false nofun (by omega)
  · apply iff_of_true _ (by omega)
    by_cases one : callerFreeFds kernel = 1
    · obtain ⟨failed, _⟩ := @one_fd_taken kernel first second one filled
      rw [failed]
      cases (currentFdAlloc kernel first).2 <;> rfl
    · rw [no_fd_taken (by omega)]

theorem handles_pair {refused : Prop} {ptr : Address} {pair : Option (Fd × Fd)}
    (same : pair = none ↔ refused) :
    Handles [⟨ptr, 8⟩] refused (storePair ptr pair) := by
  cases pair with
  | none => exact handles_fails 24 (same.mp rfl)
  | some fds =>
      obtain ⟨r, w⟩ := fds
      apply handles_returns fun refused => nomatch same.mpr refused
      intro store stored
      rw [List.mem_cons, List.mem_singleton] at stored
      refine ⟨_, List.mem_singleton_self _, ?_⟩
      rcases stored with rfl | rfl
      · exact ⟨0, (BitVec.add_zero ptr).symm, by simp only [length_le_bytes]; decide⟩
      · exact ⟨4, rfl, by simp only [length_le_bytes]; decide⟩

theorem handles_pipe (fdsPtr : Address) :
    Handles [⟨fdsPtr, 8⟩]
      (fdsPtr = 0 ∨ freePipes state.kernel.pool = 0 ∨ callerFreeFds state.kernel < 2)
      (sysPipe state fdsPtr) := by
  unfold sysPipe
  split_ifs with null
  · exact handles_fails 14 (.inl null)
  · rw [or_iff_right null]
    cases allocated : allocPipe state.kernel.pool with
    | none => exact handles_fails 24 (.inl ((free_pipes_zero_iff _).mp allocated))
    | some opened =>
        have free : freePipes state.kernel.pool ≠ 0 := by
          have taken := free_pipes_taken allocated
          omega
        rw [or_iff_right free]
        exact handles_pair (fd_pair_none_iff nofun nofun)

theorem handles_socketpair (svPtr : Address) :
    Handles [⟨svPtr, 8⟩]
      (svPtr = 0 ∨ freePipes state.kernel.pool < 2 ∨ callerFreeFds state.kernel < 2)
      (sysSocketpair state svPtr) := by
  unfold sysSocketpair
  split_ifs with null
  · exact handles_fails 14 (.inl null)
  · rw [or_iff_right null]
    cases allocated : allocPipe state.kernel.pool with
    | none =>
        have none := (free_pipes_zero_iff _).mp allocated
        exact handles_fails 24 (.inl (by omega))
    | some opened =>
        obtain ⟨a, poolA⟩ := opened
        have taken := free_pipes_taken allocated
        dsimp only
        cases again : allocPipe poolA with
        | none =>
            have none := (free_pipes_zero_iff _).mp again
            exact handles_fails 24 (.inl (by omega))
        | some openedToo =>
            have takenToo := free_pipes_taken again
            rw [or_iff_right (by omega)]
            exact handles_pair (fd_pair_none_iff nofun nofun)

end

section

variable {state : SyscallState}

theorem poll_loop_stores (count : Nat) (pfd : Address) (memory : UserMemory) {store : Store}
    (stored : store ∈ (pollLoop state count pfd memory).1) :
    StoreIn ⟨pfd, 8 * count⟩ store := by
  induction count generalizing pfd memory with
  | zero => cases stored
  | succ count ih =>
      unfold pollLoop at stored
      dsimp only at stored
      rcases List.mem_cons.mp stored with rfl | rest
      · refine ⟨6, rfl, ?_⟩
        dsimp only
        rw [length_le_bytes]
        omega
      · obtain ⟨offset, start, fits⟩ := ih _ _ rest
        refine ⟨8 + offset, ?_, ?_⟩
        · rw [start, BitVec.add_assoc, BitVec.ofNat_add]
          rfl
        · dsimp only at fits ⊢
          omega

theorem handles_poll (fdsPtr : Address) (nfds : Nat) (timeoutMs : Int) :
    Handles [⟨fdsPtr, 8 * nfds⟩] (nfds ≠ 0 ∧ fdsPtr = 0) (sysPoll state fdsPtr nfds timeoutMs) := by
  unfold sysPoll
  split_ifs with none null
  · exact handles_nothing fun refused => refused.1 none
  · exact handles_fails 14 ⟨none, null⟩
  · apply handles_returns fun refused => null refused.2
    intro store stored
    exact ⟨_, List.mem_singleton_self _, poll_loop_stores nfds fdsPtr state.memory stored⟩

theorem append_part_length {fs : RamFs} {len : Nat} {written : Bytes} (fits : written.length ≤ len)
    (idx : InodeIndex) : (appendPart fs len written idx).length ≤ len := by
  unfold appendPart
  dsimp only
  rw [List.length_append, List.length_take]
  split_ifs
  · rw [List.length_append, List.length_singleton]
    omega
  · omega

theorem append_part_nonempty {fs : RamFs} {len : Nat} (room : len ≠ 0) (written : Bytes)
    (idx : InodeIndex) : appendPart fs len written idx ≠ [] := by
  unfold appendPart
  dsimp only
  split_ifs with space
  · simp
  · intro nothing
    rw [(List.append_eq_nil_iff.mp nothing).1] at space
    exact space (Nat.pos_of_ne_zero room)

theorem path_length {fs : RamFs} {len : Nat} (parts : List InodeIndex) {written : Bytes}
    (fits : written.length ≤ len) :
    (parts.foldl (appendPart fs len) written).length ≤ len := by
  induction parts generalizing written with
  | nil => exact fits
  | cons part rest ih => exact ih (append_part_length fits part)

/-- The length that `inode_path` returns is that of what it stored. -/
theorem inode_path_spec {fs : RamFs} {len : Nat} (idx : InodeIndex) (room : len ≠ 0) :
    (inodePath fs idx len).2 = (inodePath fs idx len).1.length ∧
      (inodePath fs idx len).1.length ≤ len ∧
      ((inodePath fs idx len).1 = [] ↔ idx ≠ rootInode ∧ (fs.inodes idx).used = false) := by
  unfold inodePath
  split_ifs with isRoot
  · obtain ⟨more, rfl⟩ := Nat.exists_eq_succ_of_ne_zero room
    rw [List.take_succ_cons, List.take_nil]
    exact ⟨rfl, Nat.succ_le_succ (Nat.zero_le _),
      iff_of_false nofun fun unused => unused.1 isRoot⟩
  · refine ⟨rfl, path_length _ (Nat.zero_le _), ?_⟩
    dsimp only
    unfold pathStack
    rw [if_neg isRoot]
    cases used : (fs.inodes idx).used with
    | false => exact iff_of_true rfl ⟨isRoot, rfl⟩
    | true =>
        apply iff_of_false
        · simp only [Bool.not_true, Bool.false_eq_true, if_false]
          split_ifs
          · exact append_part_nonempty room _ _
          · rw [List.reverse_cons, List.foldl_append]
            exact append_part_nonempty room _ _
        · nofun

theorem handles_getcwd (buf : Address) (size : Nat) :
    Handles [⟨buf, size⟩]
      (buf = 0 ∨ size = 0 ∨
        (state.cwd ≠ rootInode ∧ (state.fs.inodes state.cwd).used = false))
      (sysGetcwd state buf size) := by
  unfold sysGetcwd
  by_cases bad : buf = 0 ∨ size = 0
  · rw [if_pos bad]
    exact handles_fails 14 (by tauto)
  rw [if_neg bad]
  push Not at bad
  obtain ⟨length, fits, empty⟩ := @inode_path_spec state.fs size state.cwd bad.2
  rw [or_iff_right bad.1, or_iff_right bad.2, ← empty]
  dsimp only
  rw [length]
  split_ifs with short
  · constructor
    · intro store stored address has
      rw [List.mem_singleton.mp stored] at has
      exact ⟨_, List.mem_singleton_self _, Nat.lt_of_lt_of_le has fits⟩
    · intro nothing
      refine ⟨fun store stored => ?_, 34, rfl⟩
      rw [List.mem_singleton.mp stored]
      exact nothing
    · -- the path did not fit, so it took the whole buffer
      intro something _ buffer member address has
      rw [List.mem_singleton.mp member] at has
      refine ⟨_, List.mem_singleton_self _, Nat.lt_of_lt_of_le has ?_⟩
      rw [List.length_eq_zero_iff] at short
      exact short.resolve_left something
  · push Not at short
    apply handles_returns fun nothing => short.1 (List.length_eq_zero_iff.mpr nothing)
    intro store stored
    rw [List.mem_cons, List.mem_singleton] at stored
    refine ⟨_, List.mem_singleton_self _, ?_⟩
    rcases stored with rfl | rfl
    · exact ⟨0, (BitVec.add_zero buf).symm, by dsimp only; omega⟩
    · exact ⟨_, rfl, short.2⟩

theorem handles_wait4 (target : Nat) (statusPtr : Address) (noHang : Bool)
    (states : List SyscallState) :
    Handles (if statusPtr = 0 then [] else [⟨statusPtr, 4⟩]) (childless target noHang states)
      (wait4Loop target statusPtr noHang states) := by
  induction states with
  | nil => exact handles_accepted id nofun nofun
  | cons state later ih =>
      unfold wait4Loop childless Kernel.waitpid
      dsimp only
      cases zombie : state.kernel.findZombieChild state.kernel.currentPid target with
      | some slot =>
          dsimp only
          cases state.kernel.tasks slot with
          | none => exact handles_accepted nofun nofun nofun
          | some task =>
              apply handles_returns nofun
              split_ifs with null
              · nofun
              · intro store stored
                rw [List.mem_singleton.mp stored]
                refine ⟨_, List.mem_singleton_self _, 0, (BitVec.add_zero statusPtr).symm, ?_⟩
                simp only [length_le_bytes]
                decide
      | none =>
          dsimp only
          rw [and_iff_right rfl]
          cases living : state.kernel.hasLivingChild state.kernel.currentPid with
          | false => exact handles_fails 10 (.inl rfl)
          | true =>
              cases noHang with
              | true => exact handles_nothing nofun
              | false =>
                  unfold Kernel.blockCurrent
                  cases present : state.kernel.currentTask with
                  | none => exact handles_accepted (fun refused => by simp at refused) nofun nofun
                  | some task => simpa using ih

theorem handles_ioctl (fd cmd : Nat) (arg : Address) :
    Handles (if cmd = tiocgwinsz then [⟨arg, 8⟩] else [])
      (fdRefused state fd isTty ∨ (cmd = tiocgwinsz → arg = 0)) (sysIoctl state fd cmd arg) := by
  unfold sysIoctl fdRefused
  cases currentFdGet state.kernel fd with
  | none => exact handles_fails 9 (.inl rfl)
  | some entry =>
      dsimp only [Option.any_some]
      by_cases tty : isTty entry = true
      · rw [tty, or_iff_right Bool.true_eq_false.mp,
          if_neg (show ¬(!true) = true from Bool.false_ne_true)]
        split_ifs with window null
        · exact handles_fails 14 fun _ => null
        · apply handles_returns fun refused => null (refused window)
          intro store stored
          refine ⟨_, List.mem_singleton_self _, ?_⟩
          simp only [List.mem_cons, List.not_mem_nil, or_false] at stored
          rcases stored with rfl | rfl | rfl | rfl
          · exact ⟨0, (BitVec.add_zero arg).symm, by simp only [length_le_bytes]; decide⟩
          · exact ⟨2, rfl, by simp only [length_le_bytes]; decide⟩
          · exact ⟨4, rfl, by simp only [length_le_bytes]; decide⟩
          · exact ⟨6, rfl, by simp only [length_le_bytes]; decide⟩
        · exact handles_fails 25 fun isWindow => absurd isWindow window
      · rw [Bool.not_eq_true] at tty
        rw [tty]
        exact handles_fails 25 (.inl rfl)

theorem uts_field_length (text : Bytes) : (utsField text).length ≤ 65 := by
  unfold utsField
  rw [List.length_append, List.length_take, List.length_singleton]
  omega

theorem handles_uname (buf : Address) :
    Handles [⟨buf, 325⟩] (buf = 0) (sysUname state buf) := by
  unfold sysUname
  split_ifs with null
  · exact handles_fails 14 null
  · apply handles_returns null
    intro store stored
    refine ⟨_, List.mem_singleton_self _, ?_⟩
    simp only [List.mem_cons, List.not_mem_nil, or_false] at stored
    rcases stored with rfl | rfl | rfl | rfl | rfl
    · exact ⟨0, (BitVec.add_zero buf).symm, Nat.add_le_add (Nat.zero_le _) (uts_field_length _)⟩
    · exact ⟨65, rfl, Nat.add_le_add (by decide) (uts_field_length _)⟩
    · exact ⟨130, rfl, Nat.add_le_add (by decide) (uts_field_length _)⟩
    · exact ⟨195, rfl, Nat.add_le_add (by decide) (uts_field_length _)⟩
    · exact ⟨260, rfl, Nat.add_le_add (by decide) (uts_field_length _)⟩

theorem handles_arch_prctl (code : Nat) (addr : Address) :
    Handles (if code = archGetFs then [⟨addr, 8⟩] else [])
      (code ≠ archSetFs ∧ (code = archGetFs → addr = 0)) (sysArchPrctl state code addr) := by
  unfold sysArchPrctl
  by_cases set : code = archSetFs
  · rw [if_pos set]
    exact handles_nothing fun refused => refused.1 set
  · rw [if_neg set]
    split_ifs with get null
    · exact handles_fails 14 ⟨set, fun _ => null⟩
    · exact handles_fill (fun refused => null (refused.2 get)) (by rw [length_le_bytes])
    · exact handles_fails 22 ⟨set, fun isGet => absurd isGet get⟩

theorem handles_clock_gettime (clockId : Nat) (ts : Address) :
    Handles [⟨ts, 16⟩] (ts = 0 ∨ 1 < clockId) (sysClockGettime state clockId ts) := by
  unfold sysClockGettime
  split_ifs with null unknown
  · exact handles_fails 14 (.inl null)
  · exact handles_fails 22 (.inr unknown)
  · apply handles_returns fun refused => refused.elim null unknown
    intro store stored
    refine ⟨_, List.mem_singleton_self _, ?_⟩
    rw [List.mem_cons, List.mem_singleton] at stored
    rcases stored with rfl | rfl
    · exact ⟨0, (BitVec.add_zero ts).symm, by simp only [length_le_bytes]; decide⟩
    · exact ⟨8, rfl, by simp only [length_le_bytes]; decide⟩

theorem handles_optional {refused : Prop} (accepted : ¬refused) (ptr : Address) (length : Nat) :
    Handles (if ptr = 0 then [] else [⟨ptr, length⟩]) refused
      (returns (if ptr = 0 then [] else [⟨ptr, List.replicate length 0⟩]) 0) := by
  split_ifs
  · exact handles_nothing accepted
  · exact handles_fill accepted (by rw [List.length_replicate])

theorem handles_rt_sigaction (sig : Nat) (oact : Address) (sigsetsize : Nat) :
    Handles (if oact = 0 then [] else [⟨oact, 24 + min sigsetsize 128⟩]) (sig = 0 ∨ 64 < sig)
      (sysRtSigaction sig oact sigsetsize) := by
  unfold sysRtSigaction
  by_cases unknown : sig = 0 ∨ 64 < sig
  · rw [if_pos unknown]
    exact handles_fails 22 unknown
  · rw [if_neg unknown]
    exact handles_optional unknown oact _

theorem handles_sigaltstack (oldSs : Address) :
    Handles (if oldSs = 0 then [] else [⟨oldSs, 24⟩]) False (sysSigaltstack oldSs) := by
  unfold sysSigaltstack
  split_ifs
  · exact handles_nothing id
  · apply handles_returns id
    intro store stored
    refine ⟨_, List.mem_singleton_self _, ?_⟩
    rw [List.mem_cons, List.mem_singleton] at stored
    rcases stored with rfl | rfl
    · exact ⟨0, (BitVec.add_zero oldSs).symm, by simp only [List.length_replicate]; decide⟩
    · exact ⟨8, rfl, by simp only [length_le_bytes]; decide⟩

end

theorem handles_elsewhere (result : Option Return) : Handles [] False ⟨[], result⟩ := by
  constructor
  · intro store stored
    cases stored
  · exact False.elim
  · intro _ _ buffer member
    cases member

theorem handles_dispatch (state : SyscallState) (later : List SyscallState) (nr : Nat)
    (args : Arguments) :
    Handles (outputs nr args) (Refused state later nr args) (dispatch state later nr args) := by
  unfold outputs Refused
  split
  · exact handles_read state later _
  · exact handles_poll _ _ _
  · exact handles_rt_sigaction _ _ _
  · exact handles_optional id _ _
  · exact handles_arch_prctl _ _
  · exact handles_sigaltstack _
  · exact handles_getrandom state
  · exact handles_newfstatat state _ _
  · exact handles_stat state _
  · exact handles_fstat state _
  · exact handles_stat state _
  · exact handles_ioctl _ _ _
  · exact handles_pipe _
  · exact handles_pipe _
  · exact handles_socketpair _
  · exact handles_read state later _
  · exact handles_getcwd _ _
  · exact handles_wait4 _ _ _ _
  · exact handles_uname _
  · exact handles_clock_gettime _ _
  · exact handles_getdents64 state _
  · unfold dispatch
    split
    all_goals first | contradiction | exact handles_elsewhere _

/-- For every call in every state, the stores stay in the user's part and a buffer
that leaves it is refused, if and only if the buffers that are given lie there or the
call is refused for another reason. -/
theorem keeps_to_user_iff (state : SyscallState) (later : List SyscallState) (nr : Nat)
    (args : Arguments) :
    KeepsToUser (outputs nr args) (dispatch state later nr args) ↔
      (∀ buffer ∈ outputs nr args, InUser buffer) ∨ Refused state later nr args :=
  keeps_iff (handles_dispatch state later nr args)

/-- A task with `/dev/zero` open. -/
def zeroOpened : SyscallState where
  kernel := runningWith fun fd => if fd.val = 3 then .devZero else .empty
  fs := RamFs.init []
  memory := fun _ => 0
  serialByte := none
  keyByte := none
  hasInput := false
  entropy := fun _ => 0
  versionFull := []
  elsewhere := fun _ _ => none
  located := by
    intro task present
    cases present
    decide

def readToKernel : Arguments := ⟨3, 0x100000, 8, 0, 0, 0⟩

theorem kernel_memory_overwritten :
    dispatch zeroOpened [] nrRead readToKernel = returns [⟨0x100000, List.replicate 8 0⟩] 8 ∧
      ¬KeepsToUser (outputs nrRead readToKernel) (dispatch zeroOpened [] nrRead readToKernel) := by
  have outcome : dispatch zeroOpened [] nrRead readToKernel =
      returns [⟨0x100000, List.replicate 8 0⟩] 8 := rfl
  refine ⟨outcome, ?_⟩
  rw [outcome]
  intro keeps
  have high := keeps.stored _ (List.mem_singleton_self _) 0x100000 (by unfold Span.Has; decide)
  revert high
  decide

end Ferrugem.UserPointers
