import Ferrugem.DirectoryEnumeration
import Ferrugem.FailedPipes

/-!
# The stores of the system calls

`syscall::dispatch` for the handlers that store through a pointer of the caller:
which bytes they store, where, and what they return. The handlers that only read
through their pointers, or take none, store nothing there; what they return is
part of the state.
-/

namespace Ferrugem.SyscallStores

open Ferrugem.PipePoolModel Ferrugem.ProcessModel Ferrugem.SchedulerModel
open Ferrugem.RamFsModel Ferrugem.DirectoryEnumeration
open Ferrugem.DescriptorSyscalls (currentFdGet currentFdAlloc)

set_option autoImplicit false

abbrev Address := BitVec 64

abbrev UserMemory := Address → UInt8

structure Span where
  start : Address
  length : Nat

def Span.Has (span : Span) (address : Address) : Prop :=
  (address - span.start).toNat < span.length

structure Store where
  start : Address
  bytes : Bytes

def Store.span (store : Store) : Span := ⟨store.start, store.bytes.length⟩

namespace UserMemory

def apply (memory : UserMemory) (store : Store) : UserMemory := fun address =>
  if (address - store.start).toNat < store.bytes.length then
    store.bytes.getD (address - store.start).toNat 0
  else memory address

def read (memory : UserMemory) (start : Address) (length : Nat) : Bytes :=
  (List.range length).map fun i => memory (start + BitVec.ofNat 64 i)

def readUntilNul (memory : UserMemory) : Nat → Address → Bytes
  | 0, _ => []
  | room + 1, address =>
      if memory address = 0 then []
      else memory address :: readUntilNul memory room (address + 1)

def readPath (memory : UserMemory) (pathPtr : Address) : Option Bytes :=
  if pathPtr = 0 then none
  else
    let path := memory.readUntilNul 256 pathPtr
    if (ByteArray.mk path.toArray).validateUTF8 then some path else none

end UserMemory

structure Arguments where
  a0 : Address
  a1 : Address
  a2 : Address
  a3 : Address
  a4 : Address
  a5 : Address

/-- The source's negative constants and its other results. -/
inductive Return where
  | value (result : Int)
  | error (errno : Nat)
  deriving DecidableEq

/-- What a handler stores through the caller's pointers, and what it returns once
it does. -/
structure Outcome where
  stores : List Store
  result : Option Return

def fails (errno : Nat) : Outcome := ⟨[], some (.error errno)⟩

def returns (stores : List Store) (value : Int) : Outcome := ⟨stores, some (.value value)⟩

/-- What the handlers find when they run. `serialByte` and `keyByte` are what the
drivers have for `sys_read`, `entropy` is the sequence of `entropy_seed`. `elsewhere`
is what the other handlers return, about which nothing is assumed. -/
structure SyscallState where
  kernel : Kernel
  fs : RamFs
  memory : UserMemory
  serialByte : Option UInt8
  keyByte : Option UInt8
  hasInput : Bool
  entropy : Nat → BitVec 64
  versionFull : Bytes
  elsewhere : Nat → Arguments → Option Return
  located : ∀ task, kernel.currentTask = some task → task.cwd < maxInodes

namespace SyscallState

def cwd (state : SyscallState) : InodeIndex :=
  match present : state.kernel.currentTask with
  | some task => ⟨task.cwd, state.located task present⟩
  | none => rootInode

def atCwd (state : SyscallState) (dirfd : Address) : InodeIndex :=
  if dirfd.toInt = -100 then state.cwd
  else
    match currentFdGet state.kernel dirfd.toNat with
    | some (.vfsDir inode _) => if bound : inode < maxInodes then ⟨inode, bound⟩ else state.cwd
    | some (.vfsFile inode _ _) => if bound : inode < maxInodes then ⟨inode, bound⟩ else state.cwd
    | _ => state.cwd

end SyscallState

/-- `as isize`. -/
def asIsize (value : Nat) : Int := (BitVec.ofNat 64 value).toInt

def crToLf (byte : UInt8) : UInt8 := if byte = 0x0D then 0x0A else byte

/-- The loop on the terminal; a round without a byte goes to `block_on_tty` and
the next one finds the next state. -/
def readStdin (buf : Address) : List SyscallState → Outcome
  | [] => ⟨[], none⟩
  | state :: later =>
      match state.serialByte with
      | some byte => returns [⟨buf, [crToLf byte]⟩] 1
      | none =>
          match state.keyByte with
          | some byte => returns [⟨buf, [crToLf byte]⟩] 1
          | none => readStdin buf later

/-- The loop on a pipe, up to and from `block_on_pipe`. -/
def readFromPipe (idx : Nat) (buf : Address) (len : Nat) : List SyscallState → Outcome
  | [] => ⟨[], none⟩
  | state :: later =>
      let bytes := (pipeRead state.kernel.pool idx len).2
      if bytes ≠ [] then returns [⟨buf, bytes⟩] bytes.length
      else if !pipeWriteOpen state.kernel.pool idx then returns [] 0
      else readFromPipe idx buf len later

def readInode (fs : RamFs) (idx offset len : Nat) : Bytes :=
  if bound : idx < maxInodes then fs.inodeRead ⟨idx, bound⟩ offset len else []

/-- Eight bytes of each value, as many as are asked for. -/
def seedBytes (seeds : Nat → BitVec 64) (len : Nat) : Bytes :=
  ((List.range ((len + 7) / 8)).flatMap fun k => leBytes 8 (seeds k).toNat).take len

def sysRead (state : SyscallState) (later : List SyscallState) (fd : Nat) (buf : Address)
    (len : Nat) : Outcome :=
  if len = 0 then returns [] 0
  else if buf = 0 then fails 14
  else
    match currentFdGet state.kernel fd with
    | none => fails 9
    | some .stdin => readStdin buf (state :: later)
    | some (.vfsFile inode offset _) =>
        let bytes := readInode state.fs inode offset len
        returns [⟨buf, bytes⟩] bytes.length
    | some (.pipeRead idx) => readFromPipe idx buf len (state :: later)
    | some (.socketPair readIdx _) => readFromPipe readIdx buf len (state :: later)
    | some .devNull => returns [] 0
    | some .devZero => returns [⟨buf, List.replicate len 0⟩] (asIsize len)
    | some .devUrandom => returns [⟨buf, seedBytes state.entropy len⟩] (asIsize len)
    | some (.vfsDir _ _) => fails 21
    | some .stdout => fails 9
    | some .stderr => fails 9
    | some (.pipeWrite _) => fails 9
    | some .empty => fails 9

/-- The seeds of `sys_getrandom`, each from the one before. -/
def nextSeed (seed : BitVec 64) : BitVec 64 := seed * 0x9e3779b97f4a7c15#64 + 0x6c62272e07bb0142#64

def sysGetrandom (state : SyscallState) (buf : Address) (len : Nat) : Outcome :=
  if buf = 0 then fails 14
  else
    returns [⟨buf, seedBytes (fun k => nextSeed^[k + 1] (state.entropy 0)) len⟩] (asIsize len)

/-- `sys_getdents64` as the directory model has it. -/
def getdents64 (state : SyscallState) (fd : Nat) (buf : Address) (count : Nat) : Outcome :=
  if buf = 0 ∨ count = 0 then fails 22
  else
    match state.kernel.currentTask with
    | none => fails 9
    | some task =>
        match FdTable.get task.fdTable fd with
        | some (.vfsDir _ _) =>
            let written := (sysGetdents64 state.fs task.fdTable fd buf.toNat count).2.2
            returns [⟨buf, written⟩] written.length
        | some _ => fails 20
        | none => fails 9

structure Stat where
  dev : Nat
  ino : Nat
  nlink : Nat
  mode : Nat
  uid : Nat
  gid : Nat
  rdev : Nat
  size : Nat
  blksize : Nat
  blocks : Nat

namespace Stat

/-- `#[repr(C)]`: the padding, the times and the unused words stay zero. -/
def bytes (stat : Stat) : Bytes :=
  leBytes 8 stat.dev ++ leBytes 8 stat.ino ++ leBytes 8 stat.nlink ++ leBytes 4 stat.mode ++
    leBytes 4 stat.uid ++ leBytes 4 stat.gid ++ leBytes 4 0 ++ leBytes 8 stat.rdev ++
    leBytes 8 stat.size ++ leBytes 8 stat.blksize ++ leBytes 8 stat.blocks ++
    List.replicate 72 0

def inode (idx : Nat) (inode : Inode) : Stat :=
  let size := if inode.kind = .dir then 4096 else inode.size
  { dev := 1
    ino := idx
    nlink := 1
    mode := (if inode.kind = .dir then 0o040000 else 0o100000) ||| inode.mode.toNat
    uid := inode.uid.toNat
    gid := inode.gid.toNat
    rdev := 0
    size := size
    blksize := 4096
    blocks := (size + 511) / 512 }

def tty (fd : Nat) : Stat :=
  { dev := 5
    ino := fd + 1
    nlink := 1
    mode := 0x2190
    uid := 0
    gid := 0
    rdev := 4 * 256 + 64
    size := 0
    blksize := 1024
    blocks := 0 }

/-- As `sys_fstat` fills it; `fill_dev_stat` takes the number from `rdev`. -/
def device (ino rdev : Nat) : Stat :=
  { dev := 1
    ino := ino
    nlink := 1
    mode := 0x2180
    uid := 0
    gid := 0
    rdev := rdev
    size := 0
    blksize := 4096
    blocks := 0 }

end Stat

def fillStat (buf : Address) (stat : Stat) : Outcome := returns [⟨buf, stat.bytes⟩] 0

def fillInodeStat (state : SyscallState) (buf : Address) (idx : Nat) : Outcome :=
  if buf = 0 then fails 14
  else if bound : idx < maxInodes then
    if (state.fs.inodes ⟨idx, bound⟩).used then
      fillStat buf (Stat.inode idx (state.fs.inodes ⟨idx, bound⟩))
    else fails 2
  else fails 2

/-- The device paths that `sys_stat` and `sys_newfstatat` know. -/
def devStat (path : Bytes) : Option Stat :=
  if path = ascii ['/', 'd', 'e', 'v', '/', 'n', 'u', 'l', 'l'] then
    some (Stat.device 3 259)
  else if path = ascii ['/', 'd', 'e', 'v', '/', 'z', 'e', 'r', 'o'] then
    some (Stat.device 5 261)
  else if path = ascii ['/', 'd', 'e', 'v', '/', 'u', 'r', 'a', 'n', 'd', 'o', 'm'] ∨
      path = ascii ['/', 'd', 'e', 'v', '/', 'r', 'a', 'n', 'd', 'o', 'm'] then
    some (Stat.device 9 265)
  else if path = ascii ['/', 'd', 'e', 'v', '/', 't', 't', 'y'] ∨
      path = ascii ['/', 'd', 'e', 'v', '/', 'c', 'o', 'n', 's', 'o', 'l', 'e'] then
    some (Stat.tty 0)
  else none

/-- The common end of `sys_stat` and `sys_newfstatat`. -/
def statPath (state : SyscallState) (cwd : InodeIndex) (path : Bytes) (buf : Address) : Outcome :=
  match devStat path with
  | some stat => fillStat buf stat
  | none =>
      match state.fs.resolve path cwd with
      | some idx => fillInodeStat state buf idx.val
      | none => fails 2

def sysStat (state : SyscallState) (pathPtr buf : Address) : Outcome :=
  if buf = 0 then fails 14
  else
    match state.memory.readPath pathPtr with
    | some path => if path = [] then fails 2 else statPath state state.cwd path buf
    | none => fails 2

def sysFstat (state : SyscallState) (fd : Nat) (buf : Address) : Outcome :=
  if buf = 0 then fails 14
  else
    match currentFdGet state.kernel fd with
    | none => fails 9
    | some (.vfsFile inode _ _) => fillInodeStat state buf inode
    | some (.vfsDir inode _) => fillInodeStat state buf inode
    | some .stdin => fillStat buf (Stat.tty fd)
    | some .stdout => fillStat buf (Stat.tty fd)
    | some .stderr => fillStat buf (Stat.tty fd)
    | some .devNull => fillStat buf (Stat.device 3 259)
    | some .devZero => fillStat buf (Stat.device 3 261)
    | some .devUrandom => fillStat buf (Stat.device 3 265)
    | some _ => fails 9

def sysNewfstatat (state : SyscallState) (dirfd pathPtr buf : Address) : Outcome :=
  if buf = 0 then fails 14
  else
    match state.memory.readPath pathPtr with
    | none => fails 14
    | some path =>
        if path = [] then
          if dirfd.toInt = -100 then fails 22 else sysFstat state dirfd.toNat buf
        else statPath state (state.atCwd dirfd) path buf

/-- The two descriptors of a call that fills `first` and `second`. -/
def fdPair (kernel : Kernel) (first second : FdEntry) : Option (Fd × Fd) :=
  let opened := currentFdAlloc kernel first
  match opened.2, (currentFdAlloc opened.1 second).2 with
  | some r, some w => some (r, w)
  | _, _ => none

def storePair (ptr : Address) : Option (Fd × Fd) → Outcome
  | some (r, w) => returns [⟨ptr, leBytes 4 r.val⟩, ⟨ptr + 4, leBytes 4 w.val⟩] 0
  | none => fails 24

def sysPipe (state : SyscallState) (fdsPtr : Address) : Outcome :=
  if fdsPtr = 0 then fails 14
  else
    match allocPipe state.kernel.pool with
    | none => fails 24
    | some (idx, pool) =>
        storePair fdsPtr
          (fdPair { state.kernel with pool := pool } (.pipeRead idx.val) (.pipeWrite idx.val))

def sysSocketpair (state : SyscallState) (svPtr : Address) : Outcome :=
  if svPtr = 0 then fails 14
  else
    match allocPipe state.kernel.pool with
    | none => fails 24
    | some (a, poolA) =>
        match allocPipe poolA with
        | none => fails 24
        | some (b, poolB) =>
            storePair svPtr
              (fdPair { state.kernel with pool := poolB } (.socketPair a.val b.val)
                (.socketPair b.val a.val))

def tiocgwinsz : Nat := 0x5413

def isTty : FdEntry → Bool
  | .stdin => true
  | .stdout => true
  | .stderr => true
  | _ => false

def sysIoctl (state : SyscallState) (fd cmd : Nat) (arg : Address) : Outcome :=
  match currentFdGet state.kernel fd with
  | none => fails 9
  | some entry =>
      if !isTty entry then fails 25
      else if cmd = tiocgwinsz then
        if arg = 0 then fails 14
        else
          returns [⟨arg, leBytes 2 24⟩, ⟨arg + 2, leBytes 2 80⟩, ⟨arg + 4, leBytes 2 0⟩,
            ⟨arg + 6, leBytes 2 0⟩] 0
      else fails 25

def pollIn : BitVec 16 := 0x001

def pollOut : BitVec 16 := 0x004

def pollErr : BitVec 16 := 0x008

def pollHup : BitVec 16 := 0x010

def pollNval : BitVec 16 := 0x020

def wants (events flag : BitVec 16) : Bool := events &&& flag != 0

/-- The answer for the reading side: what is added to `revents` and to `ready`. -/
def pollReading (pool : Pool) (idx : Nat) (events : BitVec 16) : BitVec 16 × Nat :=
  if wants events pollIn then
    if pipeHasData pool idx then (pollIn, 1)
    else if !pipeWriteOpen pool idx then (pollHup, 1)
    else (0, 0)
  else (0, 0)

def pollWriting (pool : Pool) (idx : Nat) (events : BitVec 16) : BitVec 16 × Nat :=
  if wants events pollOut then
    if pipeReadOpen pool idx then (pollOut, 1) else (pollErr ||| pollHup, 1)
  else (0, 0)

/-- `revents` and what is added to `ready` for one entry. -/
def pollEntry (state : SyscallState) (fd : Int) (events : BitVec 16) : BitVec 16 × Nat :=
  if fd < 0 then (0, 0)
  else
    match currentFdGet state.kernel fd.toNat with
    | none => (pollNval, 1)
    | some .stdin => if wants events pollIn && state.hasInput then (pollIn, 1) else (0, 0)
    | some .stdout => if wants events pollOut then (pollOut, 1) else (0, 0)
    | some .stderr => if wants events pollOut then (pollOut, 1) else (0, 0)
    | some .devNull => if wants events pollOut then (pollOut, 1) else (0, 0)
    | some .devZero => if wants events pollOut then (pollOut, 1) else (0, 0)
    | some .devUrandom => if wants events pollOut then (pollOut, 1) else (0, 0)
    | some (.vfsFile _ _ _) =>
        let want := events &&& (pollIn ||| pollOut)
        if want ≠ 0 then (want, 1) else (0, 0)
    | some (.pipeRead idx) => pollReading state.kernel.pool idx events
    | some (.pipeWrite idx) => pollWriting state.kernel.pool idx events
    | some (.socketPair readIdx writeIdx) =>
        let reading := pollReading state.kernel.pool readIdx events
        let writing := pollWriting state.kernel.pool writeIdx events
        (reading.1 ||| writing.1, reading.2 + writing.2)
    | some (.vfsDir _ _) => (pollNval, 1)
    | some .empty => (pollNval, 1)

/-- The loop over the entries, each of which is read when its turn comes. -/
def pollLoop (state : SyscallState) : Nat → Address → UserMemory → List Store × Nat
  | 0, _, _ => ([], 0)
  | count + 1, pfd, memory =>
      let fd := (BitVec.ofNat 32 (fromLe (memory.read pfd 4))).toInt
      let events := BitVec.ofNat 16 (fromLe (memory.read (pfd + 4) 2))
      let answer := pollEntry state fd events
      let store : Store := ⟨pfd + 6, leBytes 2 answer.1.toNat⟩
      let rest := pollLoop state count (pfd + 8) (memory.apply store)
      (store :: rest.1, answer.2 + rest.2)

def sysPoll (state : SyscallState) (fdsPtr : Address) (nfds : Nat) (timeoutMs : Int) : Outcome :=
  if nfds = 0 then returns [] 0
  else if fdsPtr = 0 then fails 14
  else
    let polled := pollLoop state nfds fdsPtr state.memory
    let ready := (BitVec.ofNat 32 polled.2).toInt
    returns polled.1 (if 0 < ready ∨ timeoutMs = 0 then ready else 0)

/-- `RamFs::inode_path`: the inodes from `idx` up, at most 16. -/
def pathStack (fs : RamFs) : Nat → InodeIndex → List InodeIndex
  | 0, _ => []
  | depth + 1, idx =>
      if idx = rootInode then []
      else if !(fs.inodes idx).used then []
      else if (fs.inodes idx).parent = idx then [idx]
      else idx :: pathStack fs depth (fs.inodes idx).parent

def appendPart (fs : RamFs) (len : Nat) (written : Bytes) (idx : InodeIndex) : Bytes :=
  let slashed := if written.length < len then written ++ [slash] else written
  slashed ++ (fs.inodes idx).name.take (len - slashed.length)

def inodePath (fs : RamFs) (idx : InodeIndex) (len : Nat) : Bytes × Nat :=
  if idx = rootInode then ([slash].take len, 1)
  else
    let written := (pathStack fs 16 idx).reverse.foldl (appendPart fs len) []
    (written, written.length)

def sysGetcwd (state : SyscallState) (buf : Address) (size : Nat) : Outcome :=
  if buf = 0 ∨ size = 0 then fails 14
  else
    let path := inodePath state.fs state.cwd size
    if path.2 = 0 ∨ size ≤ path.2 then ⟨[⟨buf, path.1⟩], some (.error 34)⟩
    else returns [⟨buf, path.1⟩, ⟨buf + BitVec.ofNat 64 path.2, [0]⟩] buf.toInt

/-- The loop of `waitpid`, a round for each state in which the caller runs. -/
def wait4Loop (target : Nat) (statusPtr : Address) (noHang : Bool) :
    List SyscallState → Outcome
  | [] => ⟨[], none⟩
  | state :: later =>
      match state.kernel.waitpid target noHang with
      | none => ⟨[], none⟩
      | some (_, .reaped pid status) =>
          returns (if statusPtr = 0 then [] else [⟨statusPtr, leBytes 4 status.toNat⟩]) pid
      | some (_, .noChild) => fails 10
      | some (_, .wouldHang) => returns [] 0
      | some (_, .blocked) => wait4Loop target statusPtr noHang later

def sysWait4 (state : SyscallState) (later : List SyscallState) (pid statusPtr options : Address) :
    Outcome :=
  wait4Loop pid.toNat statusPtr (options.getLsbD 0) (state :: later)

def sysSigaltstack (oldSs : Address) : Outcome :=
  returns (if oldSs = 0 then [] else [⟨oldSs, List.replicate 24 0⟩, ⟨oldSs + 8, leBytes 4 2⟩]) 0

/-- `fill` of `sys_uname`: what it stores in one field. -/
def utsField (text : Bytes) : Bytes := text.take 64 ++ [0]

def sysUname (state : SyscallState) (buf : Address) : Outcome :=
  if buf = 0 then fails 14
  else
    returns
      [⟨buf, utsField (ascii ['F', 'e', 'r', 'r', 'u', 'g', 'e', 'm'])⟩,
        ⟨buf + 65, utsField (ascii ['f', 'e', 'r', 'r', 'u', 'g', 'e', 'm'])⟩,
        ⟨buf + 130, utsField state.versionFull⟩,
        ⟨buf + 195, utsField (ascii ['#', '1', ' ', 'S', 'M', 'P'])⟩,
        ⟨buf + 260, utsField (ascii ['x', '8', '6', '_', '6', '4'])⟩] 0

def sysRtSigaction (sig : Nat) (oact : Address) (sigsetsize : Nat) : Outcome :=
  if sig = 0 ∨ 64 < sig then fails 22
  else returns (if oact = 0 then [] else [⟨oact, List.replicate (24 + min sigsetsize 128) 0⟩]) 0

def sysRtSigprocmask (oldset : Address) (sigsetsize : Nat) : Outcome :=
  returns (if oldset = 0 then [] else [⟨oldset, List.replicate (min sigsetsize 128) 0⟩]) 0

def archSetFs : Nat := 0x1002

def archGetFs : Nat := 0x1003

def sysArchPrctl (state : SyscallState) (code : Nat) (addr : Address) : Outcome :=
  if code = archSetFs then returns [] 0
  else if code = archGetFs then
    if addr = 0 then fails 14
    else returns [⟨addr, leBytes 8 ((state.kernel.currentTask.map Task.fsBase).getD 0)⟩] 0
  else fails 22

def sysClockGettime (state : SyscallState) (clockId : Nat) (ts : Address) : Outcome :=
  if ts = 0 then fails 14
  else if 1 < clockId then fails 22
  else
    returns [⟨ts, leBytes 8 (state.kernel.tickCount / 100)⟩,
      ⟨ts + 8, leBytes 8 (state.kernel.tickCount % 100 * 10000000)⟩] 0

@[match_pattern] def nrRead : Nat := 0
@[match_pattern] def nrStat : Nat := 4
@[match_pattern] def nrFstat : Nat := 5
@[match_pattern] def nrLstat : Nat := 6
@[match_pattern] def nrPoll : Nat := 7
@[match_pattern] def nrRtSigaction : Nat := 13
@[match_pattern] def nrRtSigprocmask : Nat := 14
@[match_pattern] def nrIoctl : Nat := 16
@[match_pattern] def nrPipe : Nat := 22
@[match_pattern] def nrRecvfrom : Nat := 45
@[match_pattern] def nrSocketpair : Nat := 53
@[match_pattern] def nrWait4 : Nat := 61
@[match_pattern] def nrUname : Nat := 63
@[match_pattern] def nrGetcwd : Nat := 79
@[match_pattern] def nrSigaltstack : Nat := 131
@[match_pattern] def nrArchPrctl : Nat := 158
@[match_pattern] def nrGetdents64 : Nat := 217
@[match_pattern] def nrClockGettime : Nat := 228
@[match_pattern] def nrNewfstatat : Nat := 262
@[match_pattern] def nrPipe2 : Nat := 293
@[match_pattern] def nrGetrandom : Nat := 318

/-- `later` are the states in which a call that blocks goes on. The numbers that are
left to `elsewhere` have handlers that store through no pointer of the caller: `write`,
`open`, `nanosleep`, `futex` and the like only read through theirs. -/
def dispatch (state : SyscallState) (later : List SyscallState) (nr : Nat) (args : Arguments) :
    Outcome :=
  match nr with
  | nrRead => sysRead state later args.a0.toNat args.a1 args.a2.toNat
  | nrPoll => sysPoll state args.a0 args.a1.toNat (args.a2.truncate 32).toInt
  | nrRtSigaction => sysRtSigaction args.a0.toNat args.a2 args.a3.toNat
  | nrRtSigprocmask => sysRtSigprocmask args.a2 args.a3.toNat
  | nrArchPrctl => sysArchPrctl state args.a0.toNat args.a1
  | nrSigaltstack => sysSigaltstack args.a1
  | nrGetrandom => sysGetrandom state args.a0 args.a1.toNat
  | nrNewfstatat => sysNewfstatat state args.a0 args.a1 args.a2
  | nrStat => sysStat state args.a0 args.a1
  | nrFstat => sysFstat state args.a0.toNat args.a1
  | nrLstat => sysStat state args.a0 args.a1
  | nrIoctl => sysIoctl state args.a0.toNat args.a1.toNat args.a2
  | nrPipe => sysPipe state args.a0
  | nrPipe2 => sysPipe state args.a0
  | nrSocketpair => sysSocketpair state args.a3
  | nrRecvfrom => sysRead state later args.a0.toNat args.a1 args.a2.toNat
  | nrGetcwd => sysGetcwd state args.a0 args.a1.toNat
  | nrWait4 => sysWait4 state later args.a0 args.a1 args.a2
  | nrUname => sysUname state args.a0
  | nrClockGettime => sysClockGettime state args.a0.toNat args.a1
  | nrGetdents64 => getdents64 state args.a0.toNat args.a1 args.a2.toNat
  | _ => ⟨[], state.elsewhere nr args⟩

end Ferrugem.SyscallStores
