import Mathlib.Data.BitVec
import Mathlib.Data.List.DropRight
import Ferrugem.Library.EventSystem

/-!
# The RAM filesystem

`kernel/src/vfs/ramfs.rs` and `fs::init`. Inode indices are `Fin 64`: every
index the source uses is a loop variable below `MAX_INODES`, the result of
`resolve`, or a working directory that was one. A path is its bytes; a name is
the first `name_len` bytes of the buffer in the inode. `data` is the whole
buffer, of which the bytes from `size` on are stale but stay readable after a
later extension. Owner, group and mode are the `u16` values of the source.
-/

namespace Ferrugem.RamFsModel

set_option autoImplicit false

def maxInodes : Nat := 64

def maxName : Nat := 64

def maxData : Nat := 4096

abbrev InodeIndex := Fin maxInodes

def rootInode : InodeIndex := ⟨0, by decide⟩

abbrev Bytes := List UInt8

def slash : UInt8 := 0x2F

def dot : Bytes := [0x2E]

def dotDot : Bytes := [0x2E, 0x2E]

def ascii (text : List Char) : Bytes := text.map fun c => UInt8.ofNat c.toNat

inductive InodeKind where
  | file
  | dir
  deriving DecidableEq

structure Inode where
  used : Bool
  kind : InodeKind
  name : Bytes
  parent : InodeIndex
  uid : BitVec 16
  gid : BitVec 16
  mode : BitVec 16
  data : Nat → UInt8
  size : Nat

namespace Inode

def empty : Inode where
  used := false
  kind := .file
  name := []
  parent := rootInode
  uid := 0
  gid := 0
  mode := 0o644
  data := fun _ => 0
  size := 0

def setName (inode : Inode) (name : Bytes) : Inode :=
  { inode with name := name.take maxName }

/-- The end of `RamFs::write`: the bytes after the new content stay. -/
def setContent (inode : Inode) (content : Bytes) : Inode :=
  { inode with
    data := fun i => if i < min content.length maxData then content.getD i 0 else inode.data i
    size := min content.length maxData }

end Inode

structure RamFs where
  inodes : InodeIndex → Inode

/-- `split_parent`. `front` is the trimmed path up to and with its last slash. -/
def splitParent (path : Bytes) : Bytes × Bytes :=
  let trimmed := path.rdropWhile (· == slash)
  let front := trimmed.rdropWhile (· != slash)
  if front = [] then ([], trimmed)
  else (if front.length = 1 then [slash] else front.dropLast, trimmed.rtakeWhile (· != slash))

namespace RamFs

def lookupIn (fs : RamFs) (parent : InodeIndex) (name : Bytes) : Option InodeIndex :=
  if name = dot then some parent
  else if name = dotDot then some (fs.inodes parent).parent
  else
    (List.finRange maxInodes).find? fun i =>
      (fs.inodes i).used && (fs.inodes i).parent == parent && i != parent &&
        (fs.inodes i).name == name

/-- The loop of `resolve` over the parts of the path. -/
def walk (fs : RamFs) : InodeIndex → List Bytes → Option InodeIndex
  | cur, [] => some cur
  | cur, part :: rest =>
      if part = [] ∨ part = dot then walk fs cur rest
      else (fs.lookupIn cur part).bind fun next => walk fs next rest

def walkStart (path : Bytes) (cwd : InodeIndex) : InodeIndex :=
  if path.head? = some slash then rootInode else cwd

def resolve (fs : RamFs) (path : Bytes) (cwd : InodeIndex) : Option InodeIndex :=
  let stripped := path.dropWhile (· == slash)
  if stripped = [] then some (walkStart path cwd)
  else fs.walk (walkStart path cwd) (stripped.splitOn slash)

/-- The directory part of a path as the callers of `split_parent` resolve it. -/
def parentPath (path : Bytes) : Bytes :=
  if (splitParent path).1 = [] then dot else (splitParent path).1

def resolveParent (fs : RamFs) (path : Bytes) (cwd : InodeIndex) : Option InodeIndex :=
  fs.resolve (parentPath path) cwd

def setInode (fs : RamFs) (idx : InodeIndex) (inode : Inode) : RamFs :=
  { fs with inodes := Function.update fs.inodes idx inode }

def modify (fs : RamFs) (idx : InodeIndex) (change : Inode → Inode) : RamFs :=
  fs.setInode idx (change (fs.inodes idx))

/-- The inode `alloc` hands out. -/
def alloc (fs : RamFs) : Option InodeIndex :=
  (List.finRange maxInodes).tail.find? fun i => !(fs.inodes i).used

/-- `alloc`'s fresh inode with the fields that `write`, `mkdir` and `touch`
then set. -/
def newInode (kind : InodeKind) (parent : InodeIndex) (uid gid mode : BitVec 16) (name : Bytes) :
    Inode :=
  { Inode.empty with
    used := true
    kind := kind
    parent := parent
    uid := uid
    gid := gid
    mode := mode }.setName name

def release (fs : RamFs) (idx : InodeIndex) : RamFs :=
  fs.modify idx fun inode => { inode with used := false }

/-- `op` is 4 to read and 2 to write. -/
def perm (fs : RamFs) (idx : InodeIndex) (uid gid op : BitVec 16) : Bool :=
  if uid = 0 then true
  else
    let inode := fs.inodes idx
    let bits :=
      if inode.uid = uid then inode.mode >>> 6
      else if inode.gid = gid then inode.mode >>> 3
      else inode.mode
    bits &&& op != 0

/-- The creating branch that `write`, `mkdir` and `touch` share, once the
parent is resolved and checked. -/
def create (fs : RamFs) (kind : InodeKind) (parent : InodeIndex) (uid gid mode : BitVec 16)
    (name content : Bytes) : RamFs × Bool :=
  match fs.alloc with
  | some idx =>
      (fs.setInode idx ((newInode kind parent uid gid mode name).setContent content), true)
  | none => (fs, false)

def write (fs : RamFs) (path : Bytes) (cwd : InodeIndex) (content : Bytes)
    (uid gid : BitVec 16) : RamFs × Bool :=
  match fs.resolve path cwd with
  | some idx =>
      if (fs.inodes idx).kind = .dir then (fs, false)
      else if !fs.perm idx uid gid 2#16 then (fs, false)
      else (fs.modify idx fun inode => inode.setContent content, true)
  | none =>
      match fs.resolveParent path cwd with
      | some parent =>
          if !fs.perm parent uid gid 2#16 then (fs, false)
          else fs.create .file parent uid gid 0o644#16 (splitParent path).2 content
      | none => (fs, false)

def readAt (fs : RamFs) (path : Bytes) (cwd : InodeIndex) (uid gid : BitVec 16) : Option Bytes :=
  (fs.resolve path cwd).bind fun idx =>
    if (fs.inodes idx).kind = .dir then none
    else if !fs.perm idx uid gid 4#16 then none
    else some ((List.range (fs.inodes idx).size).map (fs.inodes idx).data)

def mkdir (fs : RamFs) (path : Bytes) (cwd : InodeIndex) (uid gid mode : BitVec 16) :
    RamFs × Bool :=
  match fs.resolveParent path cwd with
  | some parent =>
      if (fs.inodes parent).kind ≠ .dir then (fs, false)
      else if !fs.perm parent uid gid 2#16 then (fs, false)
      else if (fs.lookupIn parent (splitParent path).2).isSome then (fs, false)
      else fs.create .dir parent uid gid (mode &&& 0o777) (splitParent path).2 []
  | none => (fs, false)

def hasChild (fs : RamFs) (idx : InodeIndex) : Bool :=
  (List.finRange maxInodes).any fun i =>
    i != idx && (fs.inodes i).used && (fs.inodes i).parent == idx

def rmdir (fs : RamFs) (path : Bytes) (cwd : InodeIndex) (uid gid : BitVec 16) : RamFs × Bool :=
  match fs.resolve path cwd with
  | some idx =>
      if idx = rootInode then (fs, false)
      else if (fs.inodes idx).kind ≠ .dir then (fs, false)
      else if fs.hasChild idx then (fs, false)
      else if !fs.perm (fs.inodes idx).parent uid gid 2#16 then (fs, false)
      else (fs.release idx, true)
  | none => (fs, false)

def touch (fs : RamFs) (path : Bytes) (cwd : InodeIndex) (uid gid : BitVec 16) : RamFs × Bool :=
  if (fs.resolve path cwd).isSome then (fs, true)
  else
    match fs.resolveParent path cwd with
    | some parent =>
        if !fs.perm parent uid gid 2#16 then (fs, false)
        else fs.create .file parent uid gid 0o644#16 (splitParent path).2 []
    | none => (fs, false)

def unlink (fs : RamFs) (path : Bytes) (cwd : InodeIndex) (uid gid : BitVec 16) :
    RamFs × Bool :=
  match fs.resolve path cwd with
  | some idx =>
      if idx = rootInode then (fs, false)
      else if (fs.inodes idx).kind = .dir then (fs, false)
      else if uid ≠ 0 ∧ (fs.inodes idx).uid ≠ uid ∧ !fs.perm (fs.inodes idx).parent uid gid 2#16 then
        (fs, false)
      else (fs.release idx, true)
  | none => (fs, false)

def chmod (fs : RamFs) (path : Bytes) (cwd : InodeIndex) (mode callerUid : BitVec 16) :
    RamFs × Bool :=
  match fs.resolve path cwd with
  | some idx =>
      if callerUid ≠ 0 ∧ (fs.inodes idx).uid ≠ callerUid then (fs, false)
      else (fs.modify idx fun inode => { inode with mode := mode &&& 0o777 }, true)
  | none => (fs, false)

def chown (fs : RamFs) (path : Bytes) (cwd : InodeIndex) (newUid newGid callerUid : BitVec 16) :
    RamFs × Bool :=
  if callerUid ≠ 0 then (fs, false)
  else
    match fs.resolve path cwd with
    | some idx => (fs.modify idx fun inode => { inode with uid := newUid, gid := newGid }, true)
    | none => (fs, false)

/-- The last two statements of `rename`. -/
def move (fs : RamFs) (src dstParent : InodeIndex) (name : Bytes) : RamFs :=
  fs.modify src fun inode => { inode with parent := dstParent }.setName name

/-- `rename` once source and destination directory are resolved and checked. -/
def renameTo (fs : RamFs) (src dstParent : InodeIndex) (name : Bytes) : RamFs × Bool :=
  match fs.lookupIn dstParent name with
  | some dst =>
      if dst = src then (fs, true)
      else if (fs.inodes dst).kind = .dir then (fs, false)
      else ((fs.release dst).move src dstParent name, true)
  | none => (fs.move src dstParent name, true)

def rename (fs : RamFs) (srcPath dstPath : Bytes) (cwd : InodeIndex) (uid gid : BitVec 16) :
    RamFs × Bool :=
  match fs.resolve srcPath cwd with
  | some src =>
      if src = rootInode then (fs, false)
      else if !fs.perm (fs.inodes src).parent uid gid 2#16 then (fs, false)
      else
        match fs.resolveParent dstPath cwd with
        | some dstParent =>
            if !fs.perm dstParent uid gid 2#16 then (fs, false)
            else fs.renameTo src dstParent (splitParent dstPath).2
        | none => (fs, false)
  | none => (fs, false)

def openCheck (fs : RamFs) (path : Bytes) (cwd : InodeIndex) (uid gid : BitVec 16)
    (write : Bool) : Option InodeIndex :=
  (fs.resolve path cwd).bind fun idx =>
    if (fs.inodes idx).kind = .dir then none
    else if !fs.perm idx uid gid (if write then 2#16 else 4#16) then none
    else some idx

def inodeRead (fs : RamFs) (idx : InodeIndex) (offset length : Nat) : Bytes :=
  let inode := fs.inodes idx
  if !inode.used || inode.kind = .dir then []
  else
    let start := min offset inode.size
    (List.range (min length (inode.size - start))).map fun i => inode.data (start + i)

/-- `offset + data.len()` wraps around. -/
def inodeWrite (fs : RamFs) (idx : InodeIndex) (offset : Nat) (content : Bytes) : RamFs × Nat :=
  let inode := fs.inodes idx
  if !inode.used || inode.kind = .dir then (fs, 0)
  else
    let stop := min ((offset + content.length) % 2 ^ 64) maxData
    if stop - offset = 0 then (fs, 0)
    else
      (fs.setInode idx
        { inode with
          data := fun i =>
            if offset ≤ i ∧ i < stop then content.getD (i - offset) 0 else inode.data i
          size := max inode.size stop },
        stop - offset)

def new : RamFs where
  inodes := fun _ => Inode.empty

def initRoot (fs : RamFs) : RamFs :=
  fs.modify rootInode fun inode =>
    { inode with
      used := true
      kind := .dir
      name := [slash]
      parent := rootInode
      uid := 0
      gid := 0
      mode := 0o755 }

/-- `fs::init` up to its last call. -/
def initDirectories : RamFs :=
  let fs := new.initRoot
  let fs := (fs.mkdir (ascii ['/', 'e', 't', 'c']) rootInode 0 0 0o755).1
  let fs := (fs.mkdir (ascii ['/', 'h', 'o', 'm', 'e']) rootInode 0 0 0o755).1
  let fs := (fs.mkdir (ascii ['/', 't', 'm', 'p']) rootInode 0 0 0o777).1
  let fs := (fs.write (ascii ['/', 'e', 't', 'c', '/', 'h', 'o', 's', 't', 'n', 'a', 'm', 'e'])
    rootInode (ascii ['f', 'e', 'r', 'r', 'u', 'g', 'e', 'm', '\n']) 0 0).1
  let fs := (fs.write (ascii ['/', 'e', 't', 'c', '/', 'm', 'o', 't', 'd']) rootInode
    (ascii ['W', 'e', 'l', 'c', 'o', 'm', 'e', ' ', 't', 'o', ' ', 'F', 'e', 'r', 'r', 'u', 'g',
      'e', 'm', '!', '\n']) 0 0).1
  let fs := (fs.mkdir (ascii ['/', 'h', 'o', 'm', 'e', '/', 'f', 'e', 'r', 'r', 'u', 'g', 'e', 'm'])
    rootInode 1000 1000 0o755).1
  (fs.mkdir (ascii ['/', 'b', 'i', 'n']) rootInode 0 0 0o755).1

def helloPath : Bytes := ascii ['/', 'b', 'i', 'n', '/', 'h', 'e', 'l', 'l', 'o']

/-- `fs::init`; the content of `/bin/hello` depends on the target. -/
def init (hello : Bytes) : RamFs :=
  (initDirectories.write helloPath rootInode hello 0 0).1

end RamFs

inductive Operation where
  | mkdir (path : Bytes) (cwd : InodeIndex) (uid gid mode : BitVec 16)
  | rmdir (path : Bytes) (cwd : InodeIndex) (uid gid : BitVec 16)
  | touch (path : Bytes) (cwd : InodeIndex) (uid gid : BitVec 16)
  | write (path : Bytes) (cwd : InodeIndex) (content : Bytes) (uid gid : BitVec 16)
  | unlink (path : Bytes) (cwd : InodeIndex) (uid gid : BitVec 16)
  | rename (srcPath dstPath : Bytes) (cwd : InodeIndex) (uid gid : BitVec 16)
  | chmod (path : Bytes) (cwd : InodeIndex) (mode callerUid : BitVec 16)
  | chown (path : Bytes) (cwd : InodeIndex) (newUid newGid callerUid : BitVec 16)
  | inodeWrite (idx : InodeIndex) (offset : Nat) (content : Bytes)
  deriving DecidableEq

def RamFs.apply (fs : RamFs) : Operation → RamFs × Bool
  | .mkdir path cwd uid gid mode => fs.mkdir path cwd uid gid mode
  | .rmdir path cwd uid gid => fs.rmdir path cwd uid gid
  | .touch path cwd uid gid => fs.touch path cwd uid gid
  | .write path cwd content uid gid => fs.write path cwd content uid gid
  | .unlink path cwd uid gid => fs.unlink path cwd uid gid
  | .rename srcPath dstPath cwd uid gid => fs.rename srcPath dstPath cwd uid gid
  | .chmod path cwd mode callerUid => fs.chmod path cwd mode callerUid
  | .chown path cwd newUid newGid callerUid => fs.chown path cwd newUid newGid callerUid
  | .inodeWrite idx offset content =>
      ((fs.inodeWrite idx offset content).1, (fs.inodeWrite idx offset content).2 != 0)

/-- Every sequence of calls from `fs::init`. -/
def fsSystem (hello : Bytes) : EventSystem RamFs Operation Bool where
  init := RamFs.init hello
  step := fun fs operation => ((fs.apply operation).1, some (fs.apply operation).2)

inductive Effect (fs : RamFs) : Operation → RamFs × Bool → Prop where
  | keeps {operation : Operation} {succeeded : Bool}
      (created : ∀ path cwd uid gid mode, operation = .mkdir path cwd uid gid mode →
        succeeded = false)
      (written : ∀ path cwd content uid gid, operation = .write path cwd content uid gid →
        succeeded = false)
      (touched : ∀ path cwd uid gid, operation = .touch path cwd uid gid → succeeded = true →
        (fs.resolve path cwd).isSome = true) :
      Effect fs operation (fs, succeeded)
  | makes {path : Bytes} {cwd parent idx : InodeIndex} {uid gid mode : BitVec 16}
      (resolved : fs.resolveParent path cwd = some parent)
      (isDir : (fs.inodes parent).kind = .dir)
      (allowed : fs.perm parent uid gid 2#16 = true)
      (absent : fs.lookupIn parent (splitParent path).2 = none)
      (vacant : fs.alloc = some idx) :
      Effect fs (.mkdir path cwd uid gid mode)
        (fs.setInode idx
          ((RamFs.newInode .dir parent uid gid (mode &&& 0o777) (splitParent path).2).setContent
            []), true)
  | creates {operation : Operation} {path content : Bytes} {cwd parent idx : InodeIndex}
      {uid gid : BitVec 16}
      (source : operation = .touch path cwd uid gid ∧ content = [] ∨
        operation = .write path cwd content uid gid)
      (absent : fs.resolve path cwd = none)
      (resolved : fs.resolveParent path cwd = some parent)
      (allowed : fs.perm parent uid gid 2#16 = true)
      (vacant : fs.alloc = some idx) :
      Effect fs operation
        (fs.setInode idx
          ((RamFs.newInode .file parent uid gid 0o644#16 (splitParent path).2).setContent content),
          true)
  | overwrites {path content : Bytes} {cwd idx : InodeIndex} {uid gid : BitVec 16}
      (resolved : fs.resolve path cwd = some idx)
      (isFile : (fs.inodes idx).kind ≠ .dir)
      (allowed : fs.perm idx uid gid 2#16 = true) :
      Effect fs (.write path cwd content uid gid)
        (fs.modify idx fun inode => inode.setContent content, true)
  | removesDir {path : Bytes} {cwd idx : InodeIndex} {uid gid : BitVec 16}
      (resolved : fs.resolve path cwd = some idx)
      (notRoot : idx ≠ rootInode)
      (isDir : (fs.inodes idx).kind = .dir)
      (isEmpty : fs.hasChild idx = false)
      (allowed : fs.perm (fs.inodes idx).parent uid gid 2#16 = true) :
      Effect fs (.rmdir path cwd uid gid) (fs.release idx, true)
  | removesFile {path : Bytes} {cwd idx : InodeIndex} {uid gid : BitVec 16}
      (resolved : fs.resolve path cwd = some idx)
      (notRoot : idx ≠ rootInode)
      (isFile : (fs.inodes idx).kind ≠ .dir)
      (allowed : uid = 0 ∨ (fs.inodes idx).uid = uid ∨
        fs.perm (fs.inodes idx).parent uid gid 2#16 = true) :
      Effect fs (.unlink path cwd uid gid) (fs.release idx, true)
  | moves {srcPath dstPath : Bytes} {cwd src dstParent : InodeIndex} {uid gid : BitVec 16}
      (resolved : fs.resolve srcPath cwd = some src)
      (notRoot : src ≠ rootInode)
      (leaves : fs.perm (fs.inodes src).parent uid gid 2#16 = true)
      (target : fs.resolveParent dstPath cwd = some dstParent)
      (enters : fs.perm dstParent uid gid 2#16 = true)
      (absent : fs.lookupIn dstParent (splitParent dstPath).2 = none) :
      Effect fs (.rename srcPath dstPath cwd uid gid)
        (fs.move src dstParent (splitParent dstPath).2, true)
  | replaces {srcPath dstPath : Bytes} {cwd src dstParent dst : InodeIndex} {uid gid : BitVec 16}
      (resolved : fs.resolve srcPath cwd = some src)
      (notRoot : src ≠ rootInode)
      (leaves : fs.perm (fs.inodes src).parent uid gid 2#16 = true)
      (target : fs.resolveParent dstPath cwd = some dstParent)
      (enters : fs.perm dstParent uid gid 2#16 = true)
      (found : fs.lookupIn dstParent (splitParent dstPath).2 = some dst)
      (different : dst ≠ src)
      (isFile : (fs.inodes dst).kind ≠ .dir) :
      Effect fs (.rename srcPath dstPath cwd uid gid)
        ((fs.release dst).move src dstParent (splitParent dstPath).2, true)
  | changesMode {path : Bytes} {cwd idx : InodeIndex} {mode callerUid : BitVec 16}
      (resolved : fs.resolve path cwd = some idx)
      (allowed : callerUid = 0 ∨ (fs.inodes idx).uid = callerUid) :
      Effect fs (.chmod path cwd mode callerUid)
        (fs.modify idx fun inode => { inode with mode := mode &&& 0o777 }, true)
  | changesOwner {path : Bytes} {cwd idx : InodeIndex} {newUid newGid : BitVec 16}
      (resolved : fs.resolve path cwd = some idx) :
      Effect fs (.chown path cwd newUid newGid 0)
        (fs.modify idx fun inode => { inode with uid := newUid, gid := newGid }, true)
  | patches {idx : InodeIndex} {offset size : Nat} {content : Bytes} {data : Nat → UInt8}
      {succeeded : Bool}
      (isUsed : (fs.inodes idx).used = true)
      (isFile : (fs.inodes idx).kind ≠ .dir) :
      Effect fs (.inodeWrite idx offset content)
        (fs.modify idx fun inode => { inode with data := data, size := size }, succeeded)

theorem refused_effect (fs : RamFs) (operation : Operation) : Effect fs operation (fs, false) :=
  .keeps (fun _ _ _ _ _ _ => rfl) (fun _ _ _ _ _ _ => rfl)
    fun _ _ _ _ _ succeeded => by cases succeeded

theorem create_effect {fs : RamFs} {operation : Operation} {path content : Bytes}
    {cwd parent : InodeIndex} {uid gid : BitVec 16}
    (source : operation = .touch path cwd uid gid ∧ content = [] ∨
      operation = .write path cwd content uid gid)
    (absent : fs.resolve path cwd = none)
    (resolved : fs.resolveParent path cwd = some parent)
    (allowed : fs.perm parent uid gid 2#16 = true) :
    Effect fs operation
      (fs.create .file parent uid gid 0o644#16 (splitParent path).2 content) := by
  unfold RamFs.create
  cases vacant : fs.alloc with
  | none => exact refused_effect fs operation
  | some idx => exact .creates source absent resolved allowed vacant

theorem mkdir_effect (fs : RamFs) (path : Bytes) (cwd : InodeIndex) (uid gid mode : BitVec 16) :
    Effect fs (.mkdir path cwd uid gid mode) (fs.mkdir path cwd uid gid mode) := by
  unfold RamFs.mkdir
  cases resolved : fs.resolveParent path cwd with
  | none => exact refused_effect fs _
  | some parent =>
      dsimp only
      split_ifs with notDir denied present
      · exact refused_effect fs _
      · exact refused_effect fs _
      · exact refused_effect fs _
      · unfold RamFs.create
        cases vacant : fs.alloc with
        | none => exact refused_effect fs _
        | some idx =>
            refine .makes resolved (by simpa using notDir) (by simpa using denied) ?_ vacant
            simpa using present

theorem touch_effect (fs : RamFs) (path : Bytes) (cwd : InodeIndex) (uid gid : BitVec 16) :
    Effect fs (.touch path cwd uid gid) (fs.touch path cwd uid gid) := by
  unfold RamFs.touch
  split_ifs with present
  · refine .keeps (fun _ _ _ _ _ other => by cases other) (fun _ _ _ _ _ other => by cases other) ?_
    intro _ _ _ _ same _
    cases same
    exact present
  · have absent : fs.resolve path cwd = none := by simpa using present
    cases resolved : fs.resolveParent path cwd with
    | none => exact refused_effect fs _
    | some parent =>
        dsimp only
        split_ifs with denied
        · exact refused_effect fs _
        · exact create_effect (.inl ⟨rfl, rfl⟩) absent resolved (by simpa using denied)

theorem write_effect (fs : RamFs) (path : Bytes) (cwd : InodeIndex) (content : Bytes)
    (uid gid : BitVec 16) :
    Effect fs (.write path cwd content uid gid) (fs.write path cwd content uid gid) := by
  unfold RamFs.write
  cases found : fs.resolve path cwd with
  | some idx =>
      dsimp only
      split_ifs with isDir denied
      · exact refused_effect fs _
      · exact refused_effect fs _
      · exact .overwrites found isDir (by simpa using denied)
  | none =>
      cases resolved : fs.resolveParent path cwd with
      | none => exact refused_effect fs _
      | some parent =>
          dsimp only
          split_ifs with denied
          · exact refused_effect fs _
          · exact create_effect (.inr rfl) found resolved (by simpa using denied)

theorem rmdir_effect (fs : RamFs) (path : Bytes) (cwd : InodeIndex) (uid gid : BitVec 16) :
    Effect fs (.rmdir path cwd uid gid) (fs.rmdir path cwd uid gid) := by
  unfold RamFs.rmdir
  cases resolved : fs.resolve path cwd with
  | none => exact refused_effect fs _
  | some idx =>
      dsimp only
      split_ifs with isRoot notDir occupied denied
      · exact refused_effect fs _
      · exact refused_effect fs _
      · exact refused_effect fs _
      · exact refused_effect fs _
      · exact .removesDir resolved isRoot (by simpa using notDir) (by simpa using occupied)
          (by simpa using denied)

theorem unlink_effect (fs : RamFs) (path : Bytes) (cwd : InodeIndex) (uid gid : BitVec 16) :
    Effect fs (.unlink path cwd uid gid) (fs.unlink path cwd uid gid) := by
  unfold RamFs.unlink
  cases resolved : fs.resolve path cwd with
  | none => exact refused_effect fs _
  | some idx =>
      dsimp only
      split_ifs with isRoot isDir denied
      · exact refused_effect fs _
      · exact refused_effect fs _
      · exact refused_effect fs _
      · refine .removesFile resolved isRoot isDir ?_
        simp only [Bool.not_eq_true', not_and_or, not_not, Bool.not_eq_false] at denied
        exact denied

theorem chmod_effect (fs : RamFs) (path : Bytes) (cwd : InodeIndex) (mode callerUid : BitVec 16) :
    Effect fs (.chmod path cwd mode callerUid) (fs.chmod path cwd mode callerUid) := by
  unfold RamFs.chmod
  cases resolved : fs.resolve path cwd with
  | none => exact refused_effect fs _
  | some idx =>
      dsimp only
      split_ifs with denied
      · exact refused_effect fs _
      · refine .changesMode resolved ?_
        simp only [not_and_or, not_not] at denied
        exact denied

theorem chown_effect (fs : RamFs) (path : Bytes) (cwd : InodeIndex)
    (newUid newGid callerUid : BitVec 16) :
    Effect fs (.chown path cwd newUid newGid callerUid)
      (fs.chown path cwd newUid newGid callerUid) := by
  unfold RamFs.chown
  by_cases isRoot : callerUid = 0
  · subst isRoot
    simp only [ne_eq, not_true_eq_false, if_false]
    cases resolved : fs.resolve path cwd with
    | none => exact refused_effect fs _
    | some idx => exact .changesOwner resolved
  · rw [if_pos isRoot]
    exact refused_effect fs _

theorem rename_effect (fs : RamFs) (srcPath dstPath : Bytes) (cwd : InodeIndex)
    (uid gid : BitVec 16) :
    Effect fs (.rename srcPath dstPath cwd uid gid)
      (fs.rename srcPath dstPath cwd uid gid) := by
  unfold RamFs.rename
  cases resolved : fs.resolve srcPath cwd with
  | none => exact refused_effect fs _
  | some src =>
      dsimp only
      split_ifs with isRoot stuck
      · exact refused_effect fs _
      · exact refused_effect fs _
      · cases target : fs.resolveParent dstPath cwd with
        | none => exact refused_effect fs _
        | some dstParent =>
            dsimp only
            split_ifs with denied
            · exact refused_effect fs _
            · unfold RamFs.renameTo
              have leaves : fs.perm (fs.inodes src).parent uid gid 2#16 = true := by
                simpa using stuck
              have enters : fs.perm dstParent uid gid 2#16 = true := by simpa using denied
              cases found : fs.lookupIn dstParent (splitParent dstPath).2 with
              | none => exact .moves resolved isRoot leaves target enters found
              | some dst =>
                  dsimp only
                  split_ifs with same isDir
                  · exact .keeps (fun _ _ _ _ _ other => by cases other)
                      (fun _ _ _ _ _ other => by cases other) fun _ _ _ _ other => by cases other
                  · exact refused_effect fs _
                  · exact .replaces resolved isRoot leaves target enters found same isDir

theorem inode_write_effect (fs : RamFs) (idx : InodeIndex) (offset : Nat) (content : Bytes) :
    Effect fs (.inodeWrite idx offset content) (fs.apply (.inodeWrite idx offset content)) := by
  simp only [RamFs.apply, RamFs.inodeWrite]
  by_cases closed : (!(fs.inodes idx).used || decide ((fs.inodes idx).kind = .dir)) = true
  · simp only [if_pos closed]
    exact refused_effect fs _
  · simp only [if_neg closed]
    simp only [Bool.or_eq_true, Bool.not_eq_true', decide_eq_true_eq, not_or,
      Bool.not_eq_false] at closed
    split_ifs
    · exact refused_effect fs _
    · exact .patches closed.1 closed.2

theorem apply_effect (fs : RamFs) (operation : Operation) :
    Effect fs operation (fs.apply operation) := by
  cases operation with
  | mkdir path cwd uid gid mode => exact mkdir_effect fs path cwd uid gid mode
  | rmdir path cwd uid gid => exact rmdir_effect fs path cwd uid gid
  | touch path cwd uid gid => exact touch_effect fs path cwd uid gid
  | write path cwd content uid gid => exact write_effect fs path cwd content uid gid
  | unlink path cwd uid gid => exact unlink_effect fs path cwd uid gid
  | rename srcPath dstPath cwd uid gid => exact rename_effect fs srcPath dstPath cwd uid gid
  | chmod path cwd mode callerUid => exact chmod_effect fs path cwd mode callerUid
  | chown path cwd newUid newGid callerUid =>
      exact chown_effect fs path cwd newUid newGid callerUid
  | inodeWrite idx offset content => exact inode_write_effect fs idx offset content

section

variable {fs : RamFs}

@[simp]
theorem set_inode_same (fs : RamFs) (idx : InodeIndex) (inode : Inode) :
    (fs.setInode idx inode).inodes idx = inode := by
  simp only [RamFs.setInode, Function.update_self]

theorem set_inode_other (fs : RamFs) {idx other : InodeIndex} (inode : Inode)
    (different : other ≠ idx) : (fs.setInode idx inode).inodes other = fs.inodes other := by
  simp only [RamFs.setInode, Function.update_of_ne different]

structure SamePlaces (before after : RamFs) : Prop where
  used : ∀ i, (after.inodes i).used = (before.inodes i).used
  kind : ∀ i, (after.inodes i).kind = (before.inodes i).kind
  parent : ∀ i, (after.inodes i).parent = (before.inodes i).parent
  name : ∀ i, (after.inodes i).name = (before.inodes i).name

theorem modify_same_places {idx : InodeIndex} {change : Inode → Inode}
    (same : ∀ inode, (change inode).used = inode.used ∧ (change inode).kind = inode.kind ∧
      (change inode).parent = inode.parent ∧ (change inode).name = inode.name) :
    SamePlaces fs (fs.modify idx change) := by
  have each : ∀ i, ((fs.modify idx change).inodes i).used = (fs.inodes i).used ∧
      ((fs.modify idx change).inodes i).kind = (fs.inodes i).kind ∧
      ((fs.modify idx change).inodes i).parent = (fs.inodes i).parent ∧
      ((fs.modify idx change).inodes i).name = (fs.inodes i).name := by
    intro i
    unfold RamFs.modify
    by_cases here : i = idx
    · rw [here, set_inode_same]
      exact same _
    · rw [set_inode_other fs _ here]
      exact ⟨rfl, rfl, rfl, rfl⟩
  exact ⟨fun i => (each i).1, fun i => (each i).2.1, fun i => (each i).2.2.1,
    fun i => (each i).2.2.2⟩

theorem allocatable_not_root :
    ∀ idx : InodeIndex, idx ∈ (List.finRange maxInodes).tail → idx ≠ rootInode := by
  decide

theorem alloc_unused {idx : InodeIndex} (vacant : fs.alloc = some idx) :
    (fs.inodes idx).used = false ∧ idx ≠ rootInode := by
  unfold RamFs.alloc at vacant
  have free := List.find?_some vacant
  have member := List.mem_of_find?_eq_some vacant
  exact ⟨by simpa using free, allocatable_not_root idx member⟩

theorem lookup_in_cases {parent found : InodeIndex} {name : Bytes}
    (lookup : fs.lookupIn parent name = some found) :
    (name = dot ∧ found = parent) ∨ (name = dotDot ∧ found = (fs.inodes parent).parent) ∨
      (name ≠ dot ∧ name ≠ dotDot ∧ (fs.inodes found).used = true ∧
        (fs.inodes found).parent = parent ∧ found ≠ parent ∧ (fs.inodes found).name = name) := by
  unfold RamFs.lookupIn at lookup
  split_ifs at lookup with isDot isDotDot
  · exact .inl ⟨isDot, (Option.some.inj lookup).symm⟩
  · exact .inr (.inl ⟨isDotDot, (Option.some.inj lookup).symm⟩)
  · have matched := List.find?_some lookup
    simp only [Bool.and_eq_true, beq_iff_eq, bne_iff_ne] at matched
    obtain ⟨⟨⟨isUsed, below⟩, different⟩, named⟩ := matched
    exact .inr (.inr ⟨isDot, isDotDot, isUsed, below, different, named⟩)

theorem walk_keeps {Holds : InodeIndex → Prop}
    (lookups : ∀ parent name found, Holds parent → fs.lookupIn parent name = some found →
      Holds found)
    {start reached : InodeIndex} {parts : List Bytes} (initial : Holds start)
    (walks : fs.walk start parts = some reached) : Holds reached := by
  induction parts generalizing start with
  | nil =>
      cases walks
      exact initial
  | cons part rest ih =>
      simp only [RamFs.walk] at walks
      split_ifs at walks
      · exact ih initial walks
      · obtain ⟨next, lookup, later⟩ := Option.bind_eq_some_iff.mp walks
        exact ih (lookups start part next initial lookup) later

theorem resolve_keeps {Holds : InodeIndex → Prop}
    (lookups : ∀ parent name found, Holds parent → fs.lookupIn parent name = some found →
      Holds found)
    {path : Bytes} {cwd reached : InodeIndex} (initial : Holds (RamFs.walkStart path cwd))
    (resolves : fs.resolve path cwd = some reached) : Holds reached := by
  unfold RamFs.resolve at resolves
  dsimp only at resolves
  split_ifs at resolves
  · cases resolves
    exact initial
  · exact walk_keeps lookups initial resolves

end

end Ferrugem.RamFsModel
