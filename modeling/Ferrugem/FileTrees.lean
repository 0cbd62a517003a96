import Ferrugem.RamFsModel
import Ferrugem.Library.NamedTrees

/-!
# The filesystem as a tree of names

What a `RamFs` is for, without its inodes: nodes with an owner, a mode and a
content at named locations, paths that are followed name by name, and
operations that change the tree where their path leads. A tree has room for as
many nodes as there are inodes.
-/

namespace Ferrugem.FileTrees

open Ferrugem.RamFsModel
open NamedTrees

set_option autoImplicit false

/-- The names on the way from the root, the last one first. -/
abbrev Location := List Bytes

structure Node where
  kind : InodeKind
  uid : BitVec 16
  gid : BitVec 16
  mode : BitVec 16
  content : Bytes

def Node.grants (node : Node) (uid gid op : BitVec 16) : Bool :=
  uid == 0 ||
    (if node.uid = uid then node.mode >>> 6
      else if node.gid = gid then node.mode >>> 3
      else node.mode) &&& op != 0

def parts (path : Bytes) : List Bytes := (path.splitOn slash).filter (· ≠ [])

def nameOf (path : Bytes) : Bytes := (parts path).getLastD []

def stepOf (part : Bytes) : Step Bytes :=
  if part = dot then .stay else if part = dotDot then .up else .down part

def start (path : Bytes) (cwd : Location) : Location :=
  if path.head? = some slash then [] else cwd

abbrev FileTree := Tree Bytes Node

namespace FileTree

def find (tree : FileTree) (path : Bytes) (cwd : Location) : Option Location :=
  tree.follow (start path cwd) ((parts path).map stepOf)

def findDirectory (tree : FileTree) (path : Bytes) (cwd : Location) : Option Location :=
  tree.follow (start path cwd) ((parts path).dropLast.map stepOf)

def findIn (tree : FileTree) (dir : Location) (name : Bytes) : Option Location :=
  tree.follow dir [stepOf name]

def isDir (tree : FileTree) (loc : Location) : Bool := (tree loc).any (·.kind == .dir)

def allows (tree : FileTree) (loc : Location) (uid gid op : BitVec 16) : Bool :=
  (tree loc).any (·.grants uid gid op)

def owns (tree : FileTree) (loc : Location) (uid : BitVec 16) : Bool :=
  (tree loc).any (·.uid == uid)

def HasRoom (tree : FileTree) : Prop := {loc | tree loc ≠ none}.ncard < maxInodes

def IsEmpty (tree : FileTree) (loc : Location) : Prop := ∀ name, tree (name :: loc) = none

open Classical in
noncomputable def insert (tree : FileTree) (loc : Location) (node : Node) : FileTree × Bool :=
  if tree.HasRoom then (tree.put loc node, true) else (tree, false)

noncomputable def createFile (tree : FileTree) (path : Bytes) (cwd : Location) (content : Bytes)
    (uid gid : BitVec 16) : FileTree × Bool :=
  match tree.findDirectory path cwd with
  | some dir =>
      if tree.allows dir uid gid 2#16 then
        tree.insert (nameOf path :: dir) ⟨.file, uid, gid, 0o644#16, content.take maxData⟩
      else (tree, false)
  | none => (tree, false)

noncomputable def write (tree : FileTree) (path : Bytes) (cwd : Location) (content : Bytes)
    (uid gid : BitVec 16) : FileTree × Bool :=
  match tree.find path cwd with
  | some loc =>
      if !tree.isDir loc && tree.allows loc uid gid 2#16 then
        (tree.modify loc fun node => { node with content := content.take maxData }, true)
      else (tree, false)
  | none => tree.createFile path cwd content uid gid

noncomputable def touch (tree : FileTree) (path : Bytes) (cwd : Location) (uid gid : BitVec 16) :
    FileTree × Bool :=
  if (tree.find path cwd).isSome then (tree, true) else tree.createFile path cwd [] uid gid

noncomputable def mkdir (tree : FileTree) (path : Bytes) (cwd : Location)
    (uid gid mode : BitVec 16) : FileTree × Bool :=
  match tree.findDirectory path cwd with
  | some dir =>
      if tree.isDir dir && tree.allows dir uid gid 2#16 &&
          (tree.findIn dir (nameOf path)).isNone then
        tree.insert (nameOf path :: dir) ⟨.dir, uid, gid, mode &&& 0o777, []⟩
      else (tree, false)
  | none => (tree, false)

open Classical in
noncomputable def rmdir (tree : FileTree) (path : Bytes) (cwd : Location) (uid gid : BitVec 16) :
    FileTree × Bool :=
  match tree.find path cwd with
  | some loc =>
      if loc ≠ [] ∧ tree.isDir loc ∧ tree.IsEmpty loc ∧ tree.allows loc.tail uid gid 2#16 then
        (tree.remove loc, true)
      else (tree, false)
  | none => (tree, false)

def unlink (tree : FileTree) (path : Bytes) (cwd : Location) (uid gid : BitVec 16) :
    FileTree × Bool :=
  match tree.find path cwd with
  | some loc =>
      if loc ≠ [] ∧ !tree.isDir loc ∧
          (uid = 0 ∨ tree.owns loc uid ∨ tree.allows loc.tail uid gid 2#16) then
        (tree.remove loc, true)
      else (tree, false)
  | none => (tree, false)

def rename (tree : FileTree) (srcPath dstPath : Bytes) (cwd : Location) (uid gid : BitVec 16) :
    FileTree × Bool :=
  match tree.find srcPath cwd, tree.findDirectory dstPath cwd with
  | some src, some dir =>
      if src ≠ [] ∧ tree.allows src.tail uid gid 2#16 ∧ tree.allows dir uid gid 2#16 then
        if tree.findIn dir (nameOf dstPath) = some src then (tree, true)
        else if (tree.findIn dir (nameOf dstPath)).any tree.isDir then (tree, false)
        else (tree.relocate src (nameOf dstPath :: dir), true)
      else (tree, false)
  | _, _ => (tree, false)

def chmod (tree : FileTree) (path : Bytes) (cwd : Location) (mode callerUid : BitVec 16) :
    FileTree × Bool :=
  match tree.find path cwd with
  | some loc =>
      if callerUid = 0 ∨ tree.owns loc callerUid then
        (tree.modify loc fun node => { node with mode := mode &&& 0o777 }, true)
      else (tree, false)
  | none => (tree, false)

def chown (tree : FileTree) (path : Bytes) (cwd : Location) (newUid newGid callerUid : BitVec 16) :
    FileTree × Bool :=
  match tree.find path cwd with
  | some loc =>
      if callerUid = 0 then
        (tree.modify loc fun node => { node with uid := newUid, gid := newGid }, true)
      else (tree, false)
  | none => (tree, false)

/-- Bytes written over the content from an offset on, as far as they fit. -/
def patched (content : Bytes) (offset : Nat) (written : Bytes) : Bytes :=
  content.take offset ++ written.take (maxData - offset) ++
    content.drop (offset + min written.length (maxData - offset))

def patch (tree : FileTree) (target : Option Location) (offset : Nat) (written : Bytes) :
    FileTree × Bool :=
  match target with
  | some loc =>
      if !tree.isDir loc ∧ written ≠ [] ∧ offset < maxData then
        (tree.modify loc fun node => { node with content := patched node.content offset written },
          true)
      else (tree, false)
  | none => (tree, false)

def read (tree : FileTree) (path : Bytes) (cwd : Location) (uid gid : BitVec 16) : Option Bytes :=
  (tree.find path cwd).bind fun loc =>
    (tree loc).bind fun node =>
      if node.kind = .file ∧ node.grants uid gid 4#16 then some node.content else none

end FileTree

/-- An operation with its working directory as a location. -/
inductive Request where
  | mkdir (path : Bytes) (cwd : Location) (uid gid mode : BitVec 16)
  | rmdir (path : Bytes) (cwd : Location) (uid gid : BitVec 16)
  | touch (path : Bytes) (cwd : Location) (uid gid : BitVec 16)
  | write (path : Bytes) (cwd : Location) (content : Bytes) (uid gid : BitVec 16)
  | unlink (path : Bytes) (cwd : Location) (uid gid : BitVec 16)
  | rename (srcPath dstPath : Bytes) (cwd : Location) (uid gid : BitVec 16)
  | chmod (path : Bytes) (cwd : Location) (mode callerUid : BitVec 16)
  | chown (path : Bytes) (cwd : Location) (newUid newGid callerUid : BitVec 16)
  | patch (target : Option Location) (offset : Nat) (written : Bytes)

noncomputable def FileTree.perform (tree : FileTree) : Request → FileTree × Bool
  | .mkdir path cwd uid gid mode => tree.mkdir path cwd uid gid mode
  | .rmdir path cwd uid gid => tree.rmdir path cwd uid gid
  | .touch path cwd uid gid => tree.touch path cwd uid gid
  | .write path cwd content uid gid => tree.write path cwd content uid gid
  | .unlink path cwd uid gid => tree.unlink path cwd uid gid
  | .rename srcPath dstPath cwd uid gid => tree.rename srcPath dstPath cwd uid gid
  | .chmod path cwd mode callerUid => tree.chmod path cwd mode callerUid
  | .chown path cwd newUid newGid callerUid => tree.chown path cwd newUid newGid callerUid
  | .patch target offset written => tree.patch target offset written

def onlyRoot : FileTree := fun loc => if loc = [] then some ⟨.dir, 0, 0, 0o755, []⟩ else none

noncomputable def treeSystem : EventSystem FileTree Request Bool where
  init := onlyRoot
  step := fun tree request => ((tree.perform request).1, some (tree.perform request).2)

end Ferrugem.FileTrees
