import Ferrugem.RamFsModel

/-!
# Operations on the filesystem are atomic and local

An operation that returns false has changed no inode. One that returns true has
changed at most its target and, for `rename`, the file it replaces.
-/

namespace Ferrugem.LocalChanges

open Ferrugem.RamFsModel

set_option autoImplicit false

/-- The inode that the operation creates, writes, removes, changes or moves. -/
def targetOf (fs : RamFs) : Operation → Option InodeIndex
  | .mkdir _ _ _ _ _ => fs.alloc
  | .touch path cwd _ _ => if (fs.resolve path cwd).isSome then none else fs.alloc
  | .write path cwd _ _ _ =>
      match fs.resolve path cwd with
      | some idx => some idx
      | none => fs.alloc
  | .rmdir path cwd _ _ => fs.resolve path cwd
  | .unlink path cwd _ _ => fs.resolve path cwd
  | .chmod path cwd _ _ => fs.resolve path cwd
  | .chown path cwd _ _ _ => fs.resolve path cwd
  | .rename srcPath _ cwd _ _ => fs.resolve srcPath cwd
  | .inodeWrite idx _ _ => some idx

/-- The file that `rename` finds at its destination. -/
def replacedBy (fs : RamFs) : Operation → Option InodeIndex
  | .rename _ dstPath cwd _ _ =>
      (fs.resolveParent dstPath cwd).bind fun parent =>
        (fs.lookupIn parent (splitParent dstPath).2).filter fun dst =>
          (fs.inodes dst).kind != .dir
  | _ => none

/-- A refused operation has changed no inode, and another one its target and the
file it replaces. -/
structure AtomicAndLocal (fs : RamFs) (operation : Operation) (result : RamFs × Bool) : Prop where
  atomic : result.2 = false → ∀ i, result.1.inodes i = fs.inodes i
  only : result.2 = true → ∀ i, result.1.inodes i ≠ fs.inodes i →
    targetOf fs operation = some i ∨ replacedBy fs operation = some i

section

variable {fs : RamFs} {operation : Operation}

theorem unchanged_local (succeeded : Bool) : AtomicAndLocal fs operation (fs, succeeded) :=
  ⟨fun _ _ => rfl, fun _ _ changed => absurd rfl changed⟩

theorem set_local {idx : InodeIndex} {inode : Inode} (target : targetOf fs operation = some idx) :
    AtomicAndLocal fs operation (fs.setInode idx inode, true) := by
  refine ⟨nofun, fun _ i changed => .inl ?_⟩
  by_cases here : i = idx
  · rw [here]
    exact target
  · exact absurd (set_inode_other fs inode here) changed

theorem replace_local {src dst dstParent : InodeIndex} {name : Bytes}
    (target : targetOf fs operation = some src) (replaced : replacedBy fs operation = some dst) :
    AtomicAndLocal fs operation ((fs.release dst).move src dstParent name, true) := by
  refine ⟨nofun, fun _ i changed => ?_⟩
  by_cases isSource : i = src
  · exact .inl (isSource ▸ target)
  by_cases isReplaced : i = dst
  · exact .inr (isReplaced ▸ replaced)
  · apply absurd _ changed
    exact (set_inode_other (fs.release dst) _ isSource).trans (set_inode_other fs _ isReplaced)

theorem inode_write_local (fs : RamFs) (idx : InodeIndex) (offset : Nat) (content : Bytes) :
    AtomicAndLocal fs (.inodeWrite idx offset content)
      (fs.apply (.inodeWrite idx offset content)) := by
  simp only [RamFs.apply, RamFs.inodeWrite]
  split_ifs with closed nothing
  · exact unchanged_local _
  · exact unchanged_local _
  · have wrote : (min ((offset + content.length) % 2 ^ 64) maxData - offset != 0) = true := by
      simpa using nothing
    rw [wrote]
    exact set_local rfl

theorem effect_local {result : RamFs × Bool} (effect : Effect fs operation result)
    (byPath : ∀ idx offset content, operation ≠ .inodeWrite idx offset content) :
    AtomicAndLocal fs operation result := by
  cases effect with
  | keeps created written touched => exact unchanged_local _
  | makes resolved isDir allowed absent vacant => exact set_local vacant
  | creates source absent resolved allowed vacant =>
      apply set_local
      rcases source with ⟨rfl, _⟩ | rfl
      · simp only [targetOf, absent, Option.isSome_none, Bool.false_eq_true, if_false, vacant]
      · simp only [targetOf, absent, vacant]
  | overwrites resolved isFile allowed =>
      apply set_local
      simp only [targetOf, resolved]
  | removesDir resolved notRoot isDir isEmpty allowed => exact set_local resolved
  | removesFile resolved notRoot isFile allowed => exact set_local resolved
  | moves resolved notRoot leaves target enters absent => exact set_local resolved
  | replaces resolved notRoot leaves target enters found different isFile =>
      apply replace_local
      · exact resolved
      · simp only [replacedBy, target, found, Option.bind_some]
        exact Option.filter_some_pos (by simpa using isFile)
  | changesMode resolved allowed => exact set_local resolved
  | changesOwner resolved => exact set_local resolved
  | patches isUsed isFile => exact absurd rfl (byPath _ _ _)

end

/-- In every state, for each of the operations. -/
theorem operations_atomic_and_local (fs : RamFs) (operation : Operation) :
    AtomicAndLocal fs operation (fs.apply operation) := by
  have effect := apply_effect fs operation
  cases operation with
  | inodeWrite idx offset content => exact inode_write_local fs idx offset content
  | _ => exact effect_local effect nofun

end Ferrugem.LocalChanges
