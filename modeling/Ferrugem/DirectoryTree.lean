import Ferrugem.DirectoryParents
import Ferrugem.Library.ParentChain

/-!
# The directory graph

Following the parent links from a used directory leads to the root through
used inodes. `rename` moves a subtree without a look at where its new parent
lies, `unlink` and a `rename` over a file free an inode that may have a subtree
below it, and `mkdir` with a removed working directory attaches to it.
-/

namespace Ferrugem.DirectoryTree

open Ferrugem.RamFsModel Ferrugem.DirectoryParents
open ParentChain

set_option autoImplicit false

def parentOf (fs : RamFs) (idx : InodeIndex) : InodeIndex := (fs.inodes idx).parent

def Unused (fs : RamFs) (idx : InodeIndex) : Prop := (fs.inodes idx).used = false

/-- The chain of parents leads to inode 0, and every inode on it is used. -/
def Rooted (fs : RamFs) (idx : InodeIndex) : Prop :=
  (fs.inodes rootInode).used = true ∧ Reaches (parentOf fs) (Unused fs) rootInode idx

def DirectoriesRooted (fs : RamFs) : Prop := ∀ idx, isDirectory fs idx = true → Rooted fs idx

structure TreeShaped (fs : RamFs) : Prop where
  root : isDirectory fs rootInode = true ∧ (fs.inodes rootInode).parent = rootInode
  rooted : DirectoriesRooted fs

/-- The parent in which `mkdir` creates. -/
def makesAt (fs : RamFs) (path : Bytes) (cwd : InodeIndex) (uid gid : BitVec 16) :
    Option InodeIndex :=
  (fs.resolveParent path cwd).filter fun parent =>
    (fs.inodes parent).kind == .dir && fs.perm parent uid gid 2#16 &&
      (fs.lookupIn parent (splitParent path).2).isNone && fs.alloc.isSome

/-- The file that `unlink` frees. -/
def unlinks (fs : RamFs) (path : Bytes) (cwd : InodeIndex) (uid gid : BitVec 16) :
    Option InodeIndex :=
  (fs.resolve path cwd).filter fun idx =>
    idx != rootInode && (fs.inodes idx).kind != .dir &&
      (uid == 0 || (fs.inodes idx).uid == uid || fs.perm (fs.inodes idx).parent uid gid 2#16)

def NoDirectoryBelow (fs : RamFs) (idx : InodeIndex) : Prop :=
  ∀ dir, isDirectory fs dir = true → Reaches (parentOf fs) (· = idx) rootInode dir

/-- Neither the source of a rename nor the file it overwrites. -/
def Displaced (src : InodeIndex) (freed : Option InodeIndex) (idx : InodeIndex) : Prop :=
  idx = src ∨ freed = some idx

/-- Every used directory lies neither below the source nor below the overwritten
file, or it lies below the source, not separated from it by the overwritten
file, and the new parent is attached and lies below neither. -/
def MovesSafely (fs : RamFs) (src dstParent : InodeIndex) (freed : Option InodeIndex) : Prop :=
  ∀ dir, isDirectory fs dir = true →
    Reaches (parentOf fs) (Displaced src freed) rootInode dir ∨
      (Reaches (parentOf fs) (fun idx => freed = some idx) src dir ∧ Rooted fs dstParent ∧
        Reaches (parentOf fs) (Displaced src freed) rootInode dstParent)

def KeepsAttached (fs : RamFs) : Operation → Prop
  | .mkdir path cwd uid gid _ => ∀ parent ∈ makesAt fs path cwd uid gid, Rooted fs parent
  | .unlink path cwd uid gid => ∀ idx ∈ unlinks fs path cwd uid gid, NoDirectoryBelow fs idx
  | .rename srcPath dstPath cwd uid gid =>
      ∀ dstParent ∈ movesTo fs srcPath dstPath cwd uid gid, ∀ src ∈ fs.resolve srcPath cwd,
        MovesSafely fs src dstParent (fs.lookupIn dstParent (splitParent dstPath).2)
  | _ => True

section

variable {fs after : RamFs}

theorem rooted_used {idx : InodeIndex} (rooted : Rooted fs idx) : (fs.inodes idx).used = true := by
  obtain ⟨rootUsed, reaches⟩ := rooted
  cases reaches with
  | here => exact rootUsed
  | up free _ => simpa [Unused] using free

theorem rooted_parent (shaped : TreeShaped fs) {idx : InodeIndex} (rooted : Rooted fs idx) :
    Rooted fs (parentOf fs idx) := by
  obtain ⟨rootUsed, reaches⟩ := rooted
  cases reaches with
  | here =>
      rw [parentOf, shaped.root.2]
      exact ⟨rootUsed, .here⟩
  | up _ above => exact ⟨rootUsed, above⟩

theorem rooted_kept {idx : InodeIndex} {Changed : InodeIndex → Prop} (rooted : Rooted fs idx)
    (avoids : Reaches (parentOf fs) Changed rootInode idx) (rootSame : ¬Changed rootInode)
    (used : ∀ other, ¬Changed other → (fs.inodes other).used = true →
      (after.inodes other).used = true)
    (links : ∀ other, ¬Changed other → (fs.inodes other).used = true →
      parentOf after other = parentOf fs other) : Rooted after idx := by
  refine ⟨used rootInode rootSame rooted.1, (avoids.both rooted.2).transfer ?_ ?_⟩
  · intro other free
    simp only [not_or, Unused, Bool.not_eq_false] at free
    exact links other free.1 free.2
  · intro other free
    simp only [not_or, Unused, Bool.not_eq_false] at free ⊢
    exact used other free.1 free.2

theorem tree_same_places (same : SamePlaces fs after) (shaped : TreeShaped fs) :
    TreeShaped after := by
  constructor
  · rw [same_places_directory same, same.parent]
    exact shaped.root
  · intro dir isDir
    rw [same_places_directory same] at isDir
    obtain ⟨rootUsed, reaches⟩ := shaped.rooted dir isDir
    refine ⟨by rw [same.used]; exact rootUsed, reaches.transfer ?_ ?_⟩
    · exact fun other _ => same.parent other
    · intro other free
      rw [Unused, same.used]
      exact free

/-- A new inode takes an unused place; if it is a directory, its parent is
attached. -/
theorem tree_create {idx : InodeIndex} {inode : Inode} (shaped : TreeShaped fs)
    (unused : (fs.inodes idx).used = false) (isUsed : inode.used = true)
    (attached : inode.kind = .dir → Rooted fs inode.parent) :
    TreeShaped (fs.setInode idx inode) := by
  have elsewhere : ∀ i, (fs.inodes i).used = true → i ≠ idx := by
    rintro i usedHere rfl
    rw [usedHere] at unused
    cases unused
  have kept : ∀ i, Rooted fs i → Rooted (fs.setInode idx inode) i := by
    intro i rooted
    refine ⟨?_, rooted.2.transfer ?_ ?_⟩
    · rw [set_inode_other fs _ (elsewhere rootInode rooted.1)]
      exact rooted.1
    · intro other free
      simp only [Unused, Bool.not_eq_false] at free
      rw [parentOf, set_inode_other fs _ (elsewhere other free)]
      rfl
    · intro other free
      simp only [Unused, Bool.not_eq_false] at free ⊢
      rw [set_inode_other fs _ (elsewhere other free)]
      exact free
  have rootUsed := (is_directory_iff.mp shaped.root.1).1
  constructor
  · rw [isDirectory, set_inode_other fs _ (elsewhere rootInode rootUsed)]
    exact shaped.root
  · intro dir isDir
    by_cases here : dir = idx
    · subst here
      rw [is_directory_iff, set_inode_same] at isDir
      have above := kept _ (attached isDir.2)
      refine ⟨above.1, .up ?_ ?_⟩
      · rw [Unused, set_inode_same, isUsed]
        decide
      · rw [parentOf, set_inode_same]
        exact above.2
    · apply kept
      rw [isDirectory, set_inode_other fs _ here] at isDir
      exact shaped.rooted dir isDir

theorem release_other {idx other : InodeIndex} (different : other ≠ idx) :
    (fs.release idx).inodes other = fs.inodes other :=
  set_inode_other fs _ different

theorem release_directory {idx dir : InodeIndex} (isDir : isDirectory (fs.release idx) dir = true) :
    dir ≠ idx ∧ isDirectory fs dir = true := by
  have different : dir ≠ idx := by
    rintro rfl
    rw [is_directory_iff, RamFs.release, RamFs.modify, set_inode_same] at isDir
    cases isDir.1
  rw [isDirectory, release_other different] at isDir
  exact ⟨different, isDir⟩

theorem tree_release {idx : InodeIndex} (shaped : TreeShaped fs) (notRoot : idx ≠ rootInode)
    (unlinked : ∀ dir, dir ≠ idx → isDirectory fs dir = true →
      Reaches (parentOf fs) (· = idx) rootInode dir) : TreeShaped (fs.release idx) := by
  constructor
  · rw [isDirectory, release_other notRoot.symm]
    exact shaped.root
  · intro dir isDir
    obtain ⟨different, before⟩ := release_directory isDir
    apply rooted_kept (shaped.rooted dir before) (unlinked dir different before) notRoot.symm
    · intro other apart isUsed
      rw [release_other apart]
      exact isUsed
    · intro other apart _
      rw [parentOf, release_other apart]
      rfl

theorem empty_unlinked {idx dir : InodeIndex} (isEmpty : fs.hasChild idx = false)
    (different : dir ≠ idx) (rooted : Rooted fs dir) :
    Reaches (parentOf fs) (· = idx) rootInode dir := by
  obtain ⟨_, reaches⟩ := rooted
  induction reaches with
  | here => exact .here
  | @up other free _ ih =>
      refine .up different (ih ?_)
      intro below
      simp only [Unused, Bool.not_eq_false] at free
      apply List.any_eq_false.mp isEmpty other (List.mem_finRange other)
      change (fs.inodes other).parent = idx at below
      simp [different, free, below]

/-- What a rename leaves: the overwritten file is freed and the source has a
new parent and name. -/
def renamed (fs : RamFs) (src dstParent : InodeIndex) (name : Bytes) : Option InodeIndex → RamFs
  | some dst => (fs.release dst).move src dstParent name
  | none => fs.move src dstParent name

section

variable {src dstParent : InodeIndex} {name : Bytes} {freed : Option InodeIndex}

theorem renamed_other {idx : InodeIndex} (kept : ¬Displaced src freed idx) :
    (renamed fs src dstParent name freed).inodes idx = fs.inodes idx := by
  simp only [Displaced, not_or] at kept
  cases freed with
  | none => exact set_inode_other fs _ kept.1
  | some dst =>
      have notFreed : idx ≠ dst := by
        rintro rfl
        exact kept.2 rfl
      rw [renamed, RamFs.move, RamFs.modify, set_inode_other _ _ kept.1]
      exact release_other notFreed

theorem renamed_source (different : freed ≠ some src) :
    (renamed fs src dstParent name freed).inodes src =
      { fs.inodes src with parent := dstParent }.setName name := by
  cases freed with
  | none => exact set_inode_same fs _ _
  | some dst =>
      have apart : src ≠ dst := by
        rintro rfl
        exact different rfl
      rw [renamed, RamFs.move, RamFs.modify, set_inode_same, release_other apart]

theorem renamed_freed {dst : InodeIndex} (different : dst ≠ src) :
    ((renamed fs src dstParent name (some dst)).inodes dst).used = false := by
  rw [renamed, RamFs.move, RamFs.modify, set_inode_other _ _ different, RamFs.release,
    RamFs.modify, set_inode_same]

theorem renamed_directory {dir : InodeIndex} (different : freed ≠ some src)
    (isDir : isDirectory (renamed fs src dstParent name freed) dir = true) :
    isDirectory fs dir = true := by
  by_cases isSource : dir = src
  · subst isSource
    rw [isDirectory, renamed_source different] at isDir
    exact isDir
  · by_cases gone : freed = some dir
    · subst gone
      rw [is_directory_iff, renamed_freed isSource] at isDir
      cases isDir.1
    · rw [isDirectory, renamed_other (by simp [Displaced, isSource, gone])] at isDir
      exact isDir

theorem tree_renamed (shaped : TreeShaped fs) (notRoot : src ≠ rootInode)
    (different : freed ≠ some src) (rootStays : freed ≠ some rootInode)
    (safely : MovesSafely fs src dstParent freed) :
    TreeShaped (renamed fs src dstParent name freed) := by
  have rootKept : ¬Displaced src freed rootInode := by
    simp [Displaced, notRoot.symm, rootStays]
  have kept : ∀ idx, Rooted fs idx →
      Reaches (parentOf fs) (Displaced src freed) rootInode idx →
      Rooted (renamed fs src dstParent name freed) idx := by
    intro idx rooted avoids
    apply rooted_kept rooted avoids rootKept
    · intro other apart isUsed
      rw [renamed_other apart]
      exact isUsed
    · intro other apart _
      rw [parentOf, renamed_other apart]
      rfl
  constructor
  · rw [isDirectory, renamed_other rootKept]
    exact shaped.root
  · intro dir isDir
    have before := shaped.rooted dir (renamed_directory different isDir)
    rcases safely dir (renamed_directory different isDir) with
      clear | ⟨below, attached, clear⟩
    · exact kept dir before clear
    · have parent := kept dstParent attached clear
      have climbing : ∀ idx, Rooted fs idx → Rooted fs (parentOf fs idx) :=
        fun _ => rooted_parent shaped
      obtain ⟨chain, source⟩ := below.restrict climbing before
      have placed := @renamed_source fs src dstParent name freed different
      have sourceRooted : Reaches (parentOf (renamed fs src dstParent name freed))
          (Unused (renamed fs src dstParent name freed)) rootInode src := by
        refine .up ?_ ?_
        · rw [Unused, placed]
          simpa [Inode.setName] using rooted_used source
        · rw [parentOf, placed]
          exact parent.2
      refine ⟨parent.1, chain.extend ?_ ?_ sourceRooted⟩
      · intro other free notSource
        simp only [not_or, not_not] at free
        rw [parentOf, renamed_other (by simp [Displaced, notSource, free.1])]
        rfl
      · intro other free
        simp only [not_or, not_not] at free
        by_cases isSource : other = src
        · subst isSource
          rw [Unused, placed]
          simpa [Inode.setName] using rooted_used source
        · rw [Unused, renamed_other (by simp [Displaced, isSource, free.1])]
          simpa using rooted_used free.2

end

theorem tree_apply {operation : Operation} (shaped : TreeShaped fs)
    (attached : KeepsAttached fs operation) : TreeShaped (fs.apply operation).1 := by
  have shape := apply_effect fs operation
  generalize fs.apply operation = result at shape ⊢
  cases shape with
  | keeps => exact shaped
  | makes resolved isDir allowed absent vacant =>
      apply tree_create shaped (alloc_unused vacant).1 rfl
      intro _
      apply attached
      simp [makesAt, resolved, isDir, allowed, absent, vacant, Option.filter, RamFs.newInode,
        Inode.setName, Inode.setContent]
  | creates source absent resolved allowed vacant =>
      apply tree_create shaped (alloc_unused vacant).1 rfl
      intro isDir
      cases isDir
  | overwrites resolved isFile allowed =>
      dsimp only
      apply tree_same_places _ shaped
      exact modify_same_places fun _ => ⟨rfl, rfl, rfl, rfl⟩
  | removesDir resolved notRoot isDir isEmpty allowed =>
      apply tree_release shaped notRoot
      intro dir different otherDir
      exact empty_unlinked isEmpty different (shaped.rooted dir otherDir)
  | @removesFile path cwd idx uid gid resolved notRoot isFile allowed =>
      apply tree_release shaped notRoot
      intro dir _ isDir
      apply attached idx _ dir isDir
      simp only [unlinks, resolved, Option.mem_def, Option.filter_eq_some_iff, true_and,
        Bool.and_eq_true, bne_iff_ne, Bool.or_eq_true, beq_iff_eq]
      exact ⟨⟨notRoot, isFile⟩, by rw [or_assoc]; exact allowed⟩
  | @moves srcPath dstPath cwd src dstParent uid gid resolved notRoot leaves target enters absent =>
      have safely := attached dstParent (by
        simp [movesTo, resolved, notRoot, leaves, target, enters, absent, Option.filter]) src
        resolved
      rw [absent] at safely
      exact @tree_renamed fs src dstParent _ none shaped notRoot (by simp) (by simp) safely
  | @replaces srcPath dstPath cwd src dstParent dst uid gid resolved notRoot leaves target enters
      found different isFile =>
      have safely := attached dstParent (by
        simp [movesTo, resolved, notRoot, leaves, target, enters, found, different, isFile,
          Option.filter]) src resolved
      rw [found] at safely
      refine @tree_renamed fs src dstParent _ (some dst) shaped notRoot (by simpa using different)
        ?_ safely
      intro isRoot
      cases isRoot
      exact isFile (is_directory_iff.mp shaped.root.1).2
  | changesMode resolved allowed =>
      dsimp only
      apply tree_same_places _ shaped
      exact modify_same_places fun _ => ⟨rfl, rfl, rfl, rfl⟩
  | changesOwner resolved =>
      dsimp only
      apply tree_same_places _ shaped
      exact modify_same_places fun _ => ⟨rfl, rfl, rfl, rfl⟩
  | patches isUsed isFile =>
      dsimp only
      apply tree_same_places _ shaped
      exact modify_same_places fun _ => ⟨rfl, rfl, rfl, rfl⟩

theorem rooted_of_climbs {fuel : Nat} {idx : InodeIndex}
    (rootUsed : (fs.inodes rootInode).used = true)
    (climbed : climbs (parentOf fs) (fun i => !(fs.inodes i).used) rootInode fuel idx = true) :
    Rooted fs idx := by
  refine ⟨rootUsed, ?_⟩
  apply (reaches_of_climbs climbed).transfer fun _ _ => rfl
  intro other free
  simpa [Unused] using free

theorem moves_safely_of_climbs {fuel : Nat} {src dstParent : InodeIndex}
    {freed : Option InodeIndex}
    (clear : ∀ dir, isDirectory fs dir = true → climbs (parentOf fs)
      (fun idx => idx == src || freed == some idx) rootInode fuel dir = true) :
    MovesSafely fs src dstParent freed := by
  intro dir isDir
  left
  apply (reaches_of_climbs (clear dir isDir)).transfer fun _ _ => rfl
  intro other free
  simpa [Displaced] using free

end

theorem tree_init (hello : Bytes) : TreeShaped (RamFs.init hello) := by
  refine @tree_apply _ (.write RamFs.helloPath rootInode hello 0 0) ?_ trivial
  constructor
  · decide +kernel
  · intro dir isDir
    apply @rooted_of_climbs _ 4
    · decide +kernel
    · revert dir
      decide +kernel

/-- In every run from `fs::init` whose steps keep the directories attached, the
parents of every used directory lead to the root in every state reached. -/
theorem directories_rooted (hello : Bytes) {operations : List Operation}
    (attached : (fsSystem hello).StepsMeet KeepsAttached (fsSystem hello).init operations) :
    DirectoriesRooted ((fsSystem hello).runFrom (fsSystem hello).init operations) :=
  (EventSystem.run_preserves TreeShaped (fun _ _ => tree_apply) (tree_init hello) attached).rooted

/-- `mkdir("/tmp/a")` by root. -/
def makeA : Operation := .mkdir (ascii ['/', 't', 'm', 'p', '/', 'a']) rootInode 0 0 0o755

/-- `rename("/etc/motd", "/tmp/a/b")` by root. -/
def moveFile : Operation :=
  .rename (ascii ['/', 'e', 't', 'c', '/', 'm', 'o', 't', 'd'])
    (ascii ['/', 't', 'm', 'p', '/', 'a', '/', 'b']) rootInode 0 0

theorem directories_rooted_after_move :
    DirectoriesRooted ((fsSystem []).runFrom (fsSystem []).init [makeA, moveFile]) := by
  apply directories_rooted
  refine ⟨?_, ?_, trivial⟩
  · intro parent member
    apply @rooted_of_climbs _ 4
    · decide +kernel
    · revert parent
      decide +kernel
  · intro dstParent target src source
    have free : RamFs.lookupIn ((fsSystem []).runFrom (fsSystem []).init [makeA]) dstParent
        (splitParent (ascii ['/', 't', 'm', 'p', '/', 'a', '/', 'b'])).2 = none := by
      revert dstParent
      decide +kernel
    have file : src = ⟨5, by decide⟩ := by
      revert src
      decide +kernel
    subst file
    change MovesSafely ((fsSystem []).runFrom (fsSystem []).init [makeA]) _ _
      (RamFs.lookupIn ((fsSystem []).runFrom (fsSystem []).init [makeA]) dstParent _)
    rw [free]
    apply @moves_safely_of_climbs _ 4
    decide +kernel

/-- `rename("/tmp/a", "/tmp/a/b")` by root. -/
def moveIntoItself : Operation :=
  .rename (ascii ['/', 't', 'm', 'p', '/', 'a']) (ascii ['/', 't', 'm', 'p', '/', 'a', '/', 'b'])
    rootInode 0 0

theorem own_parent_not_rooted {fs : RamFs} {idx : InodeIndex} (notRoot : idx ≠ rootInode)
    (own : (fs.inodes idx).parent = idx) : ¬Rooted fs idx := by
  rintro ⟨_, reaches⟩
  induction reaches with
  | here => exact notRoot rfl
  | up free _ ih =>
      rw [parentOf, own] at ih
      exact ih notRoot own

/-- The moved directory becomes its own parent. -/
theorem directory_moved_into_itself :
    ¬∀ (hello : Bytes) (operations : List Operation),
      DirectoriesRooted ((fsSystem hello).runFrom (fsSystem hello).init operations) := by
  intro rooted
  apply @own_parent_not_rooted ((fsSystem []).runFrom (fsSystem []).init [makeA, moveIntoItself])
    ⟨8, by decide⟩
  · decide
  · decide +kernel
  · apply rooted
    decide +kernel

end Ferrugem.DirectoryTree
