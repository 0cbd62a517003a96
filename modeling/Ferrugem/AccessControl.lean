import Ferrugem.DirectoryNames

/-!
# Discretionary access control

The permission of a caller other than root is the bit of its class (owner,
group or other) in the mode of the inode. Each operation of the filesystem
checks the inodes it reads and changes by itself; `rename` checks the directory
it moves to, but the file it overwrites is in that directory only if the last
component of the destination is a name and not `.` or `..`.
-/

namespace Ferrugem.AccessControl

open Ferrugem.RamFsModel Ferrugem.DirectoryParents Ferrugem.DirectoryTree
open Ferrugem.PathResolution

set_option autoImplicit false

inductive AccessClass where
  | owner
  | group
  | other
  deriving DecidableEq

def accessClass (inode : Inode) (uid gid : BitVec 16) : AccessClass :=
  if inode.uid = uid then .owner else if inode.gid = gid then .group else .other

/-- Where the three bits of the class begin in the mode. -/
def AccessClass.lowBit : AccessClass → Nat
  | .owner => 6
  | .group => 3
  | .other => 0

inductive Access where
  | read
  | write

/-- The position of the access among the bits of its class. -/
def Access.bit : Access → Nat
  | .read => 2
  | .write => 1

def Grants (inode : Inode) (uid gid : BitVec 16) (access : Access) : Prop :=
  inode.mode.getLsbD ((accessClass inode uid gid).lowBit + access.bit) = true

instance decidableGrants (inode : Inode) (uid gid : BitVec 16) (access : Access) :
    Decidable (Grants inode uid gid access) :=
  inferInstanceAs (Decidable (_ = true))

/-- The value `perm` is called with. -/
def Access.mask : Access → BitVec 16
  | .read => 4#16
  | .write => 2#16

theorem mask_set (bits : BitVec 16) (access : Access) :
    (bits &&& access.mask != 0) = bits.getLsbD access.bit := by
  have single : access.mask = BitVec.twoPow 16 access.bit := by cases access <;> rfl
  rw [single, BitVec.and_twoPow]
  by_cases isSet : bits.getLsbD access.bit = true
  · rw [if_pos isSet, isSet]
    cases access <;> decide
  · have clear : bits.getLsbD access.bit = false := by simpa using isSet
    rw [if_neg isSet, clear]
    decide

/-- `perm` decides the policy, and lets root do everything. -/
theorem perm_iff (fs : RamFs) (idx : InodeIndex) (uid gid : BitVec 16) (access : Access) :
    fs.perm idx uid gid access.mask = true ↔
      uid = 0 ∨ Grants (fs.inodes idx) uid gid access := by
  unfold RamFs.perm Grants accessClass
  by_cases isRoot : uid = 0
  · rw [if_pos isRoot]
    exact ⟨fun _ => .inl isRoot, fun _ => rfl⟩
  · rw [if_neg isRoot]
    simp only [isRoot, false_or, mask_set]
    by_cases isOwner : (fs.inodes idx).uid = uid
    · simp only [if_pos isOwner, BitVec.getLsbD_ushiftRight, AccessClass.lowBit]
    · by_cases isGroup : (fs.inodes idx).gid = gid
      · simp only [if_neg isOwner, if_pos isGroup, BitVec.getLsbD_ushiftRight, AccessClass.lowBit]
      · simp only [if_neg isOwner, if_neg isGroup, AccessClass.lowBit, Nat.zero_add]

theorem grants_read {fs : RamFs} {idx : InodeIndex} {uid gid : BitVec 16} (notRoot : uid ≠ 0)
    (allowed : fs.perm idx uid gid 4#16 = true) : Grants (fs.inodes idx) uid gid .read :=
  ((perm_iff fs idx uid gid .read).mp allowed).resolve_left notRoot

theorem grants_write {fs : RamFs} {idx : InodeIndex} {uid gid : BitVec 16} (notRoot : uid ≠ 0)
    (allowed : fs.perm idx uid gid 2#16 = true) : Grants (fs.inodes idx) uid gid .write :=
  ((perm_iff fs idx uid gid .write).mp allowed).resolve_left notRoot

inductive Request where
  | change (operation : Operation)
  | readAt (path : Bytes) (cwd : InodeIndex) (uid gid : BitVec 16)
  | openCheck (path : Bytes) (cwd : InodeIndex) (uid gid : BitVec 16) (write : Bool)

/-- The request is made with this user and group. `chmod` and `chown` take no
group, and `inode_write` no caller. -/
def MadeBy (uid gid : BitVec 16) : Request → Prop
  | .change (.mkdir _ _ user group _) => user = uid ∧ group = gid
  | .change (.rmdir _ _ user group) => user = uid ∧ group = gid
  | .change (.touch _ _ user group) => user = uid ∧ group = gid
  | .change (.write _ _ _ user group) => user = uid ∧ group = gid
  | .change (.unlink _ _ user group) => user = uid ∧ group = gid
  | .change (.rename _ _ _ user group) => user = uid ∧ group = gid
  | .change (.chmod _ _ _ user) => user = uid
  | .change (.chown _ _ _ _ user) => user = uid
  | .change (.inodeWrite _ _ _) => False
  | .readAt _ _ user group => user = uid ∧ group = gid
  | .openCheck _ _ user group _ => user = uid ∧ group = gid

def isUnlink : Operation → Bool
  | .unlink _ _ _ _ => true
  | _ => false

/-- The inode is an entry of both states, under the same name in the same
directory. -/
def EntryStays (before after : RamFs) (idx : InodeIndex) : Prop :=
  (before.inodes idx).used = true ∧ (after.inodes idx).used = true ∧
    (after.inodes idx).parent = (before.inodes idx).parent ∧
    (after.inodes idx).name = (before.inodes idx).name

/-- What a change may do on behalf of a caller other than root. -/
structure ChangeControlled (before after : RamFs) (unlinking : Bool) (uid gid : BitVec 16) :
    Prop where
  content : ∀ idx, (before.inodes idx).used = true →
    (after.inodes idx).data ≠ (before.inodes idx).data ∨
      (after.inodes idx).size ≠ (before.inodes idx).size →
    Grants (before.inodes idx) uid gid .write
  removed : ∀ idx, (before.inodes idx).used = true → ¬EntryStays before after idx →
    Grants (before.inodes (before.inodes idx).parent) uid gid .write ∨
      unlinking = true ∧ (before.inodes idx).uid = uid
  created : ∀ idx, (after.inodes idx).used = true → ¬EntryStays before after idx →
    Grants (before.inodes (after.inodes idx).parent) uid gid .write
  mode : ∀ idx, (before.inodes idx).used = true →
    (after.inodes idx).mode ≠ (before.inodes idx).mode → (before.inodes idx).uid = uid
  owner : ∀ idx, (before.inodes idx).used = true →
    (after.inodes idx).uid = (before.inodes idx).uid ∧
      (after.inodes idx).gid = (before.inodes idx).gid

/-- The request does what the policy lets the caller do. -/
def Controlled (fs : RamFs) (uid gid : BitVec 16) : Request → Prop
  | .change operation =>
      ChangeControlled fs (fs.apply operation).1 (isUnlink operation) uid gid
  | .readAt path cwd user group =>
      (fs.readAt path cwd user group).isSome = true →
        ∃ idx, fs.resolve path cwd = some idx ∧ Grants (fs.inodes idx) uid gid .read
  | .openCheck path cwd user group write =>
      ∀ idx ∈ fs.openCheck path cwd user group write,
        fs.resolve path cwd = some idx ∧
          Grants (fs.inodes idx) uid gid (if write then .write else .read)

/-- A rename to a last component `.` or `..` overwrites a file only if the
caller may write to the directory of that file. -/
def OverwritesInWritable (fs : RamFs) (uid gid : BitVec 16) : Request → Prop
  | .change (.rename srcPath dstPath cwd user group) =>
      ∀ dstParent ∈ movesTo fs srcPath dstPath cwd user group,
        lastName dstPath = dot ∨ lastName dstPath = dotDot →
          ∀ dst ∈ fs.lookupIn dstParent (lastName dstPath), (fs.inodes dst).used = true →
            Grants (fs.inodes (fs.inodes dst).parent) uid gid .write
  | _ => True

section

variable {fs : RamFs} {unlinking : Bool} {uid gid : BitVec 16}

theorem controlled_refl : ChangeControlled fs fs unlinking uid gid := by
  have stays : ∀ idx, (fs.inodes idx).used = true → EntryStays fs fs idx :=
    fun _ isUsed => ⟨isUsed, isUsed, rfl, rfl⟩
  constructor
  · intro idx _ changed
    simp at changed
  · exact fun idx isUsed gone => absurd (stays idx isUsed) gone
  · exact fun idx isUsed fresh => absurd (stays idx isUsed) fresh
  · exact fun idx _ changed => absurd rfl changed
  · exact fun _ _ => ⟨rfl, rfl⟩

theorem controlled_set {idx : InodeIndex} {inode : Inode}
    (content : (fs.inodes idx).used = true →
      inode.data ≠ (fs.inodes idx).data ∨ inode.size ≠ (fs.inodes idx).size →
      Grants (fs.inodes idx) uid gid .write)
    (removed : (fs.inodes idx).used = true → ¬EntryStays fs (fs.setInode idx inode) idx →
      Grants (fs.inodes (fs.inodes idx).parent) uid gid .write ∨
        unlinking = true ∧ (fs.inodes idx).uid = uid)
    (created : inode.used = true → ¬EntryStays fs (fs.setInode idx inode) idx →
      Grants (fs.inodes inode.parent) uid gid .write)
    (mode : (fs.inodes idx).used = true → inode.mode ≠ (fs.inodes idx).mode →
      (fs.inodes idx).uid = uid)
    (owner : (fs.inodes idx).used = true →
      inode.uid = (fs.inodes idx).uid ∧ inode.gid = (fs.inodes idx).gid) :
    ChangeControlled fs (fs.setInode idx inode) unlinking uid gid := by
  have elsewhere := @controlled_refl fs unlinking uid gid
  constructor
  · intro i isUsed changed
    by_cases here : i = idx
    · subst here
      rw [set_inode_same] at changed
      exact content isUsed changed
    · rw [set_inode_other fs _ here] at changed
      exact elsewhere.content i isUsed changed
  · intro i isUsed gone
    by_cases here : i = idx
    · subst here
      exact removed isUsed gone
    · rw [EntryStays, set_inode_other fs _ here] at gone
      exact elsewhere.removed i isUsed gone
  · intro i isUsed fresh
    by_cases here : i = idx
    · subst here
      rw [set_inode_same] at isUsed ⊢
      exact created isUsed fresh
    · rw [set_inode_other fs _ here] at isUsed ⊢
      rw [EntryStays, set_inode_other fs _ here] at fresh
      exact elsewhere.created i isUsed fresh
  · intro i isUsed changed
    by_cases here : i = idx
    · subst here
      rw [set_inode_same] at changed
      exact mode isUsed changed
    · rw [set_inode_other fs _ here] at changed
      exact absurd rfl changed
  · intro i isUsed
    by_cases here : i = idx
    · subst here
      rw [set_inode_same]
      exact owner isUsed
    · rw [set_inode_other fs _ here]
      exact ⟨rfl, rfl⟩

theorem controlled_create {idx : InodeIndex} {inode : Inode}
    (unused : (fs.inodes idx).used = false)
    (allowed : Grants (fs.inodes inode.parent) uid gid .write) :
    ChangeControlled fs (fs.setInode idx inode) unlinking uid gid := by
  have vacuous : (fs.inodes idx).used ≠ true := by
    rw [unused]
    decide
  exact controlled_set (fun isUsed => absurd isUsed vacuous) (fun isUsed => absurd isUsed vacuous)
    (fun _ _ => allowed) (fun isUsed => absurd isUsed vacuous)
    (fun isUsed => absurd isUsed vacuous)

theorem controlled_release {idx : InodeIndex}
    (allowed : (fs.inodes idx).used = true →
      Grants (fs.inodes (fs.inodes idx).parent) uid gid .write ∨
        unlinking = true ∧ (fs.inodes idx).uid = uid) :
    ChangeControlled fs (fs.release idx) unlinking uid gid := by
  apply controlled_set
  · intro _ changed
    simp at changed
  · exact fun isUsed _ => allowed isUsed
  · exact fun isUsed => by cases isUsed
  · exact fun _ changed => absurd rfl changed
  · exact fun _ => ⟨rfl, rfl⟩

theorem controlled_renamed {src dstParent : InodeIndex} {name : Bytes} {freed : Option InodeIndex}
    (different : freed ≠ some src)
    (leaves : Grants (fs.inodes (fs.inodes src).parent) uid gid .write)
    (enters : Grants (fs.inodes dstParent) uid gid .write)
    (overwrites : ∀ dst ∈ freed, (fs.inodes dst).used = true →
      Grants (fs.inodes (fs.inodes dst).parent) uid gid .write) :
    ChangeControlled fs (renamed fs src dstParent name freed) unlinking uid gid := by
  have kept : ∀ idx, ¬Displaced src freed idx →
      (renamed fs src dstParent name freed).inodes idx = fs.inodes idx := fun _ => renamed_other
  have source := @renamed_source fs src dstParent name freed different
  have fields : ∀ idx, ((renamed fs src dstParent name freed).inodes idx).data =
        (fs.inodes idx).data ∧
      ((renamed fs src dstParent name freed).inodes idx).size = (fs.inodes idx).size ∧
      ((renamed fs src dstParent name freed).inodes idx).mode = (fs.inodes idx).mode ∧
      ((renamed fs src dstParent name freed).inodes idx).uid = (fs.inodes idx).uid ∧
      ((renamed fs src dstParent name freed).inodes idx).gid = (fs.inodes idx).gid := by
    intro idx
    by_cases isSource : idx = src
    · subst isSource
      rw [source]
      exact ⟨rfl, rfl, rfl, rfl, rfl⟩
    · cases freed with
      | none =>
          rw [kept idx (by simp [Displaced, isSource])]
          exact ⟨rfl, rfl, rfl, rfl, rfl⟩
      | some dst =>
          by_cases gone : idx = dst
          · subst gone
            rw [renamed, RamFs.move, RamFs.modify, set_inode_other _ _ isSource, RamFs.release,
              RamFs.modify, set_inode_same]
            exact ⟨rfl, rfl, rfl, rfl, rfl⟩
          · have apart : dst ≠ idx := fun same => gone same.symm
            rw [kept idx (by simp [Displaced, isSource, apart])]
            exact ⟨rfl, rfl, rfl, rfl, rfl⟩
  have stays : ∀ idx, (fs.inodes idx).used = true → ¬Displaced src freed idx →
      EntryStays fs (renamed fs src dstParent name freed) idx := by
    intro idx isUsed apart
    rw [EntryStays, kept idx apart]
    exact ⟨isUsed, isUsed, rfl, rfl⟩
  constructor
  · intro idx _ changed
    simp [fields idx] at changed
  · intro idx isUsed gone
    left
    by_cases isSource : idx = src
    · rw [isSource]
      exact leaves
    · by_cases isFreed : freed = some idx
      · exact overwrites idx isFreed isUsed
      · exact absurd (stays idx isUsed (by simp [Displaced, isSource, isFreed])) gone
  · intro idx isUsed fresh
    by_cases isSource : idx = src
    · subst isSource
      rw [source]
      exact enters
    · by_cases isFreed : freed = some idx
      · subst isFreed
        rw [renamed_freed isSource] at isUsed
        cases isUsed
      · have apart : ¬Displaced src freed idx := by simp [Displaced, isSource, isFreed]
        rw [kept idx apart] at isUsed
        exact absurd (stays idx isUsed apart) fresh
  · exact fun idx _ changed => absurd (fields idx).2.2.1 changed
  · exact fun idx _ => (fields idx).2.2.2

end

section

variable {fs : RamFs} {uid gid : BitVec 16}

theorem read_at_controlled (notRoot : uid ≠ 0) (path : Bytes) (cwd : InodeIndex) :
    Controlled fs uid gid (.readAt path cwd uid gid) := by
  intro succeeds
  obtain ⟨bytes, result⟩ := Option.isSome_iff_exists.mp succeeds
  obtain ⟨idx, resolved, checks⟩ := Option.bind_eq_some_iff.mp result
  split_ifs at checks with isDir denied
  exact ⟨idx, resolved, grants_read notRoot (by simpa using denied)⟩

theorem open_check_controlled (notRoot : uid ≠ 0) (path : Bytes) (cwd : InodeIndex)
    (write : Bool) : Controlled fs uid gid (.openCheck path cwd uid gid write) := by
  intro idx succeeds
  obtain ⟨found, resolved, checks⟩ := Option.bind_eq_some_iff.mp succeeds
  cases write with
  | true =>
      simp only [if_true] at checks ⊢
      split_ifs at checks with isDir denied
      cases checks
      exact ⟨resolved, grants_write notRoot (by simpa using denied)⟩
  | false =>
      simp only [Bool.false_eq_true, if_false] at checks ⊢
      split_ifs at checks with isDir denied
      cases checks
      exact ⟨resolved, grants_read notRoot (by simpa using denied)⟩

theorem overwriting_controlled {srcPath dstPath : Bytes} {cwd dstParent dst : InodeIndex}
    (moves : movesTo fs srcPath dstPath cwd uid gid = some dstParent)
    (found : fs.lookupIn dstParent (lastName dstPath) = some dst)
    (isUsed : (fs.inodes dst).used = true)
    (controlled : Controlled fs uid gid (.change (.rename srcPath dstPath cwd uid gid))) :
    Grants (fs.inodes (fs.inodes dst).parent) uid gid .write := by
  obtain ⟨src, base, _, _, _, freed, result⟩ := moving_apply moves
  rw [split_parent_name, found] at freed
  rcases freed with ⟨absent, _⟩ | ⟨other, same, different, _, rfl⟩
  · cases absent
  · cases same
    simp only [Controlled, isUnlink] at controlled
    rw [result] at controlled
    have gone : (((fs.release dst).move src dstParent (splitParent dstPath).2).inodes dst).used =
        false := renamed_freed different
    rcases controlled.removed dst isUsed (by simp [EntryStays, gone]) with allowed | ⟨isTrue, _⟩
    · exact allowed
    · cases isTrue

theorem change_controlled (notRoot : uid ≠ 0) {operation : Operation}
    (made : MadeBy uid gid (.change operation))
    (writable : OverwritesInWritable fs uid gid (.change operation)) :
    Controlled fs uid gid (.change operation) := by
  simp only [Controlled]
  have shape := apply_effect fs operation
  generalize fs.apply operation = result at shape ⊢
  cases shape with
  | keeps => exact controlled_refl
  | makes resolved isDir allowed absent vacant =>
      obtain ⟨rfl, rfl⟩ := made
      exact controlled_create (alloc_unused vacant).1 (grants_write notRoot allowed)
  | creates source absent resolved allowed vacant =>
      rcases source with ⟨rfl, rfl⟩ | rfl
      all_goals
        obtain ⟨rfl, rfl⟩ := made
        exact controlled_create (alloc_unused vacant).1 (grants_write notRoot allowed)
  | @overwrites path content cwd idx user group resolved isFile allowed =>
      obtain ⟨rfl, rfl⟩ := made
      apply controlled_set
      · exact fun _ _ => grants_write notRoot allowed
      · exact fun isUsed gone => absurd ⟨isUsed, by rw [set_inode_same]; exact isUsed,
          by rw [set_inode_same]; rfl, by rw [set_inode_same]; rfl⟩ gone
      · exact fun isUsed fresh => absurd ⟨isUsed, by rw [set_inode_same]; exact isUsed,
          by rw [set_inode_same]; rfl, by rw [set_inode_same]; rfl⟩ fresh
      · exact fun _ changed => absurd rfl changed
      · exact fun _ => ⟨rfl, rfl⟩
  | removesDir resolved isOther isDir isEmpty allowed =>
      obtain ⟨rfl, rfl⟩ := made
      exact controlled_release fun _ => .inl (grants_write notRoot allowed)
  | removesFile resolved isOther isFile allowed =>
      obtain ⟨rfl, rfl⟩ := made
      apply controlled_release
      intro _
      rcases allowed with isRoot | owns | permitted
      · exact absurd isRoot notRoot
      · exact .inr ⟨rfl, owns⟩
      · exact .inl (grants_write notRoot permitted)
  | @moves srcPath dstPath cwd src dstParent user group resolved isOther leaves target enters
      absent =>
      obtain ⟨rfl, rfl⟩ := made
      exact @controlled_renamed fs _ _ _ src dstParent _ none (by simp)
        (grants_write notRoot leaves) (grants_write notRoot enters) (by simp)
  | @replaces srcPath dstPath cwd src dstParent dst user group resolved isOther leaves target
      enters found different isFile =>
      obtain ⟨rfl, rfl⟩ := made
      have entersGranted := grants_write notRoot enters
      refine @controlled_renamed fs _ _ _ src dstParent _ (some dst) (by simpa using different)
        (grants_write notRoot leaves) entersGranted ?_
      intro other same isUsed
      cases same
      have movesThere : movesTo fs srcPath dstPath cwd user group = some dstParent := by
        simp [movesTo, resolved, isOther, leaves, target, enters, found, different, isFile,
          Option.filter]
      rw [split_parent_name] at found
      by_cases special : lastName dstPath = dot ∨ lastName dstPath = dotDot
      · exact writable dstParent movesThere special dst found isUsed
      · simp only [not_or] at special
        rcases lookup_in_cases found with ⟨isDot, _⟩ | ⟨isDotDot, _⟩ | ⟨_, _, _, below, _⟩
        · exact absurd isDot special.1
        · exact absurd isDotDot special.2
        · rw [below]
          exact entersGranted
  | @changesMode path cwd idx mode user resolved allowed =>
      cases made
      apply controlled_set
      · intro _ changed
        simp at changed
      · exact fun isUsed gone => absurd ⟨isUsed, by rw [set_inode_same]; exact isUsed,
          by rw [set_inode_same], by rw [set_inode_same]⟩ gone
      · exact fun isUsed fresh => absurd ⟨isUsed, by rw [set_inode_same]; exact isUsed,
          by rw [set_inode_same], by rw [set_inode_same]⟩ fresh
      · exact fun _ _ => allowed.resolve_left notRoot
      · exact fun _ => ⟨rfl, rfl⟩
  | changesOwner resolved => exact absurd made.symm notRoot
  | patches isUsed isFile => exact absurd made id

theorem controlled_iff (notRoot : uid ≠ 0) (request : Request) (made : MadeBy uid gid request) :
    Controlled fs uid gid request ↔ OverwritesInWritable fs uid gid request := by
  cases request with
  | readAt path cwd user group =>
      obtain ⟨rfl, rfl⟩ := made
      exact ⟨fun _ => trivial, fun _ => read_at_controlled notRoot path cwd⟩
  | openCheck path cwd user group write =>
      obtain ⟨rfl, rfl⟩ := made
      exact ⟨fun _ => trivial, fun _ => open_check_controlled notRoot path cwd write⟩
  | change operation =>
      refine ⟨fun controlled => ?_, change_controlled notRoot made⟩
      cases operation with
      | rename srcPath dstPath cwd user group =>
          obtain ⟨rfl, rfl⟩ := made
          intro dstParent moves _ dst found isUsed
          exact overwriting_controlled moves found isUsed controlled
      | _ => trivial

end

/-- In every reachable state every request of a caller other than root does
what the policy allows, exactly if it is no rename to `.` or `..` over a file
in a directory that the caller may not write to. -/
theorem access_controlled_iff (hello : Bytes) (operations : List Operation) (uid gid : BitVec 16)
    (notRoot : uid ≠ 0) (request : Request) (made : MadeBy uid gid request) :
    Controlled ((fsSystem hello).runFrom (fsSystem hello).init operations) uid gid request ↔
      OverwritesInWritable ((fsSystem hello).runFrom (fsSystem hello).init operations) uid gid
        request :=
  controlled_iff notRoot request made

/-- The message of the day is made writable for everybody, and a user creates
`/tmp/x`. -/
def sharedFile : List Operation :=
  [.chmod (ascii ['/', 'e', 't', 'c', '/', 'm', 'o', 't', 'd']) rootInode 0o666 0,
    .touch (ascii ['/', 't', 'm', 'p', '/', 'x']) rootInode 1000 1000]

/-- `rename("/tmp/x", "/etc/motd/.")` by the user. -/
def renameOverShared : Operation :=
  .rename (ascii ['/', 't', 'm', 'p', '/', 'x'])
    (ascii ['/', 'e', 't', 'c', '/', 'm', 'o', 't', 'd', '/', '.']) rootInode 1000 1000

/-- A plain rename by its owner inside `/tmp`. -/
theorem access_controlled_in_tmp :
    Controlled ((fsSystem []).runFrom (fsSystem []).init sharedFile) 1000 1000
      (.change (.rename (ascii ['/', 't', 'm', 'p', '/', 'x'])
        (ascii ['/', 't', 'm', 'p', '/', 'y']) rootInode 1000 1000)) := by
  apply (access_controlled_iff [] sharedFile 1000 1000 (by decide)
    (.change (.rename _ _ rootInode 1000 1000)) ⟨rfl, rfl⟩).mpr
  intro dstParent _ special
  exact absurd special (by decide +kernel)

/-- The user removes a file from `/etc`. -/
theorem file_removed_from_etc :
    ¬∀ (hello : Bytes) (operations : List Operation) (uid gid : BitVec 16) (request : Request),
      uid ≠ 0 → MadeBy uid gid request →
        Controlled ((fsSystem hello).runFrom (fsSystem hello).init operations) uid gid
          request := by
  intro controlled
  have granted := @overwriting_controlled _ 1000 1000 _ _ rootInode ⟨5, by decide⟩ ⟨5, by decide⟩
    (by decide +kernel) (by decide +kernel) (by decide +kernel)
    (controlled [] sharedFile 1000 1000 (.change renameOverShared) (by decide) ⟨rfl, rfl⟩)
  revert granted
  decide +kernel

end Ferrugem.AccessControl
