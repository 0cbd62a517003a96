import Ferrugem.RamFsModel

/-!
# The parent of every inode is a directory

`mkdir` looks at the kind of the inode it resolved as parent. `touch`, `write`
and `rename` attach to whatever the directory part of the path resolves to.
-/

namespace Ferrugem.DirectoryParents

open Ferrugem.RamFsModel

set_option autoImplicit false

def workingDirectory : Operation → Option InodeIndex
  | .mkdir _ cwd _ _ _ => some cwd
  | .rmdir _ cwd _ _ => some cwd
  | .touch _ cwd _ _ => some cwd
  | .write _ cwd _ _ _ => some cwd
  | .unlink _ cwd _ _ => some cwd
  | .rename _ _ cwd _ _ => some cwd
  | .chmod _ cwd _ _ => some cwd
  | .chown _ cwd _ _ _ => some cwd
  | .inodeWrite _ _ _ => none

def isDirectory (fs : RamFs) (idx : InodeIndex) : Bool :=
  (fs.inodes idx).used && (fs.inodes idx).kind == .dir

def inDirectory (fs : RamFs) (operation : Operation) : Bool :=
  (workingDirectory operation).all (isDirectory fs)

/-- Every sequence of calls from `fs::init`, each with a used directory as its
working directory. -/
def directorySystem (hello : Bytes) : EventSystem RamFs Operation Bool where
  init := RamFs.init hello
  step := fun fs operation =>
    if inDirectory fs operation then (fsSystem hello).step fs operation else (fs, some false)

structure ParentsAreDirs (fs : RamFs) : Prop where
  root : isDirectory fs rootInode = true ∧ (fs.inodes rootInode).parent = rootInode
  parents : ∀ i, i ≠ rootInode → (fs.inodes i).used = true →
    isDirectory fs (fs.inodes i).parent = true

/-- The parent to which `touch` or `write` attaches a new file. -/
def createsAt (fs : RamFs) (path : Bytes) (cwd : InodeIndex) (uid gid : BitVec 16) :
    Option InodeIndex :=
  if (fs.resolve path cwd).isSome then none
  else (fs.resolveParent path cwd).filter fun parent => fs.perm parent uid gid 2#16 && fs.alloc.isSome

/-- The parent to which `rename` moves its source. -/
def movesTo (fs : RamFs) (srcPath dstPath : Bytes) (cwd : InodeIndex) (uid gid : BitVec 16) :
    Option InodeIndex :=
  (fs.resolve srcPath cwd).bind fun src =>
    if src = rootInode ∨ fs.perm (fs.inodes src).parent uid gid 2#16 = false then none
    else (fs.resolveParent dstPath cwd).filter fun dstParent =>
      fs.perm dstParent uid gid 2#16 &&
        (fs.lookupIn dstParent (splitParent dstPath).2).all fun dst =>
          dst != src && (fs.inodes dst).kind != .dir

/-- The parent to which the operation attaches an inode without a look at its
kind. -/
def attachesAt (fs : RamFs) : Operation → Option InodeIndex
  | .touch path cwd uid gid => createsAt fs path cwd uid gid
  | .write path cwd _ uid gid => createsAt fs path cwd uid gid
  | .rename srcPath dstPath cwd uid gid => movesTo fs srcPath dstPath cwd uid gid
  | _ => none

/-- Files are created in directories, and inodes are moved into directories. -/
def AttachesToDirs (fs : RamFs) (operation : Operation) : Prop :=
  inDirectory fs operation = true →
    ∀ parent ∈ attachesAt fs operation, (fs.inodes parent).kind = .dir

instance decidableAttachesToDirs (fs : RamFs) (operation : Operation) :
    Decidable (AttachesToDirs fs operation) :=
  inferInstanceAs (Decidable (_ → ∀ parent ∈ attachesAt fs operation, _))

section

variable {fs : RamFs}

theorem is_directory_iff {idx : InodeIndex} :
    isDirectory fs idx = true ↔ (fs.inodes idx).used = true ∧ (fs.inodes idx).kind = .dir := by
  simp [isDirectory]

theorem parent_used (shaped : ParentsAreDirs fs) {idx : InodeIndex}
    (isUsed : (fs.inodes idx).used = true) :
    isDirectory fs (fs.inodes idx).parent = true := by
  by_cases isRoot : idx = rootInode
  · rw [isRoot, shaped.root.2]
    exact shaped.root.1
  · exact shaped.parents idx isRoot isUsed

theorem lookup_used (shaped : ParentsAreDirs fs) (parent : InodeIndex) (name : Bytes)
    (found : InodeIndex) (isUsed : (fs.inodes parent).used = true)
    (lookup : fs.lookupIn parent name = some found) : (fs.inodes found).used = true := by
  rcases lookup_in_cases lookup with ⟨_, rfl⟩ | ⟨_, rfl⟩ | ⟨_, _, foundUsed, _⟩
  · exact isUsed
  · exact (is_directory_iff.mp (parent_used shaped isUsed)).1
  · exact foundUsed

theorem resolve_used (shaped : ParentsAreDirs fs) {path : Bytes} {cwd idx : InodeIndex}
    (inside : isDirectory fs cwd = true) (resolves : fs.resolve path cwd = some idx) :
    (fs.inodes idx).used = true := by
  apply resolve_keeps (lookup_used shaped) _ resolves
  unfold RamFs.walkStart
  split_ifs
  · exact (is_directory_iff.mp shaped.root.1).1
  · exact (is_directory_iff.mp inside).1

theorem same_places_directory {after : RamFs} (same : SamePlaces fs after) :
    isDirectory after = isDirectory fs := by
  funext i
  simp only [isDirectory, same.used, same.kind]

theorem shaped_same_places {after : RamFs} (same : SamePlaces fs after)
    (shaped : ParentsAreDirs fs) : ParentsAreDirs after := by
  constructor
  · rw [same_places_directory same, same.parent]
    exact shaped.root
  · intro i notRoot isUsed
    rw [same.used] at isUsed
    rw [same_places_directory same, same.parent]
    exact shaped.parents i notRoot isUsed

theorem shaped_create_iff {idx : InodeIndex} {inode : Inode} (shaped : ParentsAreDirs fs)
    (unused : (fs.inodes idx).used = false) (notRoot : idx ≠ rootInode)
    (isUsed : inode.used = true) (parentUsed : (fs.inodes inode.parent).used = true) :
    ParentsAreDirs (fs.setInode idx inode) ↔ (fs.inodes inode.parent).kind = .dir := by
  have elsewhere : ∀ i, (fs.inodes i).used = true → i ≠ idx := by
    rintro i usedHere rfl
    rw [usedHere] at unused
    cases unused
  have directory : ∀ i, (fs.inodes i).used = true →
      isDirectory (fs.setInode idx inode) i = isDirectory fs i := by
    intro i usedHere
    unfold isDirectory
    rw [set_inode_other fs _ (elsewhere i usedHere)]
  constructor
  · intro after
    have below := after.parents idx notRoot (by rw [set_inode_same]; exact isUsed)
    rw [set_inode_same, directory _ parentUsed] at below
    exact (is_directory_iff.mp below).2
  · intro isDir
    have rootUsed := (is_directory_iff.mp shaped.root.1).1
    constructor
    · rw [directory _ rootUsed, set_inode_other fs _ (elsewhere _ rootUsed)]
      exact shaped.root
    · intro i otherRoot usedAfter
      by_cases here : i = idx
      · subst here
        rw [set_inode_same, directory _ parentUsed]
        exact is_directory_iff.mpr ⟨parentUsed, isDir⟩
      · rw [set_inode_other fs _ here] at usedAfter ⊢
        have below := shaped.parents i otherRoot usedAfter
        rw [directory _ (is_directory_iff.mp below).1]
        exact below

theorem shaped_release {idx : InodeIndex} (shaped : ParentsAreDirs fs) (notRoot : idx ≠ rootInode)
    (childless : ∀ i, i ≠ idx → (fs.inodes i).used = true → (fs.inodes i).parent ≠ idx) :
    ParentsAreDirs (fs.release idx) := by
  have elsewhere : ∀ i, i ≠ idx → (fs.release idx).inodes i = fs.inodes i := fun i different =>
    set_inode_other fs _ different
  have directory : ∀ i, i ≠ idx → isDirectory (fs.release idx) i = isDirectory fs i := by
    intro i different
    unfold isDirectory
    rw [elsewhere i different]
  constructor
  · rw [directory _ notRoot.symm, elsewhere _ notRoot.symm]
    exact shaped.root
  · intro i otherRoot usedAfter
    by_cases here : i = idx
    · subst here
      rw [RamFs.release, RamFs.modify, set_inode_same] at usedAfter
      cases usedAfter
    · rw [elsewhere i here] at usedAfter ⊢
      rw [directory _ (childless i here usedAfter)]
      exact shaped.parents i otherRoot usedAfter

theorem shaped_move_iff {src dstParent : InodeIndex} {name : Bytes} (shaped : ParentsAreDirs fs)
    (notRoot : src ≠ rootInode) (isUsed : (fs.inodes src).used = true) :
    ParentsAreDirs (fs.move src dstParent name) ↔ isDirectory fs dstParent = true := by
  have elsewhere : ∀ i, i ≠ src → (fs.move src dstParent name).inodes i = fs.inodes i :=
    fun i different => set_inode_other fs _ different
  have moved : (fs.move src dstParent name).inodes src =
      { fs.inodes src with parent := dstParent }.setName name := set_inode_same fs _ _
  have directory : ∀ i, isDirectory (fs.move src dstParent name) i = isDirectory fs i := by
    intro i
    unfold isDirectory
    by_cases here : i = src
    · subst here
      rw [moved]
      rfl
    · rw [elsewhere i here]
  have usedAfter : ∀ i, ((fs.move src dstParent name).inodes i).used = (fs.inodes i).used := by
    intro i
    by_cases here : i = src
    · subst here
      rw [moved]
      rfl
    · rw [elsewhere i here]
  constructor
  · intro after
    have below := after.parents src notRoot (by rw [usedAfter]; exact isUsed)
    rw [moved, directory] at below
    exact below
  · intro isDir
    constructor
    · rw [directory, elsewhere _ notRoot.symm]
      exact shaped.root
    · intro i otherRoot stillUsed
      rw [usedAfter] at stillUsed
      rw [directory]
      by_cases here : i = src
      · subst here
        rw [moved]
        exact isDir
      · rw [elsewhere i here]
        exact shaped.parents i otherRoot stillUsed

end

section

variable {fs : RamFs}

theorem creates_at_some {path : Bytes} {cwd parent : InodeIndex} {uid gid : BitVec 16}
    (creates : createsAt fs path cwd uid gid = some parent) :
    fs.resolve path cwd = none ∧ fs.resolveParent path cwd = some parent ∧
      fs.perm parent uid gid 2#16 = true ∧ ∃ idx, fs.alloc = some idx := by
  unfold createsAt at creates
  split_ifs at creates with present
  obtain ⟨resolved, checks⟩ := Option.filter_eq_some_iff.mp creates
  simp only [Bool.and_eq_true, Option.isSome_iff_exists] at checks
  exact ⟨by simpa using present, resolved, checks.1, checks.2⟩

theorem creates_at_of_vacant {path : Bytes} {cwd parent idx : InodeIndex} {uid gid : BitVec 16}
    (absent : fs.resolve path cwd = none) (resolved : fs.resolveParent path cwd = some parent)
    (allowed : fs.perm parent uid gid 2#16 = true) (vacant : fs.alloc = some idx) :
    createsAt fs path cwd uid gid = some parent := by
  simp [createsAt, absent, resolved, allowed, vacant, Option.filter]

/-- A `touch` or `write` that creates does so at the parent. -/
theorem creating_apply {operation : Operation} {path content : Bytes} {cwd parent : InodeIndex}
    {uid gid : BitVec 16}
    (source : operation = .touch path cwd uid gid ∧ content = [] ∨
      operation = .write path cwd content uid gid)
    (creates : createsAt fs path cwd uid gid = some parent) :
    ∃ idx, fs.alloc = some idx ∧ (fs.apply operation).1 = fs.setInode idx
      ((RamFs.newInode .file parent uid gid 0o644#16 (splitParent path).2).setContent content) := by
  obtain ⟨absent, resolved, allowed, idx, vacant⟩ := creates_at_some creates
  refine ⟨idx, vacant, ?_⟩
  rcases source with ⟨rfl, rfl⟩ | rfl
  · simp [RamFs.apply, RamFs.touch, RamFs.create, absent, resolved, allowed, vacant]
  · simp [RamFs.apply, RamFs.write, RamFs.create, absent, resolved, allowed, vacant]

theorem moving_apply {srcPath dstPath : Bytes} {cwd dstParent : InodeIndex} {uid gid : BitVec 16}
    (moves : movesTo fs srcPath dstPath cwd uid gid = some dstParent) :
    ∃ src base, fs.resolve srcPath cwd = some src ∧ src ≠ rootInode ∧
      fs.resolveParent dstPath cwd = some dstParent ∧
      (fs.lookupIn dstParent (splitParent dstPath).2 = none ∧ base = fs ∨
        ∃ dst, fs.lookupIn dstParent (splitParent dstPath).2 = some dst ∧ dst ≠ src ∧
          (fs.inodes dst).kind ≠ .dir ∧ base = fs.release dst) ∧
      (fs.apply (.rename srcPath dstPath cwd uid gid)).1 =
        base.move src dstParent (splitParent dstPath).2 := by
  obtain ⟨src, resolved, checks⟩ := Option.bind_eq_some_iff.mp moves
  split_ifs at checks with refused
  simp only [not_or, Bool.not_eq_false] at refused
  obtain ⟨target, allowed⟩ := Option.filter_eq_some_iff.mp checks
  simp only [Bool.and_eq_true] at allowed
  cases found : fs.lookupIn dstParent (splitParent dstPath).2 with
  | none =>
      refine ⟨src, fs, resolved, refused.1, target, .inl ⟨rfl, rfl⟩, ?_⟩
      simp [RamFs.apply, RamFs.rename, RamFs.renameTo, resolved, refused, target, allowed.1, found]
  | some dst =>
      have checked := allowed.2
      rw [found] at checked
      simp only [Option.all_some, Bool.and_eq_true, bne_iff_ne] at checked
      refine ⟨src, fs.release dst, resolved, refused.1, target,
        .inr ⟨dst, rfl, checked.1, checked.2, rfl⟩, ?_⟩
      simp [RamFs.apply, RamFs.rename, RamFs.renameTo, resolved, refused, target, allowed.1, found,
        checked]

theorem shaped_release_file {idx : InodeIndex} (shaped : ParentsAreDirs fs)
    (isFile : (fs.inodes idx).kind ≠ .dir) : ParentsAreDirs (fs.release idx) := by
  apply shaped_release shaped
  · rintro rfl
    exact isFile (is_directory_iff.mp shaped.root.1).2
  · rintro i _ isUsed rfl
    exact isFile (is_directory_iff.mp (parent_used shaped isUsed)).2

theorem shaped_renamed_iff {base : RamFs} {src dstParent : InodeIndex} {name : Bytes}
    (shaped : ParentsAreDirs fs) (notRoot : src ≠ rootInode)
    (isUsed : (fs.inodes src).used = true) (parentUsed : (fs.inodes dstParent).used = true)
    (freed : base = fs ∨ ∃ dst, dst ≠ src ∧ (fs.inodes dst).kind ≠ .dir ∧ base = fs.release dst) :
    ParentsAreDirs (base.move src dstParent name) ↔ (fs.inodes dstParent).kind = .dir := by
  rcases freed with rfl | ⟨dst, different, isFile, rfl⟩
  · rw [shaped_move_iff shaped notRoot isUsed, is_directory_iff]
    exact ⟨And.right, fun isDir => ⟨parentUsed, isDir⟩⟩
  · have srcUsed : ((fs.release dst).inodes src).used = true := by
      rw [RamFs.release, RamFs.modify, set_inode_other fs _ different.symm]
      exact isUsed
    rw [shaped_move_iff (shaped_release_file shaped isFile) notRoot srcUsed, is_directory_iff]
    by_cases same : dstParent = dst
    · subst same
      rw [RamFs.release, RamFs.modify, set_inode_same]
      simp [isFile]
    · rw [RamFs.release, RamFs.modify, set_inode_other fs _ same]
      exact ⟨And.right, fun isDir => ⟨parentUsed, isDir⟩⟩

theorem resolve_parent_used (shaped : ParentsAreDirs fs) {path : Bytes} {cwd parent : InodeIndex}
    (inside : isDirectory fs cwd = true) (resolved : fs.resolveParent path cwd = some parent) :
    (fs.inodes parent).used = true :=
  resolve_used shaped inside resolved

theorem shaped_apply {operation : Operation} (shaped : ParentsAreDirs fs)
    (inside : inDirectory fs operation = true)
    (attaches : ∀ parent ∈ attachesAt fs operation, (fs.inodes parent).kind = .dir) :
    ParentsAreDirs (fs.apply operation).1 := by
  have shape := apply_effect fs operation
  generalize fs.apply operation = result at shape ⊢
  cases shape with
  | keeps => exact shaped
  | makes resolved isDir allowed absent vacant =>
      obtain ⟨unused, notRoot⟩ := alloc_unused vacant
      apply (shaped_create_iff shaped unused notRoot rfl _).mpr isDir
      exact resolve_parent_used shaped inside resolved
  | @creates _ path content cwd parent idx uid gid source absent resolved allowed vacant =>
      have here := creates_at_of_vacant absent resolved allowed vacant
      have inDir : isDirectory fs cwd = true := by
        rcases source with ⟨rfl, _⟩ | rfl <;> exact inside
      have isDir : (fs.inodes parent).kind = .dir := by
        apply attaches
        rcases source with ⟨rfl, _⟩ | rfl <;> exact here
      obtain ⟨unused, notRoot⟩ := alloc_unused vacant
      apply (shaped_create_iff shaped unused notRoot rfl _).mpr isDir
      exact resolve_parent_used shaped inDir resolved
  | overwrites resolved isFile allowed =>
      dsimp only
      apply shaped_same_places _ shaped
      exact modify_same_places fun _ => ⟨rfl, rfl, rfl, rfl⟩
  | removesDir resolved notRoot isDir isEmpty allowed =>
      apply shaped_release shaped notRoot
      intro i different isUsed below
      have occupied := List.any_eq_false.mp isEmpty i (List.mem_finRange i)
      apply occupied
      simp [different, isUsed, below]
  | removesFile resolved notRoot isFile allowed => exact shaped_release_file shaped isFile
  | @moves srcPath dstPath cwd src dstParent uid gid resolved notRoot leaves target enters absent =>
      have isDir := attaches dstParent (by
        simp [attachesAt, movesTo, resolved, notRoot, leaves, target, enters, absent,
          Option.filter])
      exact (shaped_renamed_iff shaped notRoot (resolve_used shaped inside resolved)
        (resolve_parent_used shaped inside target) (.inl rfl)).mpr isDir
  | @replaces srcPath dstPath cwd src dstParent dst uid gid resolved notRoot leaves target enters
      found different isFile =>
      have isDir := attaches dstParent (by
        simp [attachesAt, movesTo, resolved, notRoot, leaves, target, enters, found, different,
          isFile, Option.filter])
      exact (shaped_renamed_iff shaped notRoot (resolve_used shaped inside resolved)
        (resolve_parent_used shaped inside target)
        (.inr ⟨dst, different, isFile, rfl⟩)).mpr isDir
  | changesMode resolved allowed =>
      dsimp only
      apply shaped_same_places _ shaped
      exact modify_same_places fun _ => ⟨rfl, rfl, rfl, rfl⟩
  | changesOwner resolved =>
      dsimp only
      apply shaped_same_places _ shaped
      exact modify_same_places fun _ => ⟨rfl, rfl, rfl, rfl⟩
  | patches isUsed isFile =>
      dsimp only
      apply shaped_same_places _ shaped
      exact modify_same_places fun _ => ⟨rfl, rfl, rfl, rfl⟩

theorem shaped_attaches {operation : Operation} {parent : InodeIndex} (shaped : ParentsAreDirs fs)
    (inside : inDirectory fs operation = true) (attaches : attachesAt fs operation = some parent)
    (after : ParentsAreDirs (fs.apply operation).1) : (fs.inodes parent).kind = .dir := by
  have creating : ∀ path content cwd uid gid, createsAt fs path cwd uid gid = some parent →
      isDirectory fs cwd = true →
      (operation = .touch path cwd uid gid ∧ content = [] ∨
        operation = .write path cwd content uid gid) → (fs.inodes parent).kind = .dir := by
    intro path content cwd uid gid creates inDir source
    obtain ⟨idx, vacant, result⟩ := creating_apply source creates
    obtain ⟨unused, notRoot⟩ := alloc_unused vacant
    rw [result] at after
    refine (shaped_create_iff shaped unused notRoot rfl ?_).mp after
    exact resolve_parent_used shaped inDir (creates_at_some creates).2.1
  cases operation <;> simp only [attachesAt, reduceCtorEq] at attaches
  case touch path cwd uid gid => exact creating path [] cwd uid gid attaches inside (.inl ⟨rfl, rfl⟩)
  case write path cwd content uid gid =>
    exact creating path content cwd uid gid attaches inside (.inr rfl)
  case rename srcPath dstPath cwd uid gid =>
    obtain ⟨src, base, resolved, notRoot, target, freed, result⟩ := moving_apply attaches
    rw [result] at after
    refine (shaped_renamed_iff shaped notRoot (resolve_used shaped inside resolved)
      (resolve_parent_used shaped inside target) ?_).mp after
    rcases freed with ⟨_, same⟩ | ⟨dst, _, different, isFile, same⟩
    · exact .inl same
    · exact .inr ⟨dst, different, isFile, same⟩

end

theorem shaped_step_iff (hello : Bytes) (fs : RamFs) (operation : Operation)
    (shaped : ParentsAreDirs fs) :
    ParentsAreDirs ((directorySystem hello).step fs operation).1 ↔
      AttachesToDirs fs operation := by
  simp only [directorySystem]
  by_cases inside : inDirectory fs operation = true
  · rw [if_pos inside]
    constructor
    · intro after _ parent attaches
      exact shaped_attaches shaped inside attaches after
    · intro attaches
      exact shaped_apply shaped inside (attaches inside)
  · rw [if_neg inside]
    simp only [AttachesToDirs, inside, Bool.false_eq_true, false_implies, iff_true]
    exact shaped

instance decidableParentsAreDirs (fs : RamFs) : Decidable (ParentsAreDirs fs) :=
  decidable_of_iff
    ((isDirectory fs rootInode = true ∧ (fs.inodes rootInode).parent = rootInode) ∧
      ∀ i, i ≠ rootInode → (fs.inodes i).used = true →
        isDirectory fs (fs.inodes i).parent = true)
    ⟨fun both => ⟨both.1, both.2⟩, fun shaped => ⟨shaped.root, shaped.parents⟩⟩

theorem shaped_init (hello : Bytes) : ParentsAreDirs (RamFs.init hello) := by
  have base : ParentsAreDirs RamFs.initDirectories := by decide +kernel
  refine @shaped_apply _ (.write RamFs.helloPath rootInode hello 0 0) base ?_ ?_
  · simp only [inDirectory, workingDirectory]
    decide +kernel
  · simp only [attachesAt]
    decide +kernel

/-- In a run from `fs::init` every parent is a directory in every state
reached, exactly when every `touch`, `write` and `rename` that attaches an
inode attaches it to a directory. -/
theorem parents_are_dirs_iff (hello : Bytes) (operations : List Operation) :
    (∀ before, before <+: operations →
      ParentsAreDirs ((directorySystem hello).runFrom (directorySystem hello).init before)) ↔
      (directorySystem hello).StepsMeet AttachesToDirs (directorySystem hello).init operations :=
  EventSystem.reached_satisfy_iff ParentsAreDirs (shaped_step_iff hello) operations
    (shaped_init hello)

/-- `touch("/etc/hostname/x")` by root. -/
def fileInFile : Operation :=
  .touch (ascii ['/', 'e', 't', 'c', '/', 'h', 'o', 's', 't', 'n', 'a', 'm', 'e', '/', 'x'])
    rootInode 0 0

/-- The new file's parent is a file. -/
theorem file_attached_to_file :
    ¬∀ (hello : Bytes) (operations : List Operation),
      ParentsAreDirs
        ((directorySystem hello).runFrom (directorySystem hello).init operations) := by
  intro shaped
  have after := shaped [] [fileInFile]
  revert after
  decide +kernel

end Ferrugem.DirectoryParents
