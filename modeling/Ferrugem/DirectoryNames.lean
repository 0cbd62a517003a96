import Ferrugem.DirectoryTree
import Ferrugem.PathResolution

/-!
# Names in a directory

A directory maps names to inodes, and a path that has been created resolves to
what was created. `set_name` cuts a name off after 64 bytes while every check
uses the whole name; `mkdir` of a path without a last component stores an empty
name; and `lookup_in` leaves out an inode that is its own parent.
-/

namespace Ferrugem.DirectoryNames

open Ferrugem.RamFsModel Ferrugem.DirectoryParents Ferrugem.DirectoryTree
open Ferrugem.PathResolution

set_option autoImplicit false

def NamesUnique (fs : RamFs) : Prop :=
  ∀ i j, (fs.inodes i).used = true → (fs.inodes j).used = true →
    (fs.inodes i).parent = (fs.inodes j).parent → (fs.inodes i).name = (fs.inodes j).name → i = j

/-- What a call that returned true has created, or found, is what its path
resolves to afterwards. -/
def Observed (fs after : RamFs) : Operation → Prop
  | .mkdir path cwd _ _ _ =>
      ∃ idx, after.resolve path cwd = some idx ∧ fs.alloc = some idx ∧
        (after.inodes idx).kind = .dir
  | .touch path cwd _ _ =>
      ∃ idx, after.resolve path cwd = some idx ∧
        (fs.resolve path cwd = some idx ∨
          fs.resolve path cwd = none ∧ fs.alloc = some idx ∧ (after.inodes idx).kind = .file)
  | .write path cwd _ _ _ =>
      ∃ idx, after.resolve path cwd = some idx ∧ (after.inodes idx).kind = .file ∧
        (fs.resolve path cwd = some idx ∨ fs.resolve path cwd = none ∧ fs.alloc = some idx)
  | _ => True

def Observable (fs : RamFs) (operation : Operation) : Prop :=
  (fs.apply operation).2 = true → Observed fs (fs.apply operation).1 operation

/-- The name fits into the inode, and the walk to the parent does not come to
the unused inode that `alloc` hands out. -/
def CreatesFitting (fs : RamFs) (path : Bytes) (cwd : InodeIndex) : Prop :=
  (lastName path).length ≤ maxName ∧
    ∀ idx ∈ fs.alloc, idx ∉ resolveTrail fs (RamFs.parentPath path) cwd

def NamesFit (fs : RamFs) : Operation → Prop
  | .mkdir path cwd uid gid _ =>
      (makesAt fs path cwd uid gid).isSome = true → lastName path ≠ [] ∧ CreatesFitting fs path cwd
  | .touch path cwd uid gid =>
      (createsAt fs path cwd uid gid).isSome = true → CreatesFitting fs path cwd
  | .write path cwd _ uid gid =>
      (createsAt fs path cwd uid gid).isSome = true → CreatesFitting fs path cwd
  | .rename srcPath dstPath cwd uid gid =>
      ∀ dstParent ∈ movesTo fs srcPath dstPath cwd uid gid,
        (lastName dstPath).length ≤ maxName ∧ lastName dstPath ≠ dot ∧
          lastName dstPath ≠ dotDot ∧ fs.resolve srcPath cwd ≠ some dstParent
  | _ => True

instance decidableCreatesFitting (fs : RamFs) (path : Bytes) (cwd : InodeIndex) :
    Decidable (CreatesFitting fs path cwd) :=
  inferInstanceAs (Decidable (_ ∧ ∀ idx ∈ fs.alloc, _))

instance decidableNamesFit (fs : RamFs) : ∀ operation, Decidable (NamesFit fs operation)
  | .mkdir _ _ _ _ _ => inferInstanceAs (Decidable (_ → _ ∧ _))
  | .touch _ _ _ _ => inferInstanceAs (Decidable (_ → _))
  | .write _ _ _ _ _ => inferInstanceAs (Decidable (_ → _))
  | .rename srcPath dstPath cwd uid gid =>
      inferInstanceAs (Decidable (∀ dstParent ∈ movesTo fs srcPath dstPath cwd uid gid, _))
  | .rmdir _ _ _ _ => isTrue trivial
  | .unlink _ _ _ _ => isTrue trivial
  | .chmod _ _ _ _ => isTrue trivial
  | .chown _ _ _ _ _ => isTrue trivial
  | .inodeWrite _ _ _ => isTrue trivial

/-- The invariant: the root is the only inode that is its own parent, and its
name is no component of a path. -/
structure Named (fs : RamFs) : Prop where
  unique : NamesUnique fs
  root : (fs.inodes rootInode).name = [slash]
  others : ∀ i, i ≠ rootInode → (fs.inodes i).used = true → (fs.inodes i).parent ≠ i

section

variable {fs : RamFs}

theorem lookup_misses_none {parent idx : InodeIndex} {name : Bytes}
    (absent : fs.lookupIn parent name = none) (isUsed : (fs.inodes idx).used = true)
    (below : (fs.inodes idx).parent = parent) (different : idx ≠ parent) :
    (fs.inodes idx).name ≠ name := by
  unfold RamFs.lookupIn at absent
  split_ifs at absent
  intro named
  apply List.find?_eq_none.mp absent idx (List.mem_finRange idx)
  simp [isUsed, below, different, named]

theorem lookup_none_regular {parent : InodeIndex} {name : Bytes}
    (absent : fs.lookupIn parent name = none) : name ≠ dot ∧ name ≠ dotDot := by
  unfold RamFs.lookupIn at absent
  split_ifs at absent with isDot isDotDot
  exact ⟨isDot, isDotDot⟩

/-- No used inode has the name in the directory, not even the directory
itself. -/
theorem name_free (named : Named fs) {parent : InodeIndex} {name : Bytes}
    (noSlash : ∀ byte ∈ name, byte ≠ slash) (absent : fs.lookupIn parent name = none)
    {idx : InodeIndex} (isUsed : (fs.inodes idx).used = true)
    (below : (fs.inodes idx).parent = parent) : (fs.inodes idx).name ≠ name := by
  by_cases same : idx = parent
  · have isRoot : idx = rootInode := by
      by_contra notRoot
      exact named.others idx notRoot isUsed (below.trans same.symm)
    rw [isRoot, named.root]
    rintro rfl
    exact noSlash slash (List.mem_singleton_self slash) rfl
  · exact lookup_misses_none absent isUsed below same

theorem named_same_places {after : RamFs} (same : SamePlaces fs after) (named : Named fs) :
    Named after where
  unique := by
    intro i j usedI usedJ parents names
    rw [same.used] at usedI usedJ
    rw [same.parent, same.parent] at parents
    rw [same.name, same.name] at names
    exact named.unique i j usedI usedJ parents names
  root := by
    rw [same.name]
    exact named.root
  others := by
    intro i notRoot isUsed
    rw [same.used] at isUsed
    rw [same.parent]
    exact named.others i notRoot isUsed

theorem named_release {idx : InodeIndex} (named : Named fs) : Named (fs.release idx) := by
  have stays : ∀ i, ((fs.release idx).inodes i).used = true → (fs.inodes i).used = true := by
    intro i isUsed
    by_cases here : i = idx
    · subst here
      rw [RamFs.release, RamFs.modify, set_inode_same] at isUsed
      cases isUsed
    · rw [release_other here] at isUsed
      exact isUsed
  have place : ∀ i, ((fs.release idx).inodes i).parent = (fs.inodes i).parent ∧
      ((fs.release idx).inodes i).name = (fs.inodes i).name := by
    intro i
    by_cases here : i = idx
    · subst here
      rw [RamFs.release, RamFs.modify, set_inode_same]
      exact ⟨rfl, rfl⟩
    · rw [release_other here]
      exact ⟨rfl, rfl⟩
  constructor
  · intro i j usedI usedJ parents names
    rw [(place i).1, (place j).1] at parents
    rw [(place i).2, (place j).2] at names
    exact named.unique i j (stays i usedI) (stays j usedJ) parents names
  · rw [(place rootInode).2]
    exact named.root
  · intro i notRoot isUsed
    rw [(place i).1]
    exact named.others i notRoot (stays i isUsed)

theorem named_set {idx : InodeIndex} {inode : Inode} (named : Named fs) (notRoot : idx ≠ rootInode)
    (notOwn : inode.parent ≠ idx)
    (free : ∀ i, i ≠ idx → (fs.inodes i).used = true → (fs.inodes i).parent = inode.parent →
      (fs.inodes i).name ≠ inode.name) : Named (fs.setInode idx inode) := by
  constructor
  · intro i j usedI usedJ parents names
    by_cases hereI : i = idx <;> by_cases hereJ : j = idx
    · rw [hereI, hereJ]
    · subst hereI
      rw [set_inode_same, set_inode_other fs _ hereJ] at parents names
      rw [set_inode_other fs _ hereJ] at usedJ
      exact absurd names.symm (free j hereJ usedJ parents.symm)
    · subst hereJ
      rw [set_inode_same, set_inode_other fs _ hereI] at parents names
      rw [set_inode_other fs _ hereI] at usedI
      exact absurd names (free i hereI usedI parents)
    · rw [set_inode_other fs _ hereI] at usedI parents names
      rw [set_inode_other fs _ hereJ] at usedJ parents names
      exact named.unique i j usedI usedJ parents names
  · rw [set_inode_other fs _ notRoot.symm]
    exact named.root
  · intro i otherRoot isUsed
    by_cases here : i = idx
    · subst here
      rw [set_inode_same]
      exact notOwn
    · rw [set_inode_other fs _ here] at isUsed ⊢
      exact named.others i otherRoot isUsed

section

variable {idx : InodeIndex} {inode : Inode}

theorem lookup_beside_created (unused : (fs.inodes idx).used = false)
    (absent : fs.lookupIn inode.parent inode.name = none) {cur next : InodeIndex}
    (apart : cur ≠ idx) {part : Bytes} (lookup : fs.lookupIn cur part = some next) :
    (fs.setInode idx inode).lookupIn cur part = some next := by
  have fresh : ¬(inode.parent = cur ∧ inode.name = part) := by
    rintro ⟨rfl, rfl⟩
    rw [lookup] at absent
    cases absent
  unfold RamFs.lookupIn at lookup ⊢
  rw [set_inode_other fs _ apart]
  split_ifs at lookup ⊢
  · exact lookup
  · exact lookup
  · rw [← lookup]
    congr 1
    funext i
    by_cases here : i = idx
    · subst here
      rw [set_inode_same, unused]
      by_cases same : inode.parent = cur
      · have other : inode.name ≠ part := fun named => fresh ⟨same, named⟩
        simp [other]
      · simp [same]
    · rw [set_inode_other fs _ here]

theorem lookup_created (isUsed : inode.used = true) (notOwn : inode.parent ≠ idx)
    (absent : fs.lookupIn inode.parent inode.name = none) :
    (fs.setInode idx inode).lookupIn inode.parent inode.name = some idx := by
  obtain ⟨notDot, notDotDot⟩ := lookup_none_regular absent
  cases found : (fs.setInode idx inode).lookupIn inode.parent inode.name with
  | none =>
      exfalso
      apply @lookup_misses_none _ _ idx _ found
      · rw [set_inode_same]
        exact isUsed
      · rw [set_inode_same]
      · exact notOwn.symm
      · rw [set_inode_same]
  | some other =>
      rcases lookup_in_cases found with ⟨isDot, _⟩ | ⟨isDotDot, _⟩ |
        ⟨_, _, otherUsed, below, different, named⟩
      · exact absurd isDot notDot
      · exact absurd isDotDot notDotDot
      · by_cases here : other = idx
        · rw [here]
        · rw [set_inode_other fs _ here] at otherUsed below named
          exact absurd named (lookup_misses_none absent otherUsed below different)

theorem resolve_created {path : Bytes} {cwd : InodeIndex} (named : lastName path ≠ [])
    (unused : (fs.inodes idx).used = false) (isUsed : inode.used = true)
    (name : inode.name = lastName path)
    (resolved : fs.resolveParent path cwd = some inode.parent)
    (absent : fs.lookupIn inode.parent inode.name = none)
    (apart : idx ∉ resolveTrail fs (RamFs.parentPath path) cwd) :
    (fs.setInode idx inode).resolve path cwd = some idx := by
  have notOwn : inode.parent ≠ idx := by
    rintro same
    apply apart
    rw [← same]
    apply walk_end_mem_trail
    rw [← resolve_eq_walk]
    exact resolved
  have parent : (fs.setInode idx inode).resolveParent path cwd = some inode.parent := by
    apply resolve_kept _ resolved
    intro cur member part next lookup
    apply lookup_beside_created unused absent _ lookup
    rintro rfl
    exact apart member
  rw [resolve_split _ _ named, parent, Option.bind_some, ← name]
  rw [name] at absent ⊢
  rw [walk_single _ named (lookup_none_regular absent).1, ← name]
  rw [← name] at absent
  exact lookup_created isUsed notOwn absent

end

/-- What `touch` and `write` find before they create. -/
theorem create_absent {path : Bytes} {cwd parent : InodeIndex}
    (absent : fs.resolve path cwd = none) (resolved : fs.resolveParent path cwd = some parent) :
    lastName path ≠ [] ∧ fs.lookupIn parent (lastName path) = none := by
  have named : lastName path ≠ [] := by
    intro noName
    rw [resolve_eq_walk, ← walk_trailing, trimmed_of_no_name noName] at absent
    cases absent
  rw [resolve_split fs cwd named, resolved, Option.bind_some] at absent
  refine ⟨named, ?_⟩
  by_cases isDot : lastName path = dot
  · rw [isDot] at absent
    cases absent
  · rw [walk_single fs named isDot] at absent
    exact absent

theorem new_inode_name {kind : InodeKind} {parent : InodeIndex} {uid gid mode : BitVec 16}
    {path content : Bytes} (fits : (lastName path).length ≤ maxName) :
    ((RamFs.newInode kind parent uid gid mode (splitParent path).2).setContent content).name =
      lastName path := by
  rw [split_parent_name]
  exact List.take_of_length_le fits

theorem created_named {path : Bytes} {cwd idx : InodeIndex} {inode : Inode} (named : Named fs)
    (notEmpty : lastName path ≠ []) (vacant : fs.alloc = some idx) (isUsed : inode.used = true)
    (name : inode.name = lastName path) (resolved : fs.resolveParent path cwd = some inode.parent)
    (absent : fs.lookupIn inode.parent (lastName path) = none)
    (fitting : CreatesFitting fs path cwd) :
    Named (fs.setInode idx inode) ∧ (fs.setInode idx inode).resolve path cwd = some idx := by
  obtain ⟨unused, notRoot⟩ := alloc_unused vacant
  have apart := fitting.2 idx vacant
  rw [← name] at absent
  refine ⟨named_set named notRoot ?_ ?_, ?_⟩
  · rintro same
    apply apart
    rw [← same]
    apply walk_end_mem_trail
    rw [← resolve_eq_walk]
    exact resolved
  · intro i _ otherUsed below
    apply name_free named _ absent otherUsed below
    rw [name]
    exact fun _ => last_name_no_slash
  · exact resolve_created notEmpty unused isUsed name resolved absent apart

theorem renamed_named {src dstParent : InodeIndex} {name : Bytes} {freed : Option InodeIndex}
    (named : Named fs) (notRoot : src ≠ rootInode) (notOwn : dstParent ≠ src)
    (noSlash : ∀ byte ∈ name, byte ≠ slash) (fits : name.length ≤ maxName)
    (regular : name ≠ dot ∧ name ≠ dotDot) (lookup : fs.lookupIn dstParent name = freed) :
    Named (renamed fs src dstParent name freed) := by
  have stored : name.take maxName = name := List.take_of_length_le fits
  cases freed with
  | none =>
      apply named_set named notRoot notOwn
      intro i _ isUsed below
      change _ ≠ name.take maxName
      rw [stored]
      exact name_free named noSlash lookup isUsed below
  | some dst =>
      apply named_set (named_release named) notRoot notOwn
      intro i _ isUsed below
      change _ ≠ name.take maxName
      rw [stored]
      by_cases gone : i = dst
      · subst gone
        rw [RamFs.release, RamFs.modify, set_inode_same] at isUsed
        cases isUsed
      · rw [release_other gone] at isUsed below ⊢
        intro sameName
        rcases lookup_in_cases lookup with ⟨isDot, _⟩ | ⟨isDotDot, _⟩ |
          ⟨_, _, dstUsed, dstBelow, _, dstName⟩
        · exact regular.1 isDot
        · exact regular.2 isDotDot
        · exact gone (named.unique i dst isUsed dstUsed (below.trans dstBelow.symm)
            (sameName.trans dstName.symm))

theorem modify_places_named {idx : InodeIndex} {change : Inode → Inode} (named : Named fs)
    (same : ∀ inode, (change inode).used = inode.used ∧ (change inode).kind = inode.kind ∧
      (change inode).parent = inode.parent ∧ (change inode).name = inode.name) :
    Named (fs.modify idx change) :=
  named_same_places (modify_same_places same) named

theorem resolve_overwritten {path content : Bytes} {cwd idx : InodeIndex}
    (resolved : fs.resolve path cwd = some idx) :
    (fs.modify idx fun inode => inode.setContent content).resolve path cwd = some idx := by
  have same : SamePlaces fs (fs.modify idx fun inode => inode.setContent content) :=
    modify_same_places fun _ => ⟨rfl, rfl, rfl, rfl⟩
  apply resolve_kept _ resolved
  intro cur _ part next lookup
  rw [← lookup]
  exact lookup_same_places same cur part

theorem named_apply {operation : Operation} (named : Named fs) (fit : NamesFit fs operation) :
    Named (fs.apply operation).1 ∧ Observable fs operation := by
  unfold Observable
  have shape := apply_effect fs operation
  generalize fs.apply operation = result at shape ⊢
  cases shape with
  | @keeps operation succeeded created written touched =>
      refine ⟨named, fun success => ?_⟩
      cases operation with
      | mkdir path cwd uid gid mode =>
          rw [created path cwd uid gid mode rfl] at success
          cases success
      | write path cwd content uid gid =>
          rw [written path cwd content uid gid rfl] at success
          cases success
      | touch path cwd uid gid =>
          obtain ⟨idx, present⟩ := Option.isSome_iff_exists.mp (touched path cwd uid gid rfl success)
          exact ⟨idx, present, .inl present⟩
      | _ => trivial
  | @makes path cwd parent idx uid gid mode resolved isDir allowed absent vacant =>
      obtain ⟨notEmpty, fitting⟩ := fit (by
        simp [makesAt, resolved, isDir, allowed, absent, vacant, Option.filter])
      rw [split_parent_name] at absent
      obtain ⟨after, found⟩ := created_named named notEmpty vacant rfl
        (new_inode_name fitting.1) resolved absent fitting
      exact ⟨after, fun _ => ⟨idx, found, vacant, by rw [set_inode_same]; rfl⟩⟩
  | @creates operation path content cwd parent idx uid gid source absent resolved allowed vacant =>
      have creates := creates_at_of_vacant absent resolved allowed vacant
      have fitting : CreatesFitting fs path cwd := by
        rcases source with ⟨rfl, _⟩ | rfl <;> exact fit (by rw [creates]; rfl)
      obtain ⟨notEmpty, missing⟩ := create_absent absent resolved
      obtain ⟨after, found⟩ := @created_named fs path cwd idx _ named notEmpty vacant rfl
        (new_inode_name fitting.1) resolved missing fitting
      refine ⟨after, fun _ => ?_⟩
      rcases source with ⟨rfl, rfl⟩ | rfl
      · exact ⟨idx, found, .inr ⟨absent, vacant, by rw [set_inode_same]; rfl⟩⟩
      · exact ⟨idx, found, by rw [set_inode_same]; rfl, .inr ⟨absent, vacant⟩⟩
  | @overwrites path content cwd idx uid gid resolved isFile allowed =>
      dsimp only
      refine ⟨?_, fun _ => ⟨idx, resolve_overwritten resolved, ?_, .inl resolved⟩⟩
      · exact modify_places_named named fun _ => ⟨rfl, rfl, rfl, rfl⟩
      rw [RamFs.modify, set_inode_same]
      cases kind : (fs.inodes idx).kind with
      | dir => exact absurd kind isFile
      | file => exact kind
  | removesDir resolved notRoot isDir isEmpty allowed =>
      exact ⟨named_release named, fun _ => trivial⟩
  | removesFile resolved notRoot isFile allowed =>
      exact ⟨named_release named, fun _ => trivial⟩
  | @moves srcPath dstPath cwd src dstParent uid gid resolved notRoot leaves target enters absent =>
      obtain ⟨fits, notDot, notDotDot, notOwn⟩ := fit dstParent (by
        simp [movesTo, resolved, notRoot, leaves, target, enters, absent, Option.filter])
      rw [split_parent_name] at absent ⊢
      refine ⟨renamed_named named notRoot ?_ (fun _ => last_name_no_slash) fits
        ⟨notDot, notDotDot⟩ absent, fun _ => trivial⟩
      rintro rfl
      exact notOwn resolved
  | @replaces srcPath dstPath cwd src dstParent dst uid gid resolved notRoot leaves target enters
      found different isFile =>
      obtain ⟨fits, notDot, notDotDot, notOwn⟩ := fit dstParent (by
        simp [movesTo, resolved, notRoot, leaves, target, enters, found, different, isFile,
          Option.filter])
      rw [split_parent_name] at found ⊢
      refine ⟨renamed_named named notRoot ?_ (fun _ => last_name_no_slash) fits
        ⟨notDot, notDotDot⟩ found, fun _ => trivial⟩
      rintro rfl
      exact notOwn resolved
  | changesMode resolved allowed =>
      dsimp only
      refine ⟨?_, fun _ => trivial⟩
      exact modify_places_named named fun _ => ⟨rfl, rfl, rfl, rfl⟩
  | changesOwner resolved =>
      dsimp only
      refine ⟨?_, fun _ => trivial⟩
      exact modify_places_named named fun _ => ⟨rfl, rfl, rfl, rfl⟩
  | patches isUsed isFile =>
      dsimp only
      refine ⟨?_, fun _ => trivial⟩
      exact modify_places_named named fun _ => ⟨rfl, rfl, rfl, rfl⟩

end

theorem named_init (hello : Bytes) : Named (RamFs.init hello) := by
  have base : Named RamFs.initDirectories := by
    constructor
    · unfold NamesUnique
      decide +kernel
    · decide +kernel
    · decide +kernel
  refine (@named_apply _ (.write RamFs.helloPath rootInode hello 0 0) base ?_).1
  simp only [NamesFit]
  decide +kernel

/-- In every run from `fs::init` whose steps store fitting names, the names in
a directory are unique in every state reached, and every creation that
succeeds is found by its path. -/
theorem names_unique_and_observable (hello : Bytes) {operations : List Operation}
    (fit : (fsSystem hello).StepsMeet NamesFit (fsSystem hello).init operations) :
    NamesUnique ((fsSystem hello).runFrom (fsSystem hello).init operations) ∧
      (fsSystem hello).StepsMeet Observable (fsSystem hello).init operations := by
  have keeps : ∀ fs operation, Named fs → NamesFit fs operation →
      Named ((fsSystem hello).step fs operation).1 :=
    fun _ _ named fits => (named_apply named fits).1
  constructor
  · exact (EventSystem.run_preserves Named keeps (named_init hello) fit).unique
  · exact EventSystem.steps_satisfy Named keeps
      (fun _ _ named fits => (named_apply named fits).2) (named_init hello) fit

theorem names_unique_after_move :
    NamesUnique ((fsSystem []).runFrom (fsSystem []).init [makeA, moveFile]) ∧
      (fsSystem []).StepsMeet Observable (fsSystem []).init [makeA, moveFile] :=
  names_unique_and_observable [] (by decide +kernel)

/-- A name of 65 bytes in `/tmp`. -/
def longPath : Bytes := ascii ['/', 't', 'm', 'p', '/'] ++ List.replicate 65 0x61

/-- The two files get the same 64-byte name, and neither is found by its
path. -/
theorem long_name_created_twice :
    ¬∀ (hello : Bytes) (operations : List Operation),
      NamesUnique ((fsSystem hello).runFrom (fsSystem hello).init operations) ∧
        (fsSystem hello).StepsMeet Observable (fsSystem hello).init operations := by
  intro holds
  obtain ⟨unique, _⟩ := holds [] [.touch longPath rootInode 0 0, .touch longPath rootInode 0 0]
  have same := unique ⟨8, by decide⟩ ⟨9, by decide⟩ (by decide +kernel) (by decide +kernel)
    (by decide +kernel) (by decide +kernel)
  revert same
  decide

end Ferrugem.DirectoryNames
