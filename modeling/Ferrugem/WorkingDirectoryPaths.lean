import Ferrugem.DirectoryParents
import Ferrugem.PathComposition
import Ferrugem.SyscallStores

/-!
# The path of the working directory

`inode_path` climbs from an inode towards the root and writes the names it
passed, topmost first; `sys_getcwd` reports an error if they fill the buffer.
The climb ends after 16 inodes without a sign of it, so that the path of a
directory that lies deeper starts with the name of one of its ancestors. The
other way to report a path that leads elsewhere is a name that no component of
a path finds.
-/

namespace Ferrugem.WorkingDirectoryPaths

open Ferrugem.ProcessModel Ferrugem.SchedulerModel Ferrugem.RamFsModel
open Ferrugem.DirectoryParents Ferrugem.PathResolution Ferrugem.SyscallStores

set_option autoImplicit false

def reportedPath (outcome : Outcome) : Option Bytes :=
  match outcome.result with
  | some (.value _) => outcome.stores.head?.map Store.bytes
  | _ => none

/-- Whatever buffer is given, a path that is reported is absolute and leads
back to the working directory from everywhere. -/
def RoundTrips (state : SyscallState) : Prop :=
  ∀ buf size path, reportedPath (sysGetcwd state buf size) = some path →
    path.head? = some slash ∧ ∀ cwd, state.fs.resolve path cwd = some state.cwd

/-- Looked up in its parent, the name of the inode finds the inode. -/
structure Findable (fs : RamFs) (idx : InodeIndex) : Prop where
  component : (fs.inodes idx).name ≠ [] ∧ (fs.inodes idx).name ≠ dot ∧
    (fs.inodes idx).name ≠ dotDot
  found : fs.lookupIn (fs.inodes idx).parent (fs.inodes idx).name = some idx

/-- So many levels below the root, by names that are found. -/
inductive LiesBelow (fs : RamFs) : Nat → InodeIndex → Prop where
  | root : LiesBelow fs 0 rootInode
  | entry {depth : Nat} {idx : InodeIndex} (findable : Findable fs idx)
      (above : LiesBelow fs depth (fs.inodes idx).parent) : LiesBelow fs (depth + 1) idx

def maxDepth : Nat := 16

structure PlainNames (fs : RamFs) : Prop where
  root : (fs.inodes rootInode).parent = rootInode
  plain : ∀ idx, idx ≠ rootInode → ∀ byte ∈ (fs.inodes idx).name, byte ≠ slash

section

variable {fs after : RamFs}

theorem plain_same (names : PlainNames fs)
    (parent : ∀ i, (after.inodes i).parent = (fs.inodes i).parent)
    (name : ∀ i, (after.inodes i).name = (fs.inodes i).name) : PlainNames after := by
  constructor
  · rw [parent]
    exact names.root
  · intro idx notRoot
    rw [name]
    exact names.plain idx notRoot

theorem plain_modify {idx : InodeIndex} {change : Inode → Inode} (names : PlainNames fs)
    (same : ∀ inode, (change inode).parent = inode.parent ∧ (change inode).name = inode.name) :
    PlainNames (fs.modify idx change) := by
  have each : ∀ i, ((fs.modify idx change).inodes i).parent = (fs.inodes i).parent ∧
      ((fs.modify idx change).inodes i).name = (fs.inodes i).name := by
    intro i
    unfold RamFs.modify
    by_cases here : i = idx
    · rw [here, set_inode_same]
      exact same _
    · rw [set_inode_other fs _ here]
      exact ⟨rfl, rfl⟩
  exact plain_same names (fun i => (each i).1) fun i => (each i).2

theorem plain_release {idx : InodeIndex} (names : PlainNames fs) : PlainNames (fs.release idx) := by
  unfold RamFs.release
  apply plain_modify names
  exact fun _ => ⟨rfl, rfl⟩

theorem plain_set {idx : InodeIndex} {inode : Inode} (names : PlainNames fs)
    (notRoot : idx ≠ rootInode) (plain : ∀ byte ∈ inode.name, byte ≠ slash) :
    PlainNames (fs.setInode idx inode) := by
  constructor
  · rw [set_inode_other fs _ notRoot.symm]
    exact names.root
  · intro other otherRoot
    by_cases here : other = idx
    · subst here
      rw [set_inode_same]
      exact plain
    · rw [set_inode_other fs _ here]
      exact names.plain other otherRoot

theorem stored_name_plain {path : Bytes} :
    ∀ byte ∈ (splitParent path).2.take maxName, byte ≠ slash := by
  intro byte member
  rw [split_parent_name] at member
  exact last_name_no_slash (List.mem_of_mem_take member)

theorem plain_apply {operation : Operation} (names : PlainNames fs) :
    PlainNames (fs.apply operation).1 := by
  have shape := apply_effect fs operation
  generalize fs.apply operation = result at shape ⊢
  cases shape with
  | keeps => exact names
  | makes _ _ _ _ vacant => exact plain_set names (alloc_unused vacant).2 stored_name_plain
  | creates _ _ _ _ vacant => exact plain_set names (alloc_unused vacant).2 stored_name_plain
  | overwrites =>
      dsimp only
      apply plain_modify names
      exact fun _ => ⟨rfl, rfl⟩
  | removesDir => exact plain_release names
  | removesFile => exact plain_release names
  | moves _ notRoot => exact plain_set names notRoot stored_name_plain
  | replaces _ notRoot =>
      exact plain_set (plain_release names) notRoot stored_name_plain
  | changesMode =>
      dsimp only
      apply plain_modify names
      exact fun _ => ⟨rfl, rfl⟩
  | changesOwner =>
      dsimp only
      apply plain_modify names
      exact fun _ => ⟨rfl, rfl⟩
  | patches =>
      dsimp only
      apply plain_modify names
      exact fun _ => ⟨rfl, rfl⟩

end

theorem plain_init (hello : Bytes) : PlainNames (RamFs.init hello) := by
  refine @plain_apply _ (.write RamFs.helloPath rootInode hello 0 0) ?_
  constructor
  · decide +kernel
  · decide +kernel

theorem plain_run (hello : Bytes) (operations : List Operation) :
    PlainNames ((fsSystem hello).runFrom (fsSystem hello).init operations) :=
  EventSystem.run_keeps PlainNames (fun _ _ names => plain_apply names) operations
    (plain_init hello)

section

variable {fs : RamFs} {len : Nat}

def spelled (fs : RamFs) (stack : List InodeIndex) : Bytes :=
  stack.foldr (fun idx path => path ++ slash :: (fs.inodes idx).name) []

theorem spelled_cons (idx : InodeIndex) (stack : List InodeIndex) :
    spelled fs (idx :: stack) = spelled fs stack ++ slash :: (fs.inodes idx).name := rfl

theorem inode_path_eq {idx : InodeIndex} (notRoot : idx ≠ rootInode) :
    inodePath fs idx len =
      ((pathStack fs maxDepth idx).foldr (fun part written => appendPart fs len written part) [],
        ((pathStack fs maxDepth idx).foldr
          (fun part written => appendPart fs len written part) []).length) := by
  unfold inodePath
  rw [if_neg notRoot, List.foldl_reverse]
  rfl

theorem append_part_below {written : Bytes} {idx : InodeIndex}
    (below : (appendPart fs len written idx).length < len) :
    written.length < len ∧ appendPart fs len written idx =
      written ++ slash :: (fs.inodes idx).name := by
  unfold appendPart at below ⊢
  dsimp only at below ⊢
  by_cases room : written.length < len
  · rw [if_pos room, List.length_append, List.length_take, List.length_append,
      List.length_singleton] at below
    rw [if_pos room, List.length_append, List.length_singleton,
      List.take_of_length_le (by omega), List.append_assoc, List.singleton_append]
    exact ⟨room, rfl⟩
  · rw [if_neg room, List.length_append] at below
    omega

theorem append_part_fits {written : Bytes} {idx : InodeIndex}
    (fits : (written ++ slash :: (fs.inodes idx).name).length ≤ len) :
    appendPart fs len written idx = written ++ slash :: (fs.inodes idx).name := by
  rw [List.length_append, List.length_cons] at fits
  unfold appendPart
  dsimp only
  rw [if_pos (by omega), List.length_append, List.length_singleton,
    List.take_of_length_le (by omega), List.append_assoc, List.singleton_append]

theorem written_below {stack : List InodeIndex}
    (below : (stack.foldr (fun part written => appendPart fs len written part) []).length < len) :
    stack.foldr (fun part written => appendPart fs len written part) [] = spelled fs stack := by
  induction stack with
  | nil => rfl
  | cons idx stack ih =>
      obtain ⟨earlier, whole⟩ := append_part_below below
      rw [List.foldr_cons, whole, ih earlier, spelled_cons]

theorem written_fits {stack : List InodeIndex} (fits : (spelled fs stack).length ≤ len) :
    stack.foldr (fun part written => appendPart fs len written part) [] = spelled fs stack := by
  induction stack with
  | nil => rfl
  | cons idx stack ih =>
      have earlier : (spelled fs stack).length ≤ len := by
        rw [spelled_cons, List.length_append] at fits
        omega
      rw [List.foldr_cons, ih earlier, spelled_cons]
      exact append_part_fits fits

end

section

variable {state : SyscallState} {buf : Address} {size : Nat}

/-- What is reported fills less than the buffer, so that nothing of the path
was cut off. -/
theorem reported_path {path : Bytes}
    (reports : reportedPath (sysGetcwd state buf size) = some path) :
    path = if state.cwd = rootInode then [slash]
      else spelled state.fs (pathStack state.fs maxDepth state.cwd) := by
  unfold sysGetcwd at reports
  split_ifs at reports with null
  · cases reports
  · dsimp only at reports
    split_ifs at reports with short
    · cases reports
    · obtain rfl : (inodePath state.fs state.cwd size).1 = path := Option.some.inj reports
      simp only [not_or, Nat.not_le] at short
      split_ifs with isRoot
      · unfold inodePath
        rw [if_pos isRoot]
        exact List.take_of_length_le (by simp only [List.length_singleton]; omega)
      · rw [inode_path_eq isRoot] at short ⊢
        exact written_below short.2

theorem spelled_reported (notRoot : state.cwd ≠ rootInode)
    (named : spelled state.fs (pathStack state.fs maxDepth state.cwd) ≠ [])
    (room : (spelled state.fs (pathStack state.fs maxDepth state.cwd)).length < size) :
    reportedPath (sysGetcwd state 1 size) =
      some (spelled state.fs (pathStack state.fs maxDepth state.cwd)) := by
  have whole : inodePath state.fs state.cwd size =
      (spelled state.fs (pathStack state.fs maxDepth state.cwd),
        (spelled state.fs (pathStack state.fs maxDepth state.cwd)).length) := by
    rw [inode_path_eq notRoot, written_fits room.le]
  unfold sysGetcwd
  rw [if_neg (by simp; omega), whole]
  dsimp only
  rw [if_neg]
  · rfl
  · rw [List.length_eq_zero_iff]
    simp [named, room]

end

section

variable {fs : RamFs}

theorem findable_not_root (names : PlainNames fs) {idx : InodeIndex} (findable : Findable fs idx) :
    idx ≠ rootInode := by
  rintro rfl
  rcases lookup_in_cases findable.found with ⟨isDot, _⟩ | ⟨isDotDot, _⟩ | ⟨_, _, _, _, apart, _⟩
  · exact findable.component.2.1 isDot
  · exact findable.component.2.2 isDotDot
  · exact apart names.root.symm

theorem findable_entry {idx : InodeIndex} (findable : Findable fs idx) :
    (fs.inodes idx).used = true ∧ (fs.inodes idx).parent ≠ idx := by
  rcases lookup_in_cases findable.found with ⟨isDot, _⟩ | ⟨isDotDot, _⟩ |
    ⟨_, _, isUsed, _, apart, _⟩
  · exact absurd isDot findable.component.2.1
  · exact absurd isDotDot findable.component.2.2
  · exact ⟨isUsed, apart.symm⟩

theorem walk_lies_below (names : PlainNames fs) {start reached : InodeIndex} {parts : List Bytes}
    (lies : ∃ depth, LiesBelow fs depth start) (walks : fs.walk start parts = some reached) :
    ∃ depth, LiesBelow fs depth reached := by
  induction parts generalizing start with
  | nil =>
      cases walks
      exact lies
  | cons part rest ih =>
      simp only [RamFs.walk] at walks
      split_ifs at walks with skipped
      · exact ih lies walks
      · obtain ⟨next, lookup, later⟩ := Option.bind_eq_some_iff.mp walks
        refine ih ?_ later
        obtain ⟨depth, lies⟩ := lies
        rcases lookup_in_cases lookup with ⟨isDot, _⟩ | ⟨_, rfl⟩ |
          ⟨notDot, notDotDot, _, below, _, named⟩
        · exact absurd (.inr isDot) skipped
        · cases lies with
          | root =>
              rw [names.root]
              exact ⟨0, .root⟩
          | entry _ above => exact ⟨_, above⟩
        · refine ⟨depth + 1, .entry ⟨?_, ?_⟩ ?_⟩
          · rw [named]
            exact ⟨fun blank => skipped (.inl blank), notDot, notDotDot⟩
          · rw [below, named]
            exact lookup
          · rw [below]
            exact lies

theorem path_stack_root (room : Nat) : pathStack fs room rootInode = [] := by
  cases room with
  | zero => rfl
  | succ room => exact if_pos rfl

theorem path_stack_entry {idx : InodeIndex} {room : Nat} (notRoot : idx ≠ rootInode)
    (isUsed : (fs.inodes idx).used = true) (notOwn : (fs.inodes idx).parent ≠ idx) :
    pathStack fs (room + 1) idx = idx :: pathStack fs room (fs.inodes idx).parent := by
  rw [pathStack, if_neg notRoot, isUsed, if_neg (by decide), if_neg notOwn]

theorem walk_spelled (names : PlainNames fs) {idx : InodeIndex} (notRoot : idx ≠ rootInode)
    (stack : List InodeIndex) :
    fs.walk rootInode ((spelled fs (idx :: stack)).splitOn slash) =
      (fs.walk rootInode ((spelled fs stack).splitOn slash)).bind
        fun parent => fs.walk parent [(fs.inodes idx).name] := by
  rw [spelled_cons, split_append_slash, walk_append, split_no_slash (names.plain idx notRoot)]

theorem walk_component {parent idx : InodeIndex} (findable : Findable fs idx) :
    fs.walk parent [(fs.inodes idx).name] = fs.lookupIn parent (fs.inodes idx).name :=
  walk_single fs findable.component.1 findable.component.2.1

theorem shallow_walks (names : PlainNames fs) {depth room : Nat} {idx : InodeIndex}
    (lies : LiesBelow fs depth idx) (shallow : depth ≤ room) :
    fs.walk rootInode ((spelled fs (pathStack fs room idx)).splitOn slash) = some idx := by
  induction lies generalizing room with
  | root =>
      rw [path_stack_root]
      rfl
  | @entry depth idx findable _ ih =>
      obtain ⟨less, rfl⟩ : ∃ less, room = less + 1 := ⟨room - 1, by omega⟩
      have notRoot := findable_not_root names findable
      obtain ⟨isUsed, notOwn⟩ := findable_entry findable
      rw [path_stack_entry notRoot isUsed notOwn, walk_spelled names notRoot,
        ih (Nat.le_of_succ_le_succ shallow), Option.bind_some, walk_component findable]
      exact findable.found

theorem walks_shallow (names : PlainNames fs) {depth room : Nat} {idx : InodeIndex}
    (lies : LiesBelow fs depth idx)
    (walks : fs.walk rootInode ((spelled fs (pathStack fs room idx)).splitOn slash) = some idx) :
    depth ≤ room := by
  induction lies generalizing room with
  | root => exact Nat.zero_le room
  | @entry depth idx findable _ ih =>
      have notRoot := findable_not_root names findable
      obtain ⟨isUsed, notOwn⟩ := findable_entry findable
      cases room with
      | zero =>
          have start : some rootInode = some idx := walks
          exact absurd (Option.some.inj start).symm notRoot
      | succ room =>
          rw [path_stack_entry notRoot isUsed notOwn, walk_spelled names notRoot] at walks
          obtain ⟨parent, above, last⟩ := Option.bind_eq_some_iff.mp walks
          rw [walk_component findable] at last
          have below : (fs.inodes idx).parent = parent := by
            rcases lookup_in_cases last with ⟨isDot, _⟩ | ⟨isDotDot, _⟩ | ⟨_, _, _, below, _⟩
            · exact absurd isDot findable.component.2.1
            · exact absurd isDotDot findable.component.2.2
            · exact below
          rw [below] at above
          exact Nat.succ_le_succ (ih (by rw [below]; exact above))

theorem spelled_absolute (idx : InodeIndex) (stack : List InodeIndex) :
    (spelled fs (idx :: stack)).head? = some slash := by
  induction stack generalizing idx with
  | nil => rfl
  | cons above stack ih =>
      rw [spelled_cons, List.head?_append, ih above]
      rfl

theorem resolve_absolute {path : Bytes} (absolute : path.head? = some slash) (cwd : InodeIndex) :
    fs.resolve path cwd = fs.walk rootInode (path.splitOn slash) := by
  rw [resolve_eq_walk, RamFs.walkStart, if_pos absolute]

end

theorem path_absolute {fs : RamFs} {idx : InodeIndex} (notRoot : idx ≠ rootInode)
    (isUsed : (fs.inodes idx).used = true) :
    (spelled fs (pathStack fs maxDepth idx)).head? = some slash := by
  unfold maxDepth
  rw [pathStack, if_neg notRoot, isUsed, if_neg (by decide)]
  split_ifs
  · exact spelled_absolute idx _
  · exact spelled_absolute idx _

theorem round_trips_iff {state : SyscallState} (names : PlainNames state.fs)
    (isUsed : (state.fs.inodes state.cwd).used = true) :
    RoundTrips state ↔ ∃ depth, depth ≤ maxDepth ∧ LiesBelow state.fs depth state.cwd := by
  constructor
  · intro trips
    by_cases isRoot : state.cwd = rootInode
    · rw [isRoot]
      exact ⟨0, Nat.zero_le _, .root⟩
    · have absolute := path_absolute isRoot isUsed
      have named : spelled state.fs (pathStack state.fs maxDepth state.cwd) ≠ [] := by
        intro nothing
        rw [nothing] at absolute
        cases absolute
      have leads := (trips _ _ _ (spelled_reported isRoot named (Nat.lt_succ_self _))).2 rootInode
      rw [resolve_absolute absolute] at leads
      obtain ⟨depth, lies⟩ := walk_lies_below names ⟨0, .root⟩ leads
      exact ⟨depth, walks_shallow names lies leads, lies⟩
  · rintro ⟨depth, shallow, lies⟩ buf size path reports
    rw [reported_path reports]
    split_ifs with isRoot
    · rw [isRoot]
      exact ⟨rfl, fun _ => rfl⟩
    · have absolute := path_absolute isRoot isUsed
      refine ⟨absolute, fun cwd => ?_⟩
      rw [resolve_absolute absolute]
      exact shallow_walks names lies shallow

/-- In every filesystem that calls lead to from `fs::init`, the paths that are
reported for a directory lead back to it, whatever the buffer, if and only if it
lies at most 16 levels below the root by names that are found. -/
theorem getcwd_round_trips_iff (hello : Bytes) (operations : List Operation)
    {state : SyscallState}
    (reached : state.fs = (fsSystem hello).runFrom (fsSystem hello).init operations)
    (isDir : isDirectory state.fs state.cwd = true) :
    RoundTrips state ↔ ∃ depth, depth ≤ maxDepth ∧ LiesBelow state.fs depth state.cwd := by
  apply round_trips_iff
  · rw [reached]
    exact plain_run hello operations
  · exact (is_directory_iff.mp isDir).1

def standingIn (fs : RamFs) (dir : InodeIndex) : SyscallState where
  kernel :=
    { boot.setTask firstSlot { Task.newUser 1 0x200000 0x300000 0 with cwd := dir.val } with
      current := firstSlot }
  fs := fs
  memory := fun _ => 0
  serialByte := none
  keyByte := none
  hasInput := false
  entropy := fun _ => 0
  versionFull := []
  elsewhere := fun _ _ => none
  located := by
    intro task present
    cases present
    exact dir.isLt

theorem standing_cwd (fs : RamFs) (dir : InodeIndex) : (standingIn fs dir).cwd = dir := rfl

theorem standing_fs (fs : RamFs) (dir : InodeIndex) : (standingIn fs dir).fs = fs := rfl

/-- `/a`, `/a/a` and so on. -/
def chainPath (depth : Nat) : Bytes := (List.replicate depth (ascii ['/', 'a'])).flatten

def nested (depth : Nat) : List Operation :=
  (List.range depth).map fun k => .mkdir (chainPath (k + 1)) rootInode 0 0 0o755

def nestedFs (depth : Nat) : RamFs := (fsSystem []).runFrom (fsSystem []).init (nested depth)

/-- `/a/a` lies two levels below the root. -/
theorem nested_round_trips : RoundTrips (standingIn (nestedFs 2) ⟨9, by decide⟩) := by
  apply (getcwd_round_trips_iff [] (nested 2) rfl (by decide +kernel)).mpr
  have upper : LiesBelow (nestedFs 2) 1 ⟨8, by decide⟩ := by
    refine .entry ⟨by decide +kernel, by decide +kernel⟩ ?_
    have parent : ((nestedFs 2).inodes ⟨8, by decide⟩).parent = rootInode := by decide +kernel
    rw [parent]
    exact .root
  refine ⟨2, by decide, .entry ⟨by decide +kernel, by decide +kernel⟩ ?_⟩
  have parent : ((nestedFs 2).inodes ⟨9, by decide⟩).parent = ⟨8, by decide⟩ := by decide +kernel
  rw [standing_fs, standing_cwd, parent]
  exact upper

/-- From the seventeenth level on the path is that of another directory. -/
theorem deep_directory_reported_above :
    ¬∀ (hello : Bytes) (operations : List Operation) (state : SyscallState),
      state.fs = (fsSystem hello).runFrom (fsSystem hello).init operations →
        isDirectory state.fs state.cwd = true → RoundTrips state := by
  intro holds
  have trips := holds [] (nested 17) (standingIn (nestedFs 17) ⟨24, by decide⟩)
    (standing_fs _ _) (by decide +kernel)
  have reports : reportedPath (sysGetcwd (standingIn (nestedFs 17) ⟨24, by decide⟩) 1 64) =
      some (chainPath 16) := by
    decide +kernel
  have leads := (trips 1 64 _ reports).2 rootInode
  have above : (nestedFs 17).resolve (chainPath 16) rootInode = some ⟨23, by decide⟩ := by
    decide +kernel
  rw [standing_fs, standing_cwd, above] at leads
  revert leads
  decide

end Ferrugem.WorkingDirectoryPaths
