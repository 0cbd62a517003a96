import Ferrugem.DirectoryParents
import Ferrugem.InodeWrites
import Ferrugem.Truncation

/-!
# Appending in the kernel's shell

`do_append` of `kernel/src/shell/mod.rs` reads the file into a buffer, adds the text
and a newline, and writes the buffer back as the whole file. The buffer takes 4090
bytes before the newline, and a file that may be written but not read counts as
empty.
-/

namespace Ferrugem.ShellAppend

open Ferrugem.RamFsModel Ferrugem.DirectoryParents Ferrugem.InodeWrites Ferrugem.Truncation

set_option autoImplicit false

def newline : UInt8 := 0x0A

/-- What of `ABUF` may be filled before the newline. -/
def bufferLimit : Nat := 4090

/-- `ABUF[..len]`. -/
def appendBuffer (existing text : Bytes) : Bytes :=
  existing.take bufferLimit ++ text.take (bufferLimit - (existing.take bufferLimit).length) ++
    [newline]

/-- `do_append`; the boolean is whether it could write. -/
def doAppend (fs : RamFs) (path text : Bytes) (cwd : InodeIndex) (uid gid : BitVec 16) :
    RamFs × Bool :=
  fs.write path cwd (appendBuffer ((fs.readAt path cwd uid gid).getD []) text) uid gid

def fileContent (fs : RamFs) (idx : InodeIndex) : Option Bytes :=
  if (fs.inodes idx).used && (fs.inodes idx).kind == .file then some (contentOf fs idx) else none

/-- Every file is as it was, or is the one at the path, which has the text and a
newline behind its old content. A new file has no old content. -/
def LosesNothing (before after : RamFs) (path text : Bytes) (cwd : InodeIndex) : Prop :=
  ∀ idx, fileContent after idx = fileContent before idx ∨
    (before.resolve path cwd = some idx ∨ fileContent before idx = none) ∧
      fileContent after idx = some ((fileContent before idx).getD [] ++ text ++ [newline])

/-- The buffer is the old content, or that with the text and the newline. -/
def BufferKeeps (old text : Bytes) (readable : Bool) : Prop :=
  if readable then
    old.length + text.length ≤ bufferLimit ∨
      old.length = bufferLimit + 1 ∧ old.getLast? = some newline
  else old = [] ∧ text.length ≤ bufferLimit ∨ old = text.take bufferLimit ++ [newline]

/-- For a file that may be written and for one that is created. -/
structure AppendFits (fs : RamFs) (path text : Bytes) (cwd : InodeIndex) (uid gid : BitVec 16) :
    Prop where
  existing : ∀ idx ∈ fs.resolve path cwd, ∀ old ∈ fileContent fs idx,
    fs.perm idx uid gid 2#16 = true → BufferKeeps old text (fs.perm idx uid gid 4#16)
  created : (createsAt fs path cwd uid gid).isSome = true → text.length ≤ bufferLimit

section

variable {old text : Bytes}

theorem append_buffer_length (old text : Bytes) :
    (appendBuffer old text).length =
      min bufferLimit old.length +
        min (bufferLimit - min bufferLimit old.length) text.length + 1 := by
  unfold appendBuffer
  simp only [List.length_append, List.length_take, List.length_singleton]

theorem append_buffer_small (old text : Bytes) : (appendBuffer old text).length ≤ maxData := by
  rw [append_buffer_length]
  unfold bufferLimit maxData
  omega

theorem buffer_appends_iff :
    appendBuffer old text = old ++ text ++ [newline] ↔ old.length + text.length ≤ bufferLimit := by
  constructor
  · intro same
    have lengths := congrArg List.length same
    rw [append_buffer_length] at lengths
    simp only [List.length_append, List.length_singleton] at lengths
    omega
  · intro fits
    unfold appendBuffer
    rw [List.take_of_length_le (by omega : old.length ≤ bufferLimit),
      List.take_of_length_le (by omega : text.length ≤ bufferLimit - old.length)]

theorem buffer_unchanged_iff :
    appendBuffer old text = old ↔
      old.length = bufferLimit + 1 ∧ old.getLast? = some newline := by
  constructor
  · intro same
    have lengths := congrArg List.length same
    rw [append_buffer_length] at lengths
    refine ⟨by omega, ?_⟩
    rw [← same]
    exact List.getLast?_concat
  · rintro ⟨full, last⟩
    have filled : (old.take bufferLimit).length = bufferLimit := by
      rw [List.length_take]
      omega
    unfold appendBuffer
    rw [filled, Nat.sub_self, List.take_zero, List.append_nil]
    have split := List.dropLast_append_getLast? newline last
    rw [List.dropLast_eq_take, full] at split
    exact split

theorem buffer_unread_iff :
    appendBuffer [] text = old ++ text ++ [newline] ↔ old = [] ∧ text.length ≤ bufferLimit := by
  constructor
  · intro same
    have lengths := congrArg List.length same
    rw [append_buffer_length] at lengths
    simp only [List.length_append, List.length_singleton, List.length_nil] at lengths
    refine ⟨List.eq_nil_of_length_eq_zero (by omega), by omega⟩
  · rintro ⟨rfl, short⟩
    exact buffer_appends_iff.mpr (by simpa using short)

theorem buffer_keeps_iff (readable : Bool) :
    (appendBuffer (if readable then old else []) text = old ∨
        appendBuffer (if readable then old else []) text = old ++ text ++ [newline]) ↔
      BufferKeeps old text readable := by
  unfold BufferKeeps
  cases readable with
  | true =>
      simp only [if_true]
      rw [buffer_unchanged_iff, buffer_appends_iff, or_comm]
  | false =>
      simp only [Bool.false_eq_true, if_false]
      rw [buffer_unread_iff, or_comm, eq_comm (a := appendBuffer [] text)]
      rfl

end

section

variable {fs : RamFs} {path text : Bytes} {cwd idx : InodeIndex} {uid gid : BitVec 16}

theorem content_set {inode : Inode} {content : Bytes} (small : content.length ≤ maxData) :
    contentOf (fs.setInode idx (inode.setContent content)) idx = content := by
  unfold contentOf
  rw [set_inode_same]
  unfold Inode.setContent
  dsimp only
  rw [min_eq_left small]
  refine Eq.trans (List.map_congr_left ?_) ((range_get_take le_rfl).trans List.take_length)
  intro i inside
  rw [if_pos (List.mem_range.mp inside)]

theorem file_content_set {inode : Inode} {content : Bytes} (small : content.length ≤ maxData) :
    fileContent (fs.setInode idx (inode.setContent content)) idx =
      if inode.used && inode.kind == .file then some content else none := by
  unfold fileContent
  rw [content_set small, set_inode_same]
  rfl

theorem file_content_other {other : InodeIndex} (inode : Inode) (different : other ≠ idx) :
    fileContent (fs.setInode idx inode) other = fileContent fs other := by
  unfold fileContent contentOf
  rw [set_inode_other fs inode different]

theorem loses_nothing_set_iff (inode : Inode) :
    LosesNothing fs (fs.setInode idx inode) path text cwd ↔
      fileContent (fs.setInode idx inode) idx = fileContent fs idx ∨
        (fs.resolve path cwd = some idx ∨ fileContent fs idx = none) ∧
          fileContent (fs.setInode idx inode) idx =
            some ((fileContent fs idx).getD [] ++ text ++ [newline]) := by
  constructor
  · exact fun keeps => keeps idx
  · intro keeps other
    by_cases here : other = idx
    · rw [here]
      exact keeps
    · exact .inl (file_content_other inode here)

theorem loses_nothing_refl : LosesNothing fs fs path text cwd := fun _ => .inl rfl

theorem read_at_found (found : fs.resolve path cwd = some idx)
    (isFile : (fs.inodes idx).kind ≠ .dir) :
    (fs.readAt path cwd uid gid).getD [] =
      if fs.perm idx uid gid 4#16 then contentOf fs idx else [] := by
  unfold RamFs.readAt
  rw [found, Option.bind_some, if_neg isFile]
  cases fs.perm idx uid gid 4#16 <;> rfl

theorem write_refused {content : Bytes} (found : fs.resolve path cwd = some idx)
    (refused : (fs.inodes idx).kind = .dir ∨ fs.perm idx uid gid 2#16 = false) :
    (fs.write path cwd content uid gid).1 = fs := by
  unfold RamFs.write
  rw [found]
  dsimp only
  split_ifs with isDir denied
  · rfl
  · rfl
  · rcases refused with dir | readOnly
    · exact absurd dir isDir
    · simp [readOnly] at denied

theorem write_found {content : Bytes} (found : fs.resolve path cwd = some idx)
    (isFile : (fs.inodes idx).kind ≠ .dir) (writable : fs.perm idx uid gid 2#16 = true) :
    (fs.write path cwd content uid gid).1 =
      fs.setInode idx ((fs.inodes idx).setContent content) := by
  unfold RamFs.write
  rw [found]
  dsimp only
  rw [if_neg isFile, writable]
  rfl

theorem append_found_iff (found : fs.resolve path cwd = some idx) :
    LosesNothing fs (doAppend fs path text cwd uid gid).1 path text cwd ↔
      ∀ old, fileContent fs idx = some old → fs.perm idx uid gid 2#16 = true →
        BufferKeeps old text (fs.perm idx uid gid 4#16) := by
  unfold doAppend
  by_cases refused : (fs.inodes idx).kind = .dir ∨ fs.perm idx uid gid 2#16 = false
  · rw [write_refused found refused]
    refine iff_of_true loses_nothing_refl ?_
    intro old present writable
    rcases refused with dir | readOnly
    · simp [fileContent, dir] at present
    · rw [readOnly] at writable
      cases writable
  · obtain ⟨isFile, writable⟩ := not_or.mp refused
    rw [Bool.not_eq_false] at writable
    rw [write_found found isFile writable, read_at_found found isFile, loses_nothing_set_iff,
      file_content_set (append_buffer_small _ _)]
    by_cases isUsed : ((fs.inodes idx).used && (fs.inodes idx).kind == .file) = true
    · have content : fileContent fs idx = some (contentOf fs idx) := if_pos isUsed
      rw [content, if_pos isUsed, and_iff_right (.inl found)]
      simp only [Option.some.injEq, Option.getD_some, forall_eq', writable, forall_const]
      exact buffer_keeps_iff _
    · have content : fileContent fs idx = none := if_neg isUsed
      rw [content, if_neg isUsed]
      exact iff_of_true (.inl rfl) nofun

theorem new_file_used (parent : InodeIndex) (uid gid : BitVec 16) (name : Bytes) :
    ((RamFs.newInode .file parent uid gid 0o644#16 name).used &&
      (RamFs.newInode .file parent uid gid 0o644#16 name).kind == .file) = true := rfl

theorem write_unchanged {content : Bytes} (absent : fs.resolve path cwd = none)
    (creates : createsAt fs path cwd uid gid = none) :
    (fs.write path cwd content uid gid).1 = fs := by
  have effect := write_effect fs path cwd content uid gid
  generalize fs.write path cwd content uid gid = result at effect
  cases effect with
  | keeps => rfl
  | creates source missing resolved allowed vacant =>
      rcases source with ⟨other, _⟩ | same
      · cases other
      · cases same
        rw [creates_at_of_vacant missing resolved allowed vacant] at creates
        cases creates
  | overwrites resolved =>
      rw [resolved] at absent
      cases absent

theorem append_absent_iff (absent : fs.resolve path cwd = none) :
    LosesNothing fs (doAppend fs path text cwd uid gid).1 path text cwd ↔
      ((createsAt fs path cwd uid gid).isSome = true → text.length ≤ bufferLimit) := by
  have unread : (fs.readAt path cwd uid gid).getD [] = [] := by
    unfold RamFs.readAt
    rw [absent]
    rfl
  unfold doAppend
  rw [unread]
  cases creates : createsAt fs path cwd uid gid with
  | none =>
      refine iff_of_true ?_ nofun
      have unchanged : (fs.write path cwd (appendBuffer [] text) uid gid).1 = fs :=
        write_unchanged absent creates
      rw [unchanged]
      exact loses_nothing_refl
  | some parent =>
      have source : ∀ content, Operation.write path cwd content uid gid = .touch path cwd uid gid ∧
          content = [] ∨
            Operation.write path cwd content uid gid = .write path cwd content uid gid :=
        fun _ => .inr rfl
      obtain ⟨idx, vacant, made⟩ := creating_apply (source (appendBuffer [] text)) creates
      have unused : fileContent fs idx = none := by
        unfold fileContent
        rw [(alloc_unused vacant).1]
        rfl
      have created : (fs.write path cwd (appendBuffer [] text) uid gid).1 = _ := made
      rw [created, loses_nothing_set_iff, file_content_set (append_buffer_small _ _), unused,
        if_pos (new_file_used parent uid gid _)]
      simp only [reduceCtorEq, or_true, true_and, false_or, Option.getD_none, Option.some.injEq,
        Option.isSome_some, forall_const]
      rw [buffer_unread_iff, and_iff_right rfl]

end

/-- For every state, path, text and caller. -/
theorem append_loses_nothing_iff (fs : RamFs) (path text : Bytes) (cwd : InodeIndex)
    (uid gid : BitVec 16) :
    LosesNothing fs (doAppend fs path text cwd uid gid).1 path text cwd ↔
      AppendFits fs path text cwd uid gid := by
  cases found : fs.resolve path cwd with
  | none =>
      rw [append_absent_iff found]
      constructor
      · intro created
        refine ⟨?_, created⟩
        rw [found]
        exact nofun
      · exact AppendFits.created
  | some idx =>
      rw [append_found_iff found]
      constructor
      · intro existing
        refine ⟨?_, ?_⟩
        · intro other named
          obtain rfl := Option.mem_unique found named
          exact existing
        · unfold createsAt
          rw [found, if_pos Option.isSome_some]
          exact nofun
      · exact fun fits => fits.existing idx found

/-- `/etc/motd`, made writable but not readable, loses its text to the new line. -/
theorem motd_lost :
    let fs := ((RamFs.init []).chmod motdPath rootInode 0o222 0).1
    ¬LosesNothing fs (doAppend fs motdPath [0x61] rootInode 1000 1000).1 motdPath [0x61]
        rootInode ∧
      fileContent (doAppend fs motdPath [0x61] rootInode 1000 1000).1 motdInode =
        some [0x61, 0x0A] := by
  have lost : fileContent (doAppend ((RamFs.init []).chmod motdPath rootInode 0o222 0).1 motdPath
      [0x61] rootInode 1000 1000).1 motdInode = some [0x61, 0x0A] := by
    decide +kernel
  refine ⟨?_, lost⟩
  intro keeps
  have after := keeps motdInode
  rw [lost] at after
  revert after
  decide +kernel

end Ferrugem.ShellAppend
