import Ferrugem.PathResolution
import Ferrugem.PollEntries
import Mathlib.Data.List.GetD

/-!
# The records of `getdents64`

What one call of `sys_getdents64` leaves in the buffer of the caller decodes, along the
`d_reclen` of each record, into entries of the directory, and ends where the result
says.
-/

namespace Ferrugem.DirentRecords

open Ferrugem.ProcessModel Ferrugem.RamFsModel Ferrugem.DirectoryEnumeration
open Ferrugem.PathResolution
open Ferrugem.SyscallStores (Address UserMemory SyscallState getdents64)
open Ferrugem.DescriptorSyscalls (currentFdGet)
open Ferrugem.PollEntries (byteAt memoryAfter read_stored)

set_option autoImplicit false

/-- A `linux_dirent64` and where it was found. -/
structure Dirent where
  offset : Nat
  ino : Nat
  reclen : Nat
  dType : UInt8
  name : Bytes
  deriving DecidableEq

/-- The first record, if it is whole and its name ends in it. -/
def Dirent.decode (offset : Nat) (bytes : Bytes) : Option Dirent :=
  let reclen := field bytes 16 2
  let named := (bytes.take reclen).drop 19
  if reclen ≤ bytes.length ∧ 0 ∈ named then
    some
      { offset := offset
        ino := field bytes 0 8
        reclen := reclen
        dType := bytes.getD 18 0
        name := named.takeWhile (· != 0) }
  else none

/-- The records up to the end of the bytes, each behind the one before it. -/
def decodeDirents : Nat → Nat → Bytes → Option (List Dirent)
  | _, _, [] => some []
  | 0, _, _ :: _ => none
  | fuel + 1, offset, byte :: rest =>
      (Dirent.decode offset (byte :: rest)).bind fun entry =>
        (decodeDirents fuel (offset + entry.reclen) ((byte :: rest).drop entry.reclen)).map
          (entry :: ·)

/-- The entry is a child of the directory, with its own number, name and type. -/
structure Shows (fs : RamFs) (dir : Nat) (entry : Dirent) (child : InodeIndex) : Prop where
  isUsed : (fs.inodes child).used = true
  below : (fs.inodes child).parent.val = dir
  apart : child.val ≠ dir
  ino : entry.ino = child.val
  name : entry.name = (fs.inodes child).name
  dType : entry.dType = if (fs.inodes child).kind = .dir then 4 else 8

structure Listing (fs : RamFs) (dir : Nat) (entries : List Dirent) : Prop where
  aligned : ∀ entry ∈ entries, entry.offset % 8 = 0 ∧ entry.reclen % 8 = 0
  distinct : (entries.map Dirent.ino).Nodup
  children : ∀ entry ∈ entries, ∃ child, Shows fs dir entry child

def namingPaths : Operation → List Bytes
  | .mkdir path _ _ _ _ => [path]
  | .touch path _ _ _ => [path]
  | .write path _ _ _ _ => [path]
  | .rename _ dstPath _ _ _ => [dstPath]
  | _ => []

/-- As `read_path` gives it, and the line editor of the shell. -/
def PathsTerminated (operation : Operation) : Prop :=
  ∀ path ∈ namingPaths operation, 0 ∉ path

def NamesTerminated (fs : RamFs) : Prop :=
  ∀ idx, 0 ∉ (fs.inodes idx).name ∧ (fs.inodes idx).name.length ≤ maxName

section

variable {fs : RamFs}

theorem names_set {idx : InodeIndex} {inode : Inode} (names : NamesTerminated fs)
    (plain : 0 ∉ inode.name) (short : inode.name.length ≤ maxName) :
    NamesTerminated (fs.setInode idx inode) := by
  intro other
  by_cases here : other = idx
  · rw [here, set_inode_same]
    exact ⟨plain, short⟩
  · rw [set_inode_other fs inode here]
    exact names other

theorem names_kept {idx : InodeIndex} {inode : Inode} (names : NamesTerminated fs)
    (same : inode.name = (fs.inodes idx).name) : NamesTerminated (fs.setInode idx inode) := by
  apply names_set names
  · rw [same]
    exact (names idx).1
  · rw [same]
    exact (names idx).2

theorem last_name_plain {path : Bytes} (plain : 0 ∉ path) :
    0 ∉ (splitParent path).2.take maxName := by
  rw [split_parent_name]
  intro member
  have within : lastName path <:+: path :=
    (List.rtakeWhile_suffix _ _).isInfix.trans (List.rdropWhile_prefix _ _).isInfix
  exact plain (within.subset (List.mem_of_mem_take member))

theorem names_apply {operation : Operation} (names : NamesTerminated fs)
    (plain : PathsTerminated operation) : NamesTerminated (fs.apply operation).1 := by
  have shape := apply_effect fs operation
  generalize fs.apply operation = result at shape ⊢
  cases shape with
  | keeps => exact names
  | makes =>
      exact names_set names (last_name_plain (plain _ (List.mem_singleton_self _)))
        (List.length_take_le _ _)
  | creates source =>
      refine names_set names (last_name_plain (plain _ ?_)) (List.length_take_le _ _)
      rcases source with ⟨rfl, _⟩ | rfl
      · exact List.mem_singleton_self _
      · exact List.mem_singleton_self _
  | overwrites => exact names_kept names rfl
  | removesDir => exact names_kept names rfl
  | removesFile => exact names_kept names rfl
  | moves =>
      exact names_set names (last_name_plain (plain _ (List.mem_singleton_self _)))
        (List.length_take_le _ _)
  | replaces =>
      exact names_set (names_kept names rfl) (last_name_plain (plain _ (List.mem_singleton_self _)))
        (List.length_take_le _ _)
  | changesMode => exact names_kept names rfl
  | changesOwner => exact names_kept names rfl
  | patches => exact names_kept names rfl

theorem names_init (hello : Bytes) : NamesTerminated (RamFs.init hello) := by
  refine @names_apply _ (.write RamFs.helloPath rootInode hello 0 0) ?_ ?_
  · unfold NamesTerminated
    decide +kernel
  · intro path member
    rw [List.mem_singleton.mp member]
    decide

theorem names_run (hello : Bytes) {operations : List Operation}
    (plain : ∀ operation ∈ operations, PathsTerminated operation) :
    NamesTerminated ((fsSystem hello).runFrom (fsSystem hello).init operations) :=
  EventSystem.run_preserves NamesTerminated (fun _ _ names => names_apply names) (names_init hello)
    (EventSystem.steps_meet_of_forall _ _ plain)

theorem dirent_length_aligned (name : Bytes) : direntLength name % 8 = 0 := by
  unfold direntLength
  omega

theorem decode_dirent (offset dOff : Nat) {ino : Nat} {name : Bytes} (dType : UInt8) (rest : Bytes)
    (small : ino < 2 ^ 64) (short : name.length ≤ maxName) (plain : 0 ∉ name) :
    Dirent.decode offset (dirent64 ino dOff name dType ++ rest) =
      some
        { offset := offset
          ino := ino
          reclen := direntLength name
          dType := dType
          name := name } := by
  obtain ⟨number, length⟩ := read_dirent64 dOff dType rest small short
  have padded : 0 < direntLength name - 19 - name.length := by
    unfold direntLength
    omega
  have header : (leBytes 8 ino ++ leBytes 8 dOff ++ leBytes 2 (direntLength name)).length = 18 := by
    simp [length_le_bytes]
  have named : ((dirent64 ino dOff name dType ++ rest).take (direntLength name)).drop 19 =
      name ++ List.replicate (direntLength name - 19 - name.length) 0 := by
    rw [List.take_left' (length_dirent64 _ _ _ _), dirent64, List.append_assoc,
      List.drop_left' (by rw [List.length_append, header]; rfl)]
  have typed : (dirent64 ino dOff name dType ++ rest).getD 18 0 = dType := by
    rw [dirent64, List.append_assoc, List.append_assoc, List.append_assoc,
      List.getD_append_right _ _ _ _ header.le, header]
    rfl
  have ended : (name ++ List.replicate (direntLength name - 19 - name.length) 0).takeWhile
      (· != 0) = name := by
    obtain ⟨more, counted⟩ := Nat.exists_eq_add_of_lt padded
    rw [counted, Nat.zero_add, List.replicate_succ, List.takeWhile_append_of_pos,
      List.takeWhile_cons_of_neg (by decide), List.append_nil]
    intro byte member
    rw [bne_iff_ne]
    rintro rfl
    exact plain member
  unfold Dirent.decode field
  dsimp only
  rw [List.drop_zero, number, length, named, typed, ended]
  refine if_pos ⟨?_, ?_⟩
  · rw [List.length_append, length_dirent64]
    exact Nat.le_add_right _ _
  · exact List.mem_append_right _ (List.mem_replicate.mpr ⟨padded.ne', rfl⟩)

def entriesAt (fs : RamFs) : Nat → List InodeIndex → List Dirent
  | _, [] => []
  | offset, child :: rest =>
      { offset := offset
        ino := child.val
        reclen := recordLength fs child
        dType := direntType (fs.inodes child)
        name := (fs.inodes child).name } ::
        entriesAt fs (offset + recordLength fs child) rest

theorem length_records (pos : Nat) (children : List InodeIndex) :
    (records fs pos children).length = (children.map (recordLength fs)).sum := by
  induction children generalizing pos with
  | nil => rfl
  | cons child rest ih =>
      rw [records, List.length_append, length_dirent64, ih, List.map_cons, List.sum_cons]
      rfl

theorem decode_dirents_succ (fuel offset : Nat) {bytes : Bytes} (filled : bytes ≠ []) :
    decodeDirents (fuel + 1) offset bytes = (Dirent.decode offset bytes).bind fun entry =>
      (decodeDirents fuel (offset + entry.reclen) (bytes.drop entry.reclen)).map (entry :: ·) := by
  cases bytes with
  | nil => exact absurd rfl filled
  | cons byte rest => rfl

theorem decode_records (names : NamesTerminated fs) (children : List InodeIndex)
    (pos offset : Nat) {fuel : Nat} (enough : (records fs pos children).length ≤ fuel) :
    decodeDirents fuel offset (records fs pos children) = some (entriesAt fs offset children) := by
  induction children generalizing pos offset fuel with
  | nil =>
      rw [records, decodeDirents]
      rfl
  | cons child rest ih =>
      have filled := @records_nonempty fs pos (child :: rest) (List.cons_ne_nil child rest)
      have small : child.val < 2 ^ 64 := Nat.lt_trans child.isLt (by decide)
      have first := decode_dirent offset (pos + 1) (direntType (fs.inodes child))
        (records fs (pos + 1) rest) small (names child).2 (names child).1
      have behind : (dirent64 child.val (pos + 1) (fs.inodes child).name
          (direntType (fs.inodes child)) ++ records fs (pos + 1) rest).drop
            (direntLength (fs.inodes child).name) = records fs (pos + 1) rest :=
        List.drop_left' (length_dirent64 _ _ _ _)
      have length := length_dirent64 child.val (pos + 1) (fs.inodes child).name
        (direntType (fs.inodes child))
      have positive := dirent_length_pos (fs.inodes child).name
      rw [records] at enough filled ⊢
      rw [List.length_append, length] at enough
      cases fuel with
      | zero => omega
      | succ fuel =>
          rw [decode_dirents_succ fuel offset (List.ne_nil_of_length_pos filled), first,
            Option.bind_some, behind, ih (pos + 1) _ (by omega)]
          rfl

theorem entries_aligned (children : List InodeIndex) {offset : Nat} (aligned : offset % 8 = 0) :
    ∀ entry ∈ entriesAt fs offset children, entry.offset % 8 = 0 ∧ entry.reclen % 8 = 0 := by
  induction children generalizing offset with
  | nil => nofun
  | cons child rest ih =>
      have length := dirent_length_aligned (fs.inodes child).name
      rw [entriesAt, List.forall_mem_cons]
      refine ⟨⟨aligned, length⟩, ih ?_⟩
      unfold recordLength
      omega

theorem entries_ino (offset : Nat) (children : List InodeIndex) :
    (entriesAt fs offset children).map Dirent.ino = children.map Fin.val := by
  induction children generalizing offset with
  | nil => rfl
  | cons child rest ih =>
      rw [entriesAt, List.map_cons, ih, List.map_cons]

theorem entries_from {offset : Nat} {children : List InodeIndex} {entry : Dirent}
    (member : entry ∈ entriesAt fs offset children) :
    ∃ child ∈ children, entry.ino = child.val ∧ entry.name = (fs.inodes child).name ∧
      entry.dType = direntType (fs.inodes child) := by
  induction children generalizing offset with
  | nil => cases member
  | cons child rest ih =>
      rcases List.mem_cons.mp member with rfl | later
      · exact ⟨child, List.mem_cons_self, rfl, rfl, rfl⟩
      · obtain ⟨other, among, same⟩ := ih later
        exact ⟨other, List.mem_cons_of_mem child among, same⟩

theorem listed_child {dir : Nat} {child : InodeIndex} (listed : child ∈ listDirIndexed fs dir) :
    (fs.inodes child).used = true ∧ (fs.inodes child).parent.val = dir ∧ child.val ≠ dir := by
  unfold listDirIndexed at listed
  split_ifs at listed with bound
  · cases listed
  · cases listed
  · have kept := (List.mem_filter.mp listed).2
    simp only [Bool.and_eq_true, beq_iff_eq, bne_iff_ne] at kept
    obtain ⟨⟨isUsed, below⟩, apart⟩ := kept
    exact ⟨isUsed, congrArg Fin.val below, fun same => apart (Fin.ext same)⟩
  · cases listed

theorem records_small (names : NamesTerminated fs) (pos : Nat) {dir : Nat}
    {children : List InodeIndex} (listed : children.Sublist (listDirIndexed fs dir)) :
    (records fs pos children).length ≤ 2 ^ 64 := by
  have few : children.length ≤ maxInodes := by
    simpa using (listed.nodup (list_dir_indexed_nodup fs dir)).length_le_card
  have each : ∀ length ∈ children.map (recordLength fs), length ≤ 88 := by
    intro length member
    obtain ⟨child, _, rfl⟩ := List.mem_map.mp member
    have short := (names child).2
    unfold recordLength direntLength
    unfold maxName at short
    omega
  have total := List.sum_le_card_nsmul _ 88 each
  rw [List.length_map, smul_eq_mul] at total
  rw [length_records]
  unfold maxInodes at few
  omega

theorem entries_listing {dir : Nat} {children : List InodeIndex}
    (listed : children.Sublist (listDirIndexed fs dir)) :
    Listing fs dir (entriesAt fs 0 children) where
  aligned := entries_aligned children rfl
  distinct := by
    rw [entries_ino]
    exact ((list_dir_indexed_nodup fs dir).sublist listed).map Fin.val_injective
  children := by
    intro entry member
    obtain ⟨child, among, ino, name, dType⟩ := entries_from member
    obtain ⟨isUsed, below, apart⟩ := listed_child (listed.subset among)
    exact ⟨child, isUsed, below, apart, ino, name, dType⟩

end

section

variable {state : SyscallState} {fd count : Nat} {buf : Address}

theorem getdents64_cases (state : SyscallState) (fd count : Nat) (buf : Address) :
    (∃ errno, getdents64 state fd buf count = SyscallStores.fails errno) ∨
      ∃ dir pos children, currentFdGet state.kernel fd = some (.vfsDir dir pos) ∧
        children.Sublist (listDirIndexed state.fs dir) ∧
        (records state.fs pos children).length ≤ count ∧
        getdents64 state fd buf count =
          SyscallStores.returns [⟨buf, records state.fs pos children⟩]
            (records state.fs pos children).length := by
  unfold getdents64 currentFdGet
  split
  · exact .inl ⟨22, rfl⟩
  · rename_i usable
    rw [not_or] at usable
    cases state.kernel.currentTask with
    | none => exact .inl ⟨9, rfl⟩
    | some task =>
        rw [Option.bind_some]
        dsimp only
        cases found : FdTable.get task.fdTable fd with
        | none => exact .inl ⟨9, rfl⟩
        | some entry =>
            cases entry with
            | vfsDir dir pos =>
                have buffer : buf.toNat ≠ 0 := fun zero => usable.1 (BitVec.eq_of_toNat_eq zero)
                obtain ⟨_, written, _⟩ := @getdents_at state.fs task.fdTable fd buf.toNat dir pos
                  count buffer (Nat.pos_of_ne_zero usable.2) found
                refine .inr ⟨dir, pos, _, rfl, ?_, ?_, by dsimp only; rw [written]⟩
                · exact (GreedyBatches.pack_sublist _ _).trans (List.drop_sublist _ _)
                · rw [length_records]
                  exact GreedyBatches.pack_room _ _
            | _ => exact .inl ⟨20, rfl⟩

theorem stored_elsewhere {memory : UserMemory} {start : Address} {bytes : Bytes} {i : Nat}
    (beyond : bytes.length ≤ i) (bound : i < 2 ^ 64) :
    memory.apply ⟨start, bytes⟩ (byteAt start i) = memory (byteAt start i) := by
  have offset : (byteAt start i - start).toNat = i := by
    unfold byteAt
    bv_omega
  unfold UserMemory.apply
  dsimp only
  rw [if_neg]
  omega

/-- For any reached filesystem, descriptor, start position, buffer and buffer size. -/
theorem getdents64_decodes (hello : Bytes) (operations : List Operation)
    (plain : ∀ operation ∈ operations, PathsTerminated operation) (state : SyscallState)
    (reached : state.fs = (fsSystem hello).runFrom (fsSystem hello).init operations)
    (fd count : Nat) (buf : Address) :
    (∀ i, count ≤ i → i < 2 ^ 64 →
        memoryAfter state.memory (getdents64 state fd buf count) (byteAt buf i) =
          state.memory (byteAt buf i)) ∧
      ∀ r : Nat, (getdents64 state fd buf count).result = some (.value r) →
        ∃ dir pos entries, currentFdGet state.kernel fd = some (.vfsDir dir pos) ∧
          decodeDirents r 0
            ((memoryAfter state.memory (getdents64 state fd buf count)).read buf r) =
              some entries ∧
          Listing state.fs dir entries := by
  have names := names_run hello plain
  rw [← reached] at names
  rcases getdents64_cases state fd count buf with ⟨errno, failed⟩ | ⟨dir, pos, children, opened,
    listed, within, succeeded⟩
  · rw [failed]
    exact ⟨fun _ _ _ => rfl, nofun⟩
  · rw [succeeded]
    refine ⟨fun i beyond bound => stored_elsewhere (within.trans beyond) bound, ?_⟩
    intro r returned
    have same : ((records state.fs pos children).length : Int) = r :=
      SyscallStores.Return.value.inj (Option.some.inj returned)
    obtain rfl := Int.ofNat.inj same
    refine ⟨dir, pos, entriesAt state.fs 0 children, opened, ?_, entries_listing listed⟩
    change decodeDirents _ 0 ((state.memory.apply ⟨buf, _⟩).read buf _) = _
    rw [read_stored state.memory buf (records_small names pos listed)]
    exact decode_records names children pos 0 (Nat.le_refl _)

end

/-- Three files are made in `/tmp`. -/
def tmpFilled : List Operation :=
  let tmp := ascii ['/', 't', 'm', 'p', '/']
  [.touch (tmp ++ ascii ['a']) rootInode 0 0,
    .touch (tmp ++ List.replicate 20 0x62) rootInode 0 0,
    .touch (tmp ++ ascii ['c']) rootInode 0 0]

/-- A task that has opened `/tmp` as descriptor 3. -/
def tmpListed : SyscallState where
  kernel := FailedPipes.runningWith tmpOpened
  fs := (fsSystem []).runFrom (fsSystem []).init tmpFilled
  memory := fun _ => 0xFF
  serialByte := none
  keyByte := none
  hasInput := false
  entropy := fun _ => 0
  versionFull := []
  elsewhere := fun _ _ => none
  located := by
    intro task present
    cases present
    decide

/-- In 60 bytes there is room for the two short names. -/
theorem tmp_decodes :
    (getdents64 tmpListed 3 0x9000 60).result = some (.value 48) ∧
      ∃ dir pos entries, currentFdGet tmpListed.kernel 3 = some (.vfsDir dir pos) ∧
        decodeDirents 48 0
          ((memoryAfter tmpListed.memory (getdents64 tmpListed 3 0x9000 60)).read 0x9000 48) =
            some entries ∧
        Listing tmpListed.fs dir entries := by
  have returned : (getdents64 tmpListed 3 0x9000 60).result = some (.value 48) := by
    decide +kernel
  refine ⟨returned, ?_⟩
  refine (getdents64_decodes [] tmpFilled ?_ tmpListed rfl 3 60 0x9000).2 48 returned
  unfold PathsTerminated
  decide +kernel

end Ferrugem.DirentRecords
