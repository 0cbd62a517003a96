import Ferrugem.RamFsModel

/-!
# Reads return what was written

`inode_write` clamps against the capacity of an inode, with a sum that wraps, and
`inode_read` against its size. In a reachable state no size exceeds the capacity.
-/

namespace Ferrugem.InodeWrites

open Ferrugem.RamFsModel

set_option autoImplicit false

def acceptedCount (offset : Nat) (content : Bytes) : Nat := min content.length (maxData - offset)

/-- What `inode_write` does to a file, as `inode_read` shows it. -/
structure ReadsBack (fs : RamFs) (idx : InodeIndex) (offset : Nat) (content : Bytes)
    (result : RamFs × Nat) : Prop where
  count : result.2 = acceptedCount offset content
  size : (result.1.inodes idx).size =
    if result.2 = 0 then (fs.inodes idx).size else max (fs.inodes idx).size (offset + result.2)
  bounded : (result.1.inodes idx).size ≤ maxData
  length : ∀ start length, (result.1.inodeRead idx start length).length =
    min length ((result.1.inodes idx).size - start)
  written : ∀ start length k, k < length → offset ≤ start + k → start + k < offset + result.2 →
    (result.1.inodeRead idx start length)[k]? = content[start + k - offset]?
  previous : ∀ start length k, k < length → start + k < (fs.inodes idx).size →
    start + k < offset ∨ offset + result.2 ≤ start + k →
    (result.1.inodeRead idx start length)[k]? = (fs.inodeRead idx start length)[k]?
  others : ∀ other, other ≠ idx → result.1.inodes other = fs.inodes other

def SizesBounded (fs : RamFs) : Prop := ∀ idx, (fs.inodes idx).size ≤ maxData

section

variable {fs : RamFs}

theorem sizes_set {idx : InodeIndex} {inode : Inode} (bounded : SizesBounded fs)
    (small : inode.size ≤ maxData) : SizesBounded (fs.setInode idx inode) := by
  intro i
  by_cases here : i = idx
  · rw [here, set_inode_same]
    exact small
  · rw [set_inode_other fs inode here]
    exact bounded i

theorem sizes_write (bounded : SizesBounded fs) (idx : InodeIndex) (offset : Nat)
    (content : Bytes) : SizesBounded (fs.inodeWrite idx offset content).1 := by
  unfold RamFs.inodeWrite
  dsimp only
  split_ifs
  · exact bounded
  · exact bounded
  · exact sizes_set bounded (max_le (bounded idx) (Nat.min_le_right _ _))

theorem sizes_effect {operation : Operation} {result : RamFs × Bool} (bounded : SizesBounded fs)
    (effect : Effect fs operation result)
    (byPath : ∀ idx offset content, operation ≠ .inodeWrite idx offset content) :
    SizesBounded result.1 := by
  cases effect with
  | keeps created written touched => exact bounded
  | makes resolved isDir allowed absent vacant => exact sizes_set bounded (Nat.min_le_right _ _)
  | creates source absent resolved allowed vacant =>
      exact sizes_set bounded (Nat.min_le_right _ _)
  | overwrites resolved isFile allowed => exact sizes_set bounded (Nat.min_le_right _ _)
  | @removesDir _ _ idx => exact sizes_set bounded (bounded idx)
  | @removesFile _ _ idx => exact sizes_set bounded (bounded idx)
  | @moves _ _ _ src => exact sizes_set bounded (bounded src)
  | @replaces _ _ _ src _ dst =>
      have released : SizesBounded (fs.release dst) := sizes_set bounded (bounded dst)
      exact sizes_set released (released src)
  | @changesMode _ _ idx => exact sizes_set bounded (bounded idx)
  | @changesOwner _ _ idx => exact sizes_set bounded (bounded idx)
  | patches isUsed isFile => exact absurd rfl (byPath _ _ _)

theorem sizes_apply (operation : Operation) (bounded : SizesBounded fs) :
    SizesBounded (fs.apply operation).1 := by
  have effect := apply_effect fs operation
  cases operation with
  | inodeWrite idx offset content => exact sizes_write bounded idx offset content
  | _ => exact sizes_effect bounded effect nofun

theorem sizes_init (hello : Bytes) : SizesBounded (RamFs.init hello) := by
  have directories : SizesBounded RamFs.initDirectories := by
    unfold SizesBounded
    decide +kernel
  exact sizes_apply (.write RamFs.helloPath rootInode hello 0 0) directories

end

section

variable {fs : RamFs} {idx : InodeIndex}

theorem inode_read_get (isUsed : (fs.inodes idx).used = true)
    (isFile : (fs.inodes idx).kind = .file) (start length k : Nat) :
    (fs.inodeRead idx start length)[k]? =
      if k < length ∧ start + k < (fs.inodes idx).size then some ((fs.inodes idx).data (start + k))
      else none := by
  unfold RamFs.inodeRead
  simp only [isUsed, isFile, reduceCtorEq, decide_false, Bool.not_true, Bool.or_self,
    Bool.false_eq_true, if_false]
  by_cases inside : k < length ∧ start + k < (fs.inodes idx).size
  · have early : min start (fs.inodes idx).size = start := by omega
    rw [if_pos inside, early, List.getElem?_map, List.getElem?_range (by omega)]
    rfl
  · rw [if_neg inside, List.getElem?_eq_none]
    rw [List.length_map, List.length_range]
    omega

theorem inode_read_length (isUsed : (fs.inodes idx).used = true)
    (isFile : (fs.inodes idx).kind = .file) (start length : Nat) :
    (fs.inodeRead idx start length).length = min length ((fs.inodes idx).size - start) := by
  unfold RamFs.inodeRead
  simp only [isUsed, isFile, reduceCtorEq, decide_false, Bool.not_true, Bool.or_self,
    Bool.false_eq_true, if_false, List.length_map, List.length_range]
  omega

theorem stop_accepted {offset : Nat} {content : Bytes} (ranged : offset < 2 ^ 64)
    (short : content.length < 2 ^ 63) :
    min ((offset + content.length) % 2 ^ 64) maxData - offset = acceptedCount offset content := by
  unfold acceptedCount maxData
  omega

/-- The inode that `inode_write` leaves when it accepts bytes. -/
def written (fs : RamFs) (idx : InodeIndex) (offset stop : Nat) (content : Bytes) : Inode :=
  { fs.inodes idx with
    data := fun i =>
      if offset ≤ i ∧ i < stop then content.getD (i - offset) 0 else (fs.inodes idx).data i
    size := max (fs.inodes idx).size stop }

theorem inode_write_file (isUsed : (fs.inodes idx).used = true)
    (isFile : (fs.inodes idx).kind = .file) (offset : Nat) (content : Bytes) :
    fs.inodeWrite idx offset content =
      let stop := min ((offset + content.length) % 2 ^ 64) maxData
      if stop - offset = 0 then (fs, 0)
      else (fs.setInode idx (written fs idx offset stop content), stop - offset) := by
  unfold RamFs.inodeWrite
  exact if_neg (by simp [isUsed, isFile])

theorem reads_back {offset : Nat} {content : Bytes} (bounded : SizesBounded fs)
    (isUsed : (fs.inodes idx).used = true) (isFile : (fs.inodes idx).kind = .file)
    (ranged : offset < 2 ^ 64) (short : content.length < 2 ^ 63) :
    ReadsBack fs idx offset content (fs.inodeWrite idx offset content) := by
  have accepted := stop_accepted ranged short
  have small := sizes_write bounded idx offset content idx
  rw [inode_write_file isUsed isFile] at small ⊢
  dsimp only at small ⊢
  by_cases nothing : min ((offset + content.length) % 2 ^ 64) maxData - offset = 0
  · rw [if_pos nothing] at small ⊢
    refine ⟨nothing.symm.trans accepted, rfl, small, inode_read_length isUsed isFile, ?_, ?_, ?_⟩
    · intro start length k _ after before
      dsimp only at before
      omega
    · exact fun _ _ _ _ _ _ => rfl
    · exact fun _ _ => rfl
  · rw [if_neg nothing] at small ⊢
    have within : acceptedCount offset content ≤ content.length := Nat.min_le_left _ _
    generalize min ((offset + content.length) % 2 ^ 64) maxData = stop at *
    have reaches : offset + (stop - offset) = stop := by omega
    have stillUsed := (congrArg Inode.used (set_inode_same fs idx
      (written fs idx offset stop content))).trans isUsed
    have stillFile := (congrArg Inode.kind (set_inode_same fs idx
      (written fs idx offset stop content))).trans isFile
    refine ⟨accepted, ?_, small, inode_read_length stillUsed stillFile, ?_, ?_, ?_⟩
    · rw [if_neg nothing, reaches]
      exact congrArg Inode.size (set_inode_same fs idx (written fs idx offset stop content))
    · intro start length k near after before
      rw [reaches] at before
      refine (inode_read_get stillUsed stillFile start length k).trans ?_
      rw [set_inode_same, if_pos ⟨near, lt_of_lt_of_le before (le_max_right _ _)⟩]
      have inside : start + k - offset < content.length := by omega
      simp only [written, if_pos (And.intro after before), List.getD_eq_getElem?_getD,
        List.getElem?_eq_getElem inside, Option.getD_some]
    · intro start length k near known apart
      rw [reaches] at apart
      refine (inode_read_get stillUsed stillFile start length k).trans ?_
      rw [set_inode_same, inode_read_get isUsed isFile,
        if_pos ⟨near, lt_of_lt_of_le known (le_max_left _ _)⟩, if_pos ⟨near, known⟩]
      have outside : ¬(offset ≤ start + k ∧ start + k < stop) := by omega
      simp only [written, if_neg outside]
    · exact fun other different => set_inode_other fs _ different

/-- For every sequence of calls, every file, every 64-bit offset and every slice of bytes. -/
theorem inode_write_reads_back (hello : Bytes) (operations : List Operation) (idx : InodeIndex)
    (offset : Nat) (content : Bytes)
    (isUsed : (((fsSystem hello).runFrom (fsSystem hello).init operations).inodes idx).used = true)
    (isFile : (((fsSystem hello).runFrom (fsSystem hello).init operations).inodes idx).kind = .file)
    (ranged : offset < 2 ^ 64) (short : content.length < 2 ^ 63) :
    ReadsBack ((fsSystem hello).runFrom (fsSystem hello).init operations) idx offset content
      (((fsSystem hello).runFrom (fsSystem hello).init operations).inodeWrite idx offset
        content) := by
  have bounded : SizesBounded ((fsSystem hello).runFrom (fsSystem hello).init operations) :=
    (fsSystem hello).run_keeps SizesBounded (fun _ operation kept => sizes_apply operation kept)
      operations (sizes_init hello)
  exact reads_back bounded isUsed isFile ranged short

end

def motdPath : Bytes := ascii ['/', 'e', 't', 'c', '/', 'm', 'o', 't', 'd']

def motdInode : InodeIndex := ⟨5, by decide⟩

/-- Three bytes at the end of `/etc/motd`, after it has been overwritten: two are accepted. -/
theorem motd_reads_back :
    let fs := (fsSystem [0x7f]).runFrom (fsSystem [0x7f]).init
      [.write motdPath rootInode (ascii ['h', 'i']) 0 0]
    ReadsBack fs motdInode 4094 (ascii ['a', 'b', 'c'])
        (fs.inodeWrite motdInode 4094 (ascii ['a', 'b', 'c'])) ∧
      acceptedCount 4094 (ascii ['a', 'b', 'c']) = 2 ∧ (fs.inodes motdInode).size = 2 := by
  refine ⟨?_, by decide, by decide +kernel⟩
  exact inode_write_reads_back [0x7f] [.write motdPath rootInode (ascii ['h', 'i']) 0 0]
    motdInode 4094 (ascii ['a', 'b', 'c']) (by decide +kernel) (by decide +kernel) (by decide)
    (by decide)

end Ferrugem.InodeWrites
