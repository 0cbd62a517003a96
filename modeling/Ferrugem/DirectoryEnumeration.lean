import Ferrugem.DescriptorIdentity
import Ferrugem.Library.GreedyBatches

/-!
# Reading a directory

`sys_getdents64` writes a record for every child that fits and resumes, in the
next call, as many children further on as it wrote records. A child whose record
does not fit is lost when a later, shorter one fits.
-/

namespace Ferrugem.DirectoryEnumeration

open Ferrugem.ProcessModel Ferrugem.RamFsModel Ferrugem.FileSyscalls
open Ferrugem.DescriptorIdentity

set_option autoImplicit false

/-- The lowest `width` bytes of `to_le_bytes`. -/
def leBytes (width value : Nat) : Bytes :=
  (List.range width).map fun i => UInt8.ofNat (value / 256 ^ i)

def direntLength (name : Bytes) : Nat := (19 + name.length + 1 + 7) / 8 * 8

def dirent64 (ino dOff : Nat) (name : Bytes) (dType : UInt8) : Bytes :=
  leBytes 8 ino ++ leBytes 8 dOff ++ leBytes 2 (direntLength name) ++ [dType] ++ name ++
    List.replicate (direntLength name - 19 - name.length) 0

/-- `write_dirent64`, with the room left in the buffer. -/
def writeDirent64 (room ino dOff : Nat) (name : Bytes) (dType : UInt8) : Option Bytes :=
  if room < direntLength name then none else some (dirent64 ino dOff name dType)

def listDirIndexed (fs : RamFs) (dir : Nat) : List InodeIndex :=
  if bound : dir < maxInodes then
    if (fs.inodes ⟨dir, bound⟩).used = false then []
    else if (fs.inodes ⟨dir, bound⟩).kind ≠ .dir then []
    else
      (List.finRange maxInodes).filter fun i =>
        (fs.inodes i).used && (fs.inodes i).parent == ⟨dir, bound⟩ && i != ⟨dir, bound⟩
  else []

/-- The variables of the callback; `written` holds the bytes themselves. -/
structure DirentLoop where
  written : Bytes
  entryIdx : Nat
  newPos : Nat

def direntType (inode : Inode) : UInt8 := if inode.kind = .dir then 4 else 8

def direntStep (fs : RamFs) (pos count : Nat) (loop : DirentLoop) (child : InodeIndex) :
    DirentLoop :=
  if loop.entryIdx < pos then { loop with entryIdx := loop.entryIdx + 1 }
  else
    match writeDirent64 (count - loop.written.length) child.val (loop.newPos + 1)
        (fs.inodes child).name (direntType (fs.inodes child)) with
    | some record =>
        { written := loop.written ++ record
          entryIdx := loop.entryIdx + 1
          newPos := loop.newPos + 1 }
    | none => { loop with entryIdx := loop.entryIdx + 1 }

/-- `set_dir_pos`. -/
def setDirPos (table : FdTable) (fd pos : Nat) : FdTable :=
  if bound : fd < maxFds then
    match table ⟨fd, bound⟩ with
    | .vfsDir inode _ => Function.update table ⟨fd, bound⟩ (.vfsDir inode pos)
    | _ => table
  else table

/-- The table after the call, its result and what it stored in the buffer. -/
def sysGetdents64 (fs : RamFs) (table : FdTable) (fd bufPtr count : Nat) :
    FdTable × Int × Bytes :=
  if bufPtr = 0 ∨ count = 0 then (table, -22, [])
  else
    match FdTable.get table fd with
    | some (.vfsDir inode pos) =>
        let loop := (listDirIndexed fs inode).foldl (direntStep fs pos count)
          { written := [], entryIdx := 0, newPos := pos }
        (if 0 < loop.written.length then setDirPos table fd loop.newPos else table,
          loop.written.length, loop.written)
    | some _ => (table, -20, [])
    | none => (table, -9, [])

def fromLe : Bytes → Nat
  | [] => 0
  | byte :: rest => byte.toNat + 256 * fromLe rest

def field (bytes : Bytes) (offset width : Nat) : Nat := fromLe ((bytes.drop offset).take width)

/-- The inode numbers of the records, each found by the length of the one before
it. -/
def parseDirents : Nat → Bytes → List Nat
  | 0, _ => []
  | fuel + 1, bytes =>
      if bytes = [] then []
      else
        fromLe (bytes.take 8) ::
          parseDirents fuel (bytes.drop (fromLe ((bytes.drop 16).take 2)))

def direntsOf (bytes : Bytes) : List Nat := parseDirents bytes.length bytes

section

variable (fs : RamFs) (table : FdTable) (fd bufPtr : Nat) (sizes : Nat → Nat)

def tableAfter : Nat → FdTable
  | 0 => table
  | k + 1 => (sysGetdents64 fs (tableAfter k) fd bufPtr (sizes k)).1

/-- The result and the buffer of call number `k`. -/
def answer (k : Nat) : Int × Bytes :=
  (sysGetdents64 fs (tableAfter fs table fd bufPtr sizes k) fd bufPtr (sizes k)).2

/-- Some call returns 0, and those before it together return every child once. -/
def Enumerates (dir : Nat) : Prop :=
  ∃ n, (answer fs table fd bufPtr sizes n).1 = 0 ∧
    (∀ k, k < n → 0 < (answer fs table fd bufPtr sizes k).1) ∧
    ((List.range n).flatMap fun k => direntsOf (answer fs table fd bufPtr sizes k).2).Perm
      ((listDirIndexed fs dir).map Fin.val)

def recordLength (child : InodeIndex) : Nat := direntLength (fs.inodes child).name

def remaining : List InodeIndex :=
  match FdTable.get table fd with
  | some (.vfsDir inode pos) => (listDirIndexed fs inode).drop pos
  | _ => []

/-- Once a record does not fit into the buffer, no later one does. -/
def FillsInOrder (count : Nat) : Prop :=
  GreedyBatches.Ordered (recordLength fs) count (remaining fs table fd)

end

theorem le_bytes_succ (width value : Nat) :
    leBytes (width + 1) value = UInt8.ofNat value :: leBytes width (value / 256) := by
  unfold leBytes
  rw [List.range_succ_eq_map, List.map_cons, List.map_map]
  congr 1
  · simp
  · apply List.map_congr_left
    intro i _
    dsimp only [Function.comp]
    rw [Nat.pow_succ', Nat.div_div_eq_div_mul]

theorem length_le_bytes (width value : Nat) : (leBytes width value).length = width := by
  simp [leBytes]

theorem from_le_bytes (width value : Nat) : fromLe (leBytes width value) = value % 256 ^ width := by
  induction width generalizing value with
  | zero => simp [leBytes, fromLe, Nat.mod_one]
  | succ width ih =>
      rw [le_bytes_succ, fromLe, ih, Nat.pow_succ', Nat.mod_mul]
      simp

theorem field_skip {width offset : Nat} (value read : Nat) (rest : Bytes) :
    field (leBytes width value ++ rest) (width + offset) read = field rest offset read := by
  rw [field, ← List.drop_drop, List.drop_left' (length_le_bytes width value), field]

theorem field_here (width value : Nat) (rest : Bytes) :
    field (leBytes width value ++ rest) 0 width = value % 256 ^ width := by
  rw [field, List.drop_zero, List.take_left' (length_le_bytes width value), from_le_bytes]

theorem length_dirent64 (ino dOff : Nat) (name : Bytes) (dType : UInt8) :
    (dirent64 ino dOff name dType).length = direntLength name := by
  unfold dirent64 direntLength
  simp only [List.length_append, length_le_bytes, List.length_cons, List.length_nil,
    List.length_replicate]
  omega

theorem dirent_length_pos (name : Bytes) : 0 < direntLength name := by
  unfold direntLength
  omega

theorem read_dirent64 {ino : Nat} (dOff : Nat) {name : Bytes} (dType : UInt8) (rest : Bytes)
    (small : ino < 2 ^ 64) (short : name.length ≤ maxName) :
    fromLe ((dirent64 ino dOff name dType ++ rest).take 8) = ino ∧
      fromLe (((dirent64 ino dOff name dType ++ rest).drop 16).take 2) = direntLength name := by
  have split : dirent64 ino dOff name dType ++ rest =
      leBytes 8 ino ++ (leBytes 8 dOff ++ (leBytes 2 (direntLength name) ++
        ([dType] ++ name ++ List.replicate (direntLength name - 19 - name.length) 0 ++ rest))) := by
    simp [dirent64]
  rw [split]
  constructor
  · rw [List.take_left' (length_le_bytes 8 ino), from_le_bytes]
    exact Nat.mod_eq_of_lt small
  · rw [show 16 = 8 + 8 from rfl, ← List.drop_drop, List.drop_left' (length_le_bytes 8 ino),
      List.drop_left' (length_le_bytes 8 dOff), List.take_left' (length_le_bytes 2 _),
      from_le_bytes]
    apply Nat.mod_eq_of_lt
    unfold direntLength
    unfold maxName at short
    omega

section

variable (fs : RamFs)

/-- The records of some children, the first of them with `d_off` after `pos`. -/
def records : Nat → List InodeIndex → Bytes
  | _, [] => []
  | pos, child :: rest =>
      dirent64 child.val (pos + 1) (fs.inodes child).name (direntType (fs.inodes child)) ++
        records (pos + 1) rest

variable {fs}

theorem records_nonempty {pos : Nat} {children : List InodeIndex} (some : children ≠ []) :
    0 < (records fs pos children).length := by
  cases children with
  | nil => exact absurd rfl some
  | cons child rest =>
      have positive := dirent_length_pos (fs.inodes child).name
      rw [records, List.length_append, length_dirent64]
      omega

theorem parse_records {children : List InodeIndex}
    (short : ∀ child ∈ children, (fs.inodes child).name.length ≤ maxName) (pos : Nat) {fuel : Nat}
    (enough : (records fs pos children).length ≤ fuel) :
    parseDirents fuel (records fs pos children) = children.map Fin.val := by
  induction children generalizing pos fuel with
  | nil =>
      cases fuel with
      | zero => rfl
      | succ fuel => simp [parseDirents, records]
  | cons child rest ih =>
      have some := @records_nonempty fs pos (child :: rest) nofun
      obtain ⟨ino, length⟩ := read_dirent64 (pos + 1) (direntType (fs.inodes child))
        (records fs (pos + 1) rest) (Nat.lt_trans child.isLt (by decide))
        (short child List.mem_cons_self)
      cases fuel with
      | zero => omega
      | succ fuel =>
          have filled : records fs pos (child :: rest) ≠ [] := List.ne_nil_of_length_pos some
          rw [parseDirents, if_neg filled]
          rw [records] at enough ⊢
          rw [List.length_append, length_dirent64] at enough
          have positive := dirent_length_pos (fs.inodes child).name
          rw [ino, length, List.drop_left' (length_dirent64 _ _ _ _), List.map_cons,
            ih (fun later member => short later (List.mem_cons_of_mem child member)) (pos + 1)
              (by omega)]

theorem dirents_of_records {children : List InodeIndex} (pos : Nat)
    (short : ∀ child ∈ children, (fs.inodes child).name.length ≤ maxName) :
    direntsOf (records fs pos children) = children.map Fin.val :=
  parse_records short pos (Nat.le_refl _)

/-- The callback passes over the children before the position and then writes
the records that fit. -/
theorem dirent_loop (pos count : Nat) (children : List InodeIndex) (loop : DirentLoop) :
    (children.foldl (direntStep fs pos count) loop).written =
        loop.written ++ records fs loop.newPos (GreedyBatches.pack (recordLength fs)
          (count - loop.written.length) (children.drop (pos - loop.entryIdx))) ∧
      (children.foldl (direntStep fs pos count) loop).newPos =
        loop.newPos + (GreedyBatches.pack (recordLength fs) (count - loop.written.length)
          (children.drop (pos - loop.entryIdx))).length := by
  induction children generalizing loop with
  | nil => simp [GreedyBatches.pack, records]
  | cons child rest ih =>
      rw [List.foldl_cons]
      by_cases early : loop.entryIdx < pos
      · have passed : direntStep fs pos count loop child =
            { loop with entryIdx := loop.entryIdx + 1 } := if_pos early
        have next : pos - loop.entryIdx = pos - (loop.entryIdx + 1) + 1 := by omega
        rw [passed, next, List.drop_succ_cons]
        exact ih { loop with entryIdx := loop.entryIdx + 1 }
      · have here : pos - loop.entryIdx = 0 := by omega
        have later : pos - (loop.entryIdx + 1) = 0 := by omega
        have stepped : direntStep fs pos count loop child =
            if recordLength fs child ≤ count - loop.written.length then
              { written := loop.written ++ dirent64 child.val (loop.newPos + 1)
                  (fs.inodes child).name (direntType (fs.inodes child))
                entryIdx := loop.entryIdx + 1
                newPos := loop.newPos + 1 }
            else { loop with entryIdx := loop.entryIdx + 1 } := by
          unfold direntStep writeDirent64
          rw [if_neg early]
          unfold recordLength
          split_ifs <;> first | rfl | omega
        rw [stepped, here, List.drop_zero, GreedyBatches.pack]
        split_ifs with fits
        · obtain ⟨written, newPos⟩ := ih
            { written := loop.written ++ dirent64 child.val (loop.newPos + 1)
                (fs.inodes child).name (direntType (fs.inodes child))
              entryIdx := loop.entryIdx + 1
              newPos := loop.newPos + 1 }
          dsimp only at written newPos
          have room : count - (loop.written ++ dirent64 child.val (loop.newPos + 1)
              (fs.inodes child).name (direntType (fs.inodes child))).length =
                count - loop.written.length - recordLength fs child := by
            rw [List.length_append, length_dirent64]
            unfold recordLength
            omega
          rw [later, List.drop_zero, room] at written newPos
          rw [written, newPos, records, List.length_cons, List.append_assoc]
          exact ⟨rfl, by omega⟩
        · have rest := ih { loop with entryIdx := loop.entryIdx + 1 }
          dsimp only at rest
          rw [later, List.drop_zero] at rest
          exact rest

end

section

variable {fs : RamFs} {table : FdTable} {fd bufPtr dir : Nat} {sizes : Nat → Nat}

theorem get_set_dir_pos {pos next : Nat}
    (found : FdTable.get table fd = some (.vfsDir dir pos)) :
    FdTable.get (setDirPos table fd next) fd = some (.vfsDir dir next) := by
  obtain ⟨bound, entry⟩ := get_entry found
  unfold setDirPos FdTable.get
  simp only [bound, entry, dif_pos, Function.update_self]

theorem getdents_at {pos count : Nat} (buffer : bufPtr ≠ 0) (room : 0 < count)
    (found : FdTable.get table fd = some (.vfsDir dir pos)) :
    FdTable.get (sysGetdents64 fs table fd bufPtr count).1 fd =
        some (.vfsDir dir (pos + (GreedyBatches.pack (recordLength fs) count
          ((listDirIndexed fs dir).drop pos)).length)) ∧
      (sysGetdents64 fs table fd bufPtr count).2.2 =
        records fs pos (GreedyBatches.pack (recordLength fs) count
          ((listDirIndexed fs dir).drop pos)) ∧
      (sysGetdents64 fs table fd bufPtr count).2.1 =
        (sysGetdents64 fs table fd bufPtr count).2.2.length := by
  obtain ⟨written, newPos⟩ := @dirent_loop fs pos count (listDirIndexed fs dir)
    { written := [], entryIdx := 0, newPos := pos }
  dsimp only [List.length_nil, Nat.sub_zero, List.nil_append] at written newPos
  unfold sysGetdents64
  rw [if_neg (by omega), found]
  dsimp only
  refine ⟨?_, written, rfl⟩
  rw [written, newPos]
  split_ifs with some
  · exact get_set_dir_pos found
  · -- nothing was written, so the position stays
    have none : GreedyBatches.pack (recordLength fs) count
        ((listDirIndexed fs dir).drop pos) = [] := by
      by_contra filled
      exact some (records_nonempty filled)
    rw [none]
    exact found

variable (buffer : bufPtr ≠ 0) (opened : FdTable.get table fd = some (.vfsDir dir 0))
  (rooms : ∀ k, 0 < sizes k)

include buffer opened rooms

theorem descriptor_after (k : Nat) :
    FdTable.get (tableAfter fs table fd bufPtr sizes k) fd =
      some (.vfsDir dir (GreedyBatches.position (recordLength fs) sizes
        (listDirIndexed fs dir) k)) := by
  induction k with
  | zero => exact opened
  | succ k ih => exact (getdents_at buffer (rooms k) ih).1

theorem answer_after (k : Nat) :
    answer fs table fd bufPtr sizes k =
      (((records fs (GreedyBatches.position (recordLength fs) sizes (listDirIndexed fs dir) k)
          (GreedyBatches.batch (recordLength fs) sizes (listDirIndexed fs dir) k)).length : Int),
        records fs (GreedyBatches.position (recordLength fs) sizes (listDirIndexed fs dir) k)
          (GreedyBatches.batch (recordLength fs) sizes (listDirIndexed fs dir) k)) := by
  obtain ⟨_, bytes, result⟩ := @getdents_at fs _ fd bufPtr dir _ (sizes k) buffer (rooms k)
    (descriptor_after buffer opened rooms k)
  rw [bytes] at result
  exact Prod.ext result bytes

theorem answer_zero_iff (k : Nat) :
    (answer fs table fd bufPtr sizes k).1 = 0 ↔
      GreedyBatches.batch (recordLength fs) sizes (listDirIndexed fs dir) k = [] := by
  rw [answer_after buffer opened rooms]
  constructor
  · intro zero
    by_contra some
    have positive := @records_nonempty fs (GreedyBatches.position (recordLength fs) sizes
      (listDirIndexed fs dir) k) _ some
    dsimp only at zero
    omega
  · intro none
    rw [none]
    rfl

theorem answer_pos_iff (k : Nat) :
    0 < (answer fs table fd bufPtr sizes k).1 ↔
      GreedyBatches.batch (recordLength fs) sizes (listDirIndexed fs dir) k ≠ [] := by
  rw [Ne, ← answer_zero_iff buffer opened rooms, answer_after buffer opened rooms]
  dsimp only
  omega

theorem dirents_after
    (short : ∀ child ∈ listDirIndexed fs dir, (fs.inodes child).name.length ≤ maxName) (k : Nat) :
    direntsOf (answer fs table fd bufPtr sizes k).2 =
      (GreedyBatches.batch (recordLength fs) sizes (listDirIndexed fs dir) k).map Fin.val := by
  rw [answer_after buffer opened rooms]
  apply dirents_of_records
  intro child member
  exact short child (List.mem_of_mem_drop ((GreedyBatches.pack_sublist _ _).subset member))

end

theorem list_dir_indexed_nodup (fs : RamFs) (dir : Nat) : (listDirIndexed fs dir).Nodup := by
  unfold listDirIndexed
  split_ifs
  · exact List.nodup_nil
  · exact List.nodup_nil
  · exact (List.nodup_finRange maxInodes).filter _
  · exact List.nodup_nil

/-- With buffers that hold the longest record, the calls on a new descriptor
return every child exactly once if and only if each of them fills its buffer in
order. -/
theorem enumerates_iff (fs : RamFs) (table : FdTable) (fd bufPtr dir : Nat) (sizes : Nat → Nat)
    (buffer : bufPtr ≠ 0) (opened : FdTable.get table fd = some (.vfsDir dir 0))
    (short : ∀ child ∈ listDirIndexed fs dir, (fs.inodes child).name.length ≤ maxName)
    (rooms : ∀ k, 0 < sizes k)
    (roomy : ∀ k, ∀ child ∈ listDirIndexed fs dir, recordLength fs child ≤ sizes k) :
    Enumerates fs table fd bufPtr sizes dir ↔
      ∀ k, FillsInOrder fs (tableAfter fs table fd bufPtr sizes k) fd (sizes k) := by
  have complete := @GreedyBatches.batches_complete_iff _ (recordLength fs) sizes _
    (list_dir_indexed_nodup fs dir) roomy
  have fills (k : Nat) : FillsInOrder fs (tableAfter fs table fd bufPtr sizes k) fd (sizes k) ↔
      GreedyBatches.Ordered (recordLength fs) (sizes k) ((listDirIndexed fs dir).drop
        (GreedyBatches.position (recordLength fs) sizes (listDirIndexed fs dir) k)) := by
    unfold FillsInOrder remaining
    rw [descriptor_after buffer opened rooms]
  rw [forall_congr' fills, ← complete]
  have returned (n : Nat) : ((List.range n).flatMap fun k =>
      direntsOf (answer fs table fd bufPtr sizes k).2) =
        (GreedyBatches.returned (recordLength fs) sizes (listDirIndexed fs dir) n).map
          Fin.val := by
    unfold GreedyBatches.returned
    rw [List.map_flatMap]
    apply List.flatMap_congr
    intro k _
    exact dirents_after buffer opened rooms short k
  have perm (n : Nat) : ((GreedyBatches.returned (recordLength fs) sizes
      (listDirIndexed fs dir) n).map Fin.val).Perm ((listDirIndexed fs dir).map Fin.val) ↔
        (GreedyBatches.returned (recordLength fs) sizes (listDirIndexed fs dir) n).Perm
          (listDirIndexed fs dir) :=
    List.map_perm_map_iff Fin.val_injective
  unfold Enumerates
  apply exists_congr
  intro n
  rw [returned, perm, answer_zero_iff buffer opened rooms,
    forall₂_congr fun k _ => answer_pos_iff buffer opened rooms k,
    GreedyBatches.batch_empty_iff roomy]

/-- The filesystem at boot after three files were made in `/tmp`; the second has
a name of twenty letters. -/
def threeFiles : RamFs :=
  let tmp := ascii ['/', 't', 'm', 'p', '/']
  let fs := ((RamFs.init []).touch (tmp ++ ascii ['a']) rootInode 0 0).1
  let fs := (fs.touch (tmp ++ List.replicate 20 0x62) rootInode 0 0).1
  (fs.touch (tmp ++ ascii ['c']) rootInode 0 0).1

/-- The table of a task that has opened `/tmp` as descriptor 3. -/
def tmpOpened : FdTable :=
  Function.update FdTable.new ⟨3, by decide⟩ (.vfsDir 3 0)

theorem three_files_fill_in_order (pos : Nat) :
    GreedyBatches.Ordered (recordLength threeFiles) 4096
      ((listDirIndexed threeFiles 3).drop pos) := by
  by_cases early : pos < 3
  · revert pos
    decide +kernel
  · have length : (listDirIndexed threeFiles 3).length = 3 := by decide +kernel
    rw [List.drop_eq_nil_of_le (by omega)]
    trivial

theorem tmp_enumerated_by_large_buffers :
    Enumerates threeFiles tmpOpened 3 0x1000 (fun _ => 4096) 3 := by
  have opened : FdTable.get tmpOpened 3 = some (.vfsDir 3 0) := by decide
  have rooms : ∀ k, 0 < (fun _ => 4096 : Nat → Nat) k := fun _ => Nat.zero_lt_succ 4095
  have roomy : ∀ child ∈ listDirIndexed threeFiles 3, recordLength threeFiles child ≤ 4096 := by
    decide +kernel
  refine (enumerates_iff threeFiles tmpOpened 3 0x1000 3 (fun _ => 4096) (by decide) opened
    (by decide +kernel) rooms fun _ => roomy).mpr ?_
  intro k
  unfold FillsInOrder remaining
  rw [descriptor_after (by decide) opened rooms]
  exact three_files_fill_in_order _

/-- With room for 48 bytes the first call returns the first and the third file,
the second call the third file again, and the third call 0. -/
theorem second_file_never_returned :
    (∀ child ∈ listDirIndexed threeFiles 3, recordLength threeFiles child ≤ 48) ∧
      ¬Enumerates threeFiles tmpOpened 3 0x1000 (fun _ => 48) 3 := by
  refine ⟨by decide +kernel, ?_⟩
  rintro ⟨n, zero, positive, complete⟩
  have first : ∀ k, k < 2 → (answer threeFiles tmpOpened 3 0x1000 (fun _ => 48) k).1 ≠ 0 := by
    decide +kernel
  have third : (answer threeFiles tmpOpened 3 0x1000 (fun _ => 48) 2).1 = 0 := by
    decide +kernel
  obtain rfl : n = 2 := by
    rcases Nat.lt_trichotomy n 2 with early | same | late
    · exact absurd zero (first n early)
    · exact same
    · have more := positive 2 late
      omega
  revert complete
  decide +kernel

end Ferrugem.DirectoryEnumeration
