import Ferrugem.InodeWrites

/-!
# Holes in files

An `inode_write` behind the end of a file extends it over bytes that were not
written since the file last had its current size. They are zero as long as no
`write` of a whole file has dropped a byte that was not: `write` keeps the old
bytes behind the new content, where `alloc` resets the inode it hands out.
-/

namespace Ferrugem.FileHoles

open Ferrugem.RamFsModel Ferrugem.InodeWrites

set_option autoImplicit false

/-- After a write at `offset`, what is read between the old size and `offset` is zero. -/
def HolesZero (fs : RamFs) (idx : InodeIndex) (offset : Nat) (content : Bytes) : Prop :=
  ∀ start length k byte,
    ((fs.inodeWrite idx offset content).1.inodeRead idx start length)[k]? = some byte →
      (fs.inodes idx).size ≤ start + k → start + k < offset → byte = 0

/-- The call shortens no file by bytes that are not zero. The last byte of the
buffer is in no hole. -/
def DropsZeros (fs : RamFs) : Operation → Prop
  | .write path cwd content uid gid =>
      ∀ idx, fs.resolve path cwd = some idx → (fs.inodes idx).used = true →
        (fs.inodes idx).kind = .file → fs.perm idx uid gid 2#16 = true →
        ∀ i, content.length ≤ i → i < (fs.inodes idx).size → i + 1 < maxData →
          (fs.inodes idx).data i = 0
  | _ => True

def TailZero (inode : Inode) : Prop :=
  inode.used = true → inode.kind = .file →
    ∀ i, inode.size ≤ i → i + 1 < maxData → inode.data i = 0

def TailsZero (fs : RamFs) : Prop := ∀ idx, TailZero (fs.inodes idx)

section

variable {fs : RamFs}

theorem tails_set {idx : InodeIndex} {inode : Inode} (tails : TailsZero fs)
    (tail : TailZero inode) : TailsZero (fs.setInode idx inode) := by
  intro i
  by_cases here : i = idx
  · rw [here, set_inode_same]
    exact tail
  · rw [set_inode_other fs inode here]
    exact tails i

theorem tails_release (tails : TailsZero fs) (idx : InodeIndex) : TailsZero (fs.release idx) :=
  tails_set tails fun unused => by cases unused

theorem tail_new (kind : InodeKind) (parent : InodeIndex) (uid gid mode : BitVec 16)
    (name content : Bytes) :
    TailZero ((RamFs.newInode kind parent uid gid mode name).setContent content) := by
  intro _ _ i behind _
  have outside : ¬i < min content.length maxData := Nat.not_lt.mpr behind
  simp only [Inode.setContent, if_neg outside]
  rfl

/-- What `write` leaves behind the new content. -/
theorem tail_content_iff {inode : Inode} (tail : TailZero inode) (content : Bytes) :
    TailZero (inode.setContent content) ↔
      (inode.used = true → inode.kind = .file → ∀ i, content.length ≤ i → i < inode.size →
        i + 1 < maxData → inode.data i = 0) := by
  constructor
  · intro after isUsed isFile i behind _ inBuffer
    have outside : ¬i < min content.length maxData := by omega
    have zero := after isUsed isFile i (Nat.not_lt.mp outside) inBuffer
    simpa only [Inode.setContent, if_neg outside] using zero
  · intro dropped isUsed isFile i behind inBuffer
    have outside : ¬i < min content.length maxData := Nat.not_lt.mpr behind
    simp only [Inode.setContent, if_neg outside]
    by_cases inside : i < inode.size
    · exact dropped isUsed isFile i (by omega) inside inBuffer
    · exact tail isUsed isFile i (Nat.not_lt.mp inside) inBuffer

theorem tails_inode_write (tails : TailsZero fs) (idx : InodeIndex) (offset : Nat)
    (content : Bytes) : TailsZero (fs.inodeWrite idx offset content).1 := by
  unfold RamFs.inodeWrite
  dsimp only
  split_ifs
  · exact tails
  · exact tails
  · refine tails_set tails ?_
    intro isUsed isFile i behind inBuffer
    dsimp only at isUsed isFile behind ⊢
    rw [if_neg (by omega)]
    exact tails idx isUsed isFile i (le_trans (le_max_left _ _) behind) inBuffer

theorem tails_effect {operation : Operation} {result : RamFs × Bool} (tails : TailsZero fs)
    (effect : Effect fs operation result)
    (inPlace : ∀ idx offset content, operation ≠ .inodeWrite idx offset content)
    (whole : ∀ path cwd content uid gid, operation ≠ .write path cwd content uid gid) :
    TailsZero result.1 := by
  cases effect with
  | keeps created written touched => exact tails
  | makes resolved isDir allowed absent vacant => exact tails_set tails (tail_new _ _ _ _ _ _ _)
  | creates source absent resolved allowed vacant =>
      exact tails_set tails (tail_new _ _ _ _ _ _ _)
  | overwrites resolved isFile allowed => exact absurd rfl (whole _ _ _ _ _)
  | removesDir resolved notRoot isDir isEmpty allowed => exact tails_release tails _
  | removesFile resolved notRoot isFile allowed => exact tails_release tails _
  | @moves _ _ _ src => exact tails_set tails (tails src)
  | @replaces _ _ _ src _ dst =>
      have released := tails_release tails dst
      exact tails_set released (released src)
  | @changesMode _ _ idx => exact tails_set tails (tails idx)
  | @changesOwner _ _ idx => exact tails_set tails (tails idx)
  | patches isUsed isFile => exact absurd rfl (inPlace _ _ _)

theorem tails_create (tails : TailsZero fs) (kind : InodeKind) (parent : InodeIndex)
    (uid gid mode : BitVec 16) (name content : Bytes) :
    TailsZero (fs.create kind parent uid gid mode name content).1 := by
  unfold RamFs.create
  cases fs.alloc with
  | none => exact tails
  | some idx => exact tails_set tails (tail_new _ _ _ _ _ _ _)

theorem tails_write_new {path : Bytes} {cwd : InodeIndex} (tails : TailsZero fs)
    (absent : fs.resolve path cwd = none) (content : Bytes) (uid gid : BitVec 16) :
    TailsZero (fs.write path cwd content uid gid).1 := by
  unfold RamFs.write
  rw [absent]
  cases fs.resolveParent path cwd with
  | none => exact tails
  | some parent =>
      dsimp only
      split_ifs
      · exact tails
      · exact tails_create tails .file parent uid gid _ _ content

theorem tails_write_iff (tails : TailsZero fs) (path : Bytes) (cwd : InodeIndex) (content : Bytes)
    (uid gid : BitVec 16) :
    TailsZero (fs.write path cwd content uid gid).1 ↔
      DropsZeros fs (.write path cwd content uid gid) := by
  cases found : fs.resolve path cwd with
  | none =>
      refine iff_of_true (tails_write_new tails found content uid gid) ?_
      intro idx other
      rw [found] at other
      cases other
  | some idx =>
      have onlyHere : DropsZeros fs (.write path cwd content uid gid) ↔
          ((fs.inodes idx).used = true → (fs.inodes idx).kind = .file →
            fs.perm idx uid gid 2#16 = true → ∀ i, content.length ≤ i →
            i < (fs.inodes idx).size → i + 1 < maxData → (fs.inodes idx).data i = 0) := by
        unfold DropsZeros
        simp only [found, Option.some.injEq, forall_eq']
      rw [onlyHere]
      unfold RamFs.write
      rw [found]
      dsimp only
      split_ifs with isDir denied
      · exact iff_of_true tails fun _ isFile => by simp [isDir] at isFile
      · exact iff_of_true tails fun _ _ allowed => by simp [allowed] at denied
      · have allowed : fs.perm idx uid gid 2#16 = true := by simpa using denied
        unfold RamFs.modify
        constructor
        · intro after isUsed isFile _
          have tail := after idx
          rw [set_inode_same] at tail
          exact (tail_content_iff (tails idx) content).mp tail isUsed isFile
        · intro dropped
          refine tails_set tails ((tail_content_iff (tails idx) content).mpr ?_)
          exact fun isUsed isFile => dropped isUsed isFile allowed

theorem tails_apply_iff (tails : TailsZero fs) (operation : Operation) :
    TailsZero (fs.apply operation).1 ↔ DropsZeros fs operation := by
  have effect := apply_effect fs operation
  cases operation with
  | write path cwd content uid gid => exact tails_write_iff tails path cwd content uid gid
  | inodeWrite idx offset content =>
      exact iff_of_true (tails_inode_write tails idx offset content) trivial
  | _ => exact iff_of_true (tails_effect tails effect nofun nofun) trivial

theorem holes_zero_iff_tails :
    (∀ idx offset content, HolesZero fs idx offset content) ↔ TailsZero fs := by
  constructor
  · intro holes idx isUsed isFile i behind inBuffer
    have wraps : (i + 1 + [(0 : UInt8)].length) % 2 ^ 64 = i + 2 := by
      rw [List.length_singleton]
      unfold maxData at inBuffer
      omega
    have stops : min ((i + 1 + [(0 : UInt8)].length) % 2 ^ 64) maxData = i + 2 := by omega
    have shown : ((fs.inodeWrite idx (i + 1) [0]).1.inodeRead idx i 1)[0]? =
        some ((fs.inodes idx).data i) := by
      rw [inode_write_file isUsed isFile]
      dsimp only
      rw [stops, if_neg (by omega)]
      dsimp only
      rw [inode_read_get (by rw [set_inode_same]; exact isUsed)
        (by rw [set_inode_same]; exact isFile), set_inode_same]
      have reached : i + 0 < max (fs.inodes idx).size (i + 2) := by omega
      rw [if_pos ⟨Nat.one_pos, reached⟩]
      simp [written]
    exact holes idx (i + 1) [0] i 1 0 _ shown behind (Nat.lt_succ_self i)
  · intro tails idx offset content start length k byte shown behind before
    by_cases isFile : (fs.inodes idx).used = true ∧ (fs.inodes idx).kind = .file
    · obtain ⟨isUsed, isFile⟩ := isFile
      rw [inode_write_file isUsed isFile] at shown
      dsimp only at shown
      split_ifs at shown with nothing
      · rw [inode_read_get isUsed isFile, if_neg (by omega)] at shown
        cases shown
      · dsimp only at shown
        rw [inode_read_get (by rw [set_inode_same]; exact isUsed)
          (by rw [set_inode_same]; exact isFile), set_inode_same] at shown
        split_ifs at shown with inside
        obtain rfl := Option.some.inj shown
        have early : ¬(offset ≤ start + k ∧ start + k <
            min ((offset + content.length) % 2 ^ 64) maxData) := by omega
        simp only [written, if_neg early]
        exact tails idx isUsed isFile (start + k) behind (by omega)
    · have closed : (!(fs.inodes idx).used || decide ((fs.inodes idx).kind = .dir)) = true := by
        cases isUsed : (fs.inodes idx).used with
        | false => rfl
        | true =>
            cases kind : (fs.inodes idx).kind with
            | file => exact absurd ⟨isUsed, kind⟩ isFile
            | dir => rfl
      unfold RamFs.inodeWrite at shown
      dsimp only at shown
      rw [if_pos closed] at shown
      unfold RamFs.inodeRead at shown
      dsimp only at shown
      rw [if_pos closed] at shown
      cases shown

end

theorem tails_mkdir {fs : RamFs} (tails : TailsZero fs) (path : Bytes) (cwd : InodeIndex)
    (uid gid mode : BitVec 16) : TailsZero (fs.mkdir path cwd uid gid mode).1 :=
  (tails_apply_iff tails (.mkdir path cwd uid gid mode)).mpr trivial

theorem tails_init (hello : Bytes) : TailsZero (RamFs.init hello) := by
  have root : TailsZero RamFs.new.initRoot := by
    refine tails_set (fun _ _ _ _ _ _ => rfl) ?_
    exact fun _ _ _ _ _ => rfl
  have directories : TailsZero RamFs.initDirectories := by
    unfold RamFs.initDirectories
    dsimp only
    refine tails_mkdir (tails_mkdir (tails_write_new (tails_write_new (tails_mkdir (tails_mkdir
      (tails_mkdir root _ _ _ _ _) _ _ _ _ _) _ _ _ _ _) ?_ _ _ _) ?_ _ _ _) _ _ _ _ _) _ _ _ _ _
    · decide +kernel
    · decide +kernel
  refine tails_write_new directories ?_ hello 0 0
  decide +kernel

/-- For every sequence of calls, and every write that may follow one of its prefixes. -/
theorem holes_zero_iff (hello : Bytes) (operations : List Operation) :
    (∀ before, before <+: operations → ∀ idx offset content,
        HolesZero ((fsSystem hello).runFrom (fsSystem hello).init before) idx offset content) ↔
      (fsSystem hello).StepsMeet DropsZeros (fsSystem hello).init operations := by
  simp only [holes_zero_iff_tails]
  exact (fsSystem hello).reached_satisfy_iff TailsZero
    (fun _ operation tails => tails_apply_iff tails operation) operations (tails_init hello)

/-- `/etc/motd`, shortened to two bytes and extended again from its fourth byte on:
the third and the fourth still hold the old text. -/
theorem motd_hole_shows_old_text :
    let fs := (fsSystem [0x7f]).runFrom (fsSystem [0x7f]).init
      [.write motdPath rootInode (ascii ['h', 'i']) 0 0]
    (fs.inodeWrite motdInode 4 (ascii ['!'])).1.inodeRead motdInode 0 5 =
        ascii ['h', 'i', 'l', 'c', '!'] ∧
      ¬HolesZero fs motdInode 4 (ascii ['!']) := by
  refine ⟨by decide +kernel, ?_⟩
  intro zero
  have shown := zero 0 5 2 0x6c (by decide +kernel) (by decide +kernel) (by decide)
  revert shown
  decide

end Ferrugem.FileHoles
