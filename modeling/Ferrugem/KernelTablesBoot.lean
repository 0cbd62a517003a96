import Ferrugem.PagingSafety

/-!
# The kernel's tables after `paging::init`

The owners at boot: the static tables, and the rest of the image, which is
never given away. `init` fills the tables, which are zeroed statics, so that
they agree with these owners, whatever else is in memory.
-/

namespace Ferrugem.KernelTablesBoot

open Ferrugem.PagingModel Ferrugem.PageOwnership Ferrugem.PagingSafety

set_option autoImplicit false

instance decidableHas (image : KernelImage) (frame : Nat) : Decidable (image.Has frame) :=
  inferInstanceAs (Decidable (_ ∧ _))

def bootOwners (image : KernelImage) : Owners := fun frame =>
  if frame = image.pml4 / pageSize then .table .kernel 4
  else if frame = image.pdpt / pageSize then .table .kernel 3
  else if image.pd / pageSize ≤ frame ∧ frame < image.pd / pageSize + 4 then .table .kernel 2
  else if image.Has frame then .stack
  else .unowned

/-- The zeroed statics of the image in memory of any contents. -/
def zeroedStatics (image : KernelImage) (ram : WordMemory) : WordMemory :=
  ((ram.zeroBlock image.pml4 pageSize).zeroBlock image.pdpt pageSize).zeroBlock image.pd
    (4 * pageSize)

def bootSpace {Store : Type} (image : KernelImage) (ram : WordMemory) (store : Store) :
    PhysicalSpace Store :=
  (init image { memory := zeroedStatics image ram, store := store }).2

/-- The first `n` entries of a table. -/
def fillTable (table n : Nat) (entry : Nat → Entry) (memory : WordMemory) : WordMemory :=
  fun word => if table / 8 ≤ word ∧ word < table / 8 + n then entry (word - table / 8)
    else memory word

theorem for_range_write_entries {Store : Type} {table : Nat} (aligned : table % pageSize = 0)
    (n : Nat) (entry : Nat → Entry) :
    (Fallible.forRange n fun i => writeEntry table i (entry i) : Paging Store Unit) =
      changeMemory (fillTable table n entry) := by
  induction n with
  | zero =>
      rw [Fallible.for_range_zero]
      funext space
      have same : fillTable table 0 entry space.memory = space.memory := by
        funext word
        unfold fillTable
        rw [if_neg (by omega)]
      change (some (), space) =
        (some (), { space with memory := fillTable table 0 entry space.memory })
      rw [same]
  | succ n ih =>
      rw [Fallible.for_range_succ, ih]
      funext space
      have same : (fillTable table n entry space.memory).store (table + n * 8) (entry n) =
          fillTable table (n + 1) entry space.memory := by
        funext word
        have position : (table + n * 8) / 8 = table / 8 + n := by
          simp only [pageSize] at aligned
          omega
        simp only [WordMemory.store, position]
        by_cases last : word = table / 8 + n
        · subst last
          rw [Function.update_self, fillTable, if_pos (by omega), Nat.add_sub_cancel_left]
        · rw [Function.update_of_ne last]
          unfold fillTable
          by_cases inside : table / 8 ≤ word ∧ word < table / 8 + n
          · rw [if_pos inside, if_pos (by omega)]
          · rw [if_neg inside, if_neg (by omega)]
      change (some (), { space with
        memory := (fillTable table n entry space.memory).store (table + n * 8) (entry n) }) = _
      rw [same]
      rfl

def identityEntry (gib mib : Nat) : Entry :=
  BitVec.ofNat 64 (gib * 2 ^ 30 + mib * 2 ^ 21) ||| (pagePresent ||| pageWritable ||| pageHuge)

def fillDirectory (image : KernelImage) (gib : Nat) : WordMemory → WordMemory :=
  fillTable (image.pd + gib * pageSize) 512 (identityEntry gib)

def bootMemory (image : KernelImage) (memory : WordMemory) : WordMemory :=
  fillDirectory image 3 (fillDirectory image 2 (fillDirectory image 1 (fillDirectory image 0
    (fillTable image.pdpt 4 (fun i => kernelTableEntry (image.pd + i * pageSize))
      (memory.store image.pml4 (kernelTableEntry image.pdpt))))))

theorem directory_aligned (image : KernelImage) (gib : Nat) :
    (image.pd + gib * pageSize) % pageSize = 0 := by
  have aligned := image.aligned.2.2
  simp only [pageSize] at aligned ⊢
  omega

theorem init_memory {Store : Type} (image : KernelImage) (space : PhysicalSpace Store) :
    (init image space).2 = { space with memory := bootMemory image space.memory } := by
  unfold init
  have directory (gib : Nat) := @for_range_write_entries Store _ (directory_aligned image gib) 512
    (identityEntry gib)
  simp only [identityEntry] at directory
  rw [for_range_write_entries image.aligned.2.1]
  simp only [directory]
  simp only [Fallible.for_range_succ, Fallible.for_range_zero]
  rfl

theorem statics_apart (image : KernelImage) :
    image.pml4 / pageSize ≠ image.pdpt / pageSize ∧ ∀ gib, gib < 4 →
      image.pml4 / pageSize ≠ image.pd / pageSize + gib ∧
        image.pdpt / pageSize ≠ image.pd / pageSize + gib := by
  have distinct := image.distinct
  have aligned := image.aligned
  simp only [pageSize] at distinct aligned ⊢
  constructor
  · omega
  · intro gib low
    omega

theorem boot_tables (image : KernelImage) : KernelTables image (bootOwners image) where
  pml4 := by
    unfold bootOwners
    rw [if_pos rfl]
  pdpt := by
    have apart := statics_apart image
    unfold bootOwners
    rw [if_neg apart.1.symm, if_pos rfl]
  pd := by
    intro gib small
    have apart := (statics_apart image).2 gib small
    unfold bootOwners
    rw [if_neg apart.1.symm, if_neg apart.2.symm, if_pos (by omega)]

theorem boot_owned_in_image (image : KernelImage) {frame : Nat}
    (known : bootOwners image frame ≠ .unowned) : image.Has frame := by
  have inside := image.inside
  have aligned := image.aligned
  simp only [pageSize] at inside aligned
  unfold bootOwners at known
  split_ifs at known with pml4 pdpt pd has
  · unfold KernelImage.Has
    simp only [pageSize] at pml4 ⊢
    omega
  · unfold KernelImage.Has
    simp only [pageSize] at pdpt ⊢
    omega
  · unfold KernelImage.Has
    simp only [pageSize] at pd ⊢
    omega
  · exact has
  · exact absurd rfl known

theorem boot_owner_table (image : KernelImage) {frame : Nat} {tree : Tree} {level : Nat}
    (table : bootOwners image frame = .table tree level) :
    tree = .kernel ∧ ((frame = image.pml4 / pageSize ∧ level = 4) ∨
      (frame = image.pdpt / pageSize ∧ level = 3) ∨
      (∃ gib, gib < 4 ∧ frame = image.pd / pageSize + gib ∧ level = 2)) := by
  unfold bootOwners at table
  split_ifs at table with pml4 pdpt pd
  · cases table
    exact ⟨rfl, .inl ⟨pml4, rfl⟩⟩
  · cases table
    exact ⟨rfl, .inr (.inl ⟨pdpt, rfl⟩)⟩
  · cases table
    exact ⟨rfl, .inr (.inr ⟨frame - image.pd / pageSize, by omega, by omega, rfl⟩)⟩

theorem identity_entry_flags {gib mib : Nat} (low : gib < 4) (inside : mib < 512) :
    hasFlag (identityEntry gib mib) pagePresent = true ∧
      hasFlag (identityEntry gib mib) pageHuge = true := by
  have page : PageAddress (gib * 2 ^ 30 + mib * 2 ^ 21) := by
    constructor
    · simp only [pageSize]
      omega
    · omega
  unfold identityEntry
  rw [page.flag (by decide), page.flag (by decide)]
  decide

theorem fill_table_other {table n word : Nat} {entry : Nat → Entry} (memory : WordMemory)
    (outside : word < table / 8 ∨ table / 8 + n ≤ word) :
    fillTable table n entry memory word = memory word := by
  unfold fillTable
  rw [if_neg (by omega)]

theorem fill_table_inside {table n index : Nat} {entry : Nat → Entry} (memory : WordMemory)
    (inside : index < n) : fillTable table n entry memory (table / 8 + index) = entry index := by
  unfold fillTable
  rw [if_pos (by omega), Nat.add_sub_cancel_left]

theorem fill_directory_other (image : KernelImage) {gib frame index : Nat}
    (memory : WordMemory) (inside : index < 512) (other : frame ≠ image.pd / pageSize + gib) :
    fillDirectory image gib memory (frame * 512 + index) = memory (frame * 512 + index) := by
  have aligned := image.aligned.2.2
  simp only [pageSize] at aligned other
  unfold fillDirectory
  apply fill_table_other
  simp only [pageSize]
  omega

theorem fill_directory_inside (image : KernelImage) {gib index : Nat} (memory : WordMemory)
    (inside : index < 512) :
    fillDirectory image gib memory ((image.pd / pageSize + gib) * 512 + index) =
      identityEntry gib index := by
  have aligned := image.aligned.2.2
  simp only [pageSize] at aligned
  unfold fillDirectory
  rw [show (image.pd / pageSize + gib) * 512 + index = (image.pd + gib * pageSize) / 8 + index by
    simp only [pageSize]; omega]
  exact fill_table_inside memory inside

theorem boot_pml4_entry (image : KernelImage) (ram : WordMemory) {index : Nat}
    (inside : index < 512) :
    bootMemory image (zeroedStatics image ram) (image.pml4 / pageSize * 512 + index) =
      if index = 0 then kernelTableEntry image.pdpt else 0#64 := by
  have distinct := image.distinct
  have aligned := image.aligned
  simp only [pageSize] at distinct aligned
  have apart (gib : Nat) (low : gib < 4) := ((statics_apart image).2 gib low).1
  unfold bootMemory
  rw [fill_directory_other image _ inside (apart 3 (by decide)),
    fill_directory_other image _ inside (apart 2 (by decide)),
    fill_directory_other image _ inside (apart 1 (by decide)),
    fill_directory_other image _ inside (apart 0 (by decide)),
    fill_table_other _ (by simp only [pageSize]; omega)]
  have start : image.pml4 / pageSize * 512 = image.pml4 / 8 := by
    simp only [pageSize]
    omega
  rw [start]
  unfold WordMemory.store
  split_ifs with first
  · rw [first, Nat.add_zero, Function.update_self]
  · rw [Function.update_of_ne (by omega)]
    apply zero_block_stays
    apply zero_block_stays
    refine if_pos ⟨by omega, ?_⟩
    simp only [pageSize]
    omega

theorem boot_pdpt_entry (image : KernelImage) (ram : WordMemory) {index : Nat}
    (inside : index < 512) :
    bootMemory image (zeroedStatics image ram) (image.pdpt / pageSize * 512 + index) =
      if index < 4 then kernelTableEntry (image.pd + index * pageSize) else 0#64 := by
  have distinct := image.distinct
  have aligned := image.aligned
  simp only [pageSize] at distinct aligned
  have apart (gib : Nat) (low : gib < 4) := ((statics_apart image).2 gib low).2
  unfold bootMemory
  rw [fill_directory_other image _ inside (apart 3 (by decide)),
    fill_directory_other image _ inside (apart 2 (by decide)),
    fill_directory_other image _ inside (apart 1 (by decide)),
    fill_directory_other image _ inside (apart 0 (by decide))]
  have start : image.pdpt / pageSize * 512 = image.pdpt / 8 := by
    simp only [pageSize]
    omega
  rw [start]
  split_ifs with low
  · exact fill_table_inside _ low
  · rw [fill_table_other _ (by omega)]
    unfold WordMemory.store
    rw [Function.update_of_ne (by omega)]
    apply zero_block_stays
    refine if_pos ⟨by omega, ?_⟩
    simp only [pageSize]
    omega

theorem boot_pd_entry (image : KernelImage) (ram : WordMemory) {gib index : Nat} (low : gib < 4)
    (inside : index < 512) :
    bootMemory image (zeroedStatics image ram) ((image.pd / pageSize + gib) * 512 + index) =
      identityEntry gib index := by
  unfold bootMemory
  obtain rfl | rfl | rfl | rfl : gib = 0 ∨ gib = 1 ∨ gib = 2 ∨ gib = 3 := by omega
  · rw [fill_directory_other image _ inside (by omega),
      fill_directory_other image _ inside (by omega),
      fill_directory_other image _ inside (by omega), fill_directory_inside image _ inside]
  · rw [fill_directory_other image _ inside (by omega),
      fill_directory_other image _ inside (by omega), fill_directory_inside image _ inside]
  · rw [fill_directory_other image _ inside (by omega), fill_directory_inside image _ inside]
  · exact fill_directory_inside image _ inside

theorem directory_page (image : KernelImage) {gib : Nat} (low : gib < 4) :
    PageAddress (image.pd + gib * pageSize) where
  aligned := directory_aligned image gib
  representable := by
    have inside := image.inside
    have bound := image.representable
    simp only [pageSize] at inside ⊢
    omega

theorem boot_owned {Store : Type} {image : KernelImage} (allocator : PageAllocator image Store)
    (ram : WordMemory) (store : Store) :
    SpaceOwned allocator (bootOwners image) (bootSpace image ram store) where
  held := fun _ known => .inr (boot_owned_in_image image known)
  kernel := boot_tables image
  entries := by
    intro frame tree level table index inside
    unfold bootSpace
    rw [init_memory]
    dsimp only
    obtain ⟨rfl, ⟨rfl, rfl⟩ | ⟨rfl, rfl⟩ | ⟨gib, low, rfl, rfl⟩⟩ := boot_owner_table image table
    · exact boot_pml4_entry image ram inside
    · rw [boot_pdpt_entry image ram inside]
      split_ifs with low
      · intro _
        have page := directory_page image low
        unfold kernelTableEntry frameOf
        rw [page.flag (by decide), page.entry_addr (by decide)]
        refine ⟨by decide, ?_⟩
        rw [show (image.pd + index * pageSize) / pageSize = image.pd / pageSize + index by
          simp only [pageSize]; omega]
        exact (boot_tables image).pd index low
      · exact leads_to_zero _ _
    · rw [boot_pd_entry image ram low inside]
      obtain ⟨present, huge⟩ := identity_entry_flags low inside
      refine ⟨present, fun small => ?_⟩
      rw [huge] at small
      cases small

end Ferrugem.KernelTablesBoot
