import Ferrugem.Library.TreeCopies
import Ferrugem.PageMapping

/-!
# Forked address spaces

`clone_user_page_table` of both architectures is the program `cloneTree` of the
library. The copy shows the same pages to the user, lies in frames that were not
in use, and shares the kernel's entries; the source is untouched. What is
written through one of the two trees afterwards is not seen through the other.
-/

namespace Ferrugem.ForkedSpaces

open Ferrugem.PagingModel Ferrugem.PageOwnership Ferrugem.Sv39Model Ferrugem.BitmapPages
open Ferrugem.HeapRegions Ferrugem.PageMapping RadixTables

set_option autoImplicit false

variable {Store : Type}

structure FaithfulCopy (allocator : FrameAllocator Store) (layout : TreeLayout) (source new : Nat)
    (space after : PhysicalSpace Store) : Prop where
  views : ∀ page, layout.IsUser page →
    pageSeen layout after.memory new page = pageSeen layout space.memory source page
  fresh : ∀ frame, ReachesFrame layout after.memory new frame →
    ¬allocator.InUse space.store frame ∧ ¬ReachesFrame layout space.memory source frame
  kernel : ∀ position, position < layout.firstUser →
    entryAt after.memory new position = entryAt space.memory source position
  unmodified : ∀ frame, allocator.InUse space.store frame → ∀ word, word < 512 →
    after.memory (frame * 512 + word) = space.memory (frame * 512 + word)
  sourceViews : ∀ page, layout.IsUser page →
    pageSeen layout after.memory source page = pageSeen layout space.memory source page
  writesToNew : ∀ memory, WordMemory.ChangesOnly
      (fun word => MapsFrame layout after.memory new (word / 512)) after.memory memory →
    ∀ page, layout.IsUser page →
      pageSeen layout memory source page = pageSeen layout after.memory source page
  writesToSource : ∀ memory, WordMemory.ChangesOnly
      (fun word => MapsFrame layout after.memory source (word / 512)) after.memory memory →
    ∀ page, layout.IsUser page →
      pageSeen layout memory new page = pageSeen layout after.memory new page

theorem word_frame {frame word : Nat} (inside : word < 512) : (frame * 512 + word) / 512 = frame := by
  omega

theorem faithful_of_copied {allocator : FrameAllocator Store} {layout : TreeLayout}
    {source new : Nat} {space after : PhysicalSpace Store}
    (formed : FormedIn (frameMachine allocator) layout source space)
    (tree : TreeCopied (frameMachine allocator) layout space source new after) :
    FaithfulCopy allocator layout source new space after := by
  have kept : ∀ frame, allocator.InUse space.store frame → ∀ word, word < 512 →
      after.memory (frame * 512 + word) = space.memory (frame * 512 + word) := tree.words
  have sourceViews : ∀ page, layout.IsUser page →
      layout.translate after.memory source page = layout.translate space.memory source page ∧
        pageSeen layout after.memory source page = pageSeen layout space.memory source page :=
    fun page isUser => view_of_agrees formed kept isUser
  refine ⟨fun page isUser => (tree.copied page isUser).seen, ?_, tree.kernel, kept,
    fun page isUser => (sourceViews page isUser).2, ?_, ?_⟩
  · intro frame reached
    have unused := tree.reached_fresh reached
    exact ⟨unused, fun old => unused (source_reached formed old)⟩
  · intro memory only page isUser
    rw [(sourceViews page isUser).2]
    apply (view_of_agrees formed ?_ isUser).2
    intro frame inUse word inside
    refine (only _ ?_).trans (kept frame inUse word inside)
    dsimp only
    rw [word_frame inside]
    exact fun mapped => tree.reached_fresh (.inr mapped) inUse
  · intro memory only page isUser
    have spared : ∀ frame, ¬allocator.InUse space.store frame → ∀ word, word < 512 →
        memory (frame * 512 + word) = after.memory (frame * 512 + word) := by
      intro frame unused word inside
      apply only
      dsimp only
      rw [word_frame inside]
      rintro ⟨other, found, otherUser, translated, rfl⟩
      rw [(sourceViews other otherUser).1] at translated
      exact unused (formed.leaves otherUser translated)
    have copied := tree.copied page isUser
    have copiedLater : Copied layout.format space.memory memory
        (fun frame => ¬allocator.InUse space.store frame) page layout.top source new := by
      apply copied.persists _ spared fun _ => id
      rw [entry_at_eq _ tree.aligned, entry_at_eq _ tree.aligned]
      exact spared _ tree.fresh _ (index_lt page _)
    exact copiedLater.seen.trans copied.seen.symm

theorem cloned_flags {address : Nat} (page : PageAddress address) (entry : Entry) :
    clonedEntry address entry &&& flagBits = entry &&& flagBits := by
  unfold clonedEntry
  rw [page.masked]
  exact low_bits_or (by rw [page.word]; exact page.aligned) (masked_flags_small entry)

theorem masked_flag {entry flag : Entry} (low : flagBits &&& flag = flag) :
    hasFlag (entry &&& flagBits) flag = hasFlag entry flag := by
  unfold hasFlag
  rw [BitVec.and_assoc, low]

theorem x86_cloned_decode {level address : Nat} (page : PageAddress address) (entry : Entry) :
    x86Decode level (clonedEntry address entry) =
      match x86Decode level entry with
      | .absent => .absent
      | .table _ => .table address
      | .leaf _ flags => .leaf address flags := by
  have present : hasFlag (clonedEntry address entry) pagePresent = hasFlag entry pagePresent := by
    rw [page.cloned_flag entry (by decide), masked_flag (by decide)]
  have huge : hasFlag (clonedEntry address entry) pageHuge = hasFlag entry pageHuge := by
    rw [page.cloned_flag entry (by decide), masked_flag (by decide)]
  unfold x86Decode
  rw [present, huge, page.cloned_addr, cloned_flags page]
  split_ifs <;> rfl

def x86Copy : CopyFormat where
  toTableFormat := x86Format
  copyTable := clonedEntry
  copyLeaf := clonedEntry
  table_copied := by
    intro level entry old new decoded aligned bounded
    change x86Decode (level + 1) entry = .table old at decoded
    change x86Decode (level + 1) (clonedEntry new entry) = .table new
    rw [x86_cloned_decode ⟨aligned, bounded⟩, decoded]
  flags_copied := fun {entry _} aligned bounded => cloned_flags ⟨aligned, bounded⟩ entry
  leaf_copied := by
    intro entry old flags new decoded aligned bounded
    change x86Decode 0 entry = .leaf old flags at decoded
    change x86Decode 0 (clonedEntry new entry) = .leaf new flags
    rw [x86_cloned_decode ⟨aligned, bounded⟩, decoded]
  leaf_aligned := by
    intro entry address flags decoded
    change x86Decode 0 entry = .leaf address flags at decoded
    unfold x86Decode at decoded
    split_ifs at decoded
    cases decoded
    exact entry_addr_aligned entry

theorem x86_copy_decode : x86Copy.decode = x86Decode := rfl

section

variable {image : KernelImage} (allocator : PageAllocator image Store)

theorem x86_alloc_page_eq :
    PagingModel.allocPages allocator 1 = allocFrame (frameMachine (frames allocator)) :=
  alloc_pages_eq (frames allocator)

theorem clone_leaf_eq :
    PagingModel.cloneLeaf allocator = cloneLast (frameMachine (frames allocator)) x86Copy := by
  funext source new position
  apply bind_congr
  intro entry
  cases present : hasFlag entry pagePresent with
  | false =>
      have decoded : x86Copy.decode 0 entry = .absent := by
        simp [x86_copy_decode, x86Decode, present]
      rw [decoded]
      rfl
  | true =>
      have decoded : x86Copy.decode 0 entry = .leaf (entryAddr entry) (entry &&& flagBits) := by
        simp [x86_copy_decode, x86Decode, present]
      rw [decoded, if_pos rfl, x86_alloc_page_eq]
      rfl

/-- The body of the two middle loops of `clone_user_page_table`. -/
def x86CloneMiddle (inner : Nat → Nat → Nat → Paging Store Unit) (source new position : Nat) :
    Paging Store Unit := do
  let entry ← PagingModel.readEntry source position
  if hasFlag entry pagePresent then
    if hasFlag entry pageHuge then PagingModel.writeEntry new position entry
    else
      let table ← PagingModel.allocZeroedPage allocator
      Fallible.forRange 512 (inner (entryAddr entry) table)
      PagingModel.writeEntry new position (clonedEntry table entry)
  else pure ()

theorem clone_middle_eq (inner : Nat → Nat → Nat → Paging Store Unit) (level : Nat)
    (upper : level ≠ 0) (low : level < 3) :
    x86CloneMiddle allocator inner =
      cloneUpper (frameMachine (frames allocator)) x86Copy level inner := by
  funext source new position
  apply bind_congr
  intro entry
  cases present : hasFlag entry pagePresent with
  | false =>
      have decoded : x86Copy.decode level entry = .absent := by
        simp [x86_copy_decode, x86Decode, present]
      rw [decoded]
      rfl
  | true =>
      cases huge : hasFlag entry pageHuge with
      | true =>
          have decoded : x86Copy.decode level entry =
              .leaf (entryAddr entry) (entry &&& flagBits) := by
            simp [x86_copy_decode, x86Decode, present, huge, low]
          rw [decoded]
          rfl
      | false =>
          have decoded : x86Copy.decode level entry = .table (entryAddr entry) := by
            simp [x86_copy_decode, x86Decode, present, huge, upper]
          rw [decoded, if_pos rfl, if_neg (by decide), x86_alloc_zeroed_page_eq]
          apply bind_congr
          intro table
          apply bind_congr
          intro _
          rfl

theorem clone_pml4_eq :
    PagingModel.clonePml4 allocator =
      cloneUpper (frameMachine (frames allocator)) x86Copy 3 (PagingModel.clonePdpt allocator) := by
  funext source new position
  apply bind_congr
  intro entry
  cases present : hasFlag entry pagePresent with
  | false =>
      have decoded : x86Copy.decode 3 entry = .absent := by
        simp [x86_copy_decode, x86Decode, present]
      rw [decoded]
      rfl
  | true =>
      have decoded : x86Copy.decode 3 entry = .table (entryAddr entry) := by
        simp [x86_copy_decode, x86Decode, present]
      rw [decoded, if_pos rfl, x86_alloc_zeroed_page_eq]
      apply bind_congr
      intro table
      apply bind_congr
      intro _
      rfl

theorem clone_levels_eq :
    PagingModel.clonePml4 allocator =
      cloneEntry (frameMachine (frames allocator)) x86Copy 3 := by
  have pd : PagingModel.clonePd allocator = _ :=
    clone_middle_eq allocator (PagingModel.cloneLeaf allocator) 1 (by decide)
      (by decide)
  have pdpt : PagingModel.clonePdpt allocator = _ :=
    clone_middle_eq allocator (PagingModel.clonePd allocator) 2 (by decide)
      (by decide)
  rw [clone_pml4_eq, pdpt, pd, clone_leaf_eq]
  rfl

theorem x86_clone_eq (source : Nat) :
    PagingModel.cloneUserPageTable allocator source =
      cloneTree (frameMachine (frames allocator)) x86Copy 3 1 source := by
  have share : ∀ new, Fallible.forRange 1 (shareEntry (frameMachine (frames allocator)) source new) =
      shareEntry (frameMachine (frames allocator)) source new 0 := by
    intro new
    rw [Fallible.for_range_succ, Fallible.for_range_zero]
    rfl
  have count : 512 - 1 = 511 := rfl
  unfold PagingModel.cloneUserPageTable cloneTree allocRoot
  simp only [clone_levels_eq, x86_alloc_zeroed_page_eq, share, count]
  exact (Fallible.bind_return _ (fun new => shareEntry (frameMachine (frames allocator)) source
    new 0) _).symm

end

def sv39Copy : CopyFormat where
  toTableFormat := sv39Format
  copyTable := fun new _ => ppnBits new ||| pageV
  copyLeaf := fun new entry => ppnBits new ||| (entry &&& entryFlags)
  table_copied := fun {level} _ _ _ _ aligned bounded => sv39Format.linked level aligned bounded
  flags_copied := fun _ _ => rfl
  leaf_copied := by
    intro entry old flags new decoded aligned bounded
    have wide : new < 2 ^ 64 := lt_of_lt_of_le bounded (by decide)
    have small : (entry &&& entryFlags).toNat < 2 ^ 10 := by
      rw [entry_flags_and]
      exact Nat.mod_lt _ (by decide)
    have copied := ppn_bits_flags wide small
    have target : entryTarget (ppnBits new ||| (entry &&& entryFlags)) = new := by
      rw [ppn_bits_target wide small]
      omega
    have present : hasFlag (ppnBits new ||| (entry &&& entryFlags)) pageV = hasFlag entry pageV := by
      rw [has_low_flag (by decide), copied, ← has_low_flag (by decide)]
    change sv39Decode 0 entry = .leaf old flags at decoded
    change sv39Decode 0 (ppnBits new ||| (entry &&& entryFlags)) = .leaf new flags
    unfold sv39Decode at decoded ⊢
    rw [present, copied, target]
    simp only [true_or, if_true] at decoded ⊢
    split_ifs at decoded ⊢
    cases decoded
    rfl
  leaf_aligned := by
    intro entry address flags decoded
    change sv39Decode 0 entry = .leaf address flags at decoded
    unfold sv39Decode at decoded
    split_ifs at decoded
    cases decoded
    exact entry_target_aligned entry

theorem sv39_copy_decode : sv39Copy.decode = sv39Decode := rfl

section

variable (allocator : FrameAllocator Store)

theorem clone_l0_eq :
    Sv39Model.cloneLeaf allocator = cloneLast (frameMachine allocator) sv39Copy := by
  funext source new position
  apply bind_congr
  intro entry
  cases present : hasFlag entry pageV with
  | false =>
      have decoded : sv39Copy.decode 0 entry = .absent := by
        simp [sv39_copy_decode, sv39Decode, present]
      rw [decoded]
      rfl
  | true =>
      have decoded : sv39Copy.decode 0 entry =
          .leaf (entryTarget entry) (entry &&& entryFlags) := by
        simp [sv39_copy_decode, sv39Decode, present]
      rw [decoded, if_pos rfl, alloc_pages_eq]
      rfl

def sv39CloneUpper (inner : Nat → Nat → Nat → Paging Store Unit) (source new position : Nat) :
    Paging Store Unit := do
  let entry ← PagingModel.readEntry source position
  if hasFlag entry pageV then
    if hasFlag entry pageRwx then PagingModel.writeEntry new position entry
    else
      let table ← Sv39Model.allocZeroedPage allocator
      Fallible.forRange 512 (inner (entryTarget entry) table)
      PagingModel.writeEntry new position (ppnBits table ||| pageV)
  else pure ()

theorem clone_upper_eq (inner : Nat → Nat → Nat → Paging Store Unit) (level : Nat)
    (upper : level ≠ 0) :
    sv39CloneUpper allocator inner =
      cloneUpper (frameMachine allocator) sv39Copy level inner := by
  funext source new position
  apply bind_congr
  intro entry
  cases present : hasFlag entry pageV with
  | false =>
      have decoded : sv39Copy.decode level entry = .absent := by
        simp [sv39_copy_decode, sv39Decode, present]
      rw [decoded]
      rfl
  | true =>
      cases leaf : hasFlag entry pageRwx with
      | true =>
          have decoded : sv39Copy.decode level entry =
              .leaf (entryTarget entry) (entry &&& entryFlags) := by
            simp [sv39_copy_decode, sv39Decode, present, leaf]
          rw [decoded]
          rfl
      | false =>
          have decoded : sv39Copy.decode level entry = .table (entryTarget entry) := by
            simp [sv39_copy_decode, sv39Decode, present, leaf, upper]
          rw [decoded, if_pos rfl, if_neg (by decide), alloc_zeroed_page_eq]
          apply bind_congr
          intro table
          apply bind_congr
          intro _
          rfl

theorem clone_sv39_levels_eq :
    Sv39Model.cloneRoot allocator = cloneEntry (frameMachine allocator) sv39Copy 2 := by
  have l1 : Sv39Model.cloneL1 allocator = _ :=
    clone_upper_eq allocator (Sv39Model.cloneLeaf allocator) 1 (by decide)
  have root : Sv39Model.cloneRoot allocator = _ :=
    clone_upper_eq allocator (Sv39Model.cloneL1 allocator) 2 (by decide)
  rw [root, l1, clone_l0_eq]
  rfl

theorem share_kernel_eq (source new : Nat) :
    shareKernel source new =
      Fallible.forRange 4 (shareEntry (frameMachine allocator) source new) := rfl

theorem sv39_clone_eq (source : Nat) :
    Sv39Model.cloneUserPageTable allocator source =
      cloneTree (frameMachine allocator) sv39Copy 2 4 source := by
  have count : 512 - 4 = 508 := rfl
  unfold Sv39Model.cloneUserPageTable cloneTree
  rw [clone_sv39_levels_eq, alloc_zeroed_page_eq, count]
  apply bind_congr
  intro new
  rw [share_kernel_eq allocator]

end

/-- The call returns nothing, or a faithful and independent copy. -/
def ClonesFaithfully (allocator : FrameAllocator Store) (layout : TreeLayout) (source : Nat)
    (call : Paging Store Nat) (space : PhysicalSpace Store) : Prop :=
  ∀ new after, call space = (some new, after) →
    FaithfulCopy allocator layout source new space after

/-- On both architectures, for every well-formed source tree whose user pages
are all small: a root that `clone_user_page_table` returns is a faithful and
independent copy. -/
theorem clone_user_page_table_faithful :
    (∀ (Store : Type) (image : KernelImage) (allocator : PageAllocator image Store)
        (space : PhysicalSpace Store) (source : Nat),
      FormedIn (frameMachine (frames allocator)) x86Layout source space →
      x86Layout.OnlySmallPages space.memory source →
      ClonesFaithfully (frames allocator) x86Layout source
        (PagingModel.cloneUserPageTable allocator source) space) ∧
    (∀ (Store : Type) (allocator : FrameAllocator Store) (space : PhysicalSpace Store)
        (source : Nat),
      FormedIn (frameMachine allocator) sv39Layout source space →
      sv39Layout.OnlySmallPages space.memory source →
      ClonesFaithfully allocator sv39Layout source
        (Sv39Model.cloneUserPageTable allocator source) space) := by
  constructor
  · intro Store image allocator space source formed small new after returned
    rw [x86_clone_eq] at returned
    have ends := clone_tree_ends x86Copy (by decide) formed small
      ⟨512 ^ 3, (by decide : 512 ^ 3 < 512 ^ 4), (by decide : 1 ≤ index (512 ^ 3) 3)⟩
    exact faithful_of_copied formed (ends.1 new after returned)
  · intro Store allocator space source formed small new after returned
    rw [sv39_clone_eq] at returned
    have ends := clone_tree_ends sv39Copy (by decide) formed small
      ⟨4 * 512 ^ 2, (by decide : 4 * 512 ^ 2 < 512 ^ 3), (by decide : 4 ≤ index (4 * 512 ^ 2) 2)⟩
    exact faithful_of_copied formed (ends.1 new after returned)

/-- A tree with one page, which is mapped to the first frame of the image. -/
def mappedX86 : PhysicalSpace (PageSupply smallImage) :=
  (PagingModel.mapUserPage (PageSupply.pageAllocator smallImage) 0x106000 userBaseVa 0x100000
    protUser emptyX86).2

theorem mapped_x86_maps :
    Maps (frameMachine (frames (PageSupply.pageAllocator smallImage))) x86Layout 0x106000
      (userBaseVa / 4096) (0x100000 / 4096) (PagingModel.leafFlags protUser) emptyX86
      mappedX86 := by
  have ends := x86_realises_one_page (PageSupply.pageAllocator smallImage) protUser
    (by decide : userBaseVa < 2 ^ 48) (by decide : 0x100000 < 2 ^ 64) empty_x86_formed
  have returned : (PagingModel.mapUserPage (PageSupply.pageAllocator smallImage) 0x106000
      userBaseVa 0x100000 protUser emptyX86).1 = some () := by decide +kernel
  exact ends.1 () _ (Prod.ext returned rfl)

theorem mapped_x86_formed :
    FormedIn (frameMachine (frames (PageSupply.pageAllocator smallImage))) x86Layout 0x106000
      mappedX86 := by
  apply mapped_x86_maps.formed
  · exact .inr ⟨by decide, by decide⟩
  · intro page level table _ meets
    obtain ⟨_, rfl⟩ := TreeLayout.meets_empty_root empty_x86_absent meets
    decide

/-- The copy of the one page. -/
theorem one_page_forked :
    ∃ new after, PagingModel.cloneUserPageTable (PageSupply.pageAllocator smallImage) 0x106000
        mappedX86 = (some new, after) ∧
      FaithfulCopy (frames (PageSupply.pageAllocator smallImage)) x86Layout 0x106000 new mappedX86
        after := by
  have returned : (PagingModel.cloneUserPageTable (PageSupply.pageAllocator smallImage) 0x106000
      mappedX86).1 = some 0x10A000 := by decide +kernel
  refine ⟨0x10A000, _, Prod.ext returned rfl, ?_⟩
  exact clone_user_page_table_faithful.1 _ _ (PageSupply.pageAllocator smallImage) mappedX86 0x106000
    mapped_x86_formed (mapped_x86_maps.small (TreeLayout.only_small_empty_root empty_x86_absent)) _ _
    (Prod.ext returned rfl)

end Ferrugem.ForkedSpaces
