import Ferrugem.SegmentLoading
import Ferrugem.PageMapping
import Ferrugem.Library.PageContents

/-!
# Segments over each other

What the segment loop of `load` does to the bytes that a program can read: the
pages of a segment replace whatever pages were mapped at their addresses. The
page tables look at the low 48 bits of an address only.
-/

namespace Ferrugem.SegmentOverlays

open Ferrugem.PagingModel Ferrugem.ElfLoaderModel Ferrugem.SegmentLoading Ferrugem.PageMapping
open RadixTables Fallible

set_option autoImplicit false

def IsCanonical (va : Nat) : Prop := va < 2 ^ 47 ∨ 2 ^ 64 - 2 ^ 47 ≤ va ∧ va < 2 ^ 64

instance decidableIsCanonical (va : Nat) : Decidable (IsCanonical va) :=
  inferInstanceAs (Decidable (_ ∨ _))

def lowByte (memory : WordMemory) (root low : Nat) : Option (BitVec 8) :=
  (x86Layout.translate memory root (low / 4096)).map fun found =>
    memory.loadByte (found.frame * 4096 + low % 4096)

/-- The byte that a program reads at the address, which must be canonical and in
the user's part of the address space. -/
def userByte (memory : WordMemory) (root va : Nat) : Option (BitVec 8) :=
  if IsCanonical va ∧ va / 2 ^ 39 % 512 ≠ 0 then lowByte memory root (va % 2 ^ 48) else none

theorem contents_byte (memory : WordMemory) (found : Translation) {offset : Nat}
    (below : offset < 4096) :
    WordMemory.loadByte (contentsOf memory found).2 offset =
      memory.loadByte (found.frame * 4096 + offset) := by
  have word : found.frame * 512 + offset / 8 % 512 = (found.frame * 4096 + offset) / 8 := by omega
  have position : offset % 8 = (found.frame * 4096 + offset) % 8 := by omega
  unfold WordMemory.loadByte contentsOf
  dsimp only
  rw [word, position]

theorem low_byte_view (memory : WordMemory) (root low : Nat) :
    lowByte memory root low = (pageView x86Layout memory root (low / 4096)).map fun view =>
      WordMemory.loadByte view.2 (low % 4096) := by
  unfold lowByte pageView
  cases x86Layout.translate memory root (low / 4096) with
  | none => rfl
  | some found =>
      simp only [Option.map_some]
      rw [contents_byte memory found (Nat.mod_lt _ (by decide))]

theorem low_user {low : Nat} (small : low < 2 ^ 48) (user : low / 2 ^ 39 % 512 ≠ 0) :
    x86Layout.IsUser (low / 4096) := by
  constructor
  · change low / 4096 < 512 ^ 4
    omega
  · change 1 ≤ index (low / 4096) 3
    rw [index_va low 3]
    omega

variable {image : KernelImage} {Store : Type} {allocator : PageAllocator image Store}

theorem map_user_page_low (allocator : PageAllocator image Store) (pt va pa : Nat)
    (prot : BitVec 32) :
    mapUserPage allocator pt va pa prot = mapUserPage allocator pt (va % 2 ^ 48) pa prot := by
  have four : va % 2 ^ 48 / 2 ^ 39 % 512 = va / 2 ^ 39 % 512 := by omega
  have three : va % 2 ^ 48 / 2 ^ 30 % 512 = va / 2 ^ 30 % 512 := by omega
  have two : va % 2 ^ 48 / 2 ^ 21 % 512 = va / 2 ^ 21 % 512 := by omega
  have one : va % 2 ^ 48 / 2 ^ 12 % 512 = va / 2 ^ 12 % 512 := by omega
  unfold mapUserPage
  rw [four, three, two, one]

abbrev Formed (allocator : PageAllocator image Store) (pt : Nat) (space : PhysicalSpace Store) :
    Prop :=
  FormedIn (frameMachine (frames allocator)) x86Layout pt space

variable {data : Bytes} {bias pt : Nat} {ph : ProgramHeader} {segment : Segment}

theorem filled_page_changes (checked : SegmentChecked data bias ph segment)
    (short : data.length < 2 ^ 63) {va page : Nat} (aligned : page % pageSize = 0)
    (memory : WordMemory) :
    WordMemory.ChangesOnly (WordMemory.inBlock page pageSize) memory
      (filledPage segment data va page memory) := by
  intro word outside
  unfold filledPage
  rw [fill_eq]
  cases window : copyWindow segment va with
  | none => exact WordMemory.zero_block_changes memory page pageSize word outside
  | some copied =>
      obtain ⟨offset, source, length⟩ := copied
      obtain ⟨inPage, _⟩ := copy_window_inside checked short window
      have taken := List.length_take_le length (data.drop source)
      dsimp only [Option.map]
      rw [WordMemory.store_bytes_changes _ _ _ word]
      · exact WordMemory.zero_block_changes memory page pageSize word outside
      · unfold WordMemory.inBlock at outside
        unfold pageSize at *
        omega

theorem page_filled (checked : SegmentChecked data bias ph segment) (short : data.length < 2 ^ 63)
    {space taken filled : PhysicalSpace Store} {va page : Nat}
    (formed : Formed allocator pt space)
    (outcome : (frameMachine (frames allocator)).alloc space = some (page, taken))
    (store : filled.store = taken.store)
    (memory : filled.memory = filledPage segment data va page space.memory) :
    Formed allocator pt filled ∧ Untabled x86Layout filled.memory pt (page / 4096) ∧
      ∀ other, x86Layout.IsUser other →
        pageView x86Layout filled.memory pt other = pageView x86Layout space.memory pt other := by
  have aligned := (frameMachine (frames allocator)).aligned outcome
  have unused := (frameMachine (frames allocator)).unused outcome
  have grows := (frameMachine (frames allocator)).kept outcome
  have inUse : (frameMachine (frames allocator)).InUse filled =
      (frameMachine (frames allocator)).InUse taken := congrArg (frames allocator).InUse store
  have agrees : ∀ frame, (frameMachine (frames allocator)).InUse space frame → ∀ word, word < 512 →
      filled.memory (frame * 512 + word) = space.memory (frame * 512 + word) := by
    intro frame inUse word inside
    have other : frame ≠ page / 4096 := by
      rintro rfl
      exact unused inUse
    rw [memory]
    apply filled_page_changes checked short aligned
    unfold WordMemory.inBlock pageSize at *
    omega
  obtain ⟨kept, _, meets, _⟩ := TreeLayout.Formed.change_unused formed (by decide) agrees
  refine ⟨?_, ?_, ?_⟩
  · unfold Formed FormedIn
    rw [inUse]
    exact TreeLayout.Formed.mono kept grows
  · intro other level table isPage visited same
    apply unused
    rw [same]
    exact formed.tables isPage ((meets isPage).mp visited)
  · exact fun other isUser => congrArg Prod.snd (view_of_agrees formed agrees isUser).2

/-- The page at the address has the contents of the frame, and the other pages
of the user have the contents they had. -/
theorem map_user_page_views {space : PhysicalSpace Store} (formed : Formed allocator pt space)
    {va pa : Nat} (prot : BitVec 32) (bounded : pa < 2 ^ 64)
    (inUse : (frameMachine (frames allocator)).InUse space (pa / 4096))
    (untabled : Untabled x86Layout space.memory pt (pa / 4096)) :
    Ends (mapUserPage allocator pt va pa prot) space
      (fun _ later => Formed allocator pt later ∧ va / 2 ^ 39 % 512 ≠ 0 ∧
        ∀ other, x86Layout.IsUser other → pageView x86Layout later.memory pt other =
          if other = va % 2 ^ 48 / 4096 then
            some (contentsOf space.memory ⟨pa / 4096, leafFlags prot⟩)
          else pageView x86Layout space.memory pt other)
      (fun _ => True) := by
  rw [map_user_page_low]
  by_cases kernel : va % 2 ^ 48 / 2 ^ 39 % 512 = 0
  · unfold mapUserPage
    rw [if_pos kernel]
    exact ends_fail trivial
  · have isUser : x86Layout.IsUser (va % 2 ^ 48 / 4096) :=
      low_user (Nat.mod_lt _ (by decide)) kernel
    rw [x86_map_user_page_eq allocator pt _ pa prot kernel]
    rw [← leaf_frame_page pa (va % 2 ^ 48 / 4096)] at inUse untabled ⊢
    apply ends_mono (map_page_views (by decide) formed isUser (x86_leaf_decoded bounded prot) inUse
      untabled)
    · rintro _ later ⟨kept, views⟩
      exact ⟨kept, by omega, views⟩
    · exact fun _ _ => trivial

structure PageLoaded (allocator : PageAllocator image Store) (data : Bytes) (pt : Nat)
    (segment : Segment) (va : Nat) (space later : PhysicalSpace Store) : Prop where
  formed : Formed allocator pt later
  user : va / 2 ^ 39 % 512 ≠ 0
  views : ∃ page, page % pageSize = 0 ∧ ∀ other, x86Layout.IsUser other →
    pageView x86Layout later.memory pt other =
      if other = va % 2 ^ 48 / 4096 then
        some (contentsOf (filledPage segment data va page space.memory)
          ⟨page / 4096, leafFlags segment.prot⟩)
      else pageView x86Layout space.memory pt other

theorem map_filled_ends (checked : SegmentChecked data bias ph segment)
    (short : data.length < 2 ^ 63) {space taken filled : PhysicalSpace Store} {va page : Nat}
    (formed : Formed allocator pt space)
    (outcome : (frameMachine (frames allocator)).alloc space = some (page, taken))
    (store : filled.store = taken.store)
    (memory : filled.memory = filledPage segment data va page space.memory) :
    Ends (mapUserPage allocator pt va page segment.prot) filled
      (fun _ later => PageLoaded allocator data pt segment va space later) (fun _ => True) := by
  obtain ⟨kept, untabled, views⟩ := page_filled checked short formed outcome store memory
  have bounded := (frameMachine (frames allocator)).bounded outcome
  have inUse : (frameMachine (frames allocator)).InUse filled (page / 4096) := by
    have inUse := (frameMachine (frames allocator)).taken outcome
    change (frames allocator).InUse filled.store (page / 4096)
    rw [store]
    exact inUse
  apply ends_mono (map_user_page_views kept segment.prot (by omega) inUse untabled)
  · rintro _ later ⟨formed, user, after⟩
    refine ⟨formed, user, page, (frameMachine (frames allocator)).aligned outcome, ?_⟩
    intro other isUser
    rw [after other isUser, views other isUser, memory]
  · exact fun _ _ => trivial

theorem load_page_ends (checked : SegmentChecked data bias ph segment)
    (short : data.length < 2 ^ 63) {space : PhysicalSpace Store} (formed : Formed allocator pt space)
    (pi : Nat) :
    Ends (loadPage allocator data pt segment pi) space
      (fun _ later => PageLoaded allocator data pt segment (pageVa segment pi) space later)
      (fun _ => True) := by
  unfold loadPage pageVa
  generalize pageStart segment.segVa + pi * pageSize = va
  rw [x86_alloc_zeroed_page_eq]
  apply ends_bind (@alloc_table_ends _ _ space (fun _ => True) trivial)
  rintro page _ ⟨taken, outcome, rfl⟩
  have same : taken.memory = space.memory :=
    (frameMachine (frames allocator)).memory_alloc outcome
  cases fill : segment.fill data va with
  | none =>
      dsimp only
      apply map_filled_ends checked short formed outcome
      · rfl
      · unfold filledPage
        rw [fill, ← same]
        rfl
  | some copied =>
      obtain ⟨offset, bytes⟩ := copied
      apply ends_bind_modify
      apply map_filled_ends checked short formed outcome
      · rfl
      · unfold filledPage
        rw [fill, ← same]
        rfl

variable {space later : PhysicalSpace Store} {va : Nat}

theorem PageLoaded.hit (loaded : PageLoaded allocator data pt segment va space later)
    (checked : SegmentChecked data bias ph segment) (short : data.length < 2 ^ 63)
    (aligned : va % pageSize = 0) (inside : va + pageSize < wordLimit) {offset : Nat}
    (below : offset < pageSize) :
    lowByte later.memory pt ((va + offset) % 2 ^ 48) =
      some (contentAt segment data (va + offset)) := by
  obtain ⟨page, pageAligned, views⟩ := loaded.views
  have user := loaded.user
  unfold pageSize at aligned below pageAligned
  have onPage : (va + offset) % 2 ^ 48 / 4096 = va % 2 ^ 48 / 4096 := by omega
  have inPage : (va + offset) % 2 ^ 48 % 4096 = offset := by omega
  have start : page / 4096 * 4096 = page := by omega
  rw [low_byte_view, onPage, inPage, views _ (low_user (Nat.mod_lt _ (by decide)) (by omega)),
    if_pos rfl, Option.map_some, contents_byte _ _ below, start,
    filled_page_byte checked short space.memory pageAligned inside below]

theorem PageLoaded.miss (loaded : PageLoaded allocator data pt segment va space later) {low : Nat}
    (small : low < 2 ^ 48) (user : low / 2 ^ 39 % 512 ≠ 0) (other : low / 4096 ≠ va % 2 ^ 48 / 4096) :
    lowByte later.memory pt low = lowByte space.memory pt low := by
  obtain ⟨page, _, views⟩ := loaded.views
  rw [low_byte_view, low_byte_view, views _ (low_user small user), if_neg other]

structure PagesLoaded (allocator : PageAllocator image Store) (data : Bytes) (pt : Nat)
    (segment : Segment) (space : PhysicalSpace Store) (count : Nat)
    (later : PhysicalSpace Store) : Prop where
  formed : Formed allocator pt later
  user : ∀ pi, pi < count → pageVa segment pi / 2 ^ 39 % 512 ≠ 0
  hit : ∀ pi, pi < count → ∀ offset, offset < pageSize →
    lowByte later.memory pt ((pageVa segment pi + offset) % 2 ^ 48) =
      some (contentAt segment data (pageVa segment pi + offset))
  miss : ∀ low, low < 2 ^ 48 → low / 2 ^ 39 % 512 ≠ 0 →
    (∀ pi, pi < count → low / 4096 ≠ pageVa segment pi % 2 ^ 48 / 4096) →
    lowByte later.memory pt low = lowByte space.memory pt low

theorem page_va_aligned (segment : Segment) (pi : Nat) : pageVa segment pi % pageSize = 0 := by
  unfold pageVa pageStart pageSize
  omega

theorem pages_apart {first second : Nat} (before : first < second)
    (user : ∀ pi, pi ≤ second → pageVa segment pi / 2 ^ 39 % 512 ≠ 0) :
    pageVa segment first % 2 ^ 48 / 4096 ≠ pageVa segment second % 2 ^ 48 / 4096 := by
  intro same
  have between := user (first + (2 ^ 36 - pageVa segment first / 4096 % 2 ^ 36) % 2 ^ 36)
  unfold pageVa pageStart pageSize at *
  omega

theorem PagesLoaded.snoc {reached : PhysicalSpace Store} {count : Nat}
    (loaded : PagesLoaded allocator data pt segment space count reached)
    (checked : SegmentChecked data bias ph segment) (short : data.length < 2 ^ 63)
    (below : count < segment.pages)
    (page : PageLoaded allocator data pt segment (pageVa segment count) reached later) :
    PagesLoaded allocator data pt segment space (count + 1) later := by
  obtain ⟨inside, limit⟩ := checked.page_inside below
  have aligned := page_va_aligned segment count
  have user : ∀ pi, pi < count + 1 → pageVa segment pi / 2 ^ 39 % 512 ≠ 0 := by
    intro pi earlier
    rcases Nat.lt_succ_iff_lt_or_eq.mp earlier with old | rfl
    · exact loaded.user pi old
    · exact page.user
  refine ⟨page.formed, user, ?_, ?_⟩
  · intro pi earlier offset inPage
    rcases Nat.lt_succ_iff_lt_or_eq.mp earlier with old | rfl
    · rw [← loaded.hit pi old offset inPage]
      have apart := pages_apart old fun pi before => user pi (by omega)
      have own := loaded.user pi old
      have aligned := page_va_aligned segment pi
      unfold pageSize at aligned inPage
      apply page.miss (Nat.mod_lt _ (by decide))
      · omega
      · omega
    · exact page.hit checked short aligned (by omega) inPage
  · intro low small isUser others
    rw [page.miss small isUser (others count (Nat.lt_succ_self count))]
    exact loaded.miss low small isUser fun pi old => others pi (by omega)

theorem pages_loaded_ends (checked : SegmentChecked data bias ph segment)
    (short : data.length < 2 ^ 63) (formed : Formed allocator pt space) :
    Ends (forRange segment.pages (loadPage allocator data pt segment)) space
      (fun _ later => PagesLoaded allocator data pt segment space segment.pages later)
      (fun _ => True) := by
  apply @ends_for_range _ space _ _ _ (PagesLoaded allocator data pt segment space)
  · exact ⟨formed, nofun, nofun, fun _ _ _ _ => rfl⟩
  · intro count reached below loaded
    apply ends_mono (load_page_ends checked short loaded.formed count)
    · exact fun _ later page => loaded.snoc checked short below page
    · exact fun _ _ => trivial

def Covers (segment : Segment) (address : Nat) : Prop :=
  pageStart segment.segVa ≤ address ∧ address < segment.pageEnd

structure Overlays (data : Bytes) (pt : Nat) (segment : Segment) (before after : WordMemory) :
    Prop where
  user : ∀ address, Covers segment address → address / 2 ^ 39 % 512 ≠ 0
  new : ∀ address, Covers segment address →
    lowByte after pt (address % 2 ^ 48) = some (contentAt segment data address)
  old : ∀ low, low < 2 ^ 48 → low / 2 ^ 39 % 512 ≠ 0 →
    (∀ address, Covers segment address → address % 2 ^ 48 ≠ low) →
    lowByte after pt low = lowByte before pt low

theorem covers_page (checked : SegmentChecked data bias ph segment) {address : Nat}
    (covers : Covers segment address) :
    ∃ pi offset, pi < segment.pages ∧ offset < pageSize ∧ address = pageVa segment pi + offset := by
  have last := checked.pageEnd
  obtain ⟨after, before⟩ := covers
  refine ⟨(address - pageStart segment.segVa) / pageSize, address % pageSize, ?_, ?_, ?_⟩
  · unfold Segment.pages
    unfold pageStart pageSize at *
    omega
  · exact Nat.mod_lt _ (by decide)
  · unfold pageVa
    unfold pageStart pageSize at *
    omega

theorem PagesLoaded.overlays (checked : SegmentChecked data bias ph segment)
    (loaded : PagesLoaded allocator data pt segment space segment.pages later) :
    Overlays data pt segment space.memory later.memory := by
  refine ⟨?_, ?_, ?_⟩
  · intro address covers
    obtain ⟨pi, offset, below, inPage, rfl⟩ := covers_page checked covers
    have own := loaded.user pi below
    have aligned := page_va_aligned segment pi
    unfold pageSize at aligned inPage
    omega
  · intro address covers
    obtain ⟨pi, offset, below, inPage, rfl⟩ := covers_page checked covers
    exact loaded.hit pi below offset inPage
  · intro low small isUser outside
    apply loaded.miss low small isUser
    intro pi below same
    obtain ⟨inside, _⟩ := checked.page_inside below
    have covers : Covers segment (pageVa segment pi + low % 4096) := by
      unfold Covers
      unfold pageVa pageSize at *
      omega
    have aligned := page_va_aligned segment pi
    unfold pageSize at aligned
    refine outside _ covers ?_
    omega

end Ferrugem.SegmentOverlays
