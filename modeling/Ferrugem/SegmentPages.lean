import Ferrugem.ElfAccesses
import Ferrugem.PageMapping

/-!
# The pages of a loaded segment

For every file that `load` accepts, the pages that it maps for a segment are the
pages of the segment's memory, each once and with the segment's protection. When
a page is mapped, it holds the part of the file that belongs there, and zeros.
-/

namespace Ferrugem.SegmentPages

open Ferrugem.PagingModel Ferrugem.ElfLoaderModel Ferrugem.SegmentLoading Ferrugem.ElfAccesses
open Ferrugem.BitmapPages Ferrugem.HeapRegions Ferrugem.PageMapping Fallible

set_option autoImplicit false

structure MappedPage (Store : Type) where
  va : Nat
  page : Nat
  prot : BitVec 32
  space : PhysicalSpace Store

/-- The pages that were mapped for the program header with the number, each with
the state in which `map_user_page` was called. -/
def mappedPages {Store : Type} (i : Nat) (log : List (Access Store)) : List (MappedPage Store) :=
  log.filterMap fun
    | .map header va page prot space => if header = i then some ⟨va, page, prot, space⟩ else none
    | _ => none

def programHeader (data : Bytes) (header : ElfHeader) (i : Nat) : ProgramHeader :=
  readProgramHeader data (headerOffset header i)

def IsLoaded (ph : ProgramHeader) : Prop := ph.kind = ptLoad ∧ ph.memsz ≠ 0

section

variable {image : KernelImage} {Store : Type} (allocator : PageAllocator image Store)
  (data : Bytes) (pt bias : Nat) (ph : ProgramHeader)

/-- The byte with the number in the segment is at the address `p_vaddr + bias`
plus the number. -/
structure PageBuilt (mapped : MappedPage Store) : Prop where
  succeeds : (mapUserPage allocator pt mapped.va mapped.page mapped.prot mapped.space).1 = some ()
  prot : mapped.prot = pfToProt ph.flags
  copied : ∀ k offset, k < ph.filesz → offset < pageSize →
    mapped.va + offset = biased bias ph.vaddr + k →
    data[ph.offset + k]? = some (mapped.space.memory.loadByte (mapped.page + offset))
  cleared : ∀ offset, offset < pageSize →
    (∀ k, k < ph.filesz → mapped.va + offset ≠ biased bias ph.vaddr + k) →
    mapped.space.memory.loadByte (mapped.page + offset) = 0

structure SegmentBuilt (pages : List (MappedPage Store)) : Prop where
  covers : ∀ va, va ∈ pages.map MappedPage.va ↔ va % pageSize = 0 ∧
    biased bias ph.vaddr < va + pageSize ∧ va < biased bias ph.vaddr + ph.memsz
  once : (pages.map MappedPage.va).Nodup
  built : ∀ mapped ∈ pages, PageBuilt allocator data pt bias ph mapped

/-- The segment has its pages, unless it is empty or not to be loaded. -/
def SegmentDone (pages : List (MappedPage Store)) : Prop :=
  (IsLoaded ph → SegmentBuilt allocator data pt bias ph pages) ∧ (¬IsLoaded ph → pages = [])

/-- The image that `load` has built from the file with the header. -/
structure ImageBuilt (header : ElfHeader) (log : List (Access Store)) (loaded : LoadedImage) :
    Prop where
  segments : ∀ i, i < header.phnum →
    SegmentDone allocator data pt bias (programHeader data header i) (mappedPages i log)
  entry : loaded.entry = biased bias header.entry
  lowest : header.etype = etDyn → ∀ i, i < header.phnum →
    (programHeader data header i).kind = ptLoad →
    (∀ j, j < header.phnum → (programHeader data header j).kind = ptLoad →
      pageStart (programHeader data header i).vaddr ≤
        pageStart (programHeader data header j).vaddr) →
    pageStart (biased bias (programHeader data header i).vaddr) = userBaseVa
  heapAligned : loaded.heapStart % pageSize = 0
  heapAbove : ∀ i, i < header.phnum → (programHeader data header i).kind = ptLoad →
    ∀ k, k < (programHeader data header i).memsz →
      biased bias (programHeader data header i).vaddr + k < loaded.heapStart

end

section

variable {data : Bytes} {bias : Nat} {ph : ProgramHeader} {segment : Segment}

theorem pages_cover (checked : SegmentChecked data bias ph segment) (va : Nat) :
    va ∈ (List.range segment.pages).map (pageVa segment) ↔ va % pageSize = 0 ∧
      biased bias ph.vaddr < va + pageSize ∧ va < biased bias ph.vaddr + ph.memsz := by
  have last := checked.pageEnd
  rw [← checked.segVa]
  simp only [List.mem_map, List.mem_range]
  unfold Segment.pages pageVa
  unfold pageStart pageSize at *
  constructor
  · rintro ⟨pi, below, rfl⟩
    omega
  · rintro ⟨aligned, after, before⟩
    refine ⟨(va - segment.segVa / 4096 * 4096) / 4096, ?_, ?_⟩ <;> omega

theorem pages_once (segment : Segment) :
    ((List.range segment.pages).map (pageVa segment)).Nodup := by
  apply List.Nodup.map _ List.nodup_range
  intro first second same
  unfold pageVa pageSize at same
  omega

theorem content_copied (checked : SegmentChecked data bias ph segment)
    (short : data.length < 2 ^ 63) (sized : ph.filesz ≤ ph.memsz) {va k : Nat}
    (below : k < ph.filesz) (position : va = biased bias ph.vaddr + k) :
    data[ph.offset + k]? = some (contentAt segment data va) := by
  have backed := checked.backed (short.trans (by decide))
  have inside := checked.inside
  have fits : (segment.segVa + segment.filesz) % wordLimit = segment.segVa + segment.filesz := by
    rw [checked.filesz]
    exact Nat.mod_eq_of_lt (by omega)
  unfold contentAt
  rw [fits, checked.filesz, checked.offset, ← checked.segVa] at *
  have source : va - segment.segVa = k := by omega
  rw [if_pos (by omega), source, List.getD_eq_getElem?_getD, List.getElem?_eq_getElem (by omega)]
  rfl

theorem content_cleared (checked : SegmentChecked data bias ph segment) {va : Nat}
    (outside : ∀ k, k < ph.filesz → va ≠ biased bias ph.vaddr + k) :
    contentAt segment data va = 0 := by
  have wrapped := Nat.mod_le (segment.segVa + segment.filesz) wordLimit
  have filesz := checked.filesz
  apply if_neg
  rintro ⟨after, before⟩
  apply outside (va - segment.segVa)
  · omega
  · rw [← checked.segVa]
    omega

variable {image : KernelImage} {Store : Type} {allocator : PageAllocator image Store} {pt : Nat}

/-- A page that was filled from the segment is as `load` is to build it. -/
theorem page_built (checked : SegmentChecked data bias ph segment) (short : data.length < 2 ^ 63)
    (sized : ph.filesz ≤ ph.memsz) {mapped : MappedPage Store} {memory : WordMemory}
    (inside : mapped.va + pageSize < wordLimit) (aligned : mapped.page % pageSize = 0)
    (filled : mapped.space.memory = filledPage segment data mapped.va mapped.page memory)
    (prot : mapped.prot = segment.prot)
    (succeeds : (mapUserPage allocator pt mapped.va mapped.page mapped.prot mapped.space).1 =
      some ()) : PageBuilt allocator data pt bias ph mapped := by
  refine ⟨succeeds, prot.trans checked.prot, ?_, ?_⟩
  · intro k offset copied below position
    rw [filled, filled_page_byte checked short memory aligned inside below]
    exact content_copied checked short sized copied position
  · intro offset below outside
    rw [filled, filled_page_byte checked short memory aligned inside below]
    exact content_cleared checked outside

end

section

variable {Store : Type}

def Access.IsRead : Access Store → Prop
  | .read _ => True
  | _ => False

theorem mapped_pages_append (i : Nat) (first second : List (Access Store)) :
    mappedPages i (first ++ second) = mappedPages i first ++ mappedPages i second :=
  List.filterMap_append

theorem mapped_pages_reads {i : Nat} {start later : Recorded (PhysicalSpace Store) (Access Store)}
    (added : Added Access.IsRead start later) :
    mappedPages i later.log = mappedPages i start.log := by
  obtain ⟨reads, log, only⟩ := added
  have none : mappedPages i reads = [] := by
    apply List.filterMap_eq_nil_iff.mpr
    intro access member
    cases access with
    | read index => rfl
    | copy source length target page allocated => exact absurd (only _ member) id
    | map header va page prot mapped => exact absurd (only _ member) id
  rw [log, mapped_pages_append, none, List.append_nil]

theorem mapped_pages_copies (i : Nat) (segment : Segment) (va page : Nat)
    (allocated : PhysicalSpace Store) : mappedPages i (copiesOf segment va page allocated) = [] := by
  unfold copiesOf
  split <;> rfl

end

section

variable {image : KernelImage} {Store : Type} {allocator : PageAllocator image Store}
  {file : Slice} {pt bias : Nat}

/-- The pages were filled from the segment and mapped in the order of the page
loop. -/
structure PagesFrom (allocator : PageAllocator image Store) (data : Bytes) (pt : Nat)
    (segment : Segment) (count : Nat) (pages : List (MappedPage Store)) : Prop where
  vas : pages.map MappedPage.va = (List.range count).map (pageVa segment)
  filled : ∀ mapped ∈ pages, mapped.page % pageSize = 0 ∧ mapped.prot = segment.prot ∧
    (mapUserPage allocator pt mapped.va mapped.page mapped.prot mapped.space).1 = some () ∧
    ∃ memory, mapped.space.memory = filledPage segment data mapped.va mapped.page memory

theorem alloc_pages_aligned {space : PhysicalSpace Store} {page : Nat}
    (allocated : (allocPages allocator 1 space).1 = some page) : page % pageSize = 0 := by
  unfold allocPages at allocated
  split at allocated
  · rename_i taken
    cases allocated
    exact allocator.aligned taken
  · cases allocated

theorem PagesFrom.snoc {data : Bytes} {segment : Segment} {count : Nat}
    {pages : List (MappedPage Store)} (made : PagesFrom allocator data pt segment count pages)
    {before : PhysicalSpace Store} {page : Nat} {space : PhysicalSpace Store}
    (allocated : (allocPages allocator 1 before).1 = some page)
    (filled : space.memory = filledPage segment data (pageVa segment count) page before.memory)
    (mapped : (mapUserPage allocator pt (pageVa segment count) page segment.prot space).1 =
      some ()) :
    PagesFrom allocator data pt segment (count + 1)
      (pages ++ [⟨pageVa segment count, page, segment.prot, space⟩]) := by
  constructor
  · rw [List.map_append, made.vas, List.range_succ, List.map_append]
    rfl
  · intro other member
    rcases List.mem_append.mp member with earlier | last
    · exact made.filled other earlier
    · rw [List.mem_singleton.mp last]
      exact ⟨alloc_pages_aligned allocated, rfl, mapped, _, filled⟩

theorem recorded_pages_ends (i : Nat) (segment : Segment)
    (start : Recorded (PhysicalSpace Store) (Access Store)) :
    Ends (forRange segment.pages (recordedPage file.bytes allocator pt i segment)) start
      (fun _ later =>
        (∃ pages, PagesFrom allocator file.bytes pt segment segment.pages pages ∧
          mappedPages i later.log = mappedPages i start.log ++ pages) ∧
        ∀ j, j ≠ i → mappedPages j later.log = mappedPages j start.log)
      (fun _ => True) := by
  apply @ends_for_range _ start _ _ _ fun count later =>
    (∃ pages, PagesFrom allocator file.bytes pt segment count pages ∧
      mappedPages i later.log = mappedPages i start.log ++ pages) ∧
    ∀ j, j ≠ i → mappedPages j later.log = mappedPages j start.log
  · exact ⟨⟨[], ⟨rfl, nofun⟩, (List.append_nil _).symm⟩, fun _ _ => rfl⟩
  · rintro count later - ⟨⟨pages, made, here⟩, others⟩
    apply ends_mono (recorded_page_ends i segment count later)
    · rintro _ last ⟨page, space, allocated, filled, mapped, log⟩
      refine ⟨⟨_, made.snoc allocated filled mapped, ?_⟩, ?_⟩
      · rw [log, mapped_pages_append, mapped_pages_append, mapped_pages_copies, here,
          List.append_nil, List.append_assoc]
        simp [mappedPages]
      · intro j other
        rw [log, mapped_pages_append, mapped_pages_append, mapped_pages_copies, others j other]
        simp [mappedPages, other.symm]
    · exact fun _ _ => trivial

structure SegmentMapped (allocator : PageAllocator image Store) (data : Bytes) (pt bias : Nat)
    (ph : ProgramHeader) (high : Nat) (before after : List (MappedPage Store)) : Prop where
  skipped : ¬IsLoaded ph → after = before
  loaded : IsLoaded ph → ∃ segment pages, segmentOf data bias ph = some segment ∧
    PagesFrom allocator data pt segment segment.pages pages ∧ after = before ++ pages ∧
    segment.pageEnd ≤ high

structure SegmentsMapped (allocator : PageAllocator image Store) (data : Bytes)
    (header : ElfHeader) (pt bias : Nat) (indices : List Nat) (maxVa high : Nat)
    (start later : List (Access Store)) : Prop where
  each : ∀ i ∈ indices, SegmentMapped allocator data pt bias (programHeader data header i) high
    (mappedPages i start) (mappedPages i later)
  others : ∀ i, i ∉ indices → mappedPages i later = mappedPages i start
  above : maxVa ≤ high
  aligned : maxVa % pageSize = 0 → high % pageSize = 0

variable {header : ElfHeader} {indices : List Nat} {i maxVa middle high : Nat}

theorem SegmentMapped.mono {data : Bytes} {ph : ProgramHeader}
    {before after : List (MappedPage Store)}
    (mapped : SegmentMapped allocator data pt bias ph middle before after) (up : middle ≤ high) :
    SegmentMapped allocator data pt bias ph high before after where
  skipped := mapped.skipped
  loaded := by
    intro isLoaded
    obtain ⟨segment, pages, made, filled, appended, below⟩ := mapped.loaded isLoaded
    exact ⟨segment, pages, made, filled, appended, below.trans up⟩

theorem SegmentsMapped.cons {data : Bytes} {start reached later : List (Access Store)}
    (new : i ∉ indices)
    (first : SegmentsMapped allocator data header pt bias [i] maxVa middle start reached)
    (rest : SegmentsMapped allocator data header pt bias indices middle high reached later) :
    SegmentsMapped allocator data header pt bias (i :: indices) maxVa high start later where
  each := by
    intro j member
    rcases List.mem_cons.mp member with rfl | later
    · rw [rest.others j new]
      exact (first.each j (List.mem_singleton.mpr rfl)).mono rest.above
    · have other : j ∉ [i] := by
        rintro same
        exact new (List.mem_singleton.mp same ▸ later)
      rw [← first.others j other]
      exact rest.each j later
  others := by
    intro j outside
    rw [List.mem_cons, not_or] at outside
    rw [rest.others j outside.2, first.others j (by simpa using outside.1)]
  above := first.above.trans rest.above
  aligned := fun aligned => rest.aligned (first.aligned aligned)

theorem segments_mapped_reads {data : Bytes}
    {start later : Recorded (PhysicalSpace Store) (Access Store)}
    (added : Added Access.IsRead start later)
    (skipped : ∀ i ∈ indices, ¬IsLoaded (programHeader data header i)) :
    SegmentsMapped allocator data header pt bias indices maxVa maxVa start.log later.log where
  each := fun i member =>
    ⟨fun _ => mapped_pages_reads added, fun loaded => absurd loaded (skipped i member)⟩
  others := fun _ _ => mapped_pages_reads added
  above := le_rfl
  aligned := id

theorem recorded_segment_ends
    (inside : headerOffset header i + phdrMinSize ≤ file.bytes.length)
    (start : Recorded (PhysicalSpace Store) (Access Store)) :
    Ends (recordedSegment file.bytes header allocator pt bias maxVa i) start
      (fun high later => SegmentsMapped allocator file.bytes header pt bias [i] maxVa high start.log
        later.log)
      (fun _ => True) := by
  have reads : ∀ index, index < file.bytes.length →
      Access.IsRead (.read index : Access Store) := fun _ _ => trivial
  have short := file.short
  unfold phdrMinSize at inside
  have limit : headerOffset header i + 56 ≤ wordLimit := by
    unfold wordLimit
    omega
  unfold recordedSegment
  apply ends_bind_value (Added.refl Access.IsRead start) (read_word32_erases (by omega))
    (read_word32_logs reads (by omega))
  intro _ _ added
  by_cases load : rd32 file.bytes (headerOffset header i) = ptLoad
  · rw [if_neg (not_not.mpr load)]
    apply ends_bind_value added (read_word64_erases (by omega)) (read_word64_logs reads (by omega))
    intro _ _ added
    apply ends_bind_value added (read_word64_erases (by omega)) (read_word64_logs reads (by omega))
    intro _ _ added
    apply ends_bind_value added (read_word64_erases (by omega)) (read_word64_logs reads (by omega))
    intro _ _ added
    apply ends_bind_value added (read_word64_erases (by omega)) (read_word64_logs reads (by omega))
    intro _ _ added
    apply ends_bind_value added (read_word32_erases (by omega)) (read_word32_logs reads (by omega))
    intro now _ added
    by_cases empty : rd64 file.bytes (headerOffset header i + 40) = 0
    · rw [if_pos empty]
      apply ends_pure
      apply segments_mapped_reads added
      intro j member loaded
      rw [List.mem_singleton.mp member] at loaded
      exact loaded.2 empty
    · rw [if_neg empty]
      split
      · exact ends_fail trivial
      · rename_i segment made
        apply ends_bind (recorded_pages_ends i segment now)
        rintro _ later ⟨⟨pages, filled, here⟩, others⟩
        apply ends_pure
        refine ⟨?_, ?_, le_max_left _ _, ?_⟩
        · intro j member
          rw [List.mem_singleton.mp member]
          refine ⟨fun skipped => absurd ⟨load, empty⟩ skipped, fun _ => ?_⟩
          rw [here, mapped_pages_reads added]
          exact ⟨segment, pages, made, filled, rfl, le_max_right _ _⟩
        · intro j other
          rw [others j (by simpa using other), mapped_pages_reads added]
        · intro aligned
          rw [(segment_of_checked made).pageEnd]
          unfold pageStart pageSize at *
          omega
  · rw [if_pos load]
    apply ends_pure
    apply segments_mapped_reads added
    intro j member loaded
    rw [List.mem_singleton.mp member] at loaded
    exact load loaded.1

theorem recorded_segments_ends (fit : HeadersFit header indices file.bytes.length)
    (once : indices.Nodup) (start : Recorded (PhysicalSpace Store) (Access Store)) :
    Ends (recordedSegments file.bytes header allocator pt bias indices maxVa) start
      (fun high later => SegmentsMapped allocator file.bytes header pt bias indices maxVa high
        start.log later.log)
      (fun _ => True) := by
  induction indices generalizing maxVa start with
  | nil => exact ends_pure (segments_mapped_reads (Added.refl Access.IsRead start) nofun)
  | cons i rest ih =>
      unfold recordedSegments at ih ⊢
      rw [List.foldlM_cons]
      apply ends_bind (recorded_segment_ends (fit i List.mem_cons_self) start)
      intro middle reached first
      apply ends_mono (ih fit.tail once.of_cons reached)
      · exact fun _ _ second => first.cons (List.nodup_cons.mp once).1 second
      · exact fun _ _ => trivial

end

theorem lowest_fold {headers : List ProgramHeader} {low lowest : Nat}
    (fold : headers.foldl
      (fun low ph =>
        if ph.kind = ptLoad ∧ pageStart ph.vaddr < low then pageStart ph.vaddr else low)
      low = lowest) :
    lowest ≤ low ∧ (∀ ph ∈ headers, ph.kind = ptLoad → lowest ≤ pageStart ph.vaddr) ∧
      (lowest = low ∨ ∃ ph ∈ headers, ph.kind = ptLoad ∧ pageStart ph.vaddr = lowest) := by
  induction headers generalizing low with
  | nil => exact ⟨fold.ge, nofun, .inl fold.symm⟩
  | cons ph rest ih =>
      rw [List.foldl_cons] at fold
      by_cases lower : ph.kind = ptLoad ∧ pageStart ph.vaddr < low
      · rw [if_pos lower] at fold
        obtain ⟨below, all, found⟩ := ih fold
        refine ⟨below.trans lower.2.le, List.forall_mem_cons.mpr ⟨fun _ => below, all⟩, .inr ?_⟩
        rcases found with same | ⟨other, member, found⟩
        · exact ⟨ph, List.mem_cons_self, lower.1, same.symm⟩
        · exact ⟨other, List.mem_cons_of_mem ph member, found⟩
      · rw [if_neg lower] at fold
        obtain ⟨below, all, found⟩ := ih fold
        have higher : ph.kind = ptLoad → lowest ≤ pageStart ph.vaddr := fun load =>
          below.trans (Nat.le_of_not_lt fun less => lower ⟨load, less⟩)
        refine ⟨below, List.forall_mem_cons.mpr ⟨higher, all⟩, ?_⟩
        rcases found with same | ⟨other, member, found⟩
        · exact .inl same
        · exact .inr ⟨other, List.mem_cons_of_mem ph member, found⟩

/-- A lowest page of a position-independent executable lands at `USER_BASE_VA`. -/
theorem lowest_lands {header : ElfHeader} {headers : List ProgramHeader} {ph : ProgramHeader}
    (dynamic : header.etype = etDyn) (some : minLoadVa headers ≠ wordLimit - 1)
    (member : ph ∈ headers) (load : ph.kind = ptLoad)
    (lowest : ∀ other ∈ headers, other.kind = ptLoad →
      pageStart ph.vaddr ≤ pageStart other.vaddr) :
    pageStart (biased (loadBias header (minLoadVa headers)) ph.vaddr) = userBaseVa := by
  obtain ⟨below, all, found⟩ := lowest_fold (rfl : _ = minLoadVa headers)
  have minimum : minLoadVa headers = pageStart ph.vaddr := by
    apply Nat.le_antisymm (all ph member load)
    rcases found with same | ⟨other, otherMember, otherLoad, at'⟩
    · exact absurd same some
    · exact (lowest other otherMember otherLoad).trans at'.le
  rw [minimum] at below ⊢
  unfold biased loadBias
  rw [if_pos dynamic]
  unfold pageStart userBaseVa wordLimit pageSize at *
  omega

section

variable {image : KernelImage} {Store : Type} {allocator : PageAllocator image Store}
  {file : Slice} {pt : Nat} {space : PhysicalSpace Store} {plan : LoadPlan} {header : ElfHeader}

theorem program_header_mem {data : Bytes} {ph : ProgramHeader} :
    ph ∈ programHeaders data header ↔ ∃ i, i < header.phnum ∧ programHeader data header i = ph := by
  unfold programHeaders
  simp only [List.mem_map, List.mem_range]
  rfl

theorem recorded_load_ends (planned : loadPlan file.bytes = some plan) :
    Ends (recordedLoad file.bytes allocator pt) ⟨space, []⟩
      (fun loaded later => ∃ high, loaded = plan.image high ∧
        SegmentsMapped allocator file.bytes plan.header pt plan.bias
          (List.range plan.header.phnum) 0 high [] later.log)
      (fun _ => True) := by
  have checked := (plan_checked planned).header
  have erases := @recorded_plan_erases Store file.bytes
  rw [planned] at erases
  unfold recordedLoad
  apply ends_bind_value (Added.refl Access.IsRead _) erases
    (recorded_plan_logs fun _ _ => trivial)
  intro now _ added
  have fit := HeadersFit.of_checked checked checked.fits
  apply ends_bind (recorded_segments_ends fit List.nodup_range now)
  intro high later mapped
  have none : ∀ i, mappedPages i now.log = [] := fun i => mapped_pages_reads added
  have each := mapped.each
  have others := mapped.others
  simp only [none] at each others
  exact ends_pure ⟨high, rfl, each, others, mapped.above, mapped.aligned⟩

theorem segment_done {bias high : Nat} {ph : ProgramHeader} {pages : List (MappedPage Store)}
    (sized : ph.kind = ptLoad → ph.filesz ≤ ph.memsz)
    (mapped : SegmentMapped allocator file.bytes pt bias ph high [] pages) :
    SegmentDone allocator file.bytes pt bias ph pages := by
  refine ⟨fun loaded => ?_, mapped.skipped⟩
  obtain ⟨segment, filled, made, from', same, _⟩ := mapped.loaded loaded
  rw [List.nil_append] at same
  subst same
  have checked := segment_of_checked made
  refine ⟨?_, ?_, ?_⟩
  · rw [from'.vas]
    exact pages_cover checked
  · rw [from'.vas]
    exact pages_once segment
  · intro page member
    obtain ⟨aligned, prot, succeeds, memory, filled⟩ := from'.filled page member
    have isPage : page.va ∈ (List.range segment.pages).map (pageVa segment) := by
      rw [← from'.vas]
      exact List.mem_map_of_mem member
    obtain ⟨pi, below, va⟩ := List.mem_map.mp isPage
    have inside := checked.page_inside (List.mem_range.mp below)
    rw [va] at inside
    exact page_built checked file.short (sized loaded.1) (by omega) aligned filled prot succeeds

theorem image_built {high : Nat} {log : List (Access Store)} (checked : PlanChecked file.bytes plan)
    (sized : ∀ i, i < plan.header.phnum → (programHeader file.bytes plan.header i).kind = ptLoad →
      (programHeader file.bytes plan.header i).filesz ≤
        (programHeader file.bytes plan.header i).memsz)
    (mapped : SegmentsMapped allocator file.bytes plan.header pt plan.bias
      (List.range plan.header.phnum) 0 high [] log) :
    ImageBuilt allocator file.bytes pt plan.bias plan.header log (plan.image high) where
  segments := fun i below => segment_done (sized i below) (mapped.each i (List.mem_range.mpr below))
  entry := rfl
  lowest := by
    intro dynamic i below load lowest
    rw [checked.bias]
    apply lowest_lands dynamic checked.lowest (program_header_mem.mpr ⟨i, below, rfl⟩) load
    intro other member
    obtain ⟨j, inside, rfl⟩ := program_header_mem.mp member
    exact lowest j inside
  heapAligned := mapped.aligned rfl
  heapAbove := by
    intro i below load k inside
    obtain ⟨segment, _, made, _, _, reached⟩ :=
      (mapped.each i (List.mem_range.mpr below)).loaded ⟨load, by omega⟩
    have checked := segment_of_checked made
    have last := checked.pageEnd
    rw [← checked.segVa]
    change _ < high
    unfold pageStart pageSize at last
    omega

end

/-- For every file that `load` accepts, if no segment has more bytes in the file
than in memory: the loader builds the image as its program headers say. -/
theorem load_builds_image {image : KernelImage} {Store : Type}
    (allocator : PageAllocator image Store) (file : Slice) (pt : Nat)
    (space : PhysicalSpace Store) {header : ElfHeader} {loaded : LoadedImage}
    (read : readHeader file.bytes = some header)
    (loads : (load allocator file.bytes pt space).1 = some loaded)
    (sized : ∀ i, i < header.phnum → (programHeader file.bytes header i).kind = ptLoad →
      (programHeader file.bytes header i).filesz ≤ (programHeader file.bytes header i).memsz) :
    let recorded := recordedLoad file.bytes allocator pt ⟨space, []⟩
    load allocator file.bytes pt space = (recorded.1, recorded.2.state) ∧
      ImageBuilt allocator file.bytes pt
        (loadBias header (minLoadVa (programHeaders file.bytes header))) header recorded.2.log
        loaded := by
  intro recorded
  obtain ⟨result, state⟩ := @recorded_load_erases _ file.bytes _ allocator pt ⟨space, []⟩
  refine ⟨Prod.ext result.symm state.symm, ?_⟩
  rw [load_eq_plan] at loads result
  cases planned : loadPlan file.bytes with
  | none =>
      rw [planned] at loads
      cases loads
  | some plan =>
      have checked := plan_checked planned
      obtain rfl : plan.header = header := Option.some.inj (checked.read.symm.trans read)
      rw [planned] at loads result
      have returns : recorded = (some loaded, recorded.2) := Prod.ext (result.trans loads) rfl
      obtain ⟨high, rfl, mapped⟩ := (recorded_load_ends planned).1 loaded _ returns
      rw [← checked.bias]
      exact image_built checked sized mapped

deriving instance DecidableEq for ElfHeader

/-- A position-independent executable whose one segment, the file itself, starts
in the middle of a page and ends in the middle of the next. -/
def crossingElf : Slice where
  bytes :=
    [0x7F, 0x45, 0x4C, 0x46, 2, 1, 1, 0, 0, 0, 0, 0, 0, 0, 0, 0,
      3, 0, 0x3E, 0, 1, 0, 0, 0, 0, 8, 0, 0, 0, 0, 0, 0,
      64, 0, 0, 0, 0, 0, 0, 0, 0, 0, 0, 0, 0, 0, 0, 0,
      0, 0, 0, 0, 64, 0, 56, 0, 1, 0, 0, 0, 0, 0, 0, 0,
      1, 0, 0, 0, 5, 0, 0, 0, 0, 0, 0, 0, 0, 0, 0, 0,
      0, 8, 0, 0, 0, 0, 0, 0, 0, 8, 0, 0, 0, 0, 0, 0,
      120, 0, 0, 0, 0, 0, 0, 0, 0, 0x10, 0, 0, 0, 0, 0, 0,
      0, 0x10, 0, 0, 0, 0, 0, 0]
  short := by decide

def crossingHeader : ElfHeader where
  etype := 3
  entry := 0x800
  phoff := 64
  phentsize := 56
  phnum := 1

/-- Its two pages are mapped at `USER_BASE_VA`, and its heap starts after them. -/
theorem crossing_elf_built :
    ∃ loaded, (load (PageSupply.pageAllocator smallImage) crossingElf.bytes 0x106000
        emptyX86).1 = some loaded ∧ loaded.heapStart = userBaseVa + 2 * pageSize ∧
      ImageBuilt (PageSupply.pageAllocator smallImage) crossingElf.bytes 0x106000 userBaseVa
        crossingHeader
        (recordedLoad crossingElf.bytes (PageSupply.pageAllocator smallImage) 0x106000
          ⟨emptyX86, []⟩).2.log loaded := by
  have returns : ((load (PageSupply.pageAllocator smallImage) crossingElf.bytes 0x106000
      emptyX86).1.map LoadedImage.heapStart) = some (userBaseVa + 2 * pageSize) := by
    decide +kernel
  obtain ⟨loaded, loads, heapStart⟩ := Option.map_eq_some_iff.mp returns
  refine ⟨loaded, loads, heapStart, ?_⟩
  have read : readHeader crossingElf.bytes = some crossingHeader := by decide +kernel
  have sized : ∀ i, i < crossingHeader.phnum →
      (programHeader crossingElf.bytes crossingHeader i).kind = ptLoad →
      (programHeader crossingElf.bytes crossingHeader i).filesz ≤
        (programHeader crossingElf.bytes crossingHeader i).memsz := by decide +kernel
  exact (load_builds_image (PageSupply.pageAllocator smallImage) crossingElf 0x106000 emptyX86 read
    loads sized).2

end Ferrugem.SegmentPages
