import Ferrugem.AddressSpaceSafety

/-!
# One segment of an ELF file

The segment loop of `load` as one computation for each program header, and what
the checks of `load` say about the header, a segment and the window of the file
that is copied into a page.
-/

namespace Ferrugem.SegmentLoading

open Ferrugem.PagingModel Ferrugem.ElfLoaderModel

set_option autoImplicit false

/-- The checks at the head of `load`. -/
structure HeaderChecked (data : Bytes) (header : ElfHeader) : Prop where
  long : ehdrMinSize ≤ data.length
  phentsize : phdrMinSize ≤ header.phentsize
  phnum : header.phnum ≠ 0
  fits : header.phoff + header.phnum * header.phentsize ≤ data.length
  inside : header.phoff + header.phnum * header.phentsize < wordLimit

theorem read_header_checked {data : Bytes} {header : ElfHeader}
    (read : readHeader data = some header) : HeaderChecked data header := by
  unfold readHeader at read
  dsimp only at read
  split_ifs at read with elf small wraps short
  cases read
  simp only [isElf, Bool.not_eq_true, Bool.not_eq_false', Bool.and_eq_true, decide_eq_true_eq]
    at elf
  refine ⟨elf.1.1.1, ?_, ?_, ?_, ?_⟩ <;> dsimp only <;> omega

def headerOffset (header : ElfHeader) (i : Nat) : Nat := header.phoff + i * header.phentsize

theorem HeaderChecked.header_inside {data : Bytes} {header : ElfHeader}
    (checked : HeaderChecked data header) {i : Nat} (below : i < header.phnum) :
    headerOffset header i + phdrMinSize ≤ header.phoff + header.phnum * header.phentsize := by
  have next : (i + 1) * header.phentsize ≤ header.phnum * header.phentsize :=
    Nat.mul_le_mul_right _ below
  rw [Nat.succ_mul] at next
  have large := checked.phentsize
  unfold headerOffset
  omega

theorem phdr_va_cons (header : ElfHeader) (ph : ProgramHeader) (rest : List ProgramHeader)
    (bias : Nat) :
    phdrVa header (ph :: rest) bias =
      if ph.kind = ptPhdr then biased bias ph.vaddr else phdrVa header rest bias := by
  unfold phdrVa
  by_cases found : ph.kind = ptPhdr
  · simp [found]
  · simp [found, beq_eq_false_iff_ne.mpr found]

structure SegmentChecked (data : Bytes) (bias : Nat) (ph : ProgramHeader) (segment : Segment) :
    Prop where
  segVa : segment.segVa = biased bias ph.vaddr
  pageEnd : segment.pageEnd = pageStart (segment.segVa + ph.memsz + 0xFFF)
  filesz : segment.filesz = ph.filesz
  offset : segment.offset = ph.offset
  prot : segment.prot = pfToProt ph.flags
  inside : segment.segVa + ph.memsz + 0xFFF < wordLimit
  backed : data.length < wordLimit - 1 → ph.offset + ph.filesz ≤ data.length

theorem segment_of_checked {data : Bytes} {bias : Nat} {ph : ProgramHeader} {segment : Segment}
    (made : segmentOf data bias ph = some segment) : SegmentChecked data bias ph segment := by
  unfold segmentOf at made
  dsimp only at made
  split_ifs at made with short wraps
  cases made
  refine ⟨rfl, rfl, rfl, rfl, rfl, ?_, ?_⟩
  · dsimp only
    omega
  · intro representable
    omega

def pageVa (segment : Segment) (pi : Nat) : Nat := pageStart segment.segVa + pi * pageSize

theorem SegmentChecked.page_inside {data : Bytes} {bias : Nat} {ph : ProgramHeader}
    {segment : Segment} (checked : SegmentChecked data bias ph segment) {pi : Nat}
    (below : pi < segment.pages) :
    pageVa segment pi + pageSize ≤ segment.pageEnd ∧ segment.pageEnd < wordLimit := by
  have inside := checked.inside
  have last := checked.pageEnd
  unfold Segment.pages at below
  unfold pageVa
  unfold pageStart pageSize at *
  omega

/-- Where in the page, from where in the file and how many bytes the page loop
copies. -/
def copyWindow (segment : Segment) (pageVa : Nat) : Option (Nat × Nat × Nat) :=
  let low := max pageVa segment.segVa
  let high := min ((pageVa + pageSize) % wordLimit) ((segment.segVa + segment.filesz) % wordLimit)
  if low < high then
    some (low - pageVa, (segment.offset + (low - segment.segVa)) % wordLimit, high - low)
  else none

theorem fill_eq (segment : Segment) (data : Bytes) (pageVa : Nat) :
    segment.fill data pageVa = (copyWindow segment pageVa).map fun window =>
      (window.1, (data.drop window.2.1).take window.2.2) := by
  unfold Segment.fill copyWindow
  dsimp only
  split_ifs <;> rfl

theorem copy_window_inside {data : Bytes} {bias : Nat} {ph : ProgramHeader} {segment : Segment}
    (checked : SegmentChecked data bias ph segment) (short : data.length < 2 ^ 63)
    {pageVa offset source length : Nat}
    (window : copyWindow segment pageVa = some (offset, source, length)) :
    offset + length ≤ pageSize ∧ source + length ≤ data.length := by
  have backed := checked.backed (short.trans (by decide))
  have inside := checked.inside
  unfold copyWindow at window
  rw [checked.filesz, checked.offset] at window
  dsimp only at window
  split_ifs at window with copies
  cases window
  have page := Nat.mod_le (pageVa + pageSize) wordLimit
  unfold wordLimit at *
  omega

def filledPage (segment : Segment) (data : Bytes) (va page : Nat) (memory : WordMemory) :
    WordMemory :=
  match segment.fill data va with
  | some (offset, bytes) => (memory.zeroBlock page pageSize).storeBytes (page + offset) bytes
  | none => memory.zeroBlock page pageSize

/-- The byte that a page of the segment holds for the address. -/
def contentAt (segment : Segment) (data : Bytes) (va : Nat) : BitVec 8 :=
  if segment.segVa ≤ va ∧ va < (segment.segVa + segment.filesz) % wordLimit then
    data.getD (segment.offset + (va - segment.segVa)) 0
  else 0

theorem get_drop_take {data : Bytes} {source length k : Nat} (below : k < length) :
    ((data.drop source).take length).getD k 0 = data.getD (source + k) 0 := by
  rw [List.getD_eq_getElem?_getD, List.getD_eq_getElem?_getD, List.getElem?_take_of_lt below,
    List.getElem?_drop]

theorem filled_page_byte {data : Bytes} {bias : Nat} {ph : ProgramHeader} {segment : Segment}
    (checked : SegmentChecked data bias ph segment) (short : data.length < 2 ^ 63)
    {va page offset : Nat} (memory : WordMemory) (aligned : page % pageSize = 0)
    (inside : va + pageSize < wordLimit) (below : offset < pageSize) :
    WordMemory.loadByte (filledPage segment data va page memory) (page + offset) =
      contentAt segment data (va + offset) := by
  have backed := checked.backed (short.trans (by decide))
  have cleared : WordMemory.loadByte (memory.zeroBlock page pageSize) (page + offset) = 0 :=
    WordMemory.load_byte_zero_block memory (by unfold pageSize at aligned; omega) (by decide)
      (Nat.le_add_right _ _) (by omega)
  have pageEnd := Nat.mod_eq_of_lt inside
  have segmentEnd := Nat.mod_le (segment.segVa + segment.filesz) wordLimit
  rw [← checked.filesz, ← checked.offset] at backed
  unfold filledPage
  rw [fill_eq]
  unfold copyWindow contentAt
  rw [pageEnd]
  generalize (segment.segVa + segment.filesz) % wordLimit = fileEnd at *
  dsimp only
  by_cases copies : max va segment.segVa < min (va + pageSize) fileEnd
  · have source : (segment.offset + (max va segment.segVa - segment.segVa)) % wordLimit =
        segment.offset + (max va segment.segVa - segment.segVa) :=
      Nat.mod_eq_of_lt (by unfold wordLimit; omega)
    have length : ((data.drop (segment.offset + (max va segment.segVa - segment.segVa))).take
        (min (va + pageSize) fileEnd - max va segment.segVa)).length =
        min (va + pageSize) fileEnd - max va segment.segVa := by
      rw [List.length_take, List.length_drop]
      omega
    rw [if_pos copies, source]
    dsimp only [Option.map]
    rw [WordMemory.load_byte_store_bytes, length, cleared]
    by_cases covered : segment.segVa ≤ va + offset ∧ va + offset < fileEnd
    · have position : segment.offset + (max va segment.segVa - segment.segVa) +
          (page + offset - (page + (max va segment.segVa - va))) =
          segment.offset + (va + offset - segment.segVa) := by omega
      rw [if_pos (by omega), if_pos covered, get_drop_take (by omega), position]
    · rw [if_neg (by omega), if_neg covered]
  · rw [if_neg copies, if_neg (by omega)]
    exact cleared

/-- What `load` has computed when its segment loop begins. -/
structure LoadPlan where
  header : ElfHeader
  bias : Nat
  phdrVa : Nat

def LoadPlan.image (plan : LoadPlan) (maxVa : Nat) : LoadedImage where
  entry := biased plan.bias plan.header.entry
  heapStart := maxVa
  phdrVa := plan.phdrVa
  phnum := plan.header.phnum
  phentsize := plan.header.phentsize

def loadPlan (data : Bytes) : Option LoadPlan :=
  match readHeader data with
  | none => none
  | some header =>
      let headers := programHeaders data header
      let minVa := minLoadVa headers
      if minVa = wordLimit - 1 then none
      else
        let bias := loadBias header minVa
        some { header := header, bias := bias, phdrVa := phdrVa header headers bias }

section

variable {image : KernelImage} {Store : Type} (allocator : PageAllocator image Store)

def loadSegment (data : Bytes) (pt bias : Nat) (ph : ProgramHeader) (maxVa : Nat) :
    Paging Store Nat :=
  if ph.kind ≠ ptLoad ∨ ph.memsz = 0 then pure maxVa
  else
    match segmentOf data bias ph with
    | none => Fallible.fail
    | some segment => do
        Fallible.forRange segment.pages (loadPage allocator data pt segment)
        pure (max maxVa segment.pageEnd)

theorem load_segments_cons (data : Bytes) (pt bias : Nat) (ph : ProgramHeader)
    (rest : List ProgramHeader) (maxVa : Nat) :
    loadSegments allocator data pt bias (ph :: rest) maxVa =
      loadSegment allocator data pt bias ph maxVa >>=
        loadSegments allocator data pt bias rest := by
  rw [loadSegments, loadSegment]
  split_ifs
  · rfl
  · cases segmentOf data bias ph with
    | none => rfl
    | some segment =>
        funext space
        simp only [bind, pure]
        split <;> rfl

/-- `load` from its segment loop on. -/
def loadPlanned (data : Bytes) (pt : Nat) (plan : LoadPlan) : Paging Store LoadedImage := do
  let maxVa ← loadSegments allocator data pt plan.bias (programHeaders data plan.header) 0
  pure (plan.image maxVa)

theorem load_eq_plan (data : Bytes) (pt : Nat) :
    load allocator data pt =
      match loadPlan data with
      | none => Fallible.fail
      | some plan => loadPlanned allocator data pt plan := by
  unfold load loadPlan
  cases readHeader data with
  | none => rfl
  | some header =>
      dsimp only
      split_ifs <;> rfl

structure PlanChecked (data : Bytes) (plan : LoadPlan) : Prop where
  header : HeaderChecked data plan.header
  bias : plan.bias = loadBias plan.header (minLoadVa (programHeaders data plan.header))
  phdrVa : plan.phdrVa = phdrVa plan.header (programHeaders data plan.header) plan.bias
  read : readHeader data = some plan.header
  lowest : minLoadVa (programHeaders data plan.header) ≠ wordLimit - 1

theorem plan_checked {data : Bytes} {plan : LoadPlan} (planned : loadPlan data = some plan) :
    PlanChecked data plan := by
  unfold loadPlan at planned
  split at planned
  · cases planned
  · rename_i header read
    dsimp only at planned
    split_ifs at planned with nothing
    cases planned
    exact ⟨read_header_checked read, rfl, rfl, read, nothing⟩

end

end Ferrugem.SegmentLoading
