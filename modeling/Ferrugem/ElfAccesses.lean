import Ferrugem.SegmentLoading
import Ferrugem.Library.RecordedRuns

/-!
# What the ELF loader reads and writes

`load` of `elf/mod.rs` once more, read by read in the order of the source, with
a log of the indices at which it reads the file, of its copies, and of the pages
it has mapped. Every index is computed with the wrapping sums of the release
profile. Without its log the recorded loader is the one of
`Ferrugem.ElfLoaderModel`, which reads a byte outside the file as zero.
-/

namespace Ferrugem.ElfAccesses

open Ferrugem.PagingModel Ferrugem.ElfLoaderModel Ferrugem.SegmentLoading Fallible

set_option autoImplicit false

/-- A `&[u8]`, which has at most `isize::MAX` bytes. -/
structure Slice where
  bytes : Bytes
  short : bytes.length < 2 ^ 63

/-- A byte of the file that is read; a copy of `length` bytes of the file to the
physical address `target` in the page that was allocated in the state; a page
that was mapped for a program header in the state. -/
inductive Access (Store : Type) where
  | read (index : Nat)
  | copy (source length target page : Nat) (allocated : PhysicalSpace Store)
  | map (header va page : Nat) (prot : BitVec 32) (mapped : PhysicalSpace Store)

abbrev Recording (Store Value : Type) :=
  Fallible (Recorded (PhysicalSpace Store) (Access Store)) Value

section

variable {Store : Type} (data : Bytes)

def readByte (index : Nat) : Recording Store Nat := do
  record fun _ => .read (index % wordLimit)
  pure (byteAt data (index % wordLimit))

def readWord16 (offset : Nat) : Recording Store Nat := do
  let low ← readByte data offset
  let high ← readByte data (offset + 1)
  pure (low + high * 2 ^ 8)

def readWord32 (offset : Nat) : Recording Store Nat := do
  let low ← readWord16 data offset
  let high ← readWord16 data (offset + 2)
  pure (low + high * 2 ^ 16)

def readWord64 (offset : Nat) : Recording Store Nat := do
  let low ← readWord32 data offset
  let high ← readWord32 data (offset + 4)
  pure (low + high * 2 ^ 32)

/-- `is_elf`. -/
def checkMagic : Recording Store Bool :=
  if data.length < ehdrMinSize then pure false
  else do
    let _ ← readWord32 data 0
    if data.take 4 == [0x7F#8, 0x45#8, 0x4C#8, 0x46#8] then do
      let fileClass ← readByte data 4
      if fileClass == 2 then do
        let order ← readByte data 5
        pure (order == 1)
      else pure false
    else pure false

variable (header : ElfHeader)

/-- The first loop of `load`. -/
def lowestPage : List Nat → Nat → Recording Store Nat
  | [], low => pure low
  | i :: rest, low => do
      let kind ← readWord32 data (headerOffset header i)
      if kind = ptLoad then do
        let vaddr ← readWord64 data (headerOffset header i + 16)
        lowestPage rest (if pageStart vaddr < low then pageStart vaddr else low)
      else lowestPage rest low

def programHeadersVa (bias : Nat) : List Nat → Recording Store Nat
  | [] => pure (biased bias header.phoff)
  | i :: rest => do
      let kind ← readWord32 data (headerOffset header i)
      if kind = ptPhdr then do
        let vaddr ← readWord64 data (headerOffset header i + 16)
        pure (biased bias vaddr)
      else programHeadersVa bias rest

variable {image : KernelImage} (allocator : PageAllocator image Store) (pt : Nat)

/-- `map_user_page` for a page of the program header with the number. -/
def recordedMap (i va pagePhys : Nat) (prot : BitVec 32) : Recording Store Unit := do
  let space ← Fallible.read Recorded.state
  lift (mapUserPage allocator pt va pagePhys prot)
  record fun _ => .map i va pagePhys prot space

def recordedPage (i : Nat) (segment : Segment) (pi : Nat) : Recording Store Unit := do
  let va := pageVa segment pi
  let before ← Fallible.read Recorded.state
  let pagePhys ← lift (allocZeroedPage allocator)
  match copyWindow segment va with
  | some (offset, source, length) => do
      record fun _ => .copy source length (pagePhys + offset) pagePhys before
      lift (writeBytes (pagePhys + offset) ((data.drop source).take length))
  | none => pure ()
  recordedMap allocator pt i va pagePhys segment.prot

def recordedSegment (bias maxVa i : Nat) : Recording Store Nat := do
  let kind ← readWord32 data (headerOffset header i)
  if kind ≠ ptLoad then pure maxVa
  else do
    let vaddr ← readWord64 data (headerOffset header i + 16)
    let filesz ← readWord64 data (headerOffset header i + 32)
    let memsz ← readWord64 data (headerOffset header i + 40)
    let offset ← readWord64 data (headerOffset header i + 8)
    let flags ← readWord32 data (headerOffset header i + 4)
    if memsz = 0 then pure maxVa
    else
      match segmentOf data bias
          { kind := kind, flags := flags, offset := offset, vaddr := vaddr, filesz := filesz,
            memsz := memsz } with
      | none => fail
      | some segment => do
          forRange segment.pages (recordedPage data allocator pt i segment)
          pure (max maxVa segment.pageEnd)

def recordedSegments (bias : Nat) (indices : List Nat) (maxVa : Nat) : Recording Store Nat :=
  indices.foldlM (recordedSegment data header allocator pt bias) maxVa

def recordedPlan : Recording Store LoadPlan := do
  let valid ← checkMagic data
  if !valid then fail
  else do
    let etype ← readWord16 data 16
    let entry ← readWord64 data 24
    let phoff ← readWord64 data 32
    let phentsize ← readWord16 data 54
    let phnum ← readWord16 data 56
    let table := phnum * phentsize
    if phentsize < phdrMinSize ∨ phnum = 0 then fail
    else if wordLimit ≤ table ∨ wordLimit ≤ phoff + table then fail
    else if data.length < phoff + table then fail
    else do
      let header : ElfHeader :=
        { etype := etype, entry := entry, phoff := phoff, phentsize := phentsize, phnum := phnum }
      let minVa ← lowestPage data header (List.range phnum) (wordLimit - 1)
      if minVa = wordLimit - 1 then fail
      else do
        let bias := loadBias header minVa
        let phdrVa ← programHeadersVa data header bias (List.range phnum)
        pure { header := header, bias := bias, phdrVa := phdrVa }

def recordedLoad : Recording Store LoadedImage := do
  let plan ← recordedPlan data
  let maxVa ← recordedSegments data plan.header allocator pt plan.bias
    (List.range plan.header.phnum) 0
  pure (plan.image maxVa)

end

section

variable {Store : Type} {data : Bytes}

theorem read_byte_erases {index : Nat} (inside : index < wordLimit) :
    Erases (readByte data index : Recording Store Nat) (pure (byteAt data index)) := by
  unfold readByte
  rw [Nat.mod_eq_of_lt inside]
  exact erases_bind_record (erases_pure _)

theorem read_word16_erases {offset : Nat} (inside : offset + 2 ≤ wordLimit) :
    Erases (readWord16 data offset : Recording Store Nat) (pure (rd16 data offset)) :=
  erases_bind_value (read_byte_erases (by omega))
    (erases_bind_value (read_byte_erases (by omega)) (erases_pure _))

theorem read_word32_erases {offset : Nat} (inside : offset + 4 ≤ wordLimit) :
    Erases (readWord32 data offset : Recording Store Nat) (pure (rd32 data offset)) :=
  erases_bind_value (read_word16_erases (by omega))
    (erases_bind_value (read_word16_erases (by omega)) (erases_pure _))

theorem read_word64_erases {offset : Nat} (inside : offset + 8 ≤ wordLimit) :
    Erases (readWord64 data offset : Recording Store Nat) (pure (rd64 data offset)) :=
  erases_bind_value (read_word32_erases (by omega))
    (erases_bind_value (read_word32_erases (by omega)) (erases_pure _))

theorem check_magic_erases : Erases (checkMagic data : Recording Store Bool) (pure (isElf data)) := by
  unfold checkMagic isElf
  by_cases short : data.length < ehdrMinSize
  · rw [if_pos short, decide_eq_false (by omega)]
    exact erases_pure _
  · rw [if_neg short, decide_eq_true (by omega), Bool.true_and]
    apply erases_bind_value (read_word32_erases (by decide))
    cases magic : data.take 4 == [0x7F#8, 0x45#8, 0x4C#8, 0x46#8] with
    | false => exact erases_pure _
    | true =>
        apply erases_bind_value (read_byte_erases (by decide))
        cases fileClass : byteAt data 4 == 2 with
        | false =>
            rw [if_neg (by simp)]
            exact erases_pure _
        | true =>
            rw [if_pos rfl]
            exact erases_bind_value (read_byte_erases (by decide)) (erases_pure _)

variable {header : ElfHeader} {indices : List Nat}

def headersAt (data : Bytes) (header : ElfHeader) (indices : List Nat) : List ProgramHeader :=
  indices.map fun i => readProgramHeader data (headerOffset header i)

def HeadersFit (header : ElfHeader) (indices : List Nat) (limit : Nat) : Prop :=
  ∀ i ∈ indices, headerOffset header i + phdrMinSize ≤ limit

theorem HeadersFit.tail {i limit : Nat} (fit : HeadersFit header (i :: indices) limit) :
    HeadersFit header indices limit :=
  fun j member => fit j (List.mem_cons_of_mem i member)

theorem HeadersFit.of_checked {limit : Nat} (checked : HeaderChecked data header)
    (below : header.phoff + header.phnum * header.phentsize ≤ limit) :
    HeadersFit header (List.range header.phnum) limit := fun _ member =>
  (checked.header_inside (List.mem_range.mp member)).trans below

theorem lowest_page_erases {low : Nat} (fit : HeadersFit header indices wordLimit) :
    Erases (lowestPage data header indices low : Recording Store Nat)
      (pure ((headersAt data header indices).foldl
        (fun low ph =>
          if ph.kind = ptLoad ∧ pageStart ph.vaddr < low then pageStart ph.vaddr else low)
        low)) := by
  induction indices generalizing low with
  | nil => exact erases_pure _
  | cons i rest ih =>
      have inside := fit i List.mem_cons_self
      unfold phdrMinSize at inside
      apply erases_bind_value (read_word32_erases (by omega))
      by_cases load : rd32 data (headerOffset header i) = ptLoad
      · rw [if_pos load]
        apply erases_bind_value (read_word64_erases (by omega))
        have step := @ih (if pageStart (rd64 data (headerOffset header i + 16)) < low then
          pageStart (rd64 data (headerOffset header i + 16)) else low) fit.tail
        simpa only [headersAt, List.map_cons, List.foldl_cons, readProgramHeader, load, true_and]
          using step
      · rw [if_neg load]
        simpa only [headersAt, List.map_cons, List.foldl_cons, readProgramHeader, load, false_and,
          if_false] using @ih low fit.tail

theorem program_headers_va_erases {bias : Nat} (fit : HeadersFit header indices wordLimit) :
    Erases (programHeadersVa data header bias indices : Recording Store Nat)
      (pure (phdrVa header (headersAt data header indices) bias)) := by
  induction indices with
  | nil => exact erases_pure _
  | cons i rest ih =>
      have inside := fit i List.mem_cons_self
      unfold phdrMinSize at inside
      apply erases_bind_value (read_word32_erases (by omega))
      unfold headersAt at ih ⊢
      rw [List.map_cons, phdr_va_cons]
      by_cases phdr : (readProgramHeader data (headerOffset header i)).kind = ptPhdr
      · rw [if_pos phdr]
        simp only [readProgramHeader] at phdr ⊢
        rw [if_pos phdr]
        exact erases_bind_value (read_word64_erases (by omega)) (erases_pure _)
      · rw [if_neg phdr]
        simp only [readProgramHeader] at phdr
        rw [if_neg phdr]
        exact ih fit.tail

variable {image : KernelImage} {allocator : PageAllocator image Store} {pt bias : Nat}

theorem recorded_map_erases (i va pagePhys : Nat) (prot : BitVec 32) :
    Erases (recordedMap allocator pt i va pagePhys prot)
      (mapUserPage allocator pt va pagePhys prot) :=
  erases_bind_observe fun _ => erases_then_record (erases_lift _)

theorem recorded_page_erases (i : Nat) (segment : Segment) (pi : Nat) :
    Erases (recordedPage data allocator pt i segment pi)
      (loadPage allocator data pt segment pi) := by
  unfold recordedPage loadPage pageVa
  apply erases_bind_observe
  intro before
  apply erases_bind (erases_lift _)
  intro pagePhys
  rw [fill_eq]
  cases copyWindow segment (pageStart segment.segVa + pi * pageSize) with
  | none => exact recorded_map_erases i _ _ _
  | some window =>
      apply erases_bind_record
      exact erases_bind (erases_lift _) fun _ => recorded_map_erases i _ _ _

theorem recorded_segment_erases {i maxVa : Nat}
    (inside : headerOffset header i + phdrMinSize ≤ wordLimit) :
    Erases (recordedSegment data header allocator pt bias maxVa i)
      (loadSegment allocator data pt bias (readProgramHeader data (headerOffset header i))
        maxVa) := by
  unfold phdrMinSize at inside
  unfold recordedSegment loadSegment
  apply erases_bind_value (read_word32_erases (by omega))
  by_cases load : rd32 data (headerOffset header i) = ptLoad
  · rw [if_neg (not_not.mpr load)]
    apply erases_bind_value (read_word64_erases (by omega))
    apply erases_bind_value (read_word64_erases (by omega))
    apply erases_bind_value (read_word64_erases (by omega))
    apply erases_bind_value (read_word64_erases (by omega))
    apply erases_bind_value (read_word32_erases (by omega))
    have same : readProgramHeader data (headerOffset header i) =
        { kind := rd32 data (headerOffset header i)
          flags := rd32 data (headerOffset header i + 4)
          offset := rd64 data (headerOffset header i + 8)
          vaddr := rd64 data (headerOffset header i + 16)
          filesz := rd64 data (headerOffset header i + 32)
          memsz := rd64 data (headerOffset header i + 40) } := rfl
    rw [same]
    dsimp only
    by_cases empty : rd64 data (headerOffset header i + 40) = 0
    · rw [if_pos empty, if_pos (.inr empty)]
      exact erases_pure _
    · rw [if_neg empty, if_neg (not_or.mpr ⟨not_not.mpr load, empty⟩)]
      generalize segmentOf data bias _ = made
      cases made with
      | none => exact erases_fail
      | some segment =>
          apply erases_bind (erases_for_range fun pi _ => recorded_page_erases i segment pi)
          exact fun _ => erases_pure _
  · rw [if_pos load, if_pos (.inl load)]
    exact erases_pure _

theorem recorded_segments_erases {maxVa : Nat} (fit : HeadersFit header indices wordLimit) :
    Erases (recordedSegments data header allocator pt bias indices maxVa)
      (loadSegments allocator data pt bias (headersAt data header indices) maxVa) := by
  induction indices generalizing maxVa with
  | nil => exact erases_pure _
  | cons i rest ih =>
      unfold headersAt recordedSegments at ih ⊢
      rw [List.map_cons, load_segments_cons, List.foldlM_cons]
      apply erases_bind (recorded_segment_erases (fit i List.mem_cons_self))
      exact fun high => ih fit.tail

theorem headers_at_range (data : Bytes) (header : ElfHeader) :
    headersAt data header (List.range header.phnum) = programHeaders data header := rfl

def elfHeader (data : Bytes) : ElfHeader where
  etype := rd16 data 16
  entry := rd64 data 24
  phoff := rd64 data 32
  phentsize := rd16 data 54
  phnum := rd16 data 56

/-- The checks of `load` on the header. -/
structure HeaderAccepted (data : Bytes) (header : ElfHeader) : Prop where
  sizes : ¬(header.phentsize < phdrMinSize ∨ header.phnum = 0)
  inside : ¬(wordLimit ≤ header.phnum * header.phentsize ∨
    wordLimit ≤ header.phoff + header.phnum * header.phentsize)
  fits : ¬data.length < header.phoff + header.phnum * header.phentsize

theorem read_header_accepted (elf : isElf data = true)
    (accepted : HeaderAccepted data (elfHeader data)) :
    readHeader data = some (elfHeader data) := by
  obtain ⟨sizes, inside, fits⟩ := accepted
  unfold elfHeader at sizes inside fits
  dsimp only at sizes inside fits
  unfold readHeader
  rw [elf]
  dsimp only
  rw [if_neg (by decide), if_neg sizes, if_neg inside, if_neg fits]
  rfl

theorem read_header_rejected
    (rejected : ¬(isElf data = true ∧ HeaderAccepted data (elfHeader data))) : readHeader data = none := by
  unfold readHeader
  dsimp only
  split_ifs with elf sizes inside fits
  · rfl
  · rfl
  · rfl
  · rfl
  · simp only [Bool.not_eq_true, Bool.not_eq_false'] at elf
    exact absurd ⟨elf, sizes, inside, fits⟩ rejected

theorem no_plan (rejected : ¬(isElf data = true ∧ HeaderAccepted data (elfHeader data))) :
    loadPlan data = none := by
  unfold loadPlan
  rw [read_header_rejected rejected]

theorem recorded_plan_erases :
    Erases (recordedPlan data : Recording Store LoadPlan)
      (match loadPlan data with
        | none => fail
        | some plan => pure plan) := by
  unfold recordedPlan
  apply erases_bind_value check_magic_erases
  cases elf : isElf data with
  | false =>
      rw [no_plan fun accepted => absurd (elf.symm.trans accepted.1) (by decide)]
      exact erases_fail
  | true =>
      apply erases_bind_value (read_word16_erases (by decide))
      apply erases_bind_value (read_word64_erases (by decide))
      apply erases_bind_value (read_word64_erases (by decide))
      apply erases_bind_value (read_word16_erases (by decide))
      apply erases_bind_value (read_word16_erases (by decide))
      dsimp only
      split_ifs with sizes inside fits
      · rw [no_plan fun accepted => accepted.2.sizes sizes]
        exact erases_fail
      · rw [no_plan fun accepted => accepted.2.inside inside]
        exact erases_fail
      · rw [no_plan fun accepted => accepted.2.fits fits]
        exact erases_fail
      · have read := read_header_accepted elf ⟨sizes, inside, fits⟩
        have checked := read_header_checked read
        have fit : HeadersFit (elfHeader data) (List.range (elfHeader data).phnum) wordLimit :=
          .of_checked checked checked.inside.le
        unfold loadPlan
        rw [read]
        apply erases_bind_value (lowest_page_erases fit)
        rw [headers_at_range]
        dsimp only
        unfold minLoadVa
        split_ifs with nothing
        · exact erases_fail
        · exact erases_bind_value (program_headers_va_erases fit) (erases_pure _)

theorem recorded_load_erases : Erases (recordedLoad data allocator pt) (load allocator data pt) := by
  have erases := @recorded_plan_erases Store data
  rw [load_eq_plan]
  unfold recordedLoad
  cases planned : loadPlan data with
  | none =>
      rw [planned] at erases
      exact erases_bind_fail _ erases
  | some plan =>
      rw [planned] at erases
      have checked := (plan_checked planned).header
      unfold loadPlanned
      apply erases_bind_value erases
      dsimp only
      rw [← headers_at_range]
      exact erases_bind (recorded_segments_erases (.of_checked checked checked.inside.le))
        fun _ => erases_pure _

end

section

variable {Store : Type} {Allowed : Access Store → Prop} {file : Slice} {header : ElfHeader}
  {indices : List Nat} (reads : ∀ index, index < file.bytes.length → Allowed (.read index))
include reads

theorem read_byte_logs {index : Nat} (inside : index < file.bytes.length) :
    Logs Allowed (readByte file.bytes index) fun _ => True := by
  have same : index % wordLimit = index :=
    Nat.mod_eq_of_lt (inside.trans (file.short.trans (by decide)))
  apply logs_bind_record
  · intro space
    rw [same]
    exact reads index inside
  · exact logs_pure trivial

theorem read_word16_logs {offset : Nat} (inside : offset + 2 ≤ file.bytes.length) :
    Logs Allowed (readWord16 file.bytes offset) fun _ => True :=
  logs_bind (read_byte_logs reads (by omega)) fun _ _ =>
    logs_bind (read_byte_logs reads (by omega)) fun _ _ => logs_pure trivial

theorem read_word32_logs {offset : Nat} (inside : offset + 4 ≤ file.bytes.length) :
    Logs Allowed (readWord32 file.bytes offset) fun _ => True :=
  logs_bind (read_word16_logs reads (by omega)) fun _ _ =>
    logs_bind (read_word16_logs reads (by omega)) fun _ _ => logs_pure trivial

theorem read_word64_logs {offset : Nat} (inside : offset + 8 ≤ file.bytes.length) :
    Logs Allowed (readWord64 file.bytes offset) fun _ => True :=
  logs_bind (read_word32_logs reads (by omega)) fun _ _ =>
    logs_bind (read_word32_logs reads (by omega)) fun _ _ => logs_pure trivial

theorem check_magic_logs :
    Logs Allowed (checkMagic file.bytes) fun valid =>
      valid = true → ehdrMinSize ≤ file.bytes.length := by
  unfold checkMagic
  by_cases short : file.bytes.length < ehdrMinSize
  · rw [if_pos short]
    exact logs_pure nofun
  · have long : 64 ≤ file.bytes.length := Nat.le_of_not_lt short
    rw [if_neg short]
    apply logs_bind (read_word32_logs reads (by omega))
    intro _ _
    by_cases magic : (file.bytes.take 4 == [0x7F#8, 0x45#8, 0x4C#8, 0x46#8]) = true
    · rw [if_pos magic]
      apply logs_bind (read_byte_logs reads (by omega))
      intro fileClass _
      split_ifs
      · apply logs_bind (read_byte_logs reads (by omega))
        exact fun _ _ => logs_pure fun _ => long
      · exact logs_pure nofun
    · rw [if_neg magic]
      exact logs_pure nofun

theorem lowest_page_logs {low : Nat} (fit : HeadersFit header indices file.bytes.length) :
    Logs Allowed (lowestPage file.bytes header indices low) fun _ => True := by
  induction indices generalizing low with
  | nil => exact logs_pure trivial
  | cons i rest ih =>
      have inside := fit i List.mem_cons_self
      unfold phdrMinSize at inside
      apply logs_bind (read_word32_logs reads (by omega))
      intro kind _
      split_ifs
      · apply logs_bind (read_word64_logs reads (by omega))
        exact fun _ _ => ih fit.tail
      · exact ih fit.tail

theorem program_headers_va_logs {bias : Nat} (fit : HeadersFit header indices file.bytes.length) :
    Logs Allowed (programHeadersVa file.bytes header bias indices) fun _ => True := by
  induction indices with
  | nil => exact logs_pure trivial
  | cons i rest ih =>
      have inside := fit i List.mem_cons_self
      unfold phdrMinSize at inside
      apply logs_bind (read_word32_logs reads (by omega))
      intro kind _
      split_ifs
      · apply logs_bind (read_word64_logs reads (by omega))
        exact fun _ _ => logs_pure trivial
      · exact ih fit.tail

theorem recorded_plan_logs :
    Logs Allowed (recordedPlan file.bytes) fun plan => HeaderChecked file.bytes plan.header := by
  unfold recordedPlan
  apply logs_bind (check_magic_logs reads)
  intro valid long
  split_ifs with invalid
  · exact logs_fail
  · rw [Bool.not_eq_true, Bool.not_eq_false'] at invalid
    have long := long invalid
    unfold ehdrMinSize at long
    apply logs_bind (read_word16_logs reads (by omega))
    intro etype _
    apply logs_bind (read_word64_logs reads (by omega))
    intro entry _
    apply logs_bind (read_word64_logs reads (by omega))
    intro phoff _
    apply logs_bind (read_word16_logs reads (by omega))
    intro phentsize _
    apply logs_bind (read_word16_logs reads (by omega))
    intro phnum _
    dsimp only
    split_ifs with sizes wraps short
    · exact logs_fail
    · exact logs_fail
    · exact logs_fail
    · have checked : HeaderChecked file.bytes
          { etype := etype, entry := entry, phoff := phoff, phentsize := phentsize,
            phnum := phnum } := by
        constructor <;> dsimp only [ehdrMinSize] <;> omega
      have fit : HeadersFit _ (List.range phnum) file.bytes.length :=
        .of_checked checked checked.fits
      apply logs_bind (lowest_page_logs reads fit)
      intro minVa _
      split_ifs
      · exact logs_fail
      · apply logs_bind (program_headers_va_logs reads fit)
        exact fun _ _ => logs_pure checked

end

section

variable {Store : Type} {data : Bytes} {image : KernelImage} {allocator : PageAllocator image Store}
  {pt : Nat}

/-- A read inside the file; a copy from inside the file into the page that
`alloc_pages(1)` returned for it. -/
def Access.Inside (allocator : PageAllocator image Store) (data : Bytes) : Access Store → Prop
  | .read index => index < data.length
  | .copy source length target page allocated =>
      source + length ≤ data.length ∧ (allocPages allocator 1 allocated).1 = some page ∧
        page ≤ target ∧ target + length ≤ page + pageSize
  | .map _ _ _ _ _ => True

def copiesOf (segment : Segment) (va page : Nat) (allocated : PhysicalSpace Store) :
    List (Access Store) :=
  match copyWindow segment va with
  | some (offset, source, length) => [.copy source length (page + offset) page allocated]
  | none => []

theorem alloc_zeroed_page_some {space later : PhysicalSpace Store} {page : Nat}
    (outcome : allocZeroedPage allocator space = (some page, later)) :
    (allocPages allocator 1 space).1 = some page ∧
      later.memory = space.memory.zeroBlock page pageSize := by
  unfold allocZeroedPage at outcome
  unfold allocPages at outcome ⊢
  cases taken : allocator.alloc space.store 1 with
  | none =>
      simp only [bind, taken] at outcome
      cases outcome
  | some pair =>
      simp only [bind, taken] at outcome
      cases outcome
      exact ⟨rfl, by rw [Nat.one_mul]⟩

theorem recorded_map_ends {i va page : Nat} {prot : BitVec 32}
    (start : Recorded (PhysicalSpace Store) (Access Store)) :
    Ends (recordedMap allocator pt i va page prot) start
      (fun _ later => (mapUserPage allocator pt va page prot start.state).1 = some () ∧
        later.log = start.log ++ [.map i va page prot start.state])
      (fun later => later.log = start.log) := by
  apply ends_bind_observe
  apply ends_bind_lift
  · exact fun _ _ => rfl
  · intro value later outcome
    apply ends_record
    rw [outcome]
    exact ⟨rfl, rfl⟩

theorem recorded_page_ends (i : Nat) (segment : Segment) (pi : Nat)
    (start : Recorded (PhysicalSpace Store) (Access Store)) :
    Ends (recordedPage data allocator pt i segment pi) start
      (fun _ later => ∃ page space, (allocPages allocator 1 start.state).1 = some page ∧
        space.memory = filledPage segment data (pageVa segment pi) page start.state.memory ∧
        (mapUserPage allocator pt (pageVa segment pi) page segment.prot space).1 = some () ∧
        later.log = start.log ++ copiesOf segment (pageVa segment pi) page start.state ++
          [.map i (pageVa segment pi) page segment.prot space])
      (fun later => later.log = start.log ∨ ∃ page,
        (allocPages allocator 1 start.state).1 = some page ∧
        later.log = start.log ++ copiesOf segment (pageVa segment pi) page start.state) := by
  apply ends_bind_observe
  apply ends_bind_lift
  · exact fun _ _ => .inl rfl
  · intro page zeroed outcome
    obtain ⟨allocated, memory⟩ := alloc_zeroed_page_some outcome
    unfold copiesOf filledPage
    rw [fill_eq]
    cases copyWindow segment (pageVa segment pi) with
    | none =>
        apply ends_mono (recorded_map_ends _)
        · rintro _ later ⟨mapped, log⟩
          exact ⟨page, zeroed, allocated, memory, mapped, log.trans (by simp)⟩
        · exact fun _ log => .inl log
    | some window =>
        apply ends_bind_record
        apply ends_bind_lift
        · intro later failed
          cases failed
        · intro _ filled written
          cases written
          apply ends_mono (recorded_map_ends _)
          · rintro _ later ⟨mapped, log⟩
            have filled := congrArg (fun memory => WordMemory.storeBytes memory
              (page + window.1) ((data.drop window.2.1).take window.2.2)) memory
            exact ⟨page, _, allocated, filled, mapped, log⟩
          · exact fun _ log => .inr ⟨page, allocated, log⟩

variable {file : Slice} {header : ElfHeader} {indices : List Nat}

theorem copies_inside {bias va page : Nat} {ph : ProgramHeader} {segment : Segment}
    (checked : SegmentChecked file.bytes bias ph segment) {space : PhysicalSpace Store}
    (allocated : (allocPages allocator 1 space).1 = some page) :
    ∀ access ∈ copiesOf segment va page space, access.Inside allocator file.bytes := by
  intro access member
  unfold copiesOf at member
  split at member
  · rename_i offset source length window
    obtain ⟨inPage, inFile⟩ := copy_window_inside checked file.short window
    rw [List.mem_singleton.mp member]
    exact ⟨inFile, allocated, by omega, by omega⟩
  · cases member

theorem recorded_page_inside {bias i pi : Nat} {ph : ProgramHeader} {segment : Segment}
    (checked : SegmentChecked file.bytes bias ph segment) :
    Logs (Access.Inside allocator file.bytes) (recordedPage file.bytes allocator pt i segment pi)
      fun _ => True := by
  intro start
  apply ends_mono (recorded_page_ends i segment pi start)
  · rintro _ later ⟨page, space, allocated, _, _, log⟩
    refine ⟨trivial, _, log.trans (List.append_assoc _ _ _), ?_⟩
    intro access member
    rcases List.mem_append.mp member with copied | mapped
    · exact copies_inside checked allocated access copied
    · rw [List.mem_singleton.mp mapped]
      exact trivial
  · rintro later (log | ⟨page, allocated, log⟩)
    · exact ⟨[], log.trans (List.append_nil _).symm, nofun⟩
    · exact ⟨_, log, copies_inside checked allocated⟩

theorem recorded_segment_inside {bias i maxVa : Nat}
    (inside : headerOffset header i + phdrMinSize ≤ file.bytes.length) :
    Logs (Access.Inside allocator file.bytes)
      (recordedSegment file.bytes header allocator pt bias maxVa i) fun _ => True := by
  have reads : ∀ index, index < file.bytes.length →
      Access.Inside allocator file.bytes (.read index) := fun _ => id
  unfold phdrMinSize at inside
  unfold recordedSegment
  apply logs_bind (read_word32_logs reads (by omega))
  intro kind _
  split_ifs
  · exact logs_pure trivial
  · apply logs_bind (read_word64_logs reads (by omega))
    intro vaddr _
    apply logs_bind (read_word64_logs reads (by omega))
    intro filesz _
    apply logs_bind (read_word64_logs reads (by omega))
    intro memsz _
    apply logs_bind (read_word64_logs reads (by omega))
    intro offset _
    apply logs_bind (read_word32_logs reads (by omega))
    intro flags _
    split_ifs
    · exact logs_pure trivial
    · split
      · exact logs_fail
      · rename_i segment made
        apply logs_bind (logs_for_range fun pi _ =>
          recorded_page_inside (segment_of_checked made))
        exact fun _ _ => logs_pure trivial

theorem recorded_segments_inside {bias maxVa : Nat}
    (fit : HeadersFit header indices file.bytes.length) :
    Logs (Access.Inside allocator file.bytes)
      (recordedSegments file.bytes header allocator pt bias indices maxVa) fun _ => True := by
  induction indices generalizing maxVa with
  | nil => exact logs_pure trivial
  | cons i rest ih =>
      unfold recordedSegments at ih ⊢
      rw [List.foldlM_cons]
      apply logs_bind (recorded_segment_inside (fit i List.mem_cons_self))
      exact fun high _ => ih fit.tail

theorem recorded_load_inside :
    Logs (Access.Inside allocator file.bytes) (recordedLoad file.bytes allocator pt)
      fun _ => True := by
  unfold recordedLoad
  apply logs_bind (recorded_plan_logs fun _ => id)
  intro plan checked
  apply logs_bind (recorded_segments_inside (.of_checked checked checked.fits))
  exact fun _ _ => logs_pure trivial

end

/-- For every file, page table and allocator: the loader reads the file inside
its length only, and copies from inside the file into the page that it has just
allocated. The recorded loader is the loader. -/
theorem load_reads_inside {image : KernelImage} {Store : Type} (allocator : PageAllocator image Store)
    (file : Slice) (pt : Nat) (space : PhysicalSpace Store) :
    let recorded := recordedLoad file.bytes allocator pt ⟨space, []⟩
    (∀ access ∈ recorded.2.log, access.Inside allocator file.bytes) ∧
      load allocator file.bytes pt space = (recorded.1, recorded.2.state) := by
  intro recorded
  obtain ⟨result, state⟩ := @recorded_load_erases _ file.bytes _ allocator pt ⟨space, []⟩
  constructor
  · have inside := @recorded_load_inside _ _ allocator pt file ⟨space, []⟩
    cases outcome : recorded with
    | mk result later =>
        cases result with
        | none => exact (inside.2 later outcome).all nofun
        | some value => exact (inside.1 value later outcome).2.all nofun
  · exact Prod.ext result.symm state.symm

end Ferrugem.ElfAccesses
