import Ferrugem.SharedPages

/-!
# The address of the program headers

`load` returns the address of the `PT_PHDR` entry, or the file offset of the
table plus the bias. Neither is compared with where a segment puts the table.
-/

namespace Ferrugem.ProgramHeaderAddress

open Ferrugem.PagingModel Ferrugem.ElfLoaderModel Ferrugem.SegmentLoading Ferrugem.SegmentPages
open Ferrugem.SegmentOverlays Ferrugem.SharedPages Ferrugem.PageMapping Ferrugem.BitmapPages
open Ferrugem.HeapRegions RadixTables Fallible

set_option autoImplicit false

variable {image : KernelImage} {Store : Type} {allocator : PageAllocator image Store}

/-- No page of the user is mapped, as after `create_empty_process_page_table`. -/
def NothingMapped (pt : Nat) (memory : WordMemory) : Prop :=
  ∀ page, x86Layout.IsUser page → x86Layout.translate memory pt page = none

def tableSize (header : ElfHeader) : Nat := header.phnum * header.phentsize

/-- The program can read the program headers of the file at the address. -/
def HoldsTable (data : Bytes) (header : ElfHeader) (pt : Nat) (memory : WordMemory) (va : Nat) :
    Prop :=
  ∀ k, k < tableSize header → userByte memory pt (va + k) = data[header.phoff + k]?

/-- The segment of the program header puts the byte at the address. -/
def PutsByte (data : Bytes) (header : ElfHeader) (va : Nat) (byte : BitVec 8) (j : Nat) : Prop :=
  IsLoaded (programHeader data header j) ∧ ∃ segment,
    segmentOf data (biasOf data header) (programHeader data header j) = some segment ∧
    ∃ address, Covers segment address ∧ address % 2 ^ 48 = va % 2 ^ 48 ∧
      contentAt segment data address = byte

/-- The last segment over the address puts the byte there. -/
def LastPuts (data : Bytes) (header : ElfHeader) (count va : Nat) (byte : BitVec 8) : Prop :=
  ∃ j, j < count ∧ PutsByte data header va byte j ∧
    ∀ later, j < later → later < count → ∀ other, ¬PutsByte data header va other later

section

variable {data : Bytes} {pt : Nat} {header : ElfHeader} {space : PhysicalSpace Store}

theorem nothing_readable (nothing : NothingMapped pt space.memory) (va : Nat) :
    userByte space.memory pt va = none := by
  unfold userByte
  split_ifs with readable
  · unfold lowByte
    rw [nothing _ (low_user (Nat.mod_lt _ (by decide)) (by omega))]
    rfl
  · rfl

theorem last_puts_succ_over {count va : Nat} {byte other : BitVec 8}
    (late : PutsByte data header va other count) :
    LastPuts data header (count + 1) va byte ↔ PutsByte data header va byte count := by
  constructor
  · rintro ⟨j, below, puts, last⟩
    rcases Nat.lt_succ_iff_lt_or_eq.mp below with earlier | rfl
    · exact absurd late (last count earlier (Nat.lt_succ_self count) other)
    · exact puts
  · exact fun puts => ⟨count, Nat.lt_succ_self count, puts, fun later after before => by omega⟩

theorem last_puts_succ_apart {count va : Nat} {byte : BitVec 8}
    (apart : ∀ other, ¬PutsByte data header va other count) :
    LastPuts data header (count + 1) va byte ↔ LastPuts data header count va byte := by
  constructor
  · rintro ⟨j, below, puts, last⟩
    rcases Nat.lt_succ_iff_lt_or_eq.mp below with earlier | rfl
    · exact ⟨j, earlier, puts, fun later after before => last later after (by omega)⟩
    · exact absurd puts (apart byte)
  · rintro ⟨j, below, puts, last⟩
    refine ⟨j, by omega, puts, ?_⟩
    intro later after before
    rcases Nat.lt_succ_iff_lt_or_eq.mp before with earlier | rfl
    · exact last later after earlier
    · exact apart

theorem byte_after_iff (succeeds : LoopSucceeds allocator data pt header space)
    (short : data.length < 2 ^ 63) (formed : Formed allocator pt space)
    (nothing : NothingMapped pt space.memory) {va : Nat} (canonical : IsCanonical va)
    (byte : BitVec 8) {count : Nat} (bounded : count ≤ header.phnum) :
    byteAfter allocator data pt header space count va = some byte ↔
      LastPuts data header count va byte := by
  induction count with
  | zero =>
      have unreadable : byteAfter allocator data pt header space 0 va = none :=
        nothing_readable nothing va
      rw [unreadable]
      constructor
      · exact nofun
      · rintro ⟨j, below, _⟩
        omega
  | succ count ih =>
      have done := rounds_done succeeds short formed (Nat.lt_of_succ_le bounded)
      have hit : ∀ other, PutsByte data header va other count →
          byteAfter allocator data pt header space (count + 1) va = some other := by
        rintro other ⟨isLoaded, segment, made, address, covers, same, rfl⟩
        exact done.hit isLoaded made covers canonical same
      by_cases puts : ∃ other, PutsByte data header va other count
      · obtain ⟨other, puts⟩ := puts
        rw [last_puts_succ_over puts, hit other puts]
        constructor
        · intro same
          exact Option.some.inj same ▸ puts
        · exact fun same => (hit other puts).symm.trans (hit byte same)
      · rw [last_puts_succ_apart (not_exists.mp puts), ← ih (by omega)]
        unfold byteAfter
        rw [done.miss ?_]
        intro isLoaded segment made address covers same
        exact puts ⟨_, isLoaded, segment, made, address, covers, same, rfl⟩

/-- The address in the first `PT_PHDR` entry, or the offset of the table where there is
none, plus the bias. -/
def tableVa (data : Bytes) (header : ElfHeader) : Nat :=
  let unbiased :=
    match (programHeaders data header).find? fun ph => ph.kind == ptPhdr with
    | some ph => ph.vaddr
    | none => header.phoff
  (unbiased + biasOf data header) % wordLimit

theorem table_va_eq (data : Bytes) (header : ElfHeader) :
    phdrVa header (programHeaders data header) (biasOf data header) = tableVa data header := by
  unfold phdrVa tableVa
  cases (programHeaders data header).find? fun ph => ph.kind == ptPhdr with
  | none => rfl
  | some ph => rfl

/-- Every byte of the table is put where `AT_PHDR` points, and not replaced. -/
def TablePut (data : Bytes) (header : ElfHeader) : Prop :=
  ∀ k, k < tableSize header → IsCanonical (tableVa data header + k) ∧
    LastPuts data header header.phnum (tableVa data header + k)
      (data.getD (header.phoff + k) 0)

theorem load_returns {loaded : LoadedImage} (read : readHeader data = some header)
    (loads : (load allocator data pt space).1 = some loaded) :
    loaded.phdrVa = tableVa data header ∧
      (load allocator data pt space).2 =
        stateAfter allocator data pt header space header.phnum := by
  have all : (programHeaders data header).take header.phnum = programHeaders data header := by
    rw [← program_headers_length data header]
    exact List.take_length
  unfold load at loads ⊢
  rw [read] at loads ⊢
  dsimp only at loads ⊢
  unfold stateAfter
  rw [all]
  split_ifs at loads ⊢
  · cases loads
  · obtain ⟨maxVa, _, whole⟩ := returns_of_bind loads
    rw [whole] at loads ⊢
    cases loads
    exact ⟨table_va_eq data header, rfl⟩

/-- For every accepted file. -/
theorem phdr_va_holds_table_iff {loaded : LoadedImage} (short : data.length < 2 ^ 63)
    (formed : Formed allocator pt space) (nothing : NothingMapped pt space.memory)
    (read : readHeader data = some header)
    (loads : (load allocator data pt space).1 = some loaded) :
    HoldsTable data header pt (load allocator data pt space).2.memory loaded.phdrVa ↔
      TablePut data header := by
  obtain ⟨va, state⟩ := load_returns read loads
  have succeeds := loop_succeeds read loads
  have inside := (read_header_checked read).fits
  rw [va, state]
  apply forall_congr'
  intro k
  apply imp_congr_right
  intro below
  have backed : header.phoff + k < data.length := by
    unfold tableSize at below
    omega
  rw [List.getD_eq_getElem?_getD, List.getElem?_eq_getElem backed, Option.getD_some]
  by_cases canonical : IsCanonical (tableVa data header + k)
  · rw [← byte_after_iff succeeds short formed nothing canonical _ le_rfl]
    exact ⟨fun held => ⟨canonical, held⟩, And.right⟩
  · constructor
    · intro held
      have unreadable : userByte (stateAfter allocator data pt header space header.phnum).memory pt
          (tableVa data header + k) = none := if_neg fun readable => canonical readable.1
      rw [unreadable] at held
      cases held
    · exact fun put => absurd put.1 canonical

/-- A segment that contains the table puts it at the address that its own offset
and address give. -/
theorem table_put_of_segment {j : Nat} {segment : Segment} (short : data.length < 2 ^ 63)
    (below : j < header.phnum) (isLoaded : IsLoaded (programHeader data header j))
    (made : segmentOf data (biasOf data header) (programHeader data header j) = some segment)
    (sized : (programHeader data header j).filesz ≤ (programHeader data header j).memsz)
    (first : (programHeader data header j).offset ≤ header.phoff)
    (last : header.phoff + tableSize header ≤
      (programHeader data header j).offset + (programHeader data header j).filesz)
    (same : tableVa data header =
      segmentVa data header j + (header.phoff - (programHeader data header j).offset))
    (low : segmentVa data header j + (programHeader data header j).memsz ≤ 2 ^ 47)
    (apart : ∀ later, j < later → later < header.phnum → ∀ k, k < tableSize header →
      ∀ other, ¬PutsByte data header (tableVa data header + k) other later) :
    TablePut data header := by
  have checked := segment_of_checked made
  intro k inside
  have copied : header.phoff - (programHeader data header j).offset + k <
      (programHeader data header j).filesz := by omega
  have position : tableVa data header + k = biased (biasOf data header)
      (programHeader data header j).vaddr +
        (header.phoff - (programHeader data header j).offset + k) := by
    rw [same]
    unfold segmentVa
    omega
  have content := content_copied checked short sized copied position
  have source : (programHeader data header j).offset +
      (header.phoff - (programHeader data header j).offset + k) = header.phoff + k := by omega
  rw [source] at content
  refine ⟨.inl ?_, j, below, ⟨isLoaded, segment, made, tableVa data header + k, ?_, rfl, ?_⟩, ?_⟩
  · unfold segmentVa at low
    omega
  · rw [position]
    exact covers_own checked (by omega)
  · rw [List.getD_eq_getElem?_getD, content, Option.getD_some]
  · exact fun later after before => apart later after before k inside

end

theorem empty_x86_nothing_mapped : NothingMapped 0x106000 emptyX86.memory :=
  fun page _ => walk_absent (empty_x86_absent (index page 3) (index_lt page 3))

/-- An executable with absolute addresses: one segment, the file itself, at
`USER_BASE_VA`, and no `PT_PHDR` entry. -/
def fixedElf : Bytes :=
  [0x7F, 0x45, 0x4C, 0x46, 2, 1, 1, 0, 0, 0, 0, 0, 0, 0, 0, 0,
    2, 0, 0x3E, 0, 1, 0, 0, 0, 0x78, 0, 0, 0, 0x80, 0, 0, 0,
    64, 0, 0, 0, 0, 0, 0, 0, 0, 0, 0, 0, 0, 0, 0, 0,
    0, 0, 0, 0, 64, 0, 56, 0, 1, 0, 0, 0, 0, 0, 0, 0,
    1, 0, 0, 0, 5, 0, 0, 0, 0, 0, 0, 0, 0, 0, 0, 0,
    0, 0, 0, 0, 0x80, 0, 0, 0, 0, 0, 0, 0, 0x80, 0, 0, 0,
    0x7A, 0, 0, 0, 0, 0, 0, 0, 0x7A, 0, 0, 0, 0, 0, 0, 0,
    0, 0x10, 0, 0, 0, 0, 0, 0,
    0xEB, 0xFE]

def fixedHeader : ElfHeader where
  etype := 2
  entry := 0x8000000078
  phoff := 64
  phentsize := 56
  phnum := 1

/-- The segment contains the table, which is at `USER_BASE_VA + 64`, and the
address that is returned is 64. -/
theorem fixed_table_not_found :
    readHeader fixedElf = some fixedHeader ∧
      (programHeader fixedElf fixedHeader 0).kind = ptLoad ∧
      (programHeader fixedElf fixedHeader 0).offset ≤ fixedHeader.phoff ∧
      fixedHeader.phoff + tableSize fixedHeader ≤
        (programHeader fixedElf fixedHeader 0).offset +
          (programHeader fixedElf fixedHeader 0).filesz ∧
      ∃ loaded, (load (PageSupply.pageAllocator smallImage) fixedElf 0x106000 emptyX86).1 =
          some loaded ∧ loaded.phdrVa = 64 ∧
        ¬HoldsTable fixedElf fixedHeader 0x106000
          (load (PageSupply.pageAllocator smallImage) fixedElf 0x106000 emptyX86).2.memory
          loaded.phdrVa := by
  refine ⟨by decide +kernel, by decide +kernel, by decide +kernel, by decide +kernel, ?_⟩
  have returns : (load (PageSupply.pageAllocator smallImage) fixedElf 0x106000
      emptyX86).1.map LoadedImage.phdrVa = some 64 := by decide +kernel
  obtain ⟨loaded, loads, va⟩ := Option.map_eq_some_iff.mp returns
  refine ⟨loaded, loads, va, ?_⟩
  intro holds
  have first := holds 0 (by decide)
  rw [va] at first
  revert first
  decide +kernel

theorem pair_table_put : TablePut (pairElf 0x10) (pairHeader 0x10) := by
  have va : tableVa (pairElf 0x10) (pairHeader 0x10) = userBaseVa + 64 := by decide +kernel
  have accepted : (segmentOf (pairElf 0x10) (biasOf (pairElf 0x10) (pairHeader 0x10))
      (programHeader (pairElf 0x10) (pairHeader 0x10) 0)).isSome = true := by decide +kernel
  obtain ⟨segment, made⟩ := Option.isSome_iff_exists.mp accepted
  apply table_put_of_segment (by decide +kernel) (by decide) ⟨by decide +kernel, by decide +kernel⟩
    made
  · decide +kernel
  · decide +kernel
  · decide +kernel
  · decide +kernel
  · decide +kernel
  · intro later after before k inside other puts
    obtain rfl : later = 1 := by
      have below : later < 2 := before
      omega
    obtain ⟨_, second, alsoMade, address, covers, same, _⟩ := puts
    have size : k < 112 := inside
    obtain ⟨onOrAfter, upTo⟩ := pair_second_page alsoMade covers
    rw [va] at same
    clear made
    unfold userBaseVa at *
    omega

/-- Position-independent, with the table in the first segment and the offset of
the segment zero. -/
theorem pair_table_found :
    ∃ loaded, (load (PageSupply.pageAllocator smallImage) (pairElf 0x10) 0x106000 emptyX86).1 =
        some loaded ∧
      HoldsTable (pairElf 0x10) (pairHeader 0x10) 0x106000
        (load (PageSupply.pageAllocator smallImage) (pairElf 0x10) 0x106000 emptyX86).2.memory
        loaded.phdrVa := by
  have accepted : (load (PageSupply.pageAllocator smallImage) (pairElf 0x10) 0x106000
      emptyX86).1.isSome = true := by decide +kernel
  obtain ⟨loaded, loads⟩ := Option.isSome_iff_exists.mp accepted
  have read : readHeader (pairElf 0x10) = some (pairHeader 0x10) := by decide +kernel
  exact ⟨loaded, loads, (phdr_va_holds_table_iff (by decide +kernel) empty_x86_formed
    empty_x86_nothing_mapped read loads).mpr pair_table_put⟩

end Ferrugem.ProgramHeaderAddress
