import Ferrugem.PagingModel

/-!
# The ELF64 loader

`kernel/src/elf/mod.rs`. A `usize` is a natural number and sums that may wrap
are taken modulo `2^64`, as in the release profile; `isize` sums wrap the same
way. A checked operation fails where it would not fit. The file is a list of
bytes; an index that the source does not guard reads as zero.
-/

namespace Ferrugem.ElfLoaderModel

open Ferrugem.PagingModel

set_option autoImplicit false

abbrev Bytes := List (BitVec 8)

def wordLimit : Nat := 2 ^ 64

def etDyn : Nat := 3
def ptLoad : Nat := 1
def ptPhdr : Nat := 6
def pfX : BitVec 32 := 1#32
def pfW : BitVec 32 := 2#32
def pfR : BitVec 32 := 4#32

def ehdrMinSize : Nat := 64
def phdrMinSize : Nat := 56

def byteAt (data : Bytes) (offset : Nat) : Nat := (data.getD offset 0#8).toNat

def rd16 (data : Bytes) (offset : Nat) : Nat :=
  byteAt data offset + byteAt data (offset + 1) * 2 ^ 8

def rd32 (data : Bytes) (offset : Nat) : Nat :=
  rd16 data offset + rd16 data (offset + 2) * 2 ^ 16

def rd64 (data : Bytes) (offset : Nat) : Nat :=
  rd32 data offset + rd32 data (offset + 4) * 2 ^ 32

def isElf (data : Bytes) : Bool :=
  decide (ehdrMinSize ≤ data.length) && data.take 4 == [0x7F#8, 0x45#8, 0x4C#8, 0x46#8] &&
    byteAt data 4 == 2 && byteAt data 5 == 1

structure ElfHeader where
  etype : Nat
  entry : Nat
  phoff : Nat
  phentsize : Nat
  phnum : Nat

/-- The header, if it passes the checks at the head of `load`. -/
def readHeader (data : Bytes) : Option ElfHeader :=
  let header : ElfHeader :=
    { etype := rd16 data 16
      entry := rd64 data 24
      phoff := rd64 data 32
      phentsize := rd16 data 54
      phnum := rd16 data 56 }
  let table := header.phnum * header.phentsize
  if !isElf data then none
  else if header.phentsize < phdrMinSize ∨ header.phnum = 0 then none
  else if wordLimit ≤ table ∨ wordLimit ≤ header.phoff + table then none
  else if data.length < header.phoff + table then none
  else some header

structure ProgramHeader where
  kind : Nat
  flags : Nat
  offset : Nat
  vaddr : Nat
  filesz : Nat
  memsz : Nat

def readProgramHeader (data : Bytes) (ph : Nat) : ProgramHeader where
  kind := rd32 data ph
  flags := rd32 data (ph + 4)
  offset := rd64 data (ph + 8)
  vaddr := rd64 data (ph + 16)
  filesz := rd64 data (ph + 32)
  memsz := rd64 data (ph + 40)

def programHeaders (data : Bytes) (header : ElfHeader) : List ProgramHeader :=
  (List.range header.phnum).map fun i =>
    readProgramHeader data (header.phoff + i * header.phentsize)

def pageStart (va : Nat) : Nat := va / pageSize * pageSize

/-- The lowest page of a `PT_LOAD` segment; `usize::MAX` when there is none. -/
def minLoadVa (headers : List ProgramHeader) : Nat :=
  headers.foldl
    (fun low ph =>
      if ph.kind = ptLoad ∧ pageStart ph.vaddr < low then pageStart ph.vaddr else low)
    (wordLimit - 1)

/-- The load bias as a `usize` that is added with wrap-around. -/
def loadBias (header : ElfHeader) (minVa : Nat) : Nat :=
  if header.etype = etDyn then (userBaseVa + wordLimit - minVa) % wordLimit else 0

def biased (bias va : Nat) : Nat := (va + bias) % wordLimit

def phdrVa (header : ElfHeader) (headers : List ProgramHeader) (bias : Nat) : Nat :=
  match headers.find? fun ph => ph.kind == ptPhdr with
  | some ph => biased bias ph.vaddr
  | none => biased bias header.phoff

def pfToProt (flags : Nat) : BitVec 32 :=
  let pf := BitVec.ofNat 32 flags
  protUser ||| (if pf &&& pfR != 0#32 then protRead else 0#32) |||
    (if pf &&& pfW != 0#32 then protWrite else 0#32) |||
    (if pf &&& pfX != 0#32 then protExec else 0#32)

structure Segment where
  segVa : Nat
  pageEnd : Nat
  filesz : Nat
  offset : Nat
  prot : BitVec 32

def segmentOf (data : Bytes) (bias : Nat) (ph : ProgramHeader) : Option Segment :=
  let segVa := biased bias ph.vaddr
  if data.length < min (ph.offset + ph.filesz) (wordLimit - 1) then none
  else if wordLimit ≤ segVa + ph.memsz ∨ wordLimit ≤ segVa + ph.memsz + 0xFFF then none
  else
    some
      { segVa := segVa
        pageEnd := pageStart (segVa + ph.memsz + 0xFFF)
        filesz := ph.filesz
        offset := ph.offset
        prot := pfToProt ph.flags }

def Segment.pages (segment : Segment) : Nat :=
  (segment.pageEnd - pageStart segment.segVa) / pageSize

/-- The part of the file that falls into a page: where in the page it goes, and
its bytes. -/
def Segment.fill (segment : Segment) (data : Bytes) (pageVa : Nat) : Option (Nat × Bytes) :=
  let low := max pageVa segment.segVa
  let high := min ((pageVa + pageSize) % wordLimit) ((segment.segVa + segment.filesz) % wordLimit)
  if low < high then
    let source := (segment.offset + (low - segment.segVa)) % wordLimit
    some (low - pageVa, (data.drop source).take (high - low))
  else none

variable {image : KernelImage} {Store : Type} (allocator : PageAllocator image Store)

/-- The body of the page loop of `load`. -/
def loadPage (data : Bytes) (pt : Nat) (segment : Segment) (pi : Nat) : Paging Store Unit := do
  let pageVa := pageStart segment.segVa + pi * pageSize
  let pagePhys ← allocZeroedPage allocator
  match segment.fill data pageVa with
  | some (offset, bytes) => writeBytes (pagePhys + offset) bytes
  | none => pure ()
  mapUserPage allocator pt pageVa pagePhys segment.prot

/-- The segment loop of `load`, which returns the highest mapped address. -/
def loadSegments (data : Bytes) (pt bias : Nat) : List ProgramHeader → Nat → Paging Store Nat
  | [], maxVa => pure maxVa
  | ph :: rest, maxVa =>
      if ph.kind ≠ ptLoad ∨ ph.memsz = 0 then loadSegments data pt bias rest maxVa
      else
        match segmentOf data bias ph with
        | none => Fallible.fail
        | some segment => do
            Fallible.forRange segment.pages (loadPage allocator data pt segment)
            loadSegments data pt bias rest (max maxVa segment.pageEnd)

structure LoadedImage where
  entry : Nat
  heapStart : Nat
  phdrVa : Nat
  phnum : Nat
  phentsize : Nat

def load (data : Bytes) (pt : Nat) : Paging Store LoadedImage :=
  match readHeader data with
  | none => Fallible.fail
  | some header =>
      let headers := programHeaders data header
      let minVa := minLoadVa headers
      if minVa = wordLimit - 1 then Fallible.fail
      else do
        let bias := loadBias header minVa
        let maxVa ← loadSegments allocator data pt bias headers 0
        pure
          { entry := biased bias header.entry
            heapStart := maxVa
            phdrVa := phdrVa header headers bias
            phnum := header.phnum
            phentsize := header.phentsize }

end Ferrugem.ElfLoaderModel
