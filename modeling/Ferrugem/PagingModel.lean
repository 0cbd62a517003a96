import Mathlib.Algebra.Group.Nat.Defs
import Ferrugem.Library.FallibleState
import Ferrugem.Library.WordMemory

/-!
# x86_64 page tables in physical memory

`kernel/src/arch/x86_64/paging.rs`. Physical memory is a memory of words and a
page table is 512 of them; an entry is the `u64` the source stores. The kernel
reads and writes physical addresses directly, through its identity map.

Frames come from a page allocator, which is a parameter. It carries what the
paging code relies on: `alloc_pages` returns aligned frames that are not in use
and that lie outside the kernel image. The kernel's own tables are `static`
items of that image.

A function of the source that returns `bool` or `Option` is a fallible
computation here: what it wrote before it failed stays.
-/

namespace Ferrugem.PagingModel

set_option autoImplicit false

abbrev Entry := BitVec 64

def pageSize : Nat := 4096

def pagePresent : Entry := 1#64 <<< 0
def pageWritable : Entry := 1#64 <<< 1
def pageUser : Entry := 1#64 <<< 2
def pageHuge : Entry := 1#64 <<< 7

def flagBits : Entry := 0xFFF#64

def protRead : BitVec 32 := 1#32 <<< 0
def protWrite : BitVec 32 := 1#32 <<< 1
def protExec : BitVec 32 := 1#32 <<< 2
def protUser : BitVec 32 := 1#32 <<< 3

def userCodeVa : Nat := 0x8000001000
def userStackTop : Nat := 0x8000010000
def userBaseVa : Nat := 0x8000000000
def userElfStackTop : Nat := userBaseVa + 0x10000000

def hasFlag (entry flag : Entry) : Bool := entry &&& flag != 0#64

/-- `e & !0xFFF` as an address. -/
def entryAddr (entry : Entry) : Nat := (entry &&& ~~~flagBits).toNat

/-- The entry that the source stores for a table of a process. -/
def tableEntry (address : Nat) : Entry :=
  BitVec.ofNat 64 address ||| (pagePresent ||| pageWritable ||| pageUser)

/-- The entry that the source stores for a table of the kernel. -/
def kernelTableEntry (address : Nat) : Entry :=
  BitVec.ofNat 64 address ||| (pagePresent ||| pageWritable)

/-- Where the linker puts the kernel, its static tables and the two trampolines
that enter user mode. `pd` is the array of four page directories. -/
structure KernelImage where
  start : Nat
  stop : Nat
  pml4 : Nat
  pdpt : Nat
  pd : Nat
  userEnterTrampoline : BitVec 64
  forkEnterTrampoline : BitVec 64
  aligned : pml4 % pageSize = 0 ∧ pdpt % pageSize = 0 ∧ pd % pageSize = 0
  inside : start ≤ pml4 ∧ pml4 + pageSize ≤ stop ∧ start ≤ pdpt ∧ pdpt + pageSize ≤ stop ∧
    start ≤ pd ∧ pd + 4 * pageSize ≤ stop
  distinct : pml4 ≠ pdpt ∧ (pml4 < pd ∨ pd + 4 * pageSize ≤ pml4) ∧
    (pdpt < pd ∨ pd + 4 * pageSize ≤ pdpt)
  representable : stop ≤ 2 ^ 52

def KernelImage.Has (image : KernelImage) (frame : Nat) : Prop :=
  image.start < (frame + 1) * pageSize ∧ frame * pageSize < image.stop

/-- `memory::alloc_pages` and the frames that are in use; physical addresses
have at most 52 bits. -/
structure PageAllocator (image : KernelImage) (Store : Type) where
  alloc : Store → Nat → Option (Nat × Store)
  InUse : Store → Nat → Prop
  aligned : ∀ {store pages address after}, alloc store pages = some (address, after) →
    address % pageSize = 0
  representable : ∀ {store pages address after}, alloc store pages = some (address, after) →
    address + pages * pageSize ≤ 2 ^ 52
  unused : ∀ {store pages address after}, alloc store pages = some (address, after) →
    ∀ i, i < pages → ¬InUse store (address / pageSize + i) ∧ ¬image.Has (address / pageSize + i)
  taken : ∀ {store pages address after}, alloc store pages = some (address, after) →
    ∀ i, i < pages → InUse after (address / pageSize + i)
  kept : ∀ {store pages address after}, alloc store pages = some (address, after) →
    ∀ frame, InUse store frame → InUse after frame

structure PhysicalSpace (Store : Type) where
  memory : WordMemory
  store : Store

abbrev Paging (Store Value : Type) := Fallible (PhysicalSpace Store) Value

section

variable {Store : Type}

def readEntry (table index : Nat) : Paging Store Entry :=
  Fallible.read fun space => space.memory.load (table + index * 8)

def changeMemory (change : WordMemory → WordMemory) : Paging Store Unit :=
  Fallible.modify fun space => { space with memory := change space.memory }

def writeEntry (table index : Nat) (entry : Entry) : Paging Store Unit :=
  changeMemory fun memory => memory.store (table + index * 8) entry

def writeWord (address : Nat) (value : BitVec 64) : Paging Store Unit :=
  changeMemory fun memory => memory.store address value

def writeWords : Nat → List (BitVec 64) → Paging Store Unit
  | _, [] => pure ()
  | address, value :: rest => do
      writeWord address value
      writeWords (address + 8) rest

/-- `write_bytes(address, 0, pages * 4096)`. -/
def zeroPages (address pages : Nat) : Paging Store Unit :=
  changeMemory fun memory => memory.zeroBlock address (pages * pageSize)

def copyPage (source target : Nat) : Paging Store Unit :=
  changeMemory fun memory => memory.copyBlock source target pageSize

def writeBytes (address : Nat) (bytes : List (BitVec 8)) : Paging Store Unit :=
  changeMemory fun memory => memory.storeBytes address bytes

end

variable {image : KernelImage} {Store : Type} (allocator : PageAllocator image Store)

/-- A call of `alloc_pages` whose failure the caller handles. -/
def tryAllocPages (pages : Nat) : Paging Store (Option Nat) := fun space =>
  match allocator.alloc space.store pages with
  | some (address, after) => (some (some address), { space with store := after })
  | none => (some none, space)

/-- A call of `alloc_pages` whose failure ends the caller. -/
def allocPages (pages : Nat) : Paging Store Nat := fun space =>
  match allocator.alloc space.store pages with
  | some (address, after) => (some address, { space with store := after })
  | none => (none, space)

/-- `alloc_pages(1)` followed by `write_bytes` over the page. -/
def allocZeroedPage : Paging Store Nat := do
  let address ← allocPages allocator 1
  zeroPages address 1
  pure address

/-- `init`: the identity map of the first 4 GiB by 2 MiB pages. -/
def init (image : KernelImage) : Paging Store Unit := do
  writeEntry image.pml4 0 (kernelTableEntry image.pdpt)
  Fallible.forRange 4 fun i =>
    writeEntry image.pdpt i (kernelTableEntry (image.pd + i * pageSize))
  Fallible.forRange 4 fun gib =>
    Fallible.forRange 512 fun mib =>
      writeEntry (image.pd + gib * pageSize) mib
        (BitVec.ofNat 64 (gib * 2 ^ 30 + mib * 2 ^ 21) |||
          (pagePresent ||| pageWritable ||| pageHuge))

/-- The 4 KiB table that replaces a 2 MiB page of the identity map. -/
def splitHugePage (table phys : Nat) : Paging Store Unit :=
  Fallible.forRange 512 fun i =>
    writeEntry table i
      (BitVec.ofNat 64 (phys / 2 ^ 21 * 2 ^ 21 + i * pageSize) ||| (pagePresent ||| pageWritable))

/-- The end of `protect_guard_page`, with the value of `*pd_entry` there. -/
def clearGuardEntry (pdEntry : Entry) (phys : Nat) : Paging Store Bool := do
  writeEntry (entryAddr pdEntry) (phys / 2 ^ 12 % 512) 0#64
  pure true

/-- `protect_guard_page`; its callers ignore the result. -/
def protectGuardPage (phys : Nat) : Paging Store Bool :=
  if 4 * 1024 * 1024 * 1024 ≤ phys then pure false
  else do
    let directory := image.pd + phys / 2 ^ 30 % 4 * pageSize
    let pdIdx := phys / 2 ^ 21 % 512
    let pdEntry ← readEntry directory pdIdx
    if hasFlag pdEntry pageHuge then
      match ← tryAllocPages allocator 1 with
      | none => pure false
      | some table =>
          splitHugePage table phys
          writeEntry directory pdIdx (kernelTableEntry table)
          clearGuardEntry (kernelTableEntry table) phys
    else clearGuardEntry pdEntry phys

/-- A new root whose entry 0 is made from entry 0 of another one, as in
`create_empty_process_page_table` and `clone_user_page_table`. -/
def allocRoot (source : Nat) (change : Entry → Entry) : Paging Store Nat := do
  let pml4 ← allocZeroedPage allocator
  let entry ← readEntry source 0
  writeEntry pml4 0 (change entry)
  pure pml4

/-- `create_empty_process_page_table`. -/
def createEmptyProcessPageTable : Paging Store Nat :=
  allocRoot allocator image.pml4 fun entry => entry &&& ~~~pageUser

/-- `create_process_page_table`: one code page and one stack page. -/
def createProcessPageTable (codePhys stackPhys : Nat) : Paging Store Nat := do
  let pml4 ← allocPages allocator 1
  let pdpt ← allocPages allocator 1
  let pd ← allocPages allocator 1
  let pt ← allocPages allocator 1
  zeroPages pml4 1
  zeroPages pdpt 1
  zeroPages pd 1
  zeroPages pt 1
  let kernelEntry ← readEntry image.pml4 0
  writeEntry pml4 0 (kernelEntry &&& ~~~pageUser)
  writeEntry pml4 1 (tableEntry pdpt)
  writeEntry pdpt 0 (tableEntry pd)
  writeEntry pd 0 (tableEntry pt)
  writeEntry pt (userCodeVa / 2 ^ 12 % 512) (tableEntry codePhys)
  writeEntry pt ((userStackTop - pageSize) / 2 ^ 12 % 512) (tableEntry stackPhys)
  pure pml4

/-- One level of `map_user_page`: the next table, which is created if the entry
is not present. Only the entry of the top level is taken without a look at
`PAGE_HUGE`. -/
def nextTable (table index : Nat) (top : Bool) : Paging Store Nat := do
  let entry ← readEntry table index
  if hasFlag entry pagePresent then
    if !top && hasFlag entry pageHuge then Fallible.fail
    else pure (entryAddr entry)
  else
    let new ← allocZeroedPage allocator
    writeEntry table index (tableEntry new)
    pure new

def leafFlags (prot : BitVec 32) : Entry :=
  pagePresent ||| (if prot &&& protWrite != 0#32 then pageWritable else 0#64) |||
    (if prot &&& protUser != 0#32 then pageUser else 0#64)

/-- `map_user_page`; failure is the result `false`. -/
def mapUserPage (pml4 va pa : Nat) (prot : BitVec 32) : Paging Store Unit :=
  if va / 2 ^ 39 % 512 = 0 then Fallible.fail
  else do
    let pdpt ← nextTable allocator pml4 (va / 2 ^ 39 % 512) true
    let pd ← nextTable allocator pdpt (va / 2 ^ 30 % 512) false
    let pt ← nextTable allocator pd (va / 2 ^ 21 % 512) false
    writeEntry pt (va / 2 ^ 12 % 512)
      ((BitVec.ofNat 64 pa &&& ~~~flagBits) ||| leafFlags prot)

/-- The entry for a copied table or page, with the flags of the original. -/
def clonedEntry (new : Nat) (entry : Entry) : Entry :=
  (BitVec.ofNat 64 new &&& ~~~flagBits) ||| (entry &&& flagBits)

/-- The innermost loop body of `clone_user_page_table`. -/
def cloneLeaf (srcPt newPt l : Nat) : Paging Store Unit := do
  let e1 ← readEntry srcPt l
  if hasFlag e1 pagePresent then
    let newData ← allocPages allocator 1
    copyPage (entryAddr e1) newData
    writeEntry newPt l (clonedEntry newData e1)
  else pure ()

def clonePd (srcPd newPd k : Nat) : Paging Store Unit := do
  let e2 ← readEntry srcPd k
  if hasFlag e2 pagePresent then
    if hasFlag e2 pageHuge then writeEntry newPd k e2
    else
      let newPt ← allocZeroedPage allocator
      Fallible.forRange 512 (cloneLeaf allocator (entryAddr e2) newPt)
      writeEntry newPd k (clonedEntry newPt e2)
  else pure ()

def clonePdpt (srcPdpt newPdpt j : Nat) : Paging Store Unit := do
  let e3 ← readEntry srcPdpt j
  if hasFlag e3 pagePresent then
    if hasFlag e3 pageHuge then writeEntry newPdpt j e3
    else
      let newPd ← allocZeroedPage allocator
      Fallible.forRange 512 (clonePd allocator (entryAddr e3) newPd)
      writeEntry newPdpt j (clonedEntry newPd e3)
  else pure ()

def clonePml4 (srcPml4 newPml4 i : Nat) : Paging Store Unit := do
  let e4 ← readEntry srcPml4 i
  if hasFlag e4 pagePresent then
    let newPdpt ← allocZeroedPage allocator
    Fallible.forRange 512 (clonePdpt allocator (entryAddr e4) newPdpt)
    writeEntry newPml4 i (clonedEntry newPdpt e4)
  else pure ()

def cloneUserPageTable (srcPml4 : Nat) : Paging Store Nat := do
  let newPml4 ← allocRoot allocator srcPml4 id
  Fallible.forRange 511 fun i => clonePml4 allocator srcPml4 newPml4 (i + 1)
  pure newPml4

end Ferrugem.PagingModel
