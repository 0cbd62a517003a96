import Ferrugem.PagingModel

/-!
# RISC-V Sv39 page tables in physical memory

`kernel/src/arch/riscv64/paging.rs`, with the memory of `Ferrugem.PagingModel`.
An entry holds the page number shifted by ten bits and ten bits of flags, and an
entry with one of `R`, `W`, `X` maps a page. `kernelRoot` is the address of the
static table `ROOT`. `init` sets `satp` and `switch_address_space` writes it; both
are left out of the memory model, as `mov cr3` is.
-/

namespace Ferrugem.Sv39Model

open Ferrugem.PagingModel

set_option autoImplicit false

def pageV : Entry := 1#64 <<< 0
def pageR : Entry := 1#64 <<< 1
def pageW : Entry := 1#64 <<< 2
def pageX : Entry := 1#64 <<< 3
def pageU : Entry := 1#64 <<< 4
def pageA : Entry := 1#64 <<< 6
def pageD : Entry := 1#64 <<< 7

def pageRwx : Entry := pageR ||| pageW ||| pageX

def entryFlags : Entry := 0x3FF#64

def sv39CodeVa : Nat := 0x100001000
def sv39StackTop : Nat := 0x100010000

/-- `(address as u64) >> 12 << 10`. -/
def ppnBits (address : Nat) : Entry := BitVec.ofNat 64 address >>> 12 <<< 10

/-- `((e >> 10) << 12) as usize`. -/
def entryTarget (entry : Entry) : Nat := (entry >>> 10 <<< 12).toNat

/-- `memory::alloc_pages` and the frames that are in use, those of the kernel
image among them; physical addresses have at most 52 bits. -/
structure FrameAllocator (Store : Type) where
  alloc : Store → Nat → Option (Nat × Store)
  InUse : Store → Nat → Prop
  aligned : ∀ {store pages address after}, alloc store pages = some (address, after) →
    address % pageSize = 0
  representable : ∀ {store pages address after}, alloc store pages = some (address, after) →
    address + pages * pageSize ≤ 2 ^ 52
  unused : ∀ {store pages address after}, alloc store pages = some (address, after) →
    ∀ i, i < pages → ¬InUse store (address / pageSize + i)
  taken : ∀ {store pages address after}, alloc store pages = some (address, after) →
    ∀ i, i < pages → InUse after (address / pageSize + i)
  kept : ∀ {store pages address after}, alloc store pages = some (address, after) →
    ∀ frame, InUse store frame → InUse after frame

variable {Store : Type}

/-- `init`: four leaves of 1 GiB. -/
def init (kernelRoot : Nat) : Paging Store Unit :=
  Fallible.forRange 4 fun i =>
    writeEntry kernelRoot i
      (BitVec.ofNat 64 i <<< 18 <<< 10 ||| (pageV ||| pageR ||| pageW ||| pageX ||| pageA ||| pageD))

variable (allocator : FrameAllocator Store)

/-- A call of `alloc_pages` whose failure ends the caller. -/
def allocPages (pages : Nat) : Paging Store Nat := fun space =>
  match allocator.alloc space.store pages with
  | some (address, after) => (some address, { space with store := after })
  | none => (none, space)

def allocZeroedPage : Paging Store Nat := do
  let address ← allocPages allocator 1
  zeroPages address 1
  pure address

/-- One level of `map_user_page`. -/
def nextTable (table index : Nat) : Paging Store Nat := do
  let entry ← readEntry table index
  if hasFlag entry pageV then
    if hasFlag entry pageRwx then Fallible.fail
    else pure (entryTarget entry)
  else
    let new ← allocZeroedPage allocator
    writeEntry table index (ppnBits new ||| pageV)
    pure new

def leafFlags (prot : BitVec 32) : Entry :=
  pageV ||| pageA ||| pageD ||| (if prot &&& protRead != 0#32 then pageR else 0#64) |||
    (if prot &&& protWrite != 0#32 then pageW else 0#64) |||
    (if prot &&& protExec != 0#32 then pageX else 0#64) |||
    (if prot &&& protUser != 0#32 then pageU else 0#64)

/-- `map_user_page`; failure is the result `false`. -/
def mapUserPage (root va pa : Nat) (prot : BitVec 32) : Paging Store Unit :=
  if va / 2 ^ 30 % 512 < 4 then Fallible.fail
  else do
    let l1 ← nextTable allocator root (va / 2 ^ 30 % 512)
    let l0 ← nextTable allocator l1 (va / 2 ^ 21 % 512)
    writeEntry l0 (va / 2 ^ 12 % 512) (ppnBits pa ||| leafFlags prot)

/-- The four entries of the kernel, copied from another root. -/
def shareKernel (source root : Nat) : Paging Store Unit :=
  Fallible.forRange 4 fun i => do
    let entry ← readEntry source i
    writeEntry root i entry

/-- `create_empty_process_page_table`. -/
def createEmptyProcessPageTable (kernelRoot : Nat) : Paging Store Nat := do
  let root ← allocZeroedPage allocator
  shareKernel kernelRoot root
  pure root

/-- `create_process_page_table`: one code page and one stack page. -/
def createProcessPageTable (kernelRoot codePhys stackPhys : Nat) : Paging Store Nat := do
  let root ← allocPages allocator 1
  let l1 ← allocPages allocator 1
  let l0 ← allocPages allocator 1
  zeroPages root 1
  zeroPages l1 1
  zeroPages l0 1
  shareKernel kernelRoot root
  writeEntry root 4 (ppnBits l1 ||| pageV)
  writeEntry l1 0 (ppnBits l0 ||| pageV)
  writeEntry l0 (sv39CodeVa / 2 ^ 12 % 512)
    (ppnBits codePhys ||| (pageV ||| pageR ||| pageW ||| pageX ||| pageU ||| pageA ||| pageD))
  writeEntry l0 ((sv39StackTop - pageSize) / 2 ^ 12 % 512)
    (ppnBits stackPhys ||| (pageV ||| pageR ||| pageW ||| pageU ||| pageA ||| pageD))
  pure root

/-- The innermost loop body of `clone_user_page_table`. -/
def cloneLeaf (srcL0 newL0 vpn0 : Nat) : Paging Store Unit := do
  let e0 ← readEntry srcL0 vpn0
  if hasFlag e0 pageV then
    let newData ← allocPages allocator 1
    copyPage (entryTarget e0) newData
    writeEntry newL0 vpn0 (ppnBits newData ||| (e0 &&& entryFlags))
  else pure ()

def cloneL1 (srcL1 newL1 vpn1 : Nat) : Paging Store Unit := do
  let e1 ← readEntry srcL1 vpn1
  if hasFlag e1 pageV then
    if hasFlag e1 pageRwx then writeEntry newL1 vpn1 e1
    else
      let newL0 ← allocZeroedPage allocator
      Fallible.forRange 512 (cloneLeaf allocator (entryTarget e1) newL0)
      writeEntry newL1 vpn1 (ppnBits newL0 ||| pageV)
  else pure ()

def cloneRoot (srcRoot newRoot vpn2 : Nat) : Paging Store Unit := do
  let e2 ← readEntry srcRoot vpn2
  if hasFlag e2 pageV then
    if hasFlag e2 pageRwx then writeEntry newRoot vpn2 e2
    else
      let newL1 ← allocZeroedPage allocator
      Fallible.forRange 512 (cloneL1 allocator (entryTarget e2) newL1)
      writeEntry newRoot vpn2 (ppnBits newL1 ||| pageV)
  else pure ()

def cloneUserPageTable (srcRoot : Nat) : Paging Store Nat := do
  let newRoot ← allocZeroedPage allocator
  shareKernel srcRoot newRoot
  Fallible.forRange 508 fun i => cloneRoot allocator srcRoot newRoot (i + 4)
  pure newRoot

end Ferrugem.Sv39Model
