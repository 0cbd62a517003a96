import Ferrugem.Library.TerminatedLists
import Ferrugem.AddressSpaceModel

/-!
# The initial stack of a program

`setup_abi_stack` packs the argument and environment strings downwards from the
top of the stack region and puts the table from `argc` to `AT_NULL` below them.
A program that reads the region as the ABI says finds what was put in: the
strings behind the pointers, the null pointers, the auxiliary vector and the
seed. What was written lies apart inside the region, and the call fails exactly
if that does not fit.
-/

namespace Ferrugem.InitialStacks

open Ferrugem.PagingModel Ferrugem.ElfLoaderModel Ferrugem.AddressSpaceModel
open WordMemory TerminatedLists

set_option autoImplicit false

/-- A physical region that is mapped to end at `top`. -/
structure StackRegion where
  phys : Nat
  size : Nat
  top : Nat
  positive : 0 < size
  whole : size % 16 = 0
  physAligned : phys % 8 = 0
  topAligned : top % 16 = 0
  fits : size ≤ top
  representable : top ≤ 2 ^ 64

namespace StackRegion

def base (region : StackRegion) : Nat := region.top - region.size

def byteAt (region : StackRegion) (memory : WordMemory) (va : Nat) : BitVec 8 :=
  memory.loadByte (region.phys + (va - region.base))

def wordAt (region : StackRegion) (memory : WordMemory) (va : Nat) : BitVec 64 :=
  memory.load (region.phys + (va - region.base))

def pairAt (region : StackRegion) (memory : WordMemory) (va : Nat) : BitVec 64 × BitVec 64 :=
  (region.wordAt memory va, region.wordAt memory (va + 8))

def readString (region : StackRegion) (memory : WordMemory) (va : Nat) : Option Bytes :=
  readUntil (region.byteAt memory) (· + 1) (· == 0) region.size va

def readPointers (region : StackRegion) (memory : WordMemory) (va : Nat) :
    Option (List (BitVec 64)) :=
  readUntil (region.wordAt memory) (· + 8) (· == 0) region.size va

/-- The pairs up to and with `AT_NULL`. -/
def readAuxv (region : StackRegion) (memory : WordMemory) (va : Nat) :
    Option (List (BitVec 64 × BitVec 64)) :=
  (readUntil (region.pairAt memory) (· + 16) (fun pair => pair.1 == 0) region.size va).map
    fun pairs => pairs ++ [region.pairAt memory (va + 16 * pairs.length)]

end StackRegion

/-- What the ABI puts at the stack pointer of a new program; a string comes with
its address. -/
structure StartInfo where
  argc : BitVec 64
  argv : List (Nat × Bytes)
  envp : List (Nat × Bytes)
  auxv : List (BitVec 64 × BitVec 64)

namespace StackRegion

def readStrings (region : StackRegion) (memory : WordMemory) (pointers : List (BitVec 64)) :
    Option (List (Nat × Bytes)) :=
  pointers.mapM fun pointer =>
    (region.readString memory pointer.toNat).map fun bytes => (pointer.toNat, bytes)

def readStart (region : StackRegion) (memory : WordMemory) (rsp : Nat) : Option StartInfo := do
  let argvPointers ← region.readPointers memory (rsp + 8)
  let argv ← region.readStrings memory argvPointers
  let envpVa := rsp + 8 + 8 * (argvPointers.length + 1)
  let envpPointers ← region.readPointers memory envpVa
  let envp ← region.readStrings memory envpPointers
  let auxv ← region.readAuxv memory (envpVa + 8 * (envpPointers.length + 1))
  pure { argc := region.wordAt memory rsp, argv := argv, envp := envp, auxv := auxv }

end StackRegion

/-- A program that is started without arguments gets its path. -/
def startArgv (argv0 : Bytes) (argv : List Bytes) : List Bytes :=
  if argv.isEmpty then [argv0] else argv

def auxvPairs (image : LoadedImage) (randVa : Nat) : List (BitVec 64 × BitVec 64) :=
  [(3#64, BitVec.ofNat 64 image.phdrVa), (4#64, BitVec.ofNat 64 image.phentsize),
    (5#64, BitVec.ofNat 64 image.phnum), (6#64, 4096#64), (11#64, 0#64), (12#64, 0#64),
    (13#64, 0#64), (14#64, 0#64), (23#64, 0#64), (25#64, BitVec.ofNat 64 randVa), (0#64, 0#64)]

def roomOf (bytes : Bytes) : Nat := (bytes.length + 8) / 8 * 8

def footprint (strings : List Bytes) : Nat := (strings.map roomOf).sum

/-- The bytes of the table: `argc`, the two null pointers and eleven pairs
beside the pointers. -/
def tableSize (argv envp : List Bytes) : Nat := 8 * (argv.length + envp.length + 25)

/-- The seed, the strings and the table go into the region. -/
def Fits (size : Nat) (argv envp : List Bytes) : Prop :=
  16 + footprint argv + footprint envp + tableSize argv envp ≤ size

/-- The addresses and lengths of what is found from the stack pointer on. -/
def StartInfo.objects (info : StartInfo) (region : StackRegion) (rsp : Nat) : List (Nat × Nat) :=
  (region.top - 16, 16) :: (info.argv ++ info.envp).map (fun found =>
    (found.1, found.2.length + 1)) ++
      [(rsp, tableSize (info.argv.map Prod.snd) (info.envp.map Prod.snd))]

def Apart (first second : Nat × Nat) : Prop :=
  first.1 + first.2 ≤ second.1 ∨ second.1 + second.2 ≤ first.1

/-- The stack pointer leads to what was put in, which lies apart in the region,
and nothing else was written. -/
structure Encodes (region : StackRegion) (argv envp : List Bytes) (image : LoadedImage)
    (seed : BitVec 64) (before after : WordMemory) (rsp : Nat) (info : StartInfo) : Prop where
  aligned : rsp % 16 = 0
  inside : region.base ≤ rsp ∧ rsp < region.top
  read : region.readStart after rsp = some info
  argc : info.argc = BitVec.ofNat 64 argv.length
  argv : info.argv.map Prod.snd = argv
  envp : info.envp.map Prod.snd = envp
  auxv : info.auxv = auxvPairs image (region.top - 16)
  seeded : region.wordAt after (region.top - 16) = seed ∧
    region.wordAt after (region.top - 8) = seed ^^^ 0xDEADBEEFCAFE1234#64
  contained : ∀ object ∈ info.objects region rsp,
    region.base ≤ object.1 ∧ object.1 + object.2 ≤ region.top
  apart : (info.objects region rsp).Pairwise Apart
  frame : ∀ address, (∀ object ∈ info.objects region rsp,
      ¬(region.phys + (object.1 - region.base) ≤ address ∧
        address < region.phys + (object.1 - region.base) + object.2)) →
    after.loadByte address = before.loadByte address

/-- The strings with the offsets at which the loops put them. -/
def placed : List Bytes → Nat → List (Nat × Bytes)
  | [], _ => []
  | bytes :: rest, off => (off - roomOf bytes, bytes) :: placed rest (off - roomOf bytes)

def Holds (start : Nat × Bytes) (address : Nat) : Prop :=
  start.1 ≤ address ∧ address < start.1 + (start.2.length + 1)

theorem footprint_cons (bytes : Bytes) (rest : List Bytes) :
    footprint (bytes :: rest) = roomOf bytes + footprint rest := by
  simp [footprint]

theorem room_bounds (bytes : Bytes) :
    bytes.length + 1 ≤ roomOf bytes ∧ roomOf bytes % 8 = 0 := by
  unfold roomOf
  omega

theorem placed_strings (strings : List Bytes) (off : Nat) :
    (placed strings off).map Prod.snd = strings := by
  induction strings generalizing off with
  | nil => rfl
  | cons bytes rest ih => rw [placed, List.map_cons, ih]

theorem placed_bounds {strings : List Bytes} {off : Nat} (aligned : off % 8 = 0)
    (fits : footprint strings ≤ off) {found : Nat × Bytes} (member : found ∈ placed strings off) :
    off - footprint strings ≤ found.1 ∧ found.1 + (found.2.length + 1) ≤ off := by
  induction strings generalizing off with
  | nil => cases member
  | cons bytes rest ih =>
      obtain ⟨long, whole⟩ := room_bounds bytes
      rw [footprint_cons] at fits ⊢
      rcases List.mem_cons.mp member with rfl | later
      · dsimp only
        omega
      · have bounds := @ih (off - roomOf bytes) (by omega) (by omega) later
        omega

theorem placed_apart {strings : List Bytes} {off : Nat} (aligned : off % 8 = 0)
    (fits : footprint strings ≤ off) :
    (placed strings off).Pairwise fun upper lower => lower.1 + (lower.2.length + 1) ≤ upper.1 := by
  induction strings generalizing off with
  | nil => exact .nil
  | cons bytes rest ih =>
      obtain ⟨long, whole⟩ := room_bounds bytes
      rw [footprint_cons] at fits
      have aligned' : (off - roomOf bytes) % 8 = 0 := by omega
      refine List.Pairwise.cons ?_ (ih aligned' (by omega))
      intro lower member
      exact (placed_bounds aligned' (by omega) member).2

section

variable {Store : Type} {space : PhysicalSpace Store}

structure Packed (phys : Nat) (found : List (Nat × Bytes)) (before after : WordMemory) : Prop where
  stored : ∀ start ∈ found,
    StoredAt after.loadByte (· + 1) (phys + start.1) (start.2 ++ [0#8])
  frame : ChangesBytes (fun address => ∃ start ∈ found, Holds (phys + start.1, start.2) address)
    before after

theorem stored_bytes (memory : WordMemory) (address : Nat) (bytes : Bytes) :
    StoredAt (memory.storeBytes address bytes).loadByte (· + 1) address bytes := by
  rw [stored_iff_get]
  intro k below
  rw [step_iterate, load_byte_store_bytes, if_pos (by omega),
    show address + 1 * k - address = k by omega, List.getD_eq_getElem?_getD,
    List.getElem?_eq_getElem below, Option.getD_some]

theorem stored_kept {Allowed : Nat → Prop} {before after : WordMemory} {address : Nat}
    {bytes : Bytes} (changes : ChangesBytes Allowed before after)
    (outside : ∀ k, k < bytes.length → ¬Allowed (address + k))
    (stored : StoredAt before.loadByte (· + 1) address bytes) :
    StoredAt after.loadByte (· + 1) address bytes := by
  refine stored_congr ?_ stored
  intro k below
  rw [step_iterate, Nat.one_mul]
  exact changes _ (outside k below)

theorem push_strings_ends {phys va off : Nat} {strings : List Bytes} (aligned : off % 8 = 0) :
    Fallible.Ends (pushStrings phys va strings off) space
      (fun pushed later => footprint strings ≤ off ∧
        pushed = ((placed strings off).map fun start => va + start.1, off - footprint strings) ∧
        Packed phys (placed strings off) space.memory later.memory)
      fun later => off < footprint strings ∧
        ChangesBytes (fun address => phys ≤ address ∧ address < phys + off) space.memory
          later.memory := by
  induction strings generalizing off space with
  | nil =>
      refine Fallible.ends_pure ⟨Nat.zero_le _, rfl, ?_, fun _ _ => rfl⟩
      intro start member
      cases member
  | cons bytes rest ih =>
      obtain ⟨long, whole⟩ := room_bounds bytes
      rw [footprint_cons]
      unfold pushStrings
      split_ifs with short
      · exact Fallible.ends_fail ⟨by omega, fun _ _ => rfl⟩
      · have room : roomOf bytes ≤ off := by
          unfold roomOf
          omega
        have next : (off - (bytes.length + 1)) / 8 * 8 = off - roomOf bytes := by
          unfold roomOf
          omega
        have wrote : ChangesBytes (Holds (phys + (off - roomOf bytes), bytes)) space.memory
            (space.memory.storeBytes (phys + (off - roomOf bytes)) (bytes ++ [0#8])) := by
          apply (store_bytes_changes_bytes _ _ _).mono
          intro address allowed
          rw [List.length_append, List.length_singleton] at allowed
          exact allowed
        rw [next]
        apply Fallible.ends_bind_modify
        apply Fallible.ends_bind
        · apply Fallible.ends_mono (@ih _ (off - roomOf bytes) (by omega))
          · intro pushed later reached
            exact reached
          · rintro later ⟨full, changes⟩
            refine ⟨by omega, (wrote.trans changes).mono ?_⟩
            rintro address (⟨low, high⟩ | ⟨low, high⟩)
            · dsimp only at low high
              omega
            · omega
        · rintro pushed later ⟨fits, rfl, packed⟩
          refine Fallible.ends_pure ⟨by omega, ?_, ?_, ?_⟩
          · dsimp only
            rw [placed, List.map_cons, Nat.sub_sub]
          · intro start member
            rcases List.mem_cons.mp member with rfl | below
            · apply stored_kept packed.frame _ (stored_bytes _ _ _)
              rintro k inside ⟨start, member, low, high⟩
              have bounds := placed_bounds (by omega) fits member
              dsimp only at low high
              omega
            · exact packed.stored start below
          · apply (wrote.trans packed.frame).mono
            rintro address (here | ⟨start, member, holds⟩)
            · exact ⟨_, List.mem_cons_self, here⟩
            · exact ⟨start, List.mem_cons_of_mem _ member, holds⟩

theorem write_words_ends {address : Nat} {words : List (BitVec 64)} (aligned : address % 8 = 0) :
    Fallible.Ends (writeWords address words) space
      (fun _ later => StoredAt later.memory.load (· + 8) address words ∧
        ChangesBytes (fun other => address ≤ other ∧ other < address + words.length * 8)
          space.memory later.memory)
      fun _ => False := by
  induction words generalizing address space with
  | nil => exact Fallible.ends_pure ⟨trivial, fun _ _ => rfl⟩
  | cons word rest ih =>
      unfold writeWords
      apply Fallible.ends_bind_modify
      apply Fallible.ends_mono (@ih _ (address + 8) (by omega))
      · rintro _ later ⟨stored, changes⟩
        refine ⟨⟨?_, stored⟩, ?_⟩
        · rw [changes.load aligned (fun i below => by omega)]
          exact Function.update_self _ _ _
        · apply ((store_changes_bytes space.memory aligned word).trans changes).mono
          intro other allowed
          rw [List.length_cons]
          omega
      · exact fun _ => id

def argvPlaces (region : StackRegion) (argv : List Bytes) : List (Nat × Bytes) :=
  placed argv (region.size - 16)

def envpPlaces (region : StackRegion) (argv envp : List Bytes) : List (Nat × Bytes) :=
  placed envp (region.size - 16 - footprint argv)

def tableOff (region : StackRegion) (argv envp : List Bytes) : Nat :=
  (region.size - 16 - footprint argv - footprint envp - tableSize argv envp) / 16 * 16

def pointersTo (region : StackRegion) (places : List (Nat × Bytes)) : List Nat :=
  places.map fun start => region.base + start.1

def tableOf (region : StackRegion) (argv envp : List Bytes) (image : LoadedImage) :
    List (BitVec 64) :=
  abiTable (pointersTo region (argvPlaces region argv))
    (pointersTo region (envpPlaces region argv envp)) image (region.base + (region.size - 16))

structure Laid (region : StackRegion) (argv envp : List Bytes) (image : LoadedImage)
    (seed : BitVec 64) (before after : WordMemory) : Prop where
  fits : Fits region.size argv envp
  table : StoredAt after.load (· + 8) (region.phys + tableOff region argv envp)
    (tableOf region argv envp image)
  strings : ∀ start ∈ argvPlaces region argv ++ envpPlaces region argv envp,
    StoredAt after.loadByte (· + 1) (region.phys + start.1) (start.2 ++ [0#8])
  seeded : after.load (region.phys + (region.size - 16)) = seed ∧
    after.load (region.phys + (region.size - 16 + 8)) = seed ^^^ 0xDEADBEEFCAFE1234#64
  frame : ChangesBytes (fun address =>
      (region.phys + (region.size - 16) ≤ address ∧ address < region.phys + region.size) ∨
      (∃ start ∈ argvPlaces region argv ++ envpPlaces region argv envp,
        Holds (region.phys + start.1, start.2) address) ∨
      (region.phys + tableOff region argv envp ≤ address ∧
        address < region.phys + tableOff region argv envp + tableSize argv envp)) before after

variable {region : StackRegion} {argv envp : List Bytes} {image : LoadedImage}

theorem table_length : (tableOf region argv envp image).length * 8 = tableSize argv envp := by
  have argvLength := congrArg List.length (placed_strings argv (region.size - 16))
  have envpLength := congrArg List.length
    (placed_strings envp (region.size - 16 - footprint argv))
  rw [List.length_map] at argvLength envpLength
  simp only [tableOf, abiTable, pointersTo, argvPlaces, envpPlaces, tableSize, List.length_map,
    List.length_append, List.length_cons, List.length_nil, argvLength, envpLength]
  omega

theorem region_bounds (region : StackRegion) :
    16 ≤ region.size ∧ region.size % 16 = 0 ∧ region.phys % 8 = 0 := by
  have positive := region.positive
  have whole := region.whole
  exact ⟨by omega, whole, region.physAligned⟩

theorem footprint_aligned (strings : List Bytes) : footprint strings % 8 = 0 := by
  induction strings with
  | nil => rfl
  | cons bytes rest ih =>
      have whole := (room_bounds bytes).2
      rw [footprint_cons]
      omega

theorem seed_written (region : StackRegion) (memory : WordMemory) (seed other : BitVec 64) :
    let after := (memory.store (region.phys + (region.size - 16)) seed).store
      (region.phys + (region.size - 16 + 8)) other
    after.load (region.phys + (region.size - 16)) = seed ∧
      after.load (region.phys + (region.size - 16 + 8)) = other ∧
      ChangesBytes (fun address => region.phys + (region.size - 16) ≤ address ∧
        address < region.phys + region.size) memory after := by
  obtain ⟨large, whole, aligned⟩ := region_bounds region
  refine ⟨?_, Function.update_self _ _ _, ?_⟩
  · have apart : (region.phys + (region.size - 16)) / 8 ≠
        (region.phys + (region.size - 16 + 8)) / 8 := by omega
    exact (Function.update_of_ne apart _ _).trans (Function.update_self _ _ _)
  · have first := store_changes_bytes memory
      (show (region.phys + (region.size - 16)) % 8 = 0 by omega) seed
    have second := store_changes_bytes (memory.store (region.phys + (region.size - 16)) seed)
      (show (region.phys + (region.size - 16 + 8)) % 8 = 0 by omega) other
    apply (first.trans second).mono
    omega

theorem laid_of_packed {seed : BitVec 64} {before seeded first second after : WordMemory}
    (fits : Fits region.size argv envp)
    (words : seeded.load (region.phys + (region.size - 16)) = seed ∧
      seeded.load (region.phys + (region.size - 16 + 8)) = seed ^^^ 0xDEADBEEFCAFE1234#64)
    (wroteSeed : ChangesBytes (fun address => region.phys + (region.size - 16) ≤ address ∧
      address < region.phys + region.size) before seeded)
    (packedArgv : Packed region.phys (argvPlaces region argv) seeded first)
    (packedEnvp : Packed region.phys (envpPlaces region argv envp) first second)
    (table : StoredAt after.load (· + 8) (region.phys + tableOff region argv envp)
      (tableOf region argv envp image))
    (wroteTable : ChangesBytes (fun address => region.phys + tableOff region argv envp ≤ address ∧
      address < region.phys + tableOff region argv envp + tableSize argv envp) second after) :
    Laid region argv envp image seed before after := by
  obtain ⟨large, whole, aligned⟩ := region_bounds region
  have argvAligned := footprint_aligned argv
  unfold Fits at fits
  have argvBounds : ∀ start ∈ argvPlaces region argv,
      region.size - 16 - footprint argv ≤ start.1 ∧
        start.1 + (start.2.length + 1) ≤ region.size - 16 :=
    fun start => placed_bounds (by omega) (by omega)
  have envpBounds : ∀ start ∈ envpPlaces region argv envp,
      region.size - 16 - footprint argv - footprint envp ≤ start.1 ∧
        start.1 + (start.2.length + 1) ≤ region.size - 16 - footprint argv :=
    fun start => placed_bounds (by omega) (by omega)
  have below : tableOff region argv envp + tableSize argv envp ≤
      region.size - 16 - footprint argv - footprint envp := by
    unfold tableOff
    omega
  have wroteEnvp : ChangesBytes (fun address => region.phys ≤ address ∧
      address < region.phys + (region.size - 16 - footprint argv)) first after := by
    apply (packedEnvp.frame.trans wroteTable).mono
    rintro address (⟨start, member, low, high⟩ | ⟨low, high⟩)
    · have bounds := envpBounds start member
      dsimp only at low high
      omega
    · omega
  have wroteStrings : ChangesBytes (fun address => region.phys ≤ address ∧
      address < region.phys + (region.size - 16)) seeded after := by
    apply (packedArgv.frame.trans wroteEnvp).mono
    rintro address (⟨start, member, low, high⟩ | ⟨low, high⟩)
    · have bounds := argvBounds start member
      dsimp only at low high
      omega
    · omega
  refine ⟨fits, table, ?_, ⟨?_, ?_⟩, ?_⟩
  · intro start member
    rcases List.mem_append.mp member with argument | setting
    · have bounds := argvBounds start argument
      apply stored_kept wroteEnvp _ (packedArgv.stored start argument)
      intro k inside
      omega
    · have bounds := envpBounds start setting
      apply stored_kept wroteTable _ (packedEnvp.stored start setting)
      intro k inside
      omega
  · rw [wroteStrings.load (by omega) (fun i inside => by omega)]
    exact words.1
  · rw [wroteStrings.load (by omega) (fun i inside => by omega)]
    exact words.2
  · apply (wroteSeed.trans (packedArgv.frame.trans (packedEnvp.frame.trans wroteTable))).mono
    rintro address (here | ⟨start, member, holds⟩ | ⟨start, member, holds⟩ | here)
    · exact .inl here
    · exact .inr (.inl ⟨start, List.mem_append_left _ member, holds⟩)
    · exact .inr (.inl ⟨start, List.mem_append_right _ member, holds⟩)
    · exact .inr (.inr here)

theorem setup_abi_stack_ends {argv0 : Bytes} {seed : BitVec 64}
    (few : argv.length ≤ maxExecVec ∧ envp.length ≤ maxExecVec) :
    Fallible.Ends
      (setupAbiStack region.phys region.size region.top argv0 argv envp image seed) space
      (fun rsp later => rsp = region.base + tableOff region (startArgv argv0 argv) envp ∧
        Laid region (startArgv argv0 argv) envp image seed space.memory later.memory)
      fun later => ¬Fits region.size (startArgv argv0 argv) envp ∧
        ChangesBytes (fun address => region.phys ≤ address ∧ address < region.phys + region.size)
          space.memory later.memory := by
  obtain ⟨large, whole, aligned⟩ := region_bounds region
  have fewArgv : (startArgv argv0 argv).length ≤ maxExecVec := by
    unfold startArgv
    split_ifs
    · exact Nat.succ_le_of_lt (by decide)
    · exact few.1
  have base : region.top - region.size = region.base := rfl
  have argvOf : (if argv.isEmpty then [argv0] else argv) = startArgv argv0 argv := rfl
  unfold setupAbiStack
  dsimp only
  rw [base, argvOf, List.take_of_length_le fewArgv, List.take_of_length_le few.2]
  apply Fallible.ends_bind_modify
  apply Fallible.ends_bind_modify
  obtain ⟨low, high, wroteSeed⟩ :=
    seed_written region space.memory seed (seed ^^^ 0xDEADBEEFCAFE1234#64)
  apply Fallible.ends_bind
  · apply Fallible.ends_mono (push_strings_ends (by omega))
    · exact fun _ _ => id
    · rintro later ⟨full, changes⟩
      refine ⟨by unfold Fits; omega, (wroteSeed.trans changes).mono ?_⟩
      omega
  rintro pushedArgv first ⟨fitsArgv, rfl, packedArgv⟩
  have argvAligned := footprint_aligned (startArgv argv0 argv)
  have wroteArgv : ChangesBytes (fun address => region.phys ≤ address ∧
      address < region.phys + region.size) space.memory first.memory := by
    apply (wroteSeed.trans packedArgv.frame).mono
    rintro address (here | ⟨start, member, low, high⟩)
    · omega
    · have bounds := placed_bounds (by omega) fitsArgv member
      dsimp only at low high
      omega
  apply Fallible.ends_bind
  · apply Fallible.ends_mono (push_strings_ends (by dsimp only; omega))
    · exact fun _ _ => id
    · rintro later ⟨full, changes⟩
      dsimp only at full changes
      refine ⟨by unfold Fits; omega, (wroteArgv.trans changes).mono ?_⟩
      omega
  rintro pushedEnvp second ⟨fitsEnvp, rfl, packedEnvp⟩
  dsimp only at fitsEnvp packedEnvp ⊢
  have envpAligned := footprint_aligned envp
  have tableLength := @table_length region (startArgv argv0 argv) envp image
  unfold tableOf pointersTo argvPlaces envpPlaces at tableLength
  rw [tableLength]
  split_ifs with short
  · refine Fallible.ends_fail ⟨by unfold Fits; omega, (wroteArgv.trans packedEnvp.frame).mono ?_⟩
    rintro address (here | ⟨start, member, low, high⟩)
    · exact here
    · have bounds := placed_bounds (by omega) fitsEnvp member
      dsimp only at low high
      omega
  · have fits : Fits region.size (startArgv argv0 argv) envp := by
      unfold Fits
      omega
    apply Fallible.ends_bind
    · apply Fallible.ends_mono (write_words_ends (by omega))
      · exact fun _ _ => id
      · exact fun _ => False.elim
    rintro _ after ⟨table, wroteTable⟩
    rw [tableLength] at wroteTable
    exact Fallible.ends_pure ⟨rfl, laid_of_packed fits ⟨low, high⟩ wroteSeed packedArgv packedEnvp
      table wroteTable⟩

theorem base_bounds (region : StackRegion) :
    region.base + region.size = region.top ∧ region.base % 16 = 0 ∧ region.top ≤ 2 ^ 64 := by
  have fits := region.fits
  have whole := region.whole
  have topAligned := region.topAligned
  unfold StackRegion.base
  exact ⟨by omega, by omega, region.representable⟩

theorem word_at_base (region : StackRegion) (memory : WordMemory) (off : Nat) :
    region.wordAt memory (region.base + off) = memory.load (region.phys + off) := by
  rw [StackRegion.wordAt, Nat.add_sub_cancel_left]

theorem byte_at_base (region : StackRegion) (memory : WordMemory) (off : Nat) :
    region.byteAt memory (region.base + off) = memory.loadByte (region.phys + off) := by
  rw [StackRegion.byteAt, Nat.add_sub_cancel_left]

theorem words_at_base {memory : WordMemory} {off : Nat} {words : List (BitVec 64)}
    (stored : StoredAt memory.load (· + 8) (region.phys + off) words) :
    StoredAt (region.wordAt memory) (· + 8) (region.base + off) words := by
  refine stored_congr ?_ stored
  intro k _
  rw [step_iterate, step_iterate, Nat.add_assoc, word_at_base, Nat.add_assoc]

theorem string_at_base {memory : WordMemory} {off : Nat} {bytes : Bytes}
    (stored : StoredAt memory.loadByte (· + 1) (region.phys + off) (bytes ++ [0#8]))
    (plain : 0#8 ∉ bytes) (short : bytes.length < region.size) :
    region.readString memory (region.base + off) = some bytes := by
  have moved : StoredAt (region.byteAt memory) (· + 1) (region.base + off) (bytes ++ [0#8]) := by
    refine stored_congr ?_ stored
    intro k _
    rw [step_iterate, step_iterate, Nat.add_assoc, byte_at_base, Nat.add_assoc]
  refine (read_until_stored moved ?_ rfl short).1
  intro byte member
  rw [beq_eq_false_iff_ne]
  rintro rfl
  exact plain member

theorem pairs_stored {memory : WordMemory} {va : Nat} {pairs : List (BitVec 64 × BitVec 64)}
    (stored : StoredAt (region.wordAt memory) (· + 8) va
      (pairs.flatMap fun pair => [pair.1, pair.2])) :
    StoredAt (region.pairAt memory) (· + 16) va pairs := by
  induction pairs generalizing va with
  | nil => trivial
  | cons pair pairs ih =>
      obtain ⟨first, second, rest⟩ := stored
      exact ⟨Prod.ext first second, ih rest⟩

theorem auxv_read {memory : WordMemory} {va randVa : Nat} (large : 10 < region.size)
    (stored : StoredAt (region.wordAt memory) (· + 8) va
      ((auxvPairs image randVa).flatMap fun pair => [pair.1, pair.2])) :
    region.readAuxv memory va = some (auxvPairs image randVa) := by
  have whole : auxvPairs image randVa = (auxvPairs image randVa).dropLast ++ [(0#64, 0#64)] := rfl
  have pairs := pairs_stored stored
  rw [whole] at pairs
  have last := (stored_append.mp pairs).2.1
  rw [step_iterate] at last
  have read : readUntil (region.pairAt memory) (· + 16) (fun pair => pair.1 == 0) region.size va =
      some (auxvPairs image randVa).dropLast :=
    (read_until_stored pairs (by simp [auxvPairs]) rfl large).1
  rw [StackRegion.readAuxv, read, Option.map_some, last]
  exact congrArg some whole.symm

theorem strings_read {memory : WordMemory} {places : List (Nat × Bytes)}
    (read : ∀ start ∈ places, region.base + start.1 < 2 ^ 64 ∧
      region.readString memory (region.base + start.1) = some start.2) :
    region.readStrings memory ((pointersTo region places).map (BitVec.ofNat 64)) =
      some (places.map fun start => (region.base + start.1, start.2)) := by
  unfold StackRegion.readStrings pointersTo
  induction places with
  | nil => rfl
  | cons start places ih =>
      obtain ⟨below, here⟩ := read start List.mem_cons_self
      have rest := ih fun other member => read other (List.mem_cons_of_mem _ member)
      rw [List.map_cons, List.map_cons, List.mapM_cons, rest, BitVec.toNat_ofNat,
        Nat.mod_eq_of_lt below, here]
      rfl

theorem table_eq : tableOf region argv envp image =
    BitVec.ofNat 64 argv.length ::
      ((pointersTo region (argvPlaces region argv)).map (BitVec.ofNat 64) ++ 0#64 ::
        ((pointersTo region (envpPlaces region argv envp)).map (BitVec.ofNat 64) ++ 0#64 ::
          (auxvPairs image (region.top - 16)).flatMap fun pair => [pair.1, pair.2])) := by
  have argvLength := congrArg List.length (placed_strings argv (region.size - 16))
  rw [List.length_map] at argvLength
  have bounds := base_bounds region
  have large := (region_bounds region).1
  have randVa : region.base + (region.size - 16) = region.top - 16 := by omega
  simp [tableOf, abiTable, auxvPairs, pointersTo, argvPlaces, argvLength, randVa]

def startInfo (region : StackRegion) (argv envp : List Bytes) (image : LoadedImage) :
    StartInfo where
  argc := BitVec.ofNat 64 argv.length
  argv := (argvPlaces region argv).map fun start => (region.base + start.1, start.2)
  envp := (envpPlaces region argv envp).map fun start => (region.base + start.1, start.2)
  auxv := auxvPairs image (region.top - 16)

theorem start_info_strings : (startInfo region argv envp image).argv.map Prod.snd = argv ∧
    (startInfo region argv envp image).envp.map Prod.snd = envp := by
  simp only [startInfo, List.map_map]
  exact ⟨placed_strings argv _, placed_strings envp _⟩

theorem places_bounds (fits : Fits region.size argv envp) :
    (∀ start ∈ argvPlaces region argv, region.size - 16 - footprint argv ≤ start.1 ∧
      start.1 + (start.2.length + 1) ≤ region.size - 16) ∧
    (∀ start ∈ envpPlaces region argv envp,
      tableOff region argv envp + tableSize argv envp ≤ start.1 ∧
        start.1 + (start.2.length + 1) ≤ region.size - 16 - footprint argv) := by
  obtain ⟨large, whole, _⟩ := region_bounds region
  have argvAligned := footprint_aligned argv
  unfold Fits at fits
  have below : tableOff region argv envp + tableSize argv envp ≤
      region.size - 16 - footprint argv - footprint envp := by
    unfold tableOff
    omega
  refine ⟨fun start => placed_bounds (by omega) (by omega), fun start member => ?_⟩
  have bounds := placed_bounds (by omega) (by omega) member
  omega

theorem strings_between (fits : Fits region.size argv envp) :
    ∀ start ∈ argvPlaces region argv ++ envpPlaces region argv envp,
      tableOff region argv envp + tableSize argv envp ≤ start.1 ∧
        start.1 + (start.2.length + 1) ≤ region.size - 16 := by
  obtain ⟨argvBounds, envpBounds⟩ := places_bounds fits
  intro start member
  rcases List.mem_append.mp member with argument | setting
  · have bounds := argvBounds start argument
    unfold Fits at fits
    unfold tableOff
    omega
  · have bounds := envpBounds start setting
    omega

theorem objects_eq (rsp : Nat) : (startInfo region argv envp image).objects region rsp =
    (region.top - 16, 16) ::
      ((argvPlaces region argv ++ envpPlaces region argv envp).map
        (fun start => (region.base + start.1, start.2.length + 1)) ++
          [(rsp, tableSize argv envp)]) := by
  rw [StartInfo.objects, start_info_strings.1, start_info_strings.2, List.cons_append]
  simp only [startInfo, List.map_append, List.map_map]
  rfl

theorem mem_objects {rsp : Nat} {object : Nat × Nat} :
    object ∈ (startInfo region argv envp image).objects region rsp ↔
      object = (region.top - 16, 16) ∨
      (∃ start ∈ argvPlaces region argv ++ envpPlaces region argv envp,
        object = (region.base + start.1, start.2.length + 1)) ∨
      object = (rsp, tableSize argv envp) := by
  rw [objects_eq, List.mem_cons, List.mem_append, List.mem_map, List.mem_singleton]
  simp only [eq_comm]

theorem objects_descend (fits : Fits region.size argv envp) :
    ((startInfo region argv envp image).objects region
      (region.base + tableOff region argv envp)).Pairwise
        fun upper lower => lower.1 + lower.2 ≤ upper.1 := by
  obtain ⟨argvBounds, envpBounds⟩ := places_bounds fits
  obtain ⟨together, _⟩ := base_bounds region
  obtain ⟨large, whole, _⟩ := region_bounds region
  have argvAligned := footprint_aligned argv
  have between := @strings_between region argv envp fits
  unfold Fits at fits
  rw [objects_eq, List.pairwise_cons, List.pairwise_append, List.pairwise_map,
    List.pairwise_append]
  refine ⟨?_, ⟨?_, ?_, ?_⟩, List.pairwise_singleton _ _, ?_⟩
  · intro object member
    rcases List.mem_append.mp member with found | last
    · obtain ⟨start, among, rfl⟩ := List.mem_map.mp found
      have bounds := between start among
      dsimp only
      omega
    · obtain rfl := List.mem_singleton.mp last
      dsimp only
      unfold tableOff
      omega
  · apply (placed_apart (by omega) (by omega)).imp
    intro upper lower apart
    dsimp only
    omega
  · apply (placed_apart (by omega) (by omega)).imp
    intro upper lower apart
    dsimp only
    omega
  · intro upper argument lower setting
    have above := argvBounds upper argument
    have below := envpBounds lower setting
    dsimp only
    omega
  · intro upper member lower last
    obtain ⟨start, among, rfl⟩ := List.mem_map.mp member
    obtain rfl := List.mem_singleton.mp last
    have bounds := between start among
    dsimp only
    omega

theorem pointers_read {memory : WordMemory} {va : Nat} {places : List (Nat × Bytes)}
    {rest : List (BitVec 64)}
    (stored : StoredAt (region.wordAt memory) (· + 8) va
      ((pointersTo region places).map (BitVec.ofNat 64) ++ 0#64 :: rest))
    (inside : ∀ start ∈ places, 0 < start.1 ∧ start.1 < region.size)
    (few : places.length < region.size) :
    region.readPointers memory va = some ((pointersTo region places).map (BitVec.ofNat 64)) ∧
      StoredAt (region.wordAt memory) (· + 8) (va + 8 * (places.length + 1)) rest := by
  obtain ⟨together, _, top⟩ := base_bounds region
  obtain ⟨read, later⟩ := @read_until_stored _ _ _ _ (· == 0#64) _ region.size _ _ _ stored
    (by
      intro word member
      obtain ⟨pointer, among, rfl⟩ := List.mem_map.mp member
      obtain ⟨start, known, rfl⟩ := List.mem_map.mp among
      have bounds := inside start known
      rw [beq_eq_false_iff_ne]
      intro null
      have value := congrArg BitVec.toNat null
      rw [BitVec.toNat_ofNat, Nat.mod_eq_of_lt (by omega)] at value
      simp at value
      omega)
    rfl (by simpa [pointersTo] using few)
  refine ⟨read, ?_⟩
  rw [step_iterate, List.length_map, pointersTo, List.length_map] at later
  rw [Nat.mul_succ, ← Nat.add_assoc]
  exact later

theorem pointers_length (places : List (Nat × Bytes)) :
    ((pointersTo region places).map (BitVec.ofNat 64)).length = places.length := by
  simp [pointersTo]

theorem start_read {memory : WordMemory} (plain : ∀ bytes ∈ argv ++ envp, 0#8 ∉ bytes)
    (fits : Fits region.size argv envp)
    (table : StoredAt memory.load (· + 8) (region.phys + tableOff region argv envp)
      (tableOf region argv envp image))
    (strings : ∀ start ∈ argvPlaces region argv ++ envpPlaces region argv envp,
      StoredAt memory.loadByte (· + 1) (region.phys + start.1) (start.2 ++ [0#8])) :
    region.readStart memory (region.base + tableOff region argv envp) =
      some (startInfo region argv envp image) := by
  obtain ⟨together, _, top⟩ := base_bounds region
  have between := @strings_between region argv envp fits
  have argvCount := congrArg List.length (placed_strings argv (region.size - 16))
  have envpCount := congrArg List.length (placed_strings envp (region.size - 16 - footprint argv))
  rw [List.length_map] at argvCount envpCount
  unfold Fits tableSize at fits
  have inside : ∀ start ∈ argvPlaces region argv ++ envpPlaces region argv envp,
      0 < start.1 ∧ start.1 < region.size := by
    intro start member
    have bounds := between start member
    unfold tableSize at bounds
    omega
  have found : ∀ start ∈ argvPlaces region argv ++ envpPlaces region argv envp,
      region.base + start.1 < 2 ^ 64 ∧
        region.readString memory (region.base + start.1) = some start.2 := by
    intro start member
    have bounds := between start member
    refine ⟨by omega, string_at_base (strings start member) ?_ (by omega)⟩
    apply plain
    rw [← placed_strings argv (region.size - 16), ← placed_strings envp
      (region.size - 16 - footprint argv), ← List.map_append]
    exact List.mem_map_of_mem member
  have words := words_at_base table
  rw [table_eq] at words
  obtain ⟨argc, argvWords⟩ := words
  obtain ⟨argvRead, envpWords⟩ := pointers_read argvWords
    (fun start member => inside start (List.mem_append_left _ member))
    (by unfold argvPlaces; omega)
  obtain ⟨envpRead, auxvWords⟩ := pointers_read envpWords
    (fun start member => inside start (List.mem_append_right _ member))
    (by unfold envpPlaces; omega)
  have argvStrings := strings_read fun start member =>
    found start (List.mem_append_left _ member)
  have envpStrings := strings_read fun start member =>
    found start (List.mem_append_right _ member)
  have auxv := auxv_read (by omega) auxvWords
  rw [StackRegion.readStart, argvRead]
  simp only [Option.bind_eq_bind, Option.bind_some, argvStrings, pointers_length, envpRead,
    envpStrings, auxv, argc]
  rfl

theorem laid_encodes {seed : BitVec 64} {before after : WordMemory}
    (plain : ∀ bytes ∈ argv ++ envp, 0#8 ∉ bytes)
    (laid : Laid region argv envp image seed before after) :
    Encodes region argv envp image seed before after
      (region.base + tableOff region argv envp) (startInfo region argv envp image) := by
  obtain ⟨together, baseAligned, top⟩ := base_bounds region
  obtain ⟨large, whole, _⟩ := region_bounds region
  obtain ⟨argvBounds, envpBounds⟩ := places_bounds laid.fits
  have fits := laid.fits
  unfold Fits tableSize at fits
  constructor
  · unfold tableOff
    omega
  · unfold tableOff
    omega
  · exact start_read plain laid.fits laid.table laid.strings
  · rfl
  · exact start_info_strings.1
  · exact start_info_strings.2
  · rfl
  · constructor
    · rw [show region.top - 16 = region.base + (region.size - 16) by omega, word_at_base]
      exact laid.seeded.1
    · rw [show region.top - 8 = region.base + (region.size - 16 + 8) by omega, word_at_base]
      exact laid.seeded.2
  · intro object member
    rcases mem_objects.mp member with rfl | ⟨start, among, rfl⟩ | rfl
    · dsimp only
      omega
    · have bounds := strings_between laid.fits start among
      dsimp only
      omega
    · dsimp only
      unfold tableOff tableSize
      omega
  · exact (objects_descend laid.fits).imp .inr
  · intro address outside
    apply laid.frame
    rintro (⟨low, high⟩ | ⟨start, member, low, high⟩ | ⟨low, high⟩)
    · apply outside _ (mem_objects.mpr (.inl rfl))
      dsimp only
      omega
    · apply outside _ (mem_objects.mpr (.inr (.inl ⟨start, member, rfl⟩)))
      dsimp only at low high ⊢
      omega
    · apply outside _ (mem_objects.mpr (.inr (.inr rfl)))
      dsimp only
      omega

theorem laid_inside {seed : BitVec 64} {before after : WordMemory}
    (laid : Laid region argv envp image seed before after) :
    ChangesBytes (fun address => region.phys ≤ address ∧ address < region.phys + region.size)
      before after := by
  have fits := laid.fits
  unfold Fits at fits
  apply laid.frame.mono
  rintro address (⟨low, high⟩ | ⟨start, member, low, high⟩ | ⟨low, high⟩)
  · omega
  · have bounds := strings_between laid.fits start member
    dsimp only at low high
    omega
  · unfold tableOff at low high
    omega

/-- The call returns a stack pointer from which the program reads what was put
in, or nothing exactly if it does not fit; in either case it writes inside the
region only. -/
theorem initial_stack_decodes (region : StackRegion) (argv0 : Bytes) {argv envp : List Bytes}
    (image : LoadedImage) (seed : BitVec 64) (space : PhysicalSpace Store)
    (few : argv.length ≤ maxExecVec ∧ envp.length ≤ maxExecVec)
    (plain : ∀ bytes ∈ startArgv argv0 argv ++ envp, 0#8 ∉ bytes) :
    let outcome :=
      setupAbiStack region.phys region.size region.top argv0 argv envp image seed space
    (outcome.1 = none ↔ ¬Fits region.size (startArgv argv0 argv) envp) ∧
      ChangesBytes (fun address => region.phys ≤ address ∧ address < region.phys + region.size)
        space.memory outcome.2.memory ∧
      ∀ rsp, outcome.1 = some rsp → ∃ info, Encodes region (startArgv argv0 argv) envp image seed
        space.memory outcome.2.memory rsp info := by
  have ends := @setup_abi_stack_ends _ space region argv envp image argv0 seed few
  generalize setupAbiStack region.phys region.size region.top argv0 argv envp image seed = call
    at ends
  dsimp only
  cases outcome : call space with
  | mk result later =>
      cases result with
      | none =>
          obtain ⟨unfit, changes⟩ := ends.2 later outcome
          exact ⟨iff_of_true rfl unfit, changes, fun _ returned => by cases returned⟩
      | some rsp =>
          obtain ⟨rfl, laid⟩ := ends.1 rsp later outcome
          have encodes := laid_encodes plain laid
          refine ⟨iff_of_false (by simp) (not_not.mpr laid.fits), laid_inside laid, ?_⟩
          rintro _ ⟨⟩
          exact ⟨_, encodes⟩

end

def smallRegion : StackRegion where
  phys := 0x10000
  size := 512
  top := 0x8000
  positive := by decide
  whole := by decide
  physAligned := by decide
  topAligned := by decide
  fits := by decide
  representable := by decide

def noImage : LoadedImage := ⟨0, 0, 0, 0, 0⟩

/-- Two arguments and an environment string in half a kilobyte. -/
def smallCall : Option Nat × PhysicalSpace Unit :=
  setupAbiStack smallRegion.phys smallRegion.size smallRegion.top [] [[0x61#8], []]
    [[0x62#8, 0x3D#8]] noImage 7#64 ⟨fun _ => 0#64, ()⟩

theorem small_stack_decodes : ∃ rsp info, smallCall.1 = some rsp ∧
    Encodes smallRegion [[0x61#8], []] [[0x62#8, 0x3D#8]] noImage 7#64 (fun _ => 0#64)
      smallCall.2.memory rsp info := by
  have decodes := @initial_stack_decodes Unit smallRegion [] [[0x61#8], []] [[0x62#8, 0x3D#8]]
    noImage 7#64 ⟨fun _ => 0#64, ()⟩ (by decide) (by decide)
  change (smallCall.1 = none ↔ _) ∧ _ ∧ ∀ rsp, smallCall.1 = some rsp → _ at decodes
  obtain ⟨fails, _, encodes⟩ := decodes
  have fits : Fits smallRegion.size [[0x61#8], []] [[0x62#8, 0x3D#8]] := by
    unfold Fits
    decide
  obtain ⟨rsp, returned⟩ := Option.ne_none_iff_exists'.mp fun failed => fails.mp failed fits
  obtain ⟨info, encoded⟩ := encodes rsp returned
  exact ⟨rsp, info, returned, encoded⟩

end Ferrugem.InitialStacks
