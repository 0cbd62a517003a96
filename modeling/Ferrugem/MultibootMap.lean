import Ferrugem.FrameBitmapModel
import Ferrugem.Library.ByteWindows
import Ferrugem.Library.SelfDelimiting

/-!
# The memory map of the boot loader

`kernel/src/boards/qemu_pc/multiboot.rs` and its copy for VirtualBox. The table of
the boot loader is a run of entries of different sizes; `parse_mmap_entries` reads
it through a window, so that what it returns shows that it read nothing outside.
The address and the length have 32 bits, and no sum of the loop wraps in a `usize`.
-/

namespace Ferrugem.MultibootMap

open Ferrugem.FrameBitmapModel ByteWindows SelfDelimiting

set_option autoImplicit false

def entryKind (kindRaw : Nat) : RegionKind := if kindRaw = 1 then .usable else .reserved

/-- The `while` loop of `parse_mmap_entries` from a value of `ptr` on; nothing if
it reads outside the window. -/
def parseFrom (ram : Window) (stop ptr : Nat) (map : MemoryMap) : Option MemoryMap :=
  if ptr + 4 ≤ stop then
    (ram.readLe ptr 4).bind fun entrySize =>
      if entrySize < 20 ∨ stop < ptr + 4 + entrySize then some map
      else
        (ram.readLe (ptr + 4) 8).bind fun base =>
          (ram.readLe (ptr + 12) 8).bind fun len =>
            (ram.readLe (ptr + 20) 4).bind fun kindRaw =>
              parseFrom ram stop (ptr + 4 + entrySize) (map.add base len (entryKind kindRaw))
  else some map
termination_by stop - ptr

def parseMmapEntries (ram : Window) (map : MemoryMap) (mmapAddr mmapLen : UInt32) :
    Option MemoryMap :=
  parseFrom ram (mmapAddr.toNat + mmapLen.toNat) mmapAddr.toNat map

/-- An entry: the size field, the region and its type, and what else the size field
covers. -/
structure MmapEntry where
  base : UInt64
  length : UInt64
  kind : UInt32
  extra : List UInt8
  fits : 20 + extra.length < 2 ^ 32

def MmapEntry.size (entry : MmapEntry) : Nat := 20 + entry.extra.length

def MmapEntry.bytes (entry : MmapEntry) : List UInt8 :=
  toLe 4 entry.size ++ (toLe 8 entry.base.toNat ++ (toLe 8 entry.length.toNat ++
    (toLe 4 entry.kind.toNat ++ entry.extra)))

def MmapEntry.region (entry : MmapEntry) : MemoryRegion where
  base := entry.base.toNat
  size := entry.length.toNat
  kind := entryKind entry.kind.toNat

/-- The memory at `mmap_addr`, which `mmap_len` bytes belong to. -/
structure MmapTable where
  address : UInt32
  bytes : List UInt8
  fits : bytes.length < 2 ^ 32

def MmapTable.window (table : MmapTable) : Window where
  base := table.address.toNat
  bytes := table.bytes

def MmapTable.parse (table : MmapTable) : Option MemoryMap :=
  parseMmapEntries table.window .empty table.address (UInt32.ofNat table.bytes.length)

def kept (regions : List MemoryRegion) : List MemoryRegion :=
  (regions.filter fun region => 0 < region.size).take maxRegions

theorem length_entry_bytes (entry : MmapEntry) : entry.bytes.length = 4 + entry.size := by
  simp only [MmapEntry.bytes, MmapEntry.size, List.length_append, length_to_le]
  omega

theorem quad_small (value : UInt64) : value.toNat < 256 ^ 8 := value.toNat_lt

theorem word_small (value : UInt32) : value.toNat < 256 ^ 4 := value.toNat_lt

theorem entry_delimited : Delimited MmapEntry.bytes where
  nonempty := by
    intro entry empty
    have size := length_entry_bytes entry
    rw [empty, List.length_nil] at size
    omega
  unique := by
    intro first second left right same
    simp only [MmapEntry.bytes, List.append_assoc] at same
    obtain ⟨sameSize, same⟩ := List.append_inj same (by simp)
    obtain ⟨sameBase, same⟩ := List.append_inj same (by simp)
    obtain ⟨sameLength, same⟩ := List.append_inj same (by simp)
    obtain ⟨sameKind, same⟩ := List.append_inj same (by simp)
    have value {width a b : Nat} (smallA : a < 256 ^ width) (smallB : b < 256 ^ width)
        (equal : toLe width a = toLe width b) : a = b := by
      rw [← from_le_small smallA, equal, from_le_small smallB]
    have size := value first.fits second.fits sameSize
    have base := UInt64.toNat_inj.mp (value (quad_small _) (quad_small _) sameBase)
    have length := UInt64.toNat_inj.mp (value (quad_small _) (quad_small _) sameLength)
    have kind := UInt32.toNat_inj.mp (value (word_small _) (word_small _) sameKind)
    obtain ⟨extra, _⟩ := List.append_inj same (by
      unfold MmapEntry.size at size
      omega)
    cases first
    cases second
    simp only [MmapEntry.mk.injEq]
    exact ⟨base, length, kind, extra⟩

theorem split_front (bytes : List UInt8) (count : Nat) (room : count ≤ bytes.length) :
    ∃ front rest, front.length = count ∧ bytes = front ++ rest :=
  ⟨bytes.take count, bytes.drop count, by rw [List.length_take, Nat.min_eq_left room],
    (List.take_append_drop count bytes).symm⟩

theorem to_le_of_length {part : List UInt8} {width : Nat} (size : part.length = width) :
    toLe width (fromLe part) = part := by
  subst size
  exact to_le_from_le part

theorem entry_of_size {bytes : List UInt8} (room : 4 ≤ bytes.length)
    (large : 20 ≤ fromLe (bytes.take 4)) (inside : 4 + fromLe (bytes.take 4) ≤ bytes.length) :
    ∃ entry rest, bytes = MmapEntry.bytes entry ++ rest := by
  obtain ⟨field, rest, sized, rfl⟩ := split_front _ 4 room
  have first : (field ++ rest).take 4 = field := by rw [← sized, List.take_left]
  have bound := from_le_lt field
  rw [first] at large inside
  rw [List.length_append, sized] at inside
  rw [sized] at bound
  obtain ⟨base, rest, sizedBase, rfl⟩ := split_front rest 8 (by omega)
  rw [List.length_append, sizedBase] at inside
  obtain ⟨length, rest, sizedLength, rfl⟩ := split_front rest 8 (by omega)
  rw [List.length_append, sizedLength] at inside
  obtain ⟨kind, rest, sizedKind, rfl⟩ := split_front rest 4 (by omega)
  rw [List.length_append, sizedKind] at inside
  obtain ⟨extra, rest, sizedExtra, rfl⟩ :=
    split_front rest (fromLe field - 20) (by omega)
  have baseBound := from_le_lt base
  have lengthBound := from_le_lt length
  have kindBound := from_le_lt kind
  rw [sizedBase] at baseBound
  rw [sizedLength] at lengthBound
  rw [sizedKind] at kindBound
  let entry : MmapEntry :=
    { base := UInt64.ofNat (fromLe base)
      length := UInt64.ofNat (fromLe length)
      kind := UInt32.ofNat (fromLe kind)
      extra := extra
      fits := by omega }
  have same : entry.bytes = field ++ (base ++ (length ++ (kind ++ extra))) := by
    have size : entry.size = fromLe field := by
      change 20 + extra.length = fromLe field
      omega
    rw [MmapEntry.bytes, size, UInt64.toNat_ofNat_of_lt' baseBound,
      UInt64.toNat_ofNat_of_lt' lengthBound, UInt32.toNat_ofNat_of_lt' kindBound,
      to_le_of_length sized, to_le_of_length sizedBase, to_le_of_length sizedLength,
      to_le_of_length sizedKind]
  refine ⟨entry, rest, ?_⟩
  rw [same]
  simp only [List.append_assoc]

section

variable {ram : Window} {stop ptr : Nat} {bytes rest : List UInt8}

theorem parse_from_entry {entry : MmapEntry} (has : ram.Has ptr entry.bytes)
    (inside : ptr + entry.bytes.length ≤ stop) (map : MemoryMap) :
    parseFrom ram stop ptr map =
      parseFrom ram stop (ptr + entry.bytes.length)
        (map.add entry.base.toNat entry.length.toNat (entryKind entry.kind.toNat)) := by
  have length := length_entry_bytes entry
  have large : 20 ≤ entry.size := Nat.le_add_right 20 entry.extra.length
  have next : ptr + entry.bytes.length = ptr + 4 + entry.size := by omega
  simp only [MmapEntry.bytes, Window.has_append, length_to_le, Nat.add_assoc,
    Nat.reduceAdd] at has
  obtain ⟨size, base, len, kind, _⟩ := has
  rw [parseFrom, if_pos (by omega), size.read_le_to_le entry.fits, Option.bind_some,
    if_neg (by omega), base.read_le_to_le (quad_small _), Option.bind_some,
    len.read_le_to_le (quad_small _), Option.bind_some,
    kind.read_le_to_le (word_small _), Option.bind_some, next]

theorem parse_from_stuck (has : ram.Has ptr bytes) (ends : ptr + bytes.length = stop)
    (stuck : Stuck MmapEntry.bytes bytes) (map : MemoryMap) :
    parseFrom ram stop ptr map = some map := by
  rw [parseFrom]
  by_cases room : 4 ≤ bytes.length
  · obtain ⟨field, rest, sized, rfl⟩ := split_front _ 4 room
    have first : (field ++ rest).take 4 = field := by rw [← sized, List.take_left]
    rw [if_pos (by omega), (Window.has_append.mp has).1.readLe sized, Option.bind_some, if_pos]
    by_contra entry
    obtain ⟨taken, more, same⟩ := entry_of_size room (by rw [first]; omega) (by
      rw [first]
      omega)
    exact stuck taken more same
  · rw [if_neg (by omega)]

theorem parse_from_splits {entries : List MmapEntry} (has : ram.Has ptr bytes)
    (ends : ptr + bytes.length = stop) (splits : Splits MmapEntry.bytes bytes entries rest)
    (stuck : Stuck MmapEntry.bytes rest) (map : MemoryMap) :
    parseFrom ram stop ptr map = some (map.addAll (entries.map MmapEntry.region)) := by
  induction entries generalizing ptr bytes map with
  | nil =>
      rw [Splits, List.flatMap_nil, List.nil_append] at splits
      subst splits
      exact parse_from_stuck has ends stuck map
  | cons entry entries ih =>
      obtain ⟨more, rfl, later⟩ := splits_cons.mp splits
      rw [Window.has_append] at has
      rw [List.length_append] at ends
      rw [parse_from_entry has.1 (by omega), ih has.2 (by omega) later]
      rfl

end

/-- `parse_mmap_entries` adds the regions of the longest prefix of well-formed
entries, and of every entry if the table is nothing but entries. -/
theorem parse_mmap_entries_exact (table : MmapTable) :
    (∃ entries map, LongestPrefix MmapEntry.bytes table.bytes entries ∧
      table.parse = some map ∧ map.regions = kept (entries.map MmapEntry.region)) ∧
    ∀ entries : List MmapEntry, table.bytes = entries.flatMap MmapEntry.bytes →
      ∃ map, table.parse = some map ∧ map.regions = kept (entries.map MmapEntry.region) := by
  have length : (UInt32.ofNat table.bytes.length).toNat = table.bytes.length :=
    UInt32.toNat_ofNat_of_lt' table.fits
  have parsed {entries : List MmapEntry} {rest : List UInt8}
      (splits : Splits MmapEntry.bytes table.bytes entries rest)
      (stuck : Stuck MmapEntry.bytes rest) :
      ∃ map, table.parse = some map ∧ map.regions = kept (entries.map MmapEntry.region) := by
    refine ⟨MemoryMap.empty.addAll (entries.map MmapEntry.region), ?_, ?_⟩
    · unfold MmapTable.parse parseMmapEntries
      rw [length]
      exact parse_from_splits table.window.has_self rfl splits stuck .empty
    · rw [MemoryMap.add_all_regions]
      rfl
  constructor
  · obtain ⟨entries, rest, splits, stuck⟩ := exists_stuck entry_delimited table.bytes
    obtain ⟨map, outcome, regions⟩ := parsed splits stuck
    exact ⟨entries, map, longest_of_stuck entry_delimited splits stuck, outcome, regions⟩
  · intro entries whole
    have splits : Splits MmapEntry.bytes table.bytes entries [] := by
      rw [Splits, whole, List.append_nil]
    exact parsed splits (stuck_nil entry_delimited)

end Ferrugem.MultibootMap
