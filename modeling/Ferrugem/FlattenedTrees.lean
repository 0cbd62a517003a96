import Ferrugem.FrameBitmapModel
import Ferrugem.Library.ByteWindows
import Ferrugem.RamFsModel

/-!
# The memory map in a flattened device tree

`kernel/src/boards/qemu_virt_riscv64/fdt.rs`. The parser goes through the tokens of
the structure block once and keeps the depth and a flag for the node that it is in.
What it returns for the serialisation of a tree is stated on the tree: the pairs of
the `reg` properties of the memory nodes below the root, or the fallback. The blob
is read through a window; the tokens are counted by `fuel`.
-/

namespace Ferrugem.FlattenedTrees

open Ferrugem.FrameBitmapModel ByteWindows
open Ferrugem.RamFsModel (ascii)

set_option autoImplicit false

def fdtMagic : Nat := 0xd00dfeed
def fdtBeginNode : Nat := 1
def fdtEndNode : Nat := 2
def fdtProp : Nat := 3
def fdtNop : Nat := 4
def fdtEnd : Nat := 9

def memoryName : List UInt8 := ascii ['m', 'e', 'm', 'o', 'r', 'y']

def addressCellsName : List UInt8 :=
  ascii ['#', 'a', 'd', 'd', 'r', 'e', 's', 's', '-', 'c', 'e', 'l', 'l', 's']

def sizeCellsName : List UInt8 := ascii ['#', 's', 'i', 'z', 'e', '-', 'c', 'e', 'l', 'l', 's']

def regName : List UInt8 := ascii ['r', 'e', 'g']

/-- `memory` or `memory@...`. -/
def isMemoryName (name : List UInt8) : Bool :=
  name == memoryName || (memoryName ++ ascii ['@']).isPrefixOf name

/-- `(n + 3) & !3`. -/
def aligned (n : Nat) : Nat := (n + 3) / 4 * 4

def readCells (ram : Window) (address cells : Nat) : Option Nat :=
  match cells with
  | 1 => ram.readBe address 4
  | 2 => ram.readBe address 8
  | _ => ram.readBe address 4

/-- One iteration of `parse_reg`. -/
def parseEntry (ram : Window) (data addrCells sizeCells entryBytes : Nat) (map : MemoryMap)
    (i : Nat) : Option MemoryMap := do
  let base ← readCells ram (data + i * entryBytes) addrCells
  let size ← readCells ram (data + i * entryBytes + addrCells * 4) sizeCells
  pure (map.add base size .usable)

def parseReg (ram : Window) (map : MemoryMap) (data len addrCells sizeCells : Nat) :
    Option MemoryMap :=
  let entryBytes := (addrCells + sizeCells) % 2 ^ 32 * 4
  if entryBytes = 0 then some map
  else (List.range (len / entryBytes)).foldlM
    (parseEntry ram data addrCells sizeCells entryBytes) map

/-- The variables of the loop of `parse_memory_map`. -/
structure Walk where
  cur : Nat
  depth : Nat
  addrCells : Nat
  sizeCells : Nat
  inMemory : Bool
  map : MemoryMap

def beginNode (ram : Window) (walk : Walk) : Option Walk :=
  (ram.readCstr walk.cur).map fun name =>
    { walk with
      cur := walk.cur + aligned (name.length + 1)
      inMemory := walk.depth == 1 && isMemoryName name
      depth := walk.depth + 1 }

def endNode (walk : Walk) : Walk := { walk with depth := walk.depth - 1, inMemory := false }

/-- The number of cells that a property of the root sets. -/
def readCellCounts (ram : Window) (data propLen : Nat) (pname : List UInt8) (walk : Walk) :
    Option Walk :=
  if walk.depth = 1 then
    if pname = addressCellsName ∧ propLen = 4 then
      (ram.readBe data 4).map fun cells => { walk with addrCells := cells }
    else if pname = sizeCellsName ∧ propLen = 4 then
      (ram.readBe data 4).map fun cells => { walk with sizeCells := cells }
    else some walk
  else some walk

def property (ram : Window) (strings : Nat) (walk : Walk) : Option Walk := do
  let propLen ← ram.readBe walk.cur 4
  let nameOff ← ram.readBe (walk.cur + 4) 4
  let data := walk.cur + 8
  let pname ← ram.readCstr (strings + nameOff)
  let counted ← readCellCounts ram data propLen pname
    { walk with cur := data + aligned propLen }
  if counted.inMemory = true ∧ pname = regName then
    let map ← parseReg ram counted.map data propLen counted.addrCells counted.sizeCells
    pure { counted with map := map }
  else pure counted

/-- One turn of the loop: a token, after which it goes on or ends. -/
def step (ram : Window) (strings : Nat) (walk : Walk) : Option (Option Walk) :=
  (ram.readBe walk.cur 4).bind fun token =>
    let next := { walk with cur := walk.cur + 4 }
    if token = fdtBeginNode then (beginNode ram next).map some
    else if token = fdtEndNode then some (some (endNode next))
    else if token = fdtProp then (property ram strings next).map some
    else if token = fdtNop then some (some next)
    else some none

def walkTokens (ram : Window) (strings : Nat) : Nat → Walk → Option MemoryMap
  | 0, _ => none
  | fuel + 1, walk =>
      (step ram strings walk).bind fun turn =>
        match turn with
        | none => some walk.map
        | some next => walkTokens ram strings fuel next

def fallback (map : MemoryMap) : MemoryMap := map.add 0x80000000 (128 * 1024 * 1024) .usable

/-- `parse_memory_map` for the blob at `riscv_fdt_ptr`, the base of the window. -/
def parseMemoryMap (fuel : Nat) (ram : Window) : Option MemoryMap :=
  if ram.base = 0 then some (fallback .empty)
  else
    (ram.readBe ram.base 4).bind fun magic =>
      if magic ≠ fdtMagic then some (fallback .empty)
      else do
        let offStruct ← ram.readBe (ram.base + 8) 4
        let offStr ← ram.readBe (ram.base + 12) 4
        let map ← walkTokens ram (ram.base + offStr) fuel
          { cur := ram.base + offStruct
            depth := 0
            addrCells := 2
            sizeCells := 2
            inMemory := false
            map := .empty }
        pure (if map.regions.length = 0 then fallback map else map)

structure Name where
  bytes : List UInt8
  text : 0 ∉ bytes

/-- A property, the place of its name in the strings block, and the NOP tokens
before it. -/
structure Property (strings : List UInt8) where
  nops : Nat
  name : Name
  nameOff : Nat
  value : List UInt8
  named : (name.bytes ++ [0]) <+: strings.drop nameOff
  nameFits : nameOff < 2 ^ 32
  valueFits : value.length < 2 ^ 32

/-- The subnodes of a node from one of them on, each with its properties, its own
subnodes and the NOP tokens before its begin and its end. -/
inductive Forest (strings : List UInt8) where
  | nil
  | node (nops : Nat) (name : Name) (props : List (Property strings))
      (children : Forest strings) (endNops : Nat) (rest : Forest strings)

variable {strings : List UInt8}

def token (kind : Nat) : List UInt8 := toBe 4 kind

def nopTokens : Nat → List UInt8
  | 0 => []
  | count + 1 => token fdtNop ++ nopTokens count

def padding (n : Nat) : List UInt8 := List.replicate (aligned n - n) 0

def Name.field (name : Name) : List UInt8 := name.bytes ++ [0] ++ padding (name.bytes.length + 1)

def beginTokens (name : Name) : List UInt8 := token fdtBeginNode ++ name.field

def Property.bytes (prop : Property strings) : List UInt8 :=
  nopTokens prop.nops ++ (token fdtProp ++ (toBe 4 prop.value.length ++
    (toBe 4 prop.nameOff ++ (prop.value ++ padding prop.value.length))))

def Forest.bytes : Forest strings → List UInt8
  | .nil => []
  | .node nops name props children endNops rest =>
      nopTokens nops ++ (beginTokens name ++ (props.flatMap Property.bytes ++
        (children.bytes ++ (nopTokens endNops ++ (token fdtEndNode ++ rest.bytes)))))

/-- The region that an entry of a `reg` property describes. -/
def regEntry (addrCells sizeCells : Nat) (value : List UInt8) (i : Nat) : MemoryRegion where
  base := fromBe ((value.drop (i * ((addrCells + sizeCells) * 4))).take (addrCells * 4))
  size := fromBe ((value.drop (i * ((addrCells + sizeCells) * 4) + addrCells * 4)).take
    (sizeCells * 4))
  kind := .usable

/-- The regions of the whole entries of a `reg` property. -/
def regRegions (addrCells sizeCells : Nat) (value : List UInt8) : List MemoryRegion :=
  (List.range (value.length / ((addrCells + sizeCells) * 4))).map
    (regEntry addrCells sizeCells value)

def Property.regions (addrCells sizeCells : Nat) (prop : Property strings) : List MemoryRegion :=
  if prop.name.bytes = regName then regRegions addrCells sizeCells prop.value else []

/-- The regions of those of the nodes that are memory nodes, in order. -/
def Forest.memoryRegions (addrCells sizeCells : Nat) : Forest strings → List MemoryRegion
  | .nil => []
  | .node _ name props _ _ rest =>
      (if isMemoryName name.bytes then props.flatMap (Property.regions addrCells sizeCells)
        else []) ++ rest.memoryRegions addrCells sizeCells

/-- The root of a tree, whose properties have different names and declare the
numbers of cells. -/
structure Root (strings : List UInt8) where
  nops : Nat
  name : Name
  props : List (Property strings)
  children : Forest strings
  endNops : Nat
  addrCells : Nat
  sizeCells : Nat
  distinct : (props.map fun prop => prop.name.bytes).Nodup
  declaresAddr : ∃ prop ∈ props, prop.name.bytes = addressCellsName ∧
    prop.value = toBe 4 addrCells
  declaresSize : ∃ prop ∈ props, prop.name.bytes = sizeCellsName ∧ prop.value = toBe 4 sizeCells
  addrRange : addrCells = 1 ∨ addrCells = 2
  sizeRange : sizeCells = 1 ∨ sizeCells = 2

def Root.bytes (root : Root strings) : List UInt8 :=
  Forest.bytes (.node root.nops root.name root.props root.children root.endNops .nil)

structure Blob where
  window : Window
  offStruct : Nat
  offStr : Nat
  strings : List UInt8
  root : Root strings
  lastNops : Nat
  present : window.base ≠ 0
  magic : window.Has window.base (toBe 4 fdtMagic)
  structOff : window.Has (window.base + 8) (toBe 4 offStruct)
  strOff : window.Has (window.base + 12) (toBe 4 offStr)
  structFits : offStruct < 2 ^ 32
  strFits : offStr < 2 ^ 32
  structureBlock : window.Has (window.base + offStruct)
    (root.bytes ++ (nopTokens lastNops ++ token fdtEnd))
  stringsBlock : window.Has (window.base + offStr) strings

def Blob.regions (blob : Blob) : List MemoryRegion :=
  let found := ((blob.root.children.memoryRegions blob.root.addrCells blob.root.sizeCells).filter
    fun region => 0 < region.size).take maxRegions
  if found = [] then [{ base := 0x80000000, size := 128 * 1024 * 1024, kind := .usable }]
  else found

section

variable {ram : Window} {start : Nat}

/-- The walk gets from one state to the other, whatever fuel is left there. -/
def Reaches (ram : Window) (start : Nat) (walk later : Walk) : Prop :=
  ∃ turns, ∀ fuel, walkTokens ram start (fuel + turns) walk = walkTokens ram start fuel later

theorem Reaches.refl (walk : Walk) : Reaches ram start walk walk := ⟨0, fun _ => rfl⟩

theorem Reaches.trans {walk middle later : Walk} (first : Reaches ram start walk middle)
    (second : Reaches ram start middle later) : Reaches ram start walk later := by
  obtain ⟨n, firstRun⟩ := first
  obtain ⟨m, secondRun⟩ := second
  refine ⟨m + n, fun fuel => ?_⟩
  rw [← Nat.add_assoc, firstRun, secondRun]

theorem reaches_of_step {walk later : Walk} (turn : step ram start walk = some (some later)) :
    Reaches ram start walk later := by
  refine ⟨1, fun fuel => ?_⟩
  rw [walkTokens, turn]
  rfl

/-- The state behind bytes that have been taken, with the regions found in them. -/
def Walk.after (walk : Walk) (bytes : List UInt8) (regions : List MemoryRegion) : Walk :=
  { walk with cur := walk.cur + bytes.length, map := walk.map.addAll regions }

def Walk.counted (walk : Walk) (addrCells sizeCells : Nat) : Walk :=
  { walk with addrCells := addrCells, sizeCells := sizeCells }

theorem after_after (walk : Walk) (bytes later : List UInt8) (regions more : List MemoryRegion) :
    (walk.after bytes regions).after later more =
      walk.after (bytes ++ later) (regions ++ more) := by
  have behind : walk.cur + bytes.length + later.length = walk.cur + (bytes ++ later).length := by
    rw [List.length_append, Nat.add_assoc]
  unfold Walk.after
  rw [← behind, ← MemoryMap.add_all_append]

theorem after_counted (walk : Walk) (bytes : List UInt8) (regions : List MemoryRegion)
    (addrCells sizeCells : Nat) : (walk.counted addrCells sizeCells).after bytes regions =
      (walk.after bytes regions).counted addrCells sizeCells := rfl

def Walk.entered (walk : Walk) (name : Name) : Walk :=
  { walk with
    inMemory := walk.depth == 1 && isMemoryName name.bytes
    depth := walk.depth + 1 }

theorem reaches_nop {walk : Walk} (has : ram.Has walk.cur (token fdtNop)) :
    Reaches ram start walk (walk.after (token fdtNop) []) := by
  apply reaches_of_step
  rw [step, Window.Has.read_be_to_be has (by decide)]
  rfl

theorem reaches_nops {count : Nat} {walk : Walk} (has : ram.Has walk.cur (nopTokens count)) :
    Reaches ram start walk (walk.after (nopTokens count) []) := by
  induction count generalizing walk with
  | zero => exact Reaches.refl walk
  | succ count ih =>
      rw [nopTokens, Window.has_append] at has
      have later := (reaches_nop has.1).trans (ih has.2)
      rw [after_after] at later
      exact later

theorem length_padded (n : Nat) : n + (padding n).length = aligned n := by
  rw [padding, List.length_replicate]
  unfold aligned
  omega

theorem length_name_field (name : Name) : name.field.length = aligned (name.bytes.length + 1) := by
  rw [← length_padded, Name.field, List.length_append, List.length_append, List.length_singleton]

theorem reaches_begin {name : Name} {walk : Walk} (has : ram.Has walk.cur (beginTokens name)) :
    Reaches ram start walk ((walk.after (beginTokens name) []).entered name) := by
  have behind : walk.cur + 4 + aligned (name.bytes.length + 1) =
      walk.cur + (beginTokens name).length := by
    rw [beginTokens, List.length_append, length_name_field, token, length_to_be, Nat.add_assoc]
  rw [beginTokens, Window.has_append, token, length_to_be] at has
  apply reaches_of_step
  rw [step, has.1.read_be_to_be (by decide), Option.bind_some, if_pos rfl, beginNode,
    (Window.has_append.mp has.2).1.readCstr name.text, Option.map_some, Option.map_some, behind]
  rfl

theorem reaches_end {walk : Walk} (has : ram.Has walk.cur (token fdtEndNode)) :
    Reaches ram start walk (endNode (walk.after (token fdtEndNode) [])) := by
  apply reaches_of_step
  rw [step, Window.Has.read_be_to_be has (by decide)]
  rfl

theorem fold_some {State Item : Type} {body : State → Item → Option State}
    {result : State → Item → State} {items : List Item}
    (each : ∀ item ∈ items, ∀ state, body state item = some (result state item))
    (state : State) : items.foldlM body state = some (items.foldl result state) := by
  induction items generalizing state with
  | nil => rfl
  | cons item items ih =>
      rw [List.foldlM_cons, each item List.mem_cons_self]
      exact ih (fun other member => each other (List.mem_cons_of_mem _ member)) _

def CellCount (cells : Nat) : Prop := cells = 1 ∨ cells = 2

theorem read_cells_eq {cells : Nat} (range : CellCount cells) (address : Nat) :
    readCells ram address cells = ram.readBe address (cells * 4) := by
  obtain rfl | rfl := range <;> rfl

theorem parse_entry_eq {data addrCells sizeCells i : Nat} {value : List UInt8}
    (has : ram.Has data value) (addrRange : CellCount addrCells) (sizeRange : CellCount sizeCells)
    (whole : (i + 1) * ((addrCells + sizeCells) * 4) ≤ value.length) (map : MemoryMap) :
    parseEntry ram data addrCells sizeCells ((addrCells + sizeCells) * 4) map i =
      some (map.add (regEntry addrCells sizeCells value i).base
        (regEntry addrCells sizeCells value i).size .usable) := by
  rw [Nat.succ_mul] at whole
  have base := has.read_part (i * ((addrCells + sizeCells) * 4)) (addrCells * 4) (by omega)
  have size := has.read_part (i * ((addrCells + sizeCells) * 4) + addrCells * 4)
    (sizeCells * 4) (by omega)
  rw [parseEntry, read_cells_eq addrRange, read_cells_eq sizeRange, base, Nat.add_assoc, size]
  rfl

theorem parse_reg_eq {data addrCells sizeCells : Nat} {value : List UInt8}
    (has : ram.Has data value) (addrRange : CellCount addrCells) (sizeRange : CellCount sizeCells)
    (map : MemoryMap) :
    parseReg ram map data value.length addrCells sizeCells =
      some (map.addAll (regRegions addrCells sizeCells value)) := by
  have small : (addrCells + sizeCells) % 2 ^ 32 * 4 = (addrCells + sizeCells) * 4 := by
    obtain rfl | rfl := addrRange <;> obtain rfl | rfl := sizeRange <;> rfl
  have positive : 0 < (addrCells + sizeCells) * 4 := by
    obtain rfl | rfl := addrRange <;> omega
  rw [parseReg, small, if_neg (Nat.ne_of_gt positive), MemoryMap.addAll, regRegions,
    List.foldl_map]
  apply fold_some
  intro i member state
  apply parse_entry_eq has addrRange sizeRange
  exact le_trans (Nat.mul_le_mul_right _ (List.mem_range.mp member)) (Nat.div_mul_le_self _ _)

theorem length_property_bytes (prop : Property strings) : prop.bytes.length =
    (nopTokens prop.nops).length + (4 + (4 + (4 + aligned prop.value.length))) := by
  simp only [Property.bytes, token, List.length_append, length_to_be, length_padded]

structure PropertyAt (ram : Window) (start cur : Nat) (prop : Property strings) : Prop where
  kind : ram.readBe cur 4 = some fdtProp
  length : ram.readBe (cur + 4) 4 = some prop.value.length
  nameOff : ram.readBe (cur + 8) 4 = some prop.nameOff
  value : ram.Has (cur + 4 + 8) prop.value
  name : ram.readCstr (start + prop.nameOff) = some prop.name.bytes

theorem property_at {prop : Property strings} {cur : Nat} (block : ram.Has start strings)
    (has : ram.Has cur prop.bytes) :
    PropertyAt ram start (cur + (nopTokens prop.nops).length) prop := by
  rw [Property.bytes, Window.has_append] at has
  simp only [Window.has_append, token, length_to_be] at has
  obtain ⟨_, kind, length, nameOff, value, _⟩ := has
  obtain ⟨behind, same⟩ := prop.named
  have place : strings = strings.take prop.nameOff ++ (prop.name.bytes ++ [0] ++ behind) := by
    rw [same, List.take_append_drop]
  have inside : prop.nameOff ≤ strings.length := by
    by_contra beyond
    rw [List.drop_of_length_le (by omega)] at same
    simp at same
  rw [place, Window.has_append, Window.has_append, List.length_take,
    Nat.min_eq_left inside] at block
  exact
    { kind := kind.read_be_to_be (by decide)
      length := length.read_be_to_be prop.valueFits
      nameOff := nameOff.read_be_to_be prop.nameFits
      value := value
      name := block.2.1.readCstr prop.name.text }

theorem behind_property (walk : Walk) (prop : Property strings) :
    walk.cur + (nopTokens prop.nops).length + 4 + 8 + aligned prop.value.length =
      walk.cur + prop.bytes.length := by
  rw [length_property_bytes]
  omega

theorem step_property {walk later : Walk} (kind : ram.readBe walk.cur 4 = some fdtProp)
    (taken : property ram start { walk with cur := walk.cur + 4 } = some later) :
    step ram start walk = some (some later) := by
  rw [step, kind, Option.bind_some, if_neg (by decide), if_neg (by decide), if_pos rfl, taken]
  rfl

theorem reaches_property {prop : Property strings} {walk later : Walk}
    (block : ram.Has start strings) (has : ram.Has walk.cur prop.bytes)
    (taken : property ram start
      { walk with cur := walk.cur + (nopTokens prop.nops).length + 4 } = some later) :
    Reaches ram start walk later := by
  have found := property_at block has
  rw [Property.bytes, Window.has_append] at has
  exact (reaches_nops has.1).trans (reaches_of_step (step_property found.kind taken))

/-- In a node below the root, a property counts if it is the `reg` of a memory node. -/
theorem reaches_node_property {prop : Property strings} {walk : Walk}
    (block : ram.Has start strings) (has : ram.Has walk.cur prop.bytes)
    (below : walk.depth ≠ 1) (addrRange : CellCount walk.addrCells)
    (sizeRange : CellCount walk.sizeCells) :
    Reaches ram start walk (walk.after prop.bytes
      (if walk.inMemory then prop.regions walk.addrCells walk.sizeCells else [])) := by
  have found := property_at block has
  apply reaches_property block has
  simp only [property, found.length, found.nameOff, found.name, readCellCounts, if_neg below,
    behind_property, Option.bind_eq_bind, Option.bind_some, Property.regions]
  by_cases member : walk.inMemory = true
  · by_cases reg : prop.name.bytes = regName
    · rw [if_pos ⟨member, reg⟩, parse_reg_eq found.value addrRange sizeRange, if_pos member,
        if_pos reg]
      rfl
    · rw [if_neg fun both => reg both.2, if_pos member, if_neg reg]
      rfl
  · rw [if_neg fun both => member both.1, if_neg member]
    rfl

def cellsAfter (name : List UInt8) (cells : Nat) (prop : Property strings) : Nat :=
  if prop.name.bytes = name ∧ prop.value.length = 4 then fromBe prop.value else cells

theorem read_cell_counts_eq {prop : Property strings} {data : Nat}
    (has : ram.Has data prop.value) (walk : Walk) (inRoot : walk.depth = 1) :
    readCellCounts ram data prop.value.length prop.name.bytes walk =
      some (walk.counted (cellsAfter addressCellsName walk.addrCells prop)
        (cellsAfter sizeCellsName walk.sizeCells prop)) := by
  have different : addressCellsName ≠ sizeCellsName := by decide
  unfold readCellCounts cellsAfter
  rw [if_pos inRoot]
  by_cases address : prop.name.bytes = addressCellsName ∧ prop.value.length = 4
  · have notSize : ¬(prop.name.bytes = sizeCellsName ∧ prop.value.length = 4) :=
      fun both => different (address.1.symm.trans both.1)
    rw [if_pos address, if_pos address, if_neg notSize, has.readBe address.2]
    rfl
  · rw [if_neg address, if_neg address]
    by_cases size : prop.name.bytes = sizeCellsName ∧ prop.value.length = 4
    · rw [if_pos size, if_pos size, has.readBe size.2]
      rfl
    · rw [if_neg size, if_neg size]
      rfl

theorem reaches_root_property {prop : Property strings} {walk : Walk}
    (block : ram.Has start strings) (has : ram.Has walk.cur prop.bytes)
    (inRoot : walk.depth = 1) (outside : walk.inMemory = false) :
    Reaches ram start walk
      ((walk.after prop.bytes []).counted (cellsAfter addressCellsName walk.addrCells prop)
        (cellsAfter sizeCellsName walk.sizeCells prop)) := by
  have found := property_at block has
  have notReg : ¬(walk.inMemory = true ∧ prop.name.bytes = regName) := by
    rw [outside]
    exact fun both => Bool.false_ne_true both.1
  apply reaches_property block has
  simp only [property, found.length, found.nameOff, found.name, behind_property,
    Option.bind_eq_bind, Option.bind_some]
  change (readCellCounts ram _ _ _ (walk.after prop.bytes [])).bind _ = _
  rw [read_cell_counts_eq found.value (walk.after prop.bytes []) inRoot, Option.bind_some]
  exact if_neg notReg

theorem reaches_node_properties {props : List (Property strings)} {walk : Walk}
    (block : ram.Has start strings) (has : ram.Has walk.cur (props.flatMap Property.bytes))
    (below : walk.depth ≠ 1) (addrRange : CellCount walk.addrCells)
    (sizeRange : CellCount walk.sizeCells) :
    Reaches ram start walk (walk.after (props.flatMap Property.bytes)
      (if walk.inMemory then props.flatMap (Property.regions walk.addrCells walk.sizeCells)
        else [])) := by
  induction props generalizing walk with
  | nil =>
      rw [List.flatMap_nil, List.flatMap_nil, ite_self]
      exact Reaches.refl walk
  | cons prop props ih =>
      rw [List.flatMap_cons, Window.has_append] at has
      have first := reaches_node_property block has.1 below addrRange sizeRange
      have later := first.trans (ih has.2 below addrRange sizeRange)
      rw [after_after] at later
      rw [List.flatMap_cons, List.flatMap_cons]
      by_cases member : walk.inMemory = true
      · simp only [Walk.after, member, if_true] at later ⊢
        exact later
      · simp only [Walk.after, member] at later ⊢
        exact later

theorem reaches_root_properties {props : List (Property strings)} {walk : Walk}
    (block : ram.Has start strings) (has : ram.Has walk.cur (props.flatMap Property.bytes))
    (inRoot : walk.depth = 1) (outside : walk.inMemory = false) :
    Reaches ram start walk
      ((walk.after (props.flatMap Property.bytes) []).counted
        (props.foldl (cellsAfter addressCellsName) walk.addrCells)
        (props.foldl (cellsAfter sizeCellsName) walk.sizeCells)) := by
  induction props generalizing walk with
  | nil => exact Reaches.refl walk
  | cons prop props ih =>
      rw [List.flatMap_cons, Window.has_append] at has
      have later := (reaches_root_property block has.1 inRoot outside).trans
        (ih has.2 inRoot outside)
      rw [after_counted, after_after] at later
      exact later

theorem fold_cells {name : List UInt8} {cells start : Nat} {props : List (Property strings)}
    (small : cells < 256 ^ 4)
    (only : ∀ prop ∈ props, prop.name.bytes = name → prop.value = toBe 4 cells)
    (declared : (∃ prop ∈ props, prop.name.bytes = name) ∨ start = cells) :
    props.foldl (cellsAfter name) start = cells := by
  induction props generalizing start with
  | nil => exact declared.resolve_left fun found => by simp at found
  | cons prop props ih =>
      apply ih fun other member => only other (List.mem_cons_of_mem _ member)
      unfold cellsAfter
      by_cases named : prop.name.bytes = name
      · have value := only prop List.mem_cons_self named
        rw [if_pos ⟨named, by rw [value, length_to_be]⟩, value, from_be_small small]
        exact .inr rfl
      · rw [if_neg fun both => named both.1]
        refine declared.imp_left fun found => ?_
        obtain ⟨other, member, same⟩ := found
        rcases List.mem_cons.mp member with rfl | later
        · exact absurd same named
        · exact ⟨other, later, same⟩

theorem declared_only {props : List (Property strings)} {name value : List UInt8}
    (distinct : (props.map fun prop => prop.name.bytes).Nodup)
    (declared : ∃ prop ∈ props, prop.name.bytes = name ∧ prop.value = value) :
    ∀ prop ∈ props, prop.name.bytes = name → prop.value = value := by
  obtain ⟨first, member, named, same⟩ := declared
  intro prop other also
  rw [List.inj_on_of_nodup_map distinct other member (also.trans named.symm), same]

/-- The state behind a node's subnodes; `flag` is what is left of the flag. -/
def Walk.flagged (walk : Walk) (flag : Bool) : Walk := { walk with inMemory := flag }

/-- The subnodes of a node add their regions if the node is the root, and nothing
otherwise; the depth is restored. -/
theorem reaches_forest {forest : Forest strings} {walk : Walk} (block : ram.Has start strings)
    (has : ram.Has walk.cur forest.bytes) (inside : walk.depth ≠ 0)
    (addrRange : CellCount walk.addrCells) (sizeRange : CellCount walk.sizeCells) :
    ∃ flag, Reaches ram start walk ((walk.after forest.bytes
      (if walk.depth = 1 then forest.memoryRegions walk.addrCells walk.sizeCells
        else [])).flagged flag) := by
  induction forest generalizing walk with
  | nil =>
      refine ⟨walk.inMemory, ?_⟩
      rw [Forest.memoryRegions, ite_self]
      exact Reaches.refl walk
  | node nops name props children endNops rest childrenIh restIh =>
      simp only [Forest.bytes, Window.has_append] at has
      obtain ⟨hasNops, hasBegin, hasProps, hasChildren, hasEndNops, hasEnd, hasRest⟩ := has
      have deeper : walk.depth + 1 ≠ 1 := by omega
      let found := if walk.depth == 1 && isMemoryName name.bytes then
        props.flatMap (Property.regions walk.addrCells walk.sizeCells) else []
      let opened := ((walk.after (nopTokens nops) []).after (beginTokens name) []).entered name
      let filled := opened.after (props.flatMap Property.bytes) found
      have entered : Reaches ram start walk opened :=
        (reaches_nops hasNops).trans (reaches_begin hasBegin)
      have propsTaken : Reaches ram start opened filled :=
        reaches_node_properties block hasProps deeper addrRange sizeRange
      obtain ⟨flag, inner⟩ :=
        @childrenIh filled hasChildren (Nat.succ_ne_zero _) addrRange sizeRange
      rw [if_neg (show ¬filled.depth = 1 from deeper)] at inner
      let left := (filled.after children.bytes []).flagged flag
      let closed := endNode ((left.after (nopTokens endNops) []).after (token fdtEndNode) [])
      have ended : Reaches ram start left closed :=
        (reaches_nops hasEndNops).trans (reaches_end hasEnd)
      obtain ⟨last, others⟩ := @restIh closed hasRest inside addrRange sizeRange
      refine ⟨last, ?_⟩
      have whole := (((entered.trans propsTaken).trans inner).trans ended).trans others
      have size : closed.cur + rest.bytes.length =
          walk.cur + (Forest.bytes (.node nops name props children endNops rest)).length := by
        change walk.cur + (nopTokens nops).length + (beginTokens name).length +
          (props.flatMap Property.bytes).length + children.bytes.length +
          (nopTokens endNops).length + (token fdtEndNode).length + rest.bytes.length = _
        simp only [Forest.bytes, List.length_append]
        omega
      have regions : closed.map.addAll
          (if walk.depth = 1 then rest.memoryRegions walk.addrCells walk.sizeCells else []) =
          walk.map.addAll (if walk.depth = 1 then Forest.memoryRegions walk.addrCells
            walk.sizeCells (.node nops name props children endNops rest) else []) := by
        change (walk.map.addAll found).addAll _ = _
        rw [MemoryMap.add_all_append]
        congr 1
        by_cases top : walk.depth = 1
        · simp only [found, top, beq_self_eq_true, Bool.true_and, if_true, Forest.memoryRegions]
        · simp only [found, beq_eq_false_iff_ne.mpr top, Bool.false_and, Bool.false_eq_true, top,
            if_false, List.append_nil]
      have same : (closed.after rest.bytes
            (if walk.depth = 1 then rest.memoryRegions walk.addrCells walk.sizeCells
              else [])).flagged last =
          (walk.after (Forest.bytes (.node nops name props children endNops rest))
            (if walk.depth = 1 then Forest.memoryRegions walk.addrCells walk.sizeCells
              (.node nops name props children endNops rest) else [])).flagged last := by
        unfold Walk.flagged Walk.after
        rw [size, regions]
        rfl
      rw [← same]
      exact whole

def Walk.first (cur : Nat) : Walk where
  cur := cur
  depth := 0
  addrCells := 2
  sizeCells := 2
  inMemory := false
  map := .empty

theorem walk_ends {walk later : Walk} (reached : Reaches ram start walk later)
    (has : ram.Has later.cur (token fdtEnd)) :
    ∃ turns, ∀ fuel, turns ≤ fuel → walkTokens ram start fuel walk = some later.map := by
  obtain ⟨turns, run⟩ := reached
  refine ⟨turns + 1, fun fuel enough => ?_⟩
  obtain ⟨more, rfl⟩ : ∃ more, fuel = more + 1 + turns := ⟨fuel - 1 - turns, by omega⟩
  rw [run, walkTokens, step, Window.Has.read_be_to_be has (by decide)]
  rfl

theorem reaches_root {root : Root strings} {cur : Nat} (block : ram.Has start strings)
    (has : ram.Has cur root.bytes) :
    ∃ later, Reaches ram start (.first cur) later ∧ later.cur = cur + root.bytes.length ∧
      later.map = MemoryMap.empty.addAll
        (root.children.memoryRegions root.addrCells root.sizeCells) := by
  have size : root.bytes.length = (nopTokens root.nops).length + ((beginTokens root.name).length +
      ((root.props.flatMap Property.bytes).length + (root.children.bytes.length +
        ((nopTokens root.endNops).length + (token fdtEndNode).length)))) := by
    simp only [Root.bytes, Forest.bytes, List.length_append, List.length_nil, Nat.add_zero]
  have smallCells {cells : Nat} (range : cells = 1 ∨ cells = 2) : cells < 256 ^ 4 := by
    obtain rfl | rfl := range <;> decide
  have addr : root.props.foldl (cellsAfter addressCellsName) 2 = root.addrCells := by
    apply fold_cells (smallCells root.addrRange) (declared_only root.distinct root.declaresAddr)
    exact .inl (root.declaresAddr.imp fun prop both => ⟨both.1, both.2.1⟩)
  have sizes : root.props.foldl (cellsAfter sizeCellsName) 2 = root.sizeCells := by
    apply fold_cells (smallCells root.sizeRange) (declared_only root.distinct root.declaresSize)
    exact .inl (root.declaresSize.imp fun prop both => ⟨both.1, both.2.1⟩)
  simp only [Root.bytes, Forest.bytes, Window.has_append] at has
  obtain ⟨hasNops, hasBegin, hasProps, hasChildren, hasEndNops, hasEnd, _⟩ := has
  let opened := (((Walk.first cur).after (nopTokens root.nops) []).after
    (beginTokens root.name) []).entered root.name
  let filled := (opened.after (root.props.flatMap Property.bytes) []).counted root.addrCells
    root.sizeCells
  have entered : Reaches ram start (.first cur) opened :=
    (reaches_nops hasNops).trans (reaches_begin hasBegin)
  have propsTaken : Reaches ram start opened filled := by
    have taken : Reaches ram start opened _ := reaches_root_properties block hasProps rfl rfl
    rw [show opened.addrCells = 2 from rfl, show opened.sizeCells = 2 from rfl, addr,
      sizes] at taken
    exact taken
  obtain ⟨flag, inner⟩ :=
    @reaches_forest strings ram start root.children filled block hasChildren Nat.one_ne_zero
      root.addrRange root.sizeRange
  let left := (filled.after root.children.bytes
    (root.children.memoryRegions root.addrCells root.sizeCells)).flagged flag
  have ended : Reaches ram start left
      (endNode ((left.after (nopTokens root.endNops) []).after (token fdtEndNode) [])) :=
    (reaches_nops hasEndNops).trans (reaches_end hasEnd)
  refine ⟨_, ((entered.trans propsTaken).trans inner).trans ended, ?_, rfl⟩
  rw [size]
  change cur + _ + _ + _ + _ + _ + _ = _
  omega

end

/-- For every well-formed blob `parse_memory_map` ends with the first 32 regions that
the tree describes, or with the fallback. -/
theorem parse_memory_map_exact (blob : Blob) :
    ∃ turns, ∀ fuel, turns ≤ fuel → ∃ map,
      parseMemoryMap fuel blob.window = some map ∧ map.regions = blob.regions := by
  obtain ⟨hasRoot, hasLast⟩ := Window.has_append.mp blob.structureBlock
  obtain ⟨hasNops, hasEnd⟩ := Window.has_append.mp hasLast
  obtain ⟨later, reached, place, found⟩ := reaches_root blob.stringsBlock hasRoot
  rw [← place] at hasNops hasEnd
  obtain ⟨turns, walked⟩ := walk_ends (reached.trans (reaches_nops hasNops)) hasEnd
  refine ⟨turns, fun fuel enough => ?_⟩
  have magic := blob.magic.read_be_to_be (by decide)
  have structOff := blob.structOff.read_be_to_be blob.structFits
  have strOff := blob.strOff.read_be_to_be blob.strFits
  have regions : later.map.regions = ((blob.root.children.memoryRegions blob.root.addrCells
      blob.root.sizeCells).filter fun region => 0 < region.size).take maxRegions := by
    rw [found, MemoryMap.add_all_regions]
    rfl
  refine ⟨if later.map.regions.length = 0 then fallback later.map else later.map, ?_, ?_⟩
  · rw [parseMemoryMap, if_neg blob.present, magic, Option.bind_some, if_neg (by simp), structOff,
      strOff]
    have run : walkTokens blob.window (blob.window.base + blob.offStr) fuel
        (.first (blob.window.base + blob.offStruct)) = some later.map := walked fuel enough
    simp only [Option.bind_eq_bind, Option.bind_some]
    change (walkTokens blob.window _ fuel (.first _)).bind _ = _
    rw [run]
    rfl
  · unfold Blob.regions
    rw [← regions]
    by_cases empty : later.map.regions = []
    · rw [if_pos (by rw [empty]; rfl), if_pos empty, fallback, MemoryMap.add,
        dif_pos ⟨by decide, by rw [empty]; decide⟩]
      simp only [empty, List.nil_append]
    · rw [if_neg (by rwa [List.length_eq_zero_iff]), if_neg empty]

def structureBytes (root : Root strings) : List UInt8 := root.bytes ++ (nopTokens 0 ++ token fdtEnd)

def blobBytes (root : Root strings) : List UInt8 :=
  toBe 4 fdtMagic ++ (toBe 4 (16 + (structureBytes root).length + strings.length) ++
    (toBe 4 16 ++ (toBe 4 (16 + (structureBytes root).length) ++
      (structureBytes root ++ strings))))

def blobWindow (base : Nat) (root : Root strings) : Window where
  base := base
  bytes := blobBytes root

theorem blob_parts (base : Nat) (root : Root strings) :
    (blobWindow base root).Has base (toBe 4 fdtMagic) ∧
      (blobWindow base root).Has (base + 8) (toBe 4 16) ∧
      (blobWindow base root).Has (base + 12) (toBe 4 (16 + (structureBytes root).length)) ∧
      (blobWindow base root).Has (base + 16) (structureBytes root) ∧
      (blobWindow base root).Has (base + (16 + (structureBytes root).length)) strings := by
  have placed : (blobWindow base root).Has base (blobBytes root) := Window.has_self _
  simp only [blobBytes, Window.has_append, length_to_be, Nat.add_assoc, Nat.reduceAdd] at placed
  obtain ⟨magic, _, structOff, strOff, structure', strings'⟩ := placed
  exact ⟨magic, structOff, strOff, structure', strings'⟩

def Blob.layOut (base : Nat) (present : base ≠ 0) (root : Root strings)
    (fits : 16 + (structureBytes root).length < 2 ^ 32) : Blob where
  window := blobWindow base root
  offStruct := 16
  offStr := 16 + (structureBytes root).length
  strings := strings
  root := root
  lastNops := 0
  present := present
  magic := (blob_parts base root).1
  structOff := (blob_parts base root).2.1
  strOff := (blob_parts base root).2.2.1
  structFits := by decide
  strFits := fits
  structureBlock := (blob_parts base root).2.2.2.1
  stringsBlock := (blob_parts base root).2.2.2.2

theorem parse_laid_out (base : Nat) (present : base ≠ 0) (root : Root strings)
    (fits : 16 + (structureBytes root).length < 2 ^ 32) :
    ∃ turns, ∀ fuel, turns ≤ fuel → ∃ map,
      parseMemoryMap fuel (blobWindow base root) = some map ∧
        map.regions = (Blob.layOut base present root fits).regions :=
  parse_memory_map_exact (Blob.layOut base present root fits)

end Ferrugem.FlattenedTrees
