import Ferrugem.Library.FallibleState
import Ferrugem.Library.RadixTables

/-!
# Programs that build page tables

A machine whose memory is made of frames that an allocator gives out. `mapPage`
descends from a table, creates the tables that are missing and writes the last
entry. From a well-formed tree it maps its page and changes no other walk, and
where it fails it has changed none.
-/

set_option autoImplicit false

namespace RadixTables

/-- Memory and a source of frames: a frame that it gives out was not in use. -/
structure FrameMachine (State : Type) where
  memory : State → WordMemory
  change : (WordMemory → WordMemory) → State → State
  alloc : State → Option (Nat × State)
  InUse : State → Nat → Prop
  memory_change : ∀ change' state, memory (change change' state) = change' (memory state)
  in_use_change : ∀ change' state, InUse (change change' state) = InUse state
  memory_alloc : ∀ {state address later}, alloc state = some (address, later) →
    memory later = memory state
  aligned : ∀ {state address later}, alloc state = some (address, later) → address % 4096 = 0
  bounded : ∀ {state address later}, alloc state = some (address, later) → address < 2 ^ 52
  unused : ∀ {state address later}, alloc state = some (address, later) →
    ¬InUse state (address / 4096)
  taken : ∀ {state address later}, alloc state = some (address, later) →
    InUse later (address / 4096)
  kept : ∀ {state address later}, alloc state = some (address, later) →
    ∀ frame, InUse state frame → InUse later frame

variable {State : Type} (machine : FrameMachine State) (format : TableFormat)

def readEntry (table position : Nat) : Fallible State (BitVec 64) :=
  Fallible.read fun state => entryAt (machine.memory state) table position

def writeEntry (table position : Nat) (entry : BitVec 64) : Fallible State Unit :=
  Fallible.modify (machine.change fun memory => memory.store (table + position * 8) entry)

def allocFrame : Fallible State Nat := fun state =>
  match machine.alloc state with
  | some (address, later) => (some address, later)
  | none => (none, state)

def allocTable : Fallible State Nat := do
  let address ← allocFrame machine
  Fallible.modify (machine.change fun memory => memory.zeroBlock address 4096)
  pure address

/-- The table that an entry leads to, which is created if there is none. -/
def nextTable (level table position : Nat) : Fallible State Nat := do
  match format.decode level (← readEntry machine table position) with
  | .absent =>
      let new ← allocTable machine
      writeEntry machine table position (format.link new)
      pure new
  | .leaf _ _ => Fallible.fail
  | .table next => pure next

def mapPage (page : Nat) (entry : BitVec 64) : Nat → Nat → Fallible State Unit
  | 0, table => writeEntry machine table (index page 0) entry
  | level + 1, table => do
      let next ← nextTable machine format (level + 1) table (index page (level + 1))
      mapPage page entry level next

section

variable {machine} {state : State} {Failed : State → Prop}

open Fallible

theorem alloc_frame_ends (failed : Failed state) :
    Ends (allocFrame machine) state
      (fun address later => machine.alloc state = some (address, later)) Failed := by
  unfold Ends allocFrame
  cases outcome : machine.alloc state with
  | none =>
      refine ⟨fun _ _ same => ?_, fun _ same => ?_⟩
      · cases same
      · cases same
        exact failed
  | some pair =>
      refine ⟨fun _ _ same => ?_, fun _ same => ?_⟩
      · cases same
        rfl
      · cases same

def TableAllocated (machine : FrameMachine State) (state : State) (address : Nat)
    (later : State) : Prop :=
  ∃ taken, machine.alloc state = some (address, taken) ∧
    later = machine.change (fun memory => memory.zeroBlock address 4096) taken

theorem alloc_table_ends (failed : Failed state) :
    Ends (allocTable machine) state (TableAllocated machine state) Failed := by
  apply ends_bind (alloc_frame_ends failed)
  intro address taken outcome
  apply ends_bind_modify
  exact ends_pure ⟨taken, outcome, rfl⟩

end

section

variable {machine} {layout : TreeLayout} {root : Nat}

def FormedIn (machine : FrameMachine State) (layout : TreeLayout) (root : Nat) (state : State) :
    Prop :=
  layout.Formed (machine.InUse state) (machine.memory state) root

/-- Tables were added to the tree, and no walk is changed. -/
structure Grows (machine : FrameMachine State) (layout : TreeLayout) (root : Nat)
    (state later : State) : Prop where
  formed : FormedIn machine layout root later
  keeps : layout.Keeps root (machine.memory state) (machine.memory later)
  inUse : ∀ frame, machine.InUse state frame → machine.InUse later frame
  tables : ∀ {page level table}, layout.IsPage page →
    layout.Meets (machine.memory later) root page level table →
    layout.Meets (machine.memory state) root page level table ∨
      ¬machine.InUse state (table / 4096)
  small : layout.OnlySmallPages (machine.memory state) root →
    layout.OnlySmallPages (machine.memory later) root

variable {state later : State}

theorem Grows.refl (formed : FormedIn machine layout root state) :
    Grows machine layout root state state :=
  ⟨formed, TreeLayout.Keeps.refl _ _ _, fun _ => id, fun _ => .inl, id⟩

theorem Grows.trans {last : State} (left : Grows machine layout root state later)
    (right : Grows machine layout root later last) : Grows machine layout root state last where
  formed := right.formed
  keeps := left.keeps.trans right.keeps
  inUse := fun frame inUse => right.inUse frame (left.inUse frame inUse)
  tables := by
    intro page level table isPage meets
    rcases right.tables isPage meets with earlier | unused
    · exact left.tables isPage earlier
    · exact .inr fun inUse => unused (left.inUse _ inUse)
  small := fun small => right.small (left.small small)

variable {p level table : Nat}

theorem graft_grows (few : layout.firstUser ≤ 512) (formed : FormedIn machine layout root state)
    (isUser : layout.IsUser p)
    (meets : layout.Meets (machine.memory state) root p (level + 1) table)
    (absent : layout.format.decode (level + 1)
      (entryAt (machine.memory state) table (index p (level + 1))) = .absent) {address : Nat}
    (outcome : machine.alloc state = some (address, later)) :
    let cleared := machine.change (fun memory => memory.zeroBlock address 4096) later
    let linked := machine.change (fun memory =>
      memory.store (table + index p (level + 1) * 8) (layout.format.link address)) cleared
    Grows machine layout root state linked ∧
      layout.Meets (machine.memory linked) root p level address := by
  intro cleared linked
  have aligned := machine.aligned outcome
  have unused := machine.unused outcome
  have memoryEq : machine.memory cleared = (machine.memory state).zeroBlock address 4096 := by
    rw [machine.memory_change, machine.memory_alloc outcome]
  have usedEq : machine.InUse linked = machine.InUse later := by
    rw [machine.in_use_change, machine.in_use_change]
  obtain ⟨formedCleared, keepsCleared, meetsCleared, smallCleared⟩ :=
    formed.zero_fresh few aligned unused
  have other : table ≠ address := by
    rintro rfl
    exact unused (formed.tables isUser.1 meets)
  have graft : layout.Graft (machine.InUse state) ((machine.memory state).zeroBlock address 4096)
      root p level table address := by
    refine ⟨formedCleared, isUser, (meetsCleared isUser.1).mpr meets, ?_, aligned,
      machine.bounded outcome, fun position => entry_at_zero_same aligned, unused⟩
    rw [entry_at_zero_other aligned (meets.aligned formed.aligned) other (index_lt _ _)]
    exact absent
  have linkedEq : machine.memory linked = TreeLayout.Graft.after layout
      ((machine.memory state).zeroBlock address 4096) p level table address := by
    rw [machine.memory_change, memoryEq]
    rfl
  rw [linkedEq]
  refine ⟨⟨?_, ?_, ?_, ?_, ?_⟩, graft.meets_fresh isUser.1 rfl⟩
  · unfold FormedIn
    rw [linkedEq, usedEq]
    exact graft.formed_after (machine.kept outcome) (machine.taken outcome)
  · rw [linkedEq]
    exact keepsCleared.trans graft.keeps
  · rw [usedEq]
    exact machine.kept outcome
  · intro page low last isPage visited
    rw [linkedEq] at visited
    rcases graft.meets_or isPage visited with earlier | ⟨_, rfl, _⟩
    · exact .inl ((meetsCleared isPage).mp earlier)
    · exact .inr unused
  · intro small
    rw [linkedEq]
    exact graft.only_small (smallCleared small)

open Fallible

theorem next_table_ends (few : layout.firstUser ≤ 512) (formed : FormedIn machine layout root state)
    (isUser : layout.IsUser p)
    (meets : layout.Meets (machine.memory state) root p (level + 1) table) :
    Ends (nextTable machine layout.format (level + 1) table (index p (level + 1))) state
      (fun next later => Grows machine layout root state later ∧
        layout.Meets (machine.memory later) root p level next)
      (Grows machine layout root state) := by
  unfold nextTable
  apply ends_bind_read
  cases decoded : layout.format.decode (level + 1)
      (entryAt (machine.memory state) table (index p (level + 1))) with
  | absent =>
      apply ends_bind (alloc_table_ends (Grows.refl formed))
      rintro address _ ⟨later, outcome, rfl⟩
      apply ends_bind_modify
      exact ends_pure (graft_grows few formed isUser meets decoded outcome)
  | leaf address flags => exact ends_fail (Grows.refl formed)
  | table next => exact ends_pure ⟨Grows.refl formed, meets.step decoded⟩

/-- The page is mapped as the entry says and nothing else is changed. The tree
stays well-formed if the mapped frame is in use and no table of the tree. -/
structure Maps (machine : FrameMachine State) (layout : TreeLayout) (root p frame : Nat)
    (flags : BitVec 64) (state later : State) : Prop where
  mapped : layout.translate (machine.memory later) root p = some ⟨frame, flags⟩
  others : ∀ page, layout.IsPage page → page ≠ p →
    layout.translate (machine.memory later) root page =
      layout.translate (machine.memory state) root page
  kernel : ∀ position, position < layout.firstUser →
    entryAt (machine.memory later) root position = entryAt (machine.memory state) root position
  formed : machine.InUse state frame →
    (∀ page level table, layout.IsPage page →
      layout.Meets (machine.memory state) root page level table → frame ≠ table / 4096) →
    FormedIn machine layout root later
  small : layout.OnlySmallPages (machine.memory state) root →
    layout.OnlySmallPages (machine.memory later) root

theorem Grows.maps {frame : Nat} {flags : BitVec 64} {last : State}
    (grows : Grows machine layout root state later)
    (maps : Maps machine layout root p frame flags later last) :
    Maps machine layout root p frame flags state last where
  mapped := maps.mapped
  others := fun page isPage other =>
    (maps.others page isPage other).trans (grows.keeps.walks page isPage)
  kernel := fun position below =>
    (maps.kernel position below).trans (grows.keeps.kernel position below)
  formed := by
    intro inUse untabled
    apply maps.formed (grows.inUse frame inUse)
    intro page low last isPage visited
    rcases grows.tables isPage visited with earlier | unused
    · exact untabled page low last isPage earlier
    · rintro rfl
      exact unused inUse
  small := fun small => maps.small (grows.small small)

theorem map_page_ends (few : layout.firstUser ≤ 512) (formed : FormedIn machine layout root state)
    (isUser : layout.IsUser p) {entry : BitVec 64} {address : Nat} {flags : BitVec 64}
    (decoded : layout.format.decode 0 entry = .leaf address flags)
    (meets : layout.Meets (machine.memory state) root p level table) :
    Ends (mapPage machine layout.format p entry level table) state
      (fun _ later => Maps machine layout root p (leafFrame address p 0) flags state later)
      (Grows machine layout root state) := by
  induction level generalizing table state with
  | zero =>
      apply ends_modify
      obtain ⟨mapped, others, kernel, kept, small⟩ := formed.map_leaf isUser meets decoded
      have memoryEq := machine.memory_change
        (fun memory => memory.store (table + index p 0 * 8) entry) state
      refine ⟨?_, ?_, ?_, ?_, ?_⟩
      · rw [memoryEq]
        exact mapped
      · rw [memoryEq]
        exact others
      · rw [memoryEq]
        exact kernel
      · unfold FormedIn
        rw [memoryEq, machine.in_use_change]
        exact kept
      · rw [memoryEq]
        exact small
  | succ level ih =>
      apply ends_bind (next_table_ends few formed isUser meets)
      rintro next later ⟨grows, reached⟩
      apply ends_mono (ih grows.formed reached)
      · exact fun _ _ maps => grows.maps maps
      · exact fun _ further => grows.trans further

end

end RadixTables
