import Ferrugem.Library.FramePrograms

/-!
# Copies of page-table trees

`cloneEntry` copies what an entry leads to: a page into a new frame, a table
into a new table that is filled before it is linked. `Copied` compares the walk
of one page in the source with the walk of the same page in the copy. The copy
lies in frames that were not in use, so filling it changes nothing the source
is made of, and what is copied later changes nothing that was copied before.
-/

set_option autoImplicit false

namespace RadixTables

open Fallible

structure CopyFormat extends TableFormat where
  copyTable : Nat → BitVec 64 → BitVec 64
  copyLeaf : Nat → BitVec 64 → BitVec 64
  table_copied : ∀ {level entry old new}, decode (level + 1) entry = .table old →
    new % 4096 = 0 → new < 2 ^ 52 → decode (level + 1) (copyTable new entry) = .table new
  flags_copied : ∀ {entry new}, new % 4096 = 0 → new < 2 ^ 52 →
    tableFlags (copyTable new entry) = tableFlags entry
  leaf_copied : ∀ {entry old flags new}, decode 0 entry = .leaf old flags →
    new % 4096 = 0 → new < 2 ^ 52 → decode 0 (copyLeaf new entry) = .leaf new flags
  leaf_aligned : ∀ {entry address flags}, decode 0 entry = .leaf address flags →
    address % 4096 = 0

section

variable {State : Type} (machine : FrameMachine State) (format : CopyFormat)

def copyFrame (source target : Nat) : Fallible State Unit :=
  Fallible.modify (machine.change fun memory => memory.copyBlock source target 4096)

def cloneLast (source new position : Nat) : Fallible State Unit := do
  let entry ← readEntry machine source position
  match format.decode 0 entry with
  | .leaf address _ =>
      let data ← allocFrame machine
      copyFrame machine address data
      writeEntry machine new position (format.copyLeaf data entry)
  | _ => pure ()

/-- An entry of a higher level, with the program for the entries below. Large
pages are shared. -/
def cloneUpper (level : Nat) (below : Nat → Nat → Nat → Fallible State Unit)
    (source new position : Nat) : Fallible State Unit := do
  let entry ← readEntry machine source position
  match format.decode level entry with
  | .absent => pure ()
  | .leaf _ _ => writeEntry machine new position entry
  | .table address =>
      let table ← allocTable machine
      Fallible.forRange 512 (below address table)
      writeEntry machine new position (format.copyTable table entry)

def cloneEntry : Nat → Nat → Nat → Nat → Fallible State Unit
  | 0 => cloneLast machine format
  | level + 1 => cloneUpper machine format (level + 1) (cloneEntry level)

def shareEntry (source new position : Nat) : Fallible State Unit := do
  let entry ← readEntry machine source position
  writeEntry machine new position entry

/-- A new root with the kernel's entries of the source and a copy of the
user's. -/
def cloneTree (top firstUser source : Nat) : Fallible State Nat := do
  let new ← allocTable machine
  Fallible.forRange firstUser (shareEntry machine source new)
  Fallible.forRange (512 - firstUser) fun i =>
    cloneEntry machine format top source new (i + firstUser)
  pure new

end

section

variable {format : TableFormat} {before after later : WordMemory} {Fresh Wider : Nat → Prop}
variable {page level source new : Nat}

/-- The walk of the page from the new table takes the way of the walk from the
source under the same bounds, in fresh frames, and ends in a page with the same
contents. -/
inductive Copied (format : TableFormat) (before after : WordMemory) (Fresh : Nat → Prop)
    (page : Nat) : Nat → Nat → Nat → Prop where
  | absent {level source new : Nat}
      (original : format.decode level (entryAt before source (index page level)) = .absent)
      (copy : format.decode level (entryAt after new (index page level)) = .absent) :
      Copied format before after Fresh page level source new
  | leaf {source new old data : Nat} {flags : BitVec 64}
      (original : format.decode 0 (entryAt before source (index page 0)) = .leaf old flags)
      (copy : format.decode 0 (entryAt after new (index page 0)) = .leaf data flags)
      (fresh : Fresh (data / 4096))
      (same : ∀ word, word < 512 →
        after (data / 4096 * 512 + word) = before (old / 4096 * 512 + word)) :
      Copied format before after Fresh page 0 source new
  | table {level source new old table : Nat}
      (original : format.decode (level + 1) (entryAt before source (index page (level + 1))) =
        .table old)
      (copy : format.decode (level + 1) (entryAt after new (index page (level + 1))) =
        .table table)
      (flags : format.tableFlags (entryAt after new (index page (level + 1))) =
        format.tableFlags (entryAt before source (index page (level + 1))))
      (fresh : Fresh (table / 4096))
      (below : Copied format before after Fresh page level old table) :
      Copied format before after Fresh page (level + 1) source new

theorem Copied.persists (copied : Copied format before after Fresh page level source new)
    (here : entryAt later new (index page level) = entryAt after new (index page level))
    (kept : ∀ frame, Fresh frame → ∀ word, word < 512 →
      later (frame * 512 + word) = after (frame * 512 + word))
    (wider : ∀ frame, Fresh frame → Wider frame) :
    Copied format before later Wider page level source new := by
  induction copied with
  | absent original copy => exact .absent original (by rw [here]; exact copy)
  | leaf original copy fresh same =>
      refine .leaf original (by rw [here]; exact copy) (wider _ fresh) ?_
      intro word inside
      rw [kept _ fresh word inside, same word inside]
  | @table level source new old table original copy flags fresh below ih =>
      refine .table original (by rw [here]; exact copy) (by rw [here]; exact flags)
        (wider _ fresh) (ih ?_)
      have aligned := format.aligned copy
      rw [entry_at_eq _ aligned, entry_at_eq _ aligned]
      exact kept _ fresh _ (index_lt page level)

/-- An entry that can be copied: what it leads to is in use, and only last
entries map pages. -/
def CopyableEntry (format : TableFormat) (memory : WordMemory) (InUse : Nat → Prop) :
    Nat → BitVec 64 → Prop
  | 0, entry => ∀ address flags, format.decode 0 entry = .leaf address flags →
      InUse (address / 4096)
  | level + 1, entry =>
      (∀ address flags, format.decode (level + 1) entry ≠ .leaf address flags) ∧
        ∀ address, format.decode (level + 1) entry = .table address →
          InUse (address / 4096) ∧ ∀ position, position < 512 →
            CopyableEntry format memory InUse level (entryAt memory address position)

end

section

variable {State : Type} {machine : FrameMachine State} {format : CopyFormat}
variable {start state later last : State} {source new level : Nat}

structure Filled (machine : FrameMachine State) (new : Nat) (Position : Nat → Prop)
    (state later : State) : Prop where
  inUse : ∀ frame, machine.InUse state frame → machine.InUse later frame
  words : ∀ frame, machine.InUse state frame → ∀ word, word < 512 →
    (frame = new / 4096 → ¬Position word) →
    machine.memory later (frame * 512 + word) = machine.memory state (frame * 512 + word)

def FreshSince (machine : FrameMachine State) (state later : State) (frame : Nat) : Prop :=
  machine.InUse later frame ∧ ¬machine.InUse state frame

/-- The source is as it was at the start, and the new table is none of the
frames that were in use then. -/
structure Cloning (machine : FrameMachine State) (start : State) (source new : Nat)
    (state : State) : Prop where
  inUse : ∀ frame, machine.InUse start frame → machine.InUse state frame
  words : ∀ frame, machine.InUse start frame → ∀ word, word < 512 →
    machine.memory state (frame * 512 + word) = machine.memory start (frame * 512 + word)
  sourceAligned : source % 4096 = 0
  sourceUsed : machine.InUse start (source / 4096)
  newAligned : new % 4096 = 0
  newUsed : machine.InUse state (new / 4096)
  newFresh : ¬machine.InUse start (new / 4096)

theorem Filled.trans {First Second : Nat → Prop} (left : Filled machine new First state later)
    (right : Filled machine new Second later last) :
    Filled machine new (fun word => First word ∨ Second word) state last where
  inUse := fun frame inUse => right.inUse frame (left.inUse frame inUse)
  words := by
    intro frame inUse word inside elsewhere
    rw [right.words frame (left.inUse frame inUse) word inside
      fun same second => elsewhere same (.inr second)]
    exact left.words frame inUse word inside fun same first => elsewhere same (.inl first)

theorem Filled.mono {Position Wider : Nat → Prop} (filled : Filled machine new Position state later)
    (wider : ∀ word, word < 512 → Position word → Wider word) :
    Filled machine new Wider state later where
  inUse := filled.inUse
  words := fun frame inUse word inside elsewhere =>
    filled.words frame inUse word inside fun same here =>
      elsewhere same (wider word inside here)

theorem Cloning.filled {Position : Nat → Prop} (cloning : Cloning machine start source new state)
    (filled : Filled machine new Position state later) :
    Cloning machine start source new later where
  inUse := fun frame inUse => filled.inUse frame (cloning.inUse frame inUse)
  words := by
    intro frame inUse word inside
    rw [filled.words frame (cloning.inUse frame inUse) word inside, cloning.words frame inUse word
      inside]
    rintro rfl
    exact absurd inUse cloning.newFresh
  sourceAligned := cloning.sourceAligned
  sourceUsed := cloning.sourceUsed
  newAligned := cloning.newAligned
  newUsed := filled.inUse _ cloning.newUsed
  newFresh := cloning.newFresh

theorem Filled.entry {Position : Nat → Prop} (filled : Filled machine new Position state later)
    (aligned : new % 4096 = 0) (used : machine.InUse state (new / 4096)) {position : Nat}
    (inside : position < 512) (elsewhere : ¬Position position) :
    entryAt (machine.memory later) new position = entryAt (machine.memory state) new position := by
  rw [entry_at_eq _ aligned, entry_at_eq _ aligned]
  exact filled.words _ used position inside fun _ => elsewhere

theorem Cloning.entry (cloning : Cloning machine start source new state) {position : Nat}
    (inside : position < 512) :
    entryAt (machine.memory state) source position =
      entryAt (machine.memory start) source position := by
  rw [entry_at_eq _ cloning.sourceAligned, entry_at_eq _ cloning.sourceAligned]
  exact cloning.words _ cloning.sourceUsed position inside

theorem Copied.filled {Position : Nat → Prop} {origin : State} {before : WordMemory} {page : Nat}
    (copied : Copied format.toTableFormat before (machine.memory state)
      (FreshSince machine origin state) page level source new)
    (filled : Filled machine new Position state later) (aligned : new % 4096 = 0)
    (old : machine.InUse origin (new / 4096)) (used : machine.InUse state (new / 4096))
    (elsewhere : ¬Position (index page level)) :
    Copied format.toTableFormat before (machine.memory later) (FreshSince machine origin later)
      page level source new := by
  apply copied.persists (filled.entry aligned used (index_lt page level) elsewhere)
  · rintro frame ⟨inUse, fresh⟩ word inside
    apply filled.words frame inUse word inside
    rintro rfl
    exact absurd old fresh
  · rintro frame ⟨inUse, fresh⟩
    exact ⟨filled.inUse frame inUse, fresh⟩

def EntryCopied (machine : FrameMachine State) (format : CopyFormat) (start : State)
    (level source new : Nat) (Position : Nat → Prop) (state later : State) : Prop :=
  Filled machine new Position state later ∧
    ∀ page, Position (index page level) →
      Copied format.toTableFormat (machine.memory start) (machine.memory later)
        (FreshSince machine state later) page level source new

def ClonesEntries (machine : FrameMachine State) (format : CopyFormat) (start : State)
    (level : Nat) : Prop :=
  ∀ {state source new position}, Cloning machine start source new state → position < 512 →
    CopyableEntry format.toTableFormat (machine.memory start) (machine.InUse start) level
      (entryAt (machine.memory start) source position) →
    entryAt (machine.memory state) new position = 0#64 →
    Ends (cloneEntry machine format level source new position) state
      (fun _ later => EntryCopied machine format start level source new (fun word => word = position)
        state later) fun _ => True

theorem clone_range_ends (clones : ClonesEntries machine format start level)
    (cloning : Cloning machine start source new state) {offset n : Nat} (fits : n + offset ≤ 512)
    (copyable : ∀ position, offset ≤ position → position < n + offset →
      CopyableEntry format.toTableFormat (machine.memory start) (machine.InUse start) level
        (entryAt (machine.memory start) source position))
    (empty : ∀ position, offset ≤ position → position < n + offset →
      entryAt (machine.memory state) new position = 0#64) :
    Ends (forRange n fun i => cloneEntry machine format level source new (i + offset)) state
      (fun _ later => EntryCopied machine format start level source new
        (fun word => offset ≤ word ∧ word < n + offset) state later) fun _ => True := by
  apply ends_for_range
  · refine ⟨⟨fun _ => id, fun _ _ _ _ _ => rfl⟩, fun page range => ?_⟩
    omega
  · rintro i later below ⟨filled, done⟩
    have cloned := cloning.filled filled
    have zero : entryAt (machine.memory later) new (i + offset) = 0#64 := by
      rw [filled.entry cloning.newAligned cloning.newUsed (by omega) (by omega)]
      exact empty (i + offset) (by omega) (by omega)
    apply ends_mono (clones cloned (by omega) (copyable (i + offset) (by omega) (by omega)) zero)
    · rintro _ last ⟨further, copied⟩
      refine ⟨(filled.trans further).mono (by omega), ?_⟩
      intro page range
      by_cases here : index page level = i + offset
      · apply (copied page here).persists rfl (fun _ _ _ _ => rfl)
        rintro frame ⟨inUse, fresh⟩
        exact ⟨inUse, fun old => fresh (filled.inUse frame old)⟩
      · exact (done page (by omega)).filled further cloning.newAligned cloning.newUsed
          cloned.newUsed here
    · exact fun _ _ => trivial

theorem filled_fresh {address : Nat} {change : WordMemory → WordMemory}
    (outcome : machine.alloc state = some (address, later))
    (only : ∀ memory word, word / 512 ≠ address / 4096 → change memory word = memory word)
    (new : Nat) (Position : Nat → Prop) :
    Filled machine new Position state (machine.change change later) where
  inUse := by
    rw [machine.in_use_change]
    exact machine.kept outcome
  words := by
    intro frame inUse word inside _
    rw [machine.memory_change, machine.memory_alloc outcome]
    apply only
    intro same
    apply machine.unused outcome
    rwa [← same, Nat.mul_comm, Nat.mul_add_div (by decide), Nat.div_eq_of_lt inside]

theorem filled_write (aligned : new % 4096 = 0) {position : Nat} (inside : position < 512)
    (entry : BitVec 64) :
    Filled machine new (fun word => word = position) state
      (machine.change (fun memory => memory.store (new + position * 8) entry) state) where
  inUse := by
    rw [machine.in_use_change]
    exact fun _ => id
  words := by
    intro frame _ word below elsewhere
    rw [machine.memory_change]
    apply Function.update_of_ne
    intro same
    apply elsewhere <;> omega

theorem zero_block_only (address : Nat) (aligned : address % 4096 = 0) (memory : WordMemory)
    (word : Nat) (elsewhere : word / 512 ≠ address / 4096) :
    memory.zeroBlock address 4096 word = memory word := by
  apply if_neg
  unfold WordMemory.inBlock
  omega

theorem copy_block_only (source address : Nat) (aligned : address % 4096 = 0)
    (memory : WordMemory) (word : Nat) (elsewhere : word / 512 ≠ address / 4096) :
    memory.copyBlock source address 4096 word = memory word := by
  apply if_neg
  unfold WordMemory.inBlock
  omega

theorem copy_block_word {source address : Nat} (sourceAligned : source % 4096 = 0)
    (aligned : address % 4096 = 0) (memory : WordMemory) {word : Nat} (inside : word < 512) :
    memory.copyBlock source address 4096 (address / 4096 * 512 + word) =
      memory (source / 4096 * 512 + word) := by
  have block : WordMemory.inBlock address 4096 (address / 4096 * 512 + word) := by
    unfold WordMemory.inBlock
    omega
  rw [WordMemory.copyBlock, if_pos block]
  congr 1
  omega

theorem entry_copied_absent {position : Nat}
    (absent : format.decode level (entryAt (machine.memory start) source position) = .absent)
    (empty : entryAt (machine.memory state) new position = 0#64) :
    EntryCopied machine format start level source new (fun word => word = position) state
      state := by
  refine ⟨⟨fun _ => id, fun _ _ _ _ _ => rfl⟩, ?_⟩
  rintro page rfl
  refine .absent absent ?_
  rw [empty]
  exact format.absent level

theorem clones_pages : ClonesEntries machine format start 0 := by
  intro state source new position cloning inside copyable empty
  unfold cloneEntry cloneLast
  apply ends_bind_read
  rw [cloning.entry inside]
  cases decoded : format.decode 0 (entryAt (machine.memory start) source position) with
  | absent => exact ends_pure (entry_copied_absent decoded empty)
  | table address => exact absurd decoded (format.last _ address)
  | leaf address flags =>
      apply ends_bind (alloc_frame_ends trivial)
      intro data taken outcome
      apply ends_bind_modify
      apply ends_modify
      have aligned := machine.aligned outcome
      have sourceAligned := format.leaf_aligned decoded
      have copied := filled_fresh outcome (copy_block_only address data aligned) new
        fun word => word = position
      have used : machine.InUse taken (data / 4096) := machine.taken outcome
      have fresh := machine.unused outcome
      have other : data / 4096 ≠ new / 4096 := fun same => fresh (same ▸ cloning.newUsed)
      refine ⟨(copied.trans (filled_write cloning.newAligned inside _)).mono
        fun word _ either => either.elim id id, ?_⟩
      rintro page rfl
      refine @Copied.leaf _ _ _ _ _ _ _ address data flags decoded ?_ ?_ ?_
      · rw [machine.memory_change, entry_at_store_same]
        exact format.leaf_copied decoded aligned (machine.bounded outcome)
      · refine ⟨?_, fresh⟩
        rw [machine.in_use_change, machine.in_use_change]
        exact used
      · intro word below
        have write := @filled_write State machine
          (machine.change (fun memory => memory.copyBlock address data 4096) taken) new
          cloning.newAligned (index page 0) inside
          (format.copyLeaf data (entryAt (machine.memory start) source (index page 0)))
        rw [write.words (data / 4096) (by rw [machine.in_use_change]; exact used) word below
            fun same => absurd same other,
          machine.memory_change, copy_block_word sourceAligned aligned _ below,
          machine.memory_alloc outcome]
        exact cloning.words _ (copyable address flags decoded) word below

theorem Cloning.table {address table : Nat} (cloning : Cloning machine start source new state)
    (aligned : address % 4096 = 0) (used : machine.InUse start (address / 4096))
    (allocated : TableAllocated machine state table later) :
    Cloning machine start address table later ∧
      Filled machine new (fun _ => False) state later ∧
      ∀ position, position < 512 → entryAt (machine.memory later) table position = 0#64 := by
  obtain ⟨taken, outcome, rfl⟩ := allocated
  have tableAligned := machine.aligned outcome
  have filled := filled_fresh outcome (zero_block_only table tableAligned) new fun _ => False
  have kept := cloning.filled filled
  refine ⟨⟨kept.inUse, kept.words, aligned, used, tableAligned, ?_, ?_⟩, filled, ?_⟩
  · rw [machine.in_use_change]
    exact machine.taken outcome
  · exact fun old => machine.unused outcome (cloning.inUse _ old)
  · intro position inside
    rw [machine.memory_change]
    exact entry_at_zero_same tableAligned inside

theorem entry_copied_table {position address table : Nat} {cleared filled : State}
    (cloning : Cloning machine start source new state) (inside : position < 512)
    (decoded : format.decode (level + 1) (entryAt (machine.memory start) source position) =
      .table address)
    (allocated : TableAllocated machine state table cleared)
    (allocation : Filled machine new (fun _ => False) state cleared)
    (copied : EntryCopied machine format start level address table (fun word => word < 512) cleared
      filled) :
    EntryCopied machine format start (level + 1) source new (fun word => word = position) state
      (machine.change (fun memory => memory.store (new + position * 8)
        (format.copyTable table (entryAt (machine.memory start) source position))) filled) := by
  obtain ⟨taken, outcome, rfl⟩ := allocated
  have aligned := machine.aligned outcome
  have fresh := machine.unused outcome
  have other : new / 4096 ≠ table / 4096 := fun same => fresh (same ▸ cloning.newUsed)
  have usedCleared := allocation.inUse _ cloning.newUsed
  have usedFilled := copied.1.inUse _ usedCleared
  have usedTable : machine.InUse (machine.change (fun memory => memory.zeroBlock table 4096) taken)
      (table / 4096) := by
    rw [machine.in_use_change]
    exact machine.taken outcome
  -- the frames of the copy are none of those the new table was among
  have sparing : Filled machine new (fun _ => False) state filled := by
    refine ⟨fun frame inUse => copied.1.inUse frame (allocation.inUse frame inUse), ?_⟩
    intro frame inUse word below _
    rw [copied.1.words frame (allocation.inUse frame inUse) word below
      (fun same => absurd (same ▸ inUse) fresh), allocation.words frame inUse word below
      fun _ => id]
  have write := @filled_write State machine filled new cloning.newAligned position inside
    (format.copyTable table (entryAt (machine.memory start) source position))
  refine ⟨(sparing.trans write).mono fun word _ either => either.elim False.elim id, ?_⟩
  rintro page rfl
  refine @Copied.table _ _ _ _ _ _ _ _ address table decoded ?_ ?_ ?_ ?_
  · rw [machine.memory_change, entry_at_store_same]
    exact format.table_copied decoded aligned (machine.bounded outcome)
  · rw [machine.memory_change, entry_at_store_same]
    exact format.flags_copied aligned (machine.bounded outcome)
  · refine ⟨?_, fresh⟩
    rw [machine.in_use_change]
    exact copied.1.inUse _ usedTable
  · have below := copied.2 page (index_lt page level)
    apply below.persists
    · rw [machine.memory_change]
      apply entry_at_store_other cloning.newAligned aligned inside (index_lt page level)
      exact .inl fun same => other (same ▸ rfl)
    · rintro frame ⟨inUse, unused⟩ word inFrame
      apply write.words frame inUse word inFrame
      rintro rfl
      exact absurd usedCleared unused
    · rintro frame ⟨inUse, unused⟩
      refine ⟨?_, fun old => unused (allocation.inUse frame old)⟩
      rw [machine.in_use_change]
      exact inUse

theorem clones_entries (level : Nat) : ClonesEntries machine format start level := by
  induction level with
  | zero => exact clones_pages
  | succ level ih =>
      intro state source new position cloning inside copyable empty
      unfold cloneEntry cloneUpper
      apply ends_bind_read
      rw [cloning.entry inside]
      cases decoded : format.decode (level + 1) (entryAt (machine.memory start) source position) with
      | absent => exact ends_pure (entry_copied_absent decoded empty)
      | leaf address flags => exact absurd decoded (copyable.1 address flags)
      | table address =>
          obtain ⟨used, below⟩ := copyable.2 address decoded
          apply ends_bind (alloc_table_ends trivial)
          intro table cleared allocated
          obtain ⟨entered, allocation, zero⟩ :=
            cloning.table (format.aligned decoded) used allocated
          have loop := @clone_range_ends _ machine format start cleared address table level ih entered
            0 512 (by decide) (fun position _ => below position) (fun position _ => zero position)
          have body : (fun i => cloneEntry machine format level address table (i + 0)) =
              cloneEntry machine format level address table := rfl
          rw [body] at loop
          apply ends_bind loop
          intro _ filled copied
          apply ends_modify
          exact entry_copied_table cloning inside decoded allocated allocation
            ⟨copied.1.mono fun word _ range => range.2, fun page below => copied.2 page
              ⟨Nat.zero_le _, below⟩⟩

variable {layout : TreeLayout} {root : Nat}

def sibling (page level position : Nat) : Nat :=
  (page / 512 ^ (level + 1) * 512 + position) * 512 ^ level

theorem sibling_shares (page level : Nat) {position : Nat} (inside : position < 512) :
    sibling page level position / 512 ^ (level + 1) = page / 512 ^ (level + 1) := by
  unfold sibling
  rw [pow_succ, ← Nat.div_div_eq_div_mul, Nat.mul_div_cancel _ (Nat.pow_pos (by decide))]
  omega

theorem index_sibling (page level : Nat) {position : Nat} (inside : position < 512) :
    index (sibling page level position) level = position := by
  unfold index sibling
  rw [Nat.mul_div_cancel _ (Nat.pow_pos (by decide))]
  omega

theorem sibling_is_user {page position : Nat} (isUser : layout.IsUser page)
    (low : level ≤ layout.top) (inside : position < 512)
    (user : level = layout.top → layout.firstUser ≤ position) :
    layout.IsUser (sibling page level position) := by
  have same := sibling_shares page level inside
  constructor
  · have zero := prefix_above same (Nat.succ_le_succ low)
    rw [Nat.div_eq_of_lt isUser.1] at zero
    exact (Nat.div_eq_zero_iff.mp zero).resolve_left
      (Nat.ne_of_gt (Nat.pow_pos (by decide)))
  · rcases Nat.eq_or_lt_of_le low with top | below
    · rw [← top, index_sibling page level inside]
      exact user top
    · rw [index_eq same below]
      exact isUser.2

theorem copyable_of_formed {InUse : Nat → Prop} {memory : WordMemory}
    (formed : layout.Formed InUse memory root) (small : layout.OnlySmallPages memory root) :
    ∀ {level table page}, layout.IsUser page → layout.Meets memory root page level table →
      ∀ position, position < 512 → (level = layout.top → layout.firstUser ≤ position) →
        CopyableEntry layout.format memory InUse level (entryAt memory table position) := by
  intro level
  induction level with
  | zero =>
      intro table page isUser meets position inside user address flags leaf
      have isSibling := sibling_is_user isUser meets.le inside user
      have reached : layout.Meets memory root (sibling page 0 position) 0 table :=
        meets.same_prefix (sibling_shares page 0 inside).symm
      rw [← index_sibling page 0 inside] at leaf
      have mapped := formed.leaves isSibling (reached.walk_eq.trans (walk_leaf leaf))
      have frame : leafFrame address (sibling page 0 position) 0 = address / 4096 := by
        unfold leafFrame
        omega
      rwa [frame] at mapped
  | succ level ih =>
      intro table page isUser meets position inside user
      have isSibling := sibling_is_user isUser meets.le inside user
      have reached : layout.Meets memory root (sibling page (level + 1) position) (level + 1)
          table := meets.same_prefix (sibling_shares page (level + 1) inside).symm
      rw [← index_sibling page (level + 1) inside]
      refine ⟨small _ level table isSibling reached, ?_⟩
      intro address link
      have next := reached.step link
      refine ⟨formed.tables isSibling.1 next, ?_⟩
      intro place below
      exact ih isSibling next place below fun top => absurd meets.le (by omega)

structure TreeCopied (machine : FrameMachine State) (layout : TreeLayout) (start : State)
    (source new : Nat) (later : State) : Prop where
  copied : ∀ page, layout.IsUser page →
    Copied layout.format (machine.memory start) (machine.memory later)
      (fun frame => ¬machine.InUse start frame) page layout.top source new
  kernel : ∀ position, position < layout.firstUser →
    entryAt (machine.memory later) new position = entryAt (machine.memory start) source position
  words : ∀ frame, machine.InUse start frame → ∀ word, word < 512 →
    machine.memory later (frame * 512 + word) = machine.memory start (frame * 512 + word)
  aligned : new % 4096 = 0
  fresh : ¬machine.InUse start (new / 4096)

theorem cloning_root {table : Nat} (aligned : source % 4096 = 0)
    (used : machine.InUse start (source / 4096))
    (allocated : TableAllocated machine start table later) :
    Cloning machine start source table later ∧
      ∀ position, position < 512 → entryAt (machine.memory later) table position = 0#64 := by
  obtain ⟨taken, outcome, rfl⟩ := allocated
  have tableAligned := machine.aligned outcome
  have filled := filled_fresh outcome (zero_block_only table tableAligned) 0 fun _ => False
  refine ⟨⟨filled.inUse, fun frame inUse word inside => filled.words frame inUse word inside
    fun _ => id, aligned, used, tableAligned, ?_, machine.unused outcome⟩, ?_⟩
  · rw [machine.in_use_change]
    exact machine.taken outcome
  · intro position inside
    rw [machine.memory_change]
    exact entry_at_zero_same tableAligned inside

theorem share_entries_ends {count : Nat} (few : count ≤ 512)
    (cloning : Cloning machine start source new state) :
    Ends (forRange count (shareEntry machine source new)) state
      (fun _ later => Filled machine new (fun word => word < count) state later ∧
        ∀ position, position < count →
          entryAt (machine.memory later) new position =
            entryAt (machine.memory start) source position) fun _ => True := by
  apply ends_for_range
  · exact ⟨⟨fun _ => id, fun _ _ _ _ _ => rfl⟩, fun position below => by omega⟩
  · rintro i later below ⟨filled, shared⟩
    have cloned := cloning.filled filled
    unfold shareEntry
    apply ends_bind_read
    apply ends_modify
    have write := @filled_write State machine later new cloning.newAligned i (by omega)
      (entryAt (machine.memory later) source i)
    refine ⟨(filled.trans write).mono (by omega), ?_⟩
    intro position within
    by_cases here : position = i
    · subst here
      rw [machine.memory_change, entry_at_store_same]
      exact cloned.entry (by omega)
    · rw [write.entry cloning.newAligned cloned.newUsed (by omega) here]
      exact shared position (by omega)

theorem clone_tree_ends (format : CopyFormat) {top firstUser : Nat} (few : firstUser ≤ 512)
    (formed : FormedIn machine ⟨format.toTableFormat, top, firstUser⟩ source start)
    (small : TreeLayout.OnlySmallPages ⟨format.toTableFormat, top, firstUser⟩
      (machine.memory start) source)
    (user : ∃ page, TreeLayout.IsUser ⟨format.toTableFormat, top, firstUser⟩ page) :
    Ends (cloneTree machine format top firstUser source) start
      (TreeCopied machine ⟨format.toTableFormat, top, firstUser⟩ start source) fun _ => True := by
  obtain ⟨first, isUser⟩ := user
  apply ends_bind (alloc_table_ends trivial)
  intro new cleared allocated
  obtain ⟨entered, zero⟩ := cloning_root formed.aligned (formed.tables isUser.1 .here) allocated
  apply ends_bind (share_entries_ends few entered)
  rintro _ shared ⟨filled, kernel⟩
  have cloning := entered.filled filled
  have loop := @clone_range_ends _ machine format start shared source new top (clones_entries top)
    cloning firstUser (512 - firstUser) (by omega)
    (fun position first inside => copyable_of_formed formed small isUser .here position (by omega)
      fun _ => first)
    (fun position first inside => by
      rw [filled.entry entered.newAligned entered.newUsed (by omega) (by omega)]
      exact zero position (by omega))
  apply ends_bind loop
  rintro _ later ⟨further, copied⟩
  have done := cloning.filled further
  refine ends_pure ⟨?_, ?_, done.words, done.newAligned, done.newFresh⟩
  · intro page isUser
    have bound := index_lt page top
    have inRange : firstUser ≤ index page top := isUser.2
    apply (copied page (by omega)).persists rfl fun _ _ _ _ => rfl
    rintro frame ⟨_, unused⟩ old
    exact unused (cloning.inUse frame old)
  · intro position below
    change position < firstUser at below
    rw [further.entry done.newAligned cloning.newUsed (by omega) (by omega)]
    exact kernel position below

end

section

variable {State : Type} {machine : FrameMachine State} {layout : TreeLayout}
variable {memory after : WordMemory} {root source new : Nat} {start later : State}

/-- The flags of a page and its contents, through the tree of the root. -/
def contentsOf (memory : WordMemory) (found : Translation) : BitVec 64 × (Nat → BitVec 64) :=
  (found.flags, fun word => memory (found.frame * 512 + word % 512))

def pageView (layout : TreeLayout) (memory : WordMemory) (root page : Nat) :
    Option (BitVec 64 × (Nat → BitVec 64)) :=
  (layout.translate memory root page).map (contentsOf memory)

/-- A page as the user meets it: the bounds on the way to it, its own flags and
its contents. -/
def pageSeen (layout : TreeLayout) (memory : WordMemory) (root page : Nat) :
    List (BitVec 64) × Option (BitVec 64 × (Nat → BitVec 64)) :=
  (pathFlags layout.format memory page layout.top root, pageView layout memory root page)

def MapsFrame (layout : TreeLayout) (memory : WordMemory) (root frame : Nat) : Prop :=
  ∃ page found, layout.IsUser page ∧ layout.translate memory root page = some found ∧
    found.frame = frame

def ReachesFrame (layout : TreeLayout) (memory : WordMemory) (root frame : Nat) : Prop :=
  (∃ page level table, layout.IsUser page ∧ layout.Meets memory root page level table ∧
    table / 4096 = frame) ∨ MapsFrame layout memory root frame

theorem Copied.view {format : TableFormat} {before : WordMemory} {Fresh : Nat → Prop}
    {page level : Nat} (copied : Copied format before after Fresh page level source new) :
    (walk format after page level new).map (contentsOf after) =
      (walk format before page level source).map (contentsOf before) := by
  induction copied with
  | absent original copy => rw [walk_absent original, walk_absent copy, Option.map_none,
      Option.map_none]
  | @leaf source new old data flags original copy fresh same =>
      have frame : ∀ address, leafFrame address page 0 = address / 4096 := by
        intro address
        unfold leafFrame
        omega
      rw [walk_leaf original, walk_leaf copy, Option.map_some, Option.map_some, frame, frame]
      unfold contentsOf
      simp only [Option.some.injEq, Prod.mk.injEq, true_and]
      funext word
      exact same (word % 512) (Nat.mod_lt _ (by decide))
  | table original copy flags fresh below ih => rw [walk_table original, walk_table copy, ih]

theorem Copied.path {format : TableFormat} {before : WordMemory} {Fresh : Nat → Prop}
    {page level : Nat} (copied : Copied format before after Fresh page level source new) :
    pathFlags format after page level new = pathFlags format before page level source := by
  induction copied with
  | absent original copy =>
      rw [path_flags_end (by simp [copy]), path_flags_end (by simp [original])]
  | leaf => rfl
  | table original copy flags fresh below ih =>
      rw [path_flags_table copy, path_flags_table original, flags, ih]

theorem Copied.seen {before : WordMemory} {Fresh : Nat → Prop} {page : Nat}
    (copied : Copied layout.format before after Fresh page layout.top source new) :
    pageSeen layout after new page = pageSeen layout before source page :=
  Prod.ext copied.path copied.view

theorem Copied.fresh_tables {format : TableFormat} {before : WordMemory} {Fresh : Nat → Prop}
    {page level bottom last : Nat}
    (copied : Copied format before after Fresh page level source new)
    (visits : Visits format after page level new bottom last) :
    last = new ∨ Fresh (last / 4096) := by
  induction copied with
  | absent original copy =>
      cases visits with
      | here => exact .inl rfl
      | down link below =>
          rw [copy] at link
          cases link
  | leaf original copy fresh same =>
      cases visits
      exact .inl rfl
  | table original copy flags fresh below ih =>
      cases visits with
      | here => exact .inl rfl
      | down link rest =>
          rw [copy, Decoded.table.injEq] at link
          subst link
          rcases ih rest with rfl | further
          · exact .inr fresh
          · exact .inr further

theorem Copied.fresh_page {format : TableFormat} {before : WordMemory} {Fresh : Nat → Prop}
    {page level : Nat} {found : Translation}
    (copied : Copied format before after Fresh page level source new)
    (translated : walk format after page level new = some found) : Fresh found.frame := by
  induction copied with
  | absent original copy =>
      rw [walk_absent copy] at translated
      cases translated
  | @leaf source new old data flags original copy fresh same =>
      rw [walk_leaf copy, Option.some.injEq] at translated
      subst translated
      have frame : leafFrame data page 0 = data / 4096 := by
        unfold leafFrame
        omega
      rw [frame]
      exact fresh
  | table original copy flags fresh below ih =>
      rw [walk_table copy] at translated
      exact ih translated

theorem TreeCopied.reached_fresh (tree : TreeCopied machine layout start source new later)
    {frame : Nat} (reached : ReachesFrame layout (machine.memory later) new frame) :
    ¬machine.InUse start frame := by
  rcases reached with ⟨page, level, table, isUser, meets, rfl⟩ |
    ⟨page, found, isUser, translated, rfl⟩
  · rcases (tree.copied page isUser).fresh_tables meets with rfl | fresh
    · exact tree.fresh
    · exact fresh
  · exact (tree.copied page isUser).fresh_page translated

theorem source_reached {InUse : Nat → Prop} (formed : layout.Formed InUse memory root)
    {frame : Nat} (reached : ReachesFrame layout memory root frame) : InUse frame := by
  rcases reached with ⟨page, level, table, isUser, meets, rfl⟩ |
    ⟨page, found, isUser, translated, rfl⟩
  · exact formed.tables isUser.1 meets
  · exact formed.leaves isUser translated

theorem view_of_agrees {InUse : Nat → Prop} (formed : layout.Formed InUse memory root)
    (agrees : ∀ frame, InUse frame → ∀ word, word < 512 →
      after (frame * 512 + word) = memory (frame * 512 + word)) {page : Nat}
    (isUser : layout.IsUser page) :
    layout.translate after root page = layout.translate memory root page ∧
      pageSeen layout after root page = pageSeen layout memory root page := by
  have entries : ∀ bottom last, layout.Meets memory root page bottom last →
      entryAt after last (index page bottom) = entryAt memory last (index page bottom) := by
    intro bottom last visited
    have aligned := visited.aligned formed.aligned
    rw [entry_at_eq _ aligned, entry_at_eq _ aligned]
    exact agrees _ (formed.tables isUser.1 visited) _ (index_lt page bottom)
  have walks : layout.translate after root page = layout.translate memory root page :=
    walk_congr entries
  refine ⟨walks, ?_⟩
  unfold pageSeen
  rw [path_flags_congr entries]
  congr 1
  unfold pageView
  rw [walks]
  cases translated : layout.translate memory root page with
  | none => rfl
  | some found =>
      simp only [Option.map_some, contentsOf, Option.some.injEq, Prod.mk.injEq, true_and]
      funext word
      exact agrees _ (formed.leaves isUser translated) _ (Nat.mod_lt _ (by decide))

end

end RadixTables
