import Mathlib.Order.CompleteBooleanAlgebra
import Mathlib.Order.CompletePartialOrder
import Ferrugem.AddressSpaceSafety
import Ferrugem.AddressTranslation

/-!
# The tree of one address space

`Ferrugem.PageOwnership` says to which tree a table belongs, but two entries of
a tree might still lead to the same table. Here each table of one space also
has a place: the upper bits of the addresses that are translated through it. A
frame has one place, so no table is shared, and the translation of an address
depends on the entries of its own places only.
-/

namespace Ferrugem.TablePlaces

open Ferrugem.PagingModel Ferrugem.ElfLoaderModel Ferrugem.AddressSpaceModel
open Ferrugem.PageOwnership Ferrugem.PagingSafety Ferrugem.AddressSpaceSafety
open Ferrugem.AddressTranslation

set_option autoImplicit false

/-- The place of the table of a level in the walk of an address; at level 0 the
page itself. The bits from 48 on are not translated. -/
def placeOf (va level : Nat) : Nat := va % 2 ^ 48 / 2 ^ (12 + 9 * level)

theorem place_step {level : Nat} (va : Nat) (low : level < 4) :
    placeOf va level = placeOf va (level + 1) * 512 + levelIndex va (level + 1) := by
  have cases : level = 0 ∨ level = 1 ∨ level = 2 ∨ level = 3 := by omega
  unfold placeOf levelIndex
  rcases cases with rfl | rfl | rfl | rfl <;> omega

theorem place_root (va : Nat) : placeOf va 4 = 0 := by
  unfold placeOf
  omega

/-- The owners, and the places of the tables of one space. -/
structure Layout where
  owners : Owners
  places : Nat → Option Nat

instance : Preorder Layout where
  le before after := before.owners ≤ after.owners ∧
    ∀ frame place, before.places frame = some place → after.places frame = some place
  le_refl layout := ⟨le_refl layout.owners, fun _ _ known => known⟩
  le_trans := by
    rintro first second third ⟨owners, places⟩ ⟨laterOwners, laterPlaces⟩
    exact ⟨le_trans owners laterOwners,
      fun frame place known => laterPlaces frame place (places frame place known)⟩

structure TableAt (layout : Layout) (name level place table : Nat) : Prop where
  isTable : IsTable layout.owners (.process name) level table
  place : layout.places (table / pageSize) = some place

theorem TableAt.mono {layout later : Layout} {name level place table : Nat}
    (at_ : TableAt layout name level place table) (grown : layout ≤ later) :
    TableAt later name level place table where
  isTable := at_.isTable.mono grown.1
  place := grown.2 _ _ at_.place

section

variable {image : KernelImage} {Store : Type} (allocator : PageAllocator image Store)

/-- The tables of the space `name` are where their places say, and the
addresses `Kept` are translated as `translation` says. -/
structure Placed (name root : Nat) (Kept : Nat → Prop) (translation : Nat → Option Nat)
    (layout : Layout) (space : PhysicalSpace Store) : Prop where
  owned : SpaceOwned allocator layout.owners space
  isRoot : TableAt layout name 4 0 root
  tables : ∀ frame place, layout.places frame = some place →
    ∃ level, layout.owners frame = .table (.process name) level
  links : ∀ frame place level, layout.places frame = some place →
    layout.owners frame = .table (.process name) (level + 1) → isUpper level →
    ∀ index, index < 512 → (level = 3 → index ≠ 0) →
      hasFlag (space.memory (frame * 512 + index)) pagePresent = true →
      layout.places (frameOf (space.memory (frame * 512 + index))) = some (place * 512 + index)
  user : ∀ va, Kept va → levelIndex va 4 ≠ 0
  kept : ∀ va, Kept va → userTranslate space.memory root va = translation va

variable {allocator} {name root : Nat} {Kept : Nat → Prop} {translation : Nat → Option Nat}
variable {layout : Layout} {space : PhysicalSpace Store}

theorem entry_at_word (memory : WordMemory) {table : Nat} (aligned : table % pageSize = 0)
    (index : Nat) : entryAt memory table index = memory (table / pageSize * 512 + index) := by
  unfold entryAt WordMemory.load
  rw [entry_word aligned]

theorem absent_not_user {entry : Entry} (absent : hasFlag entry pagePresent = false) :
    userEntry entry = false := by
  unfold userEntry
  rw [absent, Bool.false_and]

theorem Placed.next (placed : Placed allocator name root Kept translation layout space)
    {level va table : Nat} (at_ : TableAt layout name (level + 1) (placeOf va (level + 1)) table)
    (upper : isUpper level) (user : levelIndex va 4 ≠ 0)
    (present : hasFlag (entryAt space.memory table (levelIndex va (level + 1))) pagePresent =
      true) :
    TableAt layout name level (placeOf va level)
      (entryAddr (entryAt space.memory table (levelIndex va (level + 1)))) := by
  have inside := level_index_lt va (level + 1)
  have top : level = 3 → levelIndex va (level + 1) ≠ 0 := by
    rintro rfl
    exact user
  have ok := entry_at_ok placed.owned at_.isTable inside
  rw [entry_ok_upper upper top] at ok
  refine ⟨LeadsTo.table ok present, ?_⟩
  have bound : level < 4 := by
    rcases upper with rfl | rfl | rfl <;> decide
  rw [entry_at_word space.memory at_.isTable.aligned] at present ⊢
  rw [place_step va bound]
  exact placed.links _ _ level at_.place at_.isTable.owned upper _ inside top present

/-- Two memories translate an address alike if each entry on its way is the
same, or is absent in the first while the second ends there in nothing. -/
theorem walk_same (placed : Placed allocator name root Kept translation layout space)
    {memory : WordMemory} {va : Nat} (user : levelIndex va 4 ≠ 0)
    (agrees : ∀ level table, TableAt layout name level (placeOf va level) table →
      entryAt memory table (levelIndex va level) =
          entryAt space.memory table (levelIndex va level) ∨
        hasFlag (entryAt space.memory table (levelIndex va level)) pagePresent = false ∧
          userWalk memory va level table = none) :
    ∀ {level table : Nat}, level ≤ 4 → TableAt layout name level (placeOf va level) table →
      userWalk memory va level table = userWalk space.memory va level table := by
  intro level
  induction level with
  | zero => exact fun _ _ => rfl
  | succ level ih =>
      intro table bound at_
      rcases agrees (level + 1) table at_ with same | ⟨absent, ends⟩
      · unfold userWalk
        dsimp only
        rw [same]
        split_ifs with isUser last
        · rfl
        · have upper : isUpper level := by
            unfold isUpper
            omega
          exact ih (by omega) (placed.next at_ upper user (user_entry_present isUser))
        · rfl
      · rw [ends]
        unfold userWalk
        dsimp only
        rw [absent_not_user absent]
        rfl

/-- The words of the tables are those of `memory`. -/
def TablesAre (owners : Owners) (memory : WordMemory) (_ : Unit) (space : PhysicalSpace Store) :
    Prop :=
  ∀ word, ¬OutsideTables owners word → space.memory word = memory word

theorem table_word {owners : Owners} {frame level index : Nat} {tree : Tree}
    (owned : owners frame = .table tree level) (inside : index < 512) :
    ¬OutsideTables owners (frame * 512 + index) := by
  intro outside
  apply outside tree level
  rw [show (frame * 512 + index) / 512 = frame by omega]
  exact owned

theorem Placed.owner_later {later : Owners}
    (placed : Placed allocator name root Kept translation layout space)
    (grown : layout.owners ≤ later) {frame place level : Nat}
    (known : layout.places frame = some place)
    (owned : later frame = .table (.process name) level) :
    layout.owners frame = .table (.process name) level := by
  obtain ⟨before, ownedBefore⟩ := placed.tables frame place known
  have kept := owner_kept grown ownedBefore (by simp)
  rw [owned] at kept
  rw [ownedBefore, kept]

theorem placed_spared {later : Owners} {after : PhysicalSpace Store}
    (placed : Placed allocator name root Kept translation layout space)
    (grown : layout.owners ≤ later) (owned : SpaceOwned allocator later after)
    (same : TablesAre layout.owners space.memory () after) :
    Placed allocator name root Kept translation { layout with owners := later } after where
  owned := owned
  isRoot := placed.isRoot.mono ⟨grown, fun _ _ known => known⟩
  tables := by
    intro frame place known
    obtain ⟨level, ownedBefore⟩ := placed.tables frame place known
    exact ⟨level, owner_kept grown ownedBefore (by simp)⟩
  links := by
    intro frame place level known ownedLater upper index inside top
    have ownedBefore := placed.owner_later grown known ownedLater
    rw [same _ (table_word ownedBefore inside)]
    exact placed.links frame place level known ownedBefore upper index inside top
  user := placed.user
  kept := by
    intro va isKept
    rw [← placed.kept va isKept]
    refine walk_same placed (placed.user va isKept) ?_ (le_refl 4)
      (by rw [place_root]; exact placed.isRoot)
    intro level table at_
    left
    rw [entry_at_word _ at_.isTable.aligned, entry_at_word _ at_.isTable.aligned]
    exact same _ (table_word at_.isTable.owned (level_index_lt va level))

theorem safe_spared {Value : Type} {prog : Paging Store Value} {Post : Owners → Value → Prop}
    (safe : Fallible.Safe (SpaceOwned allocator) layout.owners prog Post)
    (spares : ∀ memory, Fallible.Safe (TablesAre layout.owners memory) () prog fun _ _ => True) :
    Fallible.Safe (Placed allocator name root Kept translation) layout prog
      fun later value => Post later.owners value := by
  intro space placed
  obtain ⟨later, grown, owned, post⟩ := safe space placed.owned
  obtain ⟨_, _, same, _⟩ := spares space.memory space fun _ _ => rfl
  exact ⟨{ layout with owners := later }, ⟨grown, fun _ _ known => known⟩,
    placed_spared placed grown owned same, post⟩

theorem spares_change {owners : Owners} {memory : WordMemory} {change : WordMemory → WordMemory}
    (outside : ∀ before, WordMemory.ChangesOnly (OutsideTables owners) before (change before)) :
    Fallible.Safe (@TablesAre Store owners memory) () (changeMemory change) fun _ _ => True := by
  apply Fallible.safe_modify
  · intro space same word table
    exact (outside space.memory word table).trans (same word table)
  · trivial

theorem spares_alloc {owners : Owners} {memory : WordMemory} (pages : Nat) :
    Fallible.Safe (TablesAre owners memory) () (allocPages allocator pages) fun _ _ => True := by
  intro space same
  refine ⟨(), le_refl (), ?_, fun _ _ => trivial⟩
  unfold allocPages
  split
  · exact same
  · exact same

theorem placed_alloc_pages (pages : Nat) :
    Fallible.Safe (Placed allocator name root Kept translation) layout (allocPages allocator pages)
      fun later address => Allocated layout.owners later.owners pages (.leaf name) address :=
  safe_spared (safe_alloc_pages pages (leaf_plain name)) fun _ => spares_alloc pages

theorem placed_zero_pages {address pages : Nat} (plain : IsPlain layout.owners address pages) :
    Fallible.Safe (Placed allocator name root Kept translation) layout (zeroPages address pages)
      fun _ _ => True :=
  safe_spared (safe_zero_pages plain) fun _ => spares_change (zero_block_outside plain)

theorem placed_alloc_zeroed :
    Fallible.Safe (Placed allocator name root Kept translation) layout (allocZeroedPage allocator)
      fun later address => Allocated layout.owners later.owners 1 (.leaf name) address := by
  apply Fallible.safe_bind (placed_alloc_pages 1)
  intro later address grown allocated
  apply Fallible.safe_bind (placed_zero_pages (allocated.is_plain (leaf_plain name)))
  intro last _ further _
  exact Fallible.safe_pure (allocated.mono (by simp) further.1)

/-- `nextTable`, computed. -/
theorem next_table_eq (table index : Nat) (top : Bool) (space : PhysicalSpace Store) :
    nextTable allocator table index top space =
      if hasFlag (entryAt space.memory table index) pagePresent then
        if !top && hasFlag (entryAt space.memory table index) pageHuge then (none, space)
        else (some (entryAddr (entryAt space.memory table index)), space)
      else
        match allocator.alloc space.store 1 with
        | none => (none, space)
        | some (address, after) =>
            (some address,
              { memory := (space.memory.zeroBlock address (1 * pageSize)).store
                  (table + index * 8) (tableEntry address)
                store := after }) := by
  unfold nextTable readEntry entryAt
  rw [Fallible.bind_read]
  split_ifs
  · rfl
  · rfl
  · simp only [bind, pure, allocZeroedPage, allocPages]
    cases allocator.alloc space.store 1 with
    | none => rfl
    | some pair => rfl

def linkedMemory (memory : WordMemory) (table index address : Nat) : WordMemory :=
  (memory.zeroBlock address (1 * pageSize)).store (table + index * 8) (tableEntry address)

theorem linked_here (memory : WordMemory) {table : Nat} (aligned : table % pageSize = 0)
    (index address : Nat) :
    linkedMemory memory table index address (table / pageSize * 512 + index) =
      tableEntry address := by
  unfold linkedMemory WordMemory.store
  rw [entry_word aligned, Function.update_self]

theorem linked_other {owners : Owners} {memory : WordMemory} {table index address word : Nat}
    (aligned : table % pageSize = 0) (plain : IsPlain owners address 1)
    (isTable : ¬OutsideTables owners word) (other : word ≠ table / pageSize * 512 + index) :
    linkedMemory memory table index address word = memory word := by
  unfold linkedMemory WordMemory.store
  rw [entry_word aligned, Function.update_of_ne other]
  exact zero_block_outside plain memory word isTable

theorem linked_new {memory : WordMemory} {table index address position : Nat}
    (aligned : table % pageSize = 0) (alignedNew : address % pageSize = 0)
    (other : table / pageSize ≠ address / pageSize) (indexInside : index < 512)
    (inside : position < 512) :
    linkedMemory memory table index address (address / pageSize * 512 + position) = 0#64 := by
  unfold linkedMemory WordMemory.store
  rw [entry_word aligned, Function.update_of_ne (by omega)]
  exact zero_block_entry memory alignedNew inside

theorem walk_empty {memory : WordMemory} {table va : Nat} (aligned : table % pageSize = 0)
    (empty : ∀ index, index < 512 → memory (table / pageSize * 512 + index) = 0#64) :
    ∀ level, userWalk memory va level table = none
  | 0 => rfl
  | level + 1 => by
      unfold userWalk
      dsimp only
      rw [entry_at_word memory aligned, empty _ (level_index_lt va (level + 1)),
        absent_not_user absent_zero]
      rfl

theorem walk_linked {memory : WordMemory} {table address va level : Nat} (upper : isUpper level)
    (page : PageAddress address)
    (link : entryAt memory table (levelIndex va (level + 1)) = tableEntry address)
    (empty : ∀ index, index < 512 → memory (address / pageSize * 512 + index) = 0#64) :
    userWalk memory va (level + 1) table = none := by
  have small : hasFlag (tableEntry address) pageHuge = false := by
    unfold tableEntry
    rw [page.flag (by decide)]
    decide
  have target : entryAddr (tableEntry address) = address := page.entry_addr (by decide)
  have inner : level ≠ 0 := by
    rcases upper with rfl | rfl | rfl <;> decide
  unfold userWalk
  dsimp only
  rw [link, small, target]
  split_ifs with isUser last
  · exact absurd last (by simp [inner])
  · exact walk_empty page.aligned empty level
  · rfl

def Layout.place (layout : Layout) (name level frame place : Nat) : Layout where
  owners := adopt layout.owners frame 1 (.table (.process name) level)
  places := Function.update layout.places frame (some place)

theorem Placed.not_placed (placed : Placed allocator name root Kept translation layout space)
    {frame : Nat} (fresh : layout.owners frame = .unowned) {place : Nat} :
    layout.places frame ≠ some place := by
  intro known
  obtain ⟨level, owned⟩ := placed.tables frame place known
  rw [fresh] at owned
  cases owned

theorem Placed.le_place (placed : Placed allocator name root Kept translation layout space)
    {frame : Nat} (fresh : layout.owners frame = .unowned) (level place : Nat) :
    layout ≤ layout.place name level frame place := by
  refine ⟨le_adopt_one fresh, ?_⟩
  intro other otherPlace known
  have different : other ≠ frame := by
    rintro rfl
    exact placed.not_placed fresh known
  exact (Function.update_of_ne different _ _).trans known

theorem upper_lt {level : Nat} (upper : isUpper level) : level < 4 := by
  rcases upper with rfl | rfl | rfl <;> decide

theorem upper_top {level va : Nat} (user : levelIndex va 4 ≠ 0) :
    level = 3 → levelIndex va (level + 1) ≠ 0 := by
  rintro rfl
  exact user

section

variable {level va table address : Nat} {after : Store}

theorem alloc_page (allocated : allocator.alloc space.store 1 = some (address, after)) :
    PageAddress address := by
  have bound := allocator.representable allocated
  refine ⟨allocator.aligned allocated, ?_⟩
  simp only [pageSize] at bound
  omega

theorem Placed.alloc_plain (placed : Placed allocator name root Kept translation layout space)
    (allocated : allocator.alloc space.store 1 = some (address, after)) :
    layout.owners (address / pageSize) = .unowned ∧ IsPlain layout.owners address 1 := by
  have fresh : layout.owners (address / pageSize) = .unowned :=
    alloc_fresh placed.owned allocated 0 (by decide)
  refine ⟨fresh, allocator.aligned allocated, ?_⟩
  intro i inside tree other
  rw [show i = 0 by omega, Nat.add_zero, fresh]
  simp

theorem linked_owned (placed : Placed allocator name root Kept translation layout space)
    (at_ : TableAt layout name (level + 1) (placeOf va (level + 1)) table) (upper : isUpper level)
    (user : levelIndex va 4 ≠ 0)
    (allocated : allocator.alloc space.store 1 = some (address, after)) :
    SpaceOwned allocator (layout.place name level (address / pageSize) (placeOf va level)).owners
      { memory := linkedMemory space.memory table (levelIndex va (level + 1)) address
        store := after } := by
  obtain ⟨fresh, _⟩ := placed.alloc_plain allocated
  have page := alloc_page allocated
  have zeroed := zero_block_owned (alloc_owned placed.owned allocated) page.aligned fresh
  have adopted := @owned_adopt_blank _ _ _ _ _ zeroed (address / pageSize) name level
    (Nat.ne_of_lt (upper_lt upper)) fresh (allocator.taken allocated 0 (by decide))
    fun index within => zero_block_entry space.memory page.aligned within
  have isTable := at_.isTable.mono (placed.le_place fresh level (placeOf va level)).1
  apply owned_write adopted isTable.aligned isTable.owned (level_index_lt va (level + 1))
  rw [entry_ok_upper upper (upper_top user)]
  exact table_entry_leads page (adopt_one _ _ _)

/-- The entries of a table after a new table is linked: those of the new table
are empty, the link leads to it, and the others are as before. -/
theorem linked_entry (placed : Placed allocator name root Kept translation layout space)
    (at_ : TableAt layout name (level + 1) (placeOf va (level + 1)) table)
    (allocated : allocator.alloc space.store 1 = some (address, after)) :
    (∀ index, index < 512 → linkedMemory space.memory table (levelIndex va (level + 1)) address
        (address / pageSize * 512 + index) = 0#64) ∧
      ∀ word, ¬OutsideTables layout.owners word →
        word ≠ table / pageSize * 512 + levelIndex va (level + 1) →
        linkedMemory space.memory table (levelIndex va (level + 1)) address word =
          space.memory word := by
  obtain ⟨fresh, plain⟩ := placed.alloc_plain allocated
  have apart : table / pageSize ≠ address / pageSize := by
    intro same
    have owned := at_.isTable.owned
    rw [same, fresh] at owned
    cases owned
  constructor
  · intro index within
    exact linked_new at_.isTable.aligned plain.aligned apart (level_index_lt va (level + 1)) within
  · intro word isTable other
    exact linked_other at_.isTable.aligned plain isTable other

theorem linked_places (placed : Placed allocator name root Kept translation layout space)
    (at_ : TableAt layout name (level + 1) (placeOf va (level + 1)) table) (upper : isUpper level)
    (allocated : allocator.alloc space.store 1 = some (address, after))
    {frame place other index : Nat}
    (known : (layout.place name level (address / pageSize) (placeOf va level)).places frame =
      some place)
    (owned : (layout.place name level (address / pageSize) (placeOf va level)).owners frame =
      .table (.process name) (other + 1))
    (otherUpper : isUpper other) (within : index < 512) (top : other = 3 → index ≠ 0)
    (present : hasFlag (linkedMemory space.memory table (levelIndex va (level + 1)) address
      (frame * 512 + index)) pagePresent = true) :
    (layout.place name level (address / pageSize) (placeOf va level)).places
      (frameOf (linkedMemory space.memory table (levelIndex va (level + 1)) address
        (frame * 512 + index))) = some (place * 512 + index) := by
  obtain ⟨fresh, _⟩ := placed.alloc_plain allocated
  obtain ⟨empty, same⟩ := linked_entry placed at_ allocated
  have grown := placed.le_place fresh level (placeOf va level)
  by_cases new : frame = address / pageSize
  · subst new
    rw [empty index within, absent_zero] at present
    cases present
  have before : layout.places frame = some place :=
    (Function.update_of_ne new _ _).symm.trans known
  have ownedBefore := placed.owner_later grown.1 before owned
  have inside := level_index_lt va (level + 1)
  by_cases here : frame * 512 + index = table / pageSize * 512 + levelIndex va (level + 1)
  · obtain rfl : frame = table / pageSize := by omega
    obtain rfl : index = levelIndex va (level + 1) := by omega
    rw [at_.isTable.owned] at ownedBefore
    cases ownedBefore
    rw [at_.place] at before
    cases before
    have target : frameOf (tableEntry address) = address / pageSize := by
      unfold frameOf tableEntry
      rw [(alloc_page allocated).entry_addr (by decide)]
    rw [linked_here space.memory at_.isTable.aligned, ← place_step va (upper_lt upper), target]
    exact Function.update_self _ _ _
  · rw [same _ (table_word ownedBefore within) here] at present ⊢
    exact grown.2 _ _ (placed.links frame place other before ownedBefore otherUpper index within
      top present)

theorem linked_kept (placed : Placed allocator name root Kept translation layout space)
    (at_ : TableAt layout name (level + 1) (placeOf va (level + 1)) table) (upper : isUpper level)
    (absent : hasFlag (entryAt space.memory table (levelIndex va (level + 1))) pagePresent = false)
    (allocated : allocator.alloc space.store 1 = some (address, after)) {other : Nat}
    (user : levelIndex other 4 ≠ 0) :
    userTranslate (linkedMemory space.memory table (levelIndex va (level + 1)) address) root
      other = userTranslate space.memory root other := by
  obtain ⟨empty, same⟩ := linked_entry placed at_ allocated
  refine walk_same placed user ?_ (le_refl 4) (by rw [place_root]; exact placed.isRoot)
  intro otherLevel otherTable otherAt
  have inside := level_index_lt va (level + 1)
  have otherInside := level_index_lt other otherLevel
  by_cases here : otherTable / pageSize * 512 + levelIndex other otherLevel =
      table / pageSize * 512 + levelIndex va (level + 1)
  · right
    have sameFrame : otherTable / pageSize = table / pageSize := by omega
    have sameIndex : levelIndex other otherLevel = levelIndex va (level + 1) := by omega
    obtain rfl : otherTable = table := by
      have aligned := at_.isTable.aligned
      have otherAligned := otherAt.isTable.aligned
      simp only [pageSize] at aligned otherAligned sameFrame
      omega
    have ownedHere := otherAt.isTable.owned
    rw [at_.isTable.owned] at ownedHere
    cases ownedHere
    refine ⟨by rw [sameIndex]; exact absent, ?_⟩
    apply walk_linked upper (alloc_page allocated) _ empty
    rw [entry_at_word _ at_.isTable.aligned, sameIndex]
    exact linked_here space.memory at_.isTable.aligned _ _
  · left
    rw [entry_at_word _ otherAt.isTable.aligned, entry_at_word _ otherAt.isTable.aligned]
    exact same _ (table_word otherAt.isTable.owned otherInside) here

theorem placed_link (placed : Placed allocator name root Kept translation layout space)
    (at_ : TableAt layout name (level + 1) (placeOf va (level + 1)) table) (upper : isUpper level)
    (user : levelIndex va 4 ≠ 0)
    (absent : hasFlag (entryAt space.memory table (levelIndex va (level + 1))) pagePresent = false)
    (allocated : allocator.alloc space.store 1 = some (address, after)) :
    Placed allocator name root Kept translation
      (layout.place name level (address / pageSize) (placeOf va level))
      { memory := linkedMemory space.memory table (levelIndex va (level + 1)) address
        store := after } where
  owned := linked_owned placed at_ upper user allocated
  isRoot := placed.isRoot.mono (placed.le_place (placed.alloc_plain allocated).1 _ _)
  tables := by
    intro frame place known
    by_cases new : frame = address / pageSize
    · subst new
      exact ⟨level, adopt_one _ _ _⟩
    · obtain ⟨other, owned⟩ := placed.tables frame place
        ((Function.update_of_ne new _ _).symm.trans known)
      exact ⟨other, (adopt_other new).trans owned⟩
  links := by
    intro frame place other known owned otherUpper index within top present
    exact linked_places placed at_ upper allocated known owned otherUpper within top present
  user := placed.user
  kept := by
    intro other isKept
    rw [← placed.kept other isKept]
    exact linked_kept placed at_ upper absent allocated (placed.user other isKept)

theorem placed_next_table {top : Bool}
    (at_ : TableAt layout name (level + 1) (placeOf va (level + 1)) table) (upper : isUpper level)
    (user : levelIndex va 4 ≠ 0) :
    Fallible.Safe (Placed allocator name root Kept translation) layout
      (nextTable allocator table (levelIndex va (level + 1)) top)
      fun later next => TableAt later name level (placeOf va level) next := by
  intro space placed
  rw [next_table_eq]
  split_ifs with present huge
  · exact ⟨layout, le_refl layout, placed, nofun⟩
  · refine ⟨layout, le_refl layout, placed, ?_⟩
    intro next same
    cases same
    exact placed.next at_ upper user present
  · have absent : hasFlag (entryAt space.memory table (levelIndex va (level + 1))) pagePresent =
        false := by
      simpa using present
    cases allocated : allocator.alloc space.store 1 with
    | none => exact ⟨layout, le_refl layout, placed, nofun⟩
    | some pair =>
        obtain ⟨address, after⟩ := pair
        have fresh := (placed.alloc_plain allocated).1
        refine ⟨layout.place name level (address / pageSize) (placeOf va level),
          placed.le_place fresh _ _, placed_link placed at_ upper user absent allocated, ?_⟩
        intro next same
        cases same
        exact ⟨⟨allocator.aligned allocated, adopt_one _ _ _⟩, Function.update_self _ _ _⟩

theorem placed_leaf {entry : Entry}
    (placed : Placed allocator name root Kept translation layout space)
    (at_ : TableAt layout name 1 (placeOf va 1) table)
    (ok : EntryOk image layout.owners (.process name) 1 (levelIndex va 1) entry)
    (apart : ∀ other, Kept other → placeOf other 0 ≠ placeOf va 0) :
    Placed allocator name root Kept translation layout
      { space with memory := space.memory.store (table + levelIndex va 1 * 8) entry } := by
  have inside := level_index_lt va 1
  have unchanged (word : Nat) (other : word ≠ table / pageSize * 512 + levelIndex va 1) :
      space.memory.store (table + levelIndex va 1 * 8) entry word = space.memory word := by
    unfold WordMemory.store
    rw [entry_word at_.isTable.aligned]
    exact Function.update_of_ne other _ _
  refine ⟨owned_write placed.owned at_.isTable.aligned at_.isTable.owned inside ok, placed.isRoot,
    placed.tables, ?_, placed.user, ?_⟩
  · intro frame place other known owned upper index within
    have elsewhere : frame * 512 + index ≠ table / pageSize * 512 + levelIndex va 1 := by
      intro here
      obtain rfl : frame = table / pageSize := by omega
      rw [at_.isTable.owned] at owned
      cases owned
      rcases upper with zero | zero | zero <;> cases zero
    dsimp only
    rw [unchanged _ elsewhere]
    exact placed.links frame place other known owned upper index within
  · intro other isKept
    rw [← placed.kept other isKept]
    refine walk_same placed (placed.user other isKept) ?_ (le_refl 4)
      (by rw [place_root]; exact placed.isRoot)
    intro otherLevel otherTable otherAt
    left
    rw [entry_at_word _ otherAt.isTable.aligned, entry_at_word _ otherAt.isTable.aligned]
    apply unchanged
    intro here
    have otherInside := level_index_lt other otherLevel
    have sameFrame : otherTable / pageSize = table / pageSize := by omega
    have ownedHere := otherAt.isTable.owned
    rw [sameFrame, at_.isTable.owned] at ownedHere
    cases ownedHere
    have samePlace : some (placeOf va 1) = some (placeOf other 1) := by
      rw [← at_.place, ← otherAt.place, sameFrame]
    have sameIndex : levelIndex other 1 = levelIndex va 1 := by omega
    apply apart other isKept
    calc placeOf other 0 = placeOf other 1 * 512 + levelIndex other 1 :=
          place_step other (by decide)
      _ = placeOf va 1 * 512 + levelIndex va 1 := by
          rw [Option.some.inj samePlace, sameIndex]
      _ = placeOf va 0 := (place_step va (by decide)).symm

/-- `map_user_page` gives up on an address below the user range, and otherwise
changes the translation of one page. -/
theorem placed_map_user_page {pa : Nat} {prot : BitVec 32}
    (isRoot : TableAt layout name 4 0 root) (page : PageAddress pa)
    (leaf : layout.owners (pa / pageSize) = .leaf name)
    (apart : levelIndex va 4 ≠ 0 → ∀ other, Kept other → placeOf other 0 ≠ placeOf va 0) :
    Fallible.Safe (Placed allocator name root Kept translation) layout
      (mapUserPage allocator root va pa prot) fun _ _ => levelIndex va 4 ≠ 0 := by
  unfold mapUserPage
  split_ifs with kernelHalf
  · exact Fallible.safe_fail
  · have user : levelIndex va 4 ≠ 0 := kernelHalf
    have rootAt : TableAt layout name 4 (placeOf va 4) root := by
      rw [place_root]
      exact isRoot
    apply Fallible.safe_bind
      (@placed_next_table _ _ _ _ _ _ _ _ 3 va root true rootAt (by simp [isUpper]) user)
    intro world3 pdpt grown3 pdptAt
    apply Fallible.safe_bind
      (@placed_next_table _ _ _ _ _ _ _ _ 2 va pdpt false pdptAt (by simp [isUpper]) user)
    intro world2 pd grown2 pdAt
    apply Fallible.safe_bind
      (@placed_next_table _ _ _ _ _ _ _ _ 1 va pd false pdAt (by simp [isUpper]) user)
    intro world1 pt grown1 ptAt
    have leafKept := owner_kept (le_trans grown3 (le_trans grown2 grown1)).1 leaf (by simp)
    apply Fallible.safe_modify
    · intro space placed
      apply placed_leaf placed ptAt _ (apart user)
      intro _
      unfold frameOf
      rw [page.masked, page.entry_addr (leaf_flags_small prot)]
      exact leafKept
    · exact user

end

theorem placed_writable {address pages : Nat}
    (region : IsRegion layout.owners (.leaf name) address pages) :
    Writable (Placed allocator name root Kept translation) layout address pages := by
  intro later grown change inside
  have outside (memory : WordMemory) :
      WordMemory.ChangesOnly (OutsideTables later.owners) memory (change memory) := by
    intro word elsewhere
    apply inside
    rintro ⟨low, high⟩
    exact elsewhere (@block_outside later.owners address pages 0 (pages * pageSize) word
      (region.mono grown.1).is_plain (by omega) low (by omega))
  exact safe_spared (safe_change_memory outside) fun _ => spares_change outside

/-- The page of an address that differs from those of the kept ones. -/
def Apart (Kept : Nat → Prop) (va : Nat) : Prop :=
  levelIndex va 4 ≠ 0 → ∀ other, Kept other → placeOf other 0 ≠ placeOf va 0

theorem placed_map_fresh_page {va : Nat} {prot : BitVec 32} (isRoot : TableAt layout name 4 0 root)
    (apart : Apart Kept va) :
    Fallible.Safe (Placed allocator name root Kept translation) layout
      (do
        let phys ← allocZeroedPage allocator
        mapUserPage allocator root va phys prot) fun _ _ => levelIndex va 4 ≠ 0 := by
  apply Fallible.safe_bind placed_alloc_zeroed
  intro later phys grown allocated
  have leaf := (Allocated.leaf_page allocated Nat.zero_lt_one).2
  rw [Nat.zero_mul, Nat.add_zero] at leaf
  exact placed_map_user_page (isRoot.mono grown) allocated.page leaf apart

/-- The address of a page in the loops of `sys_brk` and `sys_mmap`. -/
def freshVa (base i : Nat) : Nat := (base + i * pageSize) % wordLimit

theorem placed_map_fresh_pages {base count : Nat} {prot : BitVec 32}
    (isRoot : TableAt layout name 4 0 root)
    (apart : ∀ i, i < count → (∀ j, j < i → levelIndex (freshVa base j) 4 ≠ 0) →
      Apart Kept (freshVa base i)) :
    Fallible.Safe (Placed allocator name root Kept translation) layout
      (mapFreshPages allocator root base prot count)
      fun _ _ => ∀ i, i < count → levelIndex (freshVa base i) 4 ≠ 0 := by
  apply Fallible.safe_for_range_while
  intro later i grown inside earlier
  exact placed_map_fresh_page (isRoot.mono grown) (apart i inside earlier)

theorem page_source_placed (isRoot : TableAt layout name 4 0 root)
    (nothing : ∀ va, ¬Kept va) :
    PageSource allocator (Placed allocator name root Kept translation) layout root := by
  intro later grown pages
  apply Fallible.safe_mono (placed_alloc_pages pages)
  intro last address grownLast allocated
  refine ⟨allocated.aligned, placed_writable (Allocated.leaf_region allocated), ?_⟩
  intro further grownFurther i inside va prot
  obtain ⟨page, leaf⟩ := Allocated.leaf_page (allocated.mono (by simp) grownFurther.1) inside
  have isRootThere := ((isRoot.mono grown).mono grownLast).mono grownFurther
  apply Fallible.safe_mono (placed_map_user_page isRootThere page leaf ?_)
  · exact fun _ _ _ _ => trivial
  · exact fun _ other isKept => absurd isKept (nothing other)

theorem placed_new_root {owners later : Owners} {address : Nat}
    (owned : SpaceOwned allocator later space)
    (allocated : Allocated owners later 1 (.table (.process (address / pageSize)) 4) address)
    (empty : ∀ index, index < 512 → index ≠ 0 →
      space.memory (address / pageSize * 512 + index) = 0#64) :
    Placed allocator (address / pageSize) address (fun _ => False) (fun _ => none)
      { owners := later
        places := fun frame => if frame = address / pageSize then some 0 else none } space where
  owned := owned
  isRoot := ⟨allocated.table, if_pos rfl⟩
  tables := by
    intro frame place known
    dsimp only at known
    split_ifs at known with here
    subst here
    exact ⟨4, allocated.table.owned⟩
  links := by
    intro frame place level known isTable upper index within top present
    dsimp only at known
    split_ifs at known with here
    subst here
    dsimp only at isTable
    rw [allocated.table.owned] at isTable
    cases isTable
    rw [empty index within (top rfl), absent_zero] at present
    cases present
  user := fun _ => False.elim
  kept := fun _ => False.elim

theorem create_empty_blank {after : PhysicalSpace Store} {address : Nat}
    (created : createEmptyProcessPageTable allocator space = (some address, after)) :
    ∀ index, index < 512 → index ≠ 0 →
      after.memory (address / pageSize * 512 + index) = 0#64 := by
  intro index within other
  unfold createEmptyProcessPageTable allocRoot allocZeroedPage at created
  simp only [bind, pure, allocPages] at created
  cases allocated : allocator.alloc space.store 1 with
  | none =>
      rw [allocated] at created
      cases created
  | some pair =>
      obtain ⟨frames, store⟩ := pair
      rw [allocated] at created
      cases created
      have aligned := allocator.aligned allocated
      dsimp only [WordMemory.store]
      rw [entry_word aligned, Function.update_of_ne (by omega)]
      exact zero_block_entry space.memory aligned within

/-- The tables of a program that `execve_current` has just loaded are at their
places, and its heap starts below the end of the address range. -/
theorem exec_image_placed {owners : Owners} {data argv0 : Bytes} {argv envp : List Bytes}
    {seed : BitVec 64} {exec : ExecImage} {after : PhysicalSpace Store}
    (owned : SpaceOwned allocator owners space)
    (loads : loadExecImage allocator data argv0 argv envp seed space = (some exec, after)) :
    (∃ name layout, Placed allocator name exec.pageTable (fun _ => False) (fun _ => none) layout
      after) ∧ exec.heapStart < wordLimit := by
  unfold loadExecImage at loads
  cases created : createEmptyProcessPageTable allocator space with
  | mk result middle =>
      obtain ⟨later, _, ownedLater, post⟩ :=
        safe_of_twins (twin_with_tables twin_create_empty) space owned
      rw [created] at ownedLater post
      cases result with
      | none =>
          rw [Fallible.bind_none created] at loads
          cases loads
      | some pt =>
          rw [Fallible.bind_some created] at loads
          have placed := placed_new_root ownedLater (post pt rfl) (create_empty_blank created)
          obtain ⟨layout, _, placedAfter, filled⟩ :=
            Fallible.safe_iff_twin.mpr
              (twin_fill_exec_image (page_source_placed placed.isRoot fun _ => id).twin) middle placed
          rw [loads] at placedAfter filled
          obtain ⟨rfl, bounded⟩ := filled exec rfl
          exact ⟨⟨_, layout, placedAfter⟩, bounded⟩

end

end Ferrugem.TablePlaces
