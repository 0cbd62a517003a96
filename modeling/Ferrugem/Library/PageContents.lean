import Ferrugem.Library.TreeCopies

/-!
# What building a tree leaves of its pages

`mapPage` writes into the tables of its tree and into frames that were not in
use. So every other page of the user has the contents it had, and the new page
has those of its frame.
-/

set_option autoImplicit false

namespace RadixTables

variable {State : Type} {machine : FrameMachine State} {layout : TreeLayout} {root : Nat}
variable {state later last : State} {p level table : Nat}

open Fallible

def Untabled (layout : TreeLayout) (memory : WordMemory) (root frame : Nat) : Prop :=
  ∀ page level table, layout.IsPage page → layout.Meets memory root page level table →
    frame ≠ table / 4096

structure Spares (machine : FrameMachine State) (layout : TreeLayout) (root : Nat)
    (state later : State) : Prop where
  inUse : ∀ frame, machine.InUse state frame → machine.InUse later frame
  words : ∀ frame, machine.InUse state frame →
    Untabled layout (machine.memory state) root frame → ∀ word, word < 512 →
    machine.memory later (frame * 512 + word) = machine.memory state (frame * 512 + word)

theorem Spares.refl (state : State) : Spares machine layout root state state :=
  ⟨fun _ => id, fun _ _ _ _ _ => rfl⟩

theorem Grows.untabled (grows : Grows machine layout root state later) {frame : Nat}
    (inUse : machine.InUse state frame)
    (untabled : Untabled layout (machine.memory state) root frame) :
    Untabled layout (machine.memory later) root frame := by
  intro page level table isPage visited
  rcases grows.tables isPage visited with earlier | unused
  · exact untabled page level table isPage earlier
  · rintro rfl
    exact unused inUse

theorem Grows.spares (grows : Grows machine layout root state later)
    (left : Spares machine layout root state later)
    (right : Spares machine layout root later last) : Spares machine layout root state last where
  inUse := fun frame inUse => right.inUse frame (left.inUse frame inUse)
  words := fun frame inUse untabled word inside =>
    (right.words frame (left.inUse frame inUse) (grows.untabled inUse untabled) word inside).trans
      (left.words frame inUse untabled word inside)

theorem store_entry_elsewhere (memory : WordMemory) {frame position word : Nat}
    (aligned : table % 4096 = 0) (other : frame ≠ table / 4096) (below : position < 512)
    (inside : word < 512) (entry : BitVec 64) :
    (memory.store (table + position * 8) entry) (frame * 512 + word) =
      memory (frame * 512 + word) := by
  apply Function.update_of_ne
  omega

theorem write_entry_spares (formed : FormedIn machine layout root state)
    (isPage : layout.IsPage p)
    (meets : layout.Meets (machine.memory state) root p level table) (entry : BitVec 64) :
    Ends (writeEntry machine table (index p level) entry) state
      (fun _ later => Spares machine layout root state later) (fun _ => True) := by
  apply ends_modify
  constructor
  · intro frame inUse
    rw [machine.in_use_change]
    exact inUse
  · intro frame _ untabled word inside
    rw [machine.memory_change]
    exact store_entry_elsewhere _ (meets.aligned formed.aligned)
      (untabled p level table isPage meets) (index_lt p level) inside entry

theorem next_table_spares (formed : FormedIn machine layout root state) (isPage : layout.IsPage p)
    (meets : layout.Meets (machine.memory state) root p (level + 1) table) :
    Ends (nextTable machine layout.format (level + 1) table (index p (level + 1))) state
      (fun _ later => Spares machine layout root state later) (fun _ => True) := by
  unfold nextTable
  apply ends_bind_read
  cases layout.format.decode (level + 1)
      (entryAt (machine.memory state) table (index p (level + 1))) with
  | leaf address flags => exact ends_fail trivial
  | table next => exact ends_pure (Spares.refl state)
  | absent =>
      apply ends_bind (@alloc_table_ends _ machine state (fun _ => True) trivial)
      rintro address _ ⟨taken, outcome, rfl⟩
      apply ends_bind_modify
      apply ends_pure
      constructor
      · intro frame inUse
        rw [machine.in_use_change, machine.in_use_change]
        exact machine.kept outcome frame inUse
      · intro frame inUse untabled word inside
        have aligned := machine.aligned outcome
        have unused : frame ≠ address / 4096 := by
          rintro rfl
          exact machine.unused outcome inUse
        rw [machine.memory_change, store_entry_elsewhere _ (meets.aligned formed.aligned)
          (untabled p (level + 1) table isPage meets) (index_lt p (level + 1)) inside,
          machine.memory_change, machine.memory_alloc outcome]
        apply WordMemory.zero_block_changes
        unfold WordMemory.inBlock
        omega

theorem map_page_spares (few : layout.firstUser ≤ 512)
    (formed : FormedIn machine layout root state) (isUser : layout.IsUser p)
    (meets : layout.Meets (machine.memory state) root p level table) (entry : BitVec 64) :
    Ends (mapPage machine layout.format p entry level table) state
      (fun _ later => Spares machine layout root state later) (fun _ => True) := by
  induction level generalizing table state with
  | zero => exact write_entry_spares formed isUser.1 meets entry
  | succ level ih =>
      have step := ends_and (next_table_ends few formed isUser meets)
        (next_table_spares formed isUser.1 meets)
      apply ends_bind (ends_mono step (fun _ _ done => done) fun _ _ => trivial)
      rintro next later ⟨⟨grows, reached⟩, left⟩
      apply ends_mono (ih grows.formed reached)
      · exact fun _ _ right => grows.spares left right
      · exact fun _ _ => trivial

/-- The page has the contents of its frame, and every other page of the user the
contents it had. -/
theorem map_page_views (few : layout.firstUser ≤ 512)
    (formed : FormedIn machine layout root state) (isUser : layout.IsUser p)
    {entry : BitVec 64} {address : Nat} {flags : BitVec 64}
    (decoded : layout.format.decode 0 entry = .leaf address flags)
    (inUse : machine.InUse state (leafFrame address p 0))
    (untabled : Untabled layout (machine.memory state) root (leafFrame address p 0)) :
    Ends (mapPage machine layout.format p entry layout.top root) state
      (fun _ later => FormedIn machine layout root later ∧
        ∀ page, layout.IsUser page → pageView layout (machine.memory later) root page =
          if page = p then
            some (contentsOf (machine.memory state) ⟨leafFrame address p 0, flags⟩)
          else pageView layout (machine.memory state) root page)
      (fun _ => True) := by
  have step := ends_and (map_page_ends few formed isUser decoded .here)
    (map_page_spares few formed isUser .here entry)
  apply ends_mono step
  · rintro _ later ⟨maps, spares⟩
    refine ⟨maps.formed inUse untabled, ?_⟩
    intro page otherUser
    unfold pageView
    by_cases same : page = p
    · subst same
      rw [if_pos rfl, maps.mapped]
      simp only [Option.map_some, contentsOf, Option.some.injEq, Prod.mk.injEq, true_and]
      funext word
      exact spares.words _ inUse untabled _ (Nat.mod_lt _ (by decide))
    · rw [if_neg same, maps.others page otherUser.1 same]
      cases translated : layout.translate (machine.memory state) root page with
      | none => rfl
      | some found =>
          simp only [Option.map_some, contentsOf, Option.some.injEq, Prod.mk.injEq, true_and]
          funext word
          apply spares.words _ (formed.leaves otherUser translated) _ _
            (Nat.mod_lt _ (by decide))
          intro other low last isPage visited
          exact formed.apart isPage otherUser visited translated
  · exact fun _ _ => trivial

end RadixTables
