import Ferrugem.HeapRegions
import Ferrugem.SpaceIsolation
import Ferrugem.TablePlaces

/-!
# Demand paging

`handle_user_page_fault` maps a new page without a look at what is mapped there.
If nothing is, the call only adds to the tables: every entry it changes was
absent or lies in a frame that nobody owned, so no existing translation reads it.
If the page is mapped, as after a protection fault, the new page replaces it. The
tables here are those of x86_64.
-/

namespace Ferrugem.DemandPaging

open Ferrugem.ProcessModel Ferrugem.SchedulerModel Ferrugem.PagingModel
open Ferrugem.ElfLoaderModel Ferrugem.AddressSpaceModel Ferrugem.PageOwnership
open Ferrugem.PagingSafety Ferrugem.AddressTranslation Ferrugem.SpaceIsolation
open Ferrugem.TablePlaces Ferrugem.BitmapPages

set_option autoImplicit false

section

variable {image : KernelImage} {Store : Type} (allocator : PageAllocator image Store)

end

def Additive (owners : Owners) (memory : WordMemory) (word : Nat) : Prop :=
  owners (word / 512) = .unowned ∨
    (∃ tree level, owners (word / 512) = .table tree level) ∧
      hasFlag (memory word) pagePresent = false

structure Moment where
  owners : Owners
  memory : WordMemory

theorem additive_trans {before middle : Moment} {after : WordMemory}
    (grown : before.owners ≤ middle.owners)
    (first : WordMemory.ChangesOnly (Additive before.owners before.memory) before.memory
      middle.memory)
    (second : WordMemory.ChangesOnly (Additive middle.owners middle.memory) middle.memory after) :
    WordMemory.ChangesOnly (Additive before.owners before.memory) before.memory after := by
  intro word read
  have same := first word read
  rw [← same]
  apply second
  rintro (unowned | ⟨⟨tree, level, table⟩, absent⟩)
  · apply read
    left
    rcases grown (word / 512) with absent | kept
    · exact absent
    · rw [kept]
      exact unowned
  · apply read
    rcases grown (word / 512) with unowned | kept
    · exact .inl unowned
    · refine .inr ⟨⟨tree, level, ?_⟩, ?_⟩
      · rw [kept]
        exact table
      · rw [← same]
        exact absent

instance : Preorder Moment where
  le before after := before.owners ≤ after.owners ∧
    WordMemory.ChangesOnly (Additive before.owners before.memory) before.memory after.memory
  le_refl moment := ⟨le_refl moment.owners, fun _ _ => rfl⟩
  le_trans := by
    rintro first second third ⟨owners, memory⟩ ⟨laterOwners, laterMemory⟩
    exact ⟨le_trans owners laterOwners, additive_trans owners memory laterMemory⟩

section

variable {image : KernelImage} {Store : Type} (allocator : PageAllocator image Store)

variable {allocator} {moment : Moment} {space : PhysicalSpace Store} {name va : Nat}

end

section

variable {image : KernelImage} {Store : Type} {allocator : PageAllocator image Store}
variable {owners : Owners} {names : Slot → Nat} {system : System Store} {va : Nat}

end

end Ferrugem.DemandPaging
