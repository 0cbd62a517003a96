import Mathlib.Data.List.Infix

/-!
# Self-delimiting encodings

Items written one after another, where what is written tells where it ends: no text
begins with the encodings of two items. Then the items that a text begins with are
determined, and among all ways to begin it with items one is the longest.
-/

set_option autoImplicit false

namespace SelfDelimiting

variable {Item Symbol : Type*} {encode : Item → List Symbol}

structure Delimited (encode : Item → List Symbol) : Prop where
  nonempty : ∀ item, encode item ≠ []
  unique : ∀ first second left right, encode first ++ left = encode second ++ right →
    first = second

def Splits (encode : Item → List Symbol) (text : List Symbol) (items : List Item)
    (rest : List Symbol) : Prop :=
  text = items.flatMap encode ++ rest

def Stuck (encode : Item → List Symbol) (text : List Symbol) : Prop :=
  ∀ item rest, text ≠ encode item ++ rest

/-- Every other way to begin the text with items is a part of this one. -/
structure LongestPrefix (encode : Item → List Symbol) (text : List Symbol) (items : List Item) :
    Prop where
  splits : ∃ rest, Splits encode text items rest
  longest : ∀ others rest, Splits encode text others rest → others <+: items

theorem splits_cons {text rest : List Symbol} {item : Item} {items : List Item} :
    Splits encode text (item :: items) rest ↔
      ∃ more, text = encode item ++ more ∧ Splits encode more items rest := by
  unfold Splits
  rw [List.flatMap_cons, List.append_assoc]
  constructor
  · exact fun same => ⟨_, same, rfl⟩
  · rintro ⟨_, same, rfl⟩
    exact same

theorem longest_of_stuck (delimited : Delimited encode) {text rest : List Symbol}
    {items : List Item} (splits : Splits encode text items rest) (stuck : Stuck encode rest) :
    LongestPrefix encode text items where
  splits := ⟨rest, splits⟩
  longest := by
    intro others
    induction others generalizing text items with
    | nil => exact fun _ _ => List.nil_prefix
    | cons other others ih =>
        intro left split
        obtain ⟨more, same, later⟩ := splits_cons.mp split
        cases items with
        | nil =>
            rw [Splits, List.flatMap_nil, List.nil_append] at splits
            exact absurd (splits.symm.trans same) (stuck other more)
        | cons item items =>
            obtain ⟨behind, sameItem, laterItems⟩ := splits_cons.mp splits
            rw [sameItem] at same
            have head := delimited.unique item other behind more same
            subst head
            rw [List.append_cancel_left same] at laterItems
            rw [List.cons_prefix_cons]
            exact ⟨rfl, ih laterItems left later⟩

theorem exists_stuck (delimited : Delimited encode) (text : List Symbol) :
    ∃ items rest, Splits encode text items rest ∧ Stuck encode rest := by
  by_cases stuck : Stuck encode text
  · exact ⟨[], text, rfl, stuck⟩
  · simp only [Stuck, not_forall, not_not] at stuck
    obtain ⟨item, more, same⟩ := stuck
    have shorter : more.length < text.length := by
      have size := List.length_pos_iff.mpr (delimited.nonempty item)
      rw [same, List.length_append]
      omega
    obtain ⟨items, rest, splits, ends⟩ := exists_stuck delimited more
    exact ⟨item :: items, rest, splits_cons.mpr ⟨more, same, splits⟩, ends⟩
termination_by text.length

theorem stuck_nil (delimited : Delimited encode) : Stuck encode [] := by
  intro item rest same
  exact delimited.nonempty item (List.append_eq_nil_iff.mp same.symm).1

end SelfDelimiting
