import Mathlib.Logic.Function.Basic

/-!
# Chains of parent links

Nodes with one parent link each. `Reaches parent Avoids target node` says that
following the links from `node` leads to `target`, and that no node left on the
way is one to avoid. A tree is a set of nodes that all reach the root; changes
to the links are followed along the chains that do not use the changed links.
-/

namespace ParentChain

set_option autoImplicit false

inductive Reaches {Node : Type*} (parent : Node → Node) (Avoids : Node → Prop) (target : Node) :
    Node → Prop where
  | here : Reaches parent Avoids target target
  | up {node : Node} (free : ¬Avoids node)
      (above : Reaches parent Avoids target (parent node)) : Reaches parent Avoids target node

variable {Node : Type*} {parent after : Node → Node} {Avoids Others : Node → Prop}
variable {target node : Node}

/-- A chain keeps to links that did not change and to nodes that are free in
the new sense as well. -/
theorem Reaches.transfer (reaches : Reaches parent Avoids target node)
    (links : ∀ other, ¬Avoids other → after other = parent other)
    (free : ∀ other, ¬Avoids other → ¬Others other) : Reaches after Others target node := by
  induction reaches with
  | here => exact .here
  | up allowed _ ih =>
      apply Reaches.up (free _ allowed)
      rw [links _ allowed]
      exact ih

theorem Reaches.both (first : Reaches parent Avoids target node)
    (second : Reaches parent Others target node) :
    Reaches parent (fun other => Avoids other ∨ Others other) target node := by
  induction first with
  | here => exact .here
  | up allowed _ ih =>
      cases second with
      | here => exact .here
      | up free above => exact .up (by simp [allowed, free]) (ih above)

/-- A chain to a node whose own chain is known after the change. Before the
target is met the links are the old ones. -/
theorem Reaches.extend {middle : Node} (reaches : Reaches parent Avoids middle node)
    (links : ∀ other, ¬Avoids other → other ≠ middle → after other = parent other)
    (free : ∀ other, ¬Avoids other → ¬Others other)
    (rest : Reaches after Others target middle) : Reaches after Others target node := by
  induction reaches with
  | here => exact rest
  | @up other allowed _ ih =>
      by_cases same : other = middle
      · rw [same]
        exact rest
      · apply Reaches.up (free other allowed)
        rw [links other allowed same]
        exact ih

theorem Reaches.restrict {Holds : Node → Prop}
    (keeps : ∀ other, Holds other → Holds (parent other))
    (reaches : Reaches parent Avoids target node) (start : Holds node) :
    Reaches parent (fun other => Avoids other ∨ ¬Holds other) target node ∧ Holds target := by
  induction reaches with
  | here => exact ⟨.here, start⟩
  | @up other allowed _ ih =>
      obtain ⟨chain, final⟩ := ih (keeps other start)
      exact ⟨.up (by simp [allowed, start]) chain, final⟩

/-- The chain followed for at most `fuel` links. -/
def climbs [DecidableEq Node] (parent : Node → Node) (avoids : Node → Bool) (target : Node) :
    Nat → Node → Bool
  | 0, node => node == target
  | fuel + 1, node => node == target || (!avoids node && climbs parent avoids target fuel (parent node))

theorem reaches_of_climbs [DecidableEq Node] {avoids : Node → Bool} {fuel : Nat}
    (climbed : climbs parent avoids target fuel node = true) :
    Reaches parent (avoids · = true) target node := by
  induction fuel generalizing node with
  | zero =>
      simp only [climbs, beq_iff_eq] at climbed
      subst climbed
      exact .here
  | succ fuel ih =>
      simp only [climbs, Bool.or_eq_true, beq_iff_eq, Bool.and_eq_true, Bool.not_eq_true'] at climbed
      rcases climbed with rfl | ⟨free, above⟩
      · exact .here
      · exact .up (by simp [free]) (ih above)

end ParentChain
