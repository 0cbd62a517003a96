import Mathlib.Data.Fintype.Card
import Mathlib.Data.Set.Card
import Mathlib.Logic.Function.Basic

/-!
# Trees of named nodes

A location is the list of the names on the way to it, the last one first, and a
tree says what lies at each location. Nodes with a link to their parent and a
name in it form a tree when chains of links lead from all of them to the root
and the nodes of one parent have different names. A change to one node then
changes the tree at one location, or moves what lies below one location.
-/

set_option autoImplicit false

namespace NamedTrees

abbrev Tree (Name Node : Type*) := List Name → Option Node

inductive Step (Name : Type*) where
  | stay
  | up
  | down (name : Name)

namespace Tree

variable {Name Node : Type*}

def follow (tree : Tree Name Node) : List Name → List (Step Name) → Option (List Name)
  | loc, [] => some loc
  | loc, .stay :: rest => follow tree loc rest
  | loc, .up :: rest => follow tree loc.tail rest
  | loc, .down name :: rest =>
      if (tree (name :: loc)).isSome then follow tree (name :: loc) rest else none

theorem follow_cons (tree : Tree Name Node) (loc : List Name) (step : Step Name)
    (rest : List (Step Name)) :
    tree.follow loc (step :: rest) =
      (tree.follow loc [step]).bind fun reached => tree.follow reached rest := by
  cases step with
  | stay => rfl
  | up => rfl
  | down name =>
      simp only [follow]
      split_ifs <;> rfl

variable [DecidableEq Name]

def put (tree : Tree Name Node) (loc : List Name) (node : Node) : Tree Name Node :=
  Function.update tree loc (some node)

def modify (tree : Tree Name Node) (loc : List Name) (change : Node → Node) : Tree Name Node :=
  Function.update tree loc ((tree loc).map change)

def remove (tree : Tree Name Node) (loc : List Name) : Tree Name Node :=
  Function.update tree loc none

/-- What lies at and below the source lies at and below the target. -/
def relocate (tree : Tree Name Node) (source target : List Name) : Tree Name Node := fun loc =>
  if target <:+ loc then tree (loc.take (loc.length - target.length) ++ source)
  else if source <:+ loc then none
  else tree loc

theorem relocate_remove (tree : Tree Name Node) {source target : List Name}
    (outside : ¬source <:+ target) :
    (tree.remove target).relocate source target = tree.relocate source target := by
  funext loc
  unfold relocate remove
  split_ifs with moved left
  · apply Function.update_of_ne
    intro same
    exact outside ⟨_, same⟩
  · rfl
  · apply Function.update_of_ne
    rintro rfl
    exact moved List.suffix_rfl

end Tree

@[ext]
structure Links (Index Name : Type*) where
  root : Index
  used : Index → Prop
  parent : Index → Index
  name : Index → Name

section

variable {Index Name : Type*}

inductive At (links : Links Index Name) : List Name → Index → Prop where
  | root : At links [] links.root
  | entry {loc : List Name} {idx : Index} (isUsed : links.used idx) (notRoot : idx ≠ links.root)
      (above : At links loc (links.parent idx)) : At links (links.name idx :: loc) idx

structure Hierarchy (links : Links Index Name) : Prop where
  root : links.used links.root
  attached : ∀ idx, links.used idx → ∃ loc, At links loc idx
  distinct : ∀ first second, links.used first → links.used second → first ≠ links.root →
    second ≠ links.root → links.parent first = links.parent second →
      links.name first = links.name second → first = second

variable {links : Links Index Name} {loc other : List Name} {idx second : Index}

theorem at_nil_iff : At links [] idx ↔ idx = links.root := by
  constructor
  · intro located
    cases located
    rfl
  · intro same
    rw [same]
    exact .root

theorem at_cons_iff {name : Name} :
    At links (name :: loc) idx ↔ links.used idx ∧ idx ≠ links.root ∧ links.name idx = name ∧
      At links loc (links.parent idx) := by
  constructor
  · intro located
    cases located with
    | entry isUsed notRoot above => exact ⟨isUsed, notRoot, rfl, above⟩
  · intro ⟨isUsed, notRoot, named, above⟩
    rw [← named]
    exact .entry isUsed notRoot above

theorem same_location (first : At links loc idx) (again : At links other idx) : loc = other := by
  induction first generalizing other with
  | root =>
      cases again with
      | root => rfl
      | entry _ notRoot => exact absurd rfl notRoot
  | entry _ notRoot _ ih =>
      cases again with
      | root => exact absurd rfl notRoot
      | entry _ _ above => rw [ih above]

theorem same_index (hierarchy : Hierarchy links) (first : At links loc idx)
    (again : At links loc second) : idx = second := by
  induction first generalizing second with
  | root => exact (at_nil_iff.mp again).symm
  | entry isUsed notRoot _ ih =>
      obtain ⟨secondUsed, secondNotRoot, named, above⟩ := at_cons_iff.mp again
      exact hierarchy.distinct _ _ isUsed secondUsed notRoot secondNotRoot (ih above) named.symm

theorem at_used (hierarchy : Hierarchy links) (located : At links loc idx) : links.used idx := by
  cases located with
  | root => exact hierarchy.root
  | entry isUsed => exact isUsed

theorem parent_used (hierarchy : Hierarchy links) (isUsed : links.used idx)
    (notRoot : idx ≠ links.root) : links.used (links.parent idx) := by
  obtain ⟨loc, located⟩ := hierarchy.attached idx isUsed
  cases located with
  | root => exact absurd rfl notRoot
  | entry _ _ above => exact at_used hierarchy above

theorem at_above {rest : List Name} (located : At links (rest ++ loc) idx) :
    ∃ above, At links loc above := by
  induction rest generalizing idx with
  | nil => exact ⟨idx, located⟩
  | cons name rest ih => exact ih (at_cons_iff.mp located).2.2.2

theorem at_root_of_nil (located : At links loc links.root) : loc = [] :=
  same_location located .root

theorem at_length_lt [Fintype Index] (located : At links loc idx) :
    loc.length < Fintype.card Index := by
  have ancestors : ∀ k : Fin (loc.length + 1), ∃ above, At links (loc.drop k) above := by
    intro k
    apply @at_above _ _ _ _ idx (loc.take k)
    rw [List.take_append_drop]
    exact located
  choose above holds using ancestors
  have injective : Function.Injective above := by
    intro i j same
    have equal := same_location (holds i) (same ▸ holds j)
    have lengths := congrArg List.length equal
    rw [List.length_drop, List.length_drop] at lengths
    omega
  have count := Fintype.card_le_of_injective above injective
  rw [Fintype.card_fin] at count
  exact count

/-- The location of a node, followed upwards for at most `fuel` links. -/
def Links.locate [DecidableEq Index] (links : Links Index Name) : Nat → Index → List Name
  | 0, _ => []
  | fuel + 1, idx =>
      if idx = links.root then [] else links.name idx :: links.locate fuel (links.parent idx)

theorem locate_eq [DecidableEq Index] {fuel : Nat} (located : At links loc idx)
    (short : loc.length ≤ fuel) : links.locate fuel idx = loc := by
  induction located generalizing fuel with
  | root =>
      cases fuel with
      | zero => rfl
      | succ fuel => exact if_pos rfl
  | entry _ notRoot _ ih =>
      cases fuel with
      | zero => exact absurd short (Nat.not_succ_le_zero _)
      | succ fuel => rw [Links.locate, if_neg notRoot, ih (Nat.le_of_succ_le_succ short)]

variable {Node : Type*} {node : Index → Node}

open Classical in
noncomputable def treeOf (links : Links Index Name) (node : Index → Node) : Tree Name Node :=
  fun loc => if located : ∃ idx, At links loc idx then some (node located.choose) else none

theorem tree_of_at (hierarchy : Hierarchy links) (located : At links loc idx) :
    treeOf links node loc = some (node idx) := by
  have found : ∃ idx, At links loc idx := ⟨idx, located⟩
  rw [treeOf, dif_pos found, same_index hierarchy found.choose_spec located]

theorem tree_of_some_iff (hierarchy : Hierarchy links) {value : Node} :
    treeOf links node loc = some value ↔ ∃ idx, At links loc idx ∧ node idx = value := by
  constructor
  · intro present
    unfold treeOf at present
    split_ifs at present with found
    exact ⟨found.choose, found.choose_spec, Option.some.inj present⟩
  · intro ⟨idx, located, same⟩
    rw [tree_of_at hierarchy located, same]

theorem tree_of_none_iff : treeOf links node loc = none ↔ ∀ idx, ¬At links loc idx := by
  unfold treeOf
  split_ifs with found
  · simpa using found
  · simpa using found

theorem tree_of_is_some_iff :
    (treeOf links node loc).isSome = true ↔ ∃ idx, At links loc idx := by
  rw [Option.isSome_iff_ne_none, Ne, tree_of_none_iff]
  simp only [not_forall, not_not]

theorem tree_of_ext (hierarchy : Hierarchy links) {tree : Tree Name Node}
    (same : ∀ loc value,
      (∃ idx, At links loc idx ∧ node idx = value) ↔ tree loc = some value) :
    treeOf links node = tree := by
  funext loc
  apply Option.ext
  intro value
  rw [tree_of_some_iff hierarchy]
  exact same loc value

theorem card_locations (hierarchy : Hierarchy links) :
    {loc | treeOf links node loc ≠ none}.ncard = {idx | links.used idx}.ncard := by
  have located : ∀ loc ∈ {loc | treeOf links node loc ≠ none}, ∃ idx, At links loc idx := by
    intro loc present
    rwa [Set.mem_ofPred_eq, ← Option.isSome_iff_ne_none, tree_of_is_some_iff] at present
  choose index holds using located
  apply Set.ncard_congr index
  · intro loc present
    exact at_used hierarchy (holds loc present)
  · intro first second presentFirst presentSecond same
    exact same_location (holds first presentFirst) (same ▸ holds second presentSecond)
  · intro idx isUsed
    obtain ⟨loc, at_⟩ := hierarchy.attached idx isUsed
    have present : loc ∈ {loc | treeOf links node loc ≠ none} := by
      rw [Set.mem_ofPred_eq, tree_of_at hierarchy at_]
      exact Option.some_ne_none _
    exact ⟨loc, present, same_index hierarchy (holds loc present) at_⟩

theorem tree_of_update (hierarchy : Hierarchy links) [DecidableEq Index] [DecidableEq Name]
    (located : At links loc idx) (value : Node) :
    treeOf links (Function.update node idx value) = (treeOf links node).put loc value := by
  funext here
  by_cases same : here = loc
  · rw [same, tree_of_at hierarchy located, Tree.put, Function.update_self, Function.update_self]
  · rw [Tree.put, Function.update_of_ne same]
    apply Option.ext
    intro found
    rw [tree_of_some_iff hierarchy, tree_of_some_iff hierarchy]
    have others : ∀ second, At links here second →
        Function.update node idx value second = node second := by
      intro second at_
      apply Function.update_of_ne
      rintro rfl
      exact same (same_location at_ located)
    exact exists_congr fun second => and_congr_right fun at_ => by rw [others second at_]

variable [DecidableEq Index]

def Links.attach (links : Links Index Name) (idx dir : Index) (name : Name) :
    Links Index Name where
  root := links.root
  used := fun i => i = idx ∨ links.used i
  parent := Function.update links.parent idx dir
  name := Function.update links.name idx name

def Links.detach (links : Links Index Name) (idx : Index) : Links Index Name :=
  { links with used := fun i => i ≠ idx ∧ links.used i }

theorem attach_entry {dir : Index} {name : Name} (isUsed : links.used second)
    (notRoot : second ≠ links.root) (different : second ≠ idx)
    (above : At (links.attach idx dir name) loc (links.parent second)) :
    At (links.attach idx dir name) (links.name second :: loc) second := by
  have parent : (links.attach idx dir name).parent second = links.parent second :=
    Function.update_of_ne different _ _
  have named : (links.attach idx dir name).name second = links.name second :=
    Function.update_of_ne different _ _
  rw [← named]
  exact .entry (.inr isUsed) notRoot (by rw [parent]; exact above)

theorem attached_entry {dir : Index} {name : Name} (notRoot : idx ≠ links.root)
    (above : At (links.attach idx dir name) loc dir) :
    At (links.attach idx dir name) (name :: loc) idx := by
  have parent : (links.attach idx dir name).parent idx = dir := Function.update_self _ _ _
  have named : (links.attach idx dir name).name idx = name := Function.update_self _ _ _
  have entry := @At.entry _ _ (links.attach idx dir name) loc idx (.inl rfl) notRoot
  rw [parent, named] at entry
  exact entry above

theorem attach_distinct (hierarchy : Hierarchy links) {dir : Index} {name : Name}
    (above : At links loc dir) (fresh : ∀ i, ¬At links (name :: loc) i) :
    ∀ i j, (links.attach idx dir name).used i → (links.attach idx dir name).used j →
      i ≠ links.root → j ≠ links.root →
      (links.attach idx dir name).parent i = (links.attach idx dir name).parent j →
        (links.attach idx dir name).name i = (links.attach idx dir name).name j → i = j := by
  have alone : ∀ j, j ≠ idx → links.used j → j ≠ links.root → links.parent j = dir →
      links.name j ≠ name := by
    intro j _ isUsed notRoot parent named
    apply fresh j
    rw [at_cons_iff, parent]
    exact ⟨isUsed, notRoot, named, above⟩
  intro i j firstUsed secondUsed firstRoot secondRoot parents names
  simp only [Links.attach, Function.update_apply] at parents names firstUsed secondUsed
  by_cases first : i = idx
  · by_cases again : j = idx
    · rw [first, again]
    · rw [if_pos first, if_neg again] at parents names
      exact absurd names.symm
        (alone j again (secondUsed.resolve_left again) secondRoot parents.symm)
  · by_cases again : j = idx
    · rw [if_neg first, if_pos again] at parents names
      exact absurd names (alone i first (firstUsed.resolve_left first) firstRoot parents)
    · rw [if_neg first, if_neg again] at parents names
      exact hierarchy.distinct i j (firstUsed.resolve_left first) (secondUsed.resolve_left again)
        firstRoot secondRoot parents names

section

variable {dir : Index} {name : Name}

theorem at_attach_new_iff (hierarchy : Hierarchy links) (unused : ¬links.used idx)
    (above : At links loc dir) {here : List Name} :
    At (links.attach idx dir name) here second ↔
      At links here second ∨ second = idx ∧ here = name :: loc := by
  have notRoot : idx ≠ links.root := by
    rintro rfl
    exact unused hierarchy.root
  have old : ∀ {here second}, At links here second →
      At (links.attach idx dir name) here second := by
    intro here second located
    induction located with
    | root => exact .root
    | entry isUsed otherRoot _ ih =>
        refine attach_entry isUsed otherRoot ?_ ih
        rintro rfl
        exact unused isUsed
  constructor
  · intro located
    induction located with
    | root => exact .inl .root
    | @entry here second isUsed otherRoot _ ih =>
        simp only [Links.attach, Function.update_apply] at ih isUsed ⊢
        by_cases new : second = idx
        · rw [if_pos new] at ih ⊢
          refine .inr ⟨new, ?_⟩
          rcases ih with located | ⟨rfl, -⟩
          · rw [same_location located above]
          · exact absurd (at_used hierarchy above) unused
        · rw [if_neg new] at ih ⊢
          have usedBefore := isUsed.resolve_left new
          rcases ih with located | ⟨same, -⟩
          · exact .inl (.entry usedBefore otherRoot located)
          · have parent := parent_used hierarchy usedBefore otherRoot
            rw [same] at parent
            exact absurd parent unused
  · rintro (located | ⟨rfl, rfl⟩)
    · exact old located
    · exact attached_entry notRoot (old above)

theorem hierarchy_attach_new (hierarchy : Hierarchy links) (unused : ¬links.used idx)
    (above : At links loc dir) (fresh : ∀ i, ¬At links (name :: loc) i) :
    Hierarchy (links.attach idx dir name) where
  root := .inr hierarchy.root
  attached := by
    rintro i (rfl | isUsed)
    · exact ⟨_, (at_attach_new_iff hierarchy unused above).mpr (.inr ⟨rfl, rfl⟩)⟩
    · obtain ⟨here, located⟩ := hierarchy.attached i isUsed
      exact ⟨here, (at_attach_new_iff hierarchy unused above).mpr (.inl located)⟩
  distinct := attach_distinct hierarchy above fresh

variable [DecidableEq Name]

theorem tree_attach_new (hierarchy : Hierarchy links) (unused : ¬links.used idx)
    (above : At links loc dir) (fresh : ∀ i, ¬At links (name :: loc) i) (value : Node) :
    treeOf (links.attach idx dir name) (Function.update node idx value) =
      (treeOf links node).put (name :: loc) value := by
  have after := hierarchy_attach_new hierarchy unused above fresh
  have iff {here : List Name} {i : Index} :=
    @at_attach_new_iff _ _ links loc idx i _ dir name hierarchy unused above here
  have placed := iff.mpr (.inr ⟨rfl, rfl⟩)
  rw [tree_of_update after placed]
  funext here
  by_cases same : here = name :: loc
  · rw [same, Tree.put, Tree.put, Function.update_self, Function.update_self]
  · rw [Tree.put, Tree.put, Function.update_of_ne same, Function.update_of_ne same]
    apply Option.ext
    intro found
    rw [tree_of_some_iff after, tree_of_some_iff hierarchy]
    exact exists_congr fun i => and_congr_left' (by rw [iff]; simp [same])

end

omit [DecidableEq Index] in
theorem at_detach_iff (notRoot : idx ≠ links.root)
    (located : At links loc idx) (empty : ∀ name i, ¬At links (name :: loc) i)
    {here : List Name} :
    At (links.detach idx) here second ↔ At links here second ∧ second ≠ idx := by
  constructor
  · intro still
    induction still with
    | root => exact ⟨.root, notRoot.symm⟩
    | entry isUsed otherRoot _ ih => exact ⟨.entry isUsed.2 otherRoot ih.1, isUsed.1⟩
  · intro ⟨before, different⟩
    induction before with
    | root => exact .root
    | @entry here second isUsed otherRoot above ih =>
        refine @At.entry _ _ (links.detach idx) _ _ ⟨different, isUsed⟩ otherRoot (ih ?_)
        intro parent
        rw [parent] at above
        rw [same_location above located] at *
        exact empty _ second (at_cons_iff.mpr ⟨isUsed, otherRoot, rfl, parent ▸ located⟩)

omit [DecidableEq Index] in
theorem hierarchy_detach (hierarchy : Hierarchy links) (notRoot : idx ≠ links.root)
    (located : At links loc idx) (empty : ∀ name i, ¬At links (name :: loc) i) :
    Hierarchy (links.detach idx) where
  root := ⟨notRoot.symm, hierarchy.root⟩
  attached := by
    intro i isUsed
    obtain ⟨here, before⟩ := hierarchy.attached i isUsed.2
    exact ⟨here, (at_detach_iff notRoot located empty).mpr ⟨before, isUsed.1⟩⟩
  distinct := fun i j firstUsed secondUsed => hierarchy.distinct i j firstUsed.2 secondUsed.2

omit [DecidableEq Index] in
theorem tree_detach [DecidableEq Name] (hierarchy : Hierarchy links) (notRoot : idx ≠ links.root)
    (located : At links loc idx) (empty : ∀ name i, ¬At links (name :: loc) i) :
    treeOf (links.detach idx) node = (treeOf links node).remove loc := by
  apply tree_of_ext (hierarchy_detach hierarchy notRoot located empty)
  intro here value
  simp only [at_detach_iff notRoot located empty]
  by_cases same : here = loc
  · rw [same, Tree.remove, Function.update_self]
    simp only [reduceCtorEq, iff_false, not_exists]
    intro i ⟨⟨again, different⟩, _⟩
    exact different (same_index hierarchy again located)
  · rw [Tree.remove, Function.update_of_ne same, tree_of_some_iff hierarchy]
    refine exists_congr fun i => and_congr_left' (and_iff_left_of_imp ?_)
    rintro again rfl
    exact same (same_location again located)

section

variable {dir : Index} {name : Name} {source : List Name}

structure MayMove (links : Links Index Name) (idx dir : Index) (source loc : List Name)
    (name : Name) : Prop where
  notRoot : idx ≠ links.root
  located : At links source idx
  above : At links loc dir
  outside : ¬source <:+ loc
  fresh : ∀ i, ¬At links (name :: loc) i

theorem at_outside (may : MayMove links idx dir source loc name) {here : List Name}
    (before : At links here second) (outside : ¬source <:+ here) :
    At (links.attach idx dir name) here second := by
  induction before with
  | root => exact .root
  | @entry here second isUsed otherRoot above ih =>
      refine attach_entry isUsed otherRoot ?_
        (ih fun inside => outside (inside.trans (List.suffix_cons _ _)))
      rintro rfl
      apply outside
      rw [same_location may.located (.entry isUsed otherRoot above)]

theorem at_moved (hierarchy : Hierarchy links) (may : MayMove links idx dir source loc name)
    {rest : List Name} (before : At links (rest ++ source) second) :
    At (links.attach idx dir name) (rest ++ name :: loc) second := by
  induction rest generalizing second with
  | nil =>
      rw [same_index hierarchy before may.located]
      exact attached_entry may.notRoot (at_outside may may.above may.outside)
  | cons head rest ih =>
      obtain ⟨isUsed, otherRoot, named, above⟩ := at_cons_iff.mp before
      rw [List.cons_append, ← named]
      refine attach_entry isUsed otherRoot ?_ (ih above)
      rintro rfl
      have lengths := congrArg List.length (same_location before may.located)
      simp only [List.length_append, List.length_cons] at lengths
      omega

theorem at_moved_cases (hierarchy : Hierarchy links)
    (may : MayMove links idx dir source loc name) {here : List Name}
    (after : At (links.attach idx dir name) here second) :
    (¬source <:+ here ∧ At links here second) ∨
      ∃ rest, here = rest ++ name :: loc ∧ At links (rest ++ source) second := by
  induction after with
  | root =>
      refine .inl ⟨?_, .root⟩
      intro inside
      have located := may.located
      rw [List.suffix_nil.mp inside] at located
      exact may.notRoot (at_nil_iff.mp located)
  | @entry here second isUsed otherRoot above ih =>
      simp only [Links.attach, Function.update_apply] at ih isUsed ⊢
      by_cases moved : second = idx
      · subst moved
        rw [if_pos rfl] at ih ⊢
        right
        refine ⟨[], ?_, may.located⟩
        rcases ih with ⟨-, again⟩ | ⟨rest, -, again⟩
        · rw [same_location again may.above, List.nil_append]
        · exact absurd ⟨rest, same_location again may.above⟩ may.outside
      · rw [if_neg moved] at ih ⊢
        have usedBefore := isUsed.resolve_left moved
        rcases ih with ⟨outside, before⟩ | ⟨rest, rfl, before⟩
        · have entry : At links (links.name second :: here) second :=
            .entry usedBefore otherRoot before
          refine .inl ⟨?_, entry⟩
          rw [List.suffix_cons_iff]
          rintro (same | inside)
          · rw [← same] at entry
            exact moved (same_index hierarchy entry may.located)
          · exact outside inside
        · exact .inr ⟨links.name second :: rest, rfl, .entry usedBefore otherRoot before⟩

theorem hierarchy_moved (hierarchy : Hierarchy links)
    (may : MayMove links idx dir source loc name) : Hierarchy (links.attach idx dir name) where
  root := .inr hierarchy.root
  attached := by
    intro i isUsed
    have usedBefore : links.used i := by
      rcases isUsed with rfl | isUsed
      · exact at_used hierarchy may.located
      · exact isUsed
    obtain ⟨here, located⟩ := hierarchy.attached i usedBefore
    by_cases inside : source <:+ here
    · obtain ⟨rest, rfl⟩ := inside
      exact ⟨_, at_moved hierarchy may located⟩
    · exact ⟨here, at_outside may located inside⟩
  distinct := attach_distinct hierarchy may.above may.fresh

theorem tree_moved [DecidableEq Name] (hierarchy : Hierarchy links)
    (may : MayMove links idx dir source loc name) :
    treeOf (links.attach idx dir name) node =
      (treeOf links node).relocate source (name :: loc) := by
  have unmoved {rest : List Name} {i : Index} (before : At links (rest ++ name :: loc) i) :
      False := by
    obtain ⟨above, located⟩ := at_above before
    exact may.fresh above located
  apply tree_of_ext (hierarchy_moved hierarchy may)
  intro here value
  unfold Tree.relocate
  split_ifs with target inside
  · obtain ⟨rest, rfl⟩ := target
    rw [List.length_append, Nat.add_sub_cancel, List.take_left', tree_of_some_iff hierarchy]
    · apply exists_congr
      intro i
      apply and_congr_left'
      constructor
      · intro after
        rcases at_moved_cases hierarchy may after with ⟨-, before⟩ | ⟨again, same, before⟩
        · exact (unmoved before).elim
        · rw [List.append_cancel_right same]
          exact before
      · exact at_moved hierarchy may
    · rfl
  · simp only [iff_false, not_exists]
    intro i ⟨after, _⟩
    rcases at_moved_cases hierarchy may after with ⟨outside, -⟩ | ⟨rest, same, -⟩
    · exact outside inside
    · exact target ⟨rest, same.symm⟩
  · rw [tree_of_some_iff hierarchy]
    apply exists_congr
    intro i
    apply and_congr_left'
    constructor
    · intro after
      rcases at_moved_cases hierarchy may after with ⟨-, before⟩ | ⟨rest, same, -⟩
      · exact before
      · exact absurd ⟨rest, same.symm⟩ target
    · exact fun before => at_outside may before inside

end

end

end NamedTrees
