import Mathlib.Data.List.Perm.Basic
import Mathlib.Data.Nat.Basic
import Mathlib.Data.BitVec
import Ferrugem.Library.WordMemory

/-!
# Lists linked through the memory they manage

A free list keeps the address of the next block in the first word of each block,
and 0 in the last one. `Chain` says which blocks a list holds. It depends on no
other words, so whoever owns other blocks may write to them.
-/

set_option autoImplicit false

namespace LinkedBlocks

structure Block where
  address : Nat
  length : Nat
  deriving DecidableEq

def Apart (block other : Block) : Prop :=
  block.address + block.length ≤ other.address ∨ other.address + other.length ≤ block.address

instance decidableApart (block other : Block) : Decidable (Apart block other) :=
  inferInstanceAs (Decidable (_ ∨ _))

theorem apart_symmetric {block other : Block} (apart : Apart block other) : Apart other block :=
  apart.symm

def Block.Has (block : Block) (address : Nat) : Prop :=
  block.address ≤ address ∧ address < block.address + block.length

theorem apart_of_has {block other : Block}
    (separate : ∀ address, block.Has address → ¬other.Has address) (filled : 0 < block.length)
    (otherFilled : 0 < other.length) : Apart block other := by
  unfold Apart
  by_contra overlap
  rw [not_or, Nat.not_le, Nat.not_le] at overlap
  apply separate (max block.address other.address)
  · exact ⟨Nat.le_max_left _ _, by omega⟩
  · exact ⟨Nat.le_max_right _ _, by omega⟩

theorem apart_words {block other : Block} (apart : Apart block other)
    (aligned : block.address % 8 = 0) (multiple : block.length % 8 = 0) {address otherAddress : Nat}
    (has : block.Has address) (otherHas : other.Has otherAddress) :
    address / 8 ≠ otherAddress / 8 := by
  unfold Apart at apart
  unfold Block.Has at has otherHas
  omega

def Chain (memory : WordMemory) : Nat → List Nat → Prop
  | head, [] => head = 0
  | head, block :: rest => head = block ∧ block ≠ 0 ∧ Chain memory (memory.load block).toNat rest

section

variable {memory after : WordMemory} {head : Nat} {blocks : List Nat}

theorem chain_frame (same : ∀ block ∈ blocks, after.load block = memory.load block)
    (chain : Chain memory head blocks) : Chain after head blocks := by
  induction blocks generalizing head with
  | nil => exact chain
  | cons block rest ih =>
      obtain ⟨first, nonzero, linked⟩ := chain
      refine ⟨first, nonzero, ?_⟩
      rw [same block List.mem_cons_self]
      exact ih (fun later member => same later (List.mem_cons_of_mem block member)) linked

theorem load_store_same (memory : WordMemory) (address : Nat) (value : BitVec 64) :
    (memory.store address value).load address = value :=
  Function.update_self _ _ _

theorem load_store_other {address other : Nat} (apart : other / 8 ≠ address / 8)
    (value : BitVec 64) : (memory.store address value).load other = memory.load other :=
  Function.update_of_ne apart _ _

theorem chain_push {block : Nat} (chain : Chain memory head blocks) (nonzero : block ≠ 0)
    (representable : head < 2 ^ 64) (apart : ∀ other ∈ blocks, other / 8 ≠ block / 8) :
    Chain (memory.store block (BitVec.ofNat 64 head)) block (block :: blocks) := by
  refine ⟨rfl, nonzero, ?_⟩
  rw [load_store_same, BitVec.toNat_ofNat, Nat.mod_eq_of_lt representable]
  exact chain_frame (fun other member => load_store_other (apart other member) _) chain

end

/-- The address stored in block number `i` of a run of `n`; the last one gets
`tail`. -/
def nextBlock (start size tail n i : Nat) : Nat :=
  if i + 1 < n then start + (i + 1) * size else tail

def linkBlocks (memory : WordMemory) (start size tail n : Nat) : WordMemory :=
  (List.range n).foldl (fun linked i =>
    linked.store (start + i * size) (BitVec.ofNat 64 (nextBlock start size tail n i))) memory

def runBlocks (start size n : Nat) : List Nat := (List.range n).map fun i => start + i * size

section

variable {memory : WordMemory} {start size : Nat}

theorem store_range_load (value : Nat → BitVec 64) (wide : 8 ≤ size) (n : Nat) :
    (∀ i, i < n → ((List.range n).foldl (fun linked i => linked.store (start + i * size) (value i))
      memory).load (start + i * size) = value i) ∧
    ∀ address, (∀ i, i < n → address / 8 ≠ (start + i * size) / 8) →
      ((List.range n).foldl (fun linked i => linked.store (start + i * size) (value i))
        memory).load address = memory.load address := by
  induction n with
  | zero => exact ⟨fun i low => absurd low (Nat.not_lt_zero i), fun _ _ => rfl⟩
  | succ n ih =>
      rw [List.range_succ, List.foldl_append]
      simp only [List.foldl_cons, List.foldl_nil]
      constructor
      · intro i low
        by_cases last : i = n
        · rw [last, load_store_same]
        · have step : (i + 1) * size ≤ n * size := Nat.mul_le_mul_right size (by omega)
          rw [Nat.add_mul] at step
          rw [load_store_other (by omega), ih.1 i (by omega)]
      · intro address outside
        rw [load_store_other (outside n (Nat.lt_succ_self n)),
          ih.2 address fun i low => outside i (Nat.lt_succ_of_lt low)]

theorem link_blocks_other {tail n address : Nat} (wide : 8 ≤ size)
    (outside : ∀ i, i < n → address / 8 ≠ (start + i * size) / 8) :
    (linkBlocks memory start size tail n).load address = memory.load address :=
  (store_range_load _ wide n).2 address outside

/-- The run is linked in order and goes on with the list at `tail`. -/
theorem chain_link_blocks {tail n : Nat} {blocks : List Nat} (wide : 8 ≤ size) (some : 0 < n)
    (nonzero : start ≠ 0) (representable : start + n * size ≤ 2 ^ 64) (tailSmall : tail < 2 ^ 64)
    (chain : Chain memory tail blocks)
    (outside : ∀ block ∈ blocks, ∀ i, i < n → block / 8 ≠ (start + i * size) / 8) :
    Chain (linkBlocks memory start size tail n) start (runBlocks start size n ++ blocks) := by
  have linked (i : Nat) (low : i < n) :
      ((linkBlocks memory start size tail n).load (start + i * size)).toNat =
        nextBlock start size tail n i := by
    have next : nextBlock start size tail n i < 2 ^ 64 := by
      unfold nextBlock
      split_ifs with more
      · have step : (i + 1 + 1) * size ≤ n * size := Nat.mul_le_mul_right size more
        rw [Nat.add_mul (i + 1)] at step
        omega
      · exact tailSmall
    unfold linkBlocks
    rw [(store_range_load _ wide n).1 i low, BitVec.toNat_ofNat, Nat.mod_eq_of_lt next]
  have tailed : Chain (linkBlocks memory start size tail n) tail blocks :=
    chain_frame (fun block member => link_blocks_other wide (outside block member)) chain
  -- from block number `i` on, by induction on how many are left
  have from_block (left : Nat) : ∀ i, i + left = n → 0 < left →
      Chain (linkBlocks memory start size tail n) (start + i * size)
        ((List.range' i left).map (fun i => start + i * size) ++ blocks) := by
    induction left with
    | zero => exact fun _ _ none => absurd none (Nat.lt_irrefl 0)
    | succ left ih =>
        intro i counted _
        refine ⟨rfl, Nat.ne_of_gt (Nat.add_pos_left (Nat.pos_of_ne_zero nonzero) _), ?_⟩
        rw [linked i (by omega)]
        unfold nextBlock
        split_ifs with more
        · exact ih (i + 1) (by omega) (by omega)
        · obtain rfl : left = 0 := by omega
          exact tailed
  have whole := from_block n 0 (Nat.zero_add n) some
  rw [Nat.zero_mul, Nat.add_zero] at whole
  unfold runBlocks
  rw [List.range_eq_range']
  exact whole

end

section

variable {Class Item : Type*} [DecidableEq Class]

theorem flat_map_update_perm {classes : List Class} (distinct : classes.Nodup) {class' : Class}
    (member : class' ∈ classes) (lists : Class → List Item) (added : List Item) :
    (classes.flatMap (Function.update lists class' (added ++ lists class'))).Perm
      (added ++ classes.flatMap lists) := by
  induction classes with
  | nil => cases member
  | cons first rest ih =>
      obtain ⟨fresh, distinct⟩ := List.nodup_cons.mp distinct
      rw [List.flatMap_cons, List.flatMap_cons]
      by_cases here : first = class'
      · subst here
        have others : rest.flatMap (Function.update lists first (added ++ lists first)) =
            rest.flatMap lists := by
          apply List.flatMap_congr
          intro other later
          have apart : other ≠ first := by
            rintro rfl
            exact fresh later
          exact Function.update_of_ne apart _ _
        rw [Function.update_self, others, List.append_assoc]
      · have later : class' ∈ rest := by
          rcases List.mem_cons.mp member with same | later
          · exact absurd same.symm here
          · exact later
        rw [Function.update_of_ne here]
        exact ((ih distinct later).append_left _).trans (List.perm_append_comm_assoc _ _ _)

end

end LinkedBlocks
