import Mathlib.Data.BitVec

/-!
# A downward stack of 64-bit words

Words lie in a memory at the addresses of a 64-bit pointer, eight bytes apart.
`Stacked` says which words lie between the stack pointer and the top of the
stack, and the lemmas say what pushing, popping and reading do to them. Addresses
wrap around, so no stack has to lie away from the ends of the address space.
-/

set_option autoImplicit false

namespace WordStack

abbrev Word := BitVec 64

abbrev Memory := Word → Word

structure Stacked (top : Word) (memory : Memory) (pointer : Word) (words : List Word) :
    Prop where
  short : words.length < 2 ^ 61
  depth : top - pointer = BitVec.ofNat 64 (8 * words.length)
  held : ∀ i, ∀ _ : i < words.length, memory (pointer + BitVec.ofNat 64 (8 * i)) = words[i]

/-- Nothing between the stack pointer and the top changes. -/
def KeepsStack (top pointer : Word) (before after : Memory) : Prop :=
  ∀ address, address - pointer < top - pointer → after address = before address

def writeWords (memory : Memory) (address : Word) : List Word → Memory
  | [] => memory
  | word :: rest => writeWords (Function.update memory address word) (address + 8) rest

section

variable {top pointer : Word} {memory : Memory} {words : List Word}

theorem stacked_nil (memory : Memory) (top : Word) : Stacked top memory top [] where
  short := by decide
  depth := by simp
  held := nofun

theorem stacked_push (stacked : Stacked top memory pointer words) (value : Word)
    (room : words.length + 1 < 2 ^ 61) :
    Stacked top (Function.update memory (pointer - 8) value) (pointer - 8) (value :: words) where
  short := room
  depth := by
    have depth := stacked.depth
    rw [List.length_cons]
    bv_omega
  held := by
    intro i bound
    cases i with
    | zero => simp
    | succ i =>
        rw [List.length_cons] at bound
        have apart : pointer - 8 + BitVec.ofNat 64 (8 * (i + 1)) ≠ pointer - 8 := by bv_omega
        have place : pointer - 8 + BitVec.ofNat 64 (8 * (i + 1)) =
            pointer + BitVec.ofNat 64 (8 * i) := by bv_omega
        rw [Function.update_of_ne apart, place, stacked.held i (by omega)]
        rfl

theorem stacked_read {value : Word} (stacked : Stacked top memory pointer (value :: words)) :
    memory pointer = value := by
  have first := stacked.held 0 (by simp)
  rw [List.getElem_cons_zero] at first
  rw [← first]
  simp

theorem stacked_pop {value : Word} (stacked : Stacked top memory pointer (value :: words)) :
    Stacked top memory (pointer + 8) words where
  short := by
    have short := stacked.short
    rw [List.length_cons] at short
    omega
  depth := by
    have depth := stacked.depth
    rw [List.length_cons] at depth
    bv_omega
  held := by
    intro i bound
    have word := stacked.held (i + 1) (by rw [List.length_cons]; omega)
    have place : pointer + 8 + BitVec.ofNat 64 (8 * i) =
        pointer + BitVec.ofNat 64 (8 * (i + 1)) := by bv_omega
    rw [place, word, List.getElem_cons_succ]

theorem stacked_keeps {after : Memory} (stacked : Stacked top memory pointer words)
    (kept : KeepsStack top pointer memory after) : Stacked top after pointer words where
  short := stacked.short
  depth := stacked.depth
  held := by
    intro i bound
    have short := stacked.short
    have inside : pointer + BitVec.ofNat 64 (8 * i) - pointer < top - pointer := by
      rw [stacked.depth]
      bv_omega
    rw [kept _ inside, stacked.held i bound]

theorem stacked_reserve (stacked : Stacked top memory pointer words)
    (room : words.length + 1 < 2 ^ 61) :
    Stacked top memory (pointer - 8) (memory (pointer - 8) :: words) := by
  have pushed := stacked_push stacked (memory (pointer - 8)) room
  rw [Function.update_eq_self] at pushed
  exact pushed

theorem write_words_outside {address : Word}
    (outside : ∀ i < words.length, address ≠ pointer + BitVec.ofNat 64 (8 * i)) :
    writeWords memory pointer words address = memory address := by
  induction words generalizing memory pointer with
  | nil => rfl
  | cons word rest ih =>
      have first : address ≠ pointer := by simpa using outside 0 (by simp)
      rw [writeWords, ih, Function.update_of_ne first]
      intro i bound
      have later := outside (i + 1) (by rw [List.length_cons]; omega)
      have place : pointer + BitVec.ofNat 64 (8 * (i + 1)) =
          pointer + 8 + BitVec.ofNat 64 (8 * i) := by bv_omega
      rwa [place] at later

theorem stacked_write_words (memory : Memory) (pointer : Word) (short : words.length < 2 ^ 61) :
    Stacked (pointer + BitVec.ofNat 64 (8 * words.length)) (writeWords memory pointer words)
      pointer words where
  short := short
  depth := by bv_omega
  held := by
    induction words generalizing memory pointer with
    | nil => nofun
    | cons word rest ih =>
        rw [List.length_cons] at short
        intro i bound
        cases i with
        | zero =>
            rw [writeWords, write_words_outside]
            · simp
            · intro j inside
              bv_omega
        | succ i =>
            have place : pointer + BitVec.ofNat 64 (8 * (i + 1)) =
                pointer + 8 + BitVec.ofNat 64 (8 * i) := by bv_omega
            rw [place]
            exact ih (Function.update memory pointer word) (pointer + 8) (by omega) i
              (Nat.lt_of_succ_lt_succ bound)

end

end WordStack
