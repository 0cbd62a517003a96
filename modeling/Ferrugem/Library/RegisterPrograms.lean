import Mathlib.Data.List.Nodup
import Ferrugem.Library.WordStack

/-!
# Straight-line programs over registers and a stack

Loads, stores and additions over any type of registers, one of which serves as
the stack pointer. `Saves` and `Restores` say what putting registers on the stack
and taking them back does, whether a program pushes one word at a time or
reserves a frame and stores into it; programs that save or restore compose.
-/

set_option autoImplicit false

namespace RegisterPrograms

open WordStack

structure Cpu (Register : Type) where
  regs : Register → Word
  pc : Word
  memory : Memory

inductive Instruction (Register : Type) where
  | add (target source : Register) (value : Word)
  | load (target base : Register) (offset : Word)
  | store (source base : Register) (offset : Word)

section

variable {Register : Type} [DecidableEq Register]

def Cpu.set (cpu : Cpu Register) (target : Register) (value : Word) : Cpu Register :=
  { cpu with regs := Function.update cpu.regs target value }

theorem Cpu.set_self (cpu : Cpu Register) (target : Register) (value : Word) :
    (cpu.set target value).regs target = value := Function.update_self _ _ _

theorem Cpu.set_other (cpu : Cpu Register) {target reg : Register} (value : Word)
    (other : reg ≠ target) : (cpu.set target value).regs reg = cpu.regs reg :=
  Function.update_of_ne other _ _

def execute (cpu : Cpu Register) : Instruction Register → Cpu Register
  | .add target source value => cpu.set target (cpu.regs source + value)
  | .load target base offset => cpu.set target (cpu.memory (cpu.regs base + offset))
  | .store source base offset =>
      { cpu with memory := Function.update cpu.memory (cpu.regs base + offset) (cpu.regs source) }

theorem execute_add (cpu : Cpu Register) (target source : Register) (value : Word) :
    execute cpu (.add target source value) = cpu.set target (cpu.regs source + value) := rfl

theorem execute_load (cpu : Cpu Register) (target base : Register) (offset : Word) :
    execute cpu (.load target base offset) =
      cpu.set target (cpu.memory (cpu.regs base + offset)) := rfl

theorem execute_store (cpu : Cpu Register) (source base : Register) (offset : Word) :
    execute cpu (.store source base offset) =
      { cpu with
        memory := Function.update cpu.memory (cpu.regs base + offset) (cpu.regs source) } := rfl

def run (program : List (Instruction Register)) (cpu : Cpu Register) : Cpu Register :=
  program.foldl execute cpu

def move (target source : Register) : Instruction Register := .add target source 0

def push (sp source : Register) : List (Instruction Register) :=
  [.add sp sp (-8), .store source sp 0]

def pop (sp target : Register) : List (Instruction Register) :=
  [.load target sp 0, .add sp sp 8]

def storeBlock (base : Register) : Word → List Register → List (Instruction Register)
  | _, [] => []
  | offset, source :: rest => .store source base offset :: storeBlock base (offset + 8) rest

def loadBlock (base : Register) : Word → List Register → List (Instruction Register)
  | _, [] => []
  | offset, target :: rest => .load target base offset :: loadBlock base (offset + 8) rest

def words (count : Nat) : Word := BitVec.ofNat 64 (8 * count)

theorem words_succ (count : Nat) : words (count + 1) = words count + 8#64 := by
  unfold words
  bv_omega

@[simp] theorem words_zero : words 0 = 0#64 := rfl

@[simp] theorem words_one : words 1 = 8#64 := rfl

theorem run_append (first second : List (Instruction Register)) (cpu : Cpu Register) :
    run (first ++ second) cpu = run second (run first cpu) := List.foldl_append

@[simp] theorem run_nil (cpu : Cpu Register) : run [] cpu = cpu := rfl

@[simp] theorem run_cons (instruction : Instruction Register)
    (rest : List (Instruction Register)) (cpu : Cpu Register) :
    run (instruction :: rest) cpu = run rest (execute cpu instruction) := rfl

theorem execute_move (target source : Register) (cpu : Cpu Register) :
    execute cpu (move target source) = cpu.set target (cpu.regs source) := by
  have value : cpu.regs source + 0 = cpu.regs source := by bv_omega
  simp only [execute, move, value]

theorem execute_store_here (source base : Register) (cpu : Cpu Register) :
    execute cpu (.store source base 0) =
      { cpu with memory := Function.update cpu.memory (cpu.regs base) (cpu.regs source) } := by
  have address : cpu.regs base + 0 = cpu.regs base := by bv_omega
  simp only [execute, address]

def Cpu.pushWord (cpu : Cpu Register) (sp : Register) (value : Word) : Cpu Register :=
  { cpu with
    regs := Function.update cpu.regs sp (cpu.regs sp - 8#64)
    memory := Function.update cpu.memory (cpu.regs sp - 8#64) value }

theorem run_push {sp source : Register} (other : source ≠ sp) (cpu : Cpu Register) :
    run (push sp source) cpu = cpu.pushWord sp (cpu.regs source) := by
  have address : cpu.regs sp - 8#64 + 0 = cpu.regs sp - 8#64 := by bv_omega
  have moved : cpu.regs sp + -8 = cpu.regs sp - 8#64 := by bv_omega
  simp only [push, run_cons, run_nil, execute, Cpu.set, Function.update_self,
    Function.update_of_ne other, address, moved, Cpu.pushWord]

theorem run_pop {sp target : Register} (other : target ≠ sp) (cpu : Cpu Register) :
    run (pop sp target) cpu =
      { cpu with
        regs := Function.update (Function.update cpu.regs target (cpu.memory (cpu.regs sp))) sp
          (cpu.regs sp + 8#64) } := by
  have address : cpu.regs sp + 0 = cpu.regs sp := by bv_omega
  simp only [pop, run_cons, run_nil, execute, Cpu.set, Function.update_of_ne other.symm, address]
  rfl

theorem run_store_block (base : Register) (offset : Word) (sources : List Register)
    (cpu : Cpu Register) :
    run (storeBlock base offset sources) cpu =
      { cpu with memory := writeWords cpu.memory (cpu.regs base + offset) (sources.map cpu.regs) } := by
  induction sources generalizing offset cpu with
  | nil => rfl
  | cons source rest ih =>
      rw [storeBlock, run_cons, ih]
      simp only [execute, List.map_cons, writeWords, BitVec.add_assoc]

theorem words_add (first second : Nat) : words (first + second) = words first + words second := by
  unfold words
  bv_omega

theorem words_ne (base : Word) {i j : Nat} (apart : i ≠ j) (left : i < 64) (right : j < 64) :
    base + words i ≠ base + words j := by
  unfold words
  bv_omega

theorem update_slot (memory : Memory) (base value : Word) {i j : Nat} (left : i < 64)
    (right : j < 64) :
    Function.update memory (base + words i) value (base + words j) =
      if j = i then value else memory (base + words j) := by
  by_cases same : j = i
  · rw [if_pos same, same, Function.update_self]
  · rw [if_neg same, Function.update_of_ne (words_ne base same right left)]

theorem block_slot_outside (memory : Memory) (base : Word) {k j : Nat} {values : List Word}
    (apart : j < k ∨ k + values.length ≤ j) (fits : k + values.length ≤ 64) (bound : j < 64) :
    writeWords memory (base + words k) values (base + words j) = memory (base + words j) := by
  apply write_words_outside
  intro i inside
  unfold words
  bv_omega

theorem block_slot_inside (memory : Memory) (base : Word) (k i : Nat) (values : List Word)
    (inside : i < values.length) (fits : k + values.length ≤ 64) :
    writeWords memory (base + words k) values (base + words (k + i)) = values[i] := by
  have room : values.length < 2 ^ 61 := by omega
  have stored := (stacked_write_words memory (base + words k) room).held i inside
  rw [words_add, ← BitVec.add_assoc]
  exact stored

theorem stacked_prefix {top pointer : Word} {memory : Memory} {first second : List Word}
    (stacked : Stacked top memory pointer (first ++ second)) :
    Stacked (pointer + words first.length) memory pointer first where
  short := by
    have short := stacked.short
    rw [List.length_append] at short
    omega
  depth := by
    unfold words
    bv_omega
  held := by
    intro i bound
    rw [stacked.held i (by rw [List.length_append]; omega), List.getElem_append_left bound]

structure Saves (sp : Register) (before after : Cpu Register) (saved : List Word) : Prop where
  pc : after.pc = before.pc
  regs : ∀ reg, reg ≠ sp → after.regs reg = before.regs reg
  pointer : after.regs sp = before.regs sp - words saved.length
  stacked : Stacked (before.regs sp) after.memory (after.regs sp) saved
  outside : ∀ address, (∀ i < saved.length, address ≠ after.regs sp + words i) →
    after.memory address = before.memory address

variable {sp : Register} {before middle after : Cpu Register}

omit [DecidableEq Register] in
theorem Saves.nothing (sp : Register) (cpu : Cpu Register) : Saves sp cpu cpu [] where
  pc := rfl
  regs := fun _ _ => rfl
  pointer := by simp
  stacked := stacked_nil _ _
  outside := fun _ _ => rfl

theorem Saves.push_word {saved : List Word} (saves : Saves sp before middle saved) (value : Word)
    (room : saved.length + 1 < 2 ^ 61) :
    Saves sp before (middle.pushWord sp value) (value :: saved) := by
  have pointer : (middle.pushWord sp value).regs sp = middle.regs sp - 8#64 :=
    Function.update_self _ _ _
  constructor
  · exact saves.pc
  · intro reg apart
    rw [← saves.regs reg apart]
    exact Function.update_of_ne apart _ _
  · rw [pointer, saves.pointer, List.length_cons, words_succ]
    bv_omega
  · rw [pointer]
    exact stacked_push saves.stacked _ room
  · intro address apart
    rw [pointer] at apart
    have first : address ≠ middle.regs sp - 8#64 := by simpa using apart 0 (by simp)
    rw [← saves.outside address]
    · exact Function.update_of_ne first _ _
    · intro i bound same
      apply apart (i + 1) (by rw [List.length_cons]; omega)
      rw [same, words_succ]
      bv_omega

theorem Saves.push {source : Register} {saved : List Word} (saves : Saves sp before middle saved)
    (other : source ≠ sp) (room : saved.length + 1 < 2 ^ 61) :
    Saves sp before (run (push sp source) middle) (before.regs source :: saved) := by
  rw [run_push other, saves.regs source other]
  exact saves.push_word _ room

theorem Saves.pushes {sources : List Register} {saved : List Word}
    (saves : Saves sp before middle saved) (others : sp ∉ sources)
    (room : saved.length + sources.length < 2 ^ 61) :
    Saves sp before (run (sources.flatMap (RegisterPrograms.push sp)) middle)
      ((sources.map before.regs).reverse ++ saved) := by
  induction sources generalizing middle saved with
  | nil => exact saves
  | cons source rest ih =>
      rw [List.mem_cons, not_or] at others
      rw [List.length_cons] at room
      rw [List.flatMap_cons, run_append, List.map_cons, List.reverse_cons, List.append_assoc,
        List.singleton_append]
      exact ih (saves.push (Ne.symm others.1) (by omega)) others.2 (by rw [List.length_cons]; omega)

theorem saves_frame {sources : List Register} (cpu : Cpu Register) (apart : sp ∉ sources)
    (room : sources.length < 2 ^ 61) :
    Saves sp cpu
      (run (.add sp sp (-words sources.length) :: storeBlock sp 0 sources) cpu)
      (sources.map cpu.regs) := by
  rw [run_cons]
  generalize reserved : execute cpu (.add sp sp (-words sources.length)) = step
  have pointer : step.regs sp = cpu.regs sp - words sources.length := by
    rw [← reserved]
    simp only [execute, Cpu.set, Function.update_self]
    bv_omega
  have memory : step.memory = cpu.memory := by rw [← reserved]; rfl
  have others : ∀ reg, reg ≠ sp → step.regs reg = cpu.regs reg := by
    intro reg differs
    rw [← reserved]
    exact Function.update_of_ne differs _ _
  have values : sources.map step.regs = sources.map cpu.regs :=
    List.map_congr_left fun reg member => others reg fun same => apart (same ▸ member)
  have base : step.regs sp + 0 = step.regs sp := by bv_omega
  rw [run_store_block, values, base, memory]
  constructor
  · rw [← reserved]
    rfl
  · exact others
  · rw [List.length_map]
    exact pointer
  · have short : (sources.map cpu.regs).length < 2 ^ 61 := by simpa using room
    have stacked := stacked_write_words cpu.memory (step.regs sp) short
    have top : step.regs sp + BitVec.ofNat 64 (8 * (sources.map cpu.regs).length) =
        cpu.regs sp := by
      rw [List.length_map, pointer]
      unfold words
      bv_omega
    rw [top] at stacked
    exact stacked
  · intro address outside
    exact write_words_outside outside

/-- Registers taken from the stack with the values that `value` says. -/
structure Restores (sp : Register) (targets : List Register) (value : Register → Word)
    (before after : Cpu Register) : Prop where
  pc : after.pc = before.pc
  memory : after.memory = before.memory
  pointer : after.regs sp = before.regs sp + words targets.length
  loaded : ∀ reg ∈ targets, after.regs reg = value reg
  others : ∀ reg, reg ≠ sp → reg ∉ targets → after.regs reg = before.regs reg

variable {top : Word} {value : Register → Word}

variable (sp) in
theorem restores_pops {targets : List Register} {rest : List Word} {cpu : Cpu Register}
    (distinct : targets.Nodup) (apart : sp ∉ targets)
    (stacked : Stacked top cpu.memory (cpu.regs sp) (targets.map value ++ rest)) :
    Restores sp targets value cpu (run (targets.flatMap (pop sp)) cpu) := by
  induction targets generalizing cpu with
  | nil => exact ⟨rfl, rfl, by simp, nofun, fun _ _ _ => rfl⟩
  | cons target targets ih =>
      rw [List.nodup_cons] at distinct
      rw [List.mem_cons, not_or] at apart
      have differs : target ≠ sp := Ne.symm apart.1
      rw [List.flatMap_cons, run_append]
      have popped := run_pop differs cpu
      generalize run (pop sp target) cpu = step at popped ⊢
      have pointer : step.regs sp = cpu.regs sp + 8#64 := by
        rw [popped]
        exact Function.update_self _ _ _
      have memory : step.memory = cpu.memory := by rw [popped]
      have loaded : step.regs target = value target := by
        rw [popped, ← stacked_read stacked]
        simp only [Function.update_of_ne differs, Function.update_self]
      have kept : ∀ reg, reg ≠ sp → reg ≠ target → step.regs reg = cpu.regs reg := by
        intro reg notPointer notTarget
        rw [popped]
        simp only [Function.update_of_ne notPointer, Function.update_of_ne notTarget]
      have below : Stacked top step.memory (step.regs sp) (targets.map value ++ rest) := by
        rw [memory, pointer]
        exact stacked_pop stacked
      have later := ih distinct.2 apart.2 below
      constructor
      · rw [later.pc, popped]
      · rw [later.memory, memory]
      · rw [later.pointer, pointer, List.length_cons, words_succ]
        bv_omega
      · intro reg member
        cases List.mem_cons.mp member with
        | inl same =>
            subst same
            rw [later.others reg differs distinct.1, loaded]
        | inr inside => exact later.loaded reg inside
      · intro reg notPointer outside
        rw [List.mem_cons, not_or] at outside
        rw [later.others reg notPointer outside.2, kept reg notPointer outside.1]

def Reads (memory : Memory) (address : Word) (targets : List Register)
    (value : Register → Word) : Prop :=
  ∀ i, ∀ _ : i < targets.length, memory (address + words i) = value targets[i]

theorem run_load_block {base : Register} {offset : Word} {targets : List Register}
    {cpu : Cpu Register} (distinct : targets.Nodup) (apart : base ∉ targets)
    (reads : Reads cpu.memory (cpu.regs base + offset) targets value) :
    (run (loadBlock base offset targets) cpu).pc = cpu.pc ∧
      (run (loadBlock base offset targets) cpu).memory = cpu.memory ∧
      (∀ reg ∈ targets, (run (loadBlock base offset targets) cpu).regs reg = value reg) ∧
      ∀ reg, reg ∉ targets →
        (run (loadBlock base offset targets) cpu).regs reg = cpu.regs reg := by
  induction targets generalizing cpu offset with
  | nil => exact ⟨rfl, rfl, nofun, fun _ _ => rfl⟩
  | cons target targets ih =>
      rw [List.nodup_cons] at distinct
      rw [List.mem_cons, not_or] at apart
      rw [loadBlock, run_cons]
      generalize stepped : execute cpu (.load target base offset) = step
      have memory : step.memory = cpu.memory := by rw [← stepped]; rfl
      have same : step.regs base = cpu.regs base := by
        rw [← stepped]
        exact Function.update_of_ne apart.1 _ _
      have first : step.regs target = value target := by
        rw [← stepped]
        simp only [execute, Cpu.set, Function.update_self]
        have word := reads 0 (by simp)
        rwa [words_zero, BitVec.add_zero] at word
      have rest : Reads step.memory (step.regs base + (offset + 8)) targets value := by
        intro i bound
        have word := reads (i + 1) (by rw [List.length_cons]; omega)
        rw [words_succ, List.getElem_cons_succ] at word
        rw [memory, same, ← word]
        congr 1
        bv_omega
      have later := ih distinct.2 apart.2 rest
      refine ⟨?_, ?_, ?_, ?_⟩
      · rw [later.1, ← stepped]
        rfl
      · rw [later.2.1, memory]
      · intro reg member
        cases List.mem_cons.mp member with
        | inl same =>
            subst same
            rw [later.2.2.2 reg distinct.1, first]
        | inr inside => exact later.2.2.1 reg inside
      · intro reg outside
        rw [List.mem_cons, not_or] at outside
        rw [later.2.2.2 reg outside.2, ← stepped]
        exact Function.update_of_ne outside.1 _ _

omit [DecidableEq Register] in
theorem reads_of_stacked {targets : List Register} {rest : List Word} {memory : Memory}
    {pointer : Word} (stacked : Stacked top memory pointer (targets.map value ++ rest)) :
    Reads memory pointer targets value := by
  intro i bound
  have word := stacked.held i (by rw [List.length_append, List.length_map]; omega)
  rw [List.getElem_append_left (by simpa using bound), List.getElem_map] at word
  exact word

theorem restores_frame {targets : List Register} {rest : List Word} {cpu : Cpu Register}
    (distinct : targets.Nodup) (apart : sp ∉ targets)
    (stacked : Stacked top cpu.memory (cpu.regs sp) (targets.map value ++ rest)) :
    Restores sp targets value cpu
      (run (loadBlock sp 0 targets ++ [.add sp sp (words targets.length)]) cpu) := by
  have reads := reads_of_stacked stacked
  have base : cpu.regs sp = cpu.regs sp + 0 := by bv_omega
  rw [base] at reads
  obtain ⟨pc, memory, loaded, others⟩ := run_load_block distinct apart reads
  rw [run_append]
  generalize run (loadBlock sp 0 targets) cpu = step at pc memory loaded others ⊢
  constructor
  · exact pc
  · exact memory
  · simp only [run_cons, run_nil, execute, Cpu.set, Function.update_self, others sp apart]
  · intro reg member
    have differs : reg ≠ sp := fun same => apart (same ▸ member)
    simp only [run_cons, run_nil, execute, Cpu.set, Function.update_of_ne differs,
      loaded reg member]
  · intro reg notPointer outside
    simp only [run_cons, run_nil, execute, Cpu.set, Function.update_of_ne notPointer,
      others reg outside]

end

end RegisterPrograms
