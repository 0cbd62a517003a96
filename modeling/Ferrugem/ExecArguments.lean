import Ferrugem.InitialStacks
import Ferrugem.MemoryGrowth
import Ferrugem.SyscallStores

/-!
# The arguments of `execve`

`user_cstr_array` stops at its 64th string and at the first string that
`user_cstr` refuses, and `read_path` cuts the path. A call that goes through hands
over what was kept: the caller's vectors exactly if they are within the limits.
-/

namespace Ferrugem.ExecArguments

open Ferrugem.ProcessModel Ferrugem.SchedulerModel Ferrugem.PagingModel Ferrugem.RamFsModel
open Ferrugem.AddressSpaceModel Ferrugem.InitialStacks TerminatedLists
open Ferrugem.ElfLoaderModel (isElf load LoadedImage)
open Ferrugem.DirectoryEnumeration (fromLe)
open Ferrugem.SyscallStores (Address UserMemory)

set_option autoImplicit false

def maxArgLen : Nat := 4096

def bits (bytes : Bytes) : List (BitVec 8) := bytes.map UInt8.toBitVec

/-- `*ptrs`. -/
def wordAt (memory : UserMemory) (ptr : Address) : Address :=
  BitVec.ofNat 64 (fromLe (memory.read ptr 8))

def userCstr (memory : UserMemory) (ptr : Address) (maxLen : Nat) : Option Bytes :=
  if ptr = 0 then none else readUntil memory (· + 1) (· == 0) maxLen ptr

/-- The loop of `user_cstr_array`. -/
def userCstrs (memory : UserMemory) : Nat → Address → List Bytes
  | 0, _ => []
  | room + 1, ptrs =>
      if wordAt memory ptrs = 0 then []
      else
        match userCstr memory (wordAt memory ptrs) maxArgLen with
        | some string => string :: userCstrs memory room (ptrs + 8)
        | none => []

def userCstrArray (memory : UserMemory) (ptr : Address) (maxCount : Nat) : List Bytes :=
  if ptr = 0 then [] else userCstrs memory maxCount ptr

/-- What `sys_execve` finds when it runs; `seed` is what `entropy_seed` gives. -/
structure ExecveState (Store : Type) where
  system : System Store
  fs : RamFs
  memory : UserMemory
  seed : BitVec 64
  located : ∀ task, system.kernel.currentTask = some task → task.cwd < maxInodes

/-- `context` is what `set_exec_ctx` gets. -/
structure ExecveOutcome (Store : Type) where
  system : System Store
  result : Int
  context : Option (Nat × Nat × Nat)

namespace ExecveState

variable {image : KernelImage} {Store : Type}

def cwd (state : ExecveState Store) : InodeIndex :=
  match present : state.system.kernel.currentTask with
  | some task => ⟨task.cwd, state.located task present⟩
  | none => rootInode

/-- `sys_execve` up to its call of `execve_current`: the path and the file. -/
def execFile (state : ExecveState Store) (pathPtr : Address) :
    Except Int (Bytes × List (BitVec 8)) :=
  if pathPtr = 0 then .error (-14)
  else
    match state.memory.readPath pathPtr with
    | none => .error (-2)
    | some path =>
        if path = [] then .error (-2)
        else
          match state.fs.readAt path state.cwd 0 0 with
          | none => .error (-2)
          | some data => if isElf (bits data) then .ok (path, bits data) else .error (-8)

/-- `execve_current` with the strings that it reads from the caller. -/
def execveCurrent (allocator : PageAllocator image Store) (state : ExecveState Store)
    (data : List (BitVec 8)) (argv0 : Bytes) (argvPtr envpPtr : Address) :
    System Store × Option (Nat × Nat × Nat) :=
  let argv := userCstrArray state.memory argvPtr maxExecVec
  let envp := userCstrArray state.memory envpPtr maxExecVec
  state.system.execveCurrent allocator data (bits argv0) (argv.map bits) (envp.map bits) state.seed

def sysExecve (allocator : PageAllocator image Store) (state : ExecveState Store)
    (pathPtr argvPtr envpPtr : Address) : ExecveOutcome Store :=
  match state.execFile pathPtr with
  | .error errno => ⟨state.system, errno, none⟩
  | .ok (path, data) =>
      match state.execveCurrent allocator data path argvPtr envpPtr with
      | (system, some context) => ⟨system, 0, some context⟩
      | (system, none) => ⟨system, -12, none⟩

end ExecveState

def HoldsString (memory : UserMemory) (ptr : Address) (string : Bytes) : Prop :=
  ptr ≠ 0 ∧ StoredAt memory (· + 1) ptr (string ++ [0]) ∧ 0 ∉ string

/-- The pointers to the strings and the null pointer after them; without a vector
there are no strings. -/
def HoldsVector (memory : UserMemory) (ptr : Address) (strings : List Bytes) : Prop :=
  if ptr = 0 then strings = []
  else ∃ pointers, StoredAt (wordAt memory) (· + 8) ptr (pointers ++ [0]) ∧
    List.Forall₂ (HoldsString memory) pointers strings

/-- What the caller means by the three arguments of the call. -/
structure Request where
  path : Bytes
  argv : List Bytes
  envp : List Bytes

structure Holds (memory : UserMemory) (pathPtr argvPtr envpPtr : Address) (request : Request) :
    Prop where
  path : pathPtr ≠ 0 → HoldsString memory pathPtr request.path
  argv : HoldsVector memory argvPtr request.argv
  envp : HoldsVector memory envpPtr request.envp

section

variable {image : KernelImage} {Store : Type} (allocator : PageAllocator image Store)

/-- The address space that `execve_current` makes before the arguments go into it,
with the physical address of the stack. -/
def buildStack (data : List (BitVec 8)) : Paging Store (Nat × LoadedImage × Nat) := do
  let pt ← createEmptyProcessPageTable allocator
  let loaded ← load allocator data pt
  let phys ← mapUserInitStack allocator pt userElfStackTop
  pure (pt, loaded, phys)

variable (state : ExecveState Store) (pathPtr argvPtr envpPtr : Address) (request : Request)

def IsStack (region : StackRegion) : Prop :=
  region.size = userStackSize ∧ region.top = userElfStackTop ∧
    ∃ path data pt loaded space, state.execFile pathPtr = .ok (path, data) ∧
      buildStack allocator data state.system.space = (some (pt, loaded, region.phys), space)

/-- From its stack pointer on the new program reads what the caller asked for. -/
def Passed (outcome : ExecveOutcome Store) : Prop :=
  ∃ region ip sp pt info, IsStack allocator state pathPtr region ∧
    outcome.context = some (ip, sp, pt) ∧
    region.readStart outcome.system.space.memory sp = some info ∧
    info.argc = BitVec.ofNat 64 info.argv.length ∧
    info.argv.map Prod.snd = startArgv (bits request.path) (request.argv.map bits) ∧
    info.envp.map Prod.snd = request.envp.map bits

/-- What `execve` replaces in its task. -/
def taskImage (kernel : Kernel) : Option (Nat × Nat × Nat) :=
  kernel.currentTask.map fun task => (task.pageTablePhys, task.heapBrk, task.fsBase)

/-- The call passes the arguments, or fails and leaves the task as it is. -/
structure Faithful (outcome : ExecveOutcome Store) : Prop where
  passes : outcome.result = 0 → Passed allocator state pathPtr request outcome
  fails : outcome.result ≠ 0 → outcome.result < 0 ∧ outcome.context = none ∧
    taskImage outcome.system.kernel = taskImage state.system.kernel

end

def Short (strings : List Bytes) : Prop :=
  strings.length ≤ maxExecVec ∧ ∀ string ∈ strings, string.length < maxArgLen

/-- The path counts where it stands in for the arguments. -/
structure WithinLimits (request : Request) : Prop where
  argv : Short request.argv
  envp : Short request.envp
  path : request.argv = [] → request.path.length ≤ 256

def kept (strings : List Bytes) : List Bytes :=
  (strings.take maxExecVec).takeWhile fun string => string.length < maxArgLen

def keptArgv (request : Request) : List (List (BitVec 8)) :=
  startArgv (bits (request.path.take 256)) ((kept request.argv).map bits)

def keptEnvp (request : Request) : List (List (BitVec 8)) := (kept request.envp).map bits

/-- What makes the call fail: no file or none for the loader, no task, no frames or
no segment where one has to go, no room on the stack. -/
inductive Refused {image : KernelImage} {Store : Type} (allocator : PageAllocator image Store)
    (state : ExecveState Store) (pathPtr : Address) (request : Request) : Prop where
  | file {errno : Int} (unread : state.execFile pathPtr = .error errno)
  | task (absent : state.system.kernel.currentTask = none)
  | space {path : Bytes} {data : List (BitVec 8)} (read : state.execFile pathPtr = .ok (path, data))
      (unbuilt : (buildStack allocator data state.system.space).1 = none)
  | room (full : ¬Fits userStackSize (keptArgv request) (keptEnvp request))

section

variable {memory : UserMemory}

theorem user_cstr_held {ptr : Address} {string : Bytes} {maxLen : Nat}
    (held : HoldsString memory ptr string) :
    userCstr memory ptr maxLen = if string.length < maxLen then some string else none := by
  obtain ⟨present, stored, plain⟩ := held
  rw [userCstr, if_neg present]
  apply read_until_eq stored _ rfl
  intro byte member
  rw [beq_eq_false_iff_ne]
  rintro rfl
  exact plain member

theorem user_cstrs_held {pointers : List Address} {strings : List Bytes}
    (held : List.Forall₂ (HoldsString memory) pointers strings) (room : Nat) {ptrs : Address}
    (stored : StoredAt (wordAt memory) (· + 8) ptrs (pointers ++ [0])) :
    userCstrs memory room ptrs =
      (strings.take room).takeWhile fun string => string.length < maxArgLen := by
  induction held generalizing room ptrs with
  | nil =>
      cases room with
      | zero => rfl
      | succ room => exact if_pos stored.1
  | @cons pointer string pointers strings here _ ih =>
      cases room with
      | zero => rfl
      | succ room =>
          obtain ⟨first, rest⟩ := stored
          rw [userCstrs, first, if_neg here.1, user_cstr_held here, List.take_succ_cons]
          by_cases short : string.length < maxArgLen
          · rw [if_pos short, List.takeWhile_cons_of_pos (by simpa using short), ← ih room rest]
          · rw [if_neg short, List.takeWhile_cons_of_neg (by simpa using short)]

theorem user_cstr_array_held {ptr : Address} {strings : List Bytes}
    (held : HoldsVector memory ptr strings) :
    userCstrArray memory ptr maxExecVec = kept strings := by
  unfold HoldsVector at held
  unfold userCstrArray
  split_ifs at held ⊢ with absent
  · rw [held]
    rfl
  · obtain ⟨pointers, stored, strings⟩ := held
    exact user_cstrs_held strings maxExecVec stored

theorem read_until_nul_held {ptr : Address} {string : Bytes} (room : Nat)
    (stored : StoredAt memory (· + 1) ptr (string ++ [0])) (plain : 0 ∉ string) :
    memory.readUntilNul room ptr = string.take room := by
  induction string generalizing room ptr with
  | nil =>
      cases room with
      | zero => rfl
      | succ room => exact if_pos stored.1
  | cons byte string ih =>
      cases room with
      | zero => rfl
      | succ room =>
          obtain ⟨first, rest⟩ := stored
          rw [List.mem_cons, not_or] at plain
          rw [UserMemory.readUntilNul, first, if_neg (Ne.symm plain.1), ih room rest plain.2]
          rfl

theorem vector_plain {ptr : Address} {strings : List Bytes}
    (held : HoldsVector memory ptr strings) : ∀ string ∈ strings, 0 ∉ string := by
  unfold HoldsVector at held
  split_ifs at held with absent
  · rw [held]
    exact fun _ member => absurd member List.not_mem_nil
  · obtain ⟨pointers, -, held⟩ := held
    induction held with
    | nil => exact fun _ member => absurd member List.not_mem_nil
    | cons here _ ih => exact List.forall_mem_cons.mpr ⟨here.2.2, ih⟩

end

theorem bits_injective : Function.Injective bits :=
  List.map_injective_iff.mpr fun _ _ => UInt8.toBitVec_inj.mp

theorem bits_plain {string : Bytes} (plain : 0 ∉ string) : 0#8 ∉ bits string := by
  intro member
  obtain ⟨byte, among, zero⟩ := List.mem_map.mp member
  obtain rfl : byte = 0 := UInt8.toBitVec_inj.mp zero
  exact plain among

theorem kept_sublist (strings : List Bytes) : (kept strings).Sublist strings :=
  (List.takeWhile_sublist _).trans (List.take_sublist _ _)

theorem kept_few (strings : List Bytes) : (kept strings).length ≤ maxExecVec :=
  (List.takeWhile_sublist _).length_le.trans (List.length_take_le _ _)

theorem kept_eq_iff (strings : List Bytes) : kept strings = strings ↔ Short strings := by
  constructor
  · intro all
    have few := kept_few strings
    rw [all] at few
    refine ⟨few, fun string member => ?_⟩
    rw [← all, kept] at member
    simpa using List.mem_takeWhile_imp member
  · rintro ⟨few, short⟩
    rw [kept, List.take_of_length_le few, List.takeWhile_eq_self_iff]
    exact fun string member => decide_eq_true (short string member)

theorem kept_cons (string : Bytes) (strings : List Bytes) :
    kept (string :: strings) = [] ∧ maxArgLen ≤ string.length ∨
      ∃ rest, kept (string :: strings) = string :: rest := by
  have first : (string :: strings).take maxExecVec = string :: strings.take 63 := rfl
  unfold kept
  rw [first]
  by_cases short : string.length < maxArgLen
  · exact .inr ⟨_, List.takeWhile_cons_of_pos (decide_eq_true short)⟩
  · exact .inl ⟨List.takeWhile_cons_of_neg (by simpa using short), Nat.le_of_not_lt short⟩

/-- A vector whose first string is too long counts as empty, and the path takes its
place. -/
theorem kept_argv_eq_iff (request : Request) :
    keptArgv request = startArgv (bits request.path) (request.argv.map bits) ↔
      Short request.argv ∧ (request.argv = [] → request.path.length ≤ 256) := by
  rw [← kept_eq_iff]
  unfold keptArgv startArgv
  cases argv : request.argv with
  | nil =>
      have cut : request.path.take 256 = request.path ↔ request.path.length ≤ 256 :=
        List.take_eq_self_iff _
      simp [kept, bits_injective.eq_iff, cut]
  | cons string strings =>
      rcases kept_cons string strings with ⟨none, long⟩ | ⟨rest, some⟩
      · rw [none]
        constructor
        · intro same
          have head : bits (request.path.take 256) = bits string := (List.cons.inj same).1
          rw [← bits_injective head, List.length_take] at long
          exact absurd long (by unfold maxArgLen; omega)
        · rintro ⟨absent, _⟩
          cases absent
      · rw [some]
        simp [(List.map_injective_iff.mpr bits_injective).eq_iff]

theorem kept_envp_eq_iff (request : Request) :
    keptEnvp request = request.envp.map bits ↔ Short request.envp := by
  rw [← kept_eq_iff]
  exact (List.map_injective_iff.mpr bits_injective).eq_iff

section

variable {image : KernelImage} {Store : Type} {allocator : PageAllocator image Store}

theorem ends_trivial {State Value : Type} (prog : Fallible State Value) (state : State) :
    Fallible.Ends prog state (fun _ _ => True) fun _ => True :=
  ⟨fun _ _ _ => trivial, fun _ _ => trivial⟩

theorem alloc_pages_ends (pages : Nat) (space : PhysicalSpace Store) :
    Fallible.Ends (allocPages allocator pages) space (fun phys _ => phys % pageSize = 0)
      fun _ => True := by
  refine ⟨fun phys later returned => ?_, fun _ _ => trivial⟩
  unfold allocPages at returned
  cases allocated : allocator.alloc space.store pages with
  | none =>
      rw [allocated] at returned
      cases returned
  | some found =>
      rw [allocated] at returned
      cases returned
      exact allocator.aligned allocated

theorem build_stack_ends (data : List (BitVec 8)) (space : PhysicalSpace Store) :
    Fallible.Ends (buildStack allocator data) space (fun made _ => made.2.2 % pageSize = 0)
      fun _ => True := by
  unfold buildStack mapUserInitStack
  apply Fallible.ends_bind (ends_trivial _ _)
  intro pt first _
  apply Fallible.ends_bind (ends_trivial _ _)
  intro loaded second _
  rw [Fallible.bind_assoc]
  apply Fallible.ends_bind (alloc_pages_ends _ _)
  intro phys third aligned
  rw [Fallible.bind_assoc]
  apply Fallible.ends_bind_modify
  rw [Fallible.bind_assoc]
  apply Fallible.ends_bind (ends_trivial _ _)
  intro _ fourth _
  exact Fallible.ends_pure aligned

theorem load_exec_image_eq (data argv0 : List (BitVec 8)) (argv envp : List (List (BitVec 8)))
    (seed : BitVec 64) :
    loadExecImage allocator data argv0 argv envp seed = buildStack allocator data >>= fun made =>
      setupAbiStack made.2.2 userStackSize userElfStackTop argv0 argv envp made.2.1 seed >>=
        fun rsp => pure
          { pageTable := made.1
            entry := made.2.1.entry
            rsp := rsp
            heapStart := made.2.1.heapStart } := by
  unfold loadExecImage buildStack
  simp only [Fallible.bind_assoc]
  rfl

def stackRegion (phys : Nat) (aligned : phys % pageSize = 0) : StackRegion where
  phys := phys
  size := userStackSize
  top := userElfStackTop
  positive := by decide
  whole := by decide
  physAligned := by
    unfold pageSize at aligned
    omega
  topAligned := by decide
  fits := by decide
  representable := by decide

variable {state : ExecveState Store} {pathPtr argvPtr envpPtr : Address} {request : Request}

theorem is_stack_unique {first second : StackRegion}
    (one : IsStack allocator state pathPtr first) (other : IsStack allocator state pathPtr second) :
    first = second := by
  obtain ⟨size, top, path, data, pt, loaded, space, read, built⟩ := one
  obtain ⟨sameSize, sameTop, _, _, _, _, _, readAgain, builtAgain⟩ := other
  rw [read] at readAgain
  obtain ⟨rfl, rfl⟩ := Prod.mk.inj (Except.ok.inj readAgain)
  rw [built] at builtAgain
  cases first
  cases second
  simp_all

theorem exec_file_error {errno : Int} (unread : state.execFile pathPtr = .error errno) :
    errno < 0 := by
  unfold ExecveState.execFile at unread
  split at unread
  · cases unread
    decide
  · split at unread
    · cases unread
      decide
    · split_ifs at unread
      · cases unread
        decide
      · split at unread
        · cases unread
          decide
        · split_ifs at unread
          cases unread
          decide

theorem exec_file_path {path : Bytes} {data : List (BitVec 8)}
    (read : state.execFile pathPtr = .ok (path, data)) :
    pathPtr ≠ 0 ∧ path = state.memory.readUntilNul 256 pathPtr := by
  unfold ExecveState.execFile UserMemory.readPath at read
  split at read
  · cases read
  · rename_i present
    refine ⟨present, ?_⟩
    dsimp only at read
    split at read
    · cases read
    · rename_i found checked
      split_ifs at checked read
      split at read
      · cases read
      · split_ifs at read
        cases checked
        cases read
        rfl

inductive ExecveCase (allocator : PageAllocator image Store) (state : ExecveState Store)
    (pathPtr : Address) (request : Request) : ExecveOutcome Store → Prop where
  | fails {system : System Store} {errno : Int}
      (refused : Refused allocator state pathPtr request) (negative : errno < 0)
      (same : system.kernel = state.system.kernel) :
      ExecveCase allocator state pathPtr request ⟨system, errno, none⟩
  | starts {system : System Store} {region : StackRegion} {loaded : LoadedImage}
      {before : WordMemory} {ip sp pt : Nat} {info : StartInfo}
      (accepted : ¬Refused allocator state pathPtr request)
      (isStack : IsStack allocator state pathPtr region)
      (encodes : Encodes region (keptArgv request) (keptEnvp request) loaded state.seed before
        system.space.memory sp info) :
      ExecveCase allocator state pathPtr request ⟨system, 0, some (ip, sp, pt)⟩

theorem kept_plain (held : Holds state.memory pathPtr argvPtr envpPtr request)
    (present : pathPtr ≠ 0) :
    ∀ bytes ∈ keptArgv request ++ keptEnvp request, 0#8 ∉ bytes := by
  have argv := vector_plain held.argv
  have envp := vector_plain held.envp
  have path := (held.path present).2.2
  intro bytes member
  rcases List.mem_append.mp member with argument | setting
  · unfold keptArgv startArgv at argument
    split_ifs at argument
    · obtain rfl := List.mem_singleton.mp argument
      exact bits_plain fun cut => path (List.mem_of_mem_take cut)
    · obtain ⟨string, among, rfl⟩ := List.mem_map.mp argument
      exact bits_plain (argv string ((kept_sublist _).subset among))
  · obtain ⟨string, among, rfl⟩ := List.mem_map.mp setting
    exact bits_plain (envp string ((kept_sublist _).subset among))

theorem not_refused {path : Bytes} {data : List (BitVec 8)} {made : Nat × LoadedImage × Nat}
    {space : PhysicalSpace Store} (read : state.execFile pathPtr = .ok (path, data))
    {task : Task} (present : state.system.kernel.currentTask = some task)
    (built : buildStack allocator data state.system.space = (some made, space))
    (fits : Fits userStackSize (keptArgv request) (keptEnvp request)) :
    ¬Refused allocator state pathPtr request := by
  rintro (unread | absent | ⟨again, unbuilt⟩ | full)
  · rw [read] at unread
    cases unread
  · rw [present] at absent
    cases absent
  · rw [read] at again
    cases again
    rw [built] at unbuilt
    cases unbuilt
  · exact full fits

theorem setup_kept_ends {phys : Nat} (aligned : phys % pageSize = 0) (loaded : LoadedImage)
    (seed : BitVec 64) (space : PhysicalSpace Store) :
    Fallible.Ends
      (setupAbiStack phys userStackSize userElfStackTop (bits (request.path.take 256))
        ((kept request.argv).map bits) (keptEnvp request) loaded seed) space
      (fun rsp later =>
        rsp = (stackRegion phys aligned).base +
          tableOff (stackRegion phys aligned) (keptArgv request) (keptEnvp request) ∧
        Laid (stackRegion phys aligned) (keptArgv request) (keptEnvp request) loaded seed
          space.memory later.memory)
      fun _ => ¬Fits userStackSize (keptArgv request) (keptEnvp request) := by
  have few (strings : List Bytes) : ((kept strings).map bits).length ≤ maxExecVec := by
    rw [List.length_map]
    exact kept_few strings
  apply Fallible.ends_mono (@setup_abi_stack_ends _ space (stackRegion phys aligned)
    ((kept request.argv).map bits) (keptEnvp request) loaded (bits (request.path.take 256)) seed
    ⟨few _, few _⟩)
  · exact fun _ _ => id
  · exact fun _ full => full.1

theorem sys_execve_case (allocator : PageAllocator image Store)
    (held : Holds state.memory pathPtr argvPtr envpPtr request) :
    ExecveCase allocator state pathPtr request
      (state.sysExecve allocator pathPtr argvPtr envpPtr) := by
  unfold ExecveState.sysExecve
  cases read : state.execFile pathPtr with
  | error errno => exact .fails (.file read) (exec_file_error read) rfl
  | ok found =>
      obtain ⟨path, data⟩ := found
      obtain ⟨present, cut⟩ := exec_file_path read
      obtain ⟨_, stored, plain⟩ := held.path present
      rw [read_until_nul_held 256 stored plain] at cut
      dsimp only
      unfold ExecveState.execveCurrent System.execveCurrent
      rw [user_cstr_array_held held.argv, user_cstr_array_held held.envp, cut]
      dsimp only
      rw [load_exec_image_eq]
      cases built : buildStack allocator data state.system.space with
      | mk result middle =>
          cases result with
          | none =>
              rw [Fallible.bind_none built]
              exact .fails (.space read (congrArg Prod.fst built)) (by decide) rfl
          | some made =>
              obtain ⟨pt, loaded, phys⟩ := made
              rw [Fallible.bind_some built]
              have aligned := (build_stack_ends data state.system.space).1 _ _ built
              have ends := @setup_kept_ends _ request phys aligned loaded state.seed middle
              unfold keptEnvp at ends
              dsimp only
              cases set : setupAbiStack phys userStackSize userElfStackTop
                  (bits (request.path.take 256)) ((kept request.argv).map bits)
                  ((kept request.envp).map bits) loaded state.seed middle with
              | mk result after =>
                  cases result with
                  | none =>
                      rw [Fallible.bind_none set]
                      exact .fails (.room (ends.2 after set)) (by decide) rfl
                  | some rsp =>
                      obtain ⟨rfl, laid⟩ := ends.1 rsp after set
                      rw [Fallible.bind_some set]
                      cases running : state.system.kernel.currentTask with
                      | none => exact .fails (.task running) (by decide) rfl
                      | some task =>
                          exact .starts (not_refused read running built laid.fits)
                            ⟨rfl, rfl, _, data, pt, loaded, middle, read, built⟩
                            (laid_encodes (kept_plain held present) laid)

theorem within_limits_iff (request : Request) : WithinLimits request ↔
    keptArgv request = startArgv (bits request.path) (request.argv.map bits) ∧
      keptEnvp request = request.envp.map bits := by
  rw [kept_argv_eq_iff, kept_envp_eq_iff]
  exact ⟨fun limits => ⟨⟨limits.argv, limits.path⟩, limits.envp⟩,
    fun ⟨⟨argv, path⟩, envp⟩ => ⟨argv, envp, path⟩⟩

theorem passed_iff {system : System Store} {region : StackRegion} {loaded : LoadedImage}
    {before : WordMemory} {result : Int} {ip sp pt : Nat} {info : StartInfo}
    (isStack : IsStack allocator state pathPtr region)
    (encodes : Encodes region (keptArgv request) (keptEnvp request) loaded state.seed before
      system.space.memory sp info) :
    Passed allocator state pathPtr request ⟨system, result, some (ip, sp, pt)⟩ ↔
      WithinLimits request := by
  rw [within_limits_iff]
  constructor
  · rintro ⟨other, _, _, _, found, isStack', context, read, _, argv, envp⟩
    obtain rfl := is_stack_unique isStack isStack'
    cases context
    obtain rfl : info = found := Option.some.inj (encodes.read.symm.trans read)
    exact ⟨encodes.argv.symm.trans argv, encodes.envp.symm.trans envp⟩
  · rintro ⟨argv, envp⟩
    refine ⟨region, ip, sp, pt, info, isStack, rfl, encodes.read, ?_,
      encodes.argv.trans argv, encodes.envp.trans envp⟩
    rw [encodes.argc, ← encodes.argv, List.length_map]

/-- For any caller: the call is faithful exactly if the vectors are within the limits
or it has another reason to fail. -/
theorem execve_faithful_iff
    (held : Holds state.memory pathPtr argvPtr envpPtr request) :
    Faithful allocator state pathPtr request
        (state.sysExecve allocator pathPtr argvPtr envpPtr) ↔
      WithinLimits request ∨ Refused allocator state pathPtr request := by
  have outcome := sys_execve_case allocator held
  generalize state.sysExecve allocator pathPtr argvPtr envpPtr = call at outcome ⊢
  cases outcome with
  | fails refused negative same =>
      refine iff_of_true ⟨fun zero => ?_, fun _ => ⟨negative, rfl, ?_⟩⟩ (.inr refused)
      · exact absurd zero negative.ne
      · rw [same]
  | starts accepted isStack encodes =>
      rw [or_iff_left accepted, ← passed_iff isStack encodes]
      exact ⟨fun faithful => faithful.passes rfl,
        fun passed => ⟨fun _ => passed, fun failed => absurd rfl failed⟩⟩

end

/-- The path at `0xA000`, an argument at `0x9000`, and at `0x8000` a vector that has
the argument `count` times. -/
def callerMemory (count : Nat) : UserMemory := fun address =>
  if 0x8000 ≤ address.toNat ∧ address.toNat < 0x8000 + 8 * count then
    if address.toNat % 8 = 1 then 0x90 else 0
  else if address = 0x9000 then 0x61
  else if 0xA000 ≤ address then RamFs.helloPath.getD (address.toNat - 0xA000) 0
  else 0

def callerState (count : Nat) : ExecveState (BitmapPages.PageSupply HeapRegions.smallImage) where
  system := MemoryGrowth.emptySystem
  fs := RamFs.init (HeapRegions.onePageElf.map UInt8.ofBitVec)
  memory := callerMemory count
  seed := 0#64
  located := by
    intro task present
    cases present
    decide

def callerRequest (count : Nat) : Request where
  path := RamFs.helloPath
  argv := List.replicate count [0x61]
  envp := []

def callerOutcome (count : Nat) : ExecveOutcome (BitmapPages.PageSupply HeapRegions.smallImage) :=
  (callerState count).sysExecve (BitmapPages.PageSupply.pageAllocator HeapRegions.smallImage)
    0xA000 0x8000 0

theorem replicate_held {memory : UserMemory} {ptr : Address} {string : Bytes}
    (held : HoldsString memory ptr string) (count : Nat) :
    List.Forall₂ (HoldsString memory) (List.replicate count ptr) (List.replicate count string) := by
  induction count with
  | zero => exact .nil
  | succ count ih => exact .cons held ih

theorem caller_holds {count : Nat}
    (path : HoldsString (callerMemory count) 0xA000 RamFs.helloPath)
    (argument : HoldsString (callerMemory count) 0x9000 [0x61])
    (vector : StoredAt (wordAt (callerMemory count)) (· + 8) 0x8000
      (List.replicate count 0x9000 ++ [0])) :
    Holds (callerState count).memory 0xA000 0x8000 0 (callerRequest count) where
  path := fun _ => path
  argv := ⟨_, vector, replicate_held argument count⟩
  envp := rfl

/-- One argument arrives. -/
theorem one_argument_passed :
    (callerOutcome 1).result = 0 ∧
      Faithful (BitmapPages.PageSupply.pageAllocator HeapRegions.smallImage) (callerState 1) 0xA000
        (callerRequest 1) (callerOutcome 1) := by
  refine ⟨by decide +kernel, (execve_faithful_iff (caller_holds ?_ ?_ ?_)).mpr (.inl ?_)⟩
  · exact ⟨by decide, by decide +kernel, by decide⟩
  · exact ⟨by decide, by decide +kernel, by decide⟩
  · decide +kernel
  · exact ⟨⟨by decide, by decide⟩, ⟨by decide, by decide⟩, by decide⟩

/-- Of 65 arguments the program gets 64, and the call succeeds. -/
theorem last_argument_lost :
    Holds (callerState 65).memory 0xA000 0x8000 0 (callerRequest 65) ∧
      (callerOutcome 65).result = 0 ∧
      ¬Faithful (BitmapPages.PageSupply.pageAllocator HeapRegions.smallImage) (callerState 65)
        0xA000 (callerRequest 65) (callerOutcome 65) := by
  have held : Holds (callerState 65).memory 0xA000 0x8000 0 (callerRequest 65) := by
    apply caller_holds
    · exact ⟨by decide, by decide +kernel, by decide⟩
    · exact ⟨by decide, by decide +kernel, by decide⟩
    · decide +kernel
  have succeeds : (callerOutcome 65).result = 0 := by decide +kernel
  refine ⟨held, succeeds, fun faithful => ?_⟩
  have outcome := sys_execve_case (BitmapPages.PageSupply.pageAllocator HeapRegions.smallImage) held
  change ExecveCase _ _ _ _ (callerOutcome 65) at outcome
  generalize callerOutcome 65 = call at outcome succeeds faithful
  cases outcome with
  | fails _ negative => exact absurd succeeds negative.ne
  | starts accepted isStack encodes =>
      have limits := (passed_iff isStack encodes).mp (faithful.passes rfl)
      exact absurd limits.argv.1 (by decide)

end Ferrugem.ExecArguments
