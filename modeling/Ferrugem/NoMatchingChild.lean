import Ferrugem.TaskLifecycle

/-!
# When `waitpid` reports that there is no child

The comment of `waitpid` promises `ECHILD` when no matching child exists. Its
search for a zombie looks at the target, but the test for a living child does
not: a caller with another child waits for a task that is no child of its own.
-/

namespace Ferrugem.NoMatchingChild

open Ferrugem.ProcessModel Ferrugem.SchedulerModel Ferrugem.SchedulerModel.Kernel
open Ferrugem.KernelMachine Ferrugem.KernelEvolution

set_option autoImplicit false

variable {kernel : Kernel} {parent : Task} {target : Nat} {noHang : Bool}

/-- A child of the parent that the target names, living or not. -/
def Matches (parent : Task) (target : Nat) (task : Task) : Prop :=
  task.ppid = parent.pid ∧ (target = u64Max ∨ task.pid = target)

def MatchingChild (kernel : Kernel) (parent : Task) (target : Nat) (slot : Slot) : Prop :=
  ∃ task, kernel.tasks slot = some task ∧ Matches parent target task

def LivingMatchingChild (kernel : Kernel) (parent : Task) (target : Nat) (slot : Slot) : Prop :=
  ∃ task, kernel.tasks slot = some task ∧ Matches parent target task ∧ task.state ≠ .zombie

/-- `-ECHILD` exactly when the table has no matching child, and 0 only when a
matching child lives. -/
structure ReportsNoChild (kernel : Kernel) (parent : Task) (target : Nat)
    (outcome : WaitOutcome) : Prop where
  noChild : outcome = .noChild ↔ ¬∃ slot, MatchingChild kernel parent target slot
  wouldHang : outcome = .wouldHang → ∃ slot, LivingMatchingChild kernel parent target slot

/-- A task of the scanned slots that is a living child, whatever its pid. -/
def LivingChild (kernel : Kernel) (parent : Task) : Prop :=
  ∃ slot task, slot ≠ idleSlot ∧ kernel.tasks slot = some task ∧ task.ppid = parent.pid ∧
    task.state ≠ .zombie

/-- A matching child is in a scanned slot, or the parent has no living child
there and the idle slot, which is not scanned, holds no matching one; or that
slot does hold one and the parent has a living child besides. -/
def ScanAgrees (kernel : Kernel) (parent : Task) (target : Nat) (noHang : Bool) : Prop :=
  (∃ slot, slot ≠ idleSlot ∧ MatchingChild kernel parent target slot) ∨
    (¬LivingChild kernel parent ∧ ¬MatchingChild kernel parent target idleSlot) ∨
    (LivingChild kernel parent ∧ MatchingChild kernel parent target idleSlot ∧
      (noHang = true → LivingMatchingChild kernel parent target idleSlot))

theorem current_pid_eq (present : kernel.currentTask = some parent) :
    kernel.currentPid = parent.pid := by
  simp [Kernel.currentPid, present]

theorem is_zombie_child_iff {task : Task} :
    isZombieChild parent.pid target task = true ↔
      task.state = .zombie ∧ Matches parent target task := by
  simp [isZombieChild, Matches, and_assoc]

theorem has_living_child_iff :
    kernel.hasLivingChild parent.pid = true ↔ LivingChild kernel parent := by
  simp only [Kernel.hasLivingChild, List.any_eq_true, Option.any_eq_true, Bool.and_eq_true,
    beq_iff_eq, bne_iff_ne]
  constructor
  · rintro ⟨slot, scanned, task, present, child, living⟩
    exact ⟨slot, task, (mem_task_slots_iff slot).mp scanned, present, child, living⟩
  · rintro ⟨slot, task, other, present, child, living⟩
    exact ⟨slot, mem_task_slots other, task, present, child, living⟩

theorem find_zombie_child_none :
    kernel.findZombieChild parent.pid target = none ↔
      ∀ slot task, slot ≠ idleSlot → kernel.tasks slot = some task →
        Matches parent target task → task.state ≠ .zombie := by
  simp only [Kernel.findZombieChild, List.find?_eq_none, Option.any_eq_true, is_zombie_child_iff]
  constructor
  · intro absent slot task other present named zombie
    exact absent slot (mem_task_slots other) ⟨task, present, zombie, named⟩
  · rintro absent slot scanned ⟨task, present, zombie, named⟩
    exact absent slot task ((mem_task_slots_iff slot).mp scanned) present named zombie

theorem find_zombie_child_some {slot : Slot}
    (found : kernel.findZombieChild parent.pid target = some slot) :
    slot ≠ idleSlot ∧ MatchingChild kernel parent target slot := by
  refine ⟨(mem_task_slots_iff slot).mp (List.mem_of_find?_eq_some found), ?_⟩
  have zombieChild := List.find?_some found
  obtain ⟨task, present, zombie⟩ := (Option.any_eq_true _ _).mp zombieChild
  exact ⟨task, present, (is_zombie_child_iff.mp zombie).2⟩

inductive WaitCase (kernel : Kernel) (parent : Task) (target : Nat) (noHang : Bool) :
    WaitOutcome → Prop where
  | reaped {slot : Slot} {pid : Nat} {status : BitVec 32} (scanned : slot ≠ idleSlot)
      (child : MatchingChild kernel parent target slot) :
      WaitCase kernel parent target noHang (.reaped pid status)
  | noChild (noZombie : kernel.findZombieChild parent.pid target = none)
      (childless : ¬LivingChild kernel parent) :
      WaitCase kernel parent target noHang .noChild
  | wouldHang (noZombie : kernel.findZombieChild parent.pid target = none)
      (living : LivingChild kernel parent) (hangs : noHang = true) :
      WaitCase kernel parent target noHang .wouldHang
  | blocked (noZombie : kernel.findZombieChild parent.pid target = none)
      (living : LivingChild kernel parent) (blocks : noHang = false) :
      WaitCase kernel parent target noHang .blocked

theorem wait_case (target : Nat) (noHang : Bool) (present : kernel.currentTask = some parent) :
    ∃ after outcome, kernel.waitpid target noHang = some (after, outcome) ∧
      WaitCase kernel parent target noHang outcome := by
  unfold Kernel.waitpid
  simp only [current_pid_eq present]
  split
  · rename_i slot found
    obtain ⟨scanned, task, there, named⟩ := find_zombie_child_some found
    rw [there]
    exact ⟨_, _, rfl, .reaped scanned ⟨task, there, named⟩⟩
  · rename_i noZombie
    by_cases living : kernel.hasLivingChild parent.pid = true
    · have lives := has_living_child_iff.mp living
      simp only [living, Bool.not_true, Bool.false_eq_true, if_false]
      cases hangs : noHang with
      | true => exact ⟨_, _, rfl, .wouldHang noZombie lives rfl⟩
      | false =>
          simp only [Bool.false_eq_true, if_false, Kernel.blockCurrent, present, Option.map_some]
          exact ⟨_, _, rfl, .blocked noZombie lives rfl⟩
    · have childless : ¬LivingChild kernel parent := fun lives =>
        living (has_living_child_iff.mpr lives)
      simp only [Bool.not_eq_true] at living
      simp only [living, Bool.not_false, if_true]
      exact ⟨_, _, rfl, .noChild noZombie childless⟩

theorem LivingMatchingChild.child {slot : Slot}
    (living : LivingMatchingChild kernel parent target slot) :
    MatchingChild kernel parent target slot := by
  obtain ⟨task, present, named, _⟩ := living
  exact ⟨task, present, named⟩

theorem matching_child_lives (noZombie : kernel.findZombieChild parent.pid target = none)
    {slot : Slot} (scanned : slot ≠ idleSlot)
    (child : MatchingChild kernel parent target slot) :
    LivingMatchingChild kernel parent target slot := by
  obtain ⟨task, present, named⟩ := child
  exact ⟨task, present, named, find_zombie_child_none.mp noZombie slot task scanned present named⟩

theorem living_child_of_matching {slot : Slot} (scanned : slot ≠ idleSlot)
    (living : LivingMatchingChild kernel parent target slot) : LivingChild kernel parent := by
  obtain ⟨task, present, named, lives⟩ := living
  exact ⟨slot, task, scanned, present, named.1, lives⟩

theorem reports_none_iff (noZombie : kernel.findZombieChild parent.pid target = none)
    (childless : ¬LivingChild kernel parent) :
    ReportsNoChild kernel parent target .noChild ↔ ScanAgrees kernel parent target noHang := by
  have unscanned : ∀ slot, MatchingChild kernel parent target slot → slot = idleSlot := by
    intro slot child
    by_contra scanned
    exact childless (living_child_of_matching scanned
      (matching_child_lives noZombie scanned child))
  constructor
  · intro reports
    exact .inr (.inl ⟨childless, fun child => reports.noChild.mp rfl ⟨idleSlot, child⟩⟩)
  · rintro (⟨slot, scanned, child⟩ | ⟨_, absent⟩ | ⟨living, _⟩)
    · exact absurd (unscanned slot child) scanned
    · refine ⟨⟨fun _ => ?_, fun _ => rfl⟩, by simp⟩
      rintro ⟨slot, child⟩
      exact absent (unscanned slot child ▸ child)
    · exact absurd living childless

theorem reports_waiting_iff (noZombie : kernel.findZombieChild parent.pid target = none)
    (living : LivingChild kernel parent) {outcome : WaitOutcome} (waits : outcome ≠ .noChild)
    (hangs : outcome = .wouldHang ↔ noHang = true) :
    ReportsNoChild kernel parent target outcome ↔ ScanAgrees kernel parent target noHang := by
  constructor
  · intro reports
    have some : ∃ slot, MatchingChild kernel parent target slot := by
      by_contra none
      exact waits (reports.noChild.mpr none)
    by_cases scanned : ∃ slot, slot ≠ idleSlot ∧ MatchingChild kernel parent target slot
    · exact .inl scanned
    · have onlyIdle : ∀ slot, MatchingChild kernel parent target slot → slot = idleSlot := by
        intro slot child
        by_contra other
        exact scanned ⟨slot, other, child⟩
      obtain ⟨slot, child⟩ := some
      refine .inr (.inr ⟨living, onlyIdle slot child ▸ child, ?_⟩)
      intro noWait
      obtain ⟨other, lives⟩ := reports.wouldHang (hangs.mpr noWait)
      exact onlyIdle other lives.child ▸ lives
  · rintro (⟨slot, scanned, child⟩ | ⟨childless, _⟩ | ⟨_, child, lives⟩)
    · exact ⟨⟨fun none => absurd none waits, fun none => absurd ⟨slot, child⟩ none⟩,
        fun _ => ⟨slot, matching_child_lives noZombie scanned child⟩⟩
    · exact absurd living childless
    · exact ⟨⟨fun none => absurd none waits, fun none => absurd ⟨idleSlot, child⟩ none⟩,
        fun hung => ⟨idleSlot, lives (hangs.mp hung)⟩⟩

/-- For every task table, caller and target, the call reports a missing child
as its comment says exactly when its two scans agree. -/
theorem waitpid_reports_no_child_iff (kernel : Kernel) (parent : Task) (target : Nat)
    (noHang : Bool) (present : kernel.currentTask = some parent) :
    ∃ after outcome, kernel.waitpid target noHang = some (after, outcome) ∧
      (ReportsNoChild kernel parent target outcome ↔ ScanAgrees kernel parent target noHang) := by
  obtain ⟨after, outcome, returned, shape⟩ := wait_case target noHang present
  refine ⟨after, outcome, returned, ?_⟩
  cases shape with
  | @reaped slot pid status scanned child =>
      have some : ∃ slot, MatchingChild kernel parent target slot := ⟨slot, child⟩
      exact ⟨fun _ => .inl ⟨slot, scanned, child⟩, fun _ => ⟨by simp [some], by simp⟩⟩
  | noChild noZombie childless => exact reports_none_iff noZombie childless
  | wouldHang noZombie living hangs =>
      exact reports_waiting_iff noZombie living (by simp) (by simp [hangs])
  | blocked noZombie living blocks =>
      exact reports_waiting_iff noZombie living (by simp) (by simp [blocks])

def forkedOnce : Kernel :=
  (kernelSystem.runFrom kernelSystem.init
    [.spawnGather (.user 0x10000 0x19000 0x20000 0 0x7000), .spawnChoose, .spawnInstall, .schedule,
      .syscallEntry, .spawnGather (.fork 0x30000 0x39000 0x40000 0x7000), .spawnChoose,
      .spawnInstall]).kernel

theorem waitpid_reports_own_child :
    ∃ parent, forkedOnce.currentTask = some parent ∧
      ∃ after outcome, forkedOnce.waitpid 2 true = some (after, outcome) ∧
        (ReportsNoChild forkedOnce parent 2 outcome ↔ ScanAgrees forkedOnce parent 2 true) := by
  obtain ⟨parent, present⟩ : ∃ parent, forkedOnce.currentTask = some parent :=
    Option.isSome_iff_exists.mp (by decide +kernel)
  exact ⟨parent, present, waitpid_reports_no_child_iff forkedOnce parent 2 true present⟩

/-- The parent waits for pid 99, which is no task at all, and blocks. -/
theorem waitpid_waits_for_no_child :
    ¬∀ (kernel : Kernel) (parent : Task) (target : Nat) (noHang : Bool),
      kernel.currentTask = some parent →
        ∃ after outcome, kernel.waitpid target noHang = some (after, outcome) ∧
          ReportsNoChild kernel parent target outcome := by
  intro always
  obtain ⟨parent, present⟩ : ∃ parent, forkedOnce.currentTask = some parent :=
    Option.isSome_iff_exists.mp (by decide +kernel)
  obtain ⟨after, outcome, returned, reports⟩ := always forkedOnce parent 99 false present
  have blocks : (forkedOnce.waitpid 99 false).map Prod.snd = some .blocked := by decide +kernel
  have unnamed : ∀ slot, (forkedOnce.tasks slot).any (fun task => task.pid == 99) = false := by
    decide +kernel
  rw [returned, Option.map_some, Option.some.injEq] at blocks
  dsimp only at blocks
  subst blocks
  have absent : ¬∃ slot, MatchingChild forkedOnce parent 99 slot := by
    rintro ⟨slot, task, there, _, named | named⟩
    · exact absurd named (by decide)
    · have nobody := unnamed slot
      simp [there, named] at nobody
  cases reports.noChild.mpr absent

end Ferrugem.NoMatchingChild
