import Ferrugem.AccessControl
import Ferrugem.ShellCommands

/-!
# Sessions are runs of the filesystem

A session of the shell is a state machine whose actions are command lines. Its
filesystem goes through a run of the filesystem's own operations, at most one
for a line, each made with the numbers of a user of the table; so what holds in
all runs of the filesystem holds at every prompt.
-/

namespace Ferrugem.ShellRuns

open Ferrugem.RamFsModel Ferrugem.AccessControl Ferrugem.ShellAppend Ferrugem.ShellCommands
open WordSplitting

set_option autoImplicit false

/-- Lines are actions, and what they print is what an observer sees. -/
def shellSystem (reports : Reports) (hello : Bytes) : EventSystem Session Bytes Bytes where
  init := Session.new (RamFs.init hello)
  step := fun session line =>
    ((execute reports session line).1, some (execute reports session line).2)

def OperatesAs (session after : Session) : Prop :=
  after.fs = session.fs ∨
    ∃ operation, MadeBy session.uid session.gid (.change operation) ∧
      after.fs = (session.fs.apply operation).1

def ActsForUser (session : Session) : Prop :=
  ∃ user ∈ users, lookupByUid session.uid = some user ∧ session.gid = user.gid

structure Proceeds (session after : Session) : Prop where
  files : OperatesAs session after
  user : after.uid = session.uid ∧ after.gid = session.gid ∨ ActsForUser after

section

variable {session : Session}

theorem proceeds_refl : Proceeds session session := ⟨.inl rfl, .inl ⟨rfl, rfl⟩⟩

theorem attempt_proceeds {operation : Operation} (refusal : Bytes)
    (made : MadeBy session.uid session.gid (.change operation)) :
    Proceeds session (session.attempt (session.fs.apply operation) refusal).1 :=
  ⟨.inr ⟨operation, made, rfl⟩, .inl ⟨rfl, rfl⟩⟩

theorem on_path_proceeds {usage : Bytes} {arg : Option Bytes} {command : Bytes → Session × Bytes}
    (each : ∀ path, Proceeds session (command path).1) :
    Proceeds session (onPath session usage arg command).1 := by
  cases arg with
  | none => exact proceeds_refl
  | some path => exact each path

theorem append_to_proceeds (path content : Bytes) :
    Proceeds session (appendTo session path content).1 :=
  @attempt_proceeds session (.write path session.cwd
    (appendBuffer ((session.fs.readAt path session.cwd session.uid session.gid).getD []) content)
    session.uid session.gid) _ ⟨rfl, rfl⟩

theorem echo_proceeds (line : Bytes) : Proceeds session (cmdEcho session line).1 := by
  unfold cmdEcho
  split
  · split_ifs
    · exact proceeds_refl
    · exact append_to_proceeds _ _
    · exact @attempt_proceeds session (.write _ session.cwd _ session.uid session.gid) _ ⟨rfl, rfl⟩
  · exact proceeds_refl

theorem cd_proceeds (arg : Option Bytes) : Proceeds session (cmdCd session arg).1 := by
  unfold cmdCd
  dsimp only
  split
  · exact proceeds_refl
  · split_ifs
    · exact ⟨.inl rfl, .inl ⟨rfl, rfl⟩⟩
    · exact proceeds_refl

theorem cat_proceeds (arg : Option Bytes) : Proceeds session (cmdCat session arg).1 :=
  on_path_proceeds fun path => by
    split <;> exact proceeds_refl

theorem stat_proceeds (arg : Option Bytes) : Proceeds session (cmdStat session arg).1 :=
  on_path_proceeds fun path => by
    dsimp only
    split <;> exact proceeds_refl

theorem cp_proceeds (src dst : Option Bytes) : Proceeds session (cmdCp session src dst).1 := by
  unfold cmdCp
  split
  · split
    · exact proceeds_refl
    · exact @attempt_proceeds session (.write _ session.cwd _ session.uid session.gid) _ ⟨rfl, rfl⟩
  · exact proceeds_refl

theorem mv_proceeds (src dst : Option Bytes) : Proceeds session (cmdMv session src dst).1 := by
  unfold cmdMv
  split
  · exact @attempt_proceeds session (.rename _ _ session.cwd session.uid session.gid) _ ⟨rfl, rfl⟩
  · exact proceeds_refl

theorem chmod_proceeds (mode path : Option Bytes) :
    Proceeds session (cmdChmod session mode path).1 := by
  unfold cmdChmod
  split
  · split
    · exact @attempt_proceeds session (.chmod _ session.cwd _ session.uid) _ rfl
    · exact proceeds_refl
  · exact proceeds_refl

theorem chown_proceeds (owner path : Option Bytes) :
    Proceeds session (cmdChown session owner path).1 := by
  unfold cmdChown
  split
  · split
    · exact @attempt_proceeds session (.chown _ session.cwd _ _ session.uid) _ rfl
    · exact proceeds_refl
  · exact proceeds_refl

theorem named_user_numbered : ∀ user ∈ users, lookupByUid user.uid = some user := by
  decide +kernel

theorem su_proceeds (arg : Option Bytes) : Proceeds session (cmdSu session arg).1 := by
  unfold cmdSu
  dsimp only
  split
  · exact proceeds_refl
  · rename_i user found
    have member : user ∈ users := List.mem_of_find?_eq_some found
    exact ⟨.inl rfl, .inr ⟨user, member, named_user_numbered user member, rfl⟩⟩

theorem perform_proceeds (reports : Reports) (line : Bytes) (args : List Bytes)
    (command : Command) : Proceeds session (perform reports session line args command).1 := by
  cases command with
  | echo => exact echo_proceeds line
  | cd => exact cd_proceeds _
  | cat => exact cat_proceeds _
  | stat => exact stat_proceeds _
  | cp => exact cp_proceeds _ _
  | mv => exact mv_proceeds _ _
  | chmod => exact chmod_proceeds _ _
  | chown => exact chown_proceeds _ _
  | su => exact su_proceeds _
  | mkdir =>
      exact on_path_proceeds fun path =>
        @attempt_proceeds session (.mkdir path session.cwd session.uid session.gid 0o755) _
          ⟨rfl, rfl⟩
  | rmdir =>
      exact on_path_proceeds fun path =>
        @attempt_proceeds session (.rmdir path session.cwd session.uid session.gid) _ ⟨rfl, rfl⟩
  | rm =>
      exact on_path_proceeds fun path =>
        @attempt_proceeds session (.unlink path session.cwd session.uid session.gid) _ ⟨rfl, rfl⟩
  | touch =>
      exact on_path_proceeds fun path =>
        @attempt_proceeds session (.touch path session.cwd session.uid session.gid) _ ⟨rfl, rfl⟩
  | write =>
      exact on_path_proceeds fun path =>
        @attempt_proceeds session (.write path session.cwd (skipWords isBlank 2 line) session.uid
          session.gid) _ ⟨rfl, rfl⟩
  | append => exact on_path_proceeds fun path => append_to_proceeds path _
  | halt => exact ⟨.inl rfl, .inl ⟨rfl, rfl⟩⟩
  | _ => exact proceeds_refl

theorem execute_proceeds (reports : Reports) (line : Bytes) :
    Proceeds session (execute reports session line).1 := by
  unfold execute
  split_ifs
  · exact proceeds_refl
  · split
    · exact proceeds_refl
    · split
      · exact perform_proceeds reports line _ _
      · exact proceeds_refl

end

/-- The filesystem has come through operations of users of the table, at most
so many, and the session acts for one of them. -/
structure RunByUsers (hello : Bytes) (bound : Nat) (session : Session) : Prop where
  files : ∃ operations : List Operation, operations.length ≤ bound ∧
    session.fs = (fsSystem hello).runFrom (fsSystem hello).init operations ∧
    ∀ operation ∈ operations, ∃ user ∈ users, MadeBy user.uid user.gid (.change operation)
  user : ActsForUser session

theorem run_by_users_new (hello : Bytes) : RunByUsers hello 0 (Session.new (RamFs.init hello)) where
  files := ⟨[], le_rfl, rfl, nofun⟩
  user := by
    obtain ⟨user, member, number, group⟩ :
        ∃ user ∈ users, lookupByUid 0 = some user ∧ 0 = user.gid := by
      decide +kernel
    exact ⟨user, member, number, group⟩

theorem run_by_users_step {hello : Bytes} {bound : Nat} {session after : Session}
    (kept : RunByUsers hello bound session) (proceeds : Proceeds session after) :
    RunByUsers hello (bound + 1) after where
  files := by
    obtain ⟨operations, short, reached, made⟩ := kept.files
    rcases proceeds.files with same | ⟨operation, makes, moved⟩
    · exact ⟨operations, Nat.le_succ_of_le short, same.trans reached, made⟩
    · obtain ⟨user, member, number, group⟩ := kept.user
      have uid : user.uid = session.uid := by
        simpa using List.find?_some number
      refine ⟨operations ++ [operation], ?_, ?_, ?_⟩
      · simpa using short
      · rw [EventSystem.run_from_append, ← reached]
        exact moved
      · intro other listed
        rcases List.mem_append.mp listed with earlier | last
        · exact made other earlier
        · rw [List.mem_singleton.mp last]
          exact ⟨user, member, uid.symm ▸ group ▸ makes⟩
  user := by
    rcases proceeds.user with ⟨uid, gid⟩ | found
    · unfold ActsForUser
      rw [uid, gid]
      exact kept.user
    · exact found

/-- At every prompt the filesystem is one that its own operations lead to, at
most one for each line and each made for a user of the table, and the prompt
shows such a user. -/
theorem sessions_run_filesystem (reports : Reports) (hello : Bytes) (lines : List Bytes) :
    RunByUsers hello lines.length
      ((shellSystem reports hello).runFrom (shellSystem reports hello).init lines) := by
  induction lines using List.reverseRecOn with
  | nil => exact run_by_users_new hello
  | append_singleton lines line ih =>
      rw [EventSystem.run_from_append, List.length_append]
      exact run_by_users_step ih (execute_proceeds reports line)

end Ferrugem.ShellRuns
