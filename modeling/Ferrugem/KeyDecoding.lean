import Ferrugem.LineHistory

/-!
# The keys in the input of the shell

`read_key` of `shell/mod.rs` reads a byte and, after an escape, up to two more,
for each of which it waits 200 000 turns of a loop. Its input here is a sequence
of bytes and of silences that outlast such a wait. `Written` says without the
reader which keys an input stands for; the reader finds exactly these.
-/

namespace Ferrugem.KeyDecoding

open Ferrugem.LineHistory

set_option autoImplicit false

inductive Arrival where
  | byte (b : UInt8)
  | silence
  deriving DecidableEq

def arrowKey (b : UInt8) : Key :=
  if b = 0x41 then .up
  else if b = 0x42 then .down
  else if b = 0x43 then .right
  else if b = 0x44 then .left
  else .esc

/-- The second `read_char_timeout`. -/
def afterBracket : List Arrival → Option (Key × List Arrival)
  | [] => none
  | .silence :: rest => some (.esc, rest)
  | .byte b :: rest => some (arrowKey b, rest)

/-- The first `read_char_timeout`. -/
def afterEscape : List Arrival → Option (Key × List Arrival)
  | [] => none
  | .silence :: rest => some (.esc, rest)
  | .byte b :: rest => if b = 0x5B then afterBracket rest else some (.esc, rest)

/-- `read_key` with what it leaves unread; `none` while it waits. -/
def readKey : List Arrival → Option (Key × List Arrival)
  | [] => none
  | .silence :: rest => readKey rest
  | .byte c :: rest =>
      if c = 0x0A ∨ c = 0x0D then some (.enter, rest)
      else if c = 0x08 ∨ c = 0x7F then some (.backspace, rest)
      else if c = 0x03 then some (.interrupt, rest)
      else if c = 0x1B then afterEscape rest
      else some (.char c, rest)

theorem after_bracket_shorter {arrivals rest : List Arrival} {key : Key}
    (read : afterBracket arrivals = some (key, rest)) : rest.length < arrivals.length := by
  cases arrivals with
  | nil => exact nomatch read
  | cons first others =>
      cases first <;> cases read <;> exact Nat.lt_succ_self _

theorem after_escape_shorter {arrivals rest : List Arrival} {key : Key}
    (read : afterEscape arrivals = some (key, rest)) : rest.length < arrivals.length := by
  cases arrivals with
  | nil => exact nomatch read
  | cons first others =>
      cases first with
      | silence =>
          cases read
          exact Nat.lt_succ_self _
      | byte b =>
          rw [afterEscape] at read
          split_ifs at read
          · exact Nat.lt_succ_of_lt (after_bracket_shorter read)
          · cases read
            exact Nat.lt_succ_self _

theorem read_key_shorter {arrivals rest : List Arrival} {key : Key}
    (read : readKey arrivals = some (key, rest)) : rest.length < arrivals.length := by
  induction arrivals with
  | nil => exact nomatch read
  | cons first others ih =>
      cases first with
      | silence => exact Nat.lt_succ_of_lt (ih read)
      | byte c =>
          rw [readKey] at read
          split_ifs at read
          · cases read
            exact Nat.lt_succ_self _
          · cases read
            exact Nat.lt_succ_self _
          · cases read
            exact Nat.lt_succ_self _
          · exact Nat.lt_succ_of_lt (after_escape_shorter read)
          · cases read
            exact Nat.lt_succ_self _

/-- The keys that one call of `read_key` after the other returns. -/
def readKeys (arrivals : List Arrival) : List Key :=
  match _ : readKey arrivals with
  | none => []
  | some (key, rest) => key :: readKeys rest
termination_by arrivals.length
decreasing_by exact read_key_shorter (by assumption)

theorem read_keys_none {arrivals : List Arrival} (read : readKey arrivals = none) :
    readKeys arrivals = [] := by
  rw [readKeys]
  split
  · rfl
  · rename_i same
    exact nomatch read.symm.trans same

theorem read_keys_some {arrivals rest : List Arrival} {key : Key}
    (read : readKey arrivals = some (key, rest)) : readKeys arrivals = key :: readKeys rest := by
  rw [readKeys]
  split
  · rename_i same
    exact nomatch read.symm.trans same
  · rename_i same
    cases read.symm.trans same
    rfl

def controls : List UInt8 := [0x0A, 0x0D, 0x08, 0x7F, 0x03, 0x1B]

def arrowEnds : List UInt8 := [0x41, 0x42, 0x43, 0x44]

/-- The ways to write a key. A byte behind an escape is lost unless it ends the
sequence of an arrow. -/
inductive Writes : Key → List Arrival → Prop where
  | lineFeed : Writes .enter [.byte 0x0A]
  | carriageReturn : Writes .enter [.byte 0x0D]
  | backspace : Writes .backspace [.byte 0x08]
  | delete : Writes .backspace [.byte 0x7F]
  | interrupt : Writes .interrupt [.byte 0x03]
  | char {c : UInt8} (plain : c ∉ controls) : Writes (.char c) [.byte c]
  | up : Writes .up [.byte 0x1B, .byte 0x5B, .byte 0x41]
  | down : Writes .down [.byte 0x1B, .byte 0x5B, .byte 0x42]
  | right : Writes .right [.byte 0x1B, .byte 0x5B, .byte 0x43]
  | left : Writes .left [.byte 0x1B, .byte 0x5B, .byte 0x44]
  | unknown {b : UInt8} (noArrow : b ∉ arrowEnds) :
      Writes .esc [.byte 0x1B, .byte 0x5B, .byte b]
  | escape : Writes .esc [.byte 0x1B, .silence]
  | bracket : Writes .esc [.byte 0x1B, .byte 0x5B, .silence]
  | other {b : UInt8} (noBracket : b ≠ 0x5B) : Writes .esc [.byte 0x1B, .byte b]

/-- An input as keys, with silences between them and perhaps the beginning of a
sequence at its end. -/
inductive Written : List Key → List Arrival → Prop where
  | nothing : Written [] []
  | escape : Written [] [.byte 0x1B]
  | bracket : Written [] [.byte 0x1B, .byte 0x5B]
  | silence {keys : List Key} {rest : List Arrival} (written : Written keys rest) :
      Written keys (.silence :: rest)
  | key {key : Key} {piece : List Arrival} {keys : List Key} {rest : List Arrival}
      (writes : Writes key piece) (written : Written keys rest) :
      Written (key :: keys) (piece ++ rest)

theorem writes_read {key : Key} {piece : List Arrival} (writes : Writes key piece)
    (rest : List Arrival) : readKey (piece ++ rest) = some (key, rest) := by
  cases writes with
  | @char c plain =>
      simp only [controls, List.mem_cons, List.not_mem_nil, or_false, not_or] at plain
      simp [readKey, plain]
  | @other b noBracket => simp [readKey, afterEscape, noBracket]
  | @unknown b noArrow =>
      simp only [arrowEnds, List.mem_cons, List.not_mem_nil, or_false, not_or] at noArrow
      simp [readKey, afterEscape, afterBracket, arrowKey, noArrow]
  | _ => rfl

theorem written_read {keys : List Key} {arrivals : List Arrival}
    (written : Written keys arrivals) : readKeys arrivals = keys := by
  induction written with
  | nothing => exact read_keys_none rfl
  | escape => exact read_keys_none rfl
  | bracket => exact read_keys_none rfl
  | @silence keys rest written ih =>
      cases read : readKey rest with
      | none =>
          rw [read_keys_none (show readKey (.silence :: rest) = none from read), ← ih,
            read_keys_none read]
      | some found =>
          rw [read_keys_some (show readKey (.silence :: rest) = some found from read), ← ih,
            read_keys_some read]
  | key writes written ih => rw [read_keys_some (writes_read writes _), ih]

theorem arrow_writes (b : UInt8) : Writes (arrowKey b) [.byte 0x1B, .byte 0x5B, .byte b] := by
  unfold arrowKey
  split_ifs with up down right left
  · rw [up]
    exact .up
  · rw [down]
    exact .down
  · rw [right]
    exact .right
  · rw [left]
    exact .left
  · apply Writes.unknown
    simp [arrowEnds, up, down, right, left]

theorem escape_writes {key : Key} {arrivals rest : List Arrival}
    (read : afterEscape arrivals = some (key, rest)) :
    ∃ piece, Writes key (.byte 0x1B :: piece) ∧ arrivals = piece ++ rest := by
  cases arrivals with
  | nil => exact nomatch read
  | cons first others =>
      cases first with
      | silence =>
          cases read
          exact ⟨[.silence], .escape, rfl⟩
      | byte b =>
          rw [afterEscape] at read
          split_ifs at read with bracket
          · subst bracket
            cases others with
            | nil => exact nomatch read
            | cons second behind =>
                cases second with
                | silence =>
                    cases read
                    exact ⟨[.byte 0x5B, .silence], .bracket, rfl⟩
                | byte last =>
                    cases read
                    exact ⟨[.byte 0x5B, .byte last], arrow_writes last, rfl⟩
          · cases read
            exact ⟨[.byte b], .other bracket, rfl⟩

theorem read_writes {key : Key} {arrivals rest : List Arrival}
    (read : readKey arrivals = some (key, rest)) :
    ∃ n piece, Writes key piece ∧ arrivals = List.replicate n .silence ++ (piece ++ rest) := by
  induction arrivals with
  | nil => exact nomatch read
  | cons first others ih =>
      cases first with
      | silence =>
          obtain ⟨n, piece, writes, shape⟩ := ih read
          exact ⟨n + 1, piece, writes, congrArg (List.cons Arrival.silence) shape⟩
      | byte c =>
          rw [readKey] at read
          split_ifs at read with enter backspace interrupt escape
          · cases read
            rcases enter with rfl | rfl
            · exact ⟨0, _, .lineFeed, rfl⟩
            · exact ⟨0, _, .carriageReturn, rfl⟩
          · cases read
            rcases backspace with rfl | rfl
            · exact ⟨0, _, .backspace, rfl⟩
            · exact ⟨0, _, .delete, rfl⟩
          · cases read
            subst interrupt
            exact ⟨0, _, .interrupt, rfl⟩
          · subst escape
            obtain ⟨piece, writes, rfl⟩ := escape_writes read
            exact ⟨0, _, writes, rfl⟩
          · cases read
            refine ⟨0, _, .char ?_, rfl⟩
            simp only [controls, List.mem_cons, List.not_mem_nil, or_false]
            tauto

theorem escape_waits {arrivals : List Arrival} (waits : afterEscape arrivals = none) :
    arrivals = [] ∨ arrivals = [.byte 0x5B] := by
  cases arrivals with
  | nil => exact .inl rfl
  | cons first others =>
      cases first with
      | silence => exact nomatch waits
      | byte b =>
          rw [afterEscape] at waits
          split_ifs at waits with bracket
          cases others with
          | nil => exact .inr (by rw [bracket])
          | cons second behind => cases second <;> exact nomatch waits

theorem waiting_written {arrivals : List Arrival} (waits : readKey arrivals = none) :
    Written [] arrivals := by
  induction arrivals with
  | nil => exact .nothing
  | cons first others ih =>
      cases first with
      | silence => exact (ih waits).silence
      | byte c =>
          rw [readKey] at waits
          split_ifs at waits with enter backspace interrupt escape
          subst escape
          cases escape_waits waits with
          | inl bare =>
              rw [bare]
              exact .escape
          | inr opened =>
              rw [opened]
              exact .bracket

theorem Written.silences {keys : List Key} {rest : List Arrival} (written : Written keys rest)
    (n : Nat) : Written keys (List.replicate n .silence ++ rest) := by
  induction n with
  | zero => exact written
  | succ n ih => exact ih.silence

theorem read_written (arrivals : List Arrival) : Written (readKeys arrivals) arrivals := by
  cases read : readKey arrivals with
  | none =>
      rw [read_keys_none read]
      exact waiting_written read
  | some found =>
      obtain ⟨key, rest⟩ := found
      obtain ⟨n, piece, writes, shape⟩ := read_writes read
      have shorter := read_key_shorter read
      rw [read_keys_some read, shape]
      exact ((read_written rest).key writes).silences n
termination_by arrivals.length

/-- The shell reads exactly the keys that its input stands for, of every input. -/
theorem read_keys_iff (arrivals : List Arrival) (keys : List Key) :
    readKeys arrivals = keys ↔ Written keys arrivals := by
  constructor
  · intro read
    rw [← read]
    exact read_written arrivals
  · exact written_read

end Ferrugem.KeyDecoding
