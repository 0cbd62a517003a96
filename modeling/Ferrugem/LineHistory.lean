import Mathlib.Data.List.Induction
import Ferrugem.Library.AsciiText
import Ferrugem.Library.RecencyRing
import Ferrugem.VgaConsole

/-!
# The shell's line editor and its history

`read_line`, `LineBuffer` and `History` of `shell/mod.rs`. The ring keeps the
last 16 commands; `nav` says which of them the buffer shows, with -1 for the
line that is being typed, of which a copy is saved on the way to the history. The
keys come decoded: `read_key` is left out, and so is what a command does once
its line has been entered. Everything an editor prints is recorded.
-/

namespace Ferrugem.LineHistory

set_option autoImplicit false

def maxCmd : Nat := 256

def histDepth : Nat := 16

/-- A `[u8; MAX_CMD]`. -/
abbrev Buffer := Fin maxCmd → UInt8

def zeroed : Buffer := fun _ => 0

/-- `&data[..len]`. -/
def slice (data : Buffer) (len : Nat) : List UInt8 := (List.ofFn data).take len

/-- `data[..source.len()].copy_from_slice(source)`. -/
def copyFromSlice (data : Buffer) (source : List UInt8) : Buffer :=
  fun i => source[i.val]?.getD (data i)

/-- `core::str::from_utf8(bytes).unwrap_or("")`. -/
def fromUtf8 (bytes : List UInt8) : List UInt8 :=
  if (ByteArray.mk bytes.toArray).validateUTF8 then bytes else []

structure History where
  bufs : Fin histDepth → Buffer
  lens : Fin histDepth → Nat
  head : Fin histDepth
  count : Nat
  bound : count ≤ histDepth

namespace History

def new : History where
  bufs := fun _ => zeroed
  lens := fun _ => 0
  head := ⟨0, by decide⟩
  count := 0
  bound := Nat.zero_le _

def push (history : History) (data : List UInt8) : History :=
  if data = [] then history
  else
    let len := min data.length maxCmd
    { bufs := Function.update history.bufs history.head
        (copyFromSlice (history.bufs history.head) (data.take len))
      lens := Function.update history.lens history.head len
      head := ⟨(history.head.val + 1) % histDepth, Nat.mod_lt _ history.head.pos⟩
      count := if history.count < histDepth then history.count + 1 else history.count
      bound := by
        have bound := history.bound
        split_ifs <;> omega }

def get (history : History) (offset : Nat) : Option (Buffer × Nat) :=
  if history.count ≤ offset then none
  else
    let idx : Fin histDepth :=
      ⟨(history.head.val + histDepth - 1 - offset) % histDepth, Nat.mod_lt _ history.head.pos⟩
    some (history.bufs idx, history.lens idx)

def entry (history : History) (offset : Nat) : Option (List UInt8) :=
  (history.get offset).map fun found => slice found.1 found.2

end History

structure LineBuffer where
  data : Buffer
  len : Nat
  fits : len < maxCmd

namespace LineBuffer

def new : LineBuffer where
  data := zeroed
  len := 0
  fits := by decide

def push (buf : LineBuffer) (b : UInt8) : LineBuffer × Bool :=
  if room : buf.len < maxCmd - 1 then
    ({ data := Function.update buf.data ⟨buf.len, buf.fits⟩ b
       len := buf.len + 1
       fits := Nat.add_lt_of_lt_sub room }, true)
  else (buf, false)

def backspace (buf : LineBuffer) : LineBuffer × Bool :=
  if 0 < buf.len then
    ({ buf with len := buf.len - 1, fits := Nat.lt_of_le_of_lt (Nat.sub_le _ _) buf.fits }, true)
  else (buf, false)

def asBytes (buf : LineBuffer) : List UInt8 := slice buf.data buf.len

def asStr (buf : LineBuffer) : List UInt8 := fromUtf8 buf.asBytes

def isEmpty (buf : LineBuffer) : Bool := buf.len == 0

def load (buf : LineBuffer) (data : Buffer) (len : Nat) : LineBuffer where
  data := copyFromSlice buf.data (slice data (min len (maxCmd - 1)))
  len := min len (maxCmd - 1)
  fits := Nat.lt_of_le_of_lt (Nat.min_le_right _ _) (by decide)

def cloneCopy (buf : LineBuffer) : LineBuffer where
  data := copyFromSlice zeroed (slice buf.data buf.len)
  len := buf.len
  fits := buf.fits

end LineBuffer

inductive Key where
  | char (c : UInt8)
  | enter
  | backspace
  | up
  | down
  | left
  | right
  | esc
  | interrupt
  deriving DecidableEq

/-- The locals of `read_line` and what it has printed. -/
structure Editor where
  buf : LineBuffer
  saved : LineBuffer
  nav : Int
  printed : List UInt8

def Editor.new : Editor where
  buf := LineBuffer.new
  saved := LineBuffer.new
  nav := -1
  printed := []

/-- `print_str("\x08 \x08")`. -/
def rubOut : List UInt8 := [0x08, 0x20, 0x08]

def eraseChars (n : Nat) : List UInt8 := (List.replicate n rubOut).flatten

def printable (c : UInt8) : Bool := 32 ≤ c && c ≤ 126

namespace Editor

def print (editor : Editor) (bytes : List UInt8) : Editor :=
  { editor with printed := editor.printed ++ bytes }

/-- The common part of the arrow keys: the entry replaces the line. -/
def loadEntry (editor : Editor) (found : Buffer × Nat) (next : Int) : Editor :=
  let erased := editor.print (eraseChars editor.buf.len)
  let loaded := { erased with buf := editor.buf.load found.1 found.2 }
  { loaded.print loaded.buf.asStr with nav := next }

def keyUp (history : History) (editor : Editor) : Editor :=
  let next := if editor.nav < 0 then 0 else editor.nav + 1
  match history.get next.toNat with
  | some found =>
      let kept :=
        if editor.nav < 0 then { editor with saved := editor.buf.cloneCopy } else editor
      kept.loadEntry found next
  | none => editor

def keyDown (history : History) (editor : Editor) : Editor :=
  if 0 < editor.nav then
    let next := editor.nav - 1
    match history.get next.toNat with
    | some found => editor.loadEntry found next
    | none => editor
  else if editor.nav = 0 then
    let erased := editor.print (eraseChars editor.buf.len)
    let restored := { erased with buf := editor.saved, saved := LineBuffer.new }
    { restored.print restored.buf.asStr with nav := -1 }
  else editor

def keyBackspace (editor : Editor) : Editor :=
  let result := editor.buf.backspace
  let edited := { editor with buf := result.1, nav := -1 }
  if result.2 then edited.print rubOut else edited

def keyChar (editor : Editor) (c : UInt8) : Editor :=
  let result := editor.buf.push c
  let edited := { editor with buf := result.1, nav := -1 }
  if result.2 then edited.print (fromUtf8 [c]) else edited

def press (history : History) (editor : Editor) : Key → Editor
  | .backspace => editor.keyBackspace
  | .char c => if printable c then editor.keyChar c else editor
  | .up => editor.keyUp history
  | .down => editor.keyDown history
  | .enter | .left | .right | .esc | .interrupt => editor

end Editor

inductive Reading where
  | waiting (editor : Editor)
  | returned (line : LineBuffer) (printed : List UInt8)

/-- The loop of `read_line` for the keys pressed so far. -/
def readLoop (history : History) : Editor → List Key → Reading
  | editor, [] => .waiting editor
  | editor, .enter :: _ => .returned editor.buf (editor.printed ++ [0x0A])
  | editor, .interrupt :: _ => .returned LineBuffer.new (editor.printed ++ [0x5E, 0x43, 0x0A])
  | editor, key :: rest => readLoop history (editor.press history key) rest

def readLine (history : History) (keys : List Key) : Reading :=
  readLoop history Editor.new keys

theorem length_slice (data : Buffer) {len : Nat} (fits : len ≤ maxCmd) :
    (slice data len).length = len := by
  simp [slice, fits]

theorem slice_get (data : Buffer) {len i : Nat} (inside : i < len) (bound : i < maxCmd) :
    (slice data len)[i]? = some (data ⟨i, bound⟩) := by
  rw [slice, List.getElem?_take_of_lt inside, List.getElem?_ofFn, dif_pos bound]

theorem slice_ext {data : Buffer} {bytes : List UInt8} (fits : bytes.length ≤ maxCmd)
    (same : ∀ i (bound : i < maxCmd), i < bytes.length → some (data ⟨i, bound⟩) = bytes[i]?) :
    slice data bytes.length = bytes := by
  apply List.ext_getElem?
  intro i
  rcases Nat.lt_or_ge i bytes.length with inside | outside
  · have bound : i < maxCmd := Nat.lt_of_lt_of_le inside fits
    rw [slice_get data inside bound, same i bound inside]
  · rw [List.getElem?_eq_none outside, List.getElem?_eq_none]
    rw [length_slice data fits]
    exact outside

theorem slice_copy (data : Buffer) {source : List UInt8} (fits : source.length ≤ maxCmd) :
    slice (copyFromSlice data source) source.length = source := by
  apply slice_ext fits
  intro i bound inside
  simp [copyFromSlice, List.getElem?_eq_getElem inside]

theorem slice_push (data : Buffer) {len : Nat} (fits : len < maxCmd) (b : UInt8) :
    slice (Function.update data ⟨len, fits⟩ b) (len + 1) = slice data len ++ [b] := by
  have before : (slice data len).length = len := length_slice data (Nat.le_of_lt fits)
  have long : (slice data len ++ [b]).length = len + 1 := by
    rw [List.length_append, before]
    rfl
  rw [← long]
  apply slice_ext (by omega)
  intro i bound inside
  rcases Nat.eq_or_lt_of_le (Nat.le_of_lt_succ (long ▸ inside)) with last | earlier
  · subst last
    rw [Function.update_self, List.getElem?_append_right (by omega), before, Nat.sub_self]
    rfl
  · have apart : (⟨i, bound⟩ : Fin maxCmd) ≠ ⟨len, fits⟩ := by
      intro same
      exact Nat.ne_of_lt earlier (congrArg Fin.val same)
    rw [Function.update_of_ne apart, List.getElem?_append_left (by omega)]
    exact (slice_get data earlier bound).symm

namespace LineBuffer

variable (buf : LineBuffer)

theorem length_as_bytes : buf.asBytes.length = buf.len :=
  length_slice buf.data (Nat.le_of_lt buf.fits)

theorem push_bytes (b : UInt8) :
    (buf.push b).1.asBytes =
      if buf.asBytes.length < maxCmd - 1 then buf.asBytes ++ [b] else buf.asBytes := by
  rw [length_as_bytes, push]
  split_ifs with room
  · exact slice_push buf.data buf.fits b
  · rfl

theorem push_room (b : UInt8) : (buf.push b).2 = decide (buf.asBytes.length < maxCmd - 1) := by
  rw [length_as_bytes, push]
  split_ifs with room
  · exact (decide_eq_true room).symm
  · exact (decide_eq_false room).symm

theorem backspace_bytes : buf.backspace.1.asBytes = buf.asBytes.dropLast := by
  rw [List.dropLast_eq_take, length_as_bytes, backspace]
  split_ifs with some_left
  · rw [asBytes, asBytes, slice, slice, List.take_take, Nat.min_eq_left (Nat.sub_le _ _)]
  · have none_left : buf.len = 0 := Nat.eq_zero_of_not_pos some_left
    simp [asBytes, slice, none_left]

theorem backspace_some : buf.backspace.2 = decide (buf.asBytes ≠ []) := by
  have length := buf.length_as_bytes
  rw [backspace]
  split_ifs with some_left
  · have filled : buf.asBytes ≠ [] := by
      intro empty
      rw [empty] at length
      exact Nat.ne_of_lt some_left length
    exact (decide_eq_true filled).symm
  · have empty : buf.asBytes = [] := by
      apply List.eq_nil_of_length_eq_zero
      omega
    exact (decide_eq_false (not_not_intro empty)).symm

theorem load_bytes {data : Buffer} {len : Nat} (short : (slice data len).length < maxCmd) :
    (buf.load data len).asBytes = slice data len := by
  have length : len = (slice data len).length := by
    simp only [slice, List.length_take, List.length_ofFn] at short ⊢
    omega
  have room : min len (maxCmd - 1) = len := by
    have bound : len ≤ maxCmd - 1 := by omega
    exact Nat.min_eq_left bound
  have copied := slice_copy buf.data (Nat.le_of_lt short)
  rw [← length] at copied
  rw [asBytes, load]
  simp only [room]
  exact copied

theorem clone_bytes : buf.cloneCopy.asBytes = buf.asBytes := by
  have fits : buf.asBytes.length ≤ maxCmd := by
    rw [length_as_bytes]
    exact Nat.le_of_lt buf.fits
  have copied := slice_copy zeroed fits
  rw [length_as_bytes] at copied
  exact copied

end LineBuffer

def Typed (bytes : List UInt8) : Prop := ∀ b ∈ bytes, printable b = true

theorem printable_small {b : UInt8} (shown : printable b = true) : b.toNat < 128 := by
  simp only [printable, Bool.and_eq_true, decide_eq_true_eq, UInt8.le_iff_toNat_le] at shown
  have bound : b.toNat ≤ 126 := shown.2
  omega

theorem typed_utf8 {bytes : List UInt8} (typed : Typed bytes) : fromUtf8 bytes = bytes :=
  if_pos (AsciiText.valid_utf8 fun b member => printable_small (typed b member))

/-- A line as `read_line` returns it. -/
structure CommandLine where
  bytes : List UInt8
  short : bytes.length < maxCmd
  typed : Typed bytes

def pushAll (lines : List CommandLine) : History :=
  lines.foldl (fun history line => history.push line.bytes) History.new

/-- The lines that are not empty, the most recent first. -/
def recentLines (lines : List CommandLine) : List (List UInt8) :=
  ((lines.map CommandLine.bytes).filter fun bytes => bytes != []).reverse

def History.ring (history : History) : RecencyRing (List UInt8) histDepth where
  cells := fun idx => slice (history.bufs idx) (history.lens idx)
  head := history.head
  count := history.count
  bound := history.bound

theorem entry_ring (history : History) (offset : Nat) :
    history.entry offset = history.ring.get offset := by
  unfold History.entry History.get RecencyRing.get
  change Option.map _ (if history.count ≤ offset then none else _) =
    if history.count ≤ offset then none else _
  split_ifs <;> rfl

theorem push_ring (history : History) {data : List UInt8} (filled : data ≠ []) :
    (history.push data).ring = history.ring.push (data.take maxCmd) := by
  have length : (data.take (min data.length maxCmd)).length = min data.length maxCmd := by
    rw [List.length_take]
    omega
  have stored : data.take (min data.length maxCmd) = data.take maxCmd := by
    rw [List.take_eq_take_iff]
    omega
  have copied := slice_copy (history.bufs history.head)
    (length.trans_le (Nat.min_le_right _ _))
  rw [length] at copied
  have cells : (history.push data).ring.cells = (history.ring.push (data.take maxCmd)).cells := by
    funext idx
    simp only [History.push, if_neg filled, History.ring, RecencyRing.push, Function.update_apply]
    split_ifs
    · rw [copied, stored]
    · rfl
  rw [History.push, if_neg filled] at cells ⊢
  exact congrArg (fun cells => { history.ring.push (data.take maxCmd) with cells := cells }) cells

theorem recent_append (lines : List CommandLine) (line : CommandLine) :
    recentLines (lines ++ [line]) =
      if line.bytes = [] then recentLines lines else line.bytes :: recentLines lines := by
  rw [recentLines, List.map_append, List.filter_append, List.reverse_append]
  split_ifs with empty <;> simp [empty, recentLines]

theorem push_all_append (lines : List CommandLine) (line : CommandLine) :
    pushAll (lines ++ [line]) = (pushAll lines).push line.bytes := by
  rw [pushAll, List.foldl_append]
  rfl

theorem pushed_holds (lines : List CommandLine) :
    (pushAll lines).ring.Holds (recentLines lines) := by
  induction lines using List.reverseRecOn with
  | nil => exact RecencyRing.holds_empty rfl
  | append_singleton lines line ih =>
      rw [push_all_append, recent_append]
      split_ifs with empty
      · rw [empty, History.push, if_pos rfl]
        exact ih
      · rw [push_ring _ empty, List.take_of_length_le (Nat.le_of_lt line.short)]
        exact ih.push line.bytes

theorem pushed_entry (lines : List CommandLine) (offset : Nat) :
    (pushAll lines).entry offset = ((recentLines lines).take histDepth)[offset]? := by
  rw [entry_ring]
  exact pushed_holds lines offset

theorem recent_command {lines : List CommandLine} {bytes : List UInt8}
    (member : bytes ∈ recentLines lines) : bytes.length < maxCmd ∧ Typed bytes := by
  have held := (List.mem_filter.mp (List.mem_reverse.mp member)).1
  obtain ⟨line, -, same⟩ := List.mem_map.mp held
  rw [← same]
  exact ⟨line.short, line.typed⟩

end Ferrugem.LineHistory
