import Mathlib.Data.List.Basic
import Mathlib.Order.Basic
import Mathlib.Tactic.SplitIfs
import Ferrugem.Library.TextScreens

/-!
# The VGA console

The text console of the two PC boards, `boards/qemu_pc/console.rs` and
`boards/virtualbox/console.rs`, which are the same. Video memory is an array of
words without an end, as raw pointer arithmetic sees it, and every access to it
is recorded. A printed byte is mirrored to COM1; the wait for its transmit
register is left out. From `clear()` on the console is a `TextScreen` of 25
rows and 80 columns, whose cursor cannot leave the grid, so every access stays
on the screen.
-/

namespace Ferrugem.VgaConsole

set_option autoImplicit false

def com1 : Nat := 0x3F8

def width : Nat := 80

def height : Nat := 25

def attr : UInt16 := 0x0700

def crtcAddr : Nat := 0x3D4

def crtcData : Nat := 0x3D5

/-- `ATTR | b as u16`. -/
def glyph (b : UInt8) : UInt16 := attr ||| b.toUInt16

def blank : UInt16 := glyph 0x20

/-- Video memory, `COL` and `ROW`, the places read or written so far and the
bytes sent to I/O ports, the latest first. -/
structure Console where
  vga : Nat → UInt16
  col : Nat
  row : Nat
  accesses : List Nat
  ports : List (Nat × UInt8)

/-- The machine before `clear()`. -/
def powerOn (vga : Nat → UInt16) (col row : Nat) : Console where
  vga := vga
  col := col
  row := row
  accesses := []
  ports := []

namespace Console

def readVolatile (console : Console) (off : Nat) : UInt16 × Console :=
  (console.vga off, { console with accesses := off :: console.accesses })

def writeVolatile (console : Console) (off : Nat) (value : UInt16) : Console :=
  { console with
    vga := Function.update console.vga off value
    accesses := off :: console.accesses }

def outb (console : Console) (port : Nat) (value : UInt8) : Console :=
  { console with ports := (port, value) :: console.ports }

def serialWriteByte (console : Console) (b : UInt8) : Console :=
  console.outb com1 b

def updateCursor (console : Console) (pos : Nat) : Console :=
  let p := UInt16.ofNat pos
  (((console.outb crtcAddr 0x0F).outb crtcData (p &&& 0xFF).toUInt8).outb crtcAddr 0x0E).outb
    crtcData ((p >>> 8) &&& 0xFF).toUInt8

def clear (console : Console) : Console :=
  let blanked := (List.range (width * height)).foldl
    (fun console i => console.writeVolatile i blank) console
  { blanked with col := 0, row := 0 }.updateCursor 0

/-- One round of the inner loop of `scroll`. -/
def copyUp (row : Nat) (console : Console) (col : Nat) : Console :=
  let src := console.readVolatile (row * width + col)
  src.2.writeVolatile ((row - 1) * width + col) src.1

def scroll (console : Console) : Console :=
  let moved := (List.range' 1 (height - 1)).foldl
    (fun console row => (List.range width).foldl (copyUp row) console) console
  (List.range width).foldl
    (fun console col => console.writeVolatile ((height - 1) * width + col) blank) moved

def newline (console : Console) : Console :=
  let next := { console with col := 0, row := console.row + 1 }
  if height ≤ next.row then { next.scroll with row := height - 1 } else next

def backspace (console : Console) : Console :=
  let moved :=
    if 0 < console.col then { console with col := console.col - 1 }
    else if 0 < console.row then { console with row := console.row - 1, col := width - 1 }
    else console
  moved.writeVolatile (moved.row * width + moved.col) blank

/-- The default branch of `print_byte`. -/
def putGlyph (console : Console) (b : UInt8) : Console :=
  let off := console.row * width + console.col
  let written := console.writeVolatile off (glyph b)
  let next := { written with col := written.col + 1 }
  if width ≤ next.col then next.newline else next

def printByte (console : Console) (b : UInt8) : Console :=
  let mirrored := (if b = 0x0A then console.serialWriteByte 0x0D else console).serialWriteByte b
  let printed :=
    if b = 0x0A then mirrored.newline
    else if b = 0x0D then { mirrored with col := 0 }
    else if b = 0x08 then mirrored.backspace
    else mirrored.putGlyph b
  printed.updateCursor (printed.row * width + printed.col)

/-- `print_str` of a string of these bytes. -/
def printBytes (console : Console) (bytes : List UInt8) : Console :=
  bytes.foldl printByte console

/-- What a helper may do that leaves cursor and ports alone: it touches only
places on the screen. -/
structure Within (first next : Console) : Prop where
  row : next.row = first.row
  col : next.col = first.col
  ports : next.ports = first.ports
  accesses : ∀ off ∈ next.accesses, off ∈ first.accesses ∨ off < height * width

theorem Within.refl (console : Console) : Within console console :=
  ⟨rfl, rfl, rfl, fun _ member => .inl member⟩

theorem Within.trans {first second third : Console} (before : Within first second)
    (after : Within second third) : Within first third := by
  refine ⟨after.row.trans before.row, after.col.trans before.col,
    after.ports.trans before.ports, ?_⟩
  intro off member
  rcases after.accesses off member with earlier | inside
  · exact before.accesses off earlier
  · exact .inr inside

theorem touch_within {first next : Console} {off : Nat} (inside : off < height * width)
    (row : next.row = first.row) (col : next.col = first.col) (ports : next.ports = first.ports)
    (accesses : next.accesses = off :: first.accesses) : Within first next := by
  refine ⟨row, col, ports, ?_⟩
  intro other member
  rw [accesses] at member
  rcases List.mem_cons.mp member with here | earlier
  · exact .inr (here ▸ inside)
  · exact .inl earlier

theorem write_within (console : Console) {off : Nat} (inside : off < height * width)
    (value : UInt16) : Within console (console.writeVolatile off value) :=
  touch_within inside rfl rfl rfl rfl

theorem read_within (console : Console) {off : Nat} (inside : off < height * width) :
    Within console (console.readVolatile off).2 :=
  touch_within inside rfl rfl rfl rfl

theorem foldl_within {operation : Console → Nat → Console} {places : List Nat}
    (step : ∀ console, ∀ i ∈ places, Within console (operation console i)) (console : Console) :
    Within console (places.foldl operation console) :=
  List.foldlRecOn places operation (Within.refl console)
    fun next within i member => within.trans (step next i member)

theorem write_vga (console : Console) (off : Nat) (value : UInt16) (position : Nat) :
    (console.writeVolatile off value).vga position =
      if position = off then value else console.vga position :=
  Function.update_apply console.vga off value position

theorem copy_up_vga (row : Nat) (console : Console) (col position : Nat) :
    (copyUp (row + 1) console col).vga position =
      if position = row * width + col then console.vga ((row + 1) * width + col)
      else console.vga position :=
  write_vga _ _ _ position

/-- Blanking places one after the other from `first` on. -/
theorem blank_places (console : Console) (first n position : Nat) :
    ((List.range n).foldl (fun console i => console.writeVolatile (first + i) blank)
        console).vga position =
      if first ≤ position ∧ position < first + n then blank else console.vga position := by
  induction n with
  | zero =>
      rw [if_neg (by omega)]
      rfl
  | succ n ih =>
      rw [List.range_succ, List.foldl_append, List.foldl_cons, List.foldl_nil, write_vga, ih]
      split_ifs <;> first | rfl | omega

theorem copy_up_row (console : Console) (row n position : Nat) (columns : n ≤ width) :
    ((List.range n).foldl (copyUp (row + 1)) console).vga position =
      if row * width ≤ position ∧ position < row * width + n then console.vga (position + width)
      else console.vga position := by
  have next : (row + 1) * width = row * width + width := Nat.succ_mul row width
  induction n generalizing position with
  | zero =>
      rw [if_neg (by omega)]
      rfl
  | succ n ih =>
      rw [List.range_succ, List.foldl_append, List.foldl_cons, List.foldl_nil, copy_up_vga,
        ih _ (by omega), ih _ (by omega), next]
      by_cases here : position = row * width + n
      · rw [if_pos here, if_neg (by omega), if_pos (by omega)]
        congr 1
        omega
      · rw [if_neg here]
        split_ifs <;> first | rfl | omega

/-- The first `n` rows, each copied from the one below. -/
theorem copy_up_rows (console : Console) (n position : Nat) :
    ((List.range' 1 n).foldl
        (fun console row => (List.range width).foldl (copyUp row) console) console).vga position =
      if position < n * width then console.vga (position + width) else console.vga position := by
  induction n generalizing position with
  | zero => simp
  | succ n ih =>
      have next : (n + 1) * width = n * width + width := Nat.succ_mul n width
      rw [List.range'_1_concat, List.foldl_append, List.foldl_cons, List.foldl_nil,
        Nat.add_comm 1 n, copy_up_row _ _ _ _ le_rfl, ih, ih, next]
      split_ifs <;> first | rfl | omega

theorem scroll_vga (console : Console) {position : Nat} (inside : position < height * width) :
    console.scroll.vga position =
      if position + width < height * width then console.vga (position + width) else blank := by
  have rows : (height - 1) * width + width = height * width := by decide
  rw [scroll, blank_places, copy_up_rows]
  split_ifs <;> first | rfl | omega

theorem scroll_within (console : Console) : Within console console.scroll := by
  have rows : (height - 1) * width + width = height * width := by decide
  refine Within.trans (foldl_within ?_ console) (foldl_within ?_ _)
  · intro before row member
    have range := List.mem_range'_1.mp member
    have above : (row - 1) * width + width = row * width := by
      rw [← Nat.succ_mul, Nat.succ_eq_add_one, Nat.sub_add_cancel range.1]
    have below : row * width + width ≤ height * width := by
      rw [← Nat.succ_mul]
      exact Nat.mul_le_mul_right width (by simp only [height] at range ⊢; omega)
    apply foldl_within
    intro console col column
    have bound := List.mem_range.mp column
    exact (read_within console (by omega)).trans (write_within _ (by omega) _)
  · intro before col column
    have bound := List.mem_range.mp column
    exact write_within before (by omega) blank

end Console

abbrev Screen := TextScreen height width UInt16

def clearScreen : Screen where
  cell := fun _ _ => blank
  row := ⟨0, by decide⟩
  col := ⟨0, by decide⟩

def printed (screen : Screen) (b : UInt8) : Screen :=
  if b = 0x0A then screen.lineFeed blank
  else if b = 0x0D then screen.home
  else if b = 0x08 then screen.erase blank
  else screen.write blank (glyph b)

/-- Video memory and cursor are those of the terminal, and every access so far
was on the screen. -/
structure Draws (console : Console) (screen : Screen) : Prop where
  row : console.row = screen.row.val
  col : console.col = screen.col.val
  cells : ∀ position, position < height * width →
    screen.read position = some (console.vga position)
  accesses : ∀ off ∈ console.accesses, off < height * width

namespace Draws

variable {console : Console} {screen : Screen}

theorem place (draws : Draws console screen) :
    console.row * width + console.col = screen.place := by
  rw [draws.row, draws.col, TextScreen.place]

theorem accesses_within {next : Console} (draws : Draws console screen)
    (within : Console.Within console next) : ∀ off ∈ next.accesses, off < height * width := by
  intro off member
  rcases within.accesses off member with earlier | inside
  · exact draws.accesses off earlier
  · exact inside

theorem outb (draws : Draws console screen) (port : Nat) (value : UInt8) :
    Draws (console.outb port value) screen :=
  ⟨draws.row, draws.col, draws.cells, draws.accesses⟩

theorem update_cursor (draws : Draws console screen) (pos : Nat) :
    Draws (console.updateCursor pos) screen :=
  (((draws.outb _ _).outb _ _).outb _ _).outb _ _

theorem put (draws : Draws console screen) (value : UInt16) :
    Draws (console.writeVolatile (console.row * width + console.col) value) (screen.put value) := by
  rw [draws.place]
  refine ⟨draws.row, draws.col, ?_,
    draws.accesses_within (Console.write_within console screen.place_lt value)⟩
  intro position inside
  rw [TextScreen.read_put, Console.write_vga]
  split_ifs
  · rfl
  · exact draws.cells position inside

theorem home (draws : Draws console screen) : Draws { console with col := 0 } screen.home :=
  ⟨draws.row, rfl, draws.cells, draws.accesses⟩

theorem newline (draws : Draws console screen) :
    Draws console.newline (screen.lineFeed blank) := by
  have row := draws.row
  unfold Console.newline TextScreen.lineFeed
  by_cases below : screen.row.val + 1 < height
  · rw [dif_pos below]
    dsimp only
    rw [if_neg (by omega)]
    exact ⟨congrArg (· + 1) row, rfl, draws.cells, draws.accesses⟩
  · rw [dif_neg below]
    dsimp only
    rw [if_pos (by omega)]
    have bound := screen.row.isLt
    have within := Console.scroll_within { console with col := 0, row := console.row + 1 }
    have moved := fun position (inside : position < height * width) =>
      Console.scroll_vga { console with col := 0, row := console.row + 1 } inside
    generalize Console.scroll { console with col := 0, row := console.row + 1 } = scrolled
      at within moved ⊢
    refine ⟨?_, within.col, ?_, ?_⟩
    · change height - 1 = screen.row.val
      omega
    · intro position inside
      refine (TextScreen.read_scroll_up blank screen inside).trans ?_
      rw [moved position inside]
      split_ifs with low
      · exact draws.cells _ low
      · rfl
    · intro off member
      exact (within.accesses off member).elim (draws.accesses off) id

theorem put_glyph (draws : Draws console screen) (b : UInt8) :
    Draws (console.putGlyph b) (screen.write blank (glyph b)) := by
  have written := draws.put (glyph b)
  have col := draws.col
  unfold Console.putGlyph TextScreen.write TextScreen.advance
  by_cases inside : (screen.put (glyph b)).col.val + 1 < width
  · rw [dif_pos inside]
    dsimp only
    rw [if_neg]
    · exact ⟨written.row, congrArg (· + 1) col, written.cells, written.accesses⟩
    · exact Nat.not_le.mpr (col ▸ inside)
  · rw [dif_neg inside]
    dsimp only
    rw [if_pos]
    · exact written.newline
    · exact Nat.not_lt.mp (col ▸ inside)

theorem backspace (draws : Draws console screen) :
    Draws console.backspace (screen.erase blank) := by
  have moved : Draws
      (if 0 < console.col then { console with col := console.col - 1 }
      else if 0 < console.row then { console with row := console.row - 1, col := width - 1 }
      else console) screen.back := by
    rw [draws.row, draws.col]
    unfold TextScreen.back
    split_ifs
    · exact ⟨rfl, rfl, draws.cells, draws.accesses⟩
    · exact ⟨rfl, rfl, draws.cells, draws.accesses⟩
    · exact draws
  exact moved.put blank

theorem print_byte (draws : Draws console screen) (b : UInt8) :
    Draws (console.printByte b) (printed screen b) := by
  have mirrored : Draws
      ((if b = 0x0A then console.serialWriteByte 0x0D else console).serialWriteByte b) screen := by
    split_ifs
    · exact (draws.outb _ _).outb _ _
    · exact draws.outb _ _
  unfold Console.printByte printed
  generalize (if b = 0x0A then console.serialWriteByte 0x0D else console).serialWriteByte b =
    mirror at mirrored ⊢
  apply update_cursor
  split_ifs
  · exact mirrored.newline
  · exact mirrored.home
  · exact mirrored.backspace
  · exact mirrored.put_glyph b

theorem print_bytes (draws : Draws console screen) (bytes : List UInt8) :
    Draws (console.printBytes bytes) (bytes.foldl printed screen) := by
  induction bytes generalizing console screen with
  | nil => exact draws
  | cons b rest ih => exact ih (draws.print_byte b)

end Draws

theorem clear_draws (vga : Nat → UInt16) (col row : Nat) :
    Draws (powerOn vga col row).clear clearScreen := by
  have within : Console.Within (powerOn vga col row)
      ((List.range (width * height)).foldl
        (fun console i => console.writeVolatile i blank) (powerOn vga col row)) := by
    apply Console.foldl_within
    intro console i member
    have inside : i < height * width :=
      Nat.lt_of_lt_of_eq (List.mem_range.mp member) (Nat.mul_comm _ _)
    exact Console.write_within console inside blank
  have blanked := Console.blank_places (powerOn vga col row) 0 (width * height)
  simp only [Nat.zero_add, Nat.zero_le, true_and] at blanked
  unfold Console.clear
  generalize (List.range (width * height)).foldl
    (fun console i => console.writeVolatile i blank) (powerOn vga col row) = cleared
      at within blanked ⊢
  apply Draws.update_cursor
  refine ⟨rfl, rfl, ?_, ?_⟩
  · intro position inside
    rw [TextScreen.read_inside _ inside, blanked,
      if_pos (Nat.lt_of_lt_of_eq inside (Nat.mul_comm _ _))]
    rfl
  · intro off member
    exact (within.accesses off member).resolve_left (by simp [powerOn])

/-- From `clear()` on the console is a terminal, whatever is printed. -/
theorem console_draws (vga : Nat → UInt16) (col row : Nat) (bytes : List UInt8) :
    Draws ((powerOn vga col row).clear.printBytes bytes) (bytes.foldl printed clearScreen) :=
  (clear_draws vga col row).print_bytes bytes

theorem console_stays_on_screen (vga : Nat → UInt16) (col row : Nat) (bytes : List UInt8) :
    let console := (powerOn vga col row).clear.printBytes bytes
    console.row < 25 ∧ console.col < 80 ∧ (∀ off ∈ console.accesses, off < 80 * 25) ∧
      ∀ (before : Console) (r c : Nat), r < 25 → c < 80 →
        before.scroll.vga (r * 80 + c) =
          if r + 1 < 25 then before.vga ((r + 1) * 80 + c) else blank := by
  have draws := console_draws vga col row bytes
  refine ⟨?_, ?_, draws.accesses, ?_⟩
  · rw [draws.row]
    exact Fin.isLt _
  · rw [draws.col]
    exact Fin.isLt _
  · intro before r c rows columns
    have inside : r * 80 + c < height * width := by
      simp only [height, width]
      omega
    have last : r * 80 + c + width < height * width ↔ r + 1 < 25 := by
      simp only [height, width]
      omega
    have next : r * 80 + c + width = (r + 1) * 80 + c := by
      simp only [width]
      omega
    rw [Console.scroll_vga before inside, next]
    exact if_congr (next ▸ last) rfl rfl

/-- The last four port writes set the cursor of the display to `COL` and `ROW`. -/
def CursorProgrammed (console : Console) : Prop :=
  ∃ high low earlier, console.ports = (crtcData, high) :: (crtcAddr, 0x0E) ::
      (crtcData, low) :: (crtcAddr, 0x0F) :: earlier ∧
    high.toNat * 256 + low.toNat = console.row * width + console.col

theorem cursor_bytes (pos : Nat) (fits : pos < 65536) :
    ((UInt16.ofNat pos >>> 8) &&& 0xFF).toUInt8.toNat * 256 +
      (UInt16.ofNat pos &&& 0xFF).toUInt8.toNat = pos := by
  have mask : ∀ n, n &&& 255 = n % 256 := fun n => Nat.and_two_pow_sub_one_eq_mod n 8
  simp [Nat.mod_eq_of_lt fits, Nat.shiftRight_eq_div_pow, mask]
  omega

theorem update_cursor_programmed {console : Console} {pos : Nat}
    (here : pos = console.row * width + console.col) (fits : pos < 65536) :
    CursorProgrammed (console.updateCursor pos) :=
  ⟨_, _, _, rfl, (cursor_bytes pos fits).trans here⟩

theorem print_byte_cursor (console : Console) (b : UInt8) :
    ∃ printed : Console,
      console.printByte b = printed.updateCursor (printed.row * width + printed.col) :=
  ⟨_, rfl⟩

theorem cursor_programmed (vga : Nat → UInt16) (col row : Nat) (bytes : List UInt8) :
    CursorProgrammed ((powerOn vga col row).clear.printBytes bytes) := by
  rcases List.eq_nil_or_concat' bytes with rfl | ⟨earlier, b, rfl⟩
  · exact update_cursor_programmed rfl (by decide)
  · have draws := console_draws vga col row (earlier ++ [b])
    have bound := draws.place.trans_lt (TextScreen.place_lt _)
    have small : height * width < 65536 := by decide
    simp only [Console.printBytes, List.foldl_append, List.foldl_cons, List.foldl_nil] at bound ⊢
    obtain ⟨printed, last⟩ := print_byte_cursor
      (earlier.foldl Console.printByte (powerOn vga col row).clear) b
    rw [last] at bound ⊢
    exact update_cursor_programmed rfl (bound.trans small)

theorem newline_ports (console : Console) : console.newline.ports = console.ports := by
  have scrolled := (Console.scroll_within { console with col := 0, row := console.row + 1 }).ports
  unfold Console.newline
  dsimp only
  split_ifs
  · rw [scrolled]
  · rfl

theorem backspace_ports (console : Console) : console.backspace.ports = console.ports := by
  simp only [Console.backspace, Console.writeVolatile]
  split_ifs <;> rfl

theorem put_glyph_ports (console : Console) (b : UInt8) :
    (console.putGlyph b).ports = console.ports := by
  unfold Console.putGlyph
  dsimp only
  split_ifs
  · exact newline_ports _
  · rfl

def serialText (console : Console) : List UInt8 :=
  ((console.ports.filter fun sent => sent.1 == com1).map Prod.snd).reverse

def mirrored (b : UInt8) : List UInt8 :=
  if b = 0x0A then [0x0D, 0x0A] else [b]

theorem print_byte_serial (console : Console) (b : UInt8) :
    serialText (console.printByte b) = serialText console ++ mirrored b := by
  have cursor : ∀ (printed : Console) (pos : Nat),
      serialText (printed.updateCursor pos) = serialText printed := fun _ _ => rfl
  have ports : ∀ first second : Console, second.ports = first.ports →
      serialText second = serialText first := by
    intro first second same
    rw [serialText, serialText, same]
  unfold Console.printByte
  rw [cursor]
  by_cases line : b = 0x0A
  · subst line
    rw [if_pos rfl, if_pos rfl, ports _ _ (newline_ports _)]
    simp [serialText, mirrored, Console.serialWriteByte, Console.outb]
  · have sent : serialText (console.serialWriteByte b) = serialText console ++ mirrored b := by
      simp [serialText, mirrored, line, Console.serialWriteByte, Console.outb]
    rw [if_neg line, if_neg line, ← sent]
    split_ifs
    · rfl
    · exact ports _ _ (backspace_ports _)
    · exact ports _ _ (put_glyph_ports _ b)

/-- The serial line gets every byte, with a carriage return before each line
feed. -/
theorem print_bytes_serial (console : Console) (bytes : List UInt8) :
    serialText (console.printBytes bytes) = serialText console ++ bytes.flatMap mirrored := by
  induction bytes generalizing console with
  | nil => exact (List.append_nil _).symm
  | cons b rest ih =>
      refine (ih (console.printByte b)).trans ?_
      rw [print_byte_serial, List.flatMap_cons, List.append_assoc]

end Ferrugem.VgaConsole
