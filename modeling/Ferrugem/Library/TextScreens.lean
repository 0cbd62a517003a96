import Mathlib.Data.Nat.Basic
import Mathlib.Logic.Function.Basic

/-!
# Text screens

A grid of cells with a cursor on it, and the four moves a terminal makes: a
character is written and the cursor advances, a line feed starts the next row
and scrolls at the bottom, a carriage return goes back to the first column, and
an erasure steps back over the end of a row and blanks the cell there. The
cursor is always on the grid. Read row by row the grid is one tape: writing
moves one place on and erasing one place back, whether or not rows end in
between, and a scroll moves the tape by one row.
-/

set_option autoImplicit false

universe u

structure TextScreen (height width : Nat) (Cell : Type u) where
  cell : Fin height → Fin width → Cell
  row : Fin height
  col : Fin width

namespace TextScreen

variable {height width : Nat} {Cell : Type u}

def place (screen : TextScreen height width Cell) : Nat :=
  screen.row.val * width + screen.col.val

theorem row_inside {position : Nat} (inside : position < height * width) :
    position / width < height :=
  Nat.div_lt_of_lt_mul (by rwa [Nat.mul_comm])

theorem col_inside {position : Nat} (inside : position < height * width) :
    position % width < width :=
  Nat.mod_lt _ (Nat.pos_of_mul_pos_left (Nat.zero_lt_of_lt inside))

def read (screen : TextScreen height width Cell) (position : Nat) : Option Cell :=
  if inside : position < height * width then
    some (screen.cell ⟨position / width, row_inside inside⟩ ⟨position % width, col_inside inside⟩)
  else none

def home (screen : TextScreen height width Cell) : TextScreen height width Cell :=
  { screen with col := ⟨0, screen.col.pos⟩ }

def scrollUp (blank : Cell) (screen : TextScreen height width Cell) :
    TextScreen height width Cell :=
  { screen with
    cell := fun row col =>
      if below : row.val + 1 < height then screen.cell ⟨row.val + 1, below⟩ col else blank }

def lineFeed (blank : Cell) (screen : TextScreen height width Cell) :
    TextScreen height width Cell :=
  if below : screen.row.val + 1 < height then { screen.home with row := ⟨_, below⟩ }
  else (screen.scrollUp blank).home

def put (value : Cell) (screen : TextScreen height width Cell) : TextScreen height width Cell :=
  { screen with
    cell := Function.update screen.cell screen.row
      (Function.update (screen.cell screen.row) screen.col value) }

def advance (blank : Cell) (screen : TextScreen height width Cell) :
    TextScreen height width Cell :=
  if inside : screen.col.val + 1 < width then { screen with col := ⟨_, inside⟩ }
  else screen.lineFeed blank

def write (blank value : Cell) (screen : TextScreen height width Cell) :
    TextScreen height width Cell :=
  (screen.put value).advance blank

/-- One place back, also from the first column; the first place stays. -/
def back (screen : TextScreen height width Cell) : TextScreen height width Cell :=
  if 0 < screen.col.val then
    { screen with col := ⟨screen.col.val - 1, by omega⟩ }
  else if 0 < screen.row.val then
    { screen with
      row := ⟨screen.row.val - 1, by omega⟩
      col := ⟨width - 1, Nat.sub_one_lt_of_lt screen.col.isLt⟩ }
  else screen

def erase (blank : Cell) (screen : TextScreen height width Cell) :
    TextScreen height width Cell :=
  screen.back.put blank

theorem place_lt (screen : TextScreen height width Cell) : screen.place < height * width := by
  have rows : screen.row.val + 1 ≤ height := screen.row.isLt
  calc
    screen.place < screen.row.val * width + width := Nat.add_lt_add_left screen.col.isLt _
    _ = (screen.row.val + 1) * width := (Nat.succ_mul _ _).symm
    _ ≤ height * width := Nat.mul_le_mul_right width rows

theorem place_row (screen : TextScreen height width Cell) :
    screen.place / width = screen.row.val := by
  rw [place, Nat.add_comm, Nat.add_mul_div_right _ _ screen.col.pos,
    Nat.div_eq_of_lt screen.col.isLt, Nat.zero_add]

theorem place_col (screen : TextScreen height width Cell) :
    screen.place % width = screen.col.val := by
  rw [place, Nat.add_comm, Nat.add_mul_mod_self_right, Nat.mod_eq_of_lt screen.col.isLt]

theorem read_inside (screen : TextScreen height width Cell) {position : Nat}
    (inside : position < height * width) :
    screen.read position = some
      (screen.cell ⟨position / width, row_inside inside⟩
        ⟨position % width, col_inside inside⟩) :=
  dif_pos inside

theorem read_congr {screen other : TextScreen height width Cell} (same : screen.cell = other.cell)
    (position : Nat) : screen.read position = other.read position := by
  rw [read, read, same]

theorem read_put (value : Cell) (screen : TextScreen height width Cell) (position : Nat) :
    (screen.put value).read position =
      if position = screen.place then some value else screen.read position := by
  by_cases inside : position < height * width
  · rw [read_inside _ inside, read_inside _ inside]
    by_cases here : position = screen.place
    · subst here
      simp only [put, Function.update_apply, place_row, place_col, if_true]
    · rw [if_neg here]
      by_cases row : position / width = screen.row.val
      · have col : position % width ≠ screen.col.val := by
          intro col
          apply here
          rw [place, ← row, ← col, Nat.mul_comm]
          exact (Nat.div_add_mod position width).symm
        have held : (⟨position / width, row_inside inside⟩ : Fin height) = screen.row :=
          Fin.ext row
        simp only [put, held, Function.update_self, Function.update_apply, Fin.ext_iff, col,
          if_false]
      · simp only [put, Function.update_apply, Fin.ext_iff, row, if_false]
  · have apart : position ≠ screen.place := fun same => inside (same ▸ screen.place_lt)
    rw [if_neg apart, read, read, dif_neg inside, dif_neg inside]

theorem read_scroll_up (blank : Cell) (screen : TextScreen height width Cell) {position : Nat}
    (inside : position < height * width) :
    (screen.scrollUp blank).read position =
      if position + width < height * width then screen.read (position + width)
      else some blank := by
  have positive : 0 < width := Nat.zero_lt_of_lt (col_inside inside)
  have row : (position + width) / width = position / width + 1 :=
    Nat.add_div_right position positive
  have col : (position + width) % width = position % width := Nat.add_mod_right position width
  have next : position / width + 1 < height ↔ position + width < height * width := by
    rw [← row, Nat.div_lt_iff_lt_mul positive]
  rw [read_inside _ inside]
  simp only [scrollUp]
  split_ifs with below low low
  · rw [read_inside _ low]
    simp only [row, col]
  · exact absurd (next.mp below) low
  · exact absurd (next.mpr low) below
  · rfl

theorem advance_cases (blank : Cell) (screen : TextScreen height width Cell) :
    (screen.place + 1 < height * width ∧ (screen.advance blank).place = screen.place + 1 ∧
        (screen.advance blank).cell = screen.cell) ∨
      (screen.place + 1 = height * width ∧
        (screen.advance blank).place + width = screen.place + 1 ∧
        (screen.advance blank).cell = (screen.scrollUp blank).cell) := by
  have bound := screen.place_lt
  by_cases inside : screen.col.val + 1 < width
  · have moved : (screen.advance blank).place = screen.place + 1 := by
      rw [advance, dif_pos inside]
      rfl
    refine .inl ⟨?_, moved, by rw [advance, dif_pos inside]⟩
    rw [← moved]
    exact place_lt _
  · have full : screen.col.val + 1 = width := by
      have col := screen.col.isLt
      omega
    have next : screen.place + 1 = (screen.row.val + 1) * width := by
      rw [place, Nat.add_assoc, full, Nat.succ_mul]
    by_cases below : screen.row.val + 1 < height
    · have moved : (screen.advance blank).place = screen.place + 1 := by
        rw [advance, dif_neg inside, lineFeed, dif_pos below, next]
        rfl
      refine .inl ⟨?_, moved, by rw [advance, dif_neg inside, lineFeed, dif_pos below]; rfl⟩
      rw [← moved]
      exact place_lt _
    · have last : screen.row.val + 1 = height := by
        have row := screen.row.isLt
        omega
      have scrolled : screen.advance blank = (screen.scrollUp blank).home := by
        rw [advance, dif_neg inside, lineFeed, dif_neg below]
      refine .inr ⟨by rw [next, last], ?_, by rw [scrolled]; rfl⟩
      rw [scrolled, next, Nat.succ_mul]
      rfl

theorem place_put (value : Cell) (screen : TextScreen height width Cell) :
    (screen.put value).place = screen.place := rfl

@[simp] theorem back_cell (screen : TextScreen height width Cell) :
    screen.back.cell = screen.cell := by
  unfold back
  split_ifs <;> rfl

theorem back_place (screen : TextScreen height width Cell) :
    screen.back.place = screen.place - 1 := by
  unfold back
  split_ifs with col row
  · exact (Nat.add_sub_assoc col _).symm
  · have first : screen.col.val = 0 := Nat.eq_zero_of_not_pos col
    have above : screen.row.val * width = (screen.row.val - 1) * width + width := by
      rw [← Nat.succ_mul, Nat.succ_eq_add_one, Nat.sub_add_cancel row]
    have positive := screen.col.pos
    simp only [place, first]
    omega
  · have firstRow : screen.row.val = 0 := Nat.eq_zero_of_not_pos row
    have firstCol : screen.col.val = 0 := Nat.eq_zero_of_not_pos col
    simp [place, firstRow, firstCol]

theorem read_erase (blank : Cell) (screen : TextScreen height width Cell) (position : Nat) :
    (screen.erase blank).read position =
      if position = screen.place - 1 then some blank else screen.read position := by
  rw [erase, read_put, back_place, read_congr screen.back_cell]

theorem place_erase (blank : Cell) (screen : TextScreen height width Cell) :
    (screen.erase blank).place = screen.place - 1 :=
  screen.back_place

/-- The places before the cursor hold the text, and those from the cursor on
are blank. -/
structure Shows (blank : Cell) (text : List Cell) (screen : TextScreen height width Cell) :
    Prop where
  fits : text.length ≤ screen.place
  shown : ∀ i, i < text.length → screen.read (screen.place - text.length + i) = text[i]?
  clear : ∀ position, screen.place ≤ position → position < height * width →
    screen.read position = some blank

namespace Shows

variable {blank : Cell} {text : List Cell} {screen : TextScreen height width Cell}

theorem write (shows : Shows blank text screen) (value : Cell)
    (room : text.length + 1 + width ≤ height * width) :
    Shows blank (text ++ [value]) (screen.write blank value) := by
  have fits := shows.fits
  have long : (text ++ [value]).length = text.length + 1 := by simp
  rcases advance_cases blank (screen.put value) with ⟨next, moved, cells⟩ | ⟨last, moved, cells⟩
  · rw [place_put] at next moved
    refine ⟨by rw [TextScreen.write, moved]; omega, ?_, ?_⟩
    · intro i inside
      rw [TextScreen.write, moved, long, read_congr cells, read_put]
      by_cases here : i = text.length
      · subst here
        rw [if_pos (by omega)]
        simp
      · have earlier : i < text.length := by omega
        rw [if_neg (by omega), List.getElem?_append_left earlier, ← shows.shown i earlier]
        congr 1
        omega
    · intro position low high
      rw [TextScreen.write, moved] at low
      rw [TextScreen.write, read_congr cells, read_put, if_neg (by omega)]
      exact shows.clear position (by omega) high
  · rw [place_put] at last moved
    refine ⟨by rw [TextScreen.write]; omega, ?_, ?_⟩
    · intro i inside
      rw [TextScreen.write, long, read_congr cells, read_scroll_up _ _ (by omega),
        if_pos (by omega), read_put]
      by_cases here : i = text.length
      · subst here
        rw [if_pos (by omega)]
        simp
      · have earlier : i < text.length := by omega
        rw [if_neg (by omega), List.getElem?_append_left earlier, ← shows.shown i earlier]
        congr 1
        omega
    · intro position low high
      rw [TextScreen.write] at low
      rw [TextScreen.write, read_congr cells, read_scroll_up _ _ high, if_neg (by omega)]

theorem erase {value : Cell} (shows : Shows blank (text ++ [value]) screen) :
    Shows blank text (screen.erase blank) := by
  have fits := shows.fits
  have long : (text ++ [value]).length = text.length + 1 := by simp
  rw [long] at fits
  refine ⟨by rw [place_erase]; omega, ?_, ?_⟩
  · intro i inside
    have held := shows.shown i (by omega)
    rw [long, List.getElem?_append_left inside] at held
    rw [place_erase, read_erase, if_neg (by omega), ← held]
    congr 1
    omega
  · intro position low high
    rw [place_erase] at low
    rw [read_erase]
    split_ifs with here
    · rfl
    · exact shows.clear position (by omega) high

theorem of_clear (clear : ∀ position, screen.place ≤ position → position < height * width →
    screen.read position = some blank) : Shows blank [] screen :=
  ⟨Nat.zero_le _, fun i inside => absurd inside (Nat.not_lt_zero i), clear⟩

theorem forget (shows : Shows blank text screen) : Shows blank [] screen :=
  of_clear shows.clear

theorem erase_clear (shows : Shows blank text screen) : Shows blank [] (screen.erase blank) := by
  apply of_clear
  intro position low high
  rw [place_erase] at low
  rw [read_erase]
  split_ifs with here
  · rfl
  · exact shows.clear position (by omega) high

theorem line_feed (shows : Shows blank text screen) : Shows blank [] (screen.lineFeed blank) := by
  have col := screen.col.isLt
  have next : (screen.row.val + 1) * width = screen.row.val * width + width := Nat.succ_mul _ _
  apply of_clear
  intro position low high
  unfold lineFeed at low ⊢
  split_ifs at low ⊢ with below
  · have start : (screen.row.val + 1) * width ≤ position := low
    have later : screen.place ≤ position := by
      rw [place]
      omega
    exact shows.clear position later high
  · have last : screen.row.val + 1 = height := by
      have row := screen.row.isLt
      omega
    have start : screen.row.val * width ≤ position := low
    have bottom : ¬position + width < height * width := by
      have area : height * width = screen.row.val * width + width := by
        rw [← next, last]
      omega
    exact (read_scroll_up blank screen high).trans (if_neg bottom)

end Shows

end TextScreen
