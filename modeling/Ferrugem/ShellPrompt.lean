import Ferrugem.HistoryNavigation

/-!
# The prompt of the shell

The main loop of `shell/mod.rs` reads a line, stores it if it is not empty and
runs it. Whatever keys are pressed, the history is that of command lines pushed
one after the other and the editor is one that `read_line` can be in, so the
results on histories and editors hold at every prompt. What the editor prints
stands on the VGA screen from the end of the prompt on.
-/

namespace Ferrugem.ShellPrompt

open Ferrugem.LineHistory Ferrugem.HistoryNavigation Ferrugem.VgaConsole

set_option autoImplicit false

structure Shell where
  history : History
  editor : Editor

def boot : Shell where
  history := History.new
  editor := Editor.new

/-- `run` stores the line and prompts again. -/
def enterLine (history : History) (line : LineBuffer) : Shell where
  history := if line.isEmpty then history else history.push line.asBytes
  editor := Editor.new

/-- The test for an empty line is the one `push` makes itself. -/
theorem enter_line_history (history : History) (line : LineBuffer) :
    (enterLine history line).history = history.push line.asBytes := by
  have length := line.length_as_bytes
  simp only [enterLine]
  split_ifs with empty
  · have nothing : line.asBytes = [] := by
      apply List.eq_nil_of_length_eq_zero
      exact length.trans (beq_iff_eq.mp empty)
    rw [nothing, History.push, if_pos rfl]
  · rfl

def Shell.key (shell : Shell) (key : Key) : Shell :=
  match readLoop shell.history shell.editor [key] with
  | .waiting editor => { shell with editor := editor }
  | .returned line _ => enterLine shell.history line

/-- The shell belongs to these command lines and to the keys of the line that
is being typed. -/
structure Prompts (shell : Shell) (lines : List CommandLine) (typed : List Key) : Prop where
  history : shell.history = pushAll lines
  waiting : readLine (pushAll lines) typed = .waiting shell.editor

theorem read_loop_append {history : History} {first editor : Editor} {keys : List Key}
    (waiting : readLoop history first keys = .waiting editor) (rest : List Key) :
    readLoop history first (keys ++ rest) = readLoop history editor rest := by
  induction keys generalizing first with
  | nil =>
      cases waiting
      rfl
  | cons key others ih =>
      cases key with
      | enter => cases waiting
      | interrupt => cases waiting
      | _ => exact ih waiting

/-- What `read_line` returns is a command line. -/
theorem returned_command {history : History} {entries : List (List UInt8)} {editor : Editor}
    {browsing : Browsing} (shows : Shows entries editor browsing) {key : Key} {line : LineBuffer}
    {printed : List UInt8} (returned : readLoop history editor [key] = .returned line printed) :
    ∃ command : CommandLine, command.bytes = line.asBytes := by
  cases key with
  | enter =>
      cases returned
      refine ⟨⟨editor.buf.asBytes, ?_, ?_⟩, rfl⟩
      · rw [shows.line]
        exact shows.short
      · rw [shows.line]
        exact shows.typed
  | interrupt =>
      cases returned
      exact ⟨⟨[], by decide, fun _ member => nomatch member⟩, rfl⟩
  | _ => cases returned

theorem prompts_shows {shell : Shell} {lines : List CommandLine} {typed : List Key}
    (prompts : Prompts shell lines typed) :
    ∃ browsing, Shows ((recentLines lines).take histDepth) shell.editor browsing := by
  have shows := press_all_shows (pushed_keeps lines) (new_shows _) typed
  rw [← waiting_press prompts.waiting] at shows
  exact ⟨_, shows⟩

theorem key_prompts {shell : Shell} {lines : List CommandLine} {typed : List Key}
    (prompts : Prompts shell lines typed) (key : Key) :
    ∃ lines typed, Prompts (shell.key key) lines typed := by
  cases outcome : readLoop shell.history shell.editor [key] with
  | waiting editor =>
      refine ⟨lines, typed ++ [key], ?_, ?_⟩
      · rw [Shell.key, outcome]
        exact prompts.history
      · rw [Shell.key, outcome, readLine, read_loop_append prompts.waiting, ← prompts.history]
        exact outcome
  | returned line printed =>
      obtain ⟨browsing, shows⟩ := prompts_shows prompts
      obtain ⟨command, bytes⟩ := returned_command shows outcome
      refine ⟨lines ++ [command], [], ?_, ?_⟩
      · rw [Shell.key, outcome, push_all_append, bytes, ← prompts.history]
        exact enter_line_history shell.history line
      · rw [Shell.key, outcome]
        rfl

theorem shell_prompts (keys : List Key) :
    ∃ lines typed, Prompts (keys.foldl Shell.key boot) lines typed := by
  induction keys using List.reverseRecOn with
  | nil => exact ⟨[], [], rfl, rfl⟩
  | append_singleton keys key ih =>
      obtain ⟨lines, typed, prompts⟩ := ih
      rw [List.foldl_append]
      exact key_prompts prompts key

theorem printable_glyph {b : UInt8} (visible : printable b = true) (screen : Screen) :
    printed screen b = screen.write blank (glyph b) := by
  have line : b ≠ 0x0A := by
    rintro rfl
    exact absurd visible (by decide)
  have home : b ≠ 0x0D := by
    rintro rfl
    exact absurd visible (by decide)
  have back : b ≠ 0x08 := by
    rintro rfl
    exact absurd visible (by decide)
  rw [printed, if_neg line, if_neg home, if_neg back]

/-- What has been printed since the prompt leaves its text before the cursor,
also over the ends of rows and through scrolls. -/
theorem renders_on_screen {printedBytes text : List UInt8} (renders : Renders printedBytes text)
    {screen : Screen} (clear : TextScreen.Shows blank [] screen) :
    TextScreen.Shows blank (text.map glyph) (printedBytes.foldl printed screen) := by
  induction renders with
  | nothing => exact clear
  | @type printedBytes text b before short visible ih =>
      rw [List.foldl_append, List.foldl_cons, List.foldl_nil, printable_glyph visible,
        List.map_append]
      apply ih.write
      have area : 256 + 1 + width ≤ height * width := by decide
      have bound : text.length ≤ 256 := Nat.le_of_lt short
      rw [List.length_map]
      omega
  | rub before ih =>
      rw [List.foldl_append, List.foldl_cons, List.foldl_nil]
      rw [List.map_append] at ih
      exact ih.erase

theorem rest_blank {output : List UInt8} (noReturn : 0x0D ∉ output) :
    TextScreen.Shows blank [] (output.foldl printed clearScreen) := by
  induction output using List.reverseRecOn with
  | nil =>
      apply TextScreen.Shows.of_clear
      intro position _ inside
      rw [TextScreen.read_inside _ inside]
      rfl
  | append_singleton output b ih =>
      have earlier := ih fun member => noReturn (List.mem_append_left _ member)
      have home : b ≠ 0x0D := by
        rintro rfl
        exact noReturn (List.mem_append_right _ List.mem_cons_self)
      rw [List.foldl_append, List.foldl_cons, List.foldl_nil, printed, if_neg home]
      split_ifs
      · exact earlier.line_feed
      · exact earlier.erase_clear
      · exact (earlier.write (glyph b) (by decide)).forget

/-- Video memory holds the line before the cursor and nothing behind it. -/
structure Displays (console : Console) (line : List UInt8) : Prop where
  before : ∀ i, i < line.length → (line.map glyph)[i]? =
    some (console.vga (console.row * width + console.col - line.length + i))
  behind : ∀ position, console.row * width + console.col ≤ position →
    position < height * width → console.vga position = blank

theorem shows_displays {console : Console} {screen : Screen} (draws : Draws console screen)
    {line : List UInt8} (shows : TextScreen.Shows blank (line.map glyph) screen) :
    Displays console line := by
  have inside := TextScreen.place_lt screen
  have fits := shows.fits
  rw [List.length_map] at fits
  constructor
  · intro i listed
    have shown := shows.shown i (by rw [List.length_map]; exact listed)
    rw [List.length_map, draws.cells _ (by omega)] at shown
    rw [draws.place]
    exact shown.symm
  · intro position low high
    rw [draws.place] at low
    have behind := shows.clear position low high
    rw [draws.cells position high] at behind
    exact Option.some.inj behind

/-- After any output without carriage returns and whatever keys are pressed at
the prompt, the line in the buffer is the one on the screen. -/
theorem line_on_console (vga : Nat → UInt16) (col row : Nat) {output : List UInt8}
    (noReturn : 0x0D ∉ output) (keys : List Key) :
    let editor := (keys.foldl Shell.key boot).editor
    Displays (((powerOn vga col row).clear.printBytes output).printBytes editor.printed)
      editor.buf.asBytes := by
  obtain ⟨lines, typed, prompts⟩ := shell_prompts keys
  obtain ⟨browsing, shows⟩ := prompts_shows prompts
  have drawn := (console_draws vga col row output).print_bytes
    (keys.foldl Shell.key boot).editor.printed
  exact shows_displays drawn (renders_on_screen (shows.line ▸ shows.printed) (rest_blank noReturn))

theorem first_command_on_console :
    let editor := ([.char 0x6C, .char 0x73, .up, .backspace].foldl Shell.key boot).editor
    Displays (((powerOn (fun _ => 0) 0 0).clear.printBytes [0x23, 0x20]).printBytes editor.printed)
      editor.buf.asBytes :=
  line_on_console (fun _ => 0) 0 0 (by decide) [.char 0x6C, .char 0x73, .up, .backspace]

end Ferrugem.ShellPrompt
