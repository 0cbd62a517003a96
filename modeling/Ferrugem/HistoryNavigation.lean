import Ferrugem.LineHistory

/-!
# Walking through the shell's history

What an editor means is a line in progress and a level: level 0 shows the line
itself, level `n + 1` the history entry of offset `n`. Up and Down move the level
and nothing else, so the line comes back at level 0; every other editing key
makes what is shown the line in progress. The editor of the source is this one,
and what it has printed leaves exactly the shown text on a terminal.
-/

namespace Ferrugem.HistoryNavigation

open Ferrugem.LineHistory

set_option autoImplicit false

/-- The text that printed bytes leave on a line, by typing a character or
taking the last one back. -/
inductive Renders : List UInt8 → List UInt8 → Prop where
  | nothing : Renders [] []
  | type {printed text : List UInt8} {b : UInt8} (before : Renders printed text)
      (short : text.length < maxCmd) (shown : printable b = true) :
      Renders (printed ++ [b]) (text ++ [b])
  | rub {printed text : List UInt8} {b : UInt8} (before : Renders printed (text ++ [b])) :
      Renders (printed ++ [0x08]) text

def typeByte (text : List UInt8) (b : UInt8) : List UInt8 :=
  if b = 0x08 then text.dropLast else text ++ [b]

def displayed (printed : List UInt8) : List UInt8 := printed.foldl typeByte []

namespace Renders

variable {printed text : List UInt8}

theorem displayed_eq (renders : Renders printed text) : displayed printed = text := by
  induction renders with
  | nothing => rfl
  | @type printed text b before short shown ih =>
      have visible : b ≠ 0x08 := by
        rintro rfl
        exact absurd shown (by decide)
      rw [displayed, List.foldl_append, List.foldl_cons, List.foldl_nil, ← displayed, ih, typeByte,
        if_neg visible]
  | rub before ih =>
      rw [displayed, List.foldl_append, List.foldl_cons, List.foldl_nil, ← displayed, ih, typeByte,
        if_pos rfl, List.dropLast_concat]

theorem rub_out {b : UInt8} (renders : Renders printed (text ++ [b]))
    (short : text.length < maxCmd) : Renders (printed ++ rubOut) text := by
  have blanked := (renders.rub.type short (by decide : printable 0x20 = true)).rub
  simpa [rubOut] using blanked

theorem text_typed {added : List UInt8} (renders : Renders printed text) (typed : Typed added)
    (short : text.length + added.length ≤ maxCmd) :
    Renders (printed ++ added) (text ++ added) := by
  induction added generalizing printed text with
  | nil => simpa using renders
  | cons b rest ih =>
      rw [List.length_cons] at short
      have first := renders.type (by omega) (typed b List.mem_cons_self)
      have others := ih first (fun c member => typed c (List.mem_cons_of_mem _ member)) (by
        rw [List.length_append, List.length_singleton]
        omega)
      simpa using others

theorem erased (renders : Renders printed text) (short : text.length ≤ maxCmd) :
    Renders (printed ++ eraseChars text.length) [] := by
  induction text using List.reverseRecOn generalizing printed with
  | nil => simpa [eraseChars] using renders
  | append_singleton text b ih =>
      rw [List.length_append, List.length_singleton] at short ⊢
      have once := renders.rub_out (by omega)
      have others := ih once (by omega)
      simpa [eraseChars, List.replicate_succ] using others

end Renders

structure Browsing where
  draft : List UInt8
  level : Nat

namespace Browsing

variable (entries : List (List UInt8))

def shown (browsing : Browsing) : List UInt8 :=
  match browsing.level with
  | 0 => browsing.draft
  | offset + 1 => entries.getD offset []

def older (browsing : Browsing) : Browsing :=
  { browsing with level := min (browsing.level + 1) entries.length }

def newer (browsing : Browsing) : Browsing :=
  { browsing with level := browsing.level - 1 }

def edited (line : List UInt8) : Browsing where
  draft := line
  level := 0

def lengthened (line : List UInt8) (c : UInt8) : List UInt8 :=
  if line.length < maxCmd - 1 then line ++ [c] else line

def press (browsing : Browsing) : Key → Browsing
  | .backspace => edited (browsing.shown entries).dropLast
  | .char c =>
      if printable c then edited (lengthened (browsing.shown entries) c) else browsing
  | .up => browsing.older entries
  | .down => browsing.newer
  | .enter | .left | .right | .esc | .interrupt => browsing

end Browsing

structure Keeps (history : History) (entries : List (List UInt8)) : Prop where
  held : ∀ offset, history.entry offset = entries[offset]?
  commands : ∀ bytes ∈ entries, bytes.length < maxCmd ∧ Typed bytes

structure Shows (entries : List (List UInt8)) (editor : Editor) (browsing : Browsing) : Prop where
  nav : editor.nav + 1 = browsing.level
  inside : browsing.level ≤ entries.length
  line : editor.buf.asBytes = browsing.shown entries
  saved : 0 < browsing.level → editor.saved.asBytes = browsing.draft
  typed : Typed (browsing.shown entries)
  draftTyped : Typed browsing.draft
  printed : Renders editor.printed (browsing.shown entries)

section Steps

variable {history : History} {entries : List (List UInt8)} {editor : Editor} {browsing : Browsing}

theorem keeps_found (keeps : Keeps history entries) {offset : Nat} {found : Buffer × Nat}
    (got : history.get offset = some found) :
    offset < entries.length ∧ entries.getD offset [] = slice found.1 found.2 ∧
      (slice found.1 found.2).length < maxCmd ∧ Typed (slice found.1 found.2) := by
  have held := keeps.held offset
  rw [History.entry, got] at held
  have member := List.mem_of_getElem? held.symm
  refine ⟨(List.getElem?_eq_some_iff.mp held.symm).1, ?_, keeps.commands _ member⟩
  rw [List.getD_eq_getElem?_getD, ← held]
  rfl

theorem keeps_missing (keeps : Keeps history entries) {offset : Nat}
    (got : history.get offset = none) : entries.length ≤ offset := by
  have held := keeps.held offset
  rw [History.entry, got] at held
  exact List.getElem?_eq_none_iff.mp held.symm

theorem Shows.short (shows : Shows entries editor browsing) :
    (browsing.shown entries).length < maxCmd := by
  rw [← shows.line, LineBuffer.length_as_bytes]
  exact editor.buf.fits

theorem Shows.replaced (shows : Shows entries editor browsing) {text : List UInt8}
    (short : text.length < maxCmd) (typed : Typed text) :
    Renders (editor.printed ++ eraseChars editor.buf.len ++ text) text := by
  have length : editor.buf.len = (browsing.shown entries).length := by
    rw [← shows.line, LineBuffer.length_as_bytes]
  have erased := shows.printed.erased (Nat.le_of_lt shows.short)
  rw [← length] at erased
  have retyped := erased.text_typed typed (by
    rw [List.length_nil, Nat.zero_add]
    exact Nat.le_of_lt short)
  rwa [List.nil_append] at retyped

theorem Shows.loaded (shows : Shows entries editor browsing) {found : Buffer × Nat}
    (short : (slice found.1 found.2).length < maxCmd) (typed : Typed (slice found.1 found.2))
    (next : Int) :
    (editor.loadEntry found next).buf.asBytes = slice found.1 found.2 ∧
      Renders (editor.loadEntry found next).printed (slice found.1 found.2) := by
  have bytes := editor.buf.load_bytes short
  have text : (editor.buf.load found.1 found.2).asStr = slice found.1 found.2 := by
    rw [LineBuffer.asStr, bytes, typed_utf8 typed]
  refine ⟨bytes, ?_⟩
  have replaced := shows.replaced short typed
  rw [← text] at replaced ⊢
  exact replaced

theorem load_entry_nav (editor : Editor) (found : Buffer × Nat) (next : Int) :
    (editor.loadEntry found next).nav = next := rfl

theorem key_up_shows (keeps : Keeps history entries) (shows : Shows entries editor browsing) :
    Shows entries (editor.keyUp history) (browsing.older entries) := by
  have nav := shows.nav
  have inside := shows.inside
  have next : (if editor.nav < 0 then 0 else editor.nav + 1) = (browsing.level : Int) := by
    split_ifs <;> omega
  unfold Editor.keyUp
  simp only [next, Int.toNat_natCast]
  cases got : history.get browsing.level with
  | none =>
      have last := keeps_missing keeps got
      have same : browsing.older entries = browsing := by
        rw [Browsing.older, Nat.min_eq_right (by omega), Nat.le_antisymm last inside]
      rw [same]
      exact shows
  | some found =>
      obtain ⟨room, entry, short, typed⟩ := keeps_found keeps got
      have level : (browsing.older entries).level = browsing.level + 1 := Nat.min_eq_left room
      have shown : (browsing.older entries).shown entries = slice found.1 found.2 := by
        rw [← entry, Browsing.shown, level]
      have kept : Shows entries
          (if editor.nav < 0 then { editor with saved := editor.buf.cloneCopy } else editor)
          browsing := by
        split_ifs with idle
        · refine ⟨shows.nav, shows.inside, shows.line, ?_, shows.typed, shows.draftTyped,
            shows.printed⟩
          intro positive
          omega
        · exact shows
      have draft : (if editor.nav < 0 then { editor with saved := editor.buf.cloneCopy }
          else editor).saved.asBytes = browsing.draft := by
        split_ifs with idle
        · have zero : browsing.level = 0 := by omega
          rw [LineBuffer.clone_bytes, shows.line, Browsing.shown, zero]
        · exact shows.saved (by omega)
      obtain ⟨line, printed⟩ := kept.loaded short typed browsing.level
      refine ⟨?_, ?_, line.trans shown.symm, fun _ => draft, ?_, shows.draftTyped, ?_⟩
      · rw [level, load_entry_nav]
        rfl
      · rw [level]
        exact room
      · rw [shown]
        exact typed
      · rw [shown]
        exact printed

theorem key_down_shows (keeps : Keeps history entries) (shows : Shows entries editor browsing) :
    Shows entries (editor.keyDown history) browsing.newer := by
  have nav := shows.nav
  have inside := shows.inside
  unfold Editor.keyDown
  split_ifs with deep first
  · have next : (editor.nav - 1).toNat = browsing.level - 2 := by omega
    dsimp only
    cases got : history.get (editor.nav - 1).toNat with
    | none =>
        have missing := keeps_missing keeps got
        omega
    | some found =>
        obtain ⟨room, entry, short, typed⟩ := keeps_found keeps got
        have level : browsing.newer.level = (editor.nav - 1).toNat + 1 := by
          simp only [Browsing.newer]
          omega
        have shown : browsing.newer.shown entries = slice found.1 found.2 := by
          rw [← entry, Browsing.shown, level]
        obtain ⟨line, printed⟩ := shows.loaded short typed (editor.nav - 1)
        refine ⟨?_, ?_, line.trans shown.symm, ?_, ?_, shows.draftTyped, ?_⟩
        · rw [level, load_entry_nav]
          omega
        · rw [level]
          exact room
        · intro _
          exact shows.saved (by omega)
        · rw [shown]
          exact typed
        · rw [shown]
          exact printed
  · have level : browsing.newer.level = 0 := by
      simp only [Browsing.newer]
      omega
    have shown : browsing.newer.shown entries = browsing.draft := by
      rw [Browsing.shown, level]
      rfl
    have saved := shows.saved (by omega)
    have short : browsing.draft.length < maxCmd := by
      rw [← saved, LineBuffer.length_as_bytes]
      exact editor.saved.fits
    have text : editor.saved.asStr = browsing.draft := by
      rw [LineBuffer.asStr, saved, typed_utf8 shows.draftTyped]
    have printed := shows.replaced short shows.draftTyped
    refine ⟨?_, ?_, saved.trans shown.symm, ?_, ?_, shows.draftTyped, ?_⟩
    · rw [level]
      rfl
    · rw [level]
      exact Nat.zero_le _
    · intro positive
      omega
    · rw [shown]
      exact shows.draftTyped
    · rw [shown]
      rw [← text] at printed ⊢
      exact printed
  · have same : browsing.newer = browsing := by
      rw [Browsing.newer, show browsing.level - 1 = browsing.level by omega]
    rw [same]
    exact shows

theorem edited_shows {line : List UInt8} (nav : editor.nav = -1)
    (bytes : editor.buf.asBytes = line) (typed : Typed line)
    (printed : Renders editor.printed line) : Shows entries editor (Browsing.edited line) := by
  refine ⟨?_, Nat.zero_le _, bytes, ?_, typed, typed, printed⟩
  · rw [nav]
    rfl
  · intro positive
    exact absurd positive (Nat.lt_irrefl 0)

theorem key_backspace_shows (shows : Shows entries editor browsing) :
    Shows entries editor.keyBackspace (Browsing.edited (browsing.shown entries).dropLast) := by
  have bytes := editor.buf.backspace_bytes
  have some_left := editor.buf.backspace_some
  have printed := shows.printed
  have typed : Typed (browsing.shown entries).dropLast := fun b member =>
    shows.typed b (List.dropLast_subset _ member)
  rw [shows.line] at bytes some_left
  unfold Editor.keyBackspace
  dsimp only
  split_ifs with erased
  · have filled := of_decide_eq_true (some_left.symm.trans erased)
    refine edited_shows rfl bytes typed ?_
    rw [← List.dropLast_append_getLast filled] at printed
    apply printed.rub_out
    have short := shows.short
    rw [List.length_dropLast]
    omega
  · have empty : browsing.shown entries = [] := by
      by_contra filled
      exact erased (some_left.trans (decide_eq_true filled))
    rw [empty] at bytes typed printed ⊢
    exact edited_shows rfl bytes typed printed

theorem key_char_shows (shows : Shows entries editor browsing) {c : UInt8}
    (visible : printable c = true) :
    Shows entries (editor.keyChar c)
      (Browsing.edited (Browsing.lengthened (browsing.shown entries) c)) := by
  have bytes := editor.buf.push_bytes c
  have room := editor.buf.push_room c
  have single : Typed [c] := by
    intro b member
    rw [List.mem_singleton.mp member]
    exact visible
  rw [shows.line] at bytes room
  unfold Editor.keyChar Browsing.lengthened
  dsimp only
  split_ifs at bytes ⊢ with pushed short short
  · refine edited_shows rfl bytes ?_ ?_
    · intro b member
      rcases List.mem_append.mp member with earlier | last
      · exact shows.typed b earlier
      · exact single b last
    · rw [typed_utf8 single]
      exact shows.printed.type shows.short visible
  · rw [pushed] at room
    exact absurd (of_decide_eq_true room.symm) short
  · exact absurd (room.trans (decide_eq_true short)) pushed
  · exact edited_shows rfl bytes shows.typed shows.printed

theorem press_shows (keeps : Keeps history entries) (shows : Shows entries editor browsing)
    (key : Key) : Shows entries (editor.press history key) (browsing.press entries key) := by
  cases key with
  | char c =>
      rw [Editor.press, Browsing.press]
      by_cases visible : printable c = true
      · rw [if_pos visible, if_pos visible]
        exact key_char_shows shows visible
      · rw [if_neg visible, if_neg visible]
        exact shows
  | backspace => exact key_backspace_shows shows
  | up => exact key_up_shows keeps shows
  | down => exact key_down_shows keeps shows
  | enter => exact shows
  | left => exact shows
  | right => exact shows
  | esc => exact shows
  | interrupt => exact shows

theorem press_all_shows (keeps : Keeps history entries) (shows : Shows entries editor browsing)
    (keys : List Key) :
    Shows entries (keys.foldl (Editor.press history) editor)
      (keys.foldl (Browsing.press entries) browsing) := by
  induction keys generalizing editor browsing with
  | nil => exact shows
  | cons key rest ih => exact ih (press_shows keeps shows key)

end Steps

inductive Arrow where
  | up
  | down
  deriving DecidableEq

def Arrow.key : Arrow → Key
  | .up => .up
  | .down => .down

/-- The level that an arrow leads to: Up goes back to the oldest of the entries at most,
Down forward to the line in progress at most. -/
def Arrow.moves (count level : Nat) : Arrow → Nat
  | .up => min (level + 1) count
  | .down => level - 1

/-- The level of arrows pressed at the line in progress. -/
def levelReached (count : Nat) (arrows : List Arrow) : Nat :=
  arrows.foldl (Arrow.moves count) 0

def upsDowns (k : Nat) : List Arrow := List.replicate k .up ++ List.replicate k .down

theorem ups_downs_keys (k : Nat) :
    (upsDowns k).map Arrow.key = List.replicate k Key.up ++ List.replicate k Key.down := by
  rw [upsDowns, List.map_append, List.map_replicate, List.map_replicate]
  rfl

namespace Browsing

variable (entries : List (List UInt8))

theorem arrows_draft (browsing : Browsing) (arrows : List Arrow) :
    ((arrows.map Arrow.key).foldl (press entries) browsing).draft = browsing.draft := by
  induction arrows generalizing browsing with
  | nil => rfl
  | cons arrow rest ih =>
      refine (ih _).trans ?_
      cases arrow <;> rfl

theorem arrows_level (browsing : Browsing) (arrows : List Arrow) :
    ((arrows.map Arrow.key).foldl (press entries) browsing).level =
      arrows.foldl (Arrow.moves entries.length) browsing.level := by
  induction arrows generalizing browsing with
  | nil => rfl
  | cons arrow rest ih =>
      refine (ih _).trans ?_
      cases arrow <;> rfl

theorem ups_level (browsing : Browsing) (inside : browsing.level ≤ entries.length) (k : Nat) :
    ((List.replicate k Key.up).foldl (press entries) browsing).level =
      min (browsing.level + k) entries.length := by
  induction k generalizing browsing with
  | zero => exact (Nat.min_eq_left inside).symm
  | succ k ih =>
      rw [List.replicate_succ, List.foldl_cons, ih _ (Nat.min_le_right _ _)]
      simp only [press, older]
      omega

theorem downs_level (browsing : Browsing) (k : Nat) :
    ((List.replicate k Key.down).foldl (press entries) browsing).level = browsing.level - k := by
  induction k generalizing browsing with
  | zero => rfl
  | succ k ih =>
      rw [List.replicate_succ, List.foldl_cons, ih]
      simp only [press, newer]
      omega

theorem at_draft {browsing : Browsing} {line : List UInt8} (draft : browsing.draft = line)
    (level : browsing.level = 0) : browsing = edited line := by
  cases browsing with
  | mk kept depth =>
      cases draft
      cases level
      rfl

theorem ups_downs (line : List UInt8) (k : Nat) :
    (List.replicate k Key.up ++ List.replicate k Key.down).foldl (press entries) (edited line) =
      edited line := by
  have draft := arrows_draft entries (edited line) (upsDowns k)
  have ups := ups_level entries (edited line) (Nat.zero_le _) k
  have downs := downs_level entries
    ((List.replicate k Key.up).foldl (press entries) (edited line)) k
  rw [ups_downs_keys] at draft
  rw [ups, ← List.foldl_append] at downs
  generalize (List.replicate k Key.up ++ List.replicate k Key.down).foldl (press entries)
    (edited line) = after at downs draft ⊢
  have level : after.level = 0 := by
    simp only [edited] at downs
    omega
  exact at_draft draft level

end Browsing

def afterArrows (history : History) (editor : Editor) (arrows : List Arrow) : Editor :=
  (arrows.map Arrow.key).foldl (Editor.press history) editor

/-- The line is on display, or the history entry that `nav` says, and it is what
the buffer holds. -/
def ShowsLineOrEntry (history : History) (line : List UInt8) (editor : Editor) : Prop :=
  editor.buf.asBytes = displayed editor.printed ∧
    (editor.nav = -1 ∧ displayed editor.printed = line ∨
      0 ≤ editor.nav ∧ history.entry editor.nav.toNat = some (displayed editor.printed))

def Restored (line : List UInt8) (editor : Editor) : Prop :=
  editor.nav = -1 ∧ editor.buf.asBytes = line ∧ displayed editor.printed = line

section Navigation

variable {history : History} {entries : List (List UInt8)} {editor : Editor} {browsing : Browsing}

theorem shows_line_or_entry (keeps : Keeps history entries)
    (shows : Shows entries editor browsing) :
    ShowsLineOrEntry history browsing.draft editor := by
  have nav := shows.nav
  have text := shows.printed.displayed_eq
  refine ⟨shows.line.trans text.symm, ?_⟩
  rw [text, Browsing.shown]
  cases level : browsing.level with
  | zero =>
      left
      exact ⟨by omega, rfl⟩
  | succ offset =>
      right
      have inside := shows.inside
      have nav_offset : editor.nav.toNat = offset := by omega
      refine ⟨by omega, ?_⟩
      have room : offset < entries.length := by omega
      rw [nav_offset, keeps.held]
      simp [List.getElem?_eq_getElem room]

theorem idle_edited (shows : Shows entries editor browsing) (idle : editor.nav = -1) :
    browsing = Browsing.edited editor.buf.asBytes := by
  have nav := shows.nav
  have level : browsing.level = 0 := by omega
  apply Browsing.at_draft _ level
  rw [shows.line, Browsing.shown, level]

end Navigation

theorem pushed_keeps (lines : List CommandLine) :
    Keeps (pushAll lines) ((recentLines lines).take histDepth) where
  held := pushed_entry lines
  commands := fun _ member => recent_command (List.mem_of_mem_take member)

theorem new_shows (entries : List (List UInt8)) :
    Shows entries Editor.new (Browsing.edited []) :=
  edited_shows rfl rfl (fun _ member => nomatch member) .nothing

theorem waiting_press {history : History} {first editor : Editor} {keys : List Key}
    (waiting : readLoop history first keys = .waiting editor) :
    editor = keys.foldl (Editor.press history) first := by
  induction keys generalizing first with
  | nil =>
      cases waiting
      rfl
  | cons key rest ih =>
      cases key with
      | enter => cases waiting
      | interrupt => cases waiting
      | _ => exact ih waiting

theorem history_navigation_lossless (lines : List CommandLine) (keys : List Key) :
    (∀ k, (pushAll lines).entry k =
      if k < min 16 (recentLines lines).length then (recentLines lines)[k]? else none) ∧
    ∀ editor, readLine (pushAll lines) keys = .waiting editor → editor.nav = -1 →
      (∀ arrows, ShowsLineOrEntry (pushAll lines) editor.buf.asBytes
          (afterArrows (pushAll lines) editor arrows) ∧
        (afterArrows (pushAll lines) editor arrows).nav + 1 =
          levelReached (min 16 (recentLines lines).length) arrows) ∧
      ∀ k, Restored editor.buf.asBytes (afterArrows (pushAll lines) editor (upsDowns k)) := by
  have keeps := pushed_keeps lines
  constructor
  · intro k
    rw [pushed_entry, List.getElem?_take]
    split_ifs with recent listed
    · rfl
    · have short : k < 16 := recent
      rw [List.getElem?_eq_none]
      omega
    · have long : ¬k < 16 := recent
      omega
    · rfl
  · intro editor waiting idle
    have shows := press_all_shows keeps (new_shows _) keys
    rw [← waiting_press waiting] at shows
    rw [idle_edited shows idle] at shows
    constructor
    · intro arrows
      have after := press_all_shows keeps shows (arrows.map Arrow.key)
      have result := shows_line_or_entry keeps after
      have nav := after.nav
      rw [Browsing.arrows_draft] at result
      rw [Browsing.arrows_level, List.length_take] at nav
      exact ⟨result, nav⟩
    · intro k
      have after := press_all_shows keeps shows ((upsDowns k).map Arrow.key)
      rw [ups_downs_keys, Browsing.ups_downs, ← ups_downs_keys] at after
      have nav : (afterArrows (pushAll lines) editor (upsDowns k)).nav + 1 = 0 := after.nav
      exact ⟨by omega, after.line, after.printed.displayed_eq⟩

end Ferrugem.HistoryNavigation
