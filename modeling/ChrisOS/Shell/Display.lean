import ChrisOS.Kernel.Terminal
import ChrisOS.Lib.Positions
import ChrisOS.Lib.Run
import ChrisOS.Shell.Editor

/-! The input line of shell/shell.c and what the screen shows of it.

A key changes the array input in one place and the screen in another.
-/

set_option autoImplicit false

namespace ChrisOS.Shell
open ChrisOS.Lib ChrisOS.Kernel ChrisOS.Ui Traced
open ChrisOS.Kernel.Kprintf (ch ascii)

def rgb (r g b : UInt8) : UInt32 := r.toUInt32 <<< 16 ||| g.toUInt32 <<< 8 ||| b.toUInt32

def colorPrompt : UInt32 := rgb 80 200 120
def colorTermFg : UInt32 := rgb 200 210 200

def makeColor (fg bg : UInt8) : UInt8 := fg ||| bg <<< 4

def setFg (gfxColor : UInt32) (vgaAttr : UInt8) (t : Terminal) : Terminal :=
  if t.fbActive then { t with gterm := { t.gterm with curFg := gfxColor } } else terminalSetcolor t vgaAttr

def terminalWrite (t : Terminal) : List UInt8 → Traced Ui.Access Terminal
  | [] => pure t
  | c :: data => do
    let t ← terminalPutchar t c
    terminalWrite t data

/-- The prompt, which is written in the same way behind every command. -/
def shellInit (t : Terminal) : Traced Ui.Access Terminal := do
  let t ← terminalWrite (setFg colorPrompt (makeColor 2 0) t) (ascii "chris os> ")
  pure (setFg colorTermFg (makeColor 7 0) t)

/-- What a backspace does to the screen if there is input. -/
def eraseLast (t : Terminal) : Traced Ui.Access Terminal :=
  if t.fbActive then do
    let gterm ← gtermPutchar t.gterm backspace
    pure { t with gterm }
  else if 0 < t.column then do
    let t := { t with column := t.column - 1 }
    let t ← terminalPutentryat (ch ' ') t.color t.column t.row t
    pure (moveCursor t)
  else pure t

/-- What a press does to the screen, before a command is executed. -/
def echo (y : Editor) (t : Terminal) : Press → Traced Ui.Access Terminal
  | .processChar c =>
    if c = newline then terminalPutchar t newline
    else if c = backspace then if 0 < y.inputLen then eraseLast t else pure t
    else if y.inputLen < inputSize - 1 then terminalPutchar t c
    else pure t
  | .historyUp | .historyDown | .cursorLeft | .cursorRight => pure t

/-! ### What is seen -/

/-- The character that is seen in each place. -/
def visible (t : Terminal) : Window UInt8 :=
  if t.fbActive then ⟨fun r c => (t.gterm.frame r c).1, t.gterm.curRow, t.gterm.curCol, t.gterm.scrolled⟩
  else ⟨fun r c => (entryAt t.buffer r c).1, t.row, t.column, t.scrolled⟩

def screenRows (t : Terminal) : Nat := if t.fbActive then gtermRows else vgaHeight

/-- How a character looks. -/
def look (t : Terminal) (c : UInt8) : UInt8 := if t.fbActive then glyph c else c

/-- The line that newline would execute. -/
def Editor.line (y : Editor) : List UInt8 := (List.range y.inputLen).map y.input

/-- The line that history_up would bring back. -/
def Editor.recalled (y : Editor) : List UInt8 := (List.range y.historyLen).map y.history

/-- The shell, the screen, and the position behind the last prompt. -/
structure Console where
  editor : Editor
  screen : Terminal
  prompt : Nat

namespace Console

/-- A prompt is written. -/
def prompted (y : Editor) (t : Terminal) : Console :=
  let t := (shellInit t).value
  ⟨y, t, (visible t).position vgaWidth⟩

/-- A key is pressed that is no newline. -/
def edit (c : Console) (k : Key) : Console where
  editor := (c.editor.press false k.press).value.1
  screen := (echo c.editor c.screen k.press).value
  prompt := c.prompt

/-- The characters between the prompt and the cursor. -/
def screenLine (c : Console) : List UInt8 :=
  (List.range ((visible c.screen).position vgaWidth - c.prompt)).map fun i => (visible c.screen).nth vgaWidth (c.prompt + i)

end Console

/-- Between the prompt and the cursor is the input line, and nothing behind the cursor. -/
structure Shown (c : Console) : Prop where
  inside : vgaWidth * (visible c.screen).scrolled ≤ c.prompt ∧ c.prompt ≤ (visible c.screen).position vgaWidth
  line : c.screenLine = c.editor.line
  behind : ∀ p, (visible c.screen).position vgaWidth ≤ p →
    p < vgaWidth * ((visible c.screen).scrolled + screenRows c.screen) → (visible c.screen).nth vgaWidth p = ch ' '

/-- The screen shows the end of what it was given. -/
inductive Settled (t : Terminal) : Prop where
  | text {p : Page UInt8} (follows : TextFollows t p)
  | graphical {p : Page UInt32} (active : t.fbActive = true) (follows : Ui.Follows t.gterm p)

/-- A newline ends in the next prompt, whatever the command has left on the screen. -/
inductive Step : Console → Key → Console → Prop where
  | newline {c : Console} (command : Terminal → Terminal)
      (settled : Settled (command (echo c.editor c.screen Key.newline.press).value)) :
      Step c .newline (.prompted (c.editor.press false Key.newline.press).value.1
        (command (echo c.editor c.screen Key.newline.press).value))
  | edit {c : Console} {k : Key} (edits : k ≠ .newline) : Step c k (c.edit k)

/-- The key is none of those that leave the screen behind. -/
def Admits (c : Console) : Key → Prop
  | .char x _ _ => c.screen.fbActive = true → c.editor.inputLen < inputSize - 1 → 32 ≤ x ∧ x ≤ 126
  | .backspace => 0 < c.editor.inputLen → 0 < (visible c.screen).col
  | .historyUp => c.editor.historyLen ≠ 0 → c.editor.recalled = c.editor.line
  | .historyDown => c.editor.inputLen = 0
  | .newline | .cursorLeft | .cursorRight => True

instance (c : Console) : (k : Key) → Decidable (Admits c k)
  | .char _ _ _ => inferInstanceAs (Decidable (_ → _ → _))
  | .backspace => inferInstanceAs (Decidable (_ → _))
  | .historyUp => inferInstanceAs (Decidable (_ → _))
  | .historyDown => inferInstanceAs (Decidable (_ = _))
  | .newline | .cursorLeft | .cursorRight => inferInstanceAs (Decidable True)

/-! ### The line on the screen -/

/-- The sheet ends in the line, from the position on. -/
def Typed {C : Type} (start : Nat) (s : Sheet (UInt8 × C)) (chars : List UInt8) : Prop :=
  ∃ l, Sheet.Ends vgaWidth start s l ∧ l.map Prod.fst = chars

/-- What the screen was given ends in the line. -/
inductive Display (t : Terminal) (start : Nat) (chars : List UInt8) : Prop where
  | text {p : Page UInt8} (follows : TextFollows t p) (typed : Typed start p.sheet chars)
  | graphical {p : Page UInt32} (active : t.fbActive = true) (follows : Ui.Follows t.gterm p)
      (typed : Typed start p.sheet chars)

namespace Typed
variable {C : Type} {start : Nat} {s : Sheet (UInt8 × C)} {chars : List UInt8}

theorem put (typed : Typed start s chars) (x : UInt8) (k : C) (room : s.cur.length < vgaWidth) :
    Typed start (s.put vgaWidth (x, k)) (chars ++ [x]) := by
  obtain ⟨l, ends, rfl⟩ := typed
  exact ⟨l ++ [(x, k)], ends.put _ room, List.map_append⟩

theorem putLate (typed : Typed start s chars) (x : UInt8) (k : C) (fits : s.cur.length ≤ vgaWidth) :
    Typed start (s.putLate vgaWidth (x, k)) (chars ++ [x]) := by
  obtain ⟨l, ends, rfl⟩ := typed
  exact ⟨l ++ [(x, k)], ends.putLate _ (Nat.zero_lt_succ _) fits, List.map_append⟩

theorem erase (typed : Typed start s chars) (more : chars ≠ []) (some : s.cur ≠ []) (fits : s.cur.length ≤ vgaWidth) :
    Typed start s.erase chars.dropLast := by
  obtain ⟨l, ends, rfl⟩ := typed
  exact ⟨l.dropLast, ends.erase (fun none => more (congrArg _ none)) some fits, List.map_dropLast⟩

/-- The line is seen as it looks. -/
theorem seen (typed : Typed start s chars) {height : Nat} {v : Window (UInt8 × C)} {w : Window UInt8}
    (shows : Shows vgaWidth height Blank v s) (short : chars.length ≤ vgaWidth * (height - 1)) (f : UInt8 → UInt8)
    (place : w.row = v.row ∧ w.col = v.col ∧ w.scrolled = v.scrolled)
    (cells : ∀ r c, r < height → c < vgaWidth → w.cells r c = f (v.cells r c).1) (space : f (ch ' ') = ch ' ') :
    vgaWidth * w.scrolled ≤ start ∧ w.position vgaWidth = start + chars.length ∧
      (∀ i, (inside : i < chars.length) → w.nth vgaWidth (start + i) = f chars[i]) ∧
      ∀ p, w.position vgaWidth ≤ p → p < vgaWidth * (w.scrolled + height) → w.nth vgaWidth p = ch ' ' := by
  obtain ⟨l, ends, rfl⟩ := typed
  have mapped : Shows vgaWidth height (· = ch ' ') w (s.map fun cell => f cell.1) :=
    shows.map _ place cells fun x blank => (congrArg f blank).trans space
  have ends' := ends.map fun cell => f cell.1
  have length : (l.map fun cell => f cell.1).length = (l.map Prod.fst).length := by
    rw [List.length_map, List.length_map]
  obtain ⟨same, behind⟩ := mapped.ends_seen (Nat.zero_lt_succ _) ends' (length.le.trans short)
  refine ⟨mapped.start_visible ends' (length.le.trans short), ?_, fun i inside => ?_, behind⟩
  · rw [mapped.position, ends'.position, length]
  · rw [same i (inside.trans_eq length.symm), List.getElem_map, List.getElem_map]

end Typed

/-! ### Prompts -/

section
variable {t : Terminal}

theorem terminalPutchar_graphical (active : t.fbActive = true) (c : UInt8) :
    (terminalPutchar t c).value = { t with gterm := (gtermPutchar t.gterm c).value } := by
  rw [terminalPutchar, if_pos active]
  rfl

theorem Settled.putchar (settled : Settled t) (c : UInt8) : Settled (terminalPutchar t c).value := by
  cases settled with
  | text follows => exact .text (terminalPutchar_follows follows c).2
  | graphical active follows =>
    rw [terminalPutchar_graphical active]
    exact .graphical active (gtermPutchar_follows follows c).2

theorem Settled.setFg (settled : Settled t) (gfxColor : UInt32) (vgaAttr : UInt8) : Settled (setFg gfxColor vgaAttr t) := by
  cases settled with
  | @text p follows =>
    rw [Shell.setFg, if_neg follows.inactive]
    exact .text (p := ⟨p.sheet, vgaAttr⟩) ⟨follows.text, follows.shows, rfl, follows.room⟩
  | @graphical p active follows =>
    rw [Shell.setFg, if_pos active]
    exact .graphical (p := ⟨p.sheet, gfxColor⟩) active ⟨follows.shows, rfl, follows.painted⟩

theorem Settled.write (settled : Settled t) (data : List UInt8) : Settled (terminalWrite t data).value := by
  induction data generalizing t with
  | nil => exact settled
  | cons c data ih => exact ih (settled.putchar c)

theorem Settled.shellInit (settled : Settled t) : Settled (shellInit t).value := by
  rw [Shell.shellInit, value_bind, value_pure]
  exact ((settled.setFg _ _).write _).setFg _ _

/-- Nothing is typed behind a prompt. -/
theorem Settled.display (settled : Settled t) : Display t ((visible t).position vgaWidth) [] := by
  cases settled with
  | @text p follows =>
    have place : (visible t).position vgaWidth = p.sheet.position vgaWidth := by
      rw [visible, if_neg follows.inactive, ← follows.shows.position]
      rfl
    rw [place]
    exact .text follows ⟨[], .nil _ _, rfl⟩
  | @graphical p active follows =>
    have place : (visible t).position vgaWidth = p.sheet.position vgaWidth := by
      rw [visible, if_pos active]
      exact follows.shows.position
    rw [place]
    exact .graphical active follows ⟨[], .nil _ _, rfl⟩

end

/-! ### Lines -/

theorem look_eq_iff (t : Terminal) {x : UInt8} (nonzero : x ≠ 0) :
    look t x = x ↔ (t.fbActive = true → 32 ≤ x ∧ x ≤ 126) := by
  have font : ∀ x : UInt8, x ≠ 0 → (glyph x = x ↔ 32 ≤ x ∧ x ≤ 126) := by decide +kernel
  cases active : t.fbActive with
  | true => simp [look, active, font x nonzero]
  | false => simp [look, active]

namespace Display
variable {t : Terminal} {start : Nat} {chars : List UInt8}

theorem seen (display : Display t start chars) (short : chars.length ≤ 255) :
    vgaWidth * (visible t).scrolled ≤ start ∧ (visible t).position vgaWidth = start + chars.length ∧
      (∀ i, (inside : i < chars.length) → (visible t).nth vgaWidth (start + i) = look t chars[i]) ∧
      ∀ p, (visible t).position vgaWidth ≤ p → p < vgaWidth * ((visible t).scrolled + screenRows t) →
        (visible t).nth vgaWidth p = ch ' ' := by
  cases display with
  | text follows typed =>
    have plain : look t = fun x => x := funext fun _ => if_neg follows.inactive
    rw [plain, visible, screenRows, if_neg follows.inactive, if_neg follows.inactive]
    exact typed.seen follows.shows (short.trans (by decide)) (fun x => x) ⟨rfl, rfl, rfl⟩ (fun _ _ _ _ => rfl) rfl
  | graphical active follows typed =>
    have drawn : look t = glyph := funext fun _ => if_pos active
    rw [drawn, visible, screenRows, if_pos active, if_pos active]
    exact typed.seen follows.shows (short.trans (by decide)) _ ⟨rfl, rfl, rfl⟩
      (fun r c high wide => congrArg Prod.fst (follows.painted r c high wide)) (by decide)

/-- What is shown is how the line on the screen looks. -/
theorem shown_iff (display : Display t start chars) (short : chars.length ≤ 255) (y : Editor) :
    Shown ⟨y, t, start⟩ ↔ chars.map (look t) = y.line := by
  obtain ⟨first, place, same, behind⟩ := display.seen short
  have line : Console.screenLine ⟨y, t, start⟩ = chars.map (look t) := by
    have length : (visible t).position vgaWidth - start = (chars.map (look t)).length := by
      rw [place, List.length_map, Nat.add_sub_cancel_left]
    rw [Console.screenLine, length]
    refine map_range_eq fun i inside => ?_
    rw [List.getElem_map]
    exact same i _
  constructor
  · intro shown
    exact line.symm.trans shown.line
  · intro equal
    exact ⟨⟨first, place ▸ Nat.le_add_right _ _⟩, line.trans equal, behind⟩

theorem putchar (display : Display t start chars) {x : UInt8} (plain : x ≠ newline ∧ x ≠ backspace) :
    Display (terminalPutchar t x).value start (chars ++ [x]) ∧ (terminalPutchar t x).value.fbActive = t.fbActive := by
  have line : x ≠ 0x0A := plain.1
  have back : x ≠ 0x08 := plain.2
  cases display with
  | @text p follows typed =>
    have next := (terminalPutchar_follows follows x).2
    rw [textLayout, if_neg line] at next
    have room : p.sheet.cur.length < vgaWidth := follows.shows.col ▸ follows.room
    exact ⟨.text next (typed.put x _ room), next.text.trans follows.text.symm⟩
  | @graphical p active follows typed =>
    have next := (gtermPutchar_follows follows x).2
    rw [Page.graphical, if_neg line, if_neg back] at next
    have fits : p.sheet.cur.length ≤ vgaWidth := follows.shows.col ▸ follows.shows.col_le
    rw [terminalPutchar_graphical active]
    exact ⟨.graphical active next (typed.putLate x _ fits), rfl⟩

/-- In the first column nothing is erased. -/
theorem erase_none (first : (visible t).col = 0) : (eraseLast t).value = t := by
  cases active : t.fbActive with
  | true =>
    rw [visible, if_pos active] at first
    have none : ¬ t.gterm.curCol > 0 := Nat.not_lt_of_le (Nat.le_of_eq first)
    rw [eraseLast, if_pos active, gtermPutchar, if_neg (by decide), if_pos (by decide), if_neg none]
    rfl
  | false =>
    have text : ¬ t.fbActive = true := by simp [active]
    rw [visible, if_neg text] at first
    have none : ¬ 0 < t.column := Nat.not_lt_of_le (Nat.le_of_eq first)
    rw [eraseLast, if_neg text, if_neg none, value_pure]

theorem value_eraseLast (text : t.fbActive = false) (some : 0 < t.column) : (eraseLast t).value = moveCursor { t with
    column := t.column - 1
    buffer := Function.update t.buffer (t.row * vgaWidth + (t.column - 1)) (vgaEntry (ch ' ') t.color) } := by
  rw [eraseLast, if_neg (by simp [text]), if_pos some]
  exact congrArg moveCursor (value_terminalPutentryat (t := { t with column := t.column - 1 }) text ..)

/-- In the text buffer the last character becomes a blank. -/
theorem eraseLast_erases (text : t.fbActive = false) (some : 0 < t.column) (room : t.column < vgaWidth) :
    Erases vgaWidth vgaHeight Blank t.view (eraseLast t).value.view ∧ (eraseLast t).value.fbActive = t.fbActive ∧
      (eraseLast t).value.color = t.color := by
  have inside : t.column - 1 < vgaWidth := Nat.lt_of_le_of_lt (Nat.sub_le _ _) room
  have cells (r c : Nat) (wide : c < vgaWidth) := entryAt_set (y := t.row) inside (vgaEntry (ch ' ') t.color) t.buffer (r := r) wide
  obtain ⟨view, active, color⟩ := moveCursor_keeps { t with
    column := t.column - 1
    buffer := Function.update t.buffer (t.row * vgaWidth + (t.column - 1)) (vgaEntry (ch ' ') t.color) }
  rw [value_eraseLast text some, view, active, color]
  refine ⟨⟨rfl, Nat.sub_add_cancel some, rfl, ?_, fun r c _ wide other => ?_⟩, rfl, rfl⟩
  · have here := cells t.row (t.column - 1) inside
    rw [if_pos ⟨rfl, rfl⟩, cellOf_vgaEntry] at here
    exact congrArg Prod.fst here
  · exact (cells r c wide).trans (if_neg other)

theorem erase (display : Display t start chars) (more : chars ≠ []) (some : 0 < (visible t).col) :
    Display (eraseLast t).value start chars.dropLast ∧ (eraseLast t).value.fbActive = t.fbActive := by
  cases display with
  | @text p follows typed =>
    rw [visible, if_neg follows.inactive] at some
    obtain ⟨erases, active, color⟩ := eraseLast_erases follows.text some follows.room
    have place : t.column = p.sheet.cur.length := follows.shows.col
    have room := follows.room
    have next : TextFollows (eraseLast t).value ⟨p.sheet.erase, p.color⟩ := by
      refine ⟨active.trans follows.text, follows.shows.erase erases, color.trans follows.color, ?_⟩
      have back : (eraseLast t).value.column + 1 = t.column := erases.col
      omega
    exact ⟨.text next (typed.erase more (List.ne_nil_of_length_pos (place ▸ some)) (by omega)), active⟩
  | @graphical p active follows typed =>
    rw [visible, if_pos active] at some
    have place : t.gterm.curCol = p.sheet.cur.length := follows.shows.col
    have fits : p.sheet.cur.length ≤ vgaWidth := place ▸ follows.shows.col_le
    have next := (gtermPutchar_follows follows backspace).2
    rw [Page.graphical, if_neg (by decide), if_pos (by decide)] at next
    rw [eraseLast, if_pos active]
    exact ⟨.graphical active next (typed.erase more (List.ne_nil_of_length_pos (place ▸ some)) fits), rfl⟩

end Display

/-! ### Keys -/

theorem Represents.line {y : Editor} {r : Reference} (rep : Represents y r) : y.line = r.line.chars := by
  rw [Editor.line, rep.inputLen]
  exact map_range_eq rep.input.chars

/-- The screen has characters that look like the line exactly if it is admitted, and then they are its own. -/
def Judged (t : Terminal) (start : Nat) (line : List UInt8) (admitted : Prop) : Prop :=
  ∃ chars, Display t start chars ∧ chars.length ≤ 255 ∧ (chars.map (look t) = line ↔ admitted) ∧ (admitted → chars = line)

/-- The screen has the input line, every character of which looks as it is. -/
structure OnScreen (c : Console) (r : Reference) : Prop where
  represents : Represents c.editor r
  display : Display c.screen c.prompt r.line.chars
  plain : r.line.chars.map (look c.screen) = r.line.chars

namespace OnScreen
variable {c : Console} {r : Reference}

theorem shown (on : OnScreen c r) : Shown c :=
  (on.display.shown_iff r.line.fits c.editor).mpr (on.plain.trans on.represents.line.symm)

theorem prompted {y : Editor} (rep : Represents y r) (empty : r.line.chars = []) {t : Terminal} (settled : Settled t) :
    OnScreen (.prompted y t) r := by
  refine ⟨rep, ?_, ?_⟩
  · rw [empty]
    exact settled.shellInit.display
  · rw [empty, List.map_nil]

theorem unchanged (on : OnScreen c r) {line : List UInt8} {admitted : Prop} (same : r.line.chars = line ↔ admitted) :
    Judged c.screen c.prompt line admitted := by
  refine ⟨r.line.chars, on.display, r.line.fits, ?_, same.mpr⟩
  rw [on.plain]
  exact same

theorem char (on : OnScreen c r) {x : UInt8} (nonzero : x ≠ 0) (plain : x ≠ newline ∧ x ≠ backspace) :
    Judged (echo c.editor c.screen (.processChar x)).value c.prompt (r.line.append x nonzero).chars
      (Admits c (.char x nonzero plain)) := by
  have inputLen := on.represents.inputLen
  rw [echo, if_neg plain.1, if_neg plain.2, Text.append]
  by_cases room : c.editor.inputLen < inputSize - 1
  · have fits : r.line.chars.length < 255 := inputLen ▸ room
    obtain ⟨display, active⟩ := on.display.putchar plain
    have same : look (terminalPutchar c.screen x).value = look c.screen := funext fun _ => by rw [look, look, active]
    rw [if_pos room, dif_pos fits]
    refine ⟨_, display, ?_, ?_, fun _ => rfl⟩
    · rw [List.length_append, List.length_singleton]
      exact fits
    · rw [same, List.map_append, on.plain, List.map_singleton, List.append_right_inj, List.singleton_inj, look_eq_iff _ nonzero]
      exact ⟨fun font active _ => font active, fun admits active => admits active room⟩
  · have full : ¬ r.line.chars.length < 255 := inputLen ▸ room
    rw [if_neg room, dif_neg full]
    exact on.unchanged (iff_of_true rfl fun _ more => absurd more room)

theorem backspace (on : OnScreen c r) :
    Judged (echo c.editor c.screen (.processChar backspace)).value c.prompt r.line.dropLast.chars (Admits c .backspace) := by
  have inputLen := on.represents.inputLen
  rw [echo, if_neg (by decide), if_pos rfl]
  by_cases some : 0 < c.editor.inputLen
  · have more : r.line.chars ≠ [] := List.ne_nil_of_length_pos (inputLen ▸ some)
    rw [if_pos some]
    rcases Nat.eq_zero_or_pos (visible c.screen).col with first | behind
    · rw [Display.erase_none first]
      refine on.unchanged (iff_of_false (fun same => ?_) fun admits => Nat.ne_of_gt (admits some) first)
      have shorter := congrArg List.length same
      rw [Text.dropLast, List.length_dropLast] at shorter
      omega
    · obtain ⟨display, active⟩ := on.display.erase more behind
      have same : look (eraseLast c.screen).value = look c.screen := funext fun _ => by rw [look, look, active]
      refine ⟨_, display, r.line.dropLast.fits, iff_of_true ?_ fun _ => behind, fun _ => rfl⟩
      rw [same, List.map_dropLast, on.plain]
      rfl
  · have empty : r.line.chars = [] := List.eq_nil_of_length_eq_zero (by omega)
    have same : r.line.chars.dropLast = r.line.chars := by rw [empty, List.dropLast_nil]
    rw [if_neg some]
    exact on.unchanged (iff_of_true same.symm fun more => absurd more some)

theorem historyUp (on : OnScreen c r) :
    Judged c.screen c.prompt ((r.last.map Subtype.val).getD r.line).chars (Admits c .historyUp) := by
  have remembers := on.represents.remembers
  have line := on.represents.line
  refine on.unchanged ?_
  cases known : r.last with
  | none =>
    rw [known] at remembers
    exact iff_of_true rfl fun some => absurd remembers some
  | some t =>
    rw [known] at remembers
    obtain ⟨held, length⟩ := remembers
    have recalled : c.editor.recalled = t.val.chars := by
      rw [Editor.recalled, length]
      exact map_range_eq held.chars
    have some : c.editor.historyLen ≠ 0 := length ▸ (List.length_pos_iff.mpr t.property).ne'
    rw [Admits, recalled, line]
    exact ⟨fun same _ => same.symm, fun same => (same some).symm⟩

theorem historyDown (on : OnScreen c r) : Judged c.screen c.prompt [] (Admits c .historyDown) := by
  refine on.unchanged ?_
  rw [Admits, on.represents.inputLen, List.length_eq_zero_iff]

/-- Every key but newline. -/
theorem edit (on : OnScreen c r) {k : Key} (edits : k ≠ .newline) :
    Judged (echo c.editor c.screen k.press).value c.prompt (r.next k).1.line.chars (Admits c k) := by
  cases k with
  | char x nonzero plain => exact on.char nonzero plain
  | backspace => exact on.backspace
  | newline => exact absurd rfl edits
  | historyUp => exact on.historyUp
  | historyDown => exact on.historyDown
  | cursorLeft | cursorRight => exact on.unchanged (iff_of_true rfl trivial)

end OnScreen

theorem Step.judged {c d : Console} {k : Key} (step : Step c k d) {r : Reference} (on : OnScreen c r) :
    (Shown d ↔ Admits c k) ∧ (Admits c k → OnScreen d (r.next k).1) := by
  have rep := (press_follows on.represents k).represents
  cases step with
  | newline command settled =>
    have next : OnScreen _ (r.next .newline).1 := .prompted rep rfl settled
    exact ⟨iff_of_true next.shown trivial, fun _ => next⟩
  | edit edits =>
    obtain ⟨chars, display, short, seen, own⟩ := on.edit edits
    constructor
    · rw [Console.edit, display.shown_iff short, rep.line]
      exact seen
    · intro admits
      have plain := seen.mpr admits
      rw [own admits] at display plain
      exact ⟨rep, display, plain⟩

/-- From a prompt on, the screen shows the input line after every key exactly as long as none
of the keys leaves the screen behind. -/
theorem line_shown_iff {y : Editor} {r : Reference} (rep : Represents y r) (empty : r.line = Text.empty) {t : Terminal}
    (settled : Settled t) {moves : List (Move Console Key)} {c : Console} (run : Run Step (.prompted y t) moves c) :
    Shown (.prompted y t) ∧ ((∀ m ∈ moves, Shown m.after) ↔ ∀ m ∈ moves, Admits m.before m.event) := by
  have start : OnScreen (.prompted y t) r := .prompted rep (congrArg Text.chars empty) settled
  refine ⟨start.shown, run.good_iff (fun c => ∃ r, OnScreen c r) Admits (fun _ _ d => Shown d) ?_ ?_ ⟨r, start⟩⟩
  · rintro c k d ⟨r, on⟩ admits step
    exact ⟨_, (step.judged on).2 admits⟩
  · rintro c k d ⟨r, on⟩ step
    exact (step.judged on).1

/-- The text terminal when the kernel has cleared it. -/
def textTerminal : Terminal :=
  ⟨false, 0, 0, 7, fun _ => vgaEntry (ch ' ') 7, 0, 0, ⟨0, 0, 0, ⟨fun _ _ => 0, fun _ _ => 0⟩, fun _ _ => (0, 0), 0⟩⟩

theorem textTerminal_settled : Settled textTerminal := by
  have blank : ∀ r c, r < vgaHeight → c < vgaWidth → Blank (entryAt textTerminal.buffer r c) := fun _ _ _ _ =>
    congrArg Prod.fst (cellOf_vgaEntry (ch ' ') 7)
  exact .text (p := ⟨Sheet.empty, 7⟩) ⟨rfl, .start (by decide) ⟨rfl, rfl, rfl⟩ blank, rfl, Nat.zero_lt_succ _⟩

def letterA : Key := .char 0x61 (by decide) (by decide)

/-- A letter is typed twice and taken back once. -/
theorem line_shown_typed : ∃ moves c, Run Step (.prompted .boot textTerminal) moves c ∧
    moves.map Move.event = [letterA, letterA, .backspace] ∧ c.screenLine = ascii "a" ∧ ∀ m ∈ moves, Shown m.after := by
  have run : Run Step (.prompted .boot textTerminal) _ _ :=
    .cons (.edit (k := letterA) nofun) <| .cons (.edit (k := letterA) nofun) <| .cons (.edit (k := .backspace) nofun) <| .nil _
  refine ⟨_, _, run, rfl, by decide +kernel, (line_shown_iff boot_represents rfl textTerminal_settled run).2.mpr ?_⟩
  simp only [List.forall_mem_cons, List.not_mem_nil, false_implies, implies_true, and_true]
  exact ⟨by decide +kernel, by decide +kernel, by decide +kernel⟩

/-- After the line a the key up brings it back, but not to the screen. -/
theorem recalled_unseen : ∃ moves c, Run Step (.prompted .boot textTerminal) moves c ∧
    moves.map Move.event = [letterA, .newline, .historyUp] ∧ c.editor.line = ascii "a" ∧ c.screenLine = [] ∧ ¬ Shown c := by
  have typed : Settled ((Console.prompted .boot textTerminal).edit letterA).screen := textTerminal_settled.shellInit.putchar 0x61
  have run : Run Step (.prompted .boot textTerminal) _ _ :=
    .cons (.edit (k := letterA) nofun) <|
      .cons (.newline (fun t => (terminalWrite t (ascii "unknown command: a\n")).value) ((typed.putchar newline).write _)) <|
      .cons (.edit (k := .historyUp) nofun) <| .nil _
  refine ⟨_, _, run, rfl, by decide +kernel, by decide +kernel, fun shown => ?_⟩
  exact absurd shown.line (by decide +kernel)

end ChrisOS.Shell
