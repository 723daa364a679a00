import ChrisOS.Kernel.Kprintf
import ChrisOS.Lib.Counted
import ChrisOS.Lib.Sheet

/-! The terminal of ui/gterm.c, on cells of the frame buffer. -/

set_option autoImplicit false

namespace ChrisOS.Ui
open ChrisOS.Lib ChrisOS.Lib.Counted Traced
open ChrisOS.Kernel.Kprintf (ch)

def gtermCols : Nat := 80

def gtermRows : Nat := 24

/-- An access to a cell, of the arrays here or of the VGA text buffer. -/
inductive Access where
  | cellChar (row col : Nat)
  | cellFg (row col : Nat)
  | vga (i : Nat)

def Access.Inside : Access → Prop
  | .cellChar row col | .cellFg row col => row < gtermRows ∧ col < gtermCols
  | .vga i => i < 25 * 80

/-- The arrays cell_char and cell_fg. -/
structure Cells where
  char : Nat → Nat → UInt8
  fg : Nat → Nat → UInt32

def Cells.at (cells : Cells) (r c : Nat) : UInt8 × UInt32 := (cells.char r c, cells.fg r c)

def Cells.set (cells : Cells) (row col : Nat) (char : UInt8) (fg : UInt32) : Cells where
  char r c := if r = row ∧ c = col then char else cells.char r c
  fg r c := if r = row ∧ c = col then fg else cells.fg r c

/-- A character and its colour, as they are drawn in the place of each cell. -/
abbrev Frame := Nat → Nat → UInt8 × UInt32

/-- The variables of the terminal. -/
structure Gterm where
  curCol : Nat
  curRow : Nat
  curFg : UInt32
  cells : Cells
  frame : Frame
  /-- How often scroll_up was called. Nothing depends on it. -/
  scrolled : Nat

/-- The glyph that draw_char chooses for a char. -/
def drawChar (c : UInt8) : UInt8 := if c.toInt8.toInt < 32 ∨ 126 < c.toInt8.toInt then ch '?' else c

def glyph (c : UInt8) : UInt8 := drawChar (if c = 0 then ch ' ' else c)

def redrawCell (cells : Cells) (col row : Nat) (frame : Frame) : Traced Access Frame := do
  emit (.cellChar row col)
  emit (.cellFg row col)
  let drawn := (glyph (cells.char row col), cells.fg row col)
  pure fun r c => if r = row ∧ c = col then drawn else frame r c

/-- The window around the cells is drawn first. -/
def redrawAll (g : Gterm) : Traced Access Gterm := do
  let frame ← forUp (fun r => forUp (fun c => redrawCell g.cells c r) gtermCols) gtermRows g.frame
  pure { g with frame }

def setCell (row col : Nat) (char : UInt8) (fg : UInt32) (cells : Cells) : Traced Access Cells := do
  emit (.cellChar row col)
  emit (.cellFg row col)
  pure (cells.set row col char fg)

/-- A cell takes what the one below it holds. -/
def copyUp (r c : Nat) (cells : Cells) : Traced Access Cells := do
  emit (.cellChar (r + 1) c)
  emit (.cellFg (r + 1) c)
  setCell r c (cells.char (r + 1) c) (cells.fg (r + 1) c) cells

def scrollUp (g : Gterm) : Traced Access Gterm := do
  let cells ← forUp (fun r => forUp (copyUp r) gtermCols) (gtermRows - 1) g.cells
  let cells ← forUp (fun c => setCell (gtermRows - 1) c (ch ' ') g.curFg) gtermCols cells
  redrawAll { g with cells, curRow := gtermRows - 1, scrolled := g.scrolled + 1 }

def gtermClear (g : Gterm) : Traced Access Gterm := do
  let cells ← forUp (fun r => forUp (fun c => setCell r c (ch ' ') g.curFg) gtermCols) gtermRows g.cells
  redrawAll { g with cells, curCol := 0, curRow := 0, scrolled := 0 }

/-- `cur_col = 0; cur_row++; if (cur_row >= GTERM_ROWS) scroll_up();` -/
def nextRow (g : Gterm) : Traced Access Gterm :=
  if g.curRow + 1 ≥ gtermRows then scrollUp { g with curCol := 0, curRow := g.curRow + 1 }
  else pure { g with curCol := 0, curRow := g.curRow + 1 }

/-- A char goes to the cell of the cursor. -/
def placeChar (g : Gterm) (c : UInt8) : Traced Access Gterm := do
  let cells ← setCell g.curRow g.curCol c g.curFg g.cells
  let frame ← redrawCell cells g.curCol g.curRow g.frame
  pure { g with cells, frame, curCol := g.curCol + 1 }

/-- The cell before the cursor goes blank in its old colour. -/
def eraseChar (g : Gterm) : Traced Access Gterm := do
  let curCol := g.curCol - 1
  emit (.cellChar g.curRow curCol)
  let cells := g.cells.set g.curRow curCol (ch ' ') (g.cells.fg g.curRow curCol)
  let frame ← redrawCell cells curCol g.curRow g.frame
  pure { g with cells, frame, curCol }

def gtermPutchar (g : Gterm) (c : UInt8) : Traced Access Gterm :=
  if c = 0x0A then nextRow g
  else if c = 0x08 then if g.curCol > 0 then eraseChar g else pure g
  else if g.curCol ≥ gtermCols then do
    let g ← nextRow g
    placeChar g c
  else placeChar g c

/-- The cells as a window. -/
def Gterm.view (g : Gterm) : Window (UInt8 × UInt32) where
  cells := g.cells.at
  row := g.curRow
  col := g.curCol
  scrolled := g.scrolled

/-- A cell that looks like nothing. -/
def Blank {C : Type} (cell : UInt8 × C) : Prop := cell.1 = ch ' '

/-- What is drawn in the place of a cell. -/
def drawn (cell : UInt8 × UInt32) : UInt8 × UInt32 := (glyph cell.1, cell.2)

/-- The frame buffer has what the cells hold. -/
def Painted (g : Gterm) : Prop := ∀ r c, r < gtermRows → c < gtermCols → g.frame r c = drawn (g.cells.at r c)

/-! ### Cells -/

theorem set_at (cells : Cells) (row col : Nat) (char : UInt8) (fg : UInt32) (r c : Nat) :
    (cells.set row col char fg).at r c = if r = row ∧ c = col then (char, fg) else cells.at r c := by
  by_cases here : r = row ∧ c = col
  · rw [if_pos here]
    exact Prod.ext (if_pos here) (if_pos here)
  · rw [if_neg here]
    exact Prod.ext (if_neg here) (if_neg here)

theorem value_setCell (row col : Nat) (char : UInt8) (fg : UInt32) (cells : Cells) :
    (setCell row col char fg cells).value = cells.set row col char fg := rfl

theorem setCell_inside {row col : Nat} (inside : row < gtermRows ∧ col < gtermCols) (char : UInt8) (fg : UInt32)
    (cells : Cells) : All Access.Inside (setCell row col char fg cells) := by
  rw [setCell, all_bind_iff, all_emit_iff, all_bind_iff, all_emit_iff]
  exact ⟨inside, inside, all_pure _⟩

theorem value_redrawCell (cells : Cells) (col row : Nat) (frame : Frame) (r c : Nat) :
    (redrawCell cells col row frame).value r c = if r = row ∧ c = col then drawn (cells.at row col) else frame r c := rfl

theorem redrawCell_inside {row col : Nat} (inside : row < gtermRows ∧ col < gtermCols) (cells : Cells) (frame : Frame) :
    All Access.Inside (redrawCell cells col row frame) := by
  rw [redrawCell, all_bind_iff, all_emit_iff, all_bind_iff, all_emit_iff]
  exact ⟨inside, inside, all_pure _⟩

theorem copyUp_inside {r c : Nat} (inside : r + 1 < gtermRows ∧ c < gtermCols) (cells : Cells) :
    All Access.Inside (copyUp r c cells) := by
  rw [copyUp, all_bind_iff, all_emit_iff, all_bind_iff, all_emit_iff]
  exact ⟨inside, inside, setCell_inside ⟨Nat.lt_of_succ_lt inside.1, inside.2⟩ _ _ _⟩

/-! ### Loops over the cells -/

/-- Nothing but the frame buffer changes. -/
theorem redrawAll_keeps (g : Gterm) : (redrawAll g).value.view = g.view ∧ (redrawAll g).value.curFg = g.curFg := by
  rw [redrawAll, value_bind, value_pure]
  exact ⟨rfl, rfl⟩

theorem redrawAll_painted (g : Gterm) : Painted (redrawAll g).value := by
  intro r c high wide
  have loop := forUp_grid (fun (frame : Frame) => frame) (fun _ r c => drawn (g.cells.at r c)) (fun _ _ => rfl)
    (fun r c => redrawCell g.cells c r) g.frame (n := gtermRows) (fun _ _ _ => value_redrawCell ..) (r := r) wide
  rw [if_pos high] at loop
  exact loop

theorem redrawAll_inside (g : Gterm) : All Access.Inside (redrawAll g) := by
  rw [redrawAll, all_bind_iff]
  exact ⟨forUp_all fun high => forUp_all fun wide => redrawCell_inside ⟨high, wide⟩ _ _, all_pure _⟩

/-- A cleared terminal is blank. -/
theorem gtermClear_spec (g : Gterm) : All Access.Inside (gtermClear g) ∧ Painted (gtermClear g).value ∧
    (gtermClear g).value.curFg = g.curFg ∧ Shows gtermCols gtermRows Blank (gtermClear g).value.view Sheet.empty := by
  have inside {cells : Cells} : All Access.Inside
      (forUp (fun r => forUp (fun c => setCell r c (ch ' ') g.curFg) gtermCols) gtermRows cells) :=
    forUp_all fun high => forUp_all fun wide => setCell_inside ⟨high, wide⟩ _ _ _
  rw [gtermClear, all_bind_iff, value_bind, (redrawAll_keeps _).1, (redrawAll_keeps _).2]
  refine ⟨⟨inside, redrawAll_inside _⟩, redrawAll_painted _, rfl, .start (by decide) ⟨rfl, rfl, rfl⟩ fun r c high wide => ?_⟩
  have loop := forUp_grid Cells.at (fun _ _ _ => (ch ' ', g.curFg)) (fun _ _ => rfl)
    (fun r c => setCell r c (ch ' ') g.curFg) g.cells (n := gtermRows) (fun _ _ _ => set_at ..) (r := r) wide
  rw [if_pos high] at loop
  exact congrArg Prod.fst loop

/-- After scroll_up each row has what the next one had, and the last one is blank. -/
theorem scrollUp_cells (g : Gterm) {r c : Nat} (wide : c < gtermCols) : (scrollUp g).value.cells.at r c =
    if r = gtermRows - 1 then (ch ' ', g.curFg) else if r < gtermRows - 1 then g.cells.at (r + 1) c else g.cells.at r c := by
  have copied := forUp_grid Cells.at (fun cells r c => cells.at (r + 1) c)
    (fun inside below => below _ _ inside (Nat.lt_succ_self _)) copyUp g.cells (n := gtermRows - 1)
    (fun _ _ _ => set_at ..) (r := r) wide
  have cleared := forUp_row Cells.at (fun _ _ _ => (ch ' ', g.curFg)) (fun _ _ => rfl)
    (fun c => setCell (gtermRows - 1) c (ch ' ') g.curFg)
    (forUp (fun r => forUp (copyUp r) gtermCols) (gtermRows - 1) g.cells).value (i := gtermRows - 1)
    (fun _ _ => set_at ..) (r := r) wide
  rw [copied] at cleared
  have kept {g : Gterm} : (redrawAll g).value.cells.at = g.cells.at := congrArg Window.cells (redrawAll_keeps g).1
  rw [scrollUp, value_bind, value_bind, kept]
  exact cleared

theorem scrollUp_inside (g : Gterm) : All Access.Inside (scrollUp g) := by
  rw [scrollUp, all_bind_iff, all_bind_iff]
  refine ⟨forUp_all fun high => forUp_all fun wide => copyUp_inside ⟨?_, wide⟩ _,
    forUp_all fun wide => setCell_inside ⟨by decide, wide⟩ _ _ _, redrawAll_inside _⟩
  exact Nat.add_lt_of_lt_sub high

/-! ### Characters -/

/-- The arrays are accessed inside, and what is drawn is what they hold. -/
structure Sound (g : Gterm) (x : Traced Access Gterm) : Prop where
  inside : All Access.Inside x
  painted : Painted g → Painted x.value
  curFg : x.value.curFg = g.curFg

theorem scrollUp_spec (g : Gterm) : Sound g (scrollUp g) ∧
    (scrollUp g).value.view = ⟨(scrollUp g).value.cells.at, gtermRows - 1, g.curCol, g.scrolled + 1⟩ := by
  have place : (scrollUp g).value.view.row = gtermRows - 1 ∧ (scrollUp g).value.view.col = g.curCol ∧
      (scrollUp g).value.view.scrolled = g.scrolled + 1 := by
    rw [scrollUp, value_bind, value_bind, (redrawAll_keeps _).1]
    exact ⟨rfl, rfl, rfl⟩
  have drawn : Painted (scrollUp g).value ∧ (scrollUp g).value.curFg = g.curFg := by
    rw [scrollUp, value_bind, value_bind, (redrawAll_keeps _).2]
    exact ⟨redrawAll_painted _, rfl⟩
  refine ⟨⟨scrollUp_inside g, fun _ => drawn.1, drawn.2⟩, ?_⟩
  rw [← place.1, ← place.2.1, ← place.2.2]
  rfl

theorem nextRow_breaks (g : Gterm) (below : g.curRow < gtermRows) :
    Sound g (nextRow g) ∧ Breaks gtermCols gtermRows Blank g.view (nextRow g).value.view := by
  rw [nextRow]
  by_cases last : g.curRow + 1 ≥ gtermRows
  · obtain ⟨sound, view⟩ := scrollUp_spec { g with curCol := 0, curRow := g.curRow + 1 }
    rw [if_pos last]
    exact ⟨⟨sound.inside, sound.painted, sound.curFg⟩, .of_shift (Nat.le_antisymm below last) view
      (b := (ch ' ', g.curFg)) rfl fun _ _ wide => scrollUp_cells _ wide⟩
  · rw [if_neg last]
    exact ⟨⟨all_pure _, fun painted => painted, rfl⟩, .of_next (Nat.lt_of_not_le last) rfl⟩

theorem placeChar_writes (g : Gterm) (c : UInt8) (inside : g.curRow < gtermRows ∧ g.curCol < gtermCols) :
    Sound g (placeChar g c) ∧ Writes gtermCols gtermRows (c, g.curFg) g.view (placeChar g c).value.view := by
  refine ⟨⟨?_, fun painted r k high wide => ?_, rfl⟩, ⟨rfl, rfl, rfl, fun r k _ _ => set_at ..⟩⟩
  · rw [placeChar, all_bind_iff, all_bind_iff]
    exact ⟨setCell_inside inside _ _ _, redrawCell_inside inside _ _, all_pure _⟩
  · rw [placeChar, value_bind, value_bind, value_pure, value_setCell]
    dsimp only
    rw [value_redrawCell, set_at, set_at]
    by_cases here : r = g.curRow ∧ k = g.curCol
    · rw [if_pos here, if_pos ⟨rfl, rfl⟩, if_pos here]
    · rw [if_neg here, if_neg here]
      exact painted r k high wide

theorem eraseChar_erases (g : Gterm) (some : 0 < g.curCol) (inside : g.curRow < gtermRows ∧ g.curCol ≤ gtermCols) :
    Sound g (eraseChar g) ∧ Erases gtermCols gtermRows Blank g.view (eraseChar g).value.view := by
  have within : g.curRow < gtermRows ∧ g.curCol - 1 < gtermCols := ⟨inside.1, by omega⟩
  refine ⟨⟨?_, fun painted r k high wide => ?_, rfl⟩, ⟨rfl, Nat.sub_add_cancel some, rfl, ?_, fun r k _ _ other => ?_⟩⟩
  · rw [eraseChar, all_bind_iff, all_emit_iff, all_bind_iff]
    exact ⟨within, redrawCell_inside within _ _, all_pure _⟩
  · rw [eraseChar, value_bind, value_bind, value_pure]
    dsimp only
    rw [value_redrawCell, set_at, set_at]
    by_cases here : r = g.curRow ∧ k = g.curCol - 1
    · rw [if_pos here, if_pos ⟨rfl, rfl⟩, if_pos here]
    · rw [if_neg here, if_neg here]
      exact painted r k high wide
  · exact congrArg Prod.fst ((set_at ..).trans (if_pos ⟨rfl, rfl⟩))
  · exact (set_at ..).trans (if_neg other)

/-! ### The sheet -/

/-- What the terminal is given: characters, and a colour for those that follow. -/
inductive Output (C : Type) where
  | char (c : UInt8)
  | color (k : C)

/-- A sheet of characters with their colours, and the colour of the next one. -/
structure Page (C : Type) where
  sheet : Sheet (UInt8 × C)
  color : C

/-- The layout of the graphical terminal. -/
def Page.graphical (p : Page UInt32) : Output UInt32 → Page UInt32
  | .color k => { p with color := k }
  | .char c => { p with sheet :=
      if c = 0x0A then p.sheet.newline
      else if c = 0x08 then p.sheet.erase
      else p.sheet.putLate gtermCols (c, p.color) }

def gtermStep (g : Gterm) : Output UInt32 → Traced Access Gterm
  | .color k => pure { g with curFg := k }
  | .char c => gtermPutchar g c

/-- The terminal shows the end of the page. -/
structure Follows (g : Gterm) (p : Page UInt32) : Prop where
  shows : Shows gtermCols gtermRows Blank g.view p.sheet
  color : g.curFg = p.color
  painted : Painted g

theorem gtermPutchar_follows {g : Gterm} {p : Page UInt32} (follows : Follows g p) (c : UInt8) :
    All Access.Inside (gtermPutchar g c) ∧ Follows (gtermPutchar g c).value (p.graphical (.char c)) := by
  have below : g.curRow < gtermRows := follows.shows.row_lt
  have most : g.curCol ≤ gtermCols := follows.shows.col_le
  have col : g.curCol = p.sheet.cur.length := follows.shows.col
  rw [gtermPutchar, Page.graphical]
  by_cases line : c = 0x0A
  · obtain ⟨sound, breaks⟩ := nextRow_breaks g below
    rw [if_pos line, if_pos line]
    exact ⟨sound.inside, follows.shows.newline breaks, sound.curFg.trans follows.color, sound.painted follows.painted⟩
  rw [if_neg line, if_neg line]
  by_cases back : c = 0x08
  · rw [if_pos back, if_pos back]
    by_cases some : g.curCol > 0
    · obtain ⟨sound, erases⟩ := eraseChar_erases g some ⟨below, most⟩
      rw [if_pos some]
      exact ⟨sound.inside, follows.shows.erase erases, sound.curFg.trans follows.color, sound.painted follows.painted⟩
    · have empty : p.sheet.cur = [] := List.eq_nil_of_length_eq_zero (by omega)
      rw [if_neg some, Sheet.erase_of_nil empty]
      exact ⟨all_pure _, follows.shows, follows.color, follows.painted⟩
  rw [if_neg back, if_neg back, Sheet.putLate, ← col]
  by_cases full : g.curCol ≥ gtermCols
  · obtain ⟨sound, breaks⟩ := nextRow_breaks g below
    have shows := follows.shows.newline breaks
    have fresh : (nextRow g).value.curCol = 0 := breaks.col
    obtain ⟨sound', writes⟩ := placeChar_writes (nextRow g).value c ⟨shows.row_lt, by rw [fresh]; decide⟩
    rw [if_pos full, if_pos (Nat.le_antisymm most full), all_bind_iff, value_bind]
    rw [sound.curFg, follows.color] at writes
    exact ⟨⟨sound.inside, sound'.inside⟩, shows.write (breaks.col ▸ by decide) writes,
      sound'.curFg.trans (sound.curFg.trans follows.color), sound'.painted (sound.painted follows.painted)⟩
  · have room : g.curCol < gtermCols := Nat.lt_of_not_ge full
    obtain ⟨sound, writes⟩ := placeChar_writes g c ⟨below, room⟩
    rw [if_neg full, if_neg (Nat.ne_of_lt room)]
    rw [follows.color] at writes
    exact ⟨sound.inside, follows.shows.write room writes, sound.curFg.trans follows.color, sound.painted follows.painted⟩

def gtermRun (g : Gterm) : List (Output UInt32) → Traced Access Gterm
  | [] => pure g
  | o :: rest => do
    let g ← gtermStep g o
    gtermRun g rest

theorem gtermRun_follows {g : Gterm} {p : Page UInt32} (follows : Follows g p) (output : List (Output UInt32)) :
    All Access.Inside (gtermRun g output) ∧ Follows (gtermRun g output).value (output.foldl Page.graphical p) := by
  induction output generalizing g p with
  | nil => exact ⟨all_pure _, follows⟩
  | cons o rest ih =>
    rw [gtermRun, all_bind_iff, value_bind, List.foldl_cons]
    cases o with
    | color k =>
      obtain ⟨inside, later⟩ := @ih { g with curFg := k } (p.graphical (.color k)) ⟨follows.shows, rfl, follows.painted⟩
      exact ⟨⟨all_pure _, inside⟩, later⟩
    | char c =>
      obtain ⟨inside, next⟩ := gtermPutchar_follows follows c
      obtain ⟨inside', later⟩ := ih next
      exact ⟨⟨inside, inside'⟩, later⟩

end ChrisOS.Ui
