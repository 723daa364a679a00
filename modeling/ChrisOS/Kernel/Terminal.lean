import ChrisOS.Ui.Gterm

/-! The terminal of kernel/kernel.c: the VGA text buffer, or the graphical terminal in its place. -/

set_option autoImplicit false

namespace ChrisOS.Kernel
open ChrisOS.Lib ChrisOS.Lib.Counted ChrisOS.Ui Traced
open ChrisOS.Kernel.Kprintf (ch)

def vgaHeight : Nat := 25
def vgaWidth : Nat := 80

structure Terminal where
  fbActive : Bool
  row : Nat
  column : Nat
  color : UInt8
  buffer : Nat → UInt16
  /-- Where the VGA blinks. -/
  cursor : UInt16
  /-- How often terminal_scroll_vga was called. Nothing depends on it. -/
  scrolled : Nat
  gterm : Gterm

def vgaEntry (uc color : UInt8) : UInt16 := uc.toUInt16 ||| color.toUInt16 <<< 8

def vgaEntryColor (fg bg : UInt8) : UInt8 := fg ||| bg <<< 4

def moveCursor (t : Terminal) : Terminal :=
  if t.fbActive then t else { t with cursor := UInt16.ofNat (t.row * vgaWidth + t.column) }

def terminalPutentryat (c color : UInt8) (x y : Nat) (t : Terminal) : Traced Access Terminal :=
  if t.fbActive then pure t
  else do
    emit (.vga (y * vgaWidth + x))
    pure { t with buffer := Function.update t.buffer (y * vgaWidth + x) (vgaEntry c color) }

/-- An entry of the text buffer is set. -/
def setEntry (y x : Nat) (entry : UInt16) (buffer : Nat → UInt16) : Traced Access (Nat → UInt16) := do
  emit (.vga (y * vgaWidth + x))
  pure (Function.update buffer (y * vgaWidth + x) entry)

def terminalInitialize (t : Terminal) : Traced Access Terminal :=
  if t.fbActive then do
    let gterm ← gtermClear t.gterm
    pure { t with gterm }
  else do
    let color := vgaEntryColor 7 0
    let buffer ← forUp (fun y => forUp (fun x => setEntry y x (vgaEntry (ch ' ') color)) vgaWidth) vgaHeight t.buffer
    pure { t with row := 0, column := 0, color, buffer, scrolled := 0 }

def terminalSetcolor (t : Terminal) (color : UInt8) : Terminal := { t with color }

/-- An entry takes what the one below it holds. -/
def copyEntry (y x : Nat) (buffer : Nat → UInt16) : Traced Access (Nat → UInt16) := do
  emit (.vga ((y + 1) * vgaWidth + x))
  setEntry y x (buffer ((y + 1) * vgaWidth + x)) buffer

def terminalScrollVga (t : Terminal) : Traced Access Terminal := do
  let buffer ← forUp (fun y => forUp (copyEntry y) vgaWidth) (vgaHeight - 1) t.buffer
  let buffer ← forUp (fun x => setEntry (vgaHeight - 1) x (vgaEntry (ch ' ') t.color)) vgaWidth buffer
  pure { t with buffer, row := vgaHeight - 1, scrolled := t.scrolled + 1 }

/-- `terminal_column = 0; terminal_row++;` -/
def Terminal.nextRow (t : Terminal) : Terminal := { t with column := 0, row := t.row + 1 }

/-- What terminal_putchar does behind the character. -/
def settle (t : Terminal) : Traced Access Terminal := do
  let t ← (if t.row ≥ vgaHeight then terminalScrollVga t else pure t : Traced Access Terminal)
  pure (moveCursor t)

def terminalPutchar (t : Terminal) (c : UInt8) : Traced Access Terminal :=
  if t.fbActive then do
    let gterm ← gtermPutchar t.gterm c
    pure { t with gterm }
  else if c = 0x0A then settle t.nextRow
  else do
    let t ← terminalPutentryat c t.color t.column t.row t
    let t := { t with column := t.column + 1 }
    settle (if t.column = vgaWidth then t.nextRow else t)

/-- The character and the colour of an entry. -/
def cellOf (entry : UInt16) : UInt8 × UInt8 := (entry.toUInt8, (entry >>> 8).toUInt8)

def entryAt (buffer : Nat → UInt16) (r c : Nat) : UInt8 × UInt8 := cellOf (buffer (r * vgaWidth + c))

/-- The text buffer as a window. -/
def Terminal.view (t : Terminal) : Window (UInt8 × UInt8) where
  cells := entryAt t.buffer
  row := t.row
  col := t.column
  scrolled := t.scrolled

/-! ### Entries -/

theorem vgaEntry_low (c color : UInt8) : (vgaEntry c color).toUInt8 = c := by
  apply UInt8.toBitVec_inj.mp
  ext i small
  simp [vgaEntry]

theorem vgaEntry_high (c color : UInt8) : (vgaEntry c color >>> 8).toUInt8 = color := by
  apply UInt8.toBitVec_inj.mp
  ext i small
  simp [vgaEntry]
  grind

theorem cellOf_vgaEntry (c color : UInt8) : cellOf (vgaEntry c color) = (c, color) :=
  Prod.ext (vgaEntry_low c color) (vgaEntry_high c color)

/-- Entries of different places have different numbers. -/
theorem place_inj {r c row col : Nat} (wide : c < vgaWidth) (inside : col < vgaWidth) :
    r * vgaWidth + c = row * vgaWidth + col ↔ r = row ∧ c = col := by
  unfold vgaWidth at *
  omega

theorem entryAt_set {y x : Nat} (inside : x < vgaWidth) (entry : UInt16) (buffer : Nat → UInt16) {r c : Nat}
    (wide : c < vgaWidth) : entryAt (setEntry y x entry buffer).value r c =
      if r = y ∧ c = x then cellOf entry else entryAt buffer r c := by
  rw [setEntry, value_bind, value_pure, entryAt, Function.update_apply]
  by_cases here : r = y ∧ c = x
  · rw [if_pos ((place_inj wide inside).mpr here), if_pos here]
  · rw [if_neg (mt (place_inj wide inside).mp here), if_neg here, entryAt]

theorem vga_inside {y x : Nat} (high : y < vgaHeight) (wide : x < vgaWidth) : Access.Inside (.vga (y * vgaWidth + x)) := by
  unfold vgaHeight vgaWidth at *
  show _ < 25 * 80
  omega

theorem setEntry_inside {y x : Nat} (high : y < vgaHeight) (wide : x < vgaWidth) (entry : UInt16) (buffer : Nat → UInt16) :
    All Access.Inside (setEntry y x entry buffer) := by
  rw [setEntry, all_bind_iff, all_emit_iff]
  exact ⟨vga_inside high wide, all_pure _⟩

/-! ### Rows -/

/-- After terminal_scroll_vga each row has what the next one had, and the last one is blank. -/
theorem terminalScrollVga_cells (t : Terminal) {r c : Nat} (wide : c < vgaWidth) :
    entryAt (terminalScrollVga t).value.buffer r c = if r = vgaHeight - 1 then (ch ' ', t.color)
      else if r < vgaHeight - 1 then entryAt t.buffer (r + 1) c else entryAt t.buffer r c := by
  have copied := forUp_grid entryAt (fun buffer r c => entryAt buffer (r + 1) c)
    (fun inside below => below _ _ inside (Nat.lt_succ_self _)) copyEntry t.buffer (n := vgaHeight - 1)
    (fun _ inside wide => entryAt_set inside _ _ wide) (r := r) wide
  have cleared := forUp_row entryAt (fun _ _ _ => (ch ' ', t.color)) (fun _ _ => rfl)
    (fun x => setEntry (vgaHeight - 1) x (vgaEntry (ch ' ') t.color))
    (forUp (fun y => forUp (copyEntry y) vgaWidth) (vgaHeight - 1) t.buffer).value (i := vgaHeight - 1)
    (fun inside wide => (entryAt_set inside _ _ wide).trans (by rw [cellOf_vgaEntry])) (r := r) wide
  rw [copied] at cleared
  rw [terminalScrollVga, value_bind, value_bind, value_pure]
  exact cleared

theorem terminalScrollVga_inside (t : Terminal) : All Access.Inside (terminalScrollVga t) := by
  rw [terminalScrollVga, all_bind_iff, all_bind_iff]
  refine ⟨forUp_all fun high => forUp_all fun wide => ?_, forUp_all fun wide => setEntry_inside (by decide) wide _ _, all_pure _⟩
  have below := Nat.add_lt_of_lt_sub high
  rw [copyEntry, all_bind_iff, all_emit_iff]
  exact ⟨vga_inside below wide, setEntry_inside (Nat.lt_of_succ_lt below) wide _ _⟩

/-- The accesses are inside, and neither the mode nor the colour changes. -/
structure Undisturbed (t : Terminal) (x : Traced Access Terminal) : Prop where
  inside : All Access.Inside x
  text : x.value.fbActive = t.fbActive
  color : x.value.color = t.color

theorem moveCursor_keeps (t : Terminal) : (moveCursor t).view = t.view ∧ (moveCursor t).fbActive = t.fbActive ∧
    (moveCursor t).color = t.color := by
  rw [moveCursor]
  split <;> exact ⟨rfl, rfl, rfl⟩

theorem settle_stays {t : Terminal} (below : t.row < vgaHeight) : Undisturbed t (settle t) ∧ (settle t).value.view = t.view := by
  obtain ⟨view, text, color⟩ := moveCursor_keeps t
  rw [settle, if_neg (Nat.not_le_of_lt below)]
  exact ⟨⟨all_pure _, text, color⟩, view⟩

theorem view_terminalScrollVga (t : Terminal) : (terminalScrollVga t).value.view =
    ⟨entryAt (terminalScrollVga t).value.buffer, vgaHeight - 1, t.column, t.scrolled + 1⟩ := by
  rw [terminalScrollVga, value_bind, value_bind, value_pure]
  rfl

theorem settle_breaks {t : Terminal} (below : t.row < vgaHeight) :
    Undisturbed t (settle t.nextRow) ∧ Breaks vgaWidth vgaHeight Blank t.view (settle t.nextRow).value.view := by
  by_cases last : t.row + 1 = vgaHeight
  · have full : t.nextRow.row ≥ vgaHeight := Nat.le_of_eq last.symm
    obtain ⟨view, text, color⟩ := moveCursor_keeps (terminalScrollVga t.nextRow).value
    rw [settle, if_pos full, value_bind, value_pure, view]
    refine ⟨⟨?_, text, color⟩, .of_shift last (view_terminalScrollVga t.nextRow) (b := (ch ' ', t.color)) rfl
      fun _ _ wide => terminalScrollVga_cells _ wide⟩
    rw [all_bind_iff]
    exact ⟨terminalScrollVga_inside _, all_pure _⟩
  · have more : t.nextRow.row < vgaHeight := Nat.lt_of_le_of_ne below last
    obtain ⟨steady, view⟩ := settle_stays more
    exact ⟨⟨steady.inside, steady.text, steady.color⟩, .of_next more view⟩

/-! ### Characters -/

theorem value_terminalPutentryat {t : Terminal} (text : t.fbActive = false) (c color : UInt8) (x y : Nat) :
    (terminalPutentryat c color x y t).value =
      { t with buffer := Function.update t.buffer (y * vgaWidth + x) (vgaEntry c color) } := by
  rw [terminalPutentryat, if_neg (by rw [text]; exact Bool.false_ne_true)]
  rfl

/-- The character is in the buffer and the column has moved on. -/
def Terminal.placed (t : Terminal) (c : UInt8) : Terminal :=
  { t with
    buffer := Function.update t.buffer (t.row * vgaWidth + t.column) (vgaEntry c t.color)
    column := t.column + 1 }

theorem terminalPutchar_plain {t : Terminal} (text : t.fbActive = false) {c : UInt8} (plain : c ≠ 0x0A) :
    terminalPutchar t c = (do
      emit (.vga (t.row * vgaWidth + t.column))
      settle (if t.column + 1 = vgaWidth then (t.placed c).nextRow else t.placed c)) := by
  have graphical : ¬ t.fbActive = true := by
    rw [text]
    exact Bool.false_ne_true
  rw [terminalPutchar, if_neg graphical, if_neg plain, terminalPutentryat, if_neg graphical]
  rfl

theorem placed_writes (t : Terminal) (c : UInt8) (room : t.column < vgaWidth) :
    Writes vgaWidth vgaHeight (c, t.color) t.view (t.placed c).view := by
  refine ⟨rfl, rfl, rfl, fun r k _ wide => ?_⟩
  have cells := entryAt_set (y := t.row) room (vgaEntry c t.color) t.buffer (r := r) wide
  rw [cellOf_vgaEntry] at cells
  exact cells

/-- The layout of the text terminal. -/
def textLayout (p : Page UInt8) : Output UInt8 → Page UInt8
  | .color k => { p with color := k }
  | .char c => { p with sheet := if c = 0x0A then p.sheet.newline else p.sheet.put vgaWidth (c, p.color) }

/-- The text buffer shows the end of the page. -/
structure TextFollows (t : Terminal) (p : Page UInt8) : Prop where
  text : t.fbActive = false
  shows : Shows vgaWidth vgaHeight Blank t.view p.sheet
  color : t.color = p.color
  room : t.column < vgaWidth

theorem TextFollows.inactive {t : Terminal} {p : Page UInt8} (follows : TextFollows t p) : ¬ t.fbActive = true := by
  rw [follows.text]
  exact Bool.false_ne_true

theorem terminalPutchar_follows {t : Terminal} {p : Page UInt8} (follows : TextFollows t p) (c : UInt8) :
    All Access.Inside (terminalPutchar t c) ∧ TextFollows (terminalPutchar t c).value (textLayout p (.char c)) := by
  have below : t.row < vgaHeight := follows.shows.row_lt
  have col : t.column = p.sheet.cur.length := follows.shows.col
  have fresh {u v : Terminal} (breaks : Breaks vgaWidth vgaHeight Blank u.view v.view) : v.column < vgaWidth := by
    have start : v.column = 0 := breaks.col
    rw [start]
    decide
  rw [textLayout]
  by_cases line : c = 0x0A
  · obtain ⟨kept, breaks⟩ := settle_breaks below
    rw [terminalPutchar, if_neg follows.inactive, if_pos line, if_pos line]
    exact ⟨kept.inside, kept.text.trans follows.text, follows.shows.newline breaks, kept.color.trans follows.color, fresh breaks⟩
  · have writes := placed_writes t c follows.room
    rw [follows.color] at writes
    have shows := follows.shows.write follows.room writes
    have entry := vga_inside below follows.room
    rw [terminalPutchar_plain follows.text line, if_neg line, all_bind_iff, all_emit_iff, value_bind, Sheet.put, ← col]
    by_cases full : t.column + 1 = vgaWidth
    · obtain ⟨kept, breaks⟩ := settle_breaks (t := t.placed c) below
      rw [if_pos full, if_pos full]
      exact ⟨⟨entry, kept.inside⟩, kept.text.trans follows.text, shows.newline breaks, kept.color.trans follows.color,
        fresh breaks⟩
    · obtain ⟨kept, view⟩ := settle_stays (t := t.placed c) below
      have same : (settle (t.placed c)).value.column = t.column + 1 := congrArg Window.col view
      rw [if_neg full, if_neg full]
      refine ⟨⟨entry, kept.inside⟩, kept.text.trans follows.text, ?_, kept.color.trans follows.color, ?_⟩
      · rw [← view] at shows
        exact shows
      · show (settle (t.placed c)).value.column < vgaWidth
        have room := follows.room
        omega

def terminalRun (t : Terminal) : List (Output UInt8) → Traced Access Terminal
  | [] => pure t
  | .color k :: rest => terminalRun (terminalSetcolor t k) rest
  | .char c :: rest => do
    let t ← terminalPutchar t c
    terminalRun t rest

theorem terminalRun_follows {t : Terminal} {p : Page UInt8} (follows : TextFollows t p) (output : List (Output UInt8)) :
    All Access.Inside (terminalRun t output) ∧ TextFollows (terminalRun t output).value (output.foldl textLayout p) := by
  induction output generalizing t p with
  | nil => exact ⟨all_pure _, follows⟩
  | cons o rest ih =>
    rw [List.foldl_cons]
    cases o with
    | color k => exact @ih (terminalSetcolor t k) (textLayout p (.color k)) ⟨follows.text, follows.shows, rfl, follows.room⟩
    | char c =>
      obtain ⟨inside, next⟩ := terminalPutchar_follows follows c
      obtain ⟨inside', later⟩ := ih next
      rw [terminalRun, all_bind_iff, value_bind]
      exact ⟨⟨inside, inside'⟩, later⟩

theorem terminalInitialize_follows (t : Terminal) : All Access.Inside (terminalInitialize { t with fbActive := false }) ∧
    TextFollows (terminalInitialize { t with fbActive := false }).value ⟨Sheet.empty, vgaEntryColor 7 0⟩ := by
  rw [terminalInitialize, if_neg Bool.false_ne_true]
  constructor
  · rw [all_bind_iff]
    exact ⟨forUp_all fun high => forUp_all fun wide => setEntry_inside high wide _ _, all_pure _⟩
  · rw [value_bind, value_pure]
    refine ⟨rfl, Shows.start (by decide) ⟨rfl, rfl, rfl⟩ fun r c high wide => ?_, rfl, Nat.zero_lt_succ _⟩
    have loop := forUp_grid entryAt (fun _ _ _ => (ch ' ', vgaEntryColor 7 0)) (fun _ _ => rfl)
      (fun y x => setEntry y x (vgaEntry (ch ' ') (vgaEntryColor 7 0))) t.buffer (n := vgaHeight)
      (fun _ inside wide => (entryAt_set inside _ _ wide).trans (by rw [cellOf_vgaEntry])) (r := r) wide
    rw [if_pos high] at loop
    exact congrArg Prod.fst loop

/-- Both terminals show the last rows of all that they were given since they were cleared, and
nothing is accessed outside their cells. -/
theorem terminals_show :
    (∀ (t : Terminal) (output : List (Output UInt8)),
      let x := do
        let t ← terminalInitialize { t with fbActive := false }
        terminalRun t output
      All Access.Inside x ∧ Shows vgaWidth vgaHeight Blank x.value.view
        (output.foldl textLayout ⟨Sheet.empty, vgaEntryColor 7 0⟩).sheet) ∧
    ∀ (g : Gterm) (output : List (Output UInt32)),
      let x := do
        let g ← gtermClear g
        gtermRun g output
      All Access.Inside x ∧ Shows gtermCols gtermRows Blank x.value.view
        (output.foldl Page.graphical ⟨Sheet.empty, g.curFg⟩).sheet := by
  constructor
  · intro t output
    obtain ⟨inside, start⟩ := terminalInitialize_follows t
    obtain ⟨inside', follows⟩ := terminalRun_follows start output
    exact ⟨all_bind_iff.mpr ⟨inside, inside'⟩, follows.shows⟩
  · intro g output
    obtain ⟨inside, painted, color, shows⟩ := gtermClear_spec g
    have start : Follows (gtermClear g).value ⟨Sheet.empty, g.curFg⟩ := ⟨shows, color, painted⟩
    obtain ⟨inside', follows⟩ := gtermRun_follows start output
    exact ⟨all_bind_iff.mpr ⟨inside, inside'⟩, follows.shows⟩

end ChrisOS.Kernel
