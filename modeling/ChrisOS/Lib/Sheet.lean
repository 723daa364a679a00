import Mathlib.Data.List.Basic

/-! Output without end, row by row, and windows that show its last rows.

A window scrolls when its last row is ended. What it does with one cell, and with the end
of a row, is stated as a relation, so that each kind of screen proves it for its own cells.
-/

set_option autoImplicit false

namespace ChrisOS.Lib

variable {A : Type}

/-- The rows that are ended, oldest first, and the one that is written. -/
structure Sheet (A : Type) where
  done : List (List A)
  cur : List A

namespace Sheet

def empty : Sheet A := ⟨[], []⟩

def rows (s : Sheet A) : List (List A) := s.done ++ [s.cur]

def newline (s : Sheet A) : Sheet A := ⟨s.rows, []⟩

def write (s : Sheet A) (x : A) : Sheet A := { s with cur := s.cur ++ [x] }

def erase (s : Sheet A) : Sheet A := { s with cur := s.cur.dropLast }

/-- A row is ended as soon as it is full. -/
def put (width : Nat) (s : Sheet A) (x : A) : Sheet A :=
  if s.cur.length + 1 = width then (s.write x).newline else s.write x

/-- A full row is ended when one more cell is written. -/
def putLate (width : Nat) (s : Sheet A) (x : A) : Sheet A :=
  if s.cur.length = width then s.newline.write x else s.write x

/-- The same with every cell seen through a function. -/
def map {B : Type} (f : A → B) (s : Sheet A) : Sheet B := ⟨s.done.map (List.map f), s.cur.map f⟩

/-- The cell at a place, if it is written. -/
def entry (rows : List (List A)) (r c : Nat) : Option A := rows[r]?.bind fun row => row[c]?

theorem erase_of_nil {s : Sheet A} (none : s.cur = []) : s.erase = s := by
  cases s
  cases none
  rfl

theorem length_rows (s : Sheet A) : s.rows.length = s.done.length + 1 := by
  rw [rows, List.length_append, List.length_singleton]

theorem entry_append_single (rows : List (List A)) (row : List A) (r c : Nat) :
    entry (rows ++ [row]) r c = if r = rows.length then row[c]? else entry rows r c := by
  rw [entry, entry]
  rcases Nat.lt_trichotomy r rows.length with before | rfl | behind
  · rw [List.getElem?_append_left before, if_neg (Nat.ne_of_lt before)]
  · rw [List.getElem?_concat_length, if_pos rfl, Option.bind_some]
  · rw [List.getElem?_eq_none (by rw [List.length_append, List.length_singleton]; exact behind),
      if_neg (Nat.ne_of_gt behind), List.getElem?_eq_none (Nat.le_of_lt behind)]

theorem entry_rows (s : Sheet A) (r c : Nat) :
    entry s.rows r c = if r = s.done.length then s.cur[c]? else entry s.done r c := entry_append_single _ _ r c

theorem rows_map {B : Type} (f : A → B) (s : Sheet A) : (s.map f).rows = s.rows.map (List.map f) := by
  rw [rows, rows, List.map_append, map, List.map_singleton]

theorem entry_map {B : Type} (f : A → B) (s : Sheet A) (r c : Nat) :
    entry (s.map f).rows r c = (entry s.rows r c).map f := by
  rw [entry, entry, rows_map, List.getElem?_map]
  cases s.rows[r]? with
  | none => rfl
  | some row => exact List.getElem?_map

/-- Nothing is written behind the row that is written. -/
theorem entry_behind (s : Sheet A) {r c : Nat} (behind : s.done.length < r) : entry s.rows r c = none := by
  rw [entry, List.getElem?_eq_none (by rw [length_rows]; exact behind), Option.bind_none]

theorem entry_newline (s : Sheet A) (r c : Nat) : entry s.newline.rows r c = entry s.rows r c := by
  rw [entry_rows s.newline]
  split
  · rename_i last
    have fresh : s.newline.done.length = s.done.length + 1 := length_rows s
    rw [entry_behind s (by omega)]
    rfl
  · rfl

theorem entry_write (s : Sheet A) (x : A) (r c : Nat) : entry (s.write x).rows r c =
    if r = s.done.length ∧ c = s.cur.length then some x else entry s.rows r c := by
  rw [entry_rows, entry_rows, write]
  by_cases here : r = s.done.length
  · rw [if_pos here, if_pos here, List.getElem?_append]
    rcases Nat.lt_trichotomy c s.cur.length with before | rfl | behind
    · rw [if_pos before, if_neg fun both => Nat.ne_of_lt before both.2]
    · rw [if_neg (Nat.lt_irrefl _), if_pos ⟨here, rfl⟩, Nat.sub_self]
      rfl
    · rw [if_neg (by omega), if_neg (by omega), List.getElem?_eq_none (by rw [List.length_singleton]; omega),
        List.getElem?_eq_none (by omega)]
  · rw [if_neg here, if_neg here, if_neg fun both => here both.1]

theorem entry_erase (s : Sheet A) (r c : Nat) : entry s.erase.rows r c =
    if r = s.done.length ∧ c + 1 = s.cur.length then none else entry s.rows r c := by
  rw [entry_rows, entry_rows, erase]
  by_cases here : r = s.done.length
  · rw [if_pos here, if_pos here, List.getElem?_dropLast]
    by_cases last : c + 1 = s.cur.length
    · rw [if_neg (by omega), if_pos ⟨here, last⟩]
    · rw [if_neg fun both : r = s.done.length ∧ c + 1 = s.cur.length => last both.2]
      split
      · rfl
      · rw [List.getElem?_eq_none (by omega)]
  · rw [if_neg here, if_neg here, if_neg fun both => here both.1]

end Sheet

/-! ### Windows -/

/-- The cells of a screen, the place of the next one, and how many rows have left it. -/
structure Window (A : Type) where
  cells : Nat → Nat → A
  row : Nat
  col : Nat
  scrolled : Nat

section
variable (width height : Nat)

/-- One cell is written and the place moves on. -/
structure Writes (x : A) (v t : Window A) : Prop where
  row : t.row = v.row
  col : t.col = v.col + 1
  scrolled : t.scrolled = v.scrolled
  cells : ∀ r c, r < height → c < width → t.cells r c = if r = v.row ∧ c = v.col then x else v.cells r c

/-- The last cell of the row goes blank and the place moves back to it. -/
structure Erases (blank : A → Prop) (v t : Window A) : Prop where
  row : t.row = v.row
  col : t.col + 1 = v.col
  scrolled : t.scrolled = v.scrolled
  here : blank (t.cells v.row t.col)
  cells : ∀ r c, r < height → c < width → ¬ (r = v.row ∧ c = t.col) → t.cells r c = v.cells r c

/-- The place moves to the next row, which scrolls in if there is none. -/
structure Breaks (blank : A → Prop) (v t : Window A) : Prop where
  col : t.col = 0
  stays : v.row + 1 < height → t.row = v.row + 1 ∧ t.scrolled = v.scrolled ∧
    ∀ r c, r < height → c < width → t.cells r c = v.cells r c
  scrolls : v.row + 1 = height → t.row = v.row ∧ t.scrolled = v.scrolled + 1 ∧
    ∀ r c, c < width → (r + 1 < height → t.cells r c = v.cells (r + 1) c) ∧ (r + 1 = height → blank (t.cells r c))

section
variable {width height : Nat} {blank : A → Prop} {v t : Window A}

/-- There is a next row. -/
theorem Breaks.of_next (more : v.row + 1 < height) (same : t = { v with row := v.row + 1, col := 0 }) :
    Breaks width height blank v t := by
  subst same
  exact ⟨rfl, fun _ => ⟨rfl, rfl, fun _ _ _ _ => rfl⟩, fun last => absurd last (Nat.ne_of_lt more)⟩

/-- Every row moves up by one. -/
theorem Breaks.of_shift (last : v.row + 1 = height) {get : Nat → Nat → A} (place : t = ⟨get, height - 1, 0, v.scrolled + 1⟩)
    {b : A} (fresh : blank b) (cells : ∀ r c, c < width → get r c =
      if r = height - 1 then b else if r < height - 1 then v.cells (r + 1) c else v.cells r c) :
    Breaks width height blank v t := by
  subst place
  refine ⟨rfl, fun more => absurd last (Nat.ne_of_lt more), fun _ => ⟨(Nat.eq_sub_of_add_eq last).symm, rfl, fun r c wide => ?_⟩⟩
  have shifted : get r c = _ := cells r c wide
  refine ⟨fun higher => ?_, fun lowest => ?_⟩
  · rw [if_neg (by omega), if_pos (by omega)] at shifted
    exact shifted
  · rw [if_pos (by omega)] at shifted
    exact shifted.symm.subst fresh

end

/-- A cell shows what is written there, or is blank. -/
def Seen (blank : A → Prop) (x : A) : Option A → Prop
  | some y => x = y
  | none => blank x

/-- The window shows the last rows of the sheet. -/
structure Shows (blank : A → Prop) (v : Window A) (s : Sheet A) : Prop where
  scrolled : v.scrolled = s.rows.length - height
  row : v.scrolled + v.row = s.done.length
  col : v.col = s.cur.length
  fits : ∀ row ∈ s.rows, row.length ≤ width
  cells : ∀ r c, r < height → c < width →
    Seen blank (v.cells r c) (Sheet.entry (s.rows.drop (s.rows.length - height)) r c)

end

namespace Shows
variable {width height : Nat} {blank : A → Prop} {v t : Window A} {s : Sheet A}

theorem entry_drop (rows : List (List A)) (k r c : Nat) : Sheet.entry (rows.drop k) r c = Sheet.entry rows (k + r) c := by
  rw [Sheet.entry, Sheet.entry, List.getElem?_drop]

/-- The cells by their place in the whole sheet. -/
theorem cell (shows : Shows width height blank v s) {r c : Nat} (high : r < height) (wide : c < width) :
    Seen blank (v.cells r c) (Sheet.entry s.rows (v.scrolled + r) c) := by
  have holds := shows.cells r c high wide
  rwa [entry_drop, ← shows.scrolled] at holds

theorem of_cell (scrolled : v.scrolled = s.rows.length - height) (row : v.scrolled + v.row = s.done.length)
    (col : v.col = s.cur.length) (fits : ∀ row ∈ s.rows, row.length ≤ width)
    (cells : ∀ r c, r < height → c < width → Seen blank (v.cells r c) (Sheet.entry s.rows (v.scrolled + r) c)) :
    Shows width height blank v s := by
  refine ⟨scrolled, row, col, fits, fun r c high wide => ?_⟩
  rw [entry_drop, ← scrolled]
  exact cells r c high wide

theorem row_lt (shows : Shows width height blank v s) : v.row < height := by
  have scrolled := shows.scrolled
  have row := shows.row
  rw [Sheet.length_rows] at scrolled
  omega

theorem col_le (shows : Shows width height blank v s) : v.col ≤ width := by
  rw [shows.col]
  exact shows.fits s.cur (List.mem_append_right _ (List.mem_singleton_self _))

/-- A window of blank cells shows the empty sheet. -/
theorem start {v : Window A} (positive : 0 < height) (place : v.row = 0 ∧ v.col = 0 ∧ v.scrolled = 0)
    (cells : ∀ r c, r < height → c < width → blank (v.cells r c)) : Shows width height blank v Sheet.empty := by
  obtain ⟨row, col, scrolled⟩ := place
  refine of_cell ?_ ?_ col ?_ fun r c high wide => ?_
  · rw [scrolled, Sheet.length_rows]
    exact (Nat.sub_eq_zero_of_le positive).symm
  · rw [scrolled, row]
    rfl
  · intro row member
    rw [List.mem_singleton.mp member]
    exact Nat.zero_le _
  · rw [Sheet.entry_rows]
    split
    · exact cells r c high wide
    · exact cells r c high wide

theorem write (shows : Shows width height blank v s) {x : A} (room : v.col < width) (writes : Writes width height x v t) :
    Shows width height blank t (s.write x) := by
  have col := shows.col
  refine of_cell ?_ ?_ ?_ ?_ fun r c high wide => ?_
  · rw [writes.scrolled, shows.scrolled, Sheet.length_rows, Sheet.length_rows]
    rfl
  · rw [writes.scrolled, writes.row, shows.row]
    rfl
  · rw [writes.col, col, Sheet.write, List.length_append, List.length_singleton]
  · intro row member
    rcases List.mem_append.mp member with old | last
    · exact shows.fits row (List.mem_append_left _ old)
    · rw [List.mem_singleton.mp last, Sheet.write, List.length_append, List.length_singleton, ← col]
      exact room
  · rw [writes.cells r c high wide, writes.scrolled, Sheet.entry_write, ← shows.row, ← col]
    by_cases here : r = v.row ∧ c = v.col
    · rw [if_pos here, if_pos ⟨congrArg _ here.1, here.2⟩]
      rfl
    · rw [if_neg here, if_neg fun both => here ⟨Nat.add_left_cancel both.1, both.2⟩]
      exact shows.cell high wide

theorem erase (shows : Shows width height blank v s) (erases : Erases width height blank v t) :
    Shows width height blank t s.erase := by
  have col := shows.col
  have back := erases.col
  refine of_cell ?_ ?_ ?_ ?_ fun r c high wide => ?_
  · rw [erases.scrolled, shows.scrolled, Sheet.length_rows, Sheet.length_rows]
    rfl
  · rw [erases.scrolled, erases.row, shows.row]
    rfl
  · rw [Sheet.erase, List.length_dropLast]
    omega
  · intro row member
    rcases List.mem_append.mp member with old | last
    · exact shows.fits row (List.mem_append_left _ old)
    · have fits := shows.col_le
      rw [List.mem_singleton.mp last, Sheet.erase, List.length_dropLast]
      omega
  · rw [erases.scrolled, Sheet.entry_erase, ← shows.row, ← col, ← back]
    by_cases here : r = v.row ∧ c = t.col
    · rw [if_pos ⟨congrArg _ here.1, congrArg _ here.2⟩, here.1, here.2]
      exact erases.here
    · rw [if_neg fun both => here ⟨Nat.add_left_cancel both.1, Nat.succ.inj both.2⟩, erases.cells r c high wide here]
      exact shows.cell high wide

theorem newline (shows : Shows width height blank v s) (breaks : Breaks width height blank v t) :
    Shows width height blank t s.newline := by
  have row := shows.row
  have scrolled := shows.scrolled
  have below := shows.row_lt
  have rows : s.newline.rows.length = s.rows.length + 1 := Sheet.length_rows s.newline
  have ended : s.newline.done.length = s.done.length + 1 := Sheet.length_rows s
  have length := Sheet.length_rows s
  have fits : ∀ row ∈ s.newline.rows, row.length ≤ width := by
    intro row member
    rcases List.mem_append.mp member with old | last
    · exact shows.fits row old
    · rw [List.mem_singleton.mp last]
      exact Nat.zero_le _
  by_cases last : v.row + 1 = height
  · obtain ⟨stays, scroll, cells⟩ := breaks.scrolls last
    refine of_cell (by omega) (by omega) breaks.col fits fun r c high wide => ?_
    obtain ⟨up, fresh⟩ := cells r c wide
    rw [Sheet.entry_newline, scroll]
    by_cases bottom : r + 1 = height
    · rw [Sheet.entry_behind s (by omega)]
      exact fresh bottom
    · have higher : r + 1 < height := by omega
      rw [up higher, Nat.add_assoc, Nat.add_comm 1 r]
      exact shows.cell higher wide
  · obtain ⟨next, same, cells⟩ := breaks.stays (by omega)
    refine of_cell (by omega) (by omega) breaks.col fits fun r c high wide => ?_
    rw [Sheet.entry_newline, same, cells r c high wide]
    exact shows.cell high wide

/-- A window on which every cell of another one is seen through a function. -/
theorem map {B : Type} {blank' : B → Prop} {w : Window B} (shows : Shows width height blank v s) (f : A → B)
    (place : w.row = v.row ∧ w.col = v.col ∧ w.scrolled = v.scrolled)
    (cells : ∀ r c, r < height → c < width → w.cells r c = f (v.cells r c)) (blanks : ∀ x, blank x → blank' (f x)) :
    Shows width height blank' w (s.map f) := by
  obtain ⟨row, col, scrolled⟩ := place
  refine of_cell ?_ ?_ ?_ ?_ fun r c high wide => ?_
  · rw [scrolled, shows.scrolled, Sheet.rows_map, List.length_map]
  · rw [scrolled, row, shows.row, Sheet.map, List.length_map]
  · rw [col, shows.col, Sheet.map, List.length_map]
  · intro mapped member
    rw [Sheet.rows_map] at member
    obtain ⟨row, old, rfl⟩ := List.mem_map.mp member
    rw [List.length_map]
    exact shows.fits row old
  · have seen := shows.cell high wide
    rw [scrolled, cells r c high wide, Sheet.entry_map]
    cases written : Sheet.entry s.rows (v.scrolled + r) c with
    | none =>
      rw [written] at seen
      exact blanks _ seen
    | some x =>
      rw [written] at seen
      exact congrArg f seen

end Shows

end ChrisOS.Lib
