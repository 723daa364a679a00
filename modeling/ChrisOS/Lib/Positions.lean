import ChrisOS.Lib.Sheet

/-! Cells of a sheet counted along its rows, as if each row were full, and what a window
shows of the last ones.

The end of a full row and the start of the next one are one position.
-/

set_option autoImplicit false

namespace ChrisOS.Lib

variable {A : Type}

namespace Sheet

/-- The position of the next cell. -/
def position (width : Nat) (s : Sheet A) : Nat := width * s.done.length + s.cur.length

def nth (width : Nat) (s : Sheet A) (p : Nat) : Option A := entry s.rows (p / width) (p % width)

section
variable {width : Nat} (s : Sheet A)

theorem position_write (x : A) : (s.write x).position width = s.position width + 1 := by
  rw [position, position, write, List.length_append, List.length_singleton]
  exact (Nat.add_assoc _ _ _).symm

theorem position_newline (full : s.cur.length = width) : s.newline.position width = s.position width := by
  rw [position, position, full, newline, length_rows, Nat.mul_succ]
  rfl

theorem position_erase (some : s.cur ≠ []) : s.erase.position width + 1 = s.position width := by
  have positive := List.length_pos_iff.mpr some
  rw [position, position, erase, List.length_dropLast, Nat.add_assoc, Nat.sub_add_cancel positive]

/-- The row and the column of a position. -/
theorem place_iff {r c p : Nat} (wide : c < width) : p / width = r ∧ p % width = c ↔ p = width * r + c := by
  rw [Nat.div_mod_unique (Nat.zero_lt_of_lt wide), and_iff_left wide, Nat.add_comm, eq_comm]

theorem nth_write (x : A) (room : s.cur.length < width) (p : Nat) :
    (s.write x).nth width p = if p = s.position width then some x else s.nth width p := by
  rw [nth, nth, entry_write]
  exact if_congr (place_iff room) rfl rfl

theorem nth_newline (p : Nat) : s.newline.nth width p = s.nth width p := entry_newline s _ _

theorem nth_erase (some : s.cur ≠ []) (fits : s.cur.length ≤ width) (p : Nat) :
    s.erase.nth width p = if p = s.erase.position width then none else s.nth width p := by
  have positive := List.length_pos_iff.mpr some
  have last : s.erase.cur.length = s.cur.length - 1 := List.length_dropLast
  have room : s.erase.cur.length < width := by omega
  rw [nth, nth, entry_erase]
  refine if_congr (Iff.trans ?_ (place_iff room)) rfl rfl
  have done : s.erase.done.length = s.done.length := rfl
  rw [last, done]
  omega

/-- Nothing is written from the next cell on. -/
theorem nth_behind (wide : 0 < width) {p : Nat} (behind : s.position width ≤ p) : s.nth width p = none := by
  rw [nth, entry_rows]
  rw [position] at behind
  have parts := Nat.div_add_mod p width
  split
  · rename_i last
    rw [last] at parts
    exact List.getElem?_eq_none (by omega)
  · rw [entry, List.getElem?_eq_none, Option.bind_none]
    by_contra inside
    have before : p / width + 1 ≤ s.done.length := Nat.lt_of_not_le inside
    have most := Nat.mul_le_mul_left width before
    have rest := Nat.mod_lt p wide
    rw [Nat.mul_succ] at most
    omega

end

/-- The sheet ends in the cells, from the position on. -/
structure Ends (width start : Nat) (s : Sheet A) (l : List A) : Prop where
  position : s.position width = start + l.length
  chars : ∀ i, (inside : i < l.length) → s.nth width (start + i) = some l[i]

namespace Ends
variable {width start : Nat} {s : Sheet A} {l : List A}

theorem nil (width : Nat) (s : Sheet A) : Ends width (s.position width) s [] :=
  ⟨rfl, fun _ inside => absurd inside (Nat.not_lt_zero _)⟩

theorem write (ends : Ends width start s l) (x : A) (room : s.cur.length < width) : Ends width start (s.write x) (l ++ [x]) := by
  constructor
  · rw [position_write, ends.position, List.length_append, List.length_singleton, Nat.add_assoc]
  · intro i inside
    rw [List.length_append, List.length_singleton] at inside
    rw [nth_write s x room, ends.position]
    rcases Nat.lt_succ_iff_lt_or_eq.mp inside with before | rfl
    · rw [if_neg (by omega), List.getElem_append_left before]
      exact ends.chars i before
    · rw [if_pos rfl, List.getElem_concat_length rfl]

theorem newline (ends : Ends width start s l) (full : s.cur.length = width) : Ends width start s.newline l := by
  refine ⟨(position_newline s full).trans ends.position, fun i inside => ?_⟩
  rw [nth_newline]
  exact ends.chars i inside

theorem put (ends : Ends width start s l) (x : A) (room : s.cur.length < width) :
    Ends width start (s.put width x) (l ++ [x]) := by
  have written := ends.write x room
  rw [Sheet.put]
  split
  · rename_i full
    refine written.newline ?_
    rw [Sheet.write, List.length_append, List.length_singleton]
    exact full
  · exact written

theorem putLate (ends : Ends width start s l) (x : A) (positive : 0 < width) (fits : s.cur.length ≤ width) :
    Ends width start (s.putLate width x) (l ++ [x]) := by
  rw [Sheet.putLate]
  split
  · rename_i full
    exact (ends.newline full).write x positive
  · rename_i more
    exact ends.write x (Nat.lt_of_le_of_ne fits more)

theorem erase (ends : Ends width start s l) (more : l ≠ []) (some : s.cur ≠ []) (fits : s.cur.length ≤ width) :
    Ends width start s.erase l.dropLast := by
  have positive := List.length_pos_iff.mpr more
  have back : s.erase.position width + 1 = start + l.length := (position_erase s some).trans ends.position
  constructor
  · rw [List.length_dropLast]
    omega
  · intro i inside
    have shown := List.getElem_dropLast inside
    rw [List.length_dropLast] at inside
    rw [nth_erase s some fits, if_neg (by omega), shown]
    exact ends.chars i (by omega)

theorem map {B : Type} (ends : Ends width start s l) (f : A → B) : Ends width start (s.map f) (l.map f) := by
  have position : (s.map f).position width = s.position width := by
    rw [Sheet.position, Sheet.position, Sheet.map, List.length_map, List.length_map]
  refine ⟨?_, fun i inside => ?_⟩
  · rw [position, ends.position, List.length_map]
  · rw [List.length_map] at inside
    rw [nth, entry_map, List.getElem_map]
    exact congrArg (Option.map f) (ends.chars i inside)

end Ends

end Sheet

namespace Window

/-- The position of the next cell in the whole sheet. -/
def position (width : Nat) (v : Window A) : Nat := width * (v.scrolled + v.row) + v.col

/-- The cell at a position that is in the window. -/
def nth (width : Nat) (v : Window A) (p : Nat) : A := v.cells (p / width - v.scrolled) (p % width)

end Window

namespace Shows
variable {width height : Nat} {blank : A → Prop} {v : Window A} {s : Sheet A}

theorem position (shows : Shows width height blank v s) : v.position width = s.position width := by
  rw [Window.position, Sheet.position, shows.row, shows.col]

theorem nth (shows : Shows width height blank v s) (positive : 0 < width) {p : Nat} (first : width * v.scrolled ≤ p)
    (last : p < width * (v.scrolled + height)) : Seen blank (v.nth width p) (s.nth width p) := by
  have from' : v.scrolled ≤ p / width := by
    rw [Nat.le_div_iff_mul_le positive, Nat.mul_comm]
    exact first
  have upTo : p / width < v.scrolled + height := by
    rw [Nat.div_lt_iff_lt_mul positive, Nat.mul_comm]
    exact last
  have seen := shows.cell (r := p / width - v.scrolled) (by omega) (Nat.mod_lt p positive)
  rw [Nat.add_sub_cancel' from'] at seen
  exact seen

/-- What ends the sheet is in the window, if it is not too long. -/
theorem start_visible (shows : Shows width height blank v s) {start : Nat} {l : List A} (ends : Sheet.Ends width start s l)
    (short : l.length ≤ width * (height - 1)) : width * v.scrolled ≤ start := by
  have position := shows.position.trans ends.position
  have scrolled := shows.scrolled
  have row := shows.row
  rw [Sheet.length_rows] at scrolled
  rw [Window.position] at position
  by_cases still : v.scrolled = 0
  · rw [still]
    exact Nat.zero_le _
  · have bottom : v.row = height - 1 := by omega
    rw [bottom, Nat.mul_add] at position
    omega

theorem end_visible (shows : Shows width height blank v s) : v.position width ≤ width * (v.scrolled + height) := by
  have below := shows.row_lt
  have col := shows.col_le
  calc
    v.position width ≤ width * (v.scrolled + v.row) + width := Nat.add_le_add_left col _
    _ = width * (v.scrolled + v.row + 1) := (Nat.mul_succ _ _).symm
    _ ≤ width * (v.scrolled + height) := Nat.mul_le_mul_left _ (Nat.add_lt_add_left below _)

/-- The window has the cells that end the sheet, and nothing behind them. -/
theorem ends_seen (shows : Shows width height blank v s) (positive : 0 < width) {start : Nat} {l : List A}
    (ends : Sheet.Ends width start s l) (short : l.length ≤ width * (height - 1)) :
    (∀ i, (inside : i < l.length) → v.nth width (start + i) = l[i]) ∧
      ∀ p, v.position width ≤ p → p < width * (v.scrolled + height) → blank (v.nth width p) := by
  have first := shows.start_visible ends short
  have place := shows.position.trans ends.position
  have last := shows.end_visible
  constructor
  · intro i inside
    have seen := shows.nth positive (p := start + i) (Nat.le_add_right_of_le first) (by omega)
    rw [ends.chars i inside] at seen
    exact seen
  · intro p behind within
    have seen := shows.nth positive (p := p) (by omega) within
    rw [s.nth_behind positive (shows.position ▸ behind)] at seen
    exact seen

end Shows

end ChrisOS.Lib
