import Mathlib.Data.List.Basic
import Mathlib.Logic.Function.Basic

/-! Texts in an array that end in a terminator, as they are edited at their ends. -/

set_option autoImplicit false

namespace ChrisOS.Lib

variable {A : Type}

/-- The array holds the text from its first index on, and the terminator behind it. -/
structure Terminated (z : A) (m : Nat → A) (text : List A) : Prop where
  chars : ∀ i, (inside : i < text.length) → m i = text[i]
  stop : m text.length = z

/-- Indices below n are copied. -/
def copied (n : Nat) (src dst : Nat → A) : Nat → A := fun i => if i < n then src i else dst i

/-- A list by what a function gives for its indices. -/
theorem map_range_eq {f : Nat → A} {text : List A} (chars : ∀ i, (inside : i < text.length) → f i = text[i]) :
    (List.range text.length).map f = text := by
  refine List.ext_getElem (by rw [List.length_map, List.length_range]) fun i _ inside => ?_
  rw [List.getElem_map, List.getElem_range]
  exact chars i inside

namespace Terminated
variable {z : A} {m src : Nat → A} {text : List A}

theorem clear (z : A) (m : Nat → A) : Terminated z (Function.update m 0 z) [] :=
  ⟨fun _ inside => absurd inside (Nat.not_lt_zero _), Function.update_self _ _ _⟩

/-- One more character, and the terminator behind it. -/
theorem push (held : Terminated z m text) (a : A) :
    Terminated z (Function.update (Function.update m text.length a) (text.length + 1) z) (text ++ [a]) := by
  constructor
  · intro i inside
    rw [List.length_append, List.length_singleton] at inside
    rw [Function.update_of_ne (Nat.ne_of_lt inside)]
    rcases Nat.lt_succ_iff_lt_or_eq.mp inside with before | rfl
    · rw [Function.update_of_ne (Nat.ne_of_lt before), List.getElem_append_left before]
      exact held.chars i before
    · rw [Function.update_self, List.getElem_concat_length rfl]
  · rw [List.length_append]
    exact Function.update_self _ _ _

/-- The terminator takes the place of the last character. -/
theorem dropLast (held : Terminated z m text) : Terminated z (Function.update m (text.length - 1) z) text.dropLast := by
  constructor
  · intro i inside
    have shown := List.getElem_dropLast inside
    rw [List.length_dropLast] at inside
    rw [Function.update_of_ne (Nat.ne_of_lt inside), shown]
    exact held.chars i (by omega)
  · rw [List.length_dropLast]
    exact Function.update_self _ _ _

/-- A copy of the characters, with a terminator of its own. -/
theorem copy (held : Terminated z src text) (dst : Nat → A) :
    Terminated z (Function.update (copied text.length src dst) text.length z) text := by
  constructor
  · intro i inside
    rw [Function.update_of_ne (Nat.ne_of_lt inside), copied, if_pos inside]
    exact held.chars i inside
  · exact Function.update_self _ _ _

end Terminated

end ChrisOS.Lib
