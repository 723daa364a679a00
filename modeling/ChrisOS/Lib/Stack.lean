import ChrisOS.Lib.Word

/-! Words pushed on a stack that grows down, in a memory of words. -/

set_option autoImplicit false

namespace ChrisOS.Lib.Stack

/-- Memory after the words of a list are pushed in their order. -/
def pushWords (mem : Nat → Nat) (esp : Nat) : List Nat → Nat → Nat
  | [] => mem
  | w :: ws => pushWords (Function.update mem (esp - 4) w) (esp - 4) ws

variable {mem : Nat → Nat} {esp : Nat} {ws : List Nat}

/-- What lies above the stack pointer stays. -/
theorem pushWords_above (room : 4 * ws.length ≤ esp) {a : Nat} (above : esp ≤ a) : pushWords mem esp ws a = mem a := by
  induction ws generalizing mem esp with
  | nil => rfl
  | cons w ws ih =>
    rw [List.length_cons] at room
    rw [pushWords, ih (by omega) (by omega), Function.update_of_ne (by omega)]

theorem pushWords_below (room : 4 * ws.length ≤ esp) {a : Nat} (below : a < esp - 4 * ws.length) :
    pushWords mem esp ws a = mem a := by
  induction ws generalizing mem esp with
  | nil => rfl
  | cons w ws ih =>
    rw [List.length_cons] at room below
    rw [pushWords, ih (by omega) (by omega), Function.update_of_ne (by omega)]

/-- The words are found below the old stack pointer, the first one on top. -/
theorem pushWords_get (room : 4 * ws.length ≤ esp) {i : Nat} (inside : i < ws.length) :
    pushWords mem esp ws (esp - 4 * (i + 1)) = ws[i] := by
  induction ws generalizing mem esp i with
  | nil => exact absurd inside (Nat.not_lt_zero i)
  | cons w ws ih =>
    rw [List.length_cons] at room inside
    cases i with
    | zero => rw [pushWords, pushWords_above (by omega) (by omega), Nat.zero_add, Nat.mul_one, Function.update_self]; rfl
    | succ i =>
      have rest : pushWords (Function.update mem (esp - 4) w) (esp - 4) ws (esp - 4 - 4 * (i + 1)) = _ :=
        ih (by omega) (by omega)
      rw [pushWords, show esp - 4 * (i + 1 + 1) = esp - 4 - 4 * (i + 1) by omega, rest]
      rfl

theorem pushWords_append (mem : Nat → Nat) (esp : Nat) (first second : List Nat) :
    pushWords mem esp (first ++ second) = pushWords (pushWords mem esp first) (esp - 4 * first.length) second := by
  induction first generalizing mem esp with
  | nil => rfl
  | cons w ws ih => rw [List.cons_append, pushWords, ih, pushWords, List.length_cons]; congr 1; omega

end ChrisOS.Lib.Stack
