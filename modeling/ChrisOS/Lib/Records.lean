import Mathlib.Tactic.Common

/-! Records of different sizes, stored one behind the other in a ring of bytes.

A record starts at its position modulo the ring size and is stored contiguously,
so the last record before the end of the ring may stick out.
-/

set_option autoImplicit false

namespace ChrisOS.Lib

variable {R : Type} (size : R → Nat)

/-- The bytes that records take, which is the position behind them. -/
def extent : List R → Nat
  | [] => 0
  | r :: records => size r + extent records

@[simp] theorem extent_append (first second : List R) :
    extent size (first ++ second) = extent size first + extent size second := by
  induction first with
  | nil => simp [extent]
  | cons r first ih => simp [extent, ih, Nat.add_assoc]

@[simp] theorem extent_singleton (r : R) : extent size [r] = size r := by
  simp [extent]

variable {size}

theorem extent_take_succ {records : List R} {i : Nat} {r : R} (at_i : records[i]? = some r) :
    extent size (records.take (i + 1)) = extent size (records.take i) + size r := by
  rw [List.take_add_one, at_i, extent_append]
  exact congrArg _ (extent_singleton size r)

theorem extent_take_le (records : List R) {i j : Nat} (ordered : i ≤ j) :
    extent size (records.take i) ≤ extent size (records.take j) := by
  obtain ⟨rest, split⟩ : records.take i <+: records.take j := List.take_prefix_take_left ordered
  rw [← split, extent_append]
  exact Nat.le_add_right _ _

theorem extent_take_le_extent (records : List R) (i : Nat) : extent size (records.take i) ≤ extent size records := by
  obtain ⟨rest, split⟩ := List.take_prefix i records
  conv_rhs => rw [← split, extent_append]
  exact Nat.le_add_right _ _

theorem dvd_extent {k : Nat} (dvd : ∀ r, k ∣ size r) (records : List R) : k ∣ extent size records := by
  induction records with
  | nil => exact Nat.dvd_zero k
  | cons r records ih => exact Nat.dvd_add (dvd r) ih

/-- A record ends at or before the position of every later one. -/
theorem extent_take_add_le {records : List R} {i j : Nat} {r : R} (at_i : records[i]? = some r) (before : i < j) :
    extent size (records.take i) + size r ≤ extent size (records.take j) := by
  rw [← extent_take_succ at_i]
  exact extent_take_le records before

/-- Two records that lie within one turn of the ring do not overlap in it. -/
theorem apart_in_ring {ring p q a b : Nat} (positive : 0 < ring) (ordered : p + a ≤ q) (turn : q + b ≤ p + ring) :
    p % ring + a ≤ q % ring ∨ q % ring + b ≤ p % ring := by
  have left := Nat.div_add_mod p ring
  have right := Nat.div_add_mod q ring
  have bound := Nat.mod_lt p positive
  have bound' := Nat.mod_lt q positive
  have monotone : p / ring ≤ q / ring := Nat.div_le_div_right (by omega)
  -- both in one turn, or the second has wrapped once
  rcases Nat.eq_or_lt_of_le monotone with same | later
  · rw [← same] at right
    omega
  · have next : ring * (p / ring) + ring ≤ ring * (q / ring) := by
      rw [← Nat.mul_succ]
      exact Nat.mul_le_mul_left ring later
    omega

/-- The distance between two positions less than one turn apart, from their places in the ring. -/
theorem distance_in_ring {ring p q : Nat} (ordered : p ≤ q) (turn : q < p + ring) :
    (q % ring + ring - p % ring) % ring = q - p := by
  have positive : 0 < ring := by omega
  have bound := Nat.mod_lt p positive
  obtain ⟨d, rfl⟩ := Nat.exists_eq_add_of_le ordered
  rw [Nat.add_sub_cancel_left]
  have small : d < ring := by omega
  have step : (p + d) % ring = if p % ring + d < ring then p % ring + d else p % ring + d - ring := by
    rw [Nat.add_mod, Nat.mod_eq_of_lt small]
    split
    · exact Nat.mod_eq_of_lt ‹_›
    · rw [Nat.mod_eq_sub_mod (by omega)]
      exact Nat.mod_eq_of_lt (by omega)
  rw [step]
  split
  · rw [show p % ring + d + ring - p % ring = d + ring by omega, Nat.add_mod_right]
    exact Nat.mod_eq_of_lt small
  · rw [show p % ring + d - ring + ring - p % ring = d by omega]
    exact Nat.mod_eq_of_lt small

end ChrisOS.Lib
