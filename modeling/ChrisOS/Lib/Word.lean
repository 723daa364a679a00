import Mathlib.Data.Nat.Bitwise
import Mathlib.Tactic.Common

/-! Unsigned 32-bit arithmetic on naturals, and little-endian words in byte arrays. -/

set_option autoImplicit false

namespace ChrisOS.Lib

def u32 (n : Nat) : Nat := n % 2 ^ 32

def add32 (a b : Nat) : Nat := (a + b) % 2 ^ 32

def sub32 (a b : Nat) : Nat := (a + (2 ^ 32 - b)) % 2 ^ 32

def mul32 (a b : Nat) : Nat := a * b % 2 ^ 32

def not32 (a : Nat) : Nat := 2 ^ 32 - 1 - a

theorem u32_of_lt {n : Nat} (bound : n < 2 ^ 32) : u32 n = n := Nat.mod_eq_of_lt bound

theorem add32_of_lt {a b : Nat} (bound : a + b < 2 ^ 32) : add32 a b = a + b := Nat.mod_eq_of_lt bound

theorem add32_add32_of_lt {a b c : Nat} (bound : a + b + c < 2 ^ 32) : add32 (add32 a b) c = a + b + c := by
  rw [add32_of_lt (a := a) (by omega), add32_of_lt bound]

theorem sub32_lt (a b : Nat) : sub32 a b < 2 ^ 32 := Nat.mod_lt _ (by decide)

theorem sub32_of_le {a b : Nat} (ordered : b ≤ a) (bound : a < 2 ^ 32) : sub32 a b = a - b := by
  unfold sub32
  omega

theorem mul32_of_lt {a b : Nat} (bound : a * b < 2 ^ 32) : mul32 a b = a * b := Nat.mod_eq_of_lt bound

/-- Masking with the complement of a low mask clears the low bits. -/
theorem and_not_low (k : Nat) {n : Nat} (small : k ≤ 32) (bound : n < 2 ^ 32) :
    n &&& not32 (2 ^ k - 1) = n / 2 ^ k * 2 ^ k := by
  apply Nat.eq_of_testBit_eq
  intro i
  have mask : not32 (2 ^ k - 1) = 2 ^ 32 - 2 ^ k := by
    have := Nat.two_pow_pos k
    unfold not32
    omega
  have shape : 2 ^ 32 - 2 ^ k = (2 ^ (32 - k) - 1) * 2 ^ k := by
    rw [Nat.sub_mul, ← Nat.pow_add, Nat.sub_add_cancel small, Nat.one_mul]
  rw [mask, shape, Nat.testBit_and, Nat.testBit_mul_two_pow, Nat.testBit_mul_two_pow, Nat.testBit_div_two_pow,
    Nat.testBit_two_pow_sub_one]
  by_cases low : k ≤ i
  · by_cases high : i < 32
    · simp [low, Nat.sub_add_cancel low, show i - k < 32 - k by omega]
    · have zero : n.testBit i = false :=
        Nat.testBit_lt_two_pow (Nat.lt_of_lt_of_le bound (Nat.pow_le_pow_right (by decide) (by omega)))
      simp [low, Nat.sub_add_cancel low, zero]
  · simp [low]

end ChrisOS.Lib
