import Mathlib.Data.Nat.Bitwise
import Mathlib.Tactic.Common

/-! Little-endian words in byte arrays. An array is a function of its index. -/

set_option autoImplicit false

namespace ChrisOS.Lib

/-- Byte `i` of a value, counted from the least significant one. -/
def byteOf (v i : Nat) : UInt8 := UInt8.ofNat (v / 256 ^ i)

def word16 (f : Nat → UInt8) (off : Nat) : Nat := (f off).toNat + 2 ^ 8 * (f (off + 1)).toNat

def word32 (f : Nat → UInt8) (off : Nat) : Nat :=
  (f off).toNat + 2 ^ 8 * (f (off + 1)).toNat + 2 ^ 16 * (f (off + 2)).toNat + 2 ^ 24 * (f (off + 3)).toNat

def putWord32 (f : Nat → UInt8) (off v : Nat) : Nat → UInt8 := fun k =>
  if off ≤ k ∧ k < off + 4 then byteOf v (k - off) else f k

theorem byteOf_toNat (v i : Nat) : (byteOf v i).toNat = v / 256 ^ i % 256 := by
  simp [byteOf]

theorem word16_lt (f : Nat → UInt8) (off : Nat) : word16 f off < 2 ^ 16 := by
  have := (f off).toNat_lt
  have := (f (off + 1)).toNat_lt
  unfold word16
  omega

theorem word32_lt (f : Nat → UInt8) (off : Nat) : word32 f off < 2 ^ 32 := by
  have := (f off).toNat_lt
  have := (f (off + 1)).toNat_lt
  have := (f (off + 2)).toNat_lt
  have := (f (off + 3)).toNat_lt
  unfold word32
  omega

theorem word32_congr {f g : Nat → UInt8} {a b : Nat} (same : ∀ k, k < 4 → f (a + k) = g (b + k)) :
    word32 f a = word32 g b := by
  have zero := same 0 (by decide)
  simp only [Nat.add_zero] at zero
  simp only [word32, zero, same 1 (by decide), same 2 (by decide), same 3 (by decide)]

theorem word16_congr {f g : Nat → UInt8} {a b : Nat} (same : ∀ k, k < 2 → f (a + k) = g (b + k)) :
    word16 f a = word16 g b := by
  have zero := same 0 (by decide)
  simp only [Nat.add_zero] at zero
  simp only [word16, zero, same 1 (by decide)]

theorem word32_of_bytes {f : Nat → UInt8} {off v : Nat} (bound : v < 2 ^ 32)
    (bytes : ∀ k, k < 4 → f (off + k) = byteOf v k) : word32 f off = v := by
  have zero := bytes 0 (by decide)
  simp only [Nat.add_zero] at zero
  simp only [word32, zero, bytes 1 (by decide), bytes 2 (by decide), bytes 3 (by decide), byteOf_toNat]
  omega

theorem word16_of_bytes {f : Nat → UInt8} {off v : Nat} (bound : v < 2 ^ 16)
    (bytes : ∀ k, k < 2 → f (off + k) = byteOf v k) : word16 f off = v := by
  have zero := bytes 0 (by decide)
  simp only [Nat.add_zero] at zero
  simp only [word16, zero, bytes 1 (by decide), byteOf_toNat]
  omega

theorem word32_put (f : Nat → UInt8) (off : Nat) {v : Nat} (bound : v < 2 ^ 32) :
    word32 (putWord32 f off v) off = v := by
  refine word32_of_bytes bound fun k small => ?_
  simp only [putWord32, Nat.le_add_right, true_and, Nat.add_lt_add_iff_left, small, ↓reduceIte,
    Nat.add_sub_cancel_left]

theorem word32_put_other (f : Nat → UInt8) {off other : Nat} (v : Nat)
    (apart : other + 4 ≤ off ∨ off + 4 ≤ other) : word32 (putWord32 f off v) other = word32 f other := by
  refine word32_congr fun k small => ?_
  rw [putWord32, if_neg (by omega)]

end ChrisOS.Lib
