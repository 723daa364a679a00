import Mathlib.Data.Int.Notation

/-! Signed words by the integers they stand for. -/

set_option autoImplicit false

namespace ChrisOS.Lib.Signed

/-- A signed word by its unsigned one. -/
theorem toInt_eq (n : Int32) : n.toInt =
    if n.toUInt32.toNat < 2147483648 then (n.toUInt32.toNat : Int) else n.toUInt32.toNat - 4294967296 := by
  have word : n.toUInt32.toNat = n.toBitVec.toNat := rfl
  have int : n.toInt = n.toBitVec.toInt := rfl
  rw [word, int, BitVec.toInt_eq_toNat_cond]
  split <;> split <;> omega

theorem toInt_small {w : UInt32} (small : w.toNat < 2147483648) : (⟨w⟩ : Int32).toInt = w.toNat := by
  rw [toInt_eq, if_pos small]

theorem neg_iff {n : Int32} : n < 0 ↔ n.toInt < 0 := Int32.lt_iff_toInt_lt

theorem eq_zero_iff {n : Int32} : n = 0 ↔ n.toInt = 0 := Int32.toInt_inj.symm

/-- The integer is one of a signed word. -/
def Fits (z : Int) : Prop := -2147483648 ≤ z ∧ z < 2147483648

theorem bmod_of_fits {z : Int} (fits : Fits z) : z.bmod 4294967296 = z := by
  unfold Fits at fits
  rw [Int.bmod_def]
  split <;> omega

theorem toInt_add {n k : Int32} (fits : Fits (n.toInt + k.toInt)) : (n + k).toInt = n.toInt + k.toInt := by
  rw [Int32.toInt_add]
  exact bmod_of_fits fits

theorem toInt_sub {n k : Int32} (fits : Fits (n.toInt - k.toInt)) : (n - k).toInt = n.toInt - k.toInt := by
  rw [Int32.toInt_sub]
  exact bmod_of_fits fits

theorem toInt_fits (n : Int32) : Fits n.toInt := ⟨n.le_toInt, n.toInt_lt⟩

end ChrisOS.Lib.Signed
