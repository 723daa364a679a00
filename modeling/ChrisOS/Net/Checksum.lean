import ChrisOS.Net.Tcp

/-! Ones' complement sums: the checksum that net/ipv4.c and net/tcp.c compute and store.

Both routines add up in 32 bits. The loops are written down here as they run, and agree
with the sums over natural numbers as long as these stay below 2^32.
-/

set_option autoImplicit false

namespace ChrisOS.Net.Checksum
open Tcp

/-! ### The loops in 32 bits -/

/-- `(uint16_t)((p[0] << 8) | p[1])`, as it is added to the sum. -/
def wordOf (hi lo : UInt8) : UInt32 := ((hi.toUInt16 <<< 8) ||| lo.toUInt16).toUInt32

/-- The words of a byte string, added to what is there. -/
def sumLoop (sum : UInt32) : List UInt8 → UInt32
  | [] => sum
  | [a] => sum + wordOf a 0
  | a :: b :: rest => sumLoop (sum + wordOf a b) rest

def foldStep (sum : UInt32) : UInt32 := (sum &&& (0xFFFF : UInt32)) + (sum >>> 16)

theorem wordOf_toNat (hi lo : UInt8) : (wordOf hi lo).toNat = hi.toNat * 256 + lo.toNat := by
  have high := hi.toNat_lt
  have low := lo.toNat_lt
  have shifted : (hi.toUInt16 <<< 8).toNat = hi.toNat <<< 8 := by
    rw [UInt16.toNat_shiftLeft]
    simp
    omega
  rw [wordOf, UInt16.toNat_toUInt32, UInt16.toNat_or, shifted, UInt8.toNat_toUInt16,
    ← Nat.shiftLeft_add_eq_or_of_lt low, Nat.shiftLeft_eq]

theorem sumLoop_toNat (sum : UInt32) (data : List UInt8) (fits : sum.toNat + sumWords data < 2 ^ 32) :
    (sumLoop sum data).toNat = sum.toNat + sumWords data := by
  induction data using sumWords.induct generalizing sum with
  | case1 => rfl
  | case2 a =>
    have zero : (0 : UInt8).toNat = 0 := rfl
    rw [sumWords] at fits ⊢
    rw [sumLoop, UInt32.toNat_add, wordOf_toNat]
    omega
  | case3 a b rest ih =>
    rw [sumWords] at fits ⊢
    have step : (sum + wordOf a b).toNat = sum.toNat + (a.toNat * 256 + b.toNat) := by
      rw [UInt32.toNat_add, wordOf_toNat]
      omega
    rw [sumLoop, ih _ (by omega), step]
    omega

/-- One round of the folding loop does not overflow. -/
theorem foldStep_toNat (sum : UInt32) : (foldStep sum).toNat = sum.toNat % 2 ^ 16 + sum.toNat / 2 ^ 16 := by
  have bound := sum.toNat_lt
  have low : (sum &&& (0xFFFF : UInt32)).toNat = sum.toNat % 2 ^ 16 := by
    rw [UInt32.toNat_and]
    exact Nat.and_two_pow_sub_one_eq_mod sum.toNat 16
  have high : (sum >>> 16).toNat = sum.toNat / 2 ^ 16 := by
    rw [UInt32.toNat_shiftRight]
    exact Nat.shiftRight_eq_div_pow _ 16
  rw [foldStep, UInt32.toNat_add, low, high]
  omega

theorem high_zero_iff (sum : UInt32) : sum >>> 16 = 0 ↔ sum.toNat < 2 ^ 16 := by
  rw [← UInt32.toNat_inj, UInt32.toNat_shiftRight]
  change sum.toNat >>> 16 = 0 ↔ _
  rw [Nat.shiftRight_eq_div_pow]
  omega

/-- `while (sum >> 16) sum = (sum & 0xFFFF) + (sum >> 16)`. -/
def foldLoop (sum : UInt32) : UInt32 := if sum >>> 16 = 0 then sum else foldLoop (foldStep sum)
  termination_by sum.toNat
  decreasing_by
    rename_i more
    rw [high_zero_iff] at more
    rw [foldStep_toNat]
    omega

theorem foldLoop_toNat (sum : UInt32) : (foldLoop sum).toNat = foldCarry sum.toNat := by
  induction sum using foldLoop.induct with
  | case1 sum done =>
    rw [foldLoop, if_pos done, foldCarry, if_pos ((high_zero_iff sum).mp done)]
  | case2 sum more ih =>
    have large : ¬sum.toNat < 2 ^ 16 := fun small => more ((high_zero_iff sum).mpr small)
    rw [foldLoop, if_neg more, ih, foldStep_toNat]
    conv => rhs; rw [foldCarry, if_neg large]

/-- The words of a byte string of 16-bit length sum up below 2^31. -/
theorem sumWords_le (data : List UInt8) : sumWords data ≤ 65535 * ((data.length + 1) / 2) := by
  induction data using sumWords.induct with
  | case1 => exact Nat.zero_le _
  | case2 a =>
    have := a.toNat_lt
    simp only [sumWords, List.length_singleton]
    omega
  | case3 a b rest ih =>
    have := a.toNat_lt
    have := b.toNat_lt
    simp only [sumWords, List.length_cons]
    omega

/-! ### Folding -/

/-- The value that is stored for a sum. -/
def complement (sum : Nat) : UInt16 := ~~~ UInt16.ofNat (foldCarry sum)

theorem complement_toUInt16 (sum : UInt32) : (~~~ foldLoop sum).toUInt16 = complement sum.toNat := by
  rw [complement, UInt32.toUInt16_not, ← foldLoop_toNat]
  rfl

/-- Folding the carries keeps a sum modulo 65535, and does not turn it into zero. -/
theorem foldCarry_spec (n : Nat) :
    foldCarry n < 2 ^ 16 ∧ foldCarry n % 65535 = n % 65535 ∧ (0 < n → 0 < foldCarry n) := by
  induction n using foldCarry.induct with
  | case1 n small =>
    rw [foldCarry, if_pos small]
    exact ⟨small, rfl, id⟩
  | case2 n large ih =>
    rw [foldCarry, if_neg large]
    obtain ⟨bound, same, positive⟩ := ih
    exact ⟨bound, by omega, fun _ => positive (by omega)⟩

/-- A sum that is completed by the complement of its fold folds to all ones. -/
theorem foldCarry_complement (n : Nat) : foldCarry (n + (65535 - foldCarry n)) = 65535 := by
  obtain ⟨bound, same, -⟩ := foldCarry_spec n
  obtain ⟨bound', same', positive⟩ := foldCarry_spec (n + (65535 - foldCarry n))
  have : 0 < foldCarry (n + (65535 - foldCarry n)) := by
    apply positive
    by_contra zero
    have none_left : n = 0 := by omega
    subst none_left
    have : foldCarry 0 = 0 := by rw [foldCarry, if_pos (by decide)]
    omega
  omega

theorem complement_toNat (sum : Nat) : (complement sum).toNat = 65535 - foldCarry sum := by
  have bound := (foldCarry_spec sum).1
  rw [complement, UInt16.toNat_not, UInt16.toNat_ofNat', Nat.mod_eq_of_lt bound]
  rfl

theorem complement_eq_zero_iff {sum : Nat} : complement sum = 0 ↔ foldCarry sum = 65535 := by
  have bound := (foldCarry_spec sum).1
  rw [← UInt16.toNat_inj, complement_toNat]
  change 65535 - foldCarry sum = 0 ↔ _
  omega

/-! ### A checksum in its field -/

theorem sumWords_append {first : List UInt8} (even : first.length % 2 = 0) (rest : List UInt8) :
    sumWords (first ++ rest) = sumWords first + sumWords rest := by
  induction first using sumWords.induct with
  | case1 => rw [List.nil_append, sumWords, Nat.zero_add]
  | case2 a => cases even
  | case3 a b first ih =>
    have shorter : first.length % 2 = 0 := by
      simp only [List.length_cons] at even
      omega
    simp only [List.cons_append, sumWords]
    rw [ih shorter]
    omega

theorem sumWords_bytes16 (v : UInt16) (rest : List UInt8) : sumWords (bytes16 v ++ rest) = v.toNat + sumWords rest := by
  have bound := v.toNat_lt
  simp only [bytes16, List.cons_append, List.nil_append, sumWords, UInt8.toNat_ofNat']
  omega

section
variable {before : List UInt8} (even : before.length % 2 = 0) (after : List UInt8)
include even

/-- A field at an even position adds its own value. -/
theorem sumWords_field (v : UInt16) : sumWords (before ++ bytes16 v ++ after) = sumWords (before ++ bytes16 0 ++ after) + v.toNat := by
  have zero : (0 : UInt16).toNat = 0 := rfl
  rw [List.append_assoc, List.append_assoc, sumWords_append even, sumWords_append even, sumWords_bytes16,
    sumWords_bytes16, zero]
  omega

/-- With the checksum in its field, a sum folds to all ones, whatever else is added to it. -/
theorem foldCarry_stored (extra : Nat) : foldCarry (extra +
    sumWords (before ++ bytes16 (complement (extra + sumWords (before ++ bytes16 0 ++ after))) ++ after)) = 65535 := by
  rw [sumWords_field even, complement_toNat, ← Nat.add_assoc, foldCarry_complement]

end

end ChrisOS.Net.Checksum
