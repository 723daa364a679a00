import ChrisOS.Drivers.Ata
import ChrisOS.Kernel.Kprintf
import ChrisOS.Lib.Decimal
import ChrisOS.Lib.Signed
import ChrisOS.Lib.Traced
import Mathlib.Logic.Function.Basic

/-! The three routines that write a signed number in decimal: itoa of kernel/kernel.c, emit_int of
kernel/kprintf.c and the 'd' case of klog.

Each stores the digits in a buffer of its own, last digit first, and takes them out again
from the end. An int that is negated wraps.
-/

set_option autoImplicit false

namespace ChrisOS.Kernel.Formatters
open ChrisOS.Lib ChrisOS.Lib.Decimal Traced
open ChrisOS.Lib.Signed (toInt_eq neg_iff eq_zero_iff)
open ChrisOS.Kernel.Kprintf (ch digits kprintfSwitch klogSwitch emitUintLoop Strings)

/-- A digit buffer and how much of it is filled. -/
structure Digits where
  cells : Nat → UInt8
  i : Nat

def Digits.empty : Digits := ⟨fun _ => 0, 0⟩

/-- `while (n > 0) { buf[i++] = digit(n % base); n /= base; }`. A 32-bit number has at most 32 digits. -/
def digitLoop (digit : Nat → UInt8) (base : Nat) : Nat → Nat → Digits → Traced Nat Digits
  | 0, _, b => pure b
  | rounds + 1, n, b =>
    if n > 0 then do
      emit b.i
      digitLoop digit base rounds (n / base) ⟨Function.update b.cells b.i (digit (n % base)), b.i + 1⟩
    else pure b

/-- `while (i > 0) send(buf[--i])`. -/
def sendDigits (cells : Nat → UInt8) : Nat → Traced Nat (List UInt8)
  | 0 => pure []
  | i + 1 => do
    let c ← peek cells i
    let rest ← sendDigits cells i
    pure (c :: rest)

/-- The string before its NUL, with the accesses to tmp. -/
def itoa (n : Int32) : Traced Nat (List UInt8) :=
  if n = 0 then pure [ch '0']
  else do
    let isNeg := n < 0
    let n := if n < 0 then -n else n
    let tmp ← digitLoop (fun k => ch '0' + UInt8.ofNat k) 10 32 n.toNatClampNeg .empty
    let text ← sendDigits tmp.cells tmp.i
    pure (if isNeg then ch '-' :: text else text)

def emitUint (n : UInt32) (base : Nat) (upper : Bool) : Traced Nat (List UInt8) :=
  if n = 0 then pure [ch '0']
  else do
    let buf ← digitLoop (fun k => (digits upper).getD k 0) base 32 n.toNat .empty
    sendDigits buf.cells buf.i

def emitInt (n : Int32) : Traced Nat (List UInt8) :=
  if n < 0 then do
    let text ← emitUint (-n).toUInt32 10 false
    pure (ch '-' :: text)
  else emitUint n.toUInt32 10 false

/-- The 'd' case of klog. -/
def klogInt (n : Int32) : Traced Nat (List UInt8) := do
  let sign := if n < 0 then [ch '-'] else []
  let n := if n < 0 then -n else n
  if n = 0 then pure (sign ++ [ch '0'])
  else do
    let buf ← digitLoop (fun k => ch '0' + UInt8.ofNat k) 10 32 n.toNatClampNeg .empty
    let text ← sendDigits buf.cells buf.i
    pure (sign ++ text)

/-- The canonical decimal representation. -/
def signed (z : Int) : List UInt8 := if z < 0 then ch '-' :: text z.natAbs else text z.natAbs

/-! ### Digit buffers -/

theorem sendDigits_congr {f g : Nat → UInt8} {n : Nat} (same : ∀ i, i < n → f i = g i) :
    (sendDigits f n).value = (sendDigits g n).value := by
  induction n with
  | zero => rfl
  | succ n ih =>
    rw [sendDigits, sendDigits, value_bind, value_bind, value_bind, value_bind, value_peek, value_peek,
      ih fun i below => same i (Nat.lt_succ_of_lt below), same n (Nat.lt_succ_self n)]

theorem sendDigits_update (f : Nat → UInt8) (n : Nat) (c : UInt8) :
    (sendDigits (Function.update f n c) (n + 1)).value = c :: (sendDigits f n).value := by
  have below : (sendDigits (Function.update f n c) n).value = (sendDigits f n).value :=
    sendDigits_congr fun i less => Function.update_of_ne (Nat.ne_of_lt less) _ _
  rw [sendDigits, value_bind, value_bind, value_peek, Function.update_self, below]
  rfl

theorem sendDigits_inside {f : Nat → UInt8} {n limit : Nat} (fits : n ≤ limit) : All (· < limit) (sendDigits f n) := by
  induction n with
  | zero => exact all_pure _
  | succ n ih =>
    rw [sendDigits, all_bind_iff, all_peek_iff, all_bind_iff]
    exact ⟨fits, ih (Nat.le_of_succ_le fits), all_pure _⟩

/-- The digits of a number, none for 0. -/
def digitsOf (n : Nat) : List UInt8 := if n = 0 then [] else text n

theorem digitsOf_last {n : Nat} (positive : n > 0) : digitsOf n = digitsOf (n / 10) ++ [UInt8.ofNat (0x30 + n % 10)] := by
  rw [digitsOf, if_neg (Nat.ne_of_gt positive), digitsOf]
  by_cases small : n < 10
  · rw [if_pos (Nat.div_eq_of_lt small), text_single small, Nat.mod_eq_of_lt small]
    rfl
  · rw [if_neg (by omega), text_last (Nat.le_of_not_lt small)]

section
variable {digit : Nat → UInt8} (decimal : ∀ k < 10, digit k = UInt8.ofNat (0x30 + k))
include decimal

/-- The digits come out of the buffer in the order in which they are written. -/
theorem sendDigits_digitLoop {rounds n : Nat} (short : n < 10 ^ rounds) (b : Digits) :
    (sendDigits (digitLoop digit 10 rounds n b).value.cells (digitLoop digit 10 rounds n b).value.i).value =
      digitsOf n ++ (sendDigits b.cells b.i).value := by
  induction rounds generalizing n b with
  | zero =>
    obtain rfl : n = 0 := Nat.lt_one_iff.mp short
    rfl
  | succ rounds ih =>
    rw [digitLoop]
    split
    · rename_i positive
      rw [value_bind, ih (by rw [Nat.pow_succ] at short; omega), sendDigits_update,
        decimal _ (Nat.mod_lt n (by decide)), digitsOf_last positive, List.append_assoc]
      rfl
    · rename_i zero
      obtain rfl : n = 0 := Nat.eq_zero_of_not_pos zero
      rfl

end

/-- A number below 10^k takes k cells. -/
theorem digitLoop_inside (digit : Nat → UInt8) (rounds : Nat) {n k limit : Nat} (short : n < 10 ^ k) {b : Digits}
    (room : b.i + k ≤ limit) : All (· < limit) (digitLoop digit 10 rounds n b) ∧
      (digitLoop digit 10 rounds n b).value.i ≤ limit := by
  induction rounds generalizing n k b with
  | zero => exact ⟨all_pure _, Nat.le_trans (Nat.le_add_right _ _) room⟩
  | succ rounds ih =>
    rw [digitLoop]
    split
    · rename_i positive
      cases k with
      | zero => exact absurd short (Nat.not_lt.mpr positive)
      | succ k =>
        have shorter : n / 10 < 10 ^ k := by
          rw [Nat.pow_succ] at short
          omega
        have later := ih shorter (b := ⟨Function.update b.cells b.i (digit (n % 10)), b.i + 1⟩) (by dsimp only; omega)
        rw [all_bind_iff, all_emit_iff]
        exact ⟨⟨by omega, later.1⟩, later.2⟩
    · exact ⟨all_pure _, Nat.le_trans (Nat.le_add_right _ _) room⟩

/-! ### Negation -/

theorem ne_minValue_iff {n : Int32} : n ≠ Int32.minValue ↔ n.toInt ≠ -2 ^ 31 :=
  not_congr (Int32.toInt_inj.symm.trans (by rw [Int32.toInt_minValue]))

/-- Only the least int has no negative. -/
theorem toInt_neg {n : Int32} (least : n ≠ Int32.minValue) : (-n).toInt = -n.toInt := by
  have lower := n.le_toInt
  have upper := n.toInt_lt
  have apart := ne_minValue_iff.mp least
  rw [Int32.toInt_neg, Int.bmod_def]
  split <;> omega

/-- As an unsigned number it has one all the same. -/
theorem neg_toUInt32 {n : Int32} (negative : n < 0) : (-n).toUInt32.toNat = n.toInt.natAbs := by
  have word := toInt_eq n
  have below := n.toUInt32.toNat_lt
  have sign := neg_iff.mp negative
  rw [Int32.toUInt32_neg, UInt32.toNat_neg, UInt32.size]
  split at word <;> omega

theorem toUInt32_of_not_neg {n : Int32} (positive : ¬ n < 0) : n.toUInt32.toNat = n.toInt.natAbs := by
  have word := toInt_eq n
  have below := n.toUInt32.toNat_lt
  have sign := mt neg_iff.mpr positive
  split at word <;> omega

/-! ### The three routines -/

theorem decimal_plus : ∀ k < 10, ch '0' + UInt8.ofNat k = UInt8.ofNat (0x30 + k) := by decide

theorem decimal_table : ∀ k < 10, (digits false).getD k 0 = UInt8.ofNat (0x30 + k) := by decide

/-- A positive number goes through the buffer unharmed. -/
theorem buffered {digit : Nat → UInt8} (decimal : ∀ k < 10, digit k = UInt8.ofNat (0x30 + k)) {n : Nat} (positive : n ≠ 0)
    (short : n < 10 ^ 10) : (sendDigits (digitLoop digit 10 32 n .empty).value.cells
      (digitLoop digit 10 32 n .empty).value.i).value = text n := by
  rw [sendDigits_digitLoop decimal (Nat.lt_trans short (by decide)), digitsOf, if_neg positive]
  exact List.append_nil _

theorem buffered_inside (digit : Nat → UInt8) {n limit : Nat} (short : n < 10 ^ 10) (room : 10 ≤ limit) :
    All (· < limit) (digitLoop digit 10 32 n .empty) ∧
      All (· < limit) (sendDigits (digitLoop digit 10 32 n .empty).value.cells
        (digitLoop digit 10 32 n .empty).value.i) := by
  have stored := digitLoop_inside digit 32 (b := .empty) short (Nat.le_trans (Nat.le_of_eq (Nat.zero_add 10)) room)
  exact ⟨stored.1, sendDigits_inside stored.2⟩

theorem value_emitUint {n : UInt32} : (emitUint n 10 false).value = text n.toNat := by
  rw [emitUint]
  split
  · rename_i zero
    rw [zero]
    rfl
  · rename_i positive
    have some : n.toNat ≠ 0 := fun zero => positive (UInt32.toNat_inj.mp zero)
    exact buffered decimal_table some (Nat.lt_trans n.toNat_lt (by decide))

theorem emitUint_inside (n : UInt32) : All (· < 11) (emitUint n 10 false) := by
  rw [emitUint]
  split
  · exact all_pure _
  · have inside := buffered_inside (fun k => (digits false).getD k 0)
      (Nat.lt_trans n.toNat_lt (by decide) : n.toNat < 10 ^ 10) (Nat.le_add_right 10 1)
    rw [all_bind_iff]
    exact inside

/-- emit_int takes the negative as an unsigned number, which is right for every int. -/
theorem value_emitInt (n : Int32) : (emitInt n).value = signed n.toInt := by
  rw [emitInt, signed]
  by_cases negative : n < 0
  · rw [if_pos negative, if_pos (neg_iff.mp negative), value_bind, value_emitUint, neg_toUInt32 negative]
    rfl
  · rw [if_neg negative, if_neg (mt neg_iff.mpr negative), value_emitUint, toUInt32_of_not_neg negative]

theorem emitInt_inside (n : Int32) : All (· < 11) (emitInt n) := by
  rw [emitInt]
  split
  · rw [all_bind_iff]
    exact ⟨emitUint_inside _, all_pure _⟩
  · exact emitUint_inside _

/-- The number that itoa and klog take apart. -/
def magnitude (n : Int32) : Int32 := if n < 0 then -n else n

theorem magnitude_eq {n : Int32} (least : n ≠ Int32.minValue) : (magnitude n).toNatClampNeg = n.toInt.natAbs := by
  show (magnitude n).toInt.toNat = n.toInt.natAbs
  rw [magnitude]
  split
  · rename_i negative
    have sign := neg_iff.mp negative
    rw [toInt_neg least]
    omega
  · rename_i positive
    have sign := mt neg_iff.mpr positive
    omega

theorem magnitude_lt (n : Int32) : (magnitude n).toNatClampNeg < 10 ^ 10 := by
  have upper : (magnitude n).toInt.toNat < 10 ^ 10 := by
    have := (magnitude n).toInt_lt
    omega
  exact upper

theorem magnitude_ne_zero {n : Int32} (some : n ≠ 0) : magnitude n ≠ 0 := by
  rw [magnitude]
  split
  · exact fun zero => some (by rw [← Int32.neg_neg (a := n), zero, Int32.neg_zero])
  · exact some

theorem natAbs_ne_zero {n : Int32} (some : n ≠ 0) : n.toInt.natAbs ≠ 0 := by
  rw [Int.natAbs_ne_zero]
  exact fun zero => some (eq_zero_iff.mpr zero)

theorem itoa_of_ne_zero {n : Int32} (some : n ≠ 0) : itoa n = (do
    let tmp ← digitLoop (fun k => ch '0' + UInt8.ofNat k) 10 32 (magnitude n).toNatClampNeg .empty
    let text ← sendDigits tmp.cells tmp.i
    pure (if n < 0 then ch '-' :: text else text)) := by
  rw [itoa, if_neg some, magnitude]

theorem value_itoa {n : Int32} (least : n ≠ Int32.minValue) : (itoa n).value = signed n.toInt := by
  by_cases zero : n = 0
  · rw [zero]
    rfl
  · have positive := natAbs_ne_zero zero
    rw [← magnitude_eq least] at positive
    rw [itoa_of_ne_zero zero, value_bind, value_bind, buffered decimal_plus positive (magnitude_lt n), value_pure,
      magnitude_eq least, signed]
    exact if_congr neg_iff rfl rfl

theorem signed_toString (z : Int) : (signed z).map (fun c => Char.ofNat c.toNat) = (toString z).toList := by
  cases z with
  | ofNat n => exact text_repr n
  | negSucc n =>
    rw [signed, if_pos (Int.negSucc_lt_zero n), List.map_cons, text_repr]
    show _ = ("-" ++ (n + 1).repr).toList
    rw [String.toList_append]
    rfl

/-- The driver's model of itoa, which has the string as a whole. -/
theorem ata_itoa (n : Int32) : (Drivers.Ata.itoa n.toInt).toList = (itoa n).value.map fun c => Char.ofNat c.toNat := by
  rw [Drivers.Ata.itoa]
  by_cases least : n = Int32.minValue
  · rw [least]
    decide
  · rw [if_neg (ne_minValue_iff.mp least), value_itoa least, signed_toString]

theorem itoa_inside (n : Int32) : All (· < 12) (itoa n) := by
  by_cases zero : n = 0
  · rw [zero]
    exact all_pure _
  · have inside := buffered_inside (fun k => ch '0' + UInt8.ofNat k) (magnitude_lt n) (Nat.le_add_right 10 2)
    rw [itoa_of_ne_zero zero, all_bind_iff, all_bind_iff]
    exact ⟨inside.1, inside.2, all_pure _⟩

theorem klogInt_of_ne_zero {n : Int32} (some : n ≠ 0) : klogInt n = (do
    let buf ← digitLoop (fun k => ch '0' + UInt8.ofNat k) 10 32 (magnitude n).toNatClampNeg .empty
    let text ← sendDigits buf.cells buf.i
    pure ((if n < 0 then [ch '-'] else []) ++ text)) := by
  have positive := magnitude_ne_zero some
  rw [magnitude] at positive ⊢
  rw [klogInt, if_neg positive]

theorem value_klogInt {n : Int32} (least : n ≠ Int32.minValue) : (klogInt n).value = signed n.toInt := by
  by_cases zero : n = 0
  · rw [zero]
    rfl
  · have positive := natAbs_ne_zero zero
    rw [← magnitude_eq least] at positive
    rw [klogInt_of_ne_zero zero, value_bind, value_bind, buffered decimal_plus positive (magnitude_lt n), value_pure,
      magnitude_eq least, signed]
    by_cases negative : n < 0
    · rw [if_pos negative, if_pos (neg_iff.mp negative)]
      rfl
    · rw [if_neg negative, if_neg (mt neg_iff.mpr negative)]
      rfl

theorem klogInt_inside (n : Int32) : All (· < 12) (klogInt n) := by
  by_cases zero : n = 0
  · rw [zero]
    exact all_pure _
  · have inside := buffered_inside (fun k => ch '0' + UInt8.ofNat k) (magnitude_lt n) (Nat.le_add_right 10 2)
    rw [klogInt_of_ne_zero zero, all_bind_iff, all_bind_iff]
    exact ⟨inside.1, inside.2, all_pure _⟩

/-! ### The interpreters of format strings -/

theorem emitUintLoop_eq {rounds n : Nat} (short : n < 10 ^ rounds) (buf : List UInt8) :
    emitUintLoop 10 false rounds n buf = digitsOf n ++ buf := by
  induction rounds generalizing n buf with
  | zero =>
    obtain rfl : n = 0 := Nat.lt_one_iff.mp short
    rfl
  | succ rounds ih =>
    rw [emitUintLoop]
    split
    · rename_i positive
      rw [ih (by rw [Nat.pow_succ] at short; omega), decimal_table _ (Nat.mod_lt n (by decide)),
        digitsOf_last positive, List.append_assoc]
      rfl
    · rename_i zero
      obtain rfl : n = 0 := Nat.eq_zero_of_not_pos zero
      rfl

theorem emitUint_eq {n : Nat} (short : n < 2 ^ 32) : Kprintf.emitUint n 10 false = text n := by
  rw [Kprintf.emitUint]
  split
  · rename_i zero
    rw [zero]
    rfl
  · rename_i some
    rw [emitUintLoop_eq (Nat.lt_trans short (by decide)), digitsOf, if_neg some, List.append_nil]

theorem negative_iff (n : Int32) : Kprintf.Negative n.toUInt32.toNat ↔ n < 0 := by
  have word := toInt_eq n
  have below := n.toUInt32.toNat_lt
  rw [neg_iff, Kprintf.Negative]
  split at word <;> omega

/-- kprintf prints a word as emit_int prints the int. -/
theorem kprintf_emitInt (n : Int32) : Kprintf.emitInt n.toUInt32.toNat = (emitInt n).value := by
  rw [value_emitInt, Kprintf.emitInt, signed]
  by_cases negative : n < 0
  · have opposite : sub32 0 n.toUInt32.toNat = n.toInt.natAbs := by
      have word := toInt_eq n
      have below := n.toUInt32.toNat_lt
      have sign := neg_iff.mp negative
      rw [sub32]
      split at word <;> omega
    rw [if_pos ((negative_iff n).mpr negative), if_pos (neg_iff.mp negative), opposite,
      emitUint_eq (by have := n.le_toInt; have := n.toInt_lt; omega)]
  · rw [if_neg (mt (negative_iff n).mp negative), if_neg (mt neg_iff.mpr negative), emitUint_eq n.toUInt32.toNat_lt,
      toUInt32_of_not_neg negative]

/-- klog prints a word as its 'd' case prints the int. -/
theorem klog_klogInt (n : Int32) : Kprintf.klogInt n.toUInt32.toNat = (klogInt n).value := by
  by_cases least : n = Int32.minValue
  · rw [least]
    decide
  · have apart : n.toUInt32.toNat ≠ 2 ^ 31 := by
      have word := toInt_eq n
      have int := ne_minValue_iff.mp least
      split at word <;> omega
    rw [Kprintf.klogInt_eq n.toUInt32.toNat_lt apart, kprintf_emitInt, value_emitInt, value_klogInt least]

/-- The three write what they should, and stay inside their buffers of 12, 11 and 12 digits. -/
structure Agrees (n : Int32) : Prop where
  itoa : (itoa n).value = signed n.toInt
  kprintf : ∀ hex strings, ∃ text, kprintfSwitch hex strings (ch 'd') = .arg text ∧ text n.toUInt32.toNat = signed n.toInt
  klog : ∀ strings, ∃ text, klogSwitch strings (ch 'd') = .arg text ∧ text n.toUInt32.toNat = signed n.toInt
  inside : All (· < 12) (Formatters.itoa n) ∧ All (· < 11) (emitInt n) ∧ All (· < 12) (klogInt n)

/-- Of the least int itoa leaves nothing but the sign. -/
theorem itoa_least : (itoa Int32.minValue).value = [ch '-'] := by decide

end ChrisOS.Kernel.Formatters
