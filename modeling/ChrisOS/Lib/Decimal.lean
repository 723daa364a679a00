import Mathlib.Data.Nat.Digits.Defs
import Mathlib.Data.List.Basic
import Mathlib.Tactic.IntervalCases

/-! Numbers written in decimal as byte strings, most significant digit first. -/

set_option autoImplicit false

namespace ChrisOS.Lib.Decimal

def isDigit (b : UInt8) : Bool := 0x30 ≤ b && b ≤ 0x39

def digitValue (b : UInt8) : Nat := b.toNat - 0x30

/-- The value after more digits. -/
def valueFrom (v : Nat) (digits : List UInt8) : Nat := digits.foldl (fun v b => v * 10 + digitValue b) v

def value (digits : List UInt8) : Nat := valueFrom 0 digits

/-- The digits of a number without leading zeros. -/
def text (n : Nat) : List UInt8 := if n = 0 then [0x30] else (Nat.digits 10 n).reverse.map fun d => UInt8.ofNat (0x30 + d)

theorem isDigit_iff {b : UInt8} : isDigit b = true ↔ 0x30 ≤ b.toNat ∧ b.toNat ≤ 0x39 := by
  simp only [isDigit, Bool.and_eq_true, decide_eq_true_eq, UInt8.le_iff_toNat_le]
  rfl

theorem valueFrom_append (v : Nat) (first second : List UInt8) :
    valueFrom v (first ++ second) = valueFrom (valueFrom v first) second := List.foldl_append

theorem isDigit_digit {d : Nat} (small : d < 10) : isDigit (UInt8.ofNat (0x30 + d)) = true := by
  rw [isDigit_iff, UInt8.toNat_ofNat']
  omega

theorem digitValue_digit {d : Nat} (small : d < 10) : digitValue (UInt8.ofNat (0x30 + d)) = d := by
  rw [digitValue, UInt8.toNat_ofNat']
  omega

theorem text_isDigit (n : Nat) : ∀ b ∈ text n, isDigit b = true := by
  intro b member
  unfold text at member
  split at member
  · rw [List.mem_singleton.mp member]
    rfl
  · obtain ⟨d, inside, rfl⟩ := List.mem_map.mp member
    exact isDigit_digit (Nat.digits_lt_base (by decide) (List.mem_reverse.mp inside))

theorem text_ne_nil (n : Nat) : text n ≠ [] := by
  unfold text
  split
  · exact List.cons_ne_nil _ _
  · rename_i positive
    rw [ne_eq, List.map_eq_nil_iff, List.reverse_eq_nil_iff]
    exact Nat.digits_ne_nil_iff_ne_zero.mpr positive

theorem value_digits {digits : List Nat} (small : ∀ d ∈ digits, d < 10) :
    value (digits.reverse.map fun d => UInt8.ofNat (0x30 + d)) = Nat.ofDigits 10 digits := by
  induction digits with
  | nil => rfl
  | cons d digits ih =>
    rw [List.forall_mem_cons] at small
    rw [List.reverse_cons, List.map_append, value, valueFrom_append, ← value, ih small.2, Nat.ofDigits_cons]
    show _ * 10 + digitValue _ = _
    rw [digitValue_digit small.1]
    omega

theorem value_text (n : Nat) : value (text n) = n := by
  unfold text
  split
  · rename_i zero
    rw [zero]
    rfl
  · rw [value_digits fun d inside => Nat.digits_lt_base (by decide) inside, Nat.ofDigits_digits]

/-- The last digit comes off the end. -/
theorem text_last {n : Nat} (more : 10 ≤ n) : text n = text (n / 10) ++ [UInt8.ofNat (0x30 + n % 10)] := by
  have rest : n / 10 ≠ 0 := by omega
  rw [text, text, if_neg (by omega), if_neg rest, Nat.digits_def' (by decide) (by omega), List.reverse_cons, List.map_append]
  rfl

theorem digitChar_eq {d : Nat} (small : d < 10) : Nat.digitChar d = Char.ofNat (UInt8.ofNat (0x30 + d)).toNat := by
  interval_cases d <;> rfl

theorem text_single {n : Nat} (small : n < 10) : text n = [UInt8.ofNat (0x30 + n)] := by
  interval_cases n <;> rfl

/-- The text as Lean prints it. -/
theorem text_repr (n : Nat) : (text n).map (fun b => Char.ofNat b.toNat) = n.repr.toList := by
  rw [Nat.toList_repr]
  induction n using Nat.strongRecOn with
  | ind n ih =>
    by_cases small : n < 10
    · rw [text_single small, Nat.toDigits_of_lt_base small, digitChar_eq small]
      rfl
    · have last : n % 10 < 10 := Nat.mod_lt n (by decide)
      rw [text_last (Nat.le_of_not_lt small), List.map_append, ih (n / 10) (by omega),
        Nat.toDigits_of_base_le (by decide) (Nat.le_of_not_lt small), digitChar_eq last]
      rfl

end ChrisOS.Lib.Decimal
