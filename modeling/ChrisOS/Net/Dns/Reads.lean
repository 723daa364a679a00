import ChrisOS.Net.Dns.Answers

/-! The indices that dns_rx reads, for data of any bytes whatever.

The data end at len, and what memory holds behind them is as arbitrary as they are. Only the
fixed part of a record is read without a test of its own.
-/

set_option autoImplicit false

namespace ChrisOS.Net.Dns
open ChrisOS.Lib Traced

section
variable {m : Nat → UInt8} {len : Nat}

theorem skipLabels_inside (pos : Nat) : All (· < len) (skipLabels m len pos) := by
  induction pos using skipLabels.induct len with
  | case1 pos inside ih =>
    rw [skipLabels, if_pos inside, all_bind_iff, all_peek_iff]
    refine ⟨inside, ?_⟩
    rw [value_peek]
    split
    · exact all_pure _
    · exact ih (m pos)
  | case2 pos outside =>
    rw [skipLabels, if_neg outside]
    exact all_pure _

theorem skipOwner_inside {pos : Nat} (inside : pos < len) : All (· < len) (skipOwner m len pos) := by
  rw [skipOwner, all_bind_iff, all_peek_iff]
  refine ⟨inside, ?_⟩
  split
  · exact all_pure _
  · rw [all_bind_iff]
    exact ⟨skipLabels_inside pos, all_pure _⟩

theorem peek16_inside_iff {pos : Nat} : All (· < len) (peek16 m pos) ↔ pos + 1 < len := by
  rw [peek16, all_bind_iff, all_bind_iff, all_peek_iff, all_peek_iff]
  exact ⟨fun inside => inside.2.1, fun inside => ⟨Nat.lt_of_succ_lt inside, inside, all_pure _⟩⟩

theorem peekIp_inside {pos : Nat} (inside : pos + 4 ≤ len) : All (· < len) (peekIp m pos) := by
  simp only [peekIp, all_bind_iff, all_peek_iff]
  exact ⟨by omega, by omega, by omega, by omega, all_pure _⟩

/-- The position behind an owner name. -/
def nameEnd (m : Nat → UInt8) (len pos : Nat) : Nat := (skipOwner m len pos).value

/-- The record whose fixed part is here has an address inside the data. -/
def AddressAt (m : Nat → UInt8) (len fixed : Nat) : Prop :=
  (peek16 m fixed).value = 1 ∧ (peek16 m (fixed + 8)).value = 4 ∧ fixed + 10 + 4 ≤ len

/-- Every record that the walk comes to with twelve bytes left has its fixed part inside the data. -/
def Walkable (m : Nat → UInt8) (len : Nat) : Nat → Nat → Prop
  | 0, _ => True
  | left + 1, pos => pos + 12 ≤ len → nameEnd m len pos + 10 ≤ len ∧
      (¬ AddressAt m len (nameEnd m len pos) →
        Walkable m len left (nameEnd m len pos + 10 + (peek16 m (nameEnd m len pos + 8)).value.toNat))

theorem answerLoop_inside_iff (left pos : Nat) : All (· < len) (answerLoop m len left pos) ↔ Walkable m len left pos := by
  induction left generalizing pos with
  | zero => exact iff_of_true (all_pure _) trivial
  | succ left ih =>
    rw [answerLoop, Walkable]
    by_cases room : pos + 12 ≤ len
    · rw [if_pos room, all_bind_iff, all_bind_iff, all_bind_iff, peek16_inside_iff, peek16_inside_iff]
      rw [imp_iff_right room, and_iff_right (skipOwner_inside (by omega))]
      change _ ∧ nameEnd m len pos + 8 + 1 < len ∧ _ ↔ _
      have rest : All (· < len) (if (peek16 m (nameEnd m len pos)).value = 1 ∧
          (peek16 m (nameEnd m len pos + 8)).value = 4 ∧ nameEnd m len pos + 10 + 4 ≤ len then
            (do let ip ← peekIp m (nameEnd m len pos + 10); pure (some ip))
          else answerLoop m len left (nameEnd m len pos + 10 + (peek16 m (nameEnd m len pos + 8)).value.toNat)) ↔
          (¬ AddressAt m len (nameEnd m len pos) →
            Walkable m len left (nameEnd m len pos + 10 + (peek16 m (nameEnd m len pos + 8)).value.toNat)) := by
        split
        · rename_i address
          refine iff_of_true ?_ fun other => absurd address other
          rw [all_bind_iff]
          exact ⟨peekIp_inside address.2.2, all_pure _⟩
        · rename_i other
          rw [ih]
          exact ⟨fun walk _ => walk, fun walk => walk other⟩
      constructor
      · rintro ⟨-, inside, reads⟩
        exact ⟨by omega, rest.mp reads⟩
      · rintro ⟨inside, walk⟩
        exact ⟨by unfold nameEnd at inside; omega, by omega, rest.mpr walk⟩
    · rw [if_neg room]
      exact iff_of_true (all_pure _) fun more => absurd more room

end

/-- The walk is not begun, or finds the fixed part of every record it comes to inside the data. -/
def Readable (y : Resolver) (m : Nat → UInt8) (len : Nat) : Prop :=
  len < 12 ∨ (peek16 m 0).value ≠ y.tid ∨ (peek16 m 6).value = 0 ∨
    Walkable m len (peek16 m 6).value.toNat ((skipLabels m len 12).value + 5)

theorem dnsRx_inside_iff (y : Resolver) (m : Nat → UInt8) (len : UInt16) :
    All (· < len.toNat) (dnsRx y m len) ↔ Readable y m len.toNat := by
  unfold Readable dnsRx
  by_cases short : len.toNat < 12
  · rw [if_pos short]
    exact iff_of_true (all_pure _) (.inl short)
  rw [if_neg short, or_iff_right short, all_bind_iff, peek16_inside_iff, and_iff_right (by omega)]
  by_cases other : (peek16 m 0).value ≠ y.tid
  · rw [if_pos other]
    exact iff_of_true (all_pure _) (.inl other)
  rw [if_neg other, or_iff_right other, all_bind_iff, peek16_inside_iff, and_iff_right (by omega)]
  by_cases none_sent : (peek16 m 6).value = 0
  · rw [if_pos none_sent]
    exact iff_of_true (all_pure _) (.inl none_sent)
  rw [if_neg none_sent, or_iff_right none_sent, all_bind_iff, and_iff_right (skipLabels_inside 12), all_bind_iff,
    answerLoop_inside_iff]
  exact and_iff_left (all_pure _)

/-! ### How many reads -/

section
variable (m : Nat → UInt8) (len : Nat)

/-- Every round of the loop over labels moves on. -/
theorem skipLabels_length (pos : Nat) : (skipLabels m len pos).trace.length ≤ len - pos := by
  induction pos using skipLabels.induct len with
  | case1 pos inside ih =>
    rw [skipLabels, if_pos inside, trace_bind, trace_peek, value_peek, List.length_append, List.length_singleton]
    split
    · rw [trace_pure, List.length_nil]
      omega
    · have later := ih (m pos)
      omega
  | case2 pos outside =>
    rw [skipLabels, if_neg outside]
    exact Nat.zero_le _

theorem skipOwner_length (pos : Nat) : (skipOwner m len pos).trace.length ≤ 1 + len := by
  have labels := skipLabels_length m len pos
  rw [skipOwner, trace_bind, trace_peek, List.length_append, List.length_singleton]
  split
  · rw [trace_pure, List.length_nil]
    omega
  · rw [trace_bind, trace_pure, List.append_nil]
    omega

theorem answerLoop_length (left pos : Nat) : (answerLoop m len left pos).trace.length ≤ left * (len + 9) := by
  induction left generalizing pos with
  | zero => exact Nat.zero_le _
  | succ left ih =>
    rw [answerLoop, Nat.succ_mul]
    split
    · have owner := skipOwner_length m len pos
      have two (i : Nat) : (peek16 m i).trace.length = 2 := rfl
      have four (i : Nat) : (do let ip ← peekIp m i; pure (some ip)).trace.length = 4 := rfl
      rw [trace_bind, trace_bind, trace_bind, List.length_append, List.length_append, List.length_append, two, two]
      dsimp only
      split
      · rw [four]
        omega
      · have later := ih ((skipOwner m len pos).value + 10 + (peek16 m ((skipOwner m len pos).value + 8)).value.toNat)
        omega
    · exact Nat.zero_le _

end

/-- However memory looks, dns_rx ends after this many reads. -/
theorem dnsRx_length (y : Resolver) (m : Nat → UInt8) (len : UInt16) :
    (dnsRx y m len).trace.length ≤ 4 + len.toNat + 65535 * (len.toNat + 9) := by
  have two (i : Nat) : (peek16 m i).trace.length = 2 := rfl
  rw [dnsRx]
  split
  · exact Nat.zero_le _
  rw [trace_bind, List.length_append, two]
  split
  · rw [trace_pure, List.length_nil]
    omega
  rw [trace_bind, List.length_append, two]
  split
  · rw [trace_pure, List.length_nil]
    omega
  · have labels := skipLabels_length m len.toNat 12
    have answers := answerLoop_length m len.toNat (peek16 m 6).value.toNat
      ((skipLabels m len.toNat 12).value + 5)
    have few := Nat.mul_le_mul_right (len.toNat + 9) (Nat.le_of_lt_succ (peek16 m 6).value.toNat_lt)
    rw [trace_bind, List.length_append, trace_bind, List.length_append, trace_pure, List.length_nil]
    omega

/-- dns_rx ends on any data, and reads only them exactly when its walk finds the fixed part of every record it
comes to inside the data. -/
theorem dnsRx_reads_iff (y : Resolver) (m : Nat → UInt8) (len : UInt16) :
    (All (· < len.toNat) (dnsRx y m len) ↔ Readable y m len.toNat) ∧
      (dnsRx y m len).trace.length ≤ 4 + len.toNat + 65535 * (len.toNat + 9) :=
  ⟨dnsRx_inside_iff y m len, dnsRx_length y m len⟩

/-- 29 bytes that are zero but for an answer count of 1 and an owner name that starts with the length 11. -/
def cutShort : Nat → UInt8 := fun i => if i = 7 then 1 else if i = 17 then 11 else 0

/-- The name fills the data to their end, and its record is read behind them. -/
theorem dnsRx_reads_fails : ¬ ∀ y m (len : UInt16), All (· < len.toNat) (dnsRx y m len) := by
  intro inside
  have readable := (dnsRx_inside_iff blank cutShort 29).mp (inside _ _ _)
  have question : (skipLabels cutShort 29 12).value = 12 := skipLabels_stop (by decide) rfl
  have label : (skipLabels cutShort 29 17).value = 29 := by
    rw [value_skipLabels, if_pos (by decide), if_neg (by decide)]
    exact skipLabels_outside (by decide)
  have name : nameEnd cutShort 29 17 = 30 := by
    rw [nameEnd, skipOwner, value_bind, if_neg (by decide), value_bind, label]
    rfl
  have length : (29 : UInt16).toNat = 29 := rfl
  rw [Readable, length, question] at readable
  rcases readable with short | other | none_sent | walk
  · exact absurd short (by decide)
  · exact other rfl
  · exact absurd none_sent (by decide)
  · have fixed := (walk (by decide)).1
    rw [name] at fixed
    exact absurd fixed (by decide)

end ChrisOS.Net.Dns
