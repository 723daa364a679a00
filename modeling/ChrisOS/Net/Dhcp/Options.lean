import ChrisOS.Net.Dhcp
import ChrisOS.Lib.Tlv
import ChrisOS.Lib.Traced
import ChrisOS.Lib.Loop

/-! The option walk of dhcp_rx against the options that the field starts with.

Any bytes may stand in the field: the walk follows the longest part of it that is a
sequence of pads and complete options, and stops where that part stops.
-/

set_option autoImplicit false

namespace ChrisOS.Net.Dhcp
open ChrisOS.Lib Traced

/-- 0 pads and 255 ends the options. -/
abbrev DhcpOption := Tlv.Item 0 255

abbrev encodeOptions : DhcpOption → List UInt8 := Tlv.Item.encode

def messageTypeTag : UInt8 := 53

/-- What the walk may look at: the options as far as they were received, at most 312 bytes. -/
def optionsField (d : List UInt8) : List UInt8 := (d.drop optionsAt).take optionsLen

theorem length_optionsField (d : List UInt8) : (optionsField d).length = min (d.length - optionsAt) optionsLen := by
  rw [optionsField, List.length_take, List.length_drop, Nat.min_comm]

theorem byteAt_optionsField {d : List UInt8} {i : Nat} (inside : i < (optionsField d).length) :
    byteAt d (optionsAt + i) = (optionsField d)[i] := by
  have long : optionsAt + i < d.length := by
    rw [length_optionsField] at inside
    omega
  simp only [optionsField, List.getElem_take, List.getElem_drop, byteAt, List.getD_eq_getElem _ _ long]

theorem drop_optionsField {d : List UInt8} {i : Nat} (inside : i < (optionsField d).length) :
    (optionsField d).drop i = byteAt d (optionsAt + i) :: (optionsField d).drop (i + 1) := by
  rw [byteAt_optionsField inside]
  exact List.drop_eq_getElem_cons inside

/-! ### The walk and the options -/

/-- Where an option is complete, the field goes on behind it. -/
theorem drop_option {d : List UInt8} {i : Nat} {opt olen : UInt8} (first : byteAt d (optionsAt + i) = opt)
    (second : byteAt d (optionsAt + (i + 1)) = olen) (proper : opt ≠ 255 ∧ opt ≠ 0)
    (room : i + 2 + olen.toNat ≤ (optionsField d).length) :
    ∃ item : DhcpOption, (optionsField d).drop i = encodeOptions item ++ (optionsField d).drop (i + 2 + olen.toNat) ∧
      item.byteOf messageTypeTag =
        if opt = messageTypeTag ∧ olen.toNat = 1 then some (byteAt d (optionsAt + (i + 2))) else none := by
  have length : (((optionsField d).drop (i + 2)).take olen.toNat).length = olen.toNat := by
    rw [List.length_take, List.length_drop]
    omega
  refine ⟨.option opt (((optionsField d).drop (i + 2)).take olen.toNat) proper ?_, ?_, ?_⟩
  · rw [length]
    exact olen.toNat_lt
  · rw [drop_optionsField (by omega), drop_optionsField (by omega), first, second]
    show _ = opt :: UInt8.ofNat (List.length _) :: (_ ++ _)
    rw [length, UInt8.ofNat_toNat, ← List.drop_drop (i := olen.toNat) (j := i + 2), List.take_append_drop]
  · rw [Tlv.Item.byteOf_option, length]
    by_cases typed : opt = messageTypeTag ∧ olen.toNat = 1
    · rw [if_pos typed, if_pos typed, typed.2, drop_optionsField (by omega)]
      rfl
    · rw [if_neg typed, if_neg typed]

/-- The walk from a position on, by the rounds that are left. -/
theorem optionLoop_longest {d : List UInt8} {rounds i : Nat} (t : UInt8)
    (enough : (optionsField d).length ≤ i + rounds) :
    ∃ items : List DhcpOption, Longest encodeOptions items ((optionsField d).drop i) ∧
      optionLoop d (optionsField d).length rounds i t = Tlv.lastByte messageTypeTag t items := by
  induction rounds generalizing i t with
  | zero =>
    have past : (optionsField d).length ≤ i := enough
    rw [List.drop_eq_nil_of_le past]
    exact ⟨[], Tlv.longest_empty, rfl⟩
  | succ rounds ih =>
    rw [optionLoop]
    by_cases past : i ≥ (optionsField d).length
    · rw [if_pos past, List.drop_eq_nil_of_le past]
      exact ⟨[], Tlv.longest_empty, rfl⟩
    have here := drop_optionsField (Nat.lt_of_not_le past)
    simp only [if_neg past]
    by_cases ended : byteAt d (optionsAt + i) = 255
    · rw [if_pos ended, here, ended]
      exact ⟨[], Tlv.longest_stop (by decide) _, rfl⟩
    by_cases padded : byteAt d (optionsAt + i) = 0
    · rw [if_neg ended, if_pos padded, here, padded]
      obtain ⟨items, longest, value⟩ := ih (i := i + 1) t (by omega)
      exact ⟨.pad :: items, longest.cons Tlv.prefixCode, value⟩
    rw [if_neg ended, if_neg padded]
    -- a tag without a length byte
    by_cases alone : i + 1 ≥ (optionsField d).length
    · rw [if_pos alone, here, List.drop_eq_nil_of_le alone]
      exact ⟨[], Tlv.longest_cut (by decide) padded fun _ _ same => absurd same.symm (List.cons_ne_nil _ _), rfl⟩
    rw [if_neg alone]
    by_cases cut : i + 2 + (byteAt d (optionsAt + (i + 1))).toNat > (optionsField d).length
    · rw [if_pos cut, here, drop_optionsField (Nat.lt_of_not_le alone)]
      refine ⟨[], Tlv.longest_cut (by decide) padded fun len value same => ?_, rfl⟩
      cases same
      rw [List.length_drop]
      omega
    rw [if_neg cut]
    obtain ⟨item, whole, carried⟩ := drop_option rfl rfl ⟨ended, padded⟩ (Nat.le_of_not_lt cut)
    obtain ⟨items, longest, value⟩ := ih (i := i + 2 + (byteAt d (optionsAt + (i + 1))).toNat)
      (if byteAt d (optionsAt + i) = 53 ∧ (byteAt d (optionsAt + (i + 1))).toNat = 1 then
        byteAt d (optionsAt + (i + 2)) else t) (by omega)
    refine ⟨item :: items, ?_, ?_⟩
    · rw [whole]
      exact longest.cons Tlv.prefixCode
    · rw [value]
      by_cases typed : byteAt d (optionsAt + i) = 53 ∧ (byteAt d (optionsAt + (i + 1))).toNat = 1
      · rw [if_pos typed, Tlv.lastByte_cons_some items (carried.trans (if_pos typed))]
      · rw [if_neg typed, Tlv.lastByte_cons_none items (carried.trans (if_neg typed))]

theorem messageType_longest (d : List UInt8) : ∃ items : List DhcpOption,
    Longest encodeOptions items (optionsField d) ∧ messageType d = Tlv.lastByte messageTypeTag 0 items := by
  rw [messageType, ← length_optionsField]
  exact optionLoop_longest (i := 0) 0 (by omega)

/-! ### The reads of the walk -/

/-- The walk with its reads of options[] on record; it has no value when the budget runs out. -/
def optionWalk (d : List UInt8) (optsLen : Nat) : Nat → Nat → UInt8 → Traced Nat (Option UInt8)
  | 0, _, _ => pure none
  | budget + 1, i, msgType =>
    if i ≥ optsLen then pure (some msgType)
    else do
      let opt ← peek (fun k => byteAt d (optionsAt + k)) i
      if opt = 255 then pure (some msgType)
      else if opt = 0 then optionWalk d optsLen budget (i + 1) msgType
      else if i + 1 ≥ optsLen then pure (some msgType)
      else do
        let olen ← peek (fun k => byteAt d (optionsAt + k)) (i + 1)
        if i + 2 + olen.toNat > optsLen then pure (some msgType)
        else if opt = 53 ∧ olen.toNat = 1 then do
          let msgType ← peek (fun k => byteAt d (optionsAt + k)) (i + 2)
          optionWalk d optsLen budget (i + 2 + olen.toNat) msgType
        else optionWalk d optsLen budget (i + 2 + olen.toNat) msgType

/-- One round of the walk, by its value. -/
theorem value_optionWalk_succ (d : List UInt8) (optsLen budget i : Nat) (t : UInt8) :
    (optionWalk d optsLen (budget + 1) i t).value =
      if i ≥ optsLen then some t
      else if byteAt d (optionsAt + i) = 255 then some t
      else if byteAt d (optionsAt + i) = 0 then (optionWalk d optsLen budget (i + 1) t).value
      else if i + 1 ≥ optsLen then some t
      else if i + 2 + (byteAt d (optionsAt + (i + 1))).toNat > optsLen then some t
      else
        (optionWalk d optsLen budget (i + 2 + (byteAt d (optionsAt + (i + 1))).toNat)
          (if byteAt d (optionsAt + i) = 53 ∧ (byteAt d (optionsAt + (i + 1))).toNat = 1 then
            byteAt d (optionsAt + (i + 2)) else t)).value := by
  rw [optionWalk]
  split
  · rfl
  change (if byteAt d (optionsAt + i) = 255 then _ else if byteAt d (optionsAt + i) = 0 then _
    else if i + 1 ≥ optsLen then _ else _ : Traced Nat (Option UInt8)).value = _
  split
  · rfl
  split
  · rfl
  split
  · rfl
  change (if i + 2 + (byteAt d (optionsAt + (i + 1))).toNat > optsLen then _
    else if byteAt d (optionsAt + i) = 53 ∧ (byteAt d (optionsAt + (i + 1))).toNat = 1 then _ else _ :
      Traced Nat (Option UInt8)).value = _
  split
  · rfl
  split
  · rfl
  · rfl

/-- The walk ends once the budget exceeds what is left of the field, with the value of the loop. -/
theorem value_optionWalk {d : List UInt8} {optsLen budget i rounds : Nat} (t : UInt8) (enough : optsLen < i + budget)
    (turns : optsLen ≤ i + rounds) (inside : i ≤ optsLen) :
    (optionWalk d optsLen budget i t).value = some (optionLoop d optsLen rounds i t) := by
  induction budget generalizing i rounds t with
  | zero => omega
  | succ budget ih =>
    rw [value_optionWalk_succ]
    by_cases past : i ≥ optsLen
    · rw [if_pos past]
      cases rounds with
      | zero => rfl
      | succ rounds => rw [optionLoop, if_pos past]
    cases rounds with
    | zero => omega
    | succ rounds =>
      simp only [optionLoop, if_neg past]
      split
      · rfl
      split
      · exact ih t (by omega) (by omega) (by omega)
      split
      · rfl
      split
      · rfl
      · exact ih _ (by omega) (by omega) (by omega)

/-- Whatever the bytes are, every read is of an option that was received. -/
theorem optionWalk_inside (d : List UInt8) (optsLen budget i : Nat) (t : UInt8) :
    All (· < optsLen) (optionWalk d optsLen budget i t) := by
  induction budget generalizing i t with
  | zero => exact all_pure _
  | succ budget ih =>
    rw [optionWalk]
    split
    · exact all_pure _
    rename_i inside
    rw [all_bind_iff, all_peek_iff]
    refine ⟨Nat.lt_of_not_le inside, ?_⟩
    split
    · exact all_pure _
    split
    · exact ih _ _
    split
    · exact all_pure _
    rename_i more
    rw [all_bind_iff, all_peek_iff]
    refine ⟨Nat.lt_of_not_le more, ?_⟩
    split
    · exact all_pure _
    rename_i room
    split
    · rename_i typed
      rw [all_bind_iff, all_peek_iff]
      refine ⟨?_, ih _ _⟩
      have single : (byteAt d (optionsAt + (i + 1))).toNat = 1 := typed.2
      rw [value_peek, single] at room
      omega
    · exact ih _ _

/-- For a datagram with whatever options: the walk ends, it reads only options that were received,
and the message type is what the options that the field starts with give to tag 53 last, 0 if nothing. -/
theorem messageType_reference (d : List UInt8) :
    Returns (fun budget => (optionWalk d (min (d.length - optionsAt) optionsLen) budget 0 0).value) (messageType d) ∧
      (∀ budget, All (fun k => k < optionsLen ∧ optionsAt + k < d.length)
        (optionWalk d (min (d.length - optionsAt) optionsLen) budget 0 0)) ∧
      (∃ items : List DhcpOption, Longest encodeOptions items (optionsField d)) ∧
      ∀ items : List DhcpOption, Longest encodeOptions items (optionsField d) →
        messageType d = Tlv.lastByte messageTypeTag 0 items := by
  obtain ⟨found, longest, value⟩ := messageType_longest d
  refine ⟨⟨optionsLen + 1, fun budget enough => ?_⟩, fun budget k member => ?_, ⟨found, longest⟩,
    fun items other => ?_⟩
  · exact value_optionWalk 0 (by omega) (by omega) (Nat.zero_le _)
  · have := optionWalk_inside d _ budget 0 0 k member
    omega
  · rw [value, longest.unique Tlv.prefixCode other]

end ChrisOS.Net.Dhcp
