import ChrisOS.Net.Dns
import ChrisOS.Net.Dns.Message

/-! What dns_rx finds in a response to the query that is out.

Its walk steps over every record whose owner name is labels up to a zero or a pointer alone.
Labels that end in a pointer lead it astray: it takes the pointer for the length of a label.
-/

set_option autoImplicit false

namespace ChrisOS.Net.Dns
open ChrisOS.Lib Traced

/-! ### Bytes in memory -/

/-- Memory holds these bytes from a position on. -/
def Holds (m : Nat → UInt8) : Nat → List UInt8 → Prop
  | _, [] => True
  | pos, b :: rest => m pos = b ∧ Holds m (pos + 1) rest

theorem holds_append {m : Nat → UInt8} {pos : Nat} {first rest : List UInt8} :
    Holds m pos (first ++ rest) ↔ Holds m pos first ∧ Holds m (pos + first.length) rest := by
  induction first generalizing pos with
  | nil => simp [Holds]
  | cons b first ih =>
    simp only [List.cons_append, Holds, ih, List.length_cons, and_assoc]
    rw [show pos + (first.length + 1) = pos + 1 + first.length by omega]

theorem holds_memory (bytes : List UInt8) (behind : Nat → UInt8) : Holds (Udp.memory bytes behind) 0 bytes := by
  have part (first rest : List UInt8) : Holds (Udp.memory (first ++ rest) behind) first.length rest := by
    induction rest generalizing first with
    | nil => exact trivial
    | cons b rest ih =>
      refine ⟨?_, ?_⟩
      · have here := Udp.memory_append first (b :: rest) behind 0
        exact here
      · have later := ih (first ++ [b])
        rwa [List.append_assoc, List.singleton_append, List.length_append] at later
  exact part [] bytes

section
variable {m : Nat → UInt8} {len pos : Nat}

theorem Holds.value_peek16 {v : UInt16} (holds : Holds m pos (bytes16 v)) : (peek16 m pos).value = v := by
  obtain ⟨hi, lo, -⟩ := holds
  have read : (peek16 m pos).value = be16 (m pos) (m (pos + 1)) := rfl
  rw [read, hi, lo]
  exact be16_bytes16 v

theorem Holds.value_peekIp {bytes : List UInt8} (holds : Holds m pos bytes) (four : bytes.length = 4) :
    (peekIp m pos).value = ipAt bytes 0 := by
  obtain ⟨a, b, c, d, rfl⟩ : ∃ a b c d, bytes = [a, b, c, d] := List.length_eq_four.mp four
  obtain ⟨first, second, third, fourth, -⟩ := holds
  refine (ipAt_eq fun k => ?_).symm
  fin_cases k
  · exact first.symm
  · exact second.symm
  · exact third.symm
  · exact fourth.symm

/-- The fixed part of a record, as dns_rx reads it. -/
theorem Holds.record {x : Record} (holds : Holds m pos x.fixed) :
    (peek16 m pos).value = x.type ∧ (peek16 m (pos + 8)).value = UInt16.ofNat x.rdata.length := by
  unfold Record.fixed at holds
  rw [holds_append, holds_append, holds_append] at holds
  obtain ⟨⟨⟨type, -⟩, -⟩, rdlen⟩ := holds
  exact ⟨type.value_peek16, rdlen.value_peek16⟩

/-! ### Names -/

theorem value_skipLabels : (skipLabels m len pos).value =
    if pos < len then if m pos = 0 then pos else (skipLabels m len (pos + (m pos).toNat + 1)).value else pos := by
  rw [skipLabels]
  split
  · rw [value_bind, value_peek]
    split <;> rfl
  · rfl

/-- Labels are skipped one after the other. -/
theorem skipLabels_labels {labels : List (List UInt8)} (valid : ∀ label ∈ labels, ValidLabel label)
    (holds : Holds m pos (encodeLabels labels)) (inside : pos + (encodeLabels labels).length ≤ len) :
    (skipLabels m len pos).value = (skipLabels m len (pos + (encodeLabels labels).length)).value := by
  induction labels generalizing pos with
  | nil => rfl
  | cons label labels ih =>
    rw [List.forall_mem_cons] at valid
    obtain ⟨here, others⟩ := valid
    obtain ⟨byte, rest⟩ := holds
    have behind := (holds_append.mp rest).2
    rw [encodeLabels_cons, List.length_cons, List.length_append] at inside ⊢
    rw [value_skipLabels, if_pos (by omega), byte, if_neg here.length_ne_zero, here.toNat_length]
    rw [show pos + label.length + 1 = pos + 1 + label.length by omega, ih others behind (by omega)]
    congr 2
    omega

theorem skipLabels_stop (inside : pos < len) (zero : m pos = 0) : (skipLabels m len pos).value = pos := by
  rw [value_skipLabels, if_pos inside, if_pos zero]

theorem skipLabels_outside (outside : len ≤ pos) : (skipLabels m len pos).value = pos := by
  rw [value_skipLabels, if_neg (Nat.not_lt.mpr outside)]

/-- The length of a label is not taken for a pointer. -/
theorem ValidLabel.not_pointer {label : List UInt8} (valid : ValidLabel label) :
    UInt8.ofNat label.length &&& 0xC0 ≠ 0xC0 := by
  have small : ∀ n, n < 64 → UInt8.ofNat n &&& 0xC0 ≠ 0xC0 := by decide
  exact small label.length (Nat.lt_succ_of_le valid.2)

theorem pointer_mark (hi : UInt8) : (0xC0 ||| hi) &&& 0xC0 = 0xC0 := by
  apply UInt8.eq_of_toBitVec_eq
  ext i
  simp
  tauto

theorem le_pointer (hi : UInt8) : 192 ≤ (0xC0 ||| hi).toNat := by
  rw [UInt8.toNat_or]
  exact Nat.left_le_or

/-- Labels that end in a pointer. -/
def OwnerName.Mixed (o : OwnerName) : Prop := o.labels ≠ [] ∧ ∃ hi lo, o.ending = .pointer hi lo

/-- The first byte of a name with labels is the length of the first one. -/
theorem skipOwner_labels {labels : List (List UInt8)} {rest : List UInt8} (nonempty : labels ≠ [])
    (valid : ∀ label ∈ labels, ValidLabel label) (holds : Holds m pos (encodeLabels labels ++ rest))
    (inside : pos + (encodeLabels labels).length ≤ len) :
    (skipOwner m len pos).value = (skipLabels m len (pos + (encodeLabels labels).length)).value + 1 := by
  have first := (holds_append.mp holds).1
  have skipped := skipLabels_labels valid first inside
  cases labels with
  | nil => exact absurd rfl nonempty
  | cons label labels =>
    have notPointer := (valid label List.mem_cons_self).not_pointer
    rw [← first.1] at notPointer
    rw [skipOwner, value_bind, value_peek, if_neg notPointer, value_bind, skipped]
    rfl

/-- A name that is not mixed is skipped exactly. -/
theorem skipOwner_plain {o : OwnerName} (plain : ¬ o.Mixed) (holds : Holds m pos o.encode)
    (inside : pos + o.encode.length ≤ len) : (skipOwner m len pos).value = pos + o.encode.length := by
  obtain ⟨labels, ending, valid⟩ := o
  have split : (encodeLabels labels ++ ending.encode).length = (encodeLabels labels).length + ending.encode.length :=
    List.length_append
  unfold OwnerName.encode at holds inside ⊢
  dsimp only at holds inside ⊢
  rw [split] at inside ⊢
  cases ending with
  | root =>
    have zero : m (pos + (encodeLabels labels).length) = 0 := (holds_append.mp holds).2.1
    have one : Ending.root.encode.length = 1 := rfl
    rw [one] at inside ⊢
    by_cases empty : labels = []
    · subst empty
      rw [encodeLabels_nil, List.length_nil, Nat.add_zero] at zero inside
      have notPointer : ¬ m pos &&& 0xC0 = 0xC0 := by
        rw [zero]
        decide
      rw [skipOwner, value_bind, value_peek, if_neg notPointer, value_bind, skipLabels_stop (by omega) zero]
      rfl
    · rw [skipOwner_labels empty valid holds (by omega), skipLabels_stop (by omega) zero]
      rfl
  | pointer hi lo =>
    have empty : labels = [] := by
      by_contra nonempty
      exact plain ⟨nonempty, hi, lo, rfl⟩
    subst empty
    rw [skipOwner, value_bind, value_peek, holds.1, if_pos (pointer_mark hi)]
    rfl

/-- A mixed name is not skipped: its pointer is taken for the length of one more label. -/
theorem skipOwner_mixed {o : OwnerName} {hi lo : UInt8} (nonempty : o.labels ≠ []) (pointer : o.ending = .pointer hi lo)
    (holds : Holds m pos o.encode) (inside : pos + o.encode.length ≤ len) :
    (skipOwner m len pos).value =
      (skipLabels m len (pos + (encodeLabels o.labels).length + (0xC0 ||| hi).toNat + 1)).value + 1 := by
  unfold OwnerName.encode at holds inside
  rw [pointer] at holds inside
  have byte : m (pos + (encodeLabels o.labels).length) = 0xC0 ||| hi := (holds_append.mp holds).2.1
  have two : (Ending.pointer hi lo).encode.length = 2 := rfl
  have nonzero : ¬ (0xC0 ||| hi) = 0 := by
    intro zero
    have least := le_pointer hi
    rw [zero] at least
    exact absurd least (by decide)
  rw [List.length_append, two] at inside
  rw [skipOwner_labels nonempty o.valid holds (by omega), value_skipLabels, if_pos (by omega), byte, if_neg nonzero]

/-! ### Records -/

theorem Ending.length_pos (e : Ending) : 1 ≤ e.encode.length := by
  cases e <;> exact Nat.succ_pos _

theorem OwnerName.length_pos (o : OwnerName) : 1 ≤ o.encode.length := by
  have ending := o.ending.length_pos
  rw [OwnerName.encode, List.length_append]
  omega

theorem Record.length_encode (x : Record) : x.encode.length = x.owner.encode.length + 10 + x.rdata.length := by
  rw [Record.encode, List.length_append, List.length_append, Record.length_fixed]

theorem Record.length_answers (answers : List Record) : answers.length ≤ (answers.flatMap Record.encode).length := by
  induction answers with
  | nil => exact Nat.zero_le _
  | cons x answers ih =>
    have owner := x.owner.length_pos
    rw [List.length_cons, List.flatMap_cons, List.length_append, x.length_encode]
    omega

theorem answerLoop_outside (left : Nat) (outside : len < pos + 12) : (answerLoop m len left pos).value = none := by
  cases left with
  | zero => rfl
  | succ left => rw [answerLoop, if_neg (Nat.not_le.mpr outside)]; rfl

/-- One round of the walk, in values. -/
theorem answerLoop_succ (left : Nat) (room : pos + 12 ≤ len) {stop : Nat} (skipped : (skipOwner m len pos).value = stop) :
    (answerLoop m len (left + 1) pos).value =
      if (peek16 m stop).value = 1 ∧ (peek16 m (stop + 8)).value = 4 ∧ stop + 10 + 4 ≤ len then
        some (peekIp m (stop + 10)).value
      else (answerLoop m len left (stop + 10 + (peek16 m (stop + 8)).value.toNat)).value := by
  rw [answerLoop, if_pos room, value_bind, skipped, value_bind, value_bind]
  dsimp only
  split
  · rfl
  · rfl

/-- A record with a plain owner name is read where it is. -/
theorem answerLoop_plain {x : Record} (left : Nat) (plain : ¬ x.owner.Mixed) (holds : Holds m pos x.encode)
    (inside : pos + x.encode.length ≤ len) : (answerLoop m len (left + 1) pos).value =
      if x.isAddress then some (ipAt x.rdata 0) else (answerLoop m len left (pos + x.encode.length)).value := by
  have length := x.length_encode
  have owner := x.owner.length_pos
  have isAddress : x.isAddress = true ↔ x.type = 1 ∧ x.rdata.length = 4 := decide_eq_true_iff
  by_cases room : pos + 12 ≤ len
  · unfold Record.encode at holds
    rw [List.append_assoc, holds_append, holds_append] at holds
    obtain ⟨name, fixed, rdata⟩ := holds
    have skipped : (skipOwner m len pos).value = _ := skipOwner_plain plain name (by omega)
    rw [Record.length_fixed] at rdata
    obtain ⟨type, rdlen⟩ := fixed.record
    have back : (UInt16.ofNat x.rdata.length).toNat = x.rdata.length := UInt16.toNat_ofNat_of_lt' x.short
    have four : UInt16.ofNat x.rdata.length = 4 ↔ x.rdata.length = 4 := by
      rw [← UInt16.toNat_inj, back]
      rfl
    rw [answerLoop_succ left room skipped, type, rdlen, back]
    by_cases address : x.type = 1 ∧ x.rdata.length = 4
    · rw [if_pos ⟨address.1, four.mpr address.2, by omega⟩, if_pos (isAddress.mpr address), rdata.value_peekIp address.2]
    · rw [if_neg (fun found => address ⟨found.1, four.mp found.2.1⟩), if_neg (fun is => address (isAddress.mp is)), length]
      congr 2
      omega
  · -- the last record, of 11 bytes
    have other : ¬ x.isAddress = true := by
      rw [isAddress]
      omega
    have later : len < pos + x.encode.length + 12 := by omega
    rw [answerLoop_outside _ (Nat.not_le.mp room), if_neg other, answerLoop_outside _ later]

/-- After a mixed owner name whose pointer, as a length, leads out of the message, nothing is found. -/
theorem answerLoop_mixed {x : Record} {hi lo : UInt8} (left : Nat) (nonempty : x.owner.labels ≠ [])
    (pointer : x.owner.ending = .pointer hi lo) (holds : Holds m pos x.encode) (inside : pos + x.encode.length ≤ len)
    (leaves : len ≤ pos + (encodeLabels x.owner.labels).length + (0xC0 ||| hi).toNat + 1) :
    (answerLoop m len (left + 1) pos).value = none := by
  have length := x.length_encode
  by_cases room : pos + 12 ≤ len
  · unfold Record.encode at holds
    rw [List.append_assoc, holds_append] at holds
    have skipped : (skipOwner m len pos).value = _ := skipOwner_mixed nonempty pointer holds.1 (by omega)
    rw [skipLabels_outside leaves] at skipped
    rw [answerLoop_succ left room skipped, if_neg (by omega)]
    apply answerLoop_outside
    omega
  · exact answerLoop_outside _ (Nat.not_le.mp room)

/-- The records up to the first address. -/
def visited : List Record → List Record
  | [] => []
  | x :: rest => if x.isAddress then [x] else x :: visited rest

theorem firstAddress_cons (x : Record) (rest : List Record) :
    firstAddress (x :: rest) = if x.isAddress then some (ipAt x.rdata 0) else firstAddress rest := by
  rw [firstAddress, List.find?_cons]
  cases x.isAddress <;> rfl

/-- The only record of a message is plain if its name has no labels. -/
theorem visited_bare {x : Record} (bare : x.owner.labels = []) : ∀ z ∈ visited [x], ¬ z.owner.Mixed := by
  rintro z member ⟨labels, -⟩
  have only : z = x := by
    rw [visited] at member
    split at member
    · exact List.mem_singleton.mp member
    · exact List.mem_singleton.mp member
  rw [only] at labels
  exact labels bare

/-- The walk over plain records finds the first address. -/
theorem answerLoop_visited {answers : List Record} (plain : ∀ x ∈ visited answers, ¬ x.owner.Mixed)
    (holds : Holds m pos (answers.flatMap Record.encode)) (inside : pos + (answers.flatMap Record.encode).length ≤ len) :
    (answerLoop m len answers.length pos).value = firstAddress answers := by
  induction answers generalizing pos with
  | nil => rfl
  | cons x rest ih =>
    rw [List.flatMap_cons, List.length_append] at inside
    rw [List.flatMap_cons, holds_append] at holds
    have here : ¬ x.owner.Mixed := by
      apply plain
      rw [visited]
      split <;> exact List.mem_cons_self
    rw [List.length_cons, answerLoop_plain rest.length here holds.1 (by omega), firstAddress_cons]
    by_cases address : x.isAddress = true
    · rw [if_pos address, if_pos address]
    · rw [if_neg address, if_neg address]
      rw [visited, if_neg address, List.forall_mem_cons] at plain
      exact ih plain.2 holds.2 (by omega)

/-- Plain records without an address are passed. -/
theorem answerLoop_passed {before : List Record} (left : Nat) (passed : ∀ z ∈ before, ¬ z.owner.Mixed ∧ ¬ z.isAddress = true)
    (holds : Holds m pos (before.flatMap Record.encode)) (inside : pos + (before.flatMap Record.encode).length ≤ len) :
    (answerLoop m len (before.length + left) pos).value =
      (answerLoop m len left (pos + (before.flatMap Record.encode).length)).value := by
  induction before generalizing pos with
  | nil => rw [List.length_nil, Nat.zero_add]; rfl
  | cons z before ih =>
    rw [List.flatMap_cons, List.length_append] at inside ⊢
    rw [List.flatMap_cons, holds_append] at holds
    rw [List.forall_mem_cons] at passed
    obtain ⟨⟨plain, other⟩, passed⟩ := passed
    rw [List.length_cons, Nat.add_right_comm, answerLoop_plain _ plain holds.1 (by omega), if_neg other,
      ih passed holds.2 (by omega), Nat.add_assoc]

end

/-! ### Responses -/

theorem Response.length_header (r : Response) : r.header.length = 12 := rfl

theorem Response.encode_eq (r : Response) : r.encode =
    r.header ++ (encodeLabels r.question ++ (r.questionEnd ++ (r.answers.flatMap Record.encode ++ r.others))) := by
  simp only [Response.encode, List.append_assoc]

theorem Response.length_encode (r : Response) : r.encode.length =
    12 + (encodeLabels r.question ++ (r.questionEnd ++ (r.answers.flatMap Record.encode ++ r.others))).length := by
  rw [r.encode_eq, List.length_append, r.length_header]

/-- The fields of a response in memory that a receiver looks at. -/
theorem Response.fields {r : Response} {m : Nat → UInt8} (holds : Holds m 0 r.encode) :
    (peek16 m 0).value = r.id ∧ m 2 = UInt8.ofNat (r.flags.toNat / 256) ∧
      (peek16 m 6).value = UInt16.ofNat r.answers.length ∧
      Holds m 12 (encodeLabels r.question ++ (r.questionEnd ++ (r.answers.flatMap Record.encode ++ r.others))) := by
  rw [r.encode_eq, holds_append, r.length_header, Nat.zero_add] at holds
  obtain ⟨header, rest⟩ := holds
  unfold Response.header at header
  simp only [holds_append] at header
  obtain ⟨⟨⟨⟨⟨id, flags⟩, -⟩, ancount⟩, -⟩, -⟩ := header
  exact ⟨id.value_peek16, flags.1, ancount.value_peek16, rest⟩

/-- dns_rx on a response to the query that is out: what is behind the question goes through the walk. -/
theorem dnsRx_response {y : Resolver} {r : Response} (id : r.id = y.tid) (fits : r.encode.length < 2 ^ 16)
    (behind : Nat → UInt8) :
    ∃ start, Holds (Udp.memory r.encode behind) start (r.answers.flatMap Record.encode ++ r.others) ∧
      start + (r.answers.flatMap Record.encode ++ r.others).length = r.encode.length ∧
      (dnsRx y (Udp.memory r.encode behind) (UInt16.ofNat r.encode.length)).value =
        { y with
          done := true
          result := ((answerLoop (Udp.memory r.encode behind) r.encode.length r.answers.length start).value).getD y.result } := by
  have back : (UInt16.ofNat r.encode.length).toNat = r.encode.length := UInt16.toNat_ofNat_of_lt' fits
  have total := r.length_encode
  have questionEnd : r.questionEnd.length = 5 := rfl
  rw [List.length_append, List.length_append, questionEnd] at total
  have few : r.answers.length < 2 ^ 16 := by
    have answers := Record.length_answers r.answers
    rw [List.length_append] at total
    omega
  have fields := Response.fields (holds_memory r.encode behind)
  generalize Udp.memory r.encode behind = m at fields ⊢
  obtain ⟨tid, -, ancount, rest⟩ := fields
  rw [holds_append, holds_append, questionEnd] at rest
  obtain ⟨question, zero, rest⟩ := rest
  refine ⟨12 + (encodeLabels r.question).length + 5, rest, by omega, ?_⟩
  have skipped : (skipLabels m r.encode.length 12).value = 12 + (encodeLabels r.question).length := by
    rw [skipLabels_labels r.valid question (by omega), skipLabels_stop (by omega) zero.1]
  have count : (UInt16.ofNat r.answers.length).toNat = r.answers.length := UInt16.toNat_ofNat_of_lt' few
  have long : ¬ (UInt16.ofNat r.encode.length).toNat < 12 := by omega
  rw [dnsRx, if_neg long, value_bind, tid, if_neg (not_not_intro id), value_bind, ancount]
  by_cases none_sent : UInt16.ofNat r.answers.length = 0
  · have empty : r.answers.length = 0 := by
      rw [← count, none_sent]
      rfl
    rw [if_pos none_sent, empty]
    rfl
  · rw [if_neg none_sent, value_bind, back, skipped, value_bind, count]
    rfl

/-- dns_rx ends the wait with the first address among the answers, if there is one. -/
def Finds (y : Resolver) (r : Response) (behind : Nat → UInt8) : Prop :=
  (dnsRx y (Udp.memory r.encode behind) (UInt16.ofNat r.encode.length)).value =
    { y with done := true, result := (firstAddress r.answers).getD y.result }

/-- A record with a mixed name whose pointer, taken for the length of a label, leads out of the message. -/
structure Derails (x : Record) (behind : List UInt8) (hi lo : UInt8) : Prop where
  labels : x.owner.labels ≠ []
  pointer : x.owner.ending = .pointer hi lo
  leaves : 2 + 10 + x.rdata.length + behind.length ≤ (0xC0 ||| hi).toNat + 1

section
variable {y : Resolver} {r : Response} (id : r.id = y.tid) (fits : r.encode.length < 2 ^ 16) (behind : Nat → UInt8)
include id fits

theorem finds_of_plain (plain : ∀ x ∈ visited r.answers, ¬ x.owner.Mixed) : Finds y r behind := by
  obtain ⟨start, holds, total, result⟩ := dnsRx_response id fits behind
  rw [List.length_append] at total
  rw [Finds, result, answerLoop_visited plain (holds_append.mp holds).1 (by omega)]

/-- Once the walk is led out of the message, nothing is found. -/
theorem dnsRx_derailed {before after : List Record} {x : Record} {hi lo : UInt8} (split : r.answers = before ++ x :: after)
    (passed : ∀ z ∈ before, ¬ z.owner.Mixed ∧ ¬ z.isAddress = true)
    (derails : Derails x (after.flatMap Record.encode ++ r.others) hi lo) :
    (dnsRx y (Udp.memory r.encode behind) (UInt16.ofNat r.encode.length)).value = { y with done := true } := by
  obtain ⟨start, holds, total, result⟩ := dnsRx_response id fits behind
  obtain ⟨labels, pointer, leaves⟩ := derails
  have name : x.owner.encode.length = (encodeLabels x.owner.labels).length + 2 := by
    rw [OwnerName.encode, pointer, List.length_append]
    rfl
  have length := x.length_encode
  rw [split, List.flatMap_append, List.flatMap_cons, List.append_assoc, List.append_assoc] at holds total
  rw [holds_append, holds_append] at holds
  rw [List.length_append, List.length_append] at total
  obtain ⟨first, here, -⟩ := holds
  have count : r.answers.length = before.length + (after.length + 1) := by
    rw [split, List.length_append, List.length_cons]
  rw [result, count, answerLoop_passed _ passed first (by omega),
    answerLoop_mixed after.length labels pointer here (by omega) (by omega)]
  rfl

end

/-- Among the records up to the first address all are plain, or there is a first mixed one. -/
theorem plain_or_mixed (answers : List Record) : (∀ x ∈ visited answers, ¬ x.owner.Mixed) ∨
    ∃ before x after, answers = before ++ x :: after ∧ (∀ z ∈ before, ¬ z.owner.Mixed ∧ ¬ z.isAddress = true) ∧
      x.owner.Mixed := by
  induction answers with
  | nil => exact .inl (List.forall_mem_nil _)
  | cons x rest ih =>
    by_cases mixed : x.owner.Mixed
    · exact .inr ⟨[], x, rest, rfl, List.forall_mem_nil _, mixed⟩
    rw [visited]
    by_cases address : x.isAddress = true
    · rw [if_pos address]
      exact .inl (List.forall_mem_singleton.mpr mixed)
    · rw [if_neg address]
      rcases ih with plain | ⟨before, z, after, rfl, passed, later⟩
      · exact .inl (List.forall_mem_cons.mpr ⟨mixed, plain⟩)
      · exact .inr ⟨x :: before, z, after, rfl, List.forall_mem_cons.mpr ⟨⟨mixed, address⟩, passed⟩, later⟩

/-- The first address is found when no record up to it has a mixed name. Where every mixed name leads the walk
out of the message, it is found only then, unless there is no address or dns_result held it before. -/
theorem dnsRx_finds_iff {y : Resolver} {r : Response} (id : r.id = y.tid) (fits : r.encode.length < 2 ^ 16)
    (behind : Nat → UInt8) :
    ((∀ x ∈ visited r.answers, ¬ x.owner.Mixed) → Finds y r behind) ∧
    ((∀ before x after hi lo, r.answers = before ++ x :: after → x.owner.labels ≠ [] → x.owner.ending = .pointer hi lo →
        Derails x (after.flatMap Record.encode ++ r.others) hi lo) →
      (Finds y r behind ↔
        (∀ x ∈ visited r.answers, ¬ x.owner.Mixed) ∨ (firstAddress r.answers).getD y.result = y.result)) := by
  refine ⟨finds_of_plain id fits behind, fun short => ⟨fun finds => ?_, ?_⟩⟩
  · rcases plain_or_mixed r.answers with plain | ⟨before, x, after, split, passed, labels, hi, lo, pointer⟩
    · exact .inl plain
    · have derailed := dnsRx_derailed id fits behind split passed (short before x after hi lo split labels pointer)
      rw [Finds, derailed, Resolver.mk.injEq] at finds
      exact .inr finds.2.1.symm
  · rintro (plain | same)
    · exact finds_of_plain id fits behind plain
    · rcases plain_or_mixed r.answers with plain | ⟨before, x, after, split, passed, labels, hi, lo, pointer⟩
      · exact finds_of_plain id fits behind plain
      · rw [Finds, dnsRx_derailed id fits behind split passed (short before x after hi lo split labels pointer), same]

/-! ### Two responses -/

/-- A response to the first query, with the name w in its question; its one answer is 1.2.3.4. -/
def oneAnswer (owner : OwnerName) : Response where
  id := 1
  flags := 0x8180
  question := [[0x77]]
  qtype := 1
  qclass := 1
  answers := [⟨owner, 1, 1, 60, [1, 2, 3, 4], by decide⟩]
  nscount := 0
  arcount := 0
  others := []
  valid := by decide

/-- The owner name is a pointer to the question. -/
theorem dnsRx_finds_iff_pointer : Finds (asked blank) (oneAnswer ⟨[], .pointer 0 12, by decide⟩) fun _ => 0 :=
  (dnsRx_finds_iff rfl (by decide) fun _ => 0).1 (visited_bare rfl)

/-- The owner name is the label w and a pointer to the root: the address is missed. -/
theorem dnsRx_finds_fails : ¬ ∀ y r behind, r.id = y.tid → r.encode.length < 2 ^ 16 → Finds y r behind := by
  intro finds
  have found := finds (asked blank) (oneAnswer ⟨[[0x77]], .pointer 0 14, by decide⟩) (fun _ => 0) rfl (by decide)
  have answers : (oneAnswer ⟨[[0x77]], .pointer 0 14, by decide⟩).answers =
    [] ++ ⟨⟨[[0x77]], .pointer 0 14, by decide⟩, 1, 1, 60, [1, 2, 3, 4], by decide⟩ :: [] := rfl
  rw [Finds, dnsRx_derailed rfl (by decide) (fun _ => 0) answers (List.forall_mem_nil _)
    ⟨List.cons_ne_nil _ _, rfl, by decide⟩, Resolver.mk.injEq] at found
  exact absurd (congrArg Ipv4Addr.first found.2.1) (by decide)

end ChrisOS.Net.Dns
