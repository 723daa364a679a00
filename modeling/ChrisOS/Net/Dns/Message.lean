import ChrisOS.Net.Types
import Mathlib.Data.List.Flatten

/-! DNS messages: names as labels, and responses with the bytes that encode them.

This is the format that net/dns.c speaks, not how it reads or writes it.
-/

set_option autoImplicit false

namespace ChrisOS.Net.Dns

/-! ### Names -/

def ValidLabel (label : List UInt8) : Prop := 0 < label.length ∧ label.length ≤ 63

instance (label : List UInt8) : Decidable (ValidLabel label) := instDecidableAnd

/-- Every label behind its length. -/
def encodeLabels (labels : List (List UInt8)) : List UInt8 :=
  labels.flatMap fun label => UInt8.ofNat label.length :: label

@[simp] theorem encodeLabels_nil : encodeLabels [] = [] := rfl

@[simp] theorem encodeLabels_cons (label : List UInt8) (labels : List (List UInt8)) :
    encodeLabels (label :: labels) = UInt8.ofNat label.length :: (label ++ encodeLabels labels) := rfl

/-- The labels of a name that is not compressed, and the bytes behind it. -/
def decodeName : List UInt8 → Option (List (List UInt8) × List UInt8)
  | [] => none
  | b :: rest =>
    if b = 0 then some ([], rest)
    else if b.toNat ≤ 63 ∧ b.toNat ≤ rest.length then
      (decodeName (rest.drop b.toNat)).map fun name => (rest.take b.toNat :: name.1, name.2)
    else none
  termination_by bytes => bytes.length
  decreasing_by
    rw [List.length_drop, List.length_cons]
    omega

theorem ValidLabel.toNat_length {label : List UInt8} (valid : ValidLabel label) :
    (UInt8.ofNat label.length).toNat = label.length := by
  obtain ⟨-, most⟩ := valid
  exact UInt8.toNat_ofNat_of_lt' (Nat.lt_of_le_of_lt most (by decide))

theorem ValidLabel.length_ne_zero {label : List UInt8} (valid : ValidLabel label) : UInt8.ofNat label.length ≠ 0 := by
  intro zero
  have length := valid.toNat_length
  rw [zero] at length
  exact Nat.ne_of_lt valid.1 length

theorem decodeName_encodeLabels {labels : List (List UInt8)} (valid : ∀ label ∈ labels, ValidLabel label) (rest : List UInt8) :
    decodeName (encodeLabels labels ++ 0 :: rest) = some (labels, rest) := by
  induction labels with
  | nil =>
    rw [encodeLabels_nil, List.nil_append, decodeName]
    rfl
  | cons label labels ih =>
    rw [List.forall_mem_cons] at valid
    obtain ⟨first, others⟩ := valid
    have length := first.toNat_length
    rw [encodeLabels_cons, List.cons_append, List.append_assoc, decodeName, if_neg first.length_ne_zero, length, if_pos,
      List.drop_left, List.take_left, ih others]
    · rfl
    · refine ⟨first.2, ?_⟩
      rw [List.length_append]
      exact Nat.le_add_right _ _

/-! ### Responses -/

/-- The last byte or bytes of an owner name. -/
inductive Ending where
  | root
  /-- A compression pointer; the low bits of its first byte belong to the offset. -/
  | pointer (hi lo : UInt8)
  deriving DecidableEq

def Ending.encode : Ending → List UInt8
  | .root => [0]
  | .pointer hi lo => [0xC0 ||| hi, lo]

structure OwnerName where
  labels : List (List UInt8)
  ending : Ending
  valid : ∀ label ∈ labels, ValidLabel label

def OwnerName.encode (o : OwnerName) : List UInt8 := encodeLabels o.labels ++ o.ending.encode

structure Record where
  owner : OwnerName
  type : UInt16
  cls : UInt16
  ttl : UInt32
  rdata : List UInt8
  short : rdata.length < 2 ^ 16

/-- TYPE, CLASS, TTL and RDLENGTH. -/
def Record.fixed (r : Record) : List UInt8 :=
  bytes16 r.type ++ bytes16 r.cls ++ bytes32 r.ttl ++ bytes16 (UInt16.ofNat r.rdata.length)

def Record.encode (r : Record) : List UInt8 := r.owner.encode ++ r.fixed ++ r.rdata

/-- A response to a query with one question. -/
structure Response where
  id : UInt16
  flags : UInt16
  question : List (List UInt8)
  qtype : UInt16
  qclass : UInt16
  answers : List Record
  nscount : UInt16
  arcount : UInt16
  /-- The authority and additional sections. -/
  others : List UInt8
  valid : ∀ label ∈ question, ValidLabel label

def Response.header (r : Response) : List UInt8 :=
  bytes16 r.id ++ bytes16 r.flags ++ bytes16 1 ++ bytes16 (UInt16.ofNat r.answers.length) ++ bytes16 r.nscount ++
    bytes16 r.arcount

/-- The question section from the end of its name on. -/
def Response.questionEnd (r : Response) : List UInt8 := 0 :: (bytes16 r.qtype ++ bytes16 r.qclass)

def Response.encode (r : Response) : List UInt8 :=
  r.header ++ encodeLabels r.question ++ r.questionEnd ++ r.answers.flatMap Record.encode ++ r.others

/-- A record with an IPv4 address. -/
def Record.isAddress (r : Record) : Bool := r.type = 1 ∧ r.rdata.length = 4

/-- The address of the first answer that has one. -/
def firstAddress (answers : List Record) : Option Ipv4Addr :=
  (answers.find? Record.isAddress).map fun r => ipAt r.rdata 0

theorem Record.length_fixed (r : Record) : r.fixed.length = 10 := rfl

end ChrisOS.Net.Dns
