import ChrisOS.Net.Dhcp.Options

/-! Well-formed replies of a server and what dhcp_rx makes of them.

A reply is as long as its options make it; dhcp_rx asks for the length of the packet that
the client itself sends.
-/

set_option autoImplicit false

namespace ChrisOS.Net.Dhcp
open ChrisOS.Lib

inductive Kind where
  | offer | ack
  deriving DecidableEq, Repr

def Kind.type : Kind → UInt8
  | .offer => dhcpOffer
  | .ack => dhcpAck

/-- The message type option. -/
def Kind.item (kind : Kind) : DhcpOption := .option messageTypeTag [kind.type] (by decide) (by simp)

/-- A reply to this client: the fixed part with its magic cookie, then options of which one is the
message type, the end option, and any bytes behind it. -/
structure Reply where
  head : List UInt8
  before : List DhcpOption
  kind : Kind
  after : List DhcpOption
  tail : List UInt8
  fixed : head.length = optionsAt
  op : opAt head = 2
  xid : xidAt head = dhcpXid
  magic : word32At head 236 = dhcpMagic
  once : ∀ item ∈ before ++ after, item.tag? ≠ some messageTypeTag

namespace Reply

def options (r : Reply) : List DhcpOption := r.before ++ r.kind.item :: r.after

def field (r : Reply) : List UInt8 := r.options.flatMap encodeOptions ++ 255 :: r.tail

def bytes (r : Reply) : List UInt8 := r.head ++ r.field

/-- Where the message type option ends. -/
def typeEnd (r : Reply) : Nat := ((r.before ++ [r.kind.item]).flatMap encodeOptions).length

variable (r : Reply)

theorem byteAt_bytes {i : Nat} (inside : i < optionsAt) : byteAt r.bytes i = byteAt r.head i := by
  rw [byteAt, byteAt, bytes, List.getD_append _ _ _ _ (by rw [r.fixed]; exact inside)]

theorem opAt_bytes : opAt r.bytes = 2 := (r.byteAt_bytes (by decide)).trans r.op

theorem xidAt_bytes : xidAt r.bytes = dhcpXid := by
  rw [← r.xid]
  unfold xidAt word32At
  rw [r.byteAt_bytes (by decide), r.byteAt_bytes (by decide), r.byteAt_bytes (by decide), r.byteAt_bytes (by decide)]

theorem admitted_bytes : admitted r.bytes = true ↔ packetLen ≤ r.bytes.length := by
  simp only [admitted, r.opAt_bytes, r.xidAt_bytes, Bool.and_eq_true, decide_eq_true_eq, and_true, ge_iff_le]

theorem optionsField_bytes : optionsField r.bytes = r.field.take optionsLen := by
  rw [optionsField, bytes, List.drop_left' r.fixed]

theorem longest_options : Longest encodeOptions r.options r.field := by
  have stop := Longest.append Tlv.prefixCode r.options (@Tlv.longest_stop 0 255 (by decide) r.tail)
  rwa [List.append_nil] at stop

/-- The walk finds the message type if the option lies inside the first 312 option bytes. -/
theorem messageType_bytes : messageType r.bytes = if r.typeEnd ≤ optionsLen then r.kind.type else 0 := by
  obtain ⟨items, longest, value⟩ := messageType_longest r.bytes
  rw [optionsField_bytes] at longest
  obtain ⟨inside, short⟩ := List.prefix_take_iff.mp longest.inside
  have part : items <+: r.options := r.longest_options.covers Tlv.prefixCode inside
  have upTo : r.before ++ [r.kind.item] <+: r.options := ⟨r.after, by rw [options, List.append_assoc]; rfl⟩
  have typed : r.kind.item.byteOf messageTypeTag = some r.kind.type := rfl
  have once := List.forall_mem_append.mp r.once
  rw [value]
  by_cases early : r.typeEnd ≤ optionsLen
  · rw [if_pos early]
    have seen : r.before ++ [r.kind.item] <+: items := by
      refine longest.covers Tlv.prefixCode (List.prefix_take_iff.mpr ⟨?_, early⟩)
      exact (upTo.flatMap encodeOptions).trans r.longest_options.inside
    obtain ⟨more, rfl⟩ := seen
    rw [options, List.append_assoc, List.prefix_append_right_inj] at part
    obtain ⟨-, part⟩ := List.cons_prefix_cons.mp part
    rw [List.append_assoc]
    exact Tlv.lastByte_once typed once.1 fun item member => once.2 item (part.subset member)
  · rw [if_neg early]
    have unseen : ¬ r.before ++ [r.kind.item] <+: items := fun seen =>
      early ((seen.flatMap encodeOptions).length_le.trans short)
    rcases List.prefix_or_prefix_of_prefix upTo part with seen | shorter
    · exact absurd seen unseen
    rcases List.prefix_concat_iff.mp shorter with same | shorter
    · exact absurd (same ▸ List.prefix_refl _) unseen
    · exact Tlv.lastByte_absent fun item member => once.1 item (shorter.subset member)

end Reply

/-- An OFFER is recorded, an ACK gives the host its address. -/
def Processed (kind : Kind) (c : Client) (d : List UInt8) : Prop :=
  match kind with
  | .offer => (dhcpRx c d).offeredIp = yiaddrAt d ∧ (dhcpRx c d).gotOffer = true
  | .ack => (dhcpRx c d).myIp = yiaddrAt d ∧ (dhcpRx c d).gotAck = true

theorem dhcpRx_processed {d : List UInt8} (kind : Kind) (c : Client) (accepted : admitted d = true)
    (type : messageType d = kind.type) : Processed kind c d := by
  cases kind with
  | offer =>
    have other : dhcpOffer ≠ dhcpAck := by decide
    simp only [Processed, dhcpRx, if_pos accepted, type, Kind.type, ↓reduceIte, if_neg other, and_self]
  | ack => simp only [Processed, dhcpRx, if_pos accepted, type, Kind.type, ↓reduceIte, and_self]

/-- A datagram that is refused, or has no message type, changes nothing. -/
theorem dhcpRx_ignores {d : List UInt8} (c : Client) (ignored : admitted d = true → messageType d = 0) :
    dhcpRx c d = c := by
  unfold dhcpRx
  by_cases accepted : admitted d = true
  · have offer : (0 : UInt8) ≠ dhcpOffer := by decide
    have ack : (0 : UInt8) ≠ dhcpAck := by decide
    simp only [if_pos accepted, ignored accepted, if_neg offer, if_neg ack]
  · rw [if_neg accepted]

/-- A client that has seen nothing shows whether a datagram is processed. -/
theorem not_processed {kind : Kind} {d : List UInt8} {c : Client} (fresh : c.gotOffer = false ∧ c.gotAck = false)
    (ignored : admitted d = true → messageType d = 0) : ¬ Processed kind c d := by
  cases kind with
  | offer =>
    rintro ⟨-, got⟩
    rw [dhcpRx_ignores c ignored, fresh.1] at got
    cases got
  | ack =>
    rintro ⟨-, got⟩
    rw [dhcpRx_ignores c ignored, fresh.2] at got
    cases got

namespace Reply
variable (r : Reply)

/-- A well-formed reply is processed, whatever the client has seen, exactly when it is at least as long
as the packet of the client and its message type lies within the first 312 option bytes. -/
theorem processed_iff : (∀ c, Processed r.kind c r.bytes) ↔ packetLen ≤ r.bytes.length ∧ r.typeEnd ≤ optionsLen := by
  constructor
  · intro all
    by_contra short
    refine not_processed (c := noOffer) ⟨rfl, rfl⟩ (fun accepted => ?_) (all _)
    rw [messageType_bytes, if_neg fun early => short ⟨r.admitted_bytes.mp accepted, early⟩]
  · rintro ⟨long, early⟩ c
    refine dhcpRx_processed r.kind c (r.admitted_bytes.mpr long) ?_
    rw [messageType_bytes, if_pos early]

end Reply

/-- The fixed part of a reply that gives the address 10.0.2.15. -/
def replyHead : List UInt8 :=
  [2, 1, 6, 0] ++ bytes32 dhcpXid ++ List.replicate 8 0 ++ [10, 0, 2, 15] ++ List.replicate 216 0 ++ bytes32 dhcpMagic

theorem replyHead_cookie (i : Nat) : byteAt replyHead (236 + i) = byteAt (bytes32 dhcpMagic) i := byteAt_behind rfl i

/-- An ACK of 300 bytes, the least that a server sends. -/
def shortAck : Reply where
  head := replyHead
  before := []
  kind := .ack
  after := []
  tail := List.replicate 56 0
  fixed := rfl
  op := rfl
  xid := show be32 (UInt8.ofNat _) (UInt8.ofNat _) (UInt8.ofNat _) (UInt8.ofNat _) = _ from be32_bytes32 dhcpXid
  magic := by
    rw [word32At, replyHead_cookie 0, replyHead_cookie 1, replyHead_cookie 2, replyHead_cookie 3]
    exact be32_bytes32 dhcpMagic
  once := fun _ member => nomatch member

/-- The ACK has the fixed part, its options and the end option, and is not processed. -/
theorem short_ack_ignored : shortAck.bytes.length = 300 ∧ ¬ ∀ (r : Reply) (c : Client), Processed r.kind c r.bytes := by
  have length : shortAck.bytes.length = 300 := by
    have field : shortAck.field.length = 3 + (List.replicate 56 (0 : UInt8)).length + 1 := rfl
    rw [Reply.bytes, List.length_append, shortAck.fixed, field, List.length_replicate]
    rfl
  refine ⟨length, fun all => ?_⟩
  refine not_processed (c := noOffer) ⟨rfl, rfl⟩ (fun accepted => ?_) (all shortAck noOffer)
  have long := shortAck.admitted_bytes.mp accepted
  rw [length] at long
  exact absurd long (by decide)

end ChrisOS.Net.Dhcp
