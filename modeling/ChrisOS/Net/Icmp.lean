import ChrisOS.Net.Udp

/-! The ICMP code of net/icmp.c. The polling loop of icmp_ping is left to the run. -/

set_option autoImplicit false

namespace ChrisOS.Net.Icmp
open ChrisOS.Net.Checksum ChrisOS.Net.Ipv4
open ChrisOS.Net.Udp (window)

def echoRequest : UInt8 := 8
def echoReply : UInt8 := 0

def hdrLen : Nat := 8
def dataLen : Nat := 32

structure Header where
  type : UInt8
  code : UInt8
  checksum : UInt16
  id : UInt16
  seq : UInt16
  deriving DecidableEq

def Header.encode (h : Header) : List UInt8 :=
  [h.type, h.code] ++ bytes16 h.checksum ++ bytes16 h.id ++ bytes16 h.seq

/-- The packed structure at a pointer. -/
def Header.read (m : Nat → UInt8) (ptr : Nat) : Header where
  type := m ptr
  code := m (ptr + 1)
  checksum := be16 (m (ptr + 2)) (m (ptr + 3))
  id := be16 (m (ptr + 4)) (m (ptr + 5))
  seq := be16 (m (ptr + 6)) (m (ptr + 7))

/-- A message with its checksum filled in. -/
def Header.message (h : Header) (data : List UInt8) : List UInt8 :=
  { h with checksum := ipv4Checksum ({ h with checksum := 0 }.encode ++ data) }.encode ++ data

/-- What icmp_handle does with a message. -/
inductive Action where
  | ignored
  /-- The message goes to ipv4_send. -/
  | reply (dest : Ipv4Addr) (message : List UInt8)
  /-- icmp_reply_received is set and a line printed. -/
  | answered (src : Ipv4Addr) (seq : UInt16)
  deriving DecidableEq

def icmpHandle (src : Ipv4Addr) (m : Nat → UInt8) (payload : Nat) (len : UInt16) : Action :=
  if len.toNat < hdrLen then .ignored
  else
    let hdr := Header.read m payload
    if hdr.type = echoRequest then
      -- what is beyond 32 bytes of data is not echoed
      let size := if len.toNat - hdrLen > dataLen then dataLen else len.toNat - hdrLen
      .reply src (Header.message ⟨echoReply, 0, 0, hdr.id, hdr.seq⟩ (window m (payload + hdrLen) size))
    else if hdr.type = echoReply then .answered src hdr.seq
    else .ignored

/-- The new ping_seq and the message that icmp_ping sends. -/
def icmpPing (pingSeq : UInt16) : UInt16 × List UInt8 :=
  (pingSeq + 1, Header.message ⟨echoRequest, 0, 0, 0x1337, pingSeq⟩ ((List.range dataLen).map UInt8.ofNat))

theorem Header.encode_checksum (h : Header) (sum : UInt16) (data : List UInt8) :
    { h with checksum := sum }.encode ++ data = [h.type, h.code] ++ bytes16 sum ++ (bytes16 h.id ++ bytes16 h.seq ++ data) := by
  simp only [encode, List.append_assoc]

theorem Header.message_verifies (h : Header) (data : List UInt8) : ipv4Checksum (h.message data) = 0 := by
  have even : [h.type, h.code].length % 2 = 0 := Nat.mod_self 2
  rw [message, encode_checksum, encode_checksum]
  exact ipv4Checksum_stored even _

/-- Every reply that icmp_handle sends verifies. -/
theorem icmpHandle_verifies {src dest : Ipv4Addr} {m : Nat → UInt8} {payload : Nat} {len : UInt16}
    {message : List UInt8} (sent : icmpHandle src m payload len = .reply dest message) :
    dest = src ∧ ipv4Checksum message = 0 := by
  unfold icmpHandle at sent
  split at sent
  · cases sent
  dsimp only at sent
  split at sent
  · cases sent
    exact ⟨rfl, Header.message_verifies _ _⟩
  split at sent
  · cases sent
  · cases sent

end ChrisOS.Net.Icmp
