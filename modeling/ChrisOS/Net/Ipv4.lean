import ChrisOS.Net.Arp
import ChrisOS.Net.Checksum

/-! The IPv4 code of net/ipv4.c.

What arrives is the list of its bytes. A handler is given a pointer into them and a
length, which need not be the length of what follows the pointer.
-/

set_option autoImplicit false

namespace ChrisOS.Net.Ipv4
open ChrisOS.Net.Checksum

/-- sizeof(ipv4_hdr_t). -/
def hdrLen : Nat := 20

/-- The size of the buffer in ipv4_send. -/
def bufSize : Nat := 1500

def protoIcmp : UInt8 := 1
def protoTcp : UInt8 := 6
def protoUdp : UInt8 := 17

def broadcast : Ipv4Addr := ⟨fun _ => 255⟩

structure Header where
  verIhl : UInt8
  dscp : UInt8
  totalLen : UInt16
  id : UInt16
  flagsFrag : UInt16
  ttl : UInt8
  proto : UInt8
  checksum : UInt16
  src : Ipv4Addr
  dst : Ipv4Addr
  deriving DecidableEq

def Header.encode (h : Header) : List UInt8 :=
  [h.verIhl, h.dscp] ++ bytes16 h.totalLen ++ bytes16 h.id ++ bytes16 h.flagsFrag ++ [h.ttl, h.proto] ++
    bytes16 h.checksum ++ h.src.toList ++ h.dst.toList

/-- The packed structure over the first bytes of a packet. -/
def Header.decode (b : List UInt8) : Header where
  verIhl := byteAt b 0
  dscp := byteAt b 1
  totalLen := word16At b 2
  id := word16At b 4
  flagsFrag := word16At b 6
  ttl := byteAt b 8
  proto := byteAt b 9
  checksum := word16At b 10
  src := ipAt b 12
  dst := ipAt b 16

theorem Header.length_encode (h : Header) : h.encode.length = hdrLen := rfl

theorem Header.decode_encode (h : Header) (data : List UInt8) : decode (h.encode ++ data) = h := by
  cases h with
  | mk verIhl dscp totalLen id flagsFrag ttl proto checksum src dst =>
    simp only [decode, Header.mk.injEq]
    refine ⟨rfl, rfl, be16_bytes16 totalLen, be16_bytes16 id, be16_bytes16 flagsFrag, rfl, rfl,
      be16_bytes16 checksum, ?_, ?_⟩
    · exact ipAt_eq fun k => by fin_cases k <;> rfl
    · exact ipAt_eq fun k => by fin_cases k <;> rfl

/-- `(uint8_t)((ver_ihl & 0x0F) * 4)`, in bytes. -/
def Header.ihl (h : Header) : Nat := (h.verIhl &&& 0x0F).toNat * 4

/-- Both loops as in tcp_checksum; the words of at most 65535 bytes sum up below 2^32. -/
def ipv4Checksum (data : List UInt8) : UInt16 := ~~~ UInt16.ofNat (Tcp.foldCarry (Tcp.sumWords data))

/-! ### Receiving -/

/-- What ipv4_handle passes on: to the handler of `proto`, the bytes from `start` of the payload. -/
structure Datagram where
  proto : UInt8
  src : Ipv4Addr
  start : Nat
  len : UInt16
  deriving DecidableEq

def ipv4Handle (myIp : Ipv4Addr) (payload : List UInt8) : Option Datagram :=
  if payload.length < hdrLen then none
  else
    let hdr := Header.decode payload
    -- neither ihl nor the total length is compared with the payload's length
    let dataLen := hdr.totalLen - UInt16.ofNat hdr.ihl
    if !ipEq hdr.dst myIp && !ipEq hdr.dst broadcast then none
    else if hdr.proto = protoIcmp ∨ hdr.proto = protoUdp ∨ hdr.proto = protoTcp then
      some ⟨hdr.proto, hdr.src, hdr.ihl, dataLen⟩
    else none

/-! ### Sending -/

/-- The statics that sending reads and writes. -/
structure Host where
  node : Arp.Node
  ipId : UInt16

def sendHeader (h : Host) (dest : Ipv4Addr) (proto : UInt8) (len : Nat) : Header :=
  let hdr : Header :=
    { verIhl := 0x45
      dscp := 0
      totalLen := UInt16.ofNat (hdrLen + len)
      id := h.ipId
      flagsFrag := 0x4000
      ttl := 64
      proto := proto
      checksum := 0
      src := h.node.ip
      dst := dest }
  { hdr with checksum := ipv4Checksum hdr.encode }

/-- Destinations that are sent to the broadcast MAC without a lookup. -/
def skipsArp (dest : Ipv4Addr) : Bool := ipEq dest broadcast || 224 ≤ dest.first.toNat

/-- The host after ipv4_send and the frames sent, a lookup's request first. -/
def ipv4Send (h : Host) (later : MacAddr) (dest : Ipv4Addr) (proto : UInt8) (payload : List UInt8) :
    Host × List (List UInt8) :=
  if payload.length + hdrLen > bufSize then (h, [])
  else
    let buf := (sendHeader h dest proto payload.length).encode ++ payload
    let found := if skipsArp dest then ([], macBroadcast) else Arp.arpLookup h.node later dest
    ({ h with ipId := h.ipId + 1 }, found.1 ++ ethSend h.node.mac found.2 ethTypeIpv4 buf)

/-! ### The checksum of a sent header -/

/-- A checksum stored in a field of zeros at an even position verifies. -/
theorem ipv4Checksum_stored {before : List UInt8} (even : before.length % 2 = 0) (after : List UInt8) :
    ipv4Checksum (before ++ bytes16 (ipv4Checksum (before ++ bytes16 0 ++ after)) ++ after) = 0 := by
  have folded := foldCarry_stored even after 0
  rw [Nat.zero_add, Nat.zero_add] at folded
  exact complement_eq_zero_iff.mpr folded

/-- The fields before the checksum. -/
def Header.front (h : Header) : List UInt8 :=
  [h.verIhl, h.dscp] ++ bytes16 h.totalLen ++ bytes16 h.id ++ bytes16 h.flagsFrag ++ [h.ttl, h.proto]

theorem Header.even_front (h : Header) : h.front.length % 2 = 0 := by
  have length : h.front.length = 10 := rfl
  rw [length]

theorem Header.encode_checksum (h : Header) (sum : UInt16) :
    { h with checksum := sum }.encode = h.front ++ bytes16 sum ++ (h.src.toList ++ h.dst.toList) := by
  simp only [encode, front, List.append_assoc]

/-- A header as ipv4_send fills it in verifies. -/
theorem sendHeader_verifies (h : Host) (dest : Ipv4Addr) (proto : UInt8) (len : Nat) :
    ipv4Checksum (sendHeader h dest proto len).encode = 0 := by
  have filled : sendHeader h dest proto len = { sendHeader h dest proto len with
      checksum := ipv4Checksum { sendHeader h dest proto len with checksum := 0 }.encode } := rfl
  rw [filled, Header.encode_checksum, Header.encode_checksum]
  exact ipv4Checksum_stored (Header.even_front _) _

/-! ### Ranges handed to the handlers -/

/-- The tests of ipv4_handle: a whole header, for this host or broadcast, with a known protocol. -/
structure Accepts (myIp : Ipv4Addr) (payload : List UInt8) : Prop where
  whole : hdrLen ≤ payload.length
  addressed : (Header.decode payload).dst = myIp ∨ (Header.decode payload).dst = broadcast
  known : (Header.decode payload).proto = protoIcmp ∨ (Header.decode payload).proto = protoUdp ∨
    (Header.decode payload).proto = protoTcp

/-- The lengths that the header gives fit each other and the payload. -/
structure Consistent (payload : List UInt8) : Prop where
  least : hdrLen ≤ (Header.decode payload).ihl
  covered : (Header.decode payload).ihl ≤ (Header.decode payload).totalLen.toNat
  fits : (Header.decode payload).totalLen.toNat ≤ payload.length

/-- The range of a datagram lies in the payload, behind the part every header has. -/
def Inside (d : Datagram) (payload : List UInt8) : Prop :=
  hdrLen ≤ d.start ∧ d.start + d.len.toNat ≤ payload.length

theorem ihl_lt (h : Header) : h.ihl < 64 := by
  have : (h.verIhl &&& 0x0F).toNat ≤ 15 := by
    rw [UInt8.toNat_and]
    exact Nat.and_le_right
  unfold Header.ihl
  omega

/-- All that ipv4_handle can do. -/
theorem ipv4Handle_some_iff {myIp : Ipv4Addr} {payload : List UInt8} {d : Datagram} :
    ipv4Handle myIp payload = some d ↔ Accepts myIp payload ∧
      d = ⟨(Header.decode payload).proto, (Header.decode payload).src, (Header.decode payload).ihl,
        (Header.decode payload).totalLen - UInt16.ofNat (Header.decode payload).ihl⟩ := by
  unfold ipv4Handle
  dsimp only
  split
  · rename_i short
    refine ⟨fun handed => (by cases handed), fun ⟨accepts, _⟩ => ?_⟩
    have := accepts.whole
    omega
  · rename_i long
    split
    · rename_i foreign
      refine ⟨fun handed => (by cases handed), fun ⟨accepts, _⟩ => ?_⟩
      rw [Bool.and_eq_true, Bool.not_eq_true', Bool.not_eq_true'] at foreign
      rcases accepts.addressed with same | same
      · rw [ipEq_iff.mpr same] at foreign
        exact absurd foreign.1 (by decide)
      · rw [ipEq_iff.mpr same] at foreign
        exact absurd foreign.2 (by decide)
    · rename_i mine
      have addressed : (Header.decode payload).dst = myIp ∨ (Header.decode payload).dst = broadcast := by
        rw [← ipEq_iff, ← ipEq_iff]
        simpa [imp_iff_not_or] using mine
      split
      · rename_i known
        rw [Option.some.injEq]
        exact ⟨fun same => ⟨⟨Nat.le_of_not_lt long, addressed, known⟩, same.symm⟩, fun both => both.2.symm⟩
      · rename_i unknown
        exact ⟨fun handed => (by cases handed), fun ⟨accepts, _⟩ => absurd accepts.known unknown⟩

/-- `total_len - ihl` in 16 bits stays inside a payload shorter than 2^16 only without a borrow. -/
theorem range_inside_iff {total : UInt16} {ihl room : Nat} (small : ihl < 64) (short : room < 2 ^ 16) :
    ihl + (total - UInt16.ofNat ihl).toNat ≤ room ↔ ihl ≤ total.toNat ∧ total.toNat ≤ room := by
  have bound := total.toNat_lt
  have back : (UInt16.ofNat ihl).toNat = ihl := by
    rw [UInt16.toNat_ofNat']
    omega
  rw [UInt16.toNat_sub, back]
  omega

theorem netstackRx_ipv4_length {frame payload : List UInt8} (passed : netstackRx frame = .ipv4 payload) :
    payload.length ≤ frame.length := by
  unfold netstackRx at passed
  dsimp only at passed
  split at passed
  · cases passed
  · split at passed
    · cases passed
    · split at passed
      · cases passed
        rw [List.length_drop]
        omega
      · cases passed

/-- The ranges that netstack_rx leads to lie in the frame exactly when the header of every
packet that passes the tests has lengths that fit. -/
theorem ranges_inside_iff (myIp : Ipv4Addr) (frame : List UInt8) (short : frame.length < 2 ^ 16) :
    (∀ payload d, netstackRx frame = .ipv4 payload → ipv4Handle myIp payload = some d → Inside d payload) ↔
      ∀ payload, netstackRx frame = .ipv4 payload → Accepts myIp payload → Consistent payload := by
  constructor
  · intro inside payload passed accepts
    obtain ⟨least, range⟩ := inside payload _ passed (ipv4Handle_some_iff.mpr ⟨accepts, rfl⟩)
    have room := Nat.lt_of_le_of_lt (netstackRx_ipv4_length passed) short
    obtain ⟨covered, fits⟩ := (range_inside_iff (ihl_lt _) room).mp range
    exact ⟨least, covered, fits⟩
  · intro consistent payload d passed handed
    obtain ⟨accepts, rfl⟩ := ipv4Handle_some_iff.mp handed
    obtain ⟨least, covered, fits⟩ := consistent payload passed accepts
    have room := Nat.lt_of_le_of_lt (netstackRx_ipv4_length passed) short
    exact ⟨least, (range_inside_iff (ihl_lt _) room).mpr ⟨covered, fits⟩⟩

/-- An IPv4 frame of a header only: broadcast, ICMP, with these two length fields. -/
def bareFrame (verIhl : UInt8) (totalLen : UInt16) : List UInt8 :=
  macBroadcast.toList ++ macBroadcast.toList ++ bytes16 ethTypeIpv4 ++
    Header.encode ⟨verIhl, 0, totalLen, 0, 0, 64, protoIcmp, 0, ⟨fun _ => 10⟩, broadcast⟩

theorem ranges_inside_iff_bare :
    (∀ payload d, netstackRx (bareFrame 0x45 20) = .ipv4 payload → ipv4Handle broadcast payload = some d →
        Inside d payload) ↔
      ∀ payload, netstackRx (bareFrame 0x45 20) = .ipv4 payload → Accepts broadcast payload → Consistent payload :=
  ranges_inside_iff broadcast (bareFrame 0x45 20) (by decide)

/-- A frame of 34 bytes whose header claims 65535: the ICMP handler is told of 65515 bytes behind it. -/
theorem bare_frame_overrun : ¬ ∀ payload d, netstackRx (bareFrame 0x45 0xFFFF) = .ipv4 payload →
    ipv4Handle broadcast payload = some d → Inside d payload := by
  intro inside
  have accepts : Accepts broadcast ((bareFrame 0x45 0xFFFF).drop ethHeaderLen) :=
    ⟨by decide, .inr (ipEq_iff.mp (by decide)), .inl (by decide)⟩
  have := (inside _ _ (by decide) (ipv4Handle_some_iff.mpr ⟨accepts, rfl⟩)).2
  exact absurd this (by decide)

end ChrisOS.Net.Ipv4
