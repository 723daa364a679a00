import ChrisOS.Net.Icmp

/-! The packets that this stack sends, and the checksums in them as a receiver verifies them. -/

set_option autoImplicit false

namespace ChrisOS.Net.Emission
open ChrisOS.Net.Checksum ChrisOS.Net.Ipv4

/-- The ones' complement sum of a byte string. -/
def onesSum (data : List UInt8) : Nat := Tcp.foldCarry (Tcp.sumWords data)

def pseudoHeader (src dst : Ipv4Addr) (len : Nat) : List UInt8 :=
  src.toList ++ dst.toList ++ [0, protoTcp] ++ bytes16 (UInt16.ofNat len)

theorem ipv4Checksum_eq_zero_iff {data : List UInt8} : ipv4Checksum data = 0 ↔ onesSum data = 0xFFFF :=
  complement_eq_zero_iff

/-! ### Any byte string -/

/-- A value stored big-endian at a position. -/
def store16 (data : List UInt8) (p : Nat) (v : UInt16) : List UInt8 := data.take p ++ bytes16 v ++ data.drop (p + 2)

theorem store16_zero {data : List UInt8} {p : Nat} (inside : p + 2 ≤ data.length) (first : byteAt data p = 0)
    (second : byteAt data (p + 1) = 0) : store16 data p 0 = data := by
  have low : data[p] = 0 := by
    rw [← first, byteAt, List.getD_eq_getElem]
  have high : data[p + 1] = 0 := by
    rw [← second, byteAt, List.getD_eq_getElem]
  have field : bytes16 0 ++ data.drop (p + 2) = data.drop p := by
    rw [List.drop_eq_getElem_cons (by omega : p < data.length), low,
      List.drop_eq_getElem_cons (by omega : p + 1 < data.length), high]
    rfl
  rw [store16, List.append_assoc, field, List.take_append_drop]

theorem store16_verifies {data : List UInt8} {p : Nat} (even : p % 2 = 0) (inside : p + 2 ≤ data.length)
    (first : byteAt data p = 0) (second : byteAt data (p + 1) = 0) :
    ipv4Checksum (store16 data p (ipv4Checksum data)) = 0 := by
  have front : (data.take p).length % 2 = 0 := by
    rw [List.length_take, Nat.min_eq_left (by omega), even]
  nth_rewrite 2 [← store16_zero inside first second]
  exact ipv4Checksum_stored front _

/-! ### The accumulators -/

/-- The pseudo header as tcp_checksum adds it up: two words of each address, the protocol, the length. -/
def pseudoSum (src dst : Ipv4Addr) (len : UInt16) : UInt32 :=
  sumLoop (sumLoop 0 src.toList) dst.toList + UInt32.ofNat Tcp.ipProtoTcp + len.toUInt32

/-- The same in natural numbers. -/
def pseudoWords (src dst : Ipv4Addr) (len : Nat) : Nat :=
  Tcp.sumWords src.toList + Tcp.sumWords dst.toList + Tcp.ipProtoTcp + len

theorem sumWords_addr_le (a : Ipv4Addr) : Tcp.sumWords a.toList ≤ 2 * 65535 := by
  have words := sumWords_le a.toList
  have length : a.toList.length = 4 := rfl
  rw [length] at words
  omega

section
variable (src dst : Ipv4Addr)

theorem pseudoSum_toNat (len : UInt16) : (pseudoSum src dst len).toNat = pseudoWords src dst len.toNat := by
  have first := sumWords_addr_le src
  have second := sumWords_addr_le dst
  have bound := len.toNat_lt
  have proto : (UInt32.ofNat Tcp.ipProtoTcp).toNat = Tcp.ipProtoTcp := rfl
  have small : Tcp.ipProtoTcp = 6 := rfl
  have zero : (0 : UInt32).toNat = 0 := rfl
  have source : (sumLoop 0 src.toList).toNat = Tcp.sumWords src.toList := by
    rw [sumLoop_toNat, zero, Nat.zero_add]
    omega
  have both : (sumLoop (sumLoop 0 src.toList) dst.toList).toNat = Tcp.sumWords src.toList + Tcp.sumWords dst.toList := by
    rw [sumLoop_toNat, source]
    omega
  rw [pseudoSum, UInt32.toNat_add, UInt32.toNat_add, both, proto, UInt16.toNat_toUInt32, pseudoWords]
  omega

variable {data : List UInt8} (short : data.length ≤ 65535)
include short

/-- What both loops add up stays below 2^32, also at the end of tcp_checksum. -/
theorem accumulator_fits (n : Nat) : pseudoWords src dst data.length + Tcp.sumWords (data.take n) < 2 ^ 32 := by
  have first := sumWords_addr_le src
  have second := sumWords_addr_le dst
  have words := sumWords_le (data.take n)
  have small : Tcp.ipProtoTcp = 6 := rfl
  rw [List.length_take] at words
  rw [pseudoWords, small]
  omega

/-- The accumulator of tcp_checksum after any number of bytes. -/
theorem tcp_accumulates (n : Nat) : (sumLoop (pseudoSum src dst (UInt16.ofNat data.length)) (data.take n)).toNat =
    pseudoWords src dst data.length + Tcp.sumWords (data.take n) := by
  have length : (UInt16.ofNat data.length).toNat = data.length :=
    UInt16.toNat_ofNat_of_lt' (Nat.lt_of_le_of_lt short (by decide))
  have start := pseudoSum_toNat src dst (UInt16.ofNat data.length)
  rw [length] at start
  rw [sumLoop_toNat _ _ (by rw [start]; exact accumulator_fits src dst short n), start]

theorem tcpChecksum_loop :
    (~~~ foldLoop (sumLoop (pseudoSum src dst (UInt16.ofNat data.length)) data)).toUInt16 = Tcp.tcpChecksum src dst data := by
  have whole := tcp_accumulates src dst short data.length
  rw [List.take_length] at whole
  rw [complement_toUInt16, whole]
  rfl

omit src dst

/-- The accumulator of ipv4_checksum after any number of bytes. -/
theorem ipv4_accumulates (n : Nat) : (sumLoop 0 (data.take n)).toNat = Tcp.sumWords (data.take n) := by
  have fits := accumulator_fits ⟨fun _ => 0⟩ ⟨fun _ => 0⟩ short n
  rw [sumLoop_toNat]
  · exact Nat.zero_add _
  · exact Nat.lt_of_le_of_lt (Nat.add_le_add_right (Nat.zero_le _) _) fits

theorem ipv4Checksum_loop : (~~~ foldLoop (sumLoop 0 data)).toUInt16 = ipv4Checksum data := by
  have whole := ipv4_accumulates short data.length
  rw [List.take_length] at whole
  rw [complement_toUInt16, whole]
  rfl

end

/-! ### Segments -/

theorem sumWords_pseudoHeader (src dst : Ipv4Addr) {len : Nat} (short : len < 2 ^ 16) (seg : List UInt8) :
    Tcp.sumWords (pseudoHeader src dst len ++ seg) = pseudoWords src dst len + Tcp.sumWords seg := by
  have length : (UInt16.ofNat len).toNat = len := UInt16.toNat_ofNat_of_lt' short
  have even (a : Ipv4Addr) : a.toList.length % 2 = 0 := by
    have four : a.toList.length = 4 := rfl
    rw [four]
  have proto : Tcp.sumWords ([0, protoTcp] ++ (bytes16 (UInt16.ofNat len) ++ seg)) = Tcp.ipProtoTcp + (len + Tcp.sumWords seg) := by
    rw [List.cons_append, List.cons_append, List.nil_append, Tcp.sumWords, sumWords_bytes16, length]
    rfl
  rw [pseudoHeader, List.append_assoc, List.append_assoc, List.append_assoc, sumWords_append (even src),
    sumWords_append (even dst), proto, pseudoWords]
  omega

/-- The fields before the checksum. -/
def tcpFront (h : Tcp.Header) : List UInt8 :=
  bytes16 h.srcPort ++ bytes16 h.dstPort ++ bytes32 h.seq ++ bytes32 h.ack ++ [h.dataOff, h.flags] ++ bytes16 h.window

theorem even_tcpFront (h : Tcp.Header) : (tcpFront h).length % 2 = 0 := by
  have length : (tcpFront h).length = 16 := rfl
  rw [length]

theorem tcp_encode_checksum (h : Tcp.Header) (sum : UInt16) (data : List UInt8) :
    { h with checksum := sum }.encode ++ data = tcpFront h ++ bytes16 sum ++ (bytes16 h.urgent ++ data) := by
  simp only [Tcp.Header.encode, tcpFront, List.append_assoc]

/-- A segment with the checksum that tcp_checksum computes for it. -/
theorem segment_verifies (src dst : Ipv4Addr) (h : Tcp.Header) {data : List UInt8}
    (short : Tcp.hdrLen + data.length < 2 ^ 16) {seg : List UInt8}
    (filled : seg = { h with checksum := Tcp.tcpChecksum src dst ({ h with checksum := 0 }.encode ++ data) }.encode ++ data) :
    onesSum (pseudoHeader src dst seg.length ++ seg) = 0xFFFF := by
  have length (sum : UInt16) : ({ h with checksum := sum }.encode ++ data).length = Tcp.hdrLen + data.length := by
    rw [List.length_append, Tcp.Header.length_encode]
  have size : seg.length = Tcp.hdrLen + data.length := by
    rw [filled, length]
  have checksum : Tcp.tcpChecksum src dst ({ h with checksum := 0 }.encode ++ data) =
      complement (pseudoWords src dst seg.length + Tcp.sumWords ({ h with checksum := 0 }.encode ++ data)) := by
    rw [size, ← length 0]
    rfl
  rw [onesSum, sumWords_pseudoHeader src dst (size ▸ short)]
  nth_rewrite 2 [filled]
  rw [checksum, tcp_encode_checksum, tcp_encode_checksum]
  exact foldCarry_stored (even_tcpFront h) _ _

theorem tcpSendFlags_verifies (myIp : Ipv4Addr) (s : Tcp.Socket) (flags : UInt8) (data : List UInt8) :
    onesSum (pseudoHeader myIp (Tcp.tcpSendFlags myIp s flags data).dest (Tcp.tcpSendFlags myIp s flags data).bytes.length ++
      (Tcp.tcpSendFlags myIp s flags data).bytes) = 0xFFFF := by
  have short : Tcp.hdrLen + (data.take Tcp.maxPayload).length < 2 ^ 16 := by
    have most := List.length_take_le Tcp.maxPayload data
    have payload : Tcp.maxPayload = 1440 := rfl
    have header : Tcp.hdrLen = 20 := rfl
    omega
  exact segment_verifies myIp s.remoteIp _ short rfl

/-! ### Packets -/

/-- What the stack hands to ipv4_send: the next packet's destination, protocol and payload. -/
inductive Emits (h : Host) : Ipv4Addr → UInt8 → List UInt8 → Prop where
  | reply {src dest : Ipv4Addr} {m : Nat → UInt8} {payload : Nat} {len : UInt16} {message : List UInt8} :
      Icmp.icmpHandle src m payload len = .reply dest message → Emits h dest protoIcmp message
  | ping (dest : Ipv4Addr) (pingSeq : UInt16) : Emits h dest protoIcmp (Icmp.icmpPing pingSeq).2
  | segment (s : Tcp.Socket) (flags : UInt8) (data : List UInt8) :
      Emits h (Tcp.tcpSendFlags h.node.ip s flags data).dest protoTcp (Tcp.tcpSendFlags h.node.ip s flags data).bytes
  | datagram (dest : Ipv4Addr) (hdr : Udp.Header) (data : List UInt8) : Emits h dest protoUdp (hdr.encode ++ data)

/-- The part of a packet behind its header, without the padding of short frames. -/
def body (packet : List UInt8) : List UInt8 := (packet.take (Header.decode packet).totalLen.toNat).drop hdrLen

/-- What a receiver verifies of a packet. -/
structure Verifies (packet : List UInt8) : Prop where
  header : onesSum (packet.take hdrLen) = 0xFFFF
  icmp : (Header.decode packet).proto = protoIcmp → onesSum (body packet) = 0xFFFF
  tcp : (Header.decode packet).proto = protoTcp → onesSum (pseudoHeader (Header.decode packet).src
    (Header.decode packet).dst (body packet).length ++ body packet) = 0xFFFF

theorem mem_ethSend {myMac dest : MacAddr} {type : UInt16} {payload frame : List UInt8}
    (sent : frame ∈ ethSend myMac dest type payload) :
    frame = dest.toList ++ myMac.toList ++ bytes16 type ++ payload ∧ word16At frame 12 = type := by
  unfold ethSend at sent
  split at sent
  · cases sent
  · rw [List.mem_singleton] at sent
    refine ⟨sent, ?_⟩
    rw [sent]
    exact be16_bytes16 type

/-- A lookup sends nothing but a request. -/
theorem mem_arpLookup {n : Arp.Node} {later : MacAddr} {ip : Ipv4Addr} {frame : List UInt8}
    (sent : frame ∈ (Arp.arpLookup n later ip).1) : word16At frame 12 = ethTypeArp := by
  unfold Arp.arpLookup at sent
  split at sent
  · cases sent
  · have request : frame ∈ ethSend n.mac macBroadcast ethTypeArp
        (Arp.requestPacket n.mac n.ip (Arp.resolveIp n ip)).encode := sent
    exact (mem_ethSend request).2

/-- The IPv4 frame among those that a call of ipv4_send sends. -/
theorem ipv4Send_frame {h : Host} {later : MacAddr} {dest : Ipv4Addr} {proto : UInt8} {payload frame : List UInt8}
    (sent : frame ∈ (ipv4Send h later dest proto payload).2) (type : word16At frame 12 = ethTypeIpv4) :
    payload.length + hdrLen ≤ bufSize ∧ ∃ mac, frame = Udp.frameTo mac h dest proto payload := by
  unfold ipv4Send at sent
  split at sent
  · cases sent
  · rename_i fits
    refine ⟨Nat.le_of_not_lt fits, ?_⟩
    rcases List.mem_append.mp sent with request | packet
    · split at request
      · cases request
      · rw [mem_arpLookup request] at type
        exact absurd type (by decide)
    · exact ⟨_, (mem_ethSend packet).1⟩

/-- The packets among the frames sent. -/
def packets (frames : List (List UInt8)) : List (List UInt8) :=
  (frames.filter fun frame => word16At frame 12 = ethTypeIpv4).map fun frame => frame.drop ethHeaderLen

/-- A payload that fits is sent in one packet. -/
theorem packets_ipv4Send (h : Host) (later : MacAddr) (dest : Ipv4Addr) (proto : UInt8) {payload : List UInt8}
    (fits : payload.length + hdrLen ≤ bufSize) :
    packets (ipv4Send h later dest proto payload).2 = [(sendHeader h dest proto payload.length).encode ++ payload] := by
  have sent := Udp.ipv4Send_fits h later dest proto fits
  have request : ((if skipsArp dest then ([], macBroadcast) else Arp.arpLookup h.node later dest).1).filter
      (fun frame => word16At frame 12 = ethTypeIpv4) = [] := by
    rw [List.filter_eq_nil_iff]
    intro frame looked
    split at looked
    · cases looked
    · rw [mem_arpLookup looked]
      decide
  have type (mac : MacAddr) : word16At (Udp.frameTo mac h dest proto payload) 12 = ethTypeIpv4 := be16_bytes16 ethTypeIpv4
  rw [packets, sent, List.filter_append, request, List.nil_append, List.filter_singleton, type]
  rfl

section
variable (h : Host) (dest : Ipv4Addr) (proto : UInt8) {payload : List UInt8} (padding : List UInt8)

theorem packet_header : Header.decode ((sendHeader h dest proto payload.length).encode ++ payload ++ padding) =
    sendHeader h dest proto payload.length := by
  rw [List.append_assoc, Header.decode_encode]

/-- The receiver finds the payload behind the header. -/
theorem packet_body (fits : payload.length + hdrLen ≤ bufSize) :
    body ((sendHeader h dest proto payload.length).encode ++ payload ++ padding) = payload := by
  have small : hdrLen + payload.length < 2 ^ 16 := by
    have size : bufSize = 1500 := rfl
    omega
  have total : (sendHeader h dest proto payload.length).totalLen.toNat = hdrLen + payload.length :=
    UInt16.toNat_ofNat_of_lt' small
  have length : ((sendHeader h dest proto payload.length).encode ++ payload).length = hdrLen + payload.length := by
    rw [List.length_append, Header.length_encode]
  rw [body, packet_header, total, List.take_left' length, List.drop_left' (Header.length_encode _)]

end

/-- A packet that the stack sends verifies, with or without padding behind it. -/
theorem packet_verifies {h : Host} {dest : Ipv4Addr} {proto : UInt8} {payload : List UInt8}
    (emitted : Emits h dest proto payload) (fits : payload.length + hdrLen ≤ bufSize) (padding : List UInt8) :
    Verifies ((sendHeader h dest proto payload.length).encode ++ payload ++ padding) := by
  have field : (sendHeader h dest proto payload.length).proto = proto := rfl
  refine ⟨?_, ?_, ?_⟩
  · rw [List.append_assoc, List.take_left' (Header.length_encode _), ← ipv4Checksum_eq_zero_iff]
    exact sendHeader_verifies h dest proto _
  · rw [packet_header, packet_body h dest proto padding fits, field]
    intro type
    cases emitted with
    | reply sent => exact ipv4Checksum_eq_zero_iff.mp (Icmp.icmpHandle_verifies sent).2
    | ping dest pingSeq => exact ipv4Checksum_eq_zero_iff.mp (Icmp.Header.message_verifies _ _)
    | segment s flags data => exact absurd type (by decide)
    | datagram dest hdr data => exact absurd type (by decide)
  · rw [packet_header, packet_body h dest proto padding fits, field]
    intro type
    cases emitted with
    | reply sent => exact absurd type (by decide)
    | ping dest pingSeq => exact absurd type (by decide)
    | segment s flags data => exact tcpSendFlags_verifies h.node.ip s flags data
    | datagram dest hdr data => exact absurd type (by decide)

theorem frame_verifies {h : Host} {later : MacAddr} {dest : Ipv4Addr} {proto : UInt8} {payload frame : List UInt8}
    (emitted : Emits h dest proto payload) (sent : frame ∈ (ipv4Send h later dest proto payload).2)
    (type : word16At frame 12 = ethTypeIpv4) (padding : List UInt8) : Verifies (frame.drop ethHeaderLen ++ padding) := by
  obtain ⟨fits, mac, rfl⟩ := ipv4Send_frame sent type
  have header : (mac.toList ++ h.node.mac.toList ++ bytes16 ethTypeIpv4).length = ethHeaderLen := rfl
  rw [Udp.frameTo, List.drop_left' header]
  exact packet_verifies emitted fits padding

/-- Stored checksums verify, the sums are those of 32-bit accumulators that do not overflow, and so
everything that the stack sends verifies at its receiver. -/
theorem checksums_verify :
    (∀ data p, p % 2 = 0 → p + 2 ≤ data.length → byteAt data p = 0 → byteAt data (p + 1) = 0 →
      ipv4Checksum (store16 data p (ipv4Checksum data)) = 0) ∧
    (∀ myIp s flags data, onesSum (pseudoHeader myIp (Tcp.tcpSendFlags myIp s flags data).dest
      (Tcp.tcpSendFlags myIp s flags data).bytes.length ++ (Tcp.tcpSendFlags myIp s flags data).bytes) = 0xFFFF) ∧
    (∀ data, data.length ≤ 65535 → (~~~ foldLoop (sumLoop 0 data)).toUInt16 = ipv4Checksum data ∧
      ∀ n, (sumLoop 0 (data.take n)).toNat = Tcp.sumWords (data.take n)) ∧
    (∀ src dst seg, seg.length ≤ 65535 → (~~~ foldLoop (sumLoop (pseudoSum src dst (UInt16.ofNat seg.length)) seg)).toUInt16 =
        Tcp.tcpChecksum src dst seg ∧
      ∀ n, (sumLoop (pseudoSum src dst (UInt16.ofNat seg.length)) (seg.take n)).toNat =
        pseudoWords src dst seg.length + Tcp.sumWords (seg.take n)) ∧
    (∀ sum, (foldStep sum).toNat = sum.toNat % 2 ^ 16 + sum.toNat / 2 ^ 16) ∧
    (∀ h later dest proto payload, Emits h dest proto payload → ∀ frame ∈ (ipv4Send h later dest proto payload).2,
      word16At frame 12 = ethTypeIpv4 → ∀ padding, Verifies (frame.drop ethHeaderLen ++ padding)) := by
  refine ⟨?_, tcpSendFlags_verifies, ?_, ?_, foldStep_toNat, ?_⟩
  · intro data p even inside first second
    exact store16_verifies even inside first second
  · intro data short
    exact ⟨ipv4Checksum_loop short, ipv4_accumulates short⟩
  · intro src dst seg short
    exact ⟨tcpChecksum_loop src dst short, tcp_accumulates src dst short⟩
  · intro h later dest proto payload emitted frame sent type padding
    exact frame_verifies emitted sent type padding

end ChrisOS.Net.Emission
