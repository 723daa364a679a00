import ChrisOS.Net.Emission

/-! Echo requests as they arrive in a frame, and the packets that icmp_handle sends for them. -/

set_option autoImplicit false

namespace ChrisOS.Net.Icmp
open ChrisOS.Net.Checksum ChrisOS.Net.Ipv4
open ChrisOS.Net.Udp (memory window window_take window_memory memory_append netstackRx_ipv4)
open ChrisOS.Net.Emission (packets packets_ipv4Send body packet_body)

theorem Header.length_encode (h : Header) : h.encode.length = hdrLen := rfl

theorem Header.length_message (h : Header) (data : List UInt8) : (h.message data).length = hdrLen + data.length := by
  rw [message, List.length_append, length_encode]

theorem Header.read_encode (h : Header) (first data : List UInt8) (behind : Nat → UInt8) :
    read (memory (first ++ (h.encode ++ data)) behind) first.length = h := by
  have shift (i : Nat) := memory_append first (h.encode ++ data) behind i
  have start := shift 0
  rw [Nat.add_zero] at start
  cases h with
  | mk type code checksum id seq =>
    simp only [read, Header.mk.injEq, start, shift]
    exact ⟨rfl, rfl, be16_bytes16 checksum, be16_bytes16 id, be16_bytes16 seq⟩

/-- What icmp_handle sends. -/
def echoes (h : Host) (later : MacAddr) (src : Ipv4Addr) (m : Nat → UInt8) (payload : Nat) (len : UInt16) :
    List (List UInt8) :=
  match icmpHandle src m payload len with
  | .reply dest message => (ipv4Send h later dest protoIcmp message).2
  | .answered .. | .ignored => []

/-- What icmp_handle sends for a frame, with these bytes behind it in memory. -/
def answers (h : Host) (later : MacAddr) (behind : Nat → UInt8) (frame : List UInt8) : List (List UInt8) :=
  match netstackRx frame with
  | .ipv4 payload =>
    match ipv4Handle h.node.ip payload with
    | none => []
    | some d => if d.proto = protoIcmp then echoes h later d.src (memory payload behind) d.start d.len else []
  | .arp _ | .ignored => []

/-- A packet with an echo reply for a request, as the requester reads it. -/
structure IsReply (requester : Ipv4Addr) (request : Header) (data packet : List UInt8) : Prop where
  addressed : (Ipv4.Header.decode packet).dst = requester
  icmp : (Ipv4.Header.decode packet).proto = protoIcmp
  type : (Header.read (byteAt (body packet)) 0).type = echoReply
  id : (Header.read (byteAt (body packet)) 0).id = request.id
  seq : (Header.read (byteAt (body packet)) 0).seq = request.seq
  data : (body packet).drop hdrLen = data
  verifies : ipv4Checksum (body packet) = 0

/-- The packet around a message that icmp_handle builds. -/
theorem isReply_message (h : Host) (requester : Ipv4Addr) (request : Header) {data : List UInt8}
    (short : data.length ≤ dataLen) {message : List UInt8}
    (built : message = Header.message ⟨echoReply, 0, 0, request.id, request.seq⟩ data) :
    IsReply requester request data ((sendHeader h requester protoIcmp message.length).encode ++ message) := by
  have sizes : hdrLen + dataLen + Ipv4.hdrLen ≤ bufSize := by decide
  have fits : message.length + Ipv4.hdrLen ≤ bufSize := by
    rw [built, Header.length_message]
    omega
  have header := Ipv4.Header.decode_encode (sendHeader h requester protoIcmp message.length) message
  have whole := packet_body h requester protoIcmp [] fits
  rw [List.append_nil] at whole
  obtain ⟨sum, encoded⟩ : ∃ sum, message = Header.encode ⟨echoReply, 0, sum, request.id, request.seq⟩ ++ data :=
    ⟨_, built⟩
  have fields : Header.read (byteAt message) 0 = ⟨echoReply, 0, sum, request.id, request.seq⟩ := by
    rw [encoded]
    exact Header.read_encode _ [] data fun _ => 0
  constructor
  · rw [header]
    rfl
  · rw [header]
    rfl
  · rw [whole, fields]
  · rw [whole, fields]
  · rw [whole, fields]
  · rw [whole, encoded, List.drop_left' (Header.length_encode _)]
  · rw [whole, built]
    exact Header.message_verifies _ _

/-- A request is answered with one packet: a reply with at most 32 bytes of its data. -/
theorem echoes_reply (h : Host) (later : MacAddr) (src : Ipv4Addr) {m : Nat → UInt8} {payload : Nat} {len : UInt16}
    (whole : hdrLen ≤ len.toNat) (request : m payload = echoRequest) :
    ∃ packet, packets (echoes h later src m payload len) = [packet] ∧
      IsReply src (Header.read m payload) ((window m (payload + hdrLen) (len.toNat - hdrLen)).take dataLen) packet := by
  have sizes : hdrLen + dataLen + Ipv4.hdrLen ≤ bufSize := by decide
  have type : (Header.read m payload).type = echoRequest := request
  have size : (if len.toNat - hdrLen > dataLen then dataLen else len.toNat - hdrLen) = min dataLen (len.toNat - hdrLen) := by
    split
    · omega
    · omega
  have short : ((window m (payload + hdrLen) (len.toNat - hdrLen)).take dataLen).length ≤ dataLen := List.length_take_le _ _
  rw [echoes, icmpHandle, if_neg (Nat.not_lt_of_le whole)]
  dsimp only
  rw [if_pos type, size, ← window_take]
  refine ⟨_, packets_ipv4Send h later src protoIcmp ?_, isReply_message h src _ short rfl⟩
  rw [Header.length_message]
  omega

/-! ### Requests in frames -/

/-- An echo request as a frame brings it to a host. -/
structure Request (myIp : Ipv4Addr) where
  dest : MacAddr
  mac : MacAddr
  ip : Ipv4.Header
  options : List UInt8
  hdr : Header
  data : List UInt8
  padding : List UInt8
  addressed : ip.dst = myIp
  icmp : ip.proto = protoIcmp
  ihl : ip.ihl = Ipv4.hdrLen + options.length
  total : ip.totalLen.toNat = ip.ihl + (hdrLen + data.length)
  echo : hdr.type = echoRequest

namespace Request

def packet {myIp : Ipv4Addr} (r : Request myIp) : List UInt8 :=
  r.ip.encode ++ r.options ++ (r.hdr.encode ++ (r.data ++ r.padding))

def frame {myIp : Ipv4Addr} (r : Request myIp) : List UInt8 :=
  r.dest.toList ++ r.mac.toList ++ bytes16 ethTypeIpv4 ++ r.packet

/-- What ipv4_handle passes to icmp_handle as its length. -/
def icmpLen {myIp : Ipv4Addr} (r : Request myIp) : UInt16 := r.ip.totalLen - UInt16.ofNat r.ip.ihl

section
variable {myIp : Ipv4Addr} (r : Request myIp)

theorem icmpLen_toNat : r.icmpLen.toNat = hdrLen + r.data.length := by
  have small := ihl_lt r.ip
  have total := r.total
  have back : (UInt16.ofNat r.ip.ihl).toNat = r.ip.ihl := UInt16.toNat_ofNat_of_lt' (Nat.lt_trans small (by decide))
  have covered : UInt16.ofNat r.ip.ihl ≤ r.ip.totalLen := by
    rw [UInt16.le_iff_toNat_le, back]
    omega
  rw [icmpLen, UInt16.toNat_sub_of_le _ _ covered, back]
  omega

theorem length_front : (r.ip.encode ++ r.options).length = r.ip.ihl := by
  rw [List.length_append, Ipv4.Header.length_encode, r.ihl]

theorem ipv4Handle_packet : ipv4Handle myIp r.packet = some ⟨protoIcmp, r.ip.src, r.ip.ihl, r.icmpLen⟩ := by
  have header : Ipv4.Header.decode r.packet = r.ip := by
    rw [packet, List.append_assoc, Ipv4.Header.decode_encode]
  refine ipv4Handle_some_iff.mpr ⟨⟨?_, ?_, ?_⟩, ?_⟩
  · rw [packet, List.length_append, length_front, r.ihl]
    omega
  · rw [header]
    exact .inl r.addressed
  · rw [header]
    exact .inl r.icmp
  · rw [header, r.icmp]
    rfl

theorem read_memory (behind : Nat → UInt8) : Header.read (memory r.packet behind) r.ip.ihl = r.hdr := by
  rw [packet, ← length_front]
  exact Header.read_encode r.hdr _ _ behind

theorem window_data (behind : Nat → UInt8) :
    window (memory r.packet behind) (r.ip.ihl + hdrLen) (r.icmpLen.toNat - hdrLen) = r.data := by
  have front : (r.ip.encode ++ r.options ++ r.hdr.encode).length = r.ip.ihl + hdrLen := by
    rw [List.length_append, length_front, Header.length_encode]
  have split : r.packet = r.ip.encode ++ r.options ++ r.hdr.encode ++ (r.data ++ r.padding) := by
    rw [packet, List.append_assoc _ r.hdr.encode]
  have rest := window_memory (r.ip.encode ++ r.options ++ r.hdr.encode) (r.data ++ r.padding) behind
  have least : min r.data.length (r.data ++ r.padding).length = r.data.length := by
    rw [List.length_append]
    omega
  rw [icmpLen_toNat, Nat.add_sub_cancel_left, split, ← front, ← least, ← window_take, rest, List.take_left]

end
end Request

/-- A request in a frame is answered with one packet: a reply with at most 32 bytes of its data. -/
theorem answers_reply (h : Host) (r : Request h.node.ip) (later : MacAddr) (behind : Nat → UInt8) :
    ∃ packet, packets (answers h later behind r.frame) = [packet] ∧
      IsReply r.ip.src r.hdr (r.data.take dataLen) packet := by
  have type : memory r.packet behind r.ip.ihl = echoRequest := by
    rw [← r.echo, ← r.read_memory behind]
    rfl
  have whole : hdrLen ≤ r.icmpLen.toNat := by
    rw [r.icmpLen_toNat]
    exact Nat.le_add_right _ _
  have sent := echoes_reply h later r.ip.src whole type
  rw [r.window_data behind, r.read_memory behind] at sent
  rw [answers, Request.frame, netstackRx_ipv4]
  dsimp only
  rw [r.ipv4Handle_packet]
  exact sent

/-- Every request is answered with one reply, with its identifier, sequence number and the first 32 bytes of
its data; these are all of its data exactly when they are no more than that. -/
theorem echo_reply_iff (h : Host) (r : Request h.node.ip) (later : MacAddr) (behind : Nat → UInt8) :
    ∃ packet, packets (answers h later behind r.frame) = [packet] ∧
      IsReply r.ip.src r.hdr (r.data.take dataLen) packet ∧
      (IsReply r.ip.src r.hdr r.data packet ↔ r.data.length ≤ dataLen) := by
  obtain ⟨packet, sent, reply⟩ := answers_reply h r later behind
  refine ⟨packet, sent, reply, fun same => ?_, fun short => ?_⟩
  · rw [← List.take_eq_self_iff, ← reply.data, same.data]
  · rw [List.take_of_length_le short] at reply
    exact reply

/-- A request with 33 bytes of data. -/
def longPing : Request Udp.freshHost.node.ip where
  dest := macBroadcast
  mac := macBroadcast
  ip := ⟨0x45, 0, 61, 0, 0, 64, protoIcmp, 0, ⟨fun _ => 9⟩, Udp.freshHost.node.ip⟩
  options := []
  hdr := ⟨echoRequest, 0, 0, 1, 1⟩
  data := List.replicate 33 7
  padding := []
  addressed := rfl
  icmp := rfl
  ihl := by decide
  total := by decide
  echo := rfl

/-- Its reply has 32. -/
theorem echo_reply_cut : ¬ ∀ (h : Host) (r : Request h.node.ip) (later : MacAddr) (behind : Nat → UInt8),
    r.frame.length ≤ 1514 →
    ∃ packet, packets (answers h later behind r.frame) = [packet] ∧ IsReply r.ip.src r.hdr r.data packet := by
  intro whole
  obtain ⟨packet, sent, same⟩ := whole Udp.freshHost longPing macBroadcast (fun _ => 0) (by decide)
  obtain ⟨other, again, reply⟩ := answers_reply Udp.freshHost longPing macBroadcast fun _ => 0
  obtain rfl : packet = other := List.singleton_inj.mp (sent.symm.trans again)
  have cut : longPing.data = longPing.data.take dataLen := same.data.symm.trans reply.data
  exact absurd cut (by decide)

end ChrisOS.Net.Icmp
