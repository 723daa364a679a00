import ChrisOS.Net.Ipv4

/-! The UDP code of net/udp.c, and what a frame makes the handlers above Ethernet do.

A callback is known by its address; what it is called with is recorded, and it is not
followed further. Callbacks read memory through a pointer, so they may read past the frame.
-/

set_option autoImplicit false

namespace ChrisOS.Net.Udp
open ChrisOS.Net.Ipv4

/-- MAX_UDP_SOCKETS. -/
def maxSockets : Nat := 8

/-- sizeof(udp_hdr_t). -/
def hdrLen : Nat := 8

/-- The size of the buffer in udp_send. -/
def bufSize : Nat := 1472

structure Header where
  srcPort : UInt16
  dstPort : UInt16
  length : UInt16
  checksum : UInt16
  deriving DecidableEq

def Header.encode (h : Header) : List UInt8 :=
  bytes16 h.srcPort ++ bytes16 h.dstPort ++ bytes16 h.length ++ bytes16 h.checksum

structure Socket where
  port : UInt16
  cb : Nat
  used : Bool
  deriving DecidableEq

abbrev Table := Fin maxSockets → Socket

/-! ### Memory behind pointers -/

/-- The byte at an offset from the first byte of a packet, also past its end. -/
def memory (packet : List UInt8) (behind : Nat → UInt8) (i : Nat) : UInt8 :=
  packet.getD i (behind (i - packet.length))

/-- The bytes a reader sees through a pointer and a length. -/
def window (m : Nat → UInt8) (start len : Nat) : List UInt8 := (List.range len).map fun i => m (start + i)

/-- The packed structure at a pointer. -/
def Header.read (m : Nat → UInt8) (ptr : Nat) : Header where
  srcPort := be16 (m ptr) (m (ptr + 1))
  dstPort := be16 (m (ptr + 2)) (m (ptr + 3))
  length := be16 (m (ptr + 4)) (m (ptr + 5))
  checksum := be16 (m (ptr + 6)) (m (ptr + 7))

theorem length_window (m : Nat → UInt8) (start len : Nat) : (window m start len).length = len := by
  rw [window, List.length_map, List.length_range]

theorem window_succ (m : Nat → UInt8) (start left : Nat) : window m start (left + 1) = m start :: window m (start + 1) left := by
  simp only [window, List.range_succ_eq_map, List.map_cons, List.map_map, Nat.add_zero, List.cons.injEq, true_and]
  apply List.map_congr_left
  intro i _
  exact congrArg m (by omega)

theorem window_take (m : Nat → UInt8) (start len n : Nat) : (window m start len).take n = window m start (min n len) := by
  rw [window, window, ← List.map_take, List.take_range]

theorem window_drop (m : Nat → UInt8) (start len n : Nat) :
    (window m start len).drop n = window m (start + n) (len - n) := by
  apply List.ext_getElem
  · simp [window]
  · intro i _ _
    simp only [window, List.getElem_drop, List.getElem_map, List.getElem_range]
    exact congrArg m (Nat.add_assoc _ _ _).symm

theorem byteAt_window (m : Nat → UInt8) {len i : Nat} (inside : i < len) : byteAt (window m 0 len) i = m i := by
  have bound : i < (window m 0 len).length := by
    rw [length_window]
    exact inside
  rw [byteAt, List.getD_eq_getElem _ _ bound]
  simp [window]

theorem memory_append (first rest : List UInt8) (behind : Nat → UInt8) (i : Nat) :
    memory (first ++ rest) behind (first.length + i) = memory rest behind i := by
  unfold memory
  rw [List.getD_append_right _ _ _ _ (Nat.le_add_right _ _), List.length_append, Nat.add_sub_cancel_left,
    Nat.add_sub_add_left]

theorem window_memory (first data : List UInt8) (behind : Nat → UInt8) :
    window (memory (first ++ data) behind) first.length data.length = data := by
  apply List.ext_getElem
  · simp [window]
  · intro i lower upper
    simp only [window, List.getElem_map, List.getElem_range, memory_append]
    exact List.getD_eq_getElem _ _ upper

theorem Header.length_encode (h : Header) : h.encode.length = hdrLen := rfl

theorem Header.read_encode (h : Header) (first data : List UInt8) (behind : Nat → UInt8) :
    read (memory (first ++ (h.encode ++ data)) behind) first.length = h := by
  have shift (i : Nat) := memory_append first (h.encode ++ data) behind i
  have start := shift 0
  rw [Nat.add_zero] at start
  cases h with
  | mk srcPort dstPort length checksum =>
    simp only [read, Header.mk.injEq, start, shift]
    exact ⟨be16_bytes16 srcPort, be16_bytes16 dstPort, be16_bytes16 length, be16_bytes16 checksum⟩

/-! ### Receiving -/

/-- A handler or a callback that is called, with its arguments. -/
inductive Call where
  | arp (payload : List UInt8)
  | icmp (src : Ipv4Addr) (data : List UInt8) (len : UInt16)
  | tcp (src : Ipv4Addr) (data : List UInt8) (len : UInt16)
  | callback (cb : Nat) (src : Ipv4Addr) (srcPort : UInt16) (data : List UInt8) (len : UInt16)
  deriving DecidableEq

/-- The sockets bound to a port, in table order. -/
def bound (t : Table) (port : UInt16) : List Socket :=
  ((List.finRange maxSockets).map t).filter fun s => s.used && s.port = port

def udpHandle (t : Table) (src : Ipv4Addr) (m : Nat → UInt8) (payload : Nat) (len : UInt16) : List Call :=
  if len.toNat < hdrLen then []
  else
    let hdr := Header.read m payload
    -- the length field is believed, whatever len is
    let dlen := hdr.length - UInt16.ofNat hdrLen
    (bound t hdr.dstPort).map fun s =>
      .callback s.cb src hdr.srcPort (window m (payload + hdrLen) dlen.toNat) dlen

/-- The switch of ipv4_handle. -/
def dispatch (t : Table) (m : Nat → UInt8) (d : Datagram) : List Call :=
  if d.proto = protoIcmp then [.icmp d.src (window m d.start d.len.toNat) d.len]
  else if d.proto = protoUdp then udpHandle t d.src m d.start d.len
  else [.tcp d.src (window m d.start d.len.toNat) d.len]

theorem dispatch_udp (t : Table) (m : Nat → UInt8) (src : Ipv4Addr) (first : Nat) (len : UInt16) :
    dispatch t m ⟨protoUdp, src, first, len⟩ = udpHandle t src m first len := rfl

/-- All that netstack_rx calls for a frame, with these bytes behind it in memory. -/
def received (myIp : Ipv4Addr) (t : Table) (behind : Nat → UInt8) (frame : List UInt8) : List Call :=
  match netstackRx frame with
  | .arp payload => [.arp payload]
  | .ipv4 payload =>
    match ipv4Handle myIp payload with
    | none => []
    | some d => dispatch t (memory payload behind) d
  | .ignored => []

/-! ### Sending -/

def udpSend (h : Host) (later : MacAddr) (dest : Ipv4Addr) (dstPort srcPort : UInt16) (data : List UInt8) :
    Host × List (List UInt8) :=
  if data.length + hdrLen > bufSize then (h, [])
  else
    let hdr : Header := ⟨srcPort, dstPort, UInt16.ofNat (hdrLen + data.length), 0⟩
    ipv4Send h later dest protoUdp (hdr.encode ++ data)

/-- The MAC of the next hop needs no request: none is looked for, or the cache has it. -/
def KnownNextHop (n : Arp.Node) (dest : Ipv4Addr) : Prop :=
  skipsArp dest = true ∨ (Arp.cacheFind n.cache (Arp.resolveIp n dest)).isSome

/-! ### Round trip -/

/-- netstack_rx recovers the payload of an IPv4 frame. -/
theorem netstackRx_ipv4 (dest src : MacAddr) (payload : List UInt8) :
    netstackRx (dest.toList ++ src.toList ++ bytes16 ethTypeIpv4 ++ payload) = .ipv4 payload := by
  have long : ¬ (dest.toList ++ src.toList ++ bytes16 ethTypeIpv4 ++ payload).length < ethHeaderLen := by
    simp [MacAddr.toList, bytes16, ethHeaderLen]
  have type : word16At (dest.toList ++ src.toList ++ bytes16 ethTypeIpv4 ++ payload) 12 = ethTypeIpv4 :=
    be16_bytes16 ethTypeIpv4
  have other : ethTypeIpv4 ≠ ethTypeArp := by decide
  have rest : (dest.toList ++ src.toList ++ bytes16 ethTypeIpv4 ++ payload).drop ethHeaderLen = payload := rfl
  simp only [netstackRx, long, type, other, rest, ↓reduceIte]

/-- The packet that ipv4_send builds reaches the handler of its protocol with all of its payload. -/
theorem ipv4Handle_sendHeader (h : Host) {dest myIp : Ipv4Addr} {proto : UInt8} (payload : List UInt8)
    (mine : myIp = dest ∨ dest = broadcast)
    (known : proto = protoIcmp ∨ proto = protoUdp ∨ proto = protoTcp) :
    ipv4Handle myIp ((sendHeader h dest proto payload.length).encode ++ payload) =
      some ⟨proto, h.node.ip, Ipv4.hdrLen, UInt16.ofNat payload.length⟩ := by
  have fields := Ipv4.Header.decode_encode (sendHeader h dest proto payload.length) payload
  have dataLen : UInt16.ofNat (Ipv4.hdrLen + payload.length) - UInt16.ofNat Ipv4.hdrLen = UInt16.ofNat payload.length := by
    rw [UInt16.ofNat_add, add_comm, add_sub_cancel_right]
  refine ipv4Handle_some_iff.mpr ⟨⟨?_, ?_, ?_⟩, ?_⟩
  · rw [List.length_append, Ipv4.Header.length_encode]
    exact Nat.le_add_right _ _
  · rw [fields]
    exact mine.imp Eq.symm id
  · rw [fields]
    exact known
  · have ihl : (sendHeader h dest proto payload.length).ihl = Ipv4.hdrLen := by
      show ((0x45 : UInt8) &&& 0x0F).toNat * 4 = 20
      decide
    rw [fields, ihl]
    exact congrArg (Datagram.mk proto h.node.ip Ipv4.hdrLen) dataLen.symm

/-- The datagram that udp_send builds reaches every callback of its port with all of its data. -/
theorem udpHandle_encode (t : Table) (src : Ipv4Addr) (first : List UInt8) (behind : Nat → UInt8) (h : Header)
    {data : List UInt8} (fits : data.length + hdrLen ≤ bufSize) (length : h.length = UInt16.ofNat (hdrLen + data.length)) :
    udpHandle t src (memory (first ++ (h.encode ++ data)) behind) first.length h.length =
      (bound t h.dstPort).map fun s => .callback s.cb src h.srcPort data (UInt16.ofNat data.length) := by
  have room : bufSize < 2 ^ 16 := by decide
  have long : ¬ h.length.toNat < hdrLen := by
    rw [length, UInt16.toNat_ofNat', Nat.mod_eq_of_lt (by omega)]
    omega
  have dlen : h.length - UInt16.ofNat hdrLen = UInt16.ofNat data.length := by
    rw [length, UInt16.ofNat_add, add_comm, add_sub_cancel_right]
  have back : (UInt16.ofNat data.length).toNat = data.length := by
    rw [UInt16.toNat_ofNat', Nat.mod_eq_of_lt (by omega)]
  -- the data begin where the UDP header ends
  have start : first.length + hdrLen = (first ++ h.encode).length := by
    rw [List.length_append, Header.length_encode]
  rw [udpHandle, if_neg long]
  dsimp only
  rw [Header.read_encode, dlen, back, ← List.append_assoc, start, window_memory]

theorem arpLookup_known {n : Arp.Node} {dest : Ipv4Addr} (later : MacAddr) (known : KnownNextHop n dest) :
    (if skipsArp dest then ([], macBroadcast) else Arp.arpLookup n later dest).1 = [] := by
  split
  · rfl
  · rename_i looks
    obtain ⟨mac, found⟩ := Option.isSome_iff_exists.mp (known.resolve_left looks)
    rw [Arp.arpLookup, found]

/-- The frame of a packet that ipv4_send sends to a next hop. -/
def frameTo (mac : MacAddr) (h : Host) (dest : Ipv4Addr) (proto : UInt8) (payload : List UInt8) : List UInt8 :=
  mac.toList ++ h.node.mac.toList ++ bytes16 ethTypeIpv4 ++
    ((sendHeader h dest proto payload.length).encode ++ payload)

/-- A payload that fits is sent in one frame to what the lookup returns, behind whatever the lookup sends. -/
theorem ipv4Send_fits (h : Host) (later : MacAddr) (dest : Ipv4Addr) (proto : UInt8) {payload : List UInt8}
    (fits : payload.length + Ipv4.hdrLen ≤ Ipv4.bufSize) :
    (ipv4Send h later dest proto payload).2 =
      (if skipsArp dest then ([], macBroadcast) else Arp.arpLookup h.node later dest).1 ++
        [frameTo (if skipsArp dest then ([], macBroadcast) else Arp.arpLookup h.node later dest).2 h dest proto payload] := by
  have sizes : Ipv4.bufSize + ethHeaderLen ≤ txBufSize ∧ txBufSize < 2 ^ 16 := by decide
  have packed : ¬ payload.length + Ipv4.hdrLen > Ipv4.bufSize := Nat.not_lt_of_le fits
  have framed : ¬ (ethHeaderLen + ((sendHeader h dest proto payload.length).encode ++ payload).length) % 2 ^ 16 >
      txBufSize := by
    rw [List.length_append, Ipv4.Header.length_encode]
    omega
  rw [ipv4Send, if_neg packed]
  dsimp only
  rw [ethSend, if_neg framed, frameTo]

/-- With the next hop known, ipv4_send hands over one frame: its header and the payload, unchanged. -/
theorem ipv4Send_known (h : Host) (later : MacAddr) {dest : Ipv4Addr} (known : KnownNextHop h.node dest) (proto : UInt8)
    {payload : List UInt8} (fits : payload.length + Ipv4.hdrLen ≤ Ipv4.bufSize) :
    ∃ mac, (ipv4Send h later dest proto payload).2 = [frameTo mac h dest proto payload] := by
  have sent := ipv4Send_fits h later dest proto fits
  rw [arpLookup_known later known, List.nil_append] at sent
  exact ⟨_, sent⟩

/-- A datagram that fits is received as it was sent, by every callback of its port and by no
other handler; a longer one is not sent. -/
theorem udp_round_trip (a : Host) (later : MacAddr) (dest : Ipv4Addr) (dstPort srcPort : UInt16) (data : List UInt8) :
    (hdrLen + data.length ≤ bufSize → KnownNextHop a.node dest →
      ∃ frame, (udpSend a later dest dstPort srcPort data).2 = [frame] ∧
        ipv4Checksum ((frame.drop ethHeaderLen).take Ipv4.hdrLen) = 0 ∧
        ∀ myIp t behind, myIp = dest ∨ dest = broadcast →
          received myIp t behind frame =
            (bound t dstPort).map fun s => .callback s.cb a.node.ip srcPort data (UInt16.ofNat data.length)) ∧
    (bufSize < hdrLen + data.length → udpSend a later dest dstPort srcPort data = (a, [])) := by
  refine ⟨fun fits known => ?_, fun long => if_pos (by omega)⟩
  have short : ¬ data.length + hdrLen > bufSize := by omega
  let hdr : Header := ⟨srcPort, dstPort, UInt16.ofNat (hdrLen + data.length), 0⟩
  have size : (hdr.encode ++ data).length = hdrLen + data.length := by
    rw [List.length_append, Header.length_encode]
  have sizes : bufSize + Ipv4.hdrLen ≤ Ipv4.bufSize := by decide
  obtain ⟨mac, sent⟩ := ipv4Send_known a later known protoUdp (by omega : (hdr.encode ++ data).length + Ipv4.hdrLen ≤ _)
  refine ⟨frameTo mac a dest protoUdp (hdr.encode ++ data), ?_, ?_, fun myIp t behind mine => ?_⟩
  · rw [udpSend, if_neg short]
    exact sent
  · have packet : (mac.toList ++ a.node.mac.toList ++ bytes16 ethTypeIpv4).length = ethHeaderLen := rfl
    rw [frameTo, List.drop_left' packet, List.take_left' (Ipv4.Header.length_encode _)]
    exact sendHeader_verifies a dest protoUdp _
  · have handled := ipv4Handle_sendHeader a (hdr.encode ++ data) mine (.inr (.inl rfl))
    have delivered := udpHandle_encode t a.node.ip (sendHeader a dest protoUdp (hdr.encode ++ data).length).encode behind
      hdr (by omega : data.length + hdrLen ≤ bufSize) rfl
    have dataLen : hdr.length = UInt16.ofNat (hdr.encode ++ data).length := congrArg UInt16.ofNat size.symm
    rw [Ipv4.Header.length_encode, dataLen] at delivered
    rw [received, frameTo, netstackRx_ipv4]
    dsimp only
    rw [handled]
    dsimp only
    rw [dispatch_udp, delivered]

/-- A host straight from arp_init and ipv4_init. -/
def freshHost : Host :=
  ⟨⟨macBroadcast, ⟨fun _ => 0⟩, Arp.arpInit fun _ => ⟨⟨fun _ => 0⟩, macBroadcast, false⟩, ⟨fun _ => 10⟩, ⟨fun _ => 255⟩⟩, 0⟩

theorem udp_round_trip_broadcast : ∃ frame, (udpSend freshHost macBroadcast broadcast 67 68 [1, 2, 3]).2 = [frame] ∧
    ipv4Checksum ((frame.drop ethHeaderLen).take Ipv4.hdrLen) = 0 ∧
    ∀ myIp t behind, myIp = broadcast ∨ broadcast = broadcast → received myIp t behind frame =
      (bound t 67).map fun s => .callback s.cb freshHost.node.ip 68 [1, 2, 3] 3 :=
  (udp_round_trip freshHost macBroadcast broadcast 67 68 [1, 2, 3]).1 (by decide) (.inl (by decide))

/-! ### The length field -/

/-- A callback, with bytes that lie behind the UDP header and inside the payload. -/
def InPayload (m : Nat → UInt8) (payload : Nat) (len : UInt16) : Call → Prop
  | .callback _ _ _ data dlen =>
    data = window m (payload + hdrLen) dlen.toNat ∧ payload + hdrLen + dlen.toNat ≤ payload + len.toNat
  | _ => False

/-- Callbacks see nothing outside the payload, and a length field that does not fit it calls none. -/
structure Trusted (t : Table) (src : Ipv4Addr) (m : Nat → UInt8) (payload : Nat) (len : UInt16) : Prop where
  inside : ∀ call ∈ udpHandle t src m payload len, InPayload m payload len call
  refuses : (Header.read m payload).length.toNat < hdrLen ∨ len < (Header.read m payload).length →
    udpHandle t src m payload len = []

theorem bound_eq_nil_iff {t : Table} {port : UInt16} :
    bound t port = [] ↔ ∀ i, (t i).used = true → (t i).port ≠ port := by
  simp [bound, List.filter_eq_nil_iff]

section
variable {t : Table} {src : Ipv4Addr} {m : Nat → UInt8} {payload : Nat} {len : UInt16}

theorem udpHandle_nil_iff : udpHandle t src m payload len = [] ↔
    len.toNat < hdrLen ∨ bound t (Header.read m payload).dstPort = [] := by
  unfold udpHandle
  split
  · rename_i short
    exact iff_of_true rfl (.inl short)
  · rename_i long
    rw [List.map_eq_nil_iff]
    exact (or_iff_right long).symm

/-- The subtraction of the header does not wrap. -/
theorem dataLen_toNat {length : UInt16} (long : hdrLen ≤ length.toNat) :
    (length - UInt16.ofNat hdrLen).toNat = length.toNat - hdrLen := UInt16.toNat_sub_of_le _ _ long

theorem udpHandle_inside (long : hdrLen ≤ (Header.read m payload).length.toNat) (fits : (Header.read m payload).length ≤ len)
    {call : Call} (made : call ∈ udpHandle t src m payload len) : InPayload m payload len call := by
  unfold udpHandle at made
  split at made
  · cases made
  · obtain ⟨socket, -, rfl⟩ := List.mem_map.mp made
    apply And.intro rfl
    have upper : (Header.read m payload).length.toNat ≤ len.toNat := fits
    rw [dataLen_toNat long]
    omega

/-- What callbacks get can be trusted exactly when there is none, or the length field fits the payload. -/
theorem udpHandle_trusted_iff : Trusted t src m payload len ↔
    len.toNat < hdrLen ∨ (∀ i, (t i).used = true → (t i).port ≠ (Header.read m payload).dstPort) ∨
      hdrLen ≤ (Header.read m payload).length.toNat ∧ (Header.read m payload).length ≤ len := by
  have calls : udpHandle t src m payload len = [] ↔ _ := udpHandle_nil_iff
  rw [← bound_eq_nil_iff, ← or_assoc, ← calls]
  constructor
  · intro trusted
    by_contra other
    obtain ⟨some, wrong⟩ := not_or.mp other
    apply some
    apply trusted.refuses
    by_cases long : hdrLen ≤ (Header.read m payload).length.toNat
    · exact .inr (UInt16.not_le.mp fun fits => wrong ⟨long, fits⟩)
    · exact .inl (Nat.lt_of_not_le long)
  · rintro (none | ⟨long, fits⟩)
    · refine ⟨fun call made => ?_, fun _ => none⟩
      rw [none] at made
      cases made
    · refine ⟨fun call made => udpHandle_inside long fits made, ?_⟩
      rintro (short | large)
      · exact absurd long (Nat.not_le_of_lt short)
      · exact absurd fits (UInt16.not_le.mpr large)

end

/-- One callback bound to port 0, and a header of zeros: the callback gets 65528 bytes of an empty datagram. -/
theorem udpHandle_trusted_fails : ¬∀ t src m payload len, Trusted t src m payload len := by
  intro trusted
  have calls := (trusted (fun _ => ⟨0, 0, true⟩) broadcast (fun _ => 0) 0 8).refuses (.inl (by decide))
  rw [udpHandle_nil_iff, bound_eq_nil_iff] at calls
  rcases calls with short | other
  · exact absurd short (by decide)
  · exact other ⟨0, by decide⟩ rfl rfl

end ChrisOS.Net.Udp
