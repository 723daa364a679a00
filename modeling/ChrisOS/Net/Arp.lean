import ChrisOS.Net.Types
import ChrisOS.Lib.Run

/-! The ARP code of net/arp.c, and any number of hosts that run it on one network.

The network keeps every frame it was given: a frame may be delivered to any host,
any number of times and with padding, or be dropped.
-/

set_option autoImplicit false

namespace ChrisOS.Net.Arp
open ChrisOS.Lib

def opRequest : UInt16 := 1
def opReply : UInt16 := 2
def cacheSize : Nat := 16

structure Packet where
  hwType : UInt16
  protoType : UInt16
  hwLen : UInt8
  protoLen : UInt8
  op : UInt16
  senderMac : MacAddr
  senderIp : Ipv4Addr
  targetMac : MacAddr
  targetIp : Ipv4Addr
  deriving DecidableEq

/-- sizeof(arp_packet_t). -/
def packetLen : Nat := 28

def Packet.encode (p : Packet) : List UInt8 :=
  bytes16 p.hwType ++ bytes16 p.protoType ++ [p.hwLen, p.protoLen] ++ bytes16 p.op ++ p.senderMac.toList ++
    p.senderIp.toList ++ p.targetMac.toList ++ p.targetIp.toList

/-- The packed structure over the first bytes of a payload. -/
def Packet.decode (b : List UInt8) : Packet where
  hwType := word16At b 0
  protoType := word16At b 2
  hwLen := byteAt b 4
  protoLen := byteAt b 5
  op := word16At b 6
  senderMac := macAt b 8
  senderIp := ipAt b 14
  targetMac := macAt b 18
  targetIp := ipAt b 24

theorem Packet.length_encode (p : Packet) : p.encode.length = packetLen := rfl

/-- A frame with an ARP packet fits the send buffer. -/
theorem Packet.ethSend_encode (myMac dest : MacAddr) (type : UInt16) (p : Packet) :
    ethSend myMac dest type p.encode = [dest.toList ++ myMac.toList ++ bytes16 type ++ p.encode] := by
  have fits : ¬ (ethHeaderLen + p.encode.length) % 2 ^ 16 > txBufSize := by
    rw [length_encode]
    decide
  rw [ethSend, if_neg fits]

theorem Packet.decode_encode (p : Packet) (padding : List UInt8) : decode (p.encode ++ padding) = p := by
  cases p with
  | mk hwType protoType hwLen protoLen op senderMac senderIp targetMac targetIp =>
    simp only [decode, Packet.mk.injEq]
    refine ⟨be16_bytes16 hwType, be16_bytes16 protoType, rfl, rfl, be16_bytes16 op, ?_, ?_, ?_, ?_⟩
    · exact macAt_eq fun k => by fin_cases k <;> rfl
    · exact ipAt_eq fun k => by fin_cases k <;> rfl
    · exact macAt_eq fun k => by fin_cases k <;> rfl
    · exact ipAt_eq fun k => by fin_cases k <;> rfl

/-! ### The cache -/

structure Entry where
  ip : Ipv4Addr
  mac : MacAddr
  valid : Bool
  deriving DecidableEq

abbrev Cache := Nat → Entry

def arpInit (c : Cache) : Cache := fun i => { c i with valid := false }

def cacheStoreLoop (ip : Ipv4Addr) (mac : MacAddr) (c : Cache) : Nat → Nat → Cache
  -- the cache is full of other addresses: the first entry goes
  | 0, _ => Function.update c 0 ⟨ip, mac, true⟩
  | left + 1, i =>
    if !(c i).valid || ipEq (c i).ip ip then Function.update c i ⟨ip, mac, true⟩
    else cacheStoreLoop ip mac c left (i + 1)

def cacheStore (c : Cache) (ip : Ipv4Addr) (mac : MacAddr) : Cache := cacheStoreLoop ip mac c cacheSize 0

def cacheFindLoop (c : Cache) (ip : Ipv4Addr) : Nat → Nat → Option MacAddr
  | 0, _ => none
  | left + 1, i => if (c i).valid && ipEq (c i).ip ip then some (c i).mac else cacheFindLoop c ip left (i + 1)

def cacheFind (c : Cache) (ip : Ipv4Addr) : Option MacAddr := cacheFindLoop c ip cacheSize 0

/-! ### Requests and replies -/

def requestPacket (myMac : MacAddr) (myIp target : Ipv4Addr) : Packet where
  hwType := 1
  protoType := ethTypeIpv4
  hwLen := 6
  protoLen := 4
  op := opRequest
  senderMac := myMac
  senderIp := myIp
  targetMac := ⟨fun _ => 0⟩
  targetIp := target

/-- The frames that arp_request sends. -/
def arpRequest (myMac : MacAddr) (myIp target : Ipv4Addr) : List (List UInt8) :=
  ethSend myMac macBroadcast ethTypeArp (requestPacket myMac myIp target).encode

def replyPacket (myMac : MacAddr) (myIp : Ipv4Addr) (p : Packet) : Packet where
  hwType := 1
  protoType := ethTypeIpv4
  hwLen := 6
  protoLen := 4
  op := opReply
  senderMac := myMac
  senderIp := myIp
  targetMac := p.senderMac
  targetIp := p.senderIp

/-- The cache after arp_handle and the frames it sends. -/
def arpHandle (myMac : MacAddr) (myIp : Ipv4Addr) (c : Cache) (payload : List UInt8) :
    Cache × List (List UInt8) :=
  if payload.length < packetLen then (c, [])
  else
    let p := Packet.decode payload
    -- the sender is stored whatever the operation and the target are
    let c := cacheStore c p.senderIp p.senderMac
    if p.op = opRequest && ipEq p.targetIp myIp then
      (c, ethSend myMac p.senderMac ethTypeArp (replyPacket myMac myIp p).encode)
    else (c, [])

/-- A received frame, as far as ARP is concerned. -/
def receive (myMac : MacAddr) (myIp : Ipv4Addr) (c : Cache) (frame : List UInt8) : Cache × List (List UInt8) :=
  match netstackRx frame with
  | .arp payload => arpHandle myMac myIp c payload
  | .ipv4 _ | .ignored => (c, [])

/-- Storing puts one pair into one slot. -/
theorem cacheStore_entry (c : Cache) (ip : Ipv4Addr) (mac : MacAddr) (i : Nat) :
    cacheStore c ip mac i = c i ∨ cacheStore c ip mac i = ⟨ip, mac, true⟩ := by
  have slot (k : Nat) : Function.update c k ⟨ip, mac, true⟩ i = c i ∨
      Function.update c k ⟨ip, mac, true⟩ i = ⟨ip, mac, true⟩ := by
    by_cases here : i = k
    · subst here
      exact .inr (Function.update_self _ _ _)
    · exact .inl (Function.update_of_ne here _ _)
  unfold cacheStore
  -- the loop from any entry on, by the rounds that are left
  generalize cacheSize = left
  generalize 0 = start
  induction left generalizing start with
  | zero => exact slot 0
  | succ left ih =>
    rw [cacheStoreLoop]
    by_cases hit : (!(c start).valid || ipEq (c start).ip ip) = true
    · rw [if_pos hit]
      exact slot start
    · rw [if_neg hit]
      exact ih (start + 1)

/-! ### Lookup -/

/-- What arp_lookup reads: the host's addresses, the cache and the statics gateway and subnet. -/
structure Node where
  mac : MacAddr
  ip : Ipv4Addr
  cache : Cache
  gateway : Ipv4Addr
  subnet : Ipv4Addr

def sameSubnet (subnet a b : Ipv4Addr) : Bool :=
  (List.finRange 4).all fun i => a.bytes i &&& subnet.bytes i == b.bytes i &&& subnet.bytes i

/-- The address whose MAC is looked for. -/
def resolveIp (n : Node) (ip : Ipv4Addr) : Ipv4Addr := if sameSubnet n.subnet ip n.ip then ip else n.gateway

/-- The frames sent and the MAC returned; `later` is what the polling loop ends with. -/
def arpLookup (n : Node) (later : MacAddr) (ip : Ipv4Addr) : List (List UInt8) × MacAddr :=
  match cacheFind n.cache (resolveIp n ip) with
  | some mac => ([], mac)
  | none => (arpRequest n.mac n.ip (resolveIp n ip), later)

/-! ### Hosts on one network -/

/-- A frame on the wire and the host that sent it. -/
structure Sent (H : Type) where
  sender : H
  bytes : List UInt8

structure Network (H : Type) where
  caches : H → Cache
  wire : List (Sent H)
  /-- The requests made: who asked, and for which address. -/
  asked : List (H × Ipv4Addr)

inductive Event (H : Type) where
  | request (host : H) (target : Ipv4Addr)
  | deliver (host : H) (frame : Sent H) (padding : List UInt8)
  | drop (kept : List (Sent H))

section Hosts
variable {H : Type} [DecidableEq H] (ip : H → Ipv4Addr) (mac : H → MacAddr)

/-- The frame with its padding reaches a host. -/
def arrival (n : Network H) (host : H) (frame : Sent H) (padding : List UInt8) : Cache × List (List UInt8) :=
  receive (mac host) (ip host) (n.caches host) (frame.bytes ++ padding)

inductive Step : Network H → Event H → Network H → Prop where
  | request {n : Network H} (host : H) (target : Ipv4Addr) :
      Step n (.request host target)
        { n with
          wire := (arpRequest (mac host) (ip host) target).map (Sent.mk host) ++ n.wire
          asked := (host, target) :: n.asked }
  | deliver {n : Network H} (host : H) {frame : Sent H} (padding : List UInt8) : frame ∈ n.wire →
      Step n (.deliver host frame padding)
        { n with
          caches := Function.update n.caches host (arrival ip mac n host frame padding).1
          wire := (arrival ip mac n host frame padding).2.map (Sent.mk host) ++ n.wire }
  | drop {n : Network H} {kept : List (Sent H)} : kept.Sublist n.wire →
      Step n (.drop kept) { n with wire := kept }

/-- Every host after arp_init, and nothing on the wire. -/
def start (caches : H → Cache) : Network H := ⟨fun h => arpInit (caches h), [], []⟩

/-- A reply on the wire: sent by the owner of the address it announces, to a host that asked for it. -/
def HonestReply (n : Network H) (f : Sent H) : Prop :=
  ∃ g, (g, ip f.sender) ∈ n.asked ∧ macAt f.bytes 0 = mac g ∧
    ∃ payload, netstackRx f.bytes = .arp payload ∧ (Packet.decode payload).senderIp = ip f.sender ∧
      (Packet.decode payload).senderMac = mac f.sender ∧ (Packet.decode payload).targetIp = ip g ∧
      (Packet.decode payload).targetMac = mac g

structure Sound (n : Network H) : Prop where
  holds : ∀ g i h, i < cacheSize → (n.caches g i).valid = true → (n.caches g i).ip = ip h → (n.caches g i).mac = mac h
  known : ∀ g i, i < cacheSize → (n.caches g i).valid = true → ∃ h, (n.caches g i).ip = ip h
  replies : ∀ f ∈ n.wire, ∀ payload, netstackRx f.bytes = .arp payload → (Packet.decode payload).op = opReply →
    HonestReply ip mac n f

/-! ### The invariant -/

/-- What the ARP code puts on the wire: a request, or the reply to one. -/
inductive Genuine (asked : List (H × Ipv4Addr)) : Sent H → Prop where
  | request {host : H} {target : Ipv4Addr} : (host, target) ∈ asked →
      Genuine asked ⟨host, macBroadcast.toList ++ (mac host).toList ++ bytes16 ethTypeArp ++
        (requestPacket (mac host) (ip host) target).encode⟩
  | reply {host g : H} {p : Packet} : (g, ip host) ∈ asked → p.senderMac = mac g → p.senderIp = ip g →
      Genuine asked ⟨host, (mac g).toList ++ (mac host).toList ++ bytes16 ethTypeArp ++
        (replyPacket (mac host) (ip host) p).encode⟩

structure Inv (n : Network H) : Prop where
  cached : ∀ g i, (n.caches g i).valid = true → ∃ h, (n.caches g i).ip = ip h ∧ (n.caches g i).mac = mac h
  genuine : ∀ f ∈ n.wire, Genuine ip mac n.asked f

variable {ip mac}

omit [DecidableEq H] in
theorem Genuine.mono {asked more : List (H × Ipv4Addr)} {f : Sent H} (genuine : Genuine ip mac asked f)
    (grows : asked ⊆ more) : Genuine ip mac more f := by
  cases genuine with
  | request member => exact .request (grows member)
  | reply member sender address => exact .reply (grows member) sender address

omit [DecidableEq H] in
/-- Any frame on the wire announces the address of the host that sent it. -/
theorem Genuine.payload {asked : List (H × Ipv4Addr)} {f : Sent H} (genuine : Genuine ip mac asked f)
    (padding : List UInt8) : ∃ payload p, netstackRx (f.bytes ++ padding) = .arp payload ∧
      packetLen ≤ payload.length ∧ Packet.decode payload = p ∧ p.senderIp = ip f.sender ∧
      p.senderMac = mac f.sender ∧ (p.op = opRequest → (f.sender, p.targetIp) ∈ asked) := by
  cases genuine with
  | @request host target member =>
    refine ⟨_, requestPacket (mac host) (ip host) target, ?_, ?_, Packet.decode_encode _ padding, rfl, rfl,
      fun _ => member⟩
    · rw [List.append_assoc]
      exact netstackRx_frame _ _ _
    · rw [List.length_append, Packet.length_encode]
      omega
  | @reply host g p member sender address =>
    refine ⟨_, replyPacket (mac host) (ip host) p, ?_, ?_, Packet.decode_encode _ padding, rfl, rfl,
      fun is => absurd is (show ¬ opReply = opRequest by decide)⟩
    · rw [List.append_assoc]
      exact netstackRx_frame _ _ _
    · rw [List.length_append, Packet.length_encode]
      omega

omit [DecidableEq H] in
/-- arp_handle on a frame of the wire: it learns the sender, and answers a request for its own address. -/
theorem arrival_genuine {n : Network H} (host : H) {f : Sent H} (genuine : Genuine ip mac n.asked f)
    (padding : List UInt8) :
    (arrival ip mac n host f padding).1 = cacheStore (n.caches host) (ip f.sender) (mac f.sender) ∧
      ∀ sent ∈ (arrival ip mac n host f padding).2, Genuine ip mac n.asked ⟨host, sent⟩ := by
  obtain ⟨payload, p, arp, long, decoded, address, sender, asks⟩ := genuine.payload padding
  have shape : arrival ip mac n host f padding =
      if (p.op = opRequest && ipEq p.targetIp (ip host)) = true then
        (cacheStore (n.caches host) (ip f.sender) (mac f.sender),
          ethSend (mac host) p.senderMac ethTypeArp (replyPacket (mac host) (ip host) p).encode)
      else (cacheStore (n.caches host) (ip f.sender) (mac f.sender), []) := by
    simp only [arrival, receive, arp, arpHandle, if_neg (Nat.not_lt.mpr long), decoded, address, sender]
  rw [shape]
  by_cases answers : (p.op = opRequest && ipEq p.targetIp (ip host)) = true
  · rw [if_pos answers]
    refine ⟨rfl, fun sent member => ?_⟩
    rw [Bool.and_eq_true, decide_eq_true_eq, ipEq_iff] at answers
    obtain ⟨isRequest, own⟩ := answers
    rw [Packet.ethSend_encode, List.mem_singleton] at member
    rw [member, sender]
    -- the address that was asked for is this host's own
    exact .reply (own ▸ asks isRequest) sender address
  · rw [if_neg answers]
    exact ⟨rfl, by simp⟩

theorem Step.inv {n n' : Network H} {e : Event H} (invariant : Inv ip mac n) (taken : Step ip mac n e n') :
    Inv ip mac n' := by
  cases taken with
  | request host target =>
    refine ⟨invariant.cached, fun f member => ?_⟩
    rw [arpRequest, Packet.ethSend_encode] at member
    rcases List.mem_cons.mp member with rfl | old
    · exact .request (.head _)
    · exact (invariant.genuine f old).mono (List.subset_cons_self ..)
  | @deliver host f padding member =>
    obtain ⟨stores, sends⟩ := arrival_genuine host (invariant.genuine f member) padding
    refine ⟨fun g i valid => ?_, fun sent there => ?_⟩
    · simp only at valid ⊢
      by_cases here : g = host
      · subst here
        rw [Function.update_self, stores] at valid ⊢
        -- an entry is as it was, or it is that of the sender
        rcases cacheStore_entry (n.caches g) (ip f.sender) (mac f.sender) i with old | new
        · rw [old] at valid ⊢
          exact invariant.cached g i valid
        · rw [new]
          exact ⟨f.sender, rfl, rfl⟩
      · rw [Function.update_of_ne here] at valid ⊢
        exact invariant.cached g i valid
    · rcases List.mem_append.mp there with new | old
      · obtain ⟨bytes, sentBytes, rfl⟩ := List.mem_map.mp new
        exact sends bytes sentBytes
      · exact invariant.genuine sent old
  | drop sub => exact ⟨invariant.cached, fun f member => invariant.genuine f (sub.subset member)⟩

omit [DecidableEq H] in
theorem Genuine.honest {n : Network H} {f : Sent H} (genuine : Genuine ip mac n.asked f) {payload : List UInt8}
    (arp : netstackRx f.bytes = .arp payload) (isReply : (Packet.decode payload).op = opReply) :
    HonestReply ip mac n f := by
  cases genuine with
  | @request host target member =>
    rw [netstackRx_frame] at arp
    cases arp
    have same := Packet.decode_encode (requestPacket (mac host) (ip host) target) []
    rw [List.append_nil] at same
    rw [same] at isReply
    exact absurd isReply (show ¬ opRequest = opReply by decide)
  | @reply host g p member sender address =>
    have same := Packet.decode_encode (replyPacket (mac host) (ip host) p) []
    rw [List.append_nil] at same
    refine ⟨g, member, ?_, _, netstackRx_frame _ _ _, ?_, ?_, ?_, ?_⟩
    · exact macAt_toList _ _
    · rw [same]; rfl
    · rw [same]; rfl
    · rw [same]; exact address
    · rw [same]; exact sender

omit [DecidableEq H] in
theorem Inv.sound {n : Network H} (distinct : Function.Injective ip) (invariant : Inv ip mac n) : Sound ip mac n := by
  refine ⟨fun g i h _ valid address => ?_, fun g i _ valid => ?_, fun f member payload arp isReply => ?_⟩
  · obtain ⟨owner, owns, holds⟩ := invariant.cached g i valid
    rw [holds, distinct (owns.symm.trans address)]
  · obtain ⟨owner, owns, -⟩ := invariant.cached g i valid
    exact ⟨owner, owns⟩
  · exact (invariant.genuine f member).honest arp isReply

omit [DecidableEq H] in
theorem inv_start (caches : H → Cache) : Inv ip mac (start caches) :=
  ⟨fun _ _ valid => absurd valid Bool.false_ne_true, by simp [start]⟩

/-- In every run of hosts with distinct addresses, every cache entry names a host and its MAC, and
every reply in flight comes from the owner of the address and goes to a host that asked. -/
theorem run_sound (distinct : Function.Injective ip) {caches : H → Cache} {moves : List (Move (Network H) (Event H))}
    {n : Network H} (run : Run (Step ip mac) (start caches) moves n) :
    Sound ip mac n ∧ ∀ m ∈ moves, Sound ip mac m.before ∧ Sound ip mac m.after := by
  obtain ⟨final, between⟩ := run.invariant (Inv ip mac) (fun before taken => taken.inv before) (inv_start caches)
  exact ⟨final.sound distinct, fun m member =>
    ⟨(between m member).1.sound distinct, (between m member).2.sound distinct⟩⟩

end Hosts

def sampleIp (h : Fin 2) : Ipv4Addr := ⟨fun _ => UInt8.ofNat h⟩

def sampleMac (h : Fin 2) : MacAddr := ⟨fun _ => UInt8.ofNat (h + 10)⟩

/-- Host 1 asks for the address of host 0, and host 0 answers. -/
theorem run_sound_one_exchange : ∃ moves n,
    Run (Step sampleIp sampleMac) (start fun _ _ => ⟨sampleIp 0, sampleMac 0, false⟩) moves n ∧ n.wire.length = 2 ∧
      Sound sampleIp sampleMac n ∧ ∀ m ∈ moves, Sound sampleIp sampleMac m.before ∧ Sound sampleIp sampleMac m.after := by
  have distinct : Function.Injective sampleIp := by decide
  obtain ⟨moves, n, run, two⟩ : ∃ moves n,
      Run (Step sampleIp sampleMac) (start fun _ _ => ⟨sampleIp 0, sampleMac 0, false⟩) moves n ∧
        n.wire.length = 2 :=
    ⟨_, _, .cons (.request 1 (sampleIp 0)) (.single (.deliver 0 [] (List.mem_cons_self ..))), by decide⟩
  exact ⟨moves, n, run, two, run_sound distinct run⟩

end ChrisOS.Net.Arp
