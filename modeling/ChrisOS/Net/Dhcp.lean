import ChrisOS.Net.Types
import ChrisOS.Lib.Run
import Mathlib.Data.List.GetD

/-! The DHCP client of net/dhcp.c, and hosts that run it on one network with an
honest server.

The server answers what the clients broadcast and broadcasts its answers: each
may reach any host at any time, any number of times. Timeouts are steps.
-/

set_option autoImplicit false

namespace ChrisOS.Net.Dhcp
open ChrisOS.Lib

def dhcpDiscover : UInt8 := 1
def dhcpOffer : UInt8 := 2
def dhcpRequest : UInt8 := 3
def dhcpAck : UInt8 := 5
def dhcpMagic : UInt32 := 0x63825363

/-- The static dhcp_xid, which nothing changes. -/
def dhcpXid : UInt32 := 0xDEADBEEF

/-- sizeof(dhcp_pkt_t), the offset of its options and their length. -/
def packetLen : Nat := 552
def optionsAt : Nat := 240
def optionsLen : Nat := 312

def opAt (d : List UInt8) : UInt8 := byteAt d 0
def xidAt (d : List UInt8) : UInt32 := word32At d 4
def yiaddrAt (d : List UInt8) : Ipv4Addr := ipAt d 16

/-- The hardware address in chaddr. -/
def chaddrAt (d : List UInt8) : MacAddr := macAt d 28

/-- The option walk; every round consumes a byte, so `optsLen` rounds are enough. -/
def optionLoop (d : List UInt8) (optsLen : Nat) : Nat → Nat → UInt8 → UInt8
  | 0, _, msgType => msgType
  | rounds + 1, i, msgType =>
    if i ≥ optsLen then msgType
    else
      let opt := byteAt d (optionsAt + i)
      -- 255 ends the options, 0 pads by one byte
      if opt = 255 then msgType
      else if opt = 0 then optionLoop d optsLen rounds (i + 1) msgType
      else if i + 1 ≥ optsLen then msgType
      else
        let olen := (byteAt d (optionsAt + (i + 1))).toNat
        if i + 2 + olen > optsLen then msgType
        else
          optionLoop d optsLen rounds (i + 2 + olen)
            (if opt = 53 ∧ olen = 1 then byteAt d (optionsAt + (i + 2)) else msgType)

/-- The message type that the walk finds, 0 if none. -/
def messageType (d : List UInt8) : UInt8 :=
  let optsLen := min (d.length - optionsAt) optionsLen
  optionLoop d optsLen optsLen 0 0

/-- The bytes behind the first fields of a packet, such as its options. -/
theorem byteAt_behind {head rest : List UInt8} {start : Nat} (length : head.length = start) (i : Nat) :
    byteAt (head ++ rest) (start + i) = byteAt rest i := by
  unfold byteAt
  rw [List.getD_append_right _ _ _ _ (by omega), length, Nat.add_sub_cancel_left]

theorem optionLoop_option {d : List UInt8} {optsLen rounds i : Nat} {t opt olen : UInt8}
    (first : byteAt d (optionsAt + i) = opt) (second : byteAt d (optionsAt + (i + 1)) = olen)
    (proper : opt ≠ 255 ∧ opt ≠ 0) (room : i + 2 + olen.toNat ≤ optsLen) :
    optionLoop d optsLen (rounds + 1) i t = optionLoop d optsLen rounds (i + 2 + olen.toNat)
      (if opt = 53 ∧ olen.toNat = 1 then byteAt d (optionsAt + (i + 2)) else t) := by
  have inside : ¬ i ≥ optsLen := by omega
  have more : ¬ i + 1 ≥ optsLen := by omega
  have fits : ¬ i + 2 + olen.toNat > optsLen := by omega
  simp only [optionLoop, first, second, if_neg inside, if_neg more, if_neg fits, if_neg proper.1, if_neg proper.2]

theorem optionLoop_end {d : List UInt8} {optsLen rounds i : Nat} {t : UInt8}
    (ended : byteAt d (optionsAt + i) = 255) : optionLoop d optsLen (rounds + 1) i t = t := by
  simp only [optionLoop, ended, ↓reduceIte, ite_self]

/-- A walk over a message type and the end mark. -/
theorem messageType_first {d : List UInt8} (long : packetLen ≤ d.length) (option : byteAt d (optionsAt + 0) = 53)
    (olen : byteAt d (optionsAt + 1) = 1) (ended : byteAt d (optionsAt + 3) = 255) :
    messageType d = byteAt d (optionsAt + 2) := by
  have optsLen : min (d.length - optionsAt) optionsLen = 310 + 1 + 1 := by
    simp only [optionsAt, optionsLen, packetLen] at long ⊢
    omega
  rw [messageType, optsLen, optionLoop_option option olen (by decide) (by decide)]
  exact optionLoop_end ended

/-! ### The client -/

/-- The statics of net/dhcp.c and the address of the host. -/
structure Client where
  offeredIp : Ipv4Addr
  gotOffer : Bool
  gotAck : Bool
  myIp : Ipv4Addr

/-- The tests that dhcp_rx makes before it walks the options. -/
def admitted (d : List UInt8) : Bool := d.length ≥ packetLen && opAt d = 2 && xidAt d = dhcpXid

def dhcpRx (c : Client) (d : List UInt8) : Client :=
  if admitted d then
    -- chaddr is not looked at, nor whether anything was asked for
    let c := if messageType d = dhcpOffer then { c with offeredIp := yiaddrAt d, gotOffer := true } else c
    if messageType d = dhcpAck then { c with myIp := yiaddrAt d, gotAck := true } else c
  else c

/-- A packet of send_discover or send_request, by its first options; the rest is zero. -/
def clientPacket (mac : MacAddr) (options : List UInt8) : List UInt8 :=
  [1, 1, 6, 0] ++ bytes32 dhcpXid ++ [0, 0] ++ bytes16 0x8000 ++ List.replicate 16 0 ++ mac.toList ++
    List.replicate 202 0 ++ bytes32 dhcpMagic ++ options ++ List.replicate (optionsLen - options.length) 0

def sendDiscover (mac : MacAddr) : List UInt8 := clientPacket mac [53, 1, dhcpDiscover, 255]

def sendRequest (mac : MacAddr) (ip : Ipv4Addr) : List UInt8 :=
  clientPacket mac ([53, 1, dhcpRequest, 50, 4] ++ ip.toList ++ [255])

@[simp] theorem clientPacket_chaddr (mac : MacAddr) (options : List UInt8) :
    chaddrAt (clientPacket mac options) = mac := by
  apply macAt_eq
  intro k
  fin_cases k <;> rfl

/-- Where a host is in dhcp_request. -/
inductive Phase where
  | idle | waitOffer | waitAck
  deriving DecidableEq, Repr

/-- dhcp_request up to its first polling loop. -/
def begin (c : Client) : Client := { c with gotOffer := false, gotAck := false }

/-! ### Hosts and the server -/

structure Network (H : Type) where
  clients : H → Client
  phases : H → Phase
  /-- What the clients have broadcast. -/
  requests : List (List UInt8)
  /-- What the server has broadcast. -/
  replies : List (List UInt8)
  /-- The addresses taken over from an ACK, and by whom. -/
  adopted : List (H × Ipv4Addr)

/-- What the server may answer: it echoes xid and chaddr, and every chaddr has its own address. -/
structure Answers (lease : MacAddr → Ipv4Addr) (request reply : List UInt8) : Prop where
  op : opAt reply = 2
  xid : xidAt reply = xidAt request
  chaddr : chaddrAt reply = chaddrAt request
  yiaddr : yiaddrAt reply = lease (chaddrAt request)
  type : messageType request = dhcpDiscover ∧ messageType reply = dhcpOffer ∨
    messageType request = dhcpRequest ∧ messageType reply = dhcpAck

inductive Event (H : Type) where
  | discover (host : H)
  | request (host : H)
  | stop (host : H)
  | answer (reply : List UInt8)
  | deliver (host : H) (reply : List UInt8)

section Hosts
variable {H : Type} [DecidableEq H] (mac : H → MacAddr) (lease : MacAddr → Ipv4Addr)

/-- dhcp_rx takes the address over. -/
def takes (d : List UInt8) : Bool := admitted d && messageType d = dhcpAck

inductive Step : Network H → Event H → Network H → Prop where
  | discover {n : Network H} (host : H) : n.phases host = .idle →
      Step n (.discover host)
        { n with
          clients := Function.update n.clients host (begin (n.clients host))
          phases := Function.update n.phases host .waitOffer
          requests := sendDiscover (mac host) :: n.requests }
  | request {n : Network H} (host : H) : n.phases host = .waitOffer → (n.clients host).gotOffer = true →
      Step n (.request host)
        { n with
          phases := Function.update n.phases host .waitAck
          requests := sendRequest (mac host) (n.clients host).offeredIp :: n.requests }
  | stop {n : Network H} (host : H) : Step n (.stop host) { n with phases := Function.update n.phases host .idle }
  | answer {n : Network H} (request reply : List UInt8) : request ∈ n.requests → Answers lease request reply →
      Step n (.answer reply) { n with replies := reply :: n.replies }
  | deliver {n : Network H} (host : H) (reply : List UInt8) : reply ∈ n.replies →
      Step n (.deliver host reply)
        { n with
          clients := Function.update n.clients host (dhcpRx (n.clients host) reply)
          adopted := if takes reply then (host, (dhcpRx (n.clients host) reply).myIp) :: n.adopted else n.adopted }

/-- Hosts that have not used DHCP yet. -/
def start (clients : H → Client) : Network H := ⟨clients, fun _ => .idle, [], [], []⟩

/-- No two hosts take over one address, and a host takes over only what the server acknowledged for it. -/
structure Agreed (n : Network H) : Prop where
  acknowledged : ∀ h ip, (h, ip) ∈ n.adopted →
    ∃ r ∈ n.replies, messageType r = dhcpAck ∧ chaddrAt r = mac h ∧ yiaddrAt r = ip
  apart : ∀ h g ip, (h, ip) ∈ n.adopted → (g, ip) ∈ n.adopted → h = g

/-- An ACK for another chaddr is delivered and accepted. -/
def ForeignAck : Event H → Prop
  | .deliver host reply => takes reply = true ∧ chaddrAt reply ≠ mac host
  | _ => False

/-! ### The invariant -/

structure Inv (n : Network H) : Prop where
  asked : ∀ d ∈ n.requests, ∃ h, chaddrAt d = mac h
  answered : ∀ r ∈ n.replies, (∃ h, chaddrAt r = mac h) ∧ yiaddrAt r = lease (chaddrAt r)
  taken : ∀ h ip, (h, ip) ∈ n.adopted → ip = lease (mac h) ∧
    ∃ r ∈ n.replies, messageType r = dhcpAck ∧ chaddrAt r = mac h ∧ yiaddrAt r = ip

variable {mac lease}

omit [DecidableEq H] in
theorem Inv.agreed (distinct : Function.Injective fun h => lease (mac h)) {n : Network H}
    (invariant : Inv mac lease n) : Agreed mac n := by
  refine ⟨fun h ip member => (invariant.taken h ip member).2, fun h g ip left right => ?_⟩
  have own := (invariant.taken h ip left).1
  have other := (invariant.taken g ip right).1
  exact distinct (own.symm.trans other)

theorem dhcpRx_takes {c : Client} {d : List UInt8} (accepts : takes d = true) : (dhcpRx c d).myIp = yiaddrAt d := by
  rw [takes, Bool.and_eq_true, decide_eq_true_eq] at accepts
  unfold dhcpRx
  rw [if_pos accepts.1]
  simp only [accepts.2, ↓reduceIte]

/-- An address is taken over from an admitted ACK and from nothing else. -/
theorem dhcpRx_keeps {c : Client} {d : List UInt8} (refuses : takes d = false) : (dhcpRx c d).myIp = c.myIp := by
  unfold dhcpRx
  by_cases admits : admitted d = true
  · have other : messageType d ≠ dhcpAck := by
      intro ack
      rw [takes, admits, ack] at refuses
      cases refuses
    rw [if_pos admits]
    simp only [if_neg other]
    split <;> rfl
  · rw [if_neg admits]

omit [DecidableEq H] in
theorem mem_adopted (host : H) {d : List UInt8} (accepts : takes d = true) (c : Client) (others : List (H × Ipv4Addr)) :
    (host, yiaddrAt d) ∈ if takes d = true then (host, (dhcpRx c d).myIp) :: others else others := by
  rw [if_pos accepts, dhcpRx_takes accepts]
  exact .head _

theorem Step.inv {n n' : Network H} {e : Event H} (invariant : Inv mac lease n) (own : ¬ ForeignAck mac e)
    (taken : Step mac lease n e n') : Inv mac lease n' := by
  cases taken with
  | discover host =>
    refine ⟨fun d member => ?_, invariant.answered, invariant.taken⟩
    rcases List.mem_cons.mp member with rfl | old
    · exact ⟨host, clientPacket_chaddr _ _⟩
    · exact invariant.asked d old
  | request host =>
    refine ⟨fun d member => ?_, invariant.answered, invariant.taken⟩
    rcases List.mem_cons.mp member with rfl | old
    · exact ⟨host, clientPacket_chaddr _ _⟩
    · exact invariant.asked d old
  | stop host => exact ⟨invariant.asked, invariant.answered, invariant.taken⟩
  | answer request reply member answers =>
    refine ⟨invariant.asked, fun r there => ?_, fun h ip there => ?_⟩
    · rcases List.mem_cons.mp there with rfl | old
      · rw [answers.chaddr]
        exact ⟨invariant.asked _ member, answers.yiaddr⟩
      · exact invariant.answered r old
    · obtain ⟨value, r, old, facts⟩ := invariant.taken h ip there
      exact ⟨value, r, .tail _ old, facts⟩
  | deliver host reply member =>
    refine ⟨invariant.asked, invariant.answered, fun h ip there => ?_⟩
    simp only at there
    split at there
    · rename_i accepts
      rcases List.mem_cons.mp there with new | old
      · cases new
        -- an ACK for another chaddr is ruled out
        have mine : chaddrAt reply = mac host := by
          by_contra foreign
          exact own ⟨accepts, foreign⟩
        have ack : messageType reply = dhcpAck := by
          rw [takes, Bool.and_eq_true, decide_eq_true_eq] at accepts
          exact accepts.2
        rw [dhcpRx_takes accepts]
        refine ⟨?_, reply, member, ack, mine, rfl⟩
        rw [(invariant.answered reply member).2, mine]
      · exact invariant.taken h ip old
    · exact invariant.taken h ip there

/-- From hosts in agreement, one step keeps the agreement exactly when no host accepts another's ACK. -/
theorem Step.agreed_iff (distinct : Function.Injective fun h => lease (mac h)) {n n' : Network H} {e : Event H}
    (invariant : Inv mac lease n) (taken : Step mac lease n e n') : Agreed mac n' ↔ ¬ ForeignAck mac e := by
  refine ⟨fun agreed foreign => ?_, fun own => (taken.inv invariant own).agreed distinct⟩
  cases taken with
  | discover | request | stop | answer => exact foreign
  | deliver host reply member =>
    obtain ⟨accepts, other⟩ := foreign
    obtain ⟨r, there, -, chaddr, yiaddr⟩ := agreed.acknowledged host _ (mem_adopted host accepts _ _)
    obtain ⟨⟨owner, owned⟩, leased⟩ := invariant.answered reply member
    -- the address belongs to the host that the ACK names
    rw [(invariant.answered r there).2, chaddr, leased, owned] at yiaddr
    have : host = owner := distinct yiaddr
    exact other (this ▸ owned)

/-- Over a whole run, hosts adopt different addresses, each acknowledged for its own chaddr, exactly
when no host accepts an ACK for another chaddr. -/
theorem run_agreed_iff (distinct : Function.Injective fun h => lease (mac h)) {clients : H → Client}
    {moves : List (Move (Network H) (Event H))} {n : Network H}
    (run : Run (Step mac lease) (start clients) moves n) :
    (∀ m ∈ moves, Agreed mac m.after) ↔ ∀ m ∈ moves, ¬ ForeignAck mac m.event :=
  run.good_iff (Inv mac lease) (fun _ e => ¬ ForeignAck mac e) (fun _ _ n' => Agreed mac n')
    (fun before own taken => Step.inv before own taken) (fun before taken => Step.agreed_iff distinct before taken)
    ⟨by simp [start], by simp [start], by simp [start]⟩

end Hosts

/-! ### Two hosts -/

/-- The hosts false and true. -/
def hostMac (h : Bool) : MacAddr := ⟨fun _ => if h then 2 else 1⟩

/-- A lease is the first bytes of the hardware address. -/
def hostLease (m : MacAddr) : Ipv4Addr := ⟨fun i => m.bytes (i.castLE (by decide))⟩

theorem hostLease_distinct : Function.Injective fun h => hostLease (hostMac h) := by
  decide

def serverPacket (type : UInt8) (m : MacAddr) : List UInt8 :=
  [2, 1, 6, 0] ++ bytes32 dhcpXid ++ List.replicate 8 0 ++ (hostLease m).toList ++ List.replicate 8 0 ++ m.toList ++
    List.replicate 202 0 ++ bytes32 dhcpMagic ++ [53, 1, type, 255] ++ List.replicate 308 0

@[simp] theorem serverPacket_chaddr (type : UInt8) (m : MacAddr) : chaddrAt (serverPacket type m) = m := by
  apply macAt_eq
  intro k
  fin_cases k <;> rfl

theorem serverPacket_yiaddr (type : UInt8) (m : MacAddr) : yiaddrAt (serverPacket type m) = hostLease m := by
  apply ipAt_eq
  intro k
  fin_cases k <;> rfl

theorem serverPacket_length (type : UInt8) (m : MacAddr) : (serverPacket type m).length = packetLen := by
  simp only [serverPacket, List.length_append, List.length_replicate]
  rfl

/-- The type that a packet of the server carries. -/
theorem serverPacket_type (type : UInt8) (m : MacAddr) : messageType (serverPacket type m) = type := by
  have option (i : Nat) : byteAt (serverPacket type m) (optionsAt + i) =
      byteAt ([53, 1, type, 255] ++ List.replicate 308 0) i := by
    rw [serverPacket, List.append_assoc _ [53, 1, type, 255]]
    exact byteAt_behind rfl i
  rw [messageType_first (serverPacket_length type m).ge (option 0) (option 1) (option 3)]
  exact option 2

theorem clientPacket_length (mac : MacAddr) {options : List UInt8} (room : options.length ≤ optionsLen) :
    (clientPacket mac options).length = packetLen := by
  simp only [clientPacket, List.length_append, List.length_replicate]
  show 240 + options.length + (312 - options.length) = 552
  rw [optionsLen] at room
  omega

theorem clientPacket_option (mac : MacAddr) (options : List UInt8) (i : Nat) :
    byteAt (clientPacket mac options) (optionsAt + i) =
      byteAt (options ++ List.replicate (optionsLen - options.length) 0) i := by
  rw [clientPacket, List.append_assoc _ options]
  exact byteAt_behind rfl i

theorem sendDiscover_type (mac : MacAddr) : messageType (sendDiscover mac) = dhcpDiscover := by
  have option := clientPacket_option mac [53, 1, dhcpDiscover, 255]
  rw [sendDiscover, messageType_first (clientPacket_length mac (by decide)).ge (option 0) (option 1) (option 3)]
  exact option 2

/-- The walk over a request passes the type and then the requested address. -/
theorem sendRequest_type (mac : MacAddr) (ip : Ipv4Addr) : messageType (sendRequest mac ip) = dhcpRequest := by
  have option := clientPacket_option mac ([53, 1, dhcpRequest, 50, 4] ++ ip.toList ++ [255])
  have type : byteAt (sendRequest mac ip) (optionsAt + 0) = 53 ∧ byteAt (sendRequest mac ip) (optionsAt + 1) = 1 ∧
      byteAt (sendRequest mac ip) (optionsAt + 2) = dhcpRequest := ⟨option 0, option 1, option 2⟩
  have address : byteAt (sendRequest mac ip) (optionsAt + 3) = 50 ∧ byteAt (sendRequest mac ip) (optionsAt + 4) = 4 ∧
      byteAt (sendRequest mac ip) (optionsAt + 9) = 255 := ⟨option 3, option 4, option 9⟩
  have length : (sendRequest mac ip).length = packetLen := by
    refine clientPacket_length mac ?_
    simp [Ipv4Addr.toList, optionsLen]
  have optsLen : min ((sendRequest mac ip).length - optionsAt) optionsLen = 309 + 1 + 1 + 1 := by
    rw [length]
    rfl
  rw [messageType, optsLen, optionLoop_option type.1 type.2.1 (by decide) (by decide)]
  calc
    _ = optionLoop (sendRequest mac ip) 312 311 3 dhcpRequest := by rw [← type.2.2]; rfl
    _ = optionLoop (sendRequest mac ip) 312 310 9 dhcpRequest :=
      optionLoop_option address.1 address.2.1 (by decide) (by decide)
    _ = dhcpRequest := optionLoop_end address.2.2

theorem offer_answers (m : MacAddr) : Answers hostLease (sendDiscover m) (serverPacket dhcpOffer m) where
  op := rfl
  xid := rfl
  chaddr := by rw [serverPacket_chaddr, sendDiscover, clientPacket_chaddr]
  yiaddr := by rw [serverPacket_yiaddr, sendDiscover, clientPacket_chaddr]
  type := .inl ⟨sendDiscover_type m, serverPacket_type dhcpOffer m⟩

theorem ack_answers (m : MacAddr) (ip : Ipv4Addr) : Answers hostLease (sendRequest m ip) (serverPacket dhcpAck m) where
  op := rfl
  xid := rfl
  chaddr := by rw [serverPacket_chaddr, sendRequest, clientPacket_chaddr]
  yiaddr := by rw [serverPacket_yiaddr, sendRequest, clientPacket_chaddr]
  type := .inr ⟨sendRequest_type m ip, serverPacket_type dhcpAck m⟩

theorem serverPacket_admitted (type : UInt8) (m : MacAddr) : admitted (serverPacket type m) = true := by
  have long : decide ((serverPacket type m).length ≥ packetLen) = true := by
    simp only [serverPacket_length, ge_iff_le, le_refl, decide_true]
  have op : opAt (serverPacket type m) = 2 := rfl
  have xid : xidAt (serverPacket type m) = dhcpXid := be32_bytes32 dhcpXid
  rw [admitted, long, op, xid]
  rfl

theorem serverPacket_takes (m : MacAddr) : takes (serverPacket dhcpAck m) = true := by
  rw [takes, serverPacket_admitted, serverPacket_type]
  rfl

def noOffer : Client := ⟨⟨fun _ => 0⟩, false, false, ⟨fun _ => 0⟩⟩

theorem offer_gotOffer (m : MacAddr) (c : Client) : (dhcpRx c (serverPacket dhcpOffer m)).gotOffer = true := by
  unfold dhcpRx
  rw [if_pos (serverPacket_admitted dhcpOffer m), serverPacket_type]
  rfl

/-- The host false asks for an address and the server acknowledges one. -/
theorem exchange : ∃ moves n, Run (Step hostMac hostLease) (start fun _ => noOffer) moves n ∧
    serverPacket dhcpAck (hostMac false) ∈ n.replies ∧ n.adopted = [] ∧ ∀ m ∈ moves, ¬ ForeignAck hostMac m.event := by
  refine ⟨_, _, .cons (.discover false rfl) (.cons (.answer (sendDiscover (hostMac false)) _ (.head _)
    (offer_answers (hostMac false))) (.cons (.deliver false _ (.head _)) (.cons (.request false rfl ?_) (.single (.answer _ _ (.head _) (ack_answers (hostMac false) _)))))),
    .head _, ?_, ?_⟩
  · simp only [Function.update_self]
    exact offer_gotOffer (hostMac false) _
  · have offer : takes (serverPacket dhcpOffer (hostMac false)) = false := by
      rw [takes, serverPacket_type]
      exact Bool.and_false _
    rw [offer]
    rfl
  · intro m member
    simp only [List.mem_cons, List.not_mem_nil, or_false] at member
    rcases member with rfl | rfl | rfl | rfl | rfl
    · exact id
    · exact id
    · exact fun foreign => foreign.2 (serverPacket_chaddr _ _)
    · exact id
    · exact id

/-- The host that asked takes its own ACK. -/
theorem own_ack_agreed : ∃ moves n, Run (Step hostMac hostLease) (start fun _ => noOffer) moves n ∧ n.adopted ≠ [] ∧
    ∀ m ∈ moves, Agreed hostMac m.after := by
  obtain ⟨moves, n, run, member, -, own⟩ := exchange
  have whole := run.append (.single (.deliver false _ member))
  refine ⟨_, _, whole, ?_, (run_agreed_iff hostLease_distinct whole).mpr fun m there => ?_⟩
  · simp only [serverPacket_takes, ↓reduceIte]
    exact List.cons_ne_nil _ _
  · rcases List.mem_append.mp there with before | last
    · exact own m before
    · cases List.mem_singleton.mp last
      exact fun foreign => foreign.2 (serverPacket_chaddr _ _)

/-- The broadcast ACK reaches both hosts, and both take the address over. -/
theorem foreign_ack_adopted : ∃ moves n, Run (Step hostMac hostLease) (start fun _ => noOffer) moves n ∧
    (∃ ip, (false, ip) ∈ n.adopted ∧ (true, ip) ∈ n.adopted) ∧ ¬ ∀ m ∈ moves, Agreed hostMac m.after := by
  obtain ⟨moves, n, run, member, -, -⟩ := exchange
  have whole := run.append (.cons (.deliver false _ member) (.single (.deliver true _ member)))
  have accepts := serverPacket_takes (hostMac false)
  have own := mem_adopted false accepts (n.clients false) n.adopted
  generalize serverPacket dhcpAck (hostMac false) = ack at whole accepts own
  have foreign := mem_adopted true accepts
  refine ⟨_, _, whole, ⟨yiaddrAt ack, ?_, foreign _ _⟩, fun agreed => ?_⟩
  · simp only [accepts, ↓reduceIte] at own ⊢
    exact .tail _ own
  · have last := agreed _ (List.mem_append_right _ (.tail _ (.head _)))
    refine absurd (last.apart false true (yiaddrAt ack) ?_ (foreign _ _)) (by decide)
    simp only [accepts, ↓reduceIte] at own ⊢
    exact .tail _ own

end ChrisOS.Net.Dhcp
