import ChrisOS.Net.Dhcp

/-! One host's calls of dhcp_request, and datagrams that reach dhcp_rx at any time.

dhcp_rx runs wherever frames are polled, in no phase or in any; the flags say what has
arrived, not what is waited for.
-/

set_option autoImplicit false

namespace ChrisOS.Net.Dhcp
open ChrisOS.Lib

/-- The client, where it is in dhcp_request and the DHCPREQUEST it sent last. -/
structure Host where
  mac : MacAddr
  client : Client
  phase : Phase
  request : List UInt8

inductive Act where
  | call
  /-- The first wait is over with an offer: the request goes out. -/
  | proceed
  /-- dhcp_request returns, after a timeout or with its ACK. -/
  | stop
  | deliver (d : List UInt8)

def Host.next (s : Host) : Act → Option Host
  | .call => if s.phase = .idle then some { s with client := begin s.client, phase := .waitOffer } else none
  | .proceed =>
    if s.phase = .waitOffer ∧ s.client.gotOffer = true then
      some { s with phase := .waitAck, request := sendRequest s.mac s.client.offeredIp }
    else none
  | .stop =>
    if s.phase = .waitOffer ∧ s.client.gotOffer = false ∨ s.phase = .waitAck then some { s with phase := .idle } else none
  | .deliver d => some { s with client := dhcpRx s.client d }

theorem Host.next_proceed {s : Host} (waits : s.phase = .waitOffer) (offered : s.client.gotOffer = true) :
    s.next .proceed = some { s with phase := .waitAck, request := sendRequest s.mac s.client.offeredIp } :=
  if_pos ⟨waits, offered⟩

/-- The value of option 50 as send_request lays it out. -/
def requestedIp (request : List UInt8) : Ipv4Addr := ipAt request (optionsAt + 5)

theorem requestedIp_sendRequest (mac : MacAddr) (ip : Ipv4Addr) : requestedIp (sendRequest mac ip) = ip := by
  have option := clientPacket_option mac ([53, 1, dhcpRequest, 50, 4] ++ ip.toList ++ [255])
  apply ipAt_eq
  intro k
  rw [Nat.add_assoc, sendRequest, option]
  fin_cases k <;> rfl

/-- The host waits for its ACK, and the address is the one of its DHCPREQUEST. -/
def Awaited (s : Host) (ip : Ipv4Addr) : Prop := s.phase = .waitAck ∧ ip = requestedIp s.request

/-- What the move may do to the host's address. -/
def AddressKept (s t : Host) : Prop := t.client.myIp ≠ s.client.myIp → Awaited s t.client.myIp

/-- An ACK that dhcp_rx accepts is awaited, or it repeats the address the host has. -/
def Expected (s : Host) : Act → Prop
  | .deliver d => takes d = true → yiaddrAt d = s.client.myIp ∨ Awaited s (yiaddrAt d)
  | _ => True

/-- What a move does to the address. -/
theorem Host.next_myIp {s t : Host} {a : Act} (taken : s.next a = some t) :
    (∃ d, a = .deliver d ∧ takes d = true ∧ t.client.myIp = yiaddrAt d) ∨
      (∀ d, a = .deliver d → takes d = false) ∧ t.client.myIp = s.client.myIp := by
  cases a with
  | call | proceed | stop =>
    rw [next] at taken
    split at taken
    · cases taken
      exact .inr ⟨nofun, rfl⟩
    · cases taken
  | deliver d =>
    rw [next] at taken
    cases taken
    by_cases accepts : takes d = true
    · exact .inl ⟨d, rfl, accepts, dhcpRx_takes accepts⟩
    · rw [Bool.not_eq_true] at accepts
      exact .inr ⟨fun other same => Act.deliver.inj same ▸ accepts, dhcpRx_keeps accepts⟩

theorem Host.next_keeps_iff {s t : Host} {a : Act} (taken : s.next a = some t) : AddressKept s t ↔ Expected s a := by
  rcases next_myIp taken with ⟨d, rfl, accepts, adopted⟩ | ⟨refused, same⟩
  · rw [AddressKept, adopted]
    constructor
    · intro kept _
      by_cases repeats : yiaddrAt d = s.client.myIp
      · exact .inl repeats
      · exact .inr (kept repeats)
    · intro expected changed
      exact (expected accepts).resolve_left changed
  · refine iff_of_true (fun changed => absurd same changed) ?_
    cases a with
    | call | proceed | stop => trivial
    | deliver d =>
      intro accepts
      rw [refused d rfl] at accepts
      cases accepts

/-- Over a whole run the address changes only while the host waits for its ACK, and only to what its
DHCPREQUEST asks for, exactly when every ACK that is accepted is awaited or repeats the address. -/
theorem run_address_iff {s t : Host} {moves : List (Move Host Act)}
    (run : Run (fun s a t => s.next a = some t) s moves t) :
    (∀ m ∈ moves, AddressKept m.before m.after) ↔ ∀ m ∈ moves, Expected m.before m.event :=
  run.good_iff (fun _ => True) Expected (fun s _ t => AddressKept s t) (fun _ _ _ => trivial)
    (fun _ taken => Host.next_keeps_iff taken) trivial

/-- A server that acknowledges what it offered gives the host the address, and its ACK is awaited. -/
theorem transaction {s : Host} {offer ack : List UInt8} (idle : s.phase = .idle) (accepted : admitted offer = true)
    (offers : messageType offer = dhcpOffer) (acks : takes ack = true) (same : yiaddrAt ack = yiaddrAt offer) :
    ∃ moves t, Run (fun s a t => Host.next s a = some t) s moves t ∧ t.client.myIp = yiaddrAt offer ∧
      ∀ m ∈ moves, Expected m.before m.event := by
  have offered (c : Client) : (dhcpRx c offer).gotOffer = true ∧ (dhcpRx c offer).offeredIp = yiaddrAt offer := by
    unfold dhcpRx
    rw [if_pos accepted, offers]
    exact ⟨rfl, rfl⟩
  have called : s.next .call = some _ := if_pos idle
  refine ⟨_, _, .cons called (.cons (e := .deliver offer) rfl (.cons (Host.next_proceed rfl (offered _).1)
    (.single (e := .deliver ack) rfl))), (dhcpRx_takes acks).trans same, fun m member => ?_⟩
  simp only [List.mem_cons, List.not_mem_nil, or_false] at member
  rcases member with rfl | rfl | rfl | rfl
  · trivial
  · intro accepts
    rw [takes, offers, Bool.and_eq_true] at accepts
    exact absurd accepts.2 (by decide)
  · trivial
  · refine fun _ => .inr ⟨rfl, ?_⟩
    rw [same, requestedIp_sendRequest, (offered _).2]

/-! ### One host and its server -/

def idleHost : Host := ⟨hostMac false, noOffer, .idle, []⟩

theorem run_address_one_transaction : ∃ moves t, Run (fun s a t => Host.next s a = some t) idleHost moves t ∧
    t.client.myIp = hostLease (hostMac false) ∧ ∀ m ∈ moves, AddressKept m.before m.after := by
  obtain ⟨moves, t, run, adopted, expected⟩ := transaction (s := idleHost) rfl
    (serverPacket_admitted dhcpOffer (hostMac false)) (serverPacket_type _ _) (serverPacket_takes (hostMac false))
    ((serverPacket_yiaddr _ _).trans (serverPacket_yiaddr _ _).symm)
  rw [serverPacket_yiaddr] at adopted
  exact ⟨moves, t, run, adopted, (run_address_iff run).mpr expected⟩

/-- An ACK that nobody waits for gives an idle host a new address. -/
theorem unasked_ack_adopted : ∃ moves t, Run (fun s a t => Host.next s a = some t) idleHost moves t ∧
    ¬ ∀ m ∈ moves, AddressKept m.before m.after := by
  refine ⟨_, _, .single (e := .deliver (serverPacket dhcpAck (hostMac false))) rfl, fun kept => ?_⟩
  have changed : (dhcpRx noOffer (serverPacket dhcpAck (hostMac false))).myIp ≠ noOffer.myIp := by
    rw [dhcpRx_takes (serverPacket_takes _), serverPacket_yiaddr]
    decide
  exact absurd (kept _ (.head _) changed).1 (by decide)

end ChrisOS.Net.Dhcp
