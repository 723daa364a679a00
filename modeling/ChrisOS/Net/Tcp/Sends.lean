import ChrisOS.Net.Tcp.Demux
import ChrisOS.Net.Emission

/-! What tcp_send returns, what it puts on the wire and how far it moves the sequence number. -/

set_option autoImplicit false

namespace ChrisOS.Net.Tcp
open ChrisOS.Lib

/-- The data bytes of segments, in the order they were sent. -/
def carried (sent : List Outgoing) : List UInt8 := sent.flatMap Outgoing.data

@[simp] theorem carried_nil : carried [] = [] := rfl

theorem carried_append (first second : List Outgoing) : carried (first ++ second) = carried first ++ carried second :=
  List.flatMap_append

@[simp] theorem carried_singleton (o : Outgoing) : carried [o] = o.data := List.flatMap_singleton _ _

/-- A call of tcp_send returns the number of bytes it put on the wire, and seq moves on by as many. -/
structure Counted (myIp : Ipv4Addr) (s : Socket) (data : List UInt8) : Prop where
  returned : (tcpSend myIp s data).2.2 = (carried (tcpSend myIp s data).2.1).length
  advanced : (tcpSend myIp s data).1.seq = s.seq + UInt32.ofNat (carried (tcpSend myIp s data).2.1).length

/-- What a call on an established socket does. -/
theorem tcpSend_established (myIp : Ipv4Addr) {s : Socket} (established : s.state = .established) (data : List UInt8) :
    tcpSend myIp s data =
      ({ s with seq := s.seq + UInt32.ofNat data.length }, [tcpSendFlags myIp s flagAck data], (data.length : Int)) :=
  if_neg (not_not_intro established)

theorem tcpSend_other (myIp : Ipv4Addr) {s : Socket} (other : s.state ≠ .established) (data : List UInt8) :
    tcpSend myIp s data = (s, [], -1) := if_pos other

theorem tcpSendFlags_data (myIp : Ipv4Addr) (s : Socket) (flags : UInt8) (data : List UInt8) :
    (tcpSendFlags myIp s flags data).data = data.take maxPayload := rfl

/-- Every segment goes out whole, in one packet. -/
theorem segment_packets (h : Ipv4.Host) (later : MacAddr) (s : Socket) (flags : UInt8) (data : List UInt8) :
    Emission.packets (Ipv4.ipv4Send h later s.remoteIp Ipv4.protoTcp (tcpSendFlags h.node.ip s flags data).bytes).2 =
      [(Ipv4.sendHeader h s.remoteIp Ipv4.protoTcp (tcpSendFlags h.node.ip s flags data).bytes.length).encode ++
        (tcpSendFlags h.node.ip s flags data).bytes] := by
  have sizes : hdrLen + maxPayload + Ipv4.hdrLen ≤ Ipv4.bufSize := by decide
  apply Emission.packets_ipv4Send
  rw [Outgoing.bytes, List.length_append, Header.length_encode, tcpSendFlags_data, List.length_take]
  omega

/-- A call is counted exactly when its data fit one segment. -/
theorem counted_iff (myIp : Ipv4Addr) {s : Socket} (established : s.state = .established) (data : List UInt8) :
    Counted myIp s data ↔ data.length ≤ maxPayload := by
  have sent := tcpSend_established myIp established data
  constructor
  · intro counted
    have returned := counted.returned
    rw [sent, carried_singleton, tcpSendFlags_data, List.length_take] at returned
    have same : data.length = min maxPayload data.length := Int.ofNat_inj.mp returned
    omega
  · intro short
    have whole := List.take_of_length_le short
    constructor
    · rw [sent, carried_singleton, tcpSendFlags_data, whole]
    · rw [sent, carried_singleton, tcpSendFlags_data, whole]

/-! ### Many calls -/

/-- The sockets, the data segments that tcp_send has sent on one of them, and the bytes it has accepted there. -/
structure Outbox where
  table : Table
  sent : List Outgoing
  accepted : List UInt8

inductive OutboxEvent where
  | send (data : List UInt8)
  | recv (maxLen : Nat)
  | close
  /-- Any segment arrives. -/
  | segment (src : Ipv4Addr) (payload : List UInt8)
  /-- Something is done to other sockets. -/
  | elsewhere

inductive OutboxStep (myIp : Ipv4Addr) (i : Fin maxSockets) : Outbox → OutboxEvent → Outbox → Prop where
  | send {y : Outbox} {data : List UInt8} : data.length < 2 ^ 16 →
      OutboxStep myIp i y (.send data)
        { table := y.table.set i (tcpSend myIp (y.table.sockets i) data).1
          sent := y.sent ++ (tcpSend myIp (y.table.sockets i) data).2.1
          accepted := y.accepted ++ data.take (tcpSend myIp (y.table.sockets i) data).2.2.toNat }
  | recv {y : Outbox} (maxLen : Nat) :
      OutboxStep myIp i y (.recv maxLen) { y with table := y.table.set i (tcpRecv (y.table.sockets i) maxLen).1 }
  | close {y : Outbox} :
      OutboxStep myIp i y .close { y with table := y.table.set i (tcpClose myIp (y.table.sockets i)).1 }
  | segment {y : Outbox} (src : Ipv4Addr) (payload : List UInt8) :
      OutboxStep myIp i y (.segment src payload) { y with table := (tcpHandle myIp y.table src payload).1 }
  | elsewhere {y : Outbox} {table : Table} : table.sockets i = y.table.sockets i →
      OutboxStep myIp i y .elsewhere { y with table := table }

/-- Each segment starts where the one before it ends, the first at a given sequence number. -/
def Contiguous (start : UInt32) : List Outgoing → Prop
  | [] => True
  | o :: rest => o.header.seq = start ∧ Contiguous (start + UInt32.ofNat o.data.length) rest

/-- The segments carry the accepted bytes, with no gap and no overlap. -/
structure Covers (start : UInt32) (y : Outbox) : Prop where
  bytes : carried y.sent = y.accepted
  numbers : Contiguous start y.sent

/-- A call on the established socket has data that fit one segment. -/
def FitsSegment (i : Fin maxSockets) (y : Outbox) (e : OutboxEvent) : Prop :=
  ∀ data, e = .send data → (y.table.sockets i).state = .established → data.length ≤ maxPayload

structure OutboxInv (i : Fin maxSockets) (start : UInt32) (y : Outbox) : Prop where
  covers : Covers start y
  seq : (y.table.sockets i).seq = start + UInt32.ofNat y.accepted.length
  opened : (y.table.sockets i).state ≠ .synSent

theorem contiguous_append {start : UInt32} {first second : List Outgoing} : Contiguous start (first ++ second) ↔
    Contiguous start first ∧ Contiguous (start + UInt32.ofNat (carried first).length) second := by
  induction first generalizing start with
  | nil =>
    have zero : start + UInt32.ofNat (carried []).length = start := UInt32.add_zero start
    rw [List.nil_append, zero]
    exact (and_iff_right trivial).symm
  | cons o rest ih =>
    have length : UInt32.ofNat (carried (o :: rest)).length = UInt32.ofNat o.data.length + UInt32.ofNat (carried rest).length := by
      rw [carried, List.flatMap_cons, List.length_append, UInt32.ofNat_add]
      rfl
    rw [List.cons_append, Contiguous, Contiguous, ih, length, UInt32.add_assoc, and_assoc]

/-- No segment brings a socket into SYN_SENT, and only there a segment changes its sequence number. -/
theorem tcpHandle_opened (myIp : Ipv4Addr) {t : Table} (src : Ipv4Addr) (payload : List UInt8) {i : Fin maxSockets}
    (opened : (t.sockets i).state ≠ .synSent) : ((tcpHandle myIp t src payload).1.sockets i).state ≠ .synSent ∧
      ((tcpHandle myIp t src payload).1.sockets i).seq = (t.sockets i).seq := by
  rcases tcpHandle_socket_cases myIp t src payload i with same | ⟨h, data, -, found, served⟩
  · rw [same]
    exact ⟨opened, rfl⟩
  · have live := (listens_iff.mp (first_hit found)).2
    rw [served]
    refine ⟨?_, dispatch_seq myIp _ src h data opened⟩
    rcases dispatch_moves myIp _ src h data live with same | ⟨waiting, -⟩ | ⟨-, closed⟩
    · rw [same]
      exact opened
    · exact absurd waiting opened
    · rw [closed]
      exact State.noConfusion

/-- What leaves the sequence number alone and sends nothing keeps the invariant. -/
theorem OutboxInv.moved {i : Fin maxSockets} {start : UInt32} {y : Outbox} (invariant : OutboxInv i start y) {table : Table}
    (seq : (table.sockets i).seq = (y.table.sockets i).seq) (opened : (table.sockets i).state ≠ .synSent) :
    OutboxInv i start { y with table := table } :=
  ⟨⟨invariant.covers.bytes, invariant.covers.numbers⟩, seq.trans invariant.seq, opened⟩

theorem OutboxStep.inv {myIp : Ipv4Addr} {i : Fin maxSockets} {start : UInt32} {y y' : Outbox} {e : OutboxEvent}
    (invariant : OutboxInv i start y) (fits : FitsSegment i y e) (taken : OutboxStep myIp i y e y') :
    OutboxInv i start y' := by
  have opened := invariant.opened
  cases taken with
  | @send data _ =>
    by_cases established : (y.table.sockets i).state = .established
    · obtain ⟨covers, seq, -⟩ := invariant
      have whole := List.take_of_length_le (fits data rfl established)
      rw [tcpSend_established myIp established data]
      refine ⟨⟨?_, ?_⟩, ?_, ?_⟩
      · rw [carried_append, covers.bytes, carried_singleton, tcpSendFlags_data, whole, Int.toNat_natCast, List.take_length]
      · rw [contiguous_append, covers.bytes]
        exact ⟨covers.numbers, seq, trivial⟩
      · simp only [set_self]
        rw [seq, Int.toNat_natCast, List.take_length, List.length_append, UInt32.ofNat_add, UInt32.add_assoc]
      · simp only [set_self]
        exact opened
    · -- the call is refused
      have same := set_same y.table i
      rw [tcpSend_other myIp established data]
      simpa [same] using invariant
  | recv maxLen =>
    apply invariant.moved
    · rw [set_self]
      rfl
    · rw [set_self]
      exact opened
  | close =>
    apply invariant.moved
    · rw [set_self]
      rfl
    · rw [set_self]
      exact State.noConfusion
  | segment src payload =>
    obtain ⟨state, number⟩ := tcpHandle_opened myIp src payload opened
    exact invariant.moved number state
  | elsewhere same =>
    apply invariant.moved
    · rw [same]
    · rw [same]
      exact opened

/-- A call with more data accepts bytes that no segment carries. -/
theorem OutboxStep.covers_iff {myIp : Ipv4Addr} {i : Fin maxSockets} {start : UInt32} {y y' : Outbox}
    {e : OutboxEvent} (invariant : OutboxInv i start y) (taken : OutboxStep myIp i y e y') :
    Covers start y' ↔ FitsSegment i y e := by
  refine ⟨fun covers data same established => ?_, fun fits => (taken.inv invariant fits).covers⟩
  cases taken with
  | send =>
    cases same
    have bytes := covers.bytes
    rw [tcpSend_established myIp established data, carried_append, invariant.covers.bytes, carried_singleton,
      tcpSendFlags_data, Int.toNat_natCast, List.take_length] at bytes
    exact (List.take_eq_self_iff _).mp (List.append_cancel_left bytes)
  | recv => cases same
  | close => cases same
  | segment => cases same
  | elsewhere => cases same

/-- tcp_send on an established socket counts the bytes it puts on the wire exactly when they fit one segment, which
goes out in one packet; and over a run of calls and of anything else short of a new connection, what was accepted
is covered after every step exactly when this holds of every call. -/
theorem sends_covered_iff (myIp : Ipv4Addr) :
    (∀ s data, s.state = .established → (Counted myIp s data ↔ data.length ≤ maxPayload)) ∧
    (∀ h later s flags data,
      Emission.packets (Ipv4.ipv4Send h later s.remoteIp Ipv4.protoTcp (tcpSendFlags h.node.ip s flags data).bytes).2 =
        [(Ipv4.sendHeader h s.remoteIp Ipv4.protoTcp (tcpSendFlags h.node.ip s flags data).bytes.length).encode ++
          (tcpSendFlags h.node.ip s flags data).bytes]) ∧
    ∀ i t moves y, (t.sockets i).state = .established → Run (OutboxStep myIp i) ⟨t, [], []⟩ moves y →
      ((∀ m ∈ moves, Covers (t.sockets i).seq m.after) ↔ ∀ m ∈ moves, FitsSegment i m.before m.event) := by
  refine ⟨fun s data established => counted_iff myIp established data, segment_packets,
    fun i t moves y established run => ?_⟩
  refine run.good_iff (OutboxInv i (t.sockets i).seq) (FitsSegment i) (fun _ _ y' => Covers (t.sockets i).seq y')
    (fun before fits taken => OutboxStep.inv before fits taken) (fun before taken => OutboxStep.covers_iff before taken) ?_
  refine ⟨⟨rfl, trivial⟩, (UInt32.add_zero _).symm, ?_⟩
  rw [established]
  exact State.noConfusion

/-- A call with 1441 bytes returns 1441 and sends 1440. -/
theorem tcpSend_miscounts : ¬ ∀ myIp s (data : List UInt8), s.state = .established → data.length < 2 ^ 16 →
    Counted myIp s data := by
  intro counted
  have long : (List.replicate 1441 (0 : UInt8)).length = 1441 := List.length_replicate
  have short := (counted_iff (addr 10 0 2 15) connectedTable_state _).mp
    (counted (addr 10 0 2 15) (connectedTable.sockets 0) (List.replicate 1441 0) connectedTable_state (by rw [long]; decide))
  rw [long] at short
  exact absurd short (by decide)

end ChrisOS.Net.Tcp
