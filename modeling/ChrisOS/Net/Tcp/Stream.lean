import ChrisOS.Net.Tcp.Demux
import ChrisOS.Lib.Run

/-! The bytes of one established connection: what the peer sends, what tcp_handle
stores and acknowledges, and what tcp_recv returns.

The receive buffer is a ring of 4096 slots, so 4095 bytes can wait unread.
-/

set_option autoImplicit false

namespace ChrisOS.Net.Tcp
open ChrisOS.Lib

/-- Socket i is established, and is the one that segments for its local port are handed to. -/
structure Connected (t : Table) (i : Fin maxSockets) : Prop where
  established : (t.sockets i).state = .established
  picked : t.first (·.listens (t.sockets i).localPort) = some i

/-- A data segment for the connection of a socket, with no flag that ends it. -/
structure DataSegment (s : Socket) (payload : List UInt8) (h : Header) (data : List UInt8) : Prop where
  parsed : parse payload = some (h, data)
  fromPort : h.srcPort = s.remotePort
  toPort : h.dstPort = s.localPort
  noRst : h.flags &&& flagRst = 0
  noFin : h.flags &&& flagFin = 0

/-- The socket after data that ends before sequence number `ack`. -/
def Socket.took (s : Socket) (data : List UInt8) (ack : UInt32) : Socket :=
  { s.withRing (s.ring.pushAll data) with ack := ack }

/-- The unread bytes: what one tcp_recv call for the whole buffer returns. -/
def unread (s : Socket) : List UInt8 := (tcpRecv s rxSize).2

theorem unread_eq (s : Socket) : unread s = s.ring.contents := by
  have := (Ring.takeUpTo_eq rxSize s.ring).1
  rw [unread, tcpRecv, this, List.take_of_length_le]
  rw [Ring.length_contents]
  exact Nat.le_of_lt s.ring.count_lt

/-- Every byte a tcp_recv call returns comes off the front of the unread bytes. -/
theorem tcpRecv_eq (s : Socket) (maxLen : Nat) :
    (tcpRecv s maxLen).2 ++ unread (tcpRecv s maxLen).1 = unread s := by
  obtain ⟨taken, left⟩ := Ring.takeUpTo_eq maxLen s.ring
  rw [unread_eq, unread_eq]
  have rest : (tcpRecv s maxLen).1.ring = (Ring.takeUpTo maxLen s.ring).2 := rfl
  rw [rest, left, tcpRecv, taken, List.take_append_drop]

theorem took_unread {s : Socket} {data : List UInt8} (ack : UInt32)
    (room : (unread s).length + data.length < rxSize) : unread (s.took data ack) = unread s ++ data := by
  rw [unread_eq, unread_eq] at *
  rw [Ring.length_contents] at room
  exact Ring.contents_pushAll s.ring data room

theorem took_unread_length (s : Socket) (data : List UInt8) (ack : UInt32) :
    (unread (s.took data ack)).length = ((unread s).length + data.length) % rxSize := by
  rw [unread_eq, unread_eq, Ring.length_contents, Ring.length_contents]
  exact Ring.count_pushAll s.ring data

/-- A segment for the local port of a connection goes to its socket, whoever sends it. -/
theorem Connected.tcpHandle (myIp : Ipv4Addr) {t : Table} {i : Fin maxSockets} (connected : Connected t i)
    (src : Ipv4Addr) {payload : List UInt8} {h : Header} {data : List UInt8} (parsed : parse payload = some (h, data))
    (toPort : h.dstPort = (t.sockets i).localPort) :
    Tcp.tcpHandle myIp t src payload =
      (t.set i (onEstablished myIp (t.sockets i) h data).1, (onEstablished myIp (t.sockets i) h data).2) := by
  have found : t.first (·.listens h.dstPort) = some i := by
    rw [toPort]
    exact connected.picked
  have other : (t.sockets i).state ≠ .synSent := by
    rw [connected.established]
    exact State.noConfusion
  rw [tcpHandle_socket myIp src parsed found, dispatch, if_neg other]

/-- What a data segment does to its connection. -/
theorem tcpHandle_data (myIp : Ipv4Addr) {t : Table} {i : Fin maxSockets} (connected : Connected t i)
    {payload : List UInt8} {h : Header} {data : List UInt8} (segment : DataSegment (t.sockets i) payload h data) :
    tcpHandle myIp t (t.sockets i).remoteIp payload =
      if data = [] then (t, [])
      else
        (t.set i ((t.sockets i).took data (h.seq + UInt32.ofNat data.length)),
          [tcpSendFlags myIp ((t.sockets i).took data (h.seq + UInt32.ofNat data.length)) flagAck []]) := by
  rw [connected.tcpHandle myIp _ segment.parsed segment.toPort, onEstablished, if_neg (not_not_intro segment.noRst),
    if_neg (not_not_intro segment.noFin)]
  by_cases empty : data = []
  · subst empty
    simp [Table.set]
  · have : data.length > 0 := List.length_pos_iff.mpr empty
    rw [if_pos this, if_neg empty]
    rfl

/-- Socket changes that leave the ports and the state alone keep the connection. -/
theorem Connected.set {t : Table} {i : Fin maxSockets} (connected : Connected t i) {s : Socket}
    (state : s.state = (t.sockets i).state) (port : s.localPort = (t.sockets i).localPort) :
    Connected (t.set i s) i := by
  refine ⟨?_, ?_⟩
  · rw [set_self, state]
    exact connected.established
  · rw [set_self, port, first_set]
    · exact connected.picked
    · simp [Socket.listens, state, port]

theorem tcpSendFlags_ack (myIp : Ipv4Addr) (s : Socket) (data : List UInt8) :
    (tcpSendFlags myIp s flagAck data).header.ack = s.ack := rfl

/-! ### Any network -/

/-- The socket table and all bytes returned by tcp_recv so far. -/
structure Session where
  table : Table
  received : List UInt8

inductive SessionEvent where
  /-- A segment arrives, with the offset of its data in the peer's stream. -/
  | segment (offset : Nat) (payload : List UInt8)
  | recv (maxLen : Nat)

/-- Segments of a stream whose first byte has sequence number `start`, cut anywhere, arriving in any
order and any number of times. -/
inductive SessionStep (myIp : Ipv4Addr) (i : Fin maxSockets) (stream : List UInt8) (start : UInt32) :
    Session → SessionEvent → Session → Prop where
  | segment {y : Session} {offset : Nat} {payload : List UInt8} {h : Header} {data : List UInt8} :
      DataSegment (y.table.sockets i) payload h data → h.seq = start + UInt32.ofNat offset →
      data <+: stream.drop offset →
      SessionStep myIp i stream start y (.segment offset payload)
        { y with table := (tcpHandle myIp y.table (y.table.sockets i).remoteIp payload).1 }
  | recv {y : Session} (maxLen : Nat) :
      SessionStep myIp i stream start y (.recv maxLen)
        { table := y.table.set i (tcpRecv (y.table.sockets i) maxLen).1
          received := y.received ++ (tcpRecv (y.table.sockets i) maxLen).2 }

/-- The data of a segment are the next bytes of the stream after those stored so far, as when it starts
where they end, and leave a slot of the buffer free. -/
def Continues (i : Fin maxSockets) (stream : List UInt8) (y : Session) (e : SessionEvent) : Prop :=
  ∀ offset payload h data, e = .segment offset payload → parse payload = some (h, data) → data ≠ [] →
    data <+: stream.drop (y.received.length + (unread (y.table.sockets i)).length) ∧
      (unread (y.table.sockets i)).length + data.length < rxSize

structure SessionInv (i : Fin maxSockets) (stream : List UInt8) (y : Session) : Prop where
  connected : Connected y.table i
  stored : y.received ++ unread (y.table.sockets i) <+: stream

theorem SessionStep.inv {myIp : Ipv4Addr} {i : Fin maxSockets} {stream : List UInt8} {start : UInt32}
    {y y' : Session} {e : SessionEvent} (invariant : SessionInv i stream y) (continues : Continues i stream y e)
    (taken : SessionStep myIp i stream start y e y') : SessionInv i stream y' := by
  obtain ⟨connected, stored⟩ := invariant
  cases taken with
  | @segment offset payload h data segment _ _ =>
    have handled := tcpHandle_data myIp connected segment
    by_cases empty : data = []
    · rw [if_pos empty] at handled
      rw [handled]
      exact ⟨connected, stored⟩
    · rw [if_neg empty] at handled
      obtain ⟨⟨after, rest⟩, room⟩ := continues offset payload h data rfl segment.parsed empty
      rw [handled]
      refine ⟨connected.set rfl rfl, ?_⟩
      simp only [set_self]
      rw [took_unread _ room, ← List.append_assoc]
      -- what was stored is the stream up to where the data start
      refine ⟨after, ?_⟩
      rw [List.append_assoc, rest, ← List.length_append]
      nth_rewrite 1 [List.prefix_iff_eq_take.mp stored]
      exact List.take_append_drop _ _
  | recv maxLen =>
    refine ⟨connected.set rfl rfl, ?_⟩
    simp only [set_self]
    rw [List.append_assoc, tcpRecv_eq]
    exact stored

/-- What tcp_recv has returned is a prefix of the peer's stream at every moment of every run whose
data segments each continue the bytes stored before them and fit the buffer. -/
theorem received_prefix {myIp : Ipv4Addr} {t : Table} {i : Fin maxSockets} {stream : List UInt8} {start : UInt32}
    (connected : Connected t i) (empty : unread (t.sockets i) = []) {moves : List (Move Session SessionEvent)}
    {y : Session} (run : Run (SessionStep myIp i stream start) ⟨t, []⟩ moves y)
    (continues : ∀ m ∈ moves, Continues i stream m.before m.event) :
    y.received <+: stream ∧ ∀ m ∈ moves, m.after.received <+: stream := by
  have first : SessionInv i stream ⟨t, []⟩ := by
    refine ⟨connected, ?_⟩
    simp only [empty]
    exact List.nil_prefix
  obtain ⟨final, between⟩ := run.keeps (SessionInv i stream) (Continues i stream)
    (fun before fits taken => SessionStep.inv before fits taken) first continues
  have returned {z : Session} (invariant : SessionInv i stream z) : z.received <+: stream :=
    (List.prefix_append _ _).trans invariant.stored
  exact ⟨returned final, fun m member => returned (between m member).2⟩

theorem connectedTable_connected : Connected connectedTable 0 := ⟨rfl, rfl⟩

theorem connectedTable_unread : unread (connectedTable.sockets 0) = [] := rfl

/-- One data byte of a stream that starts at sequence number 8, for the connection of connectedTable. -/
def byteSegment (offset : Nat) (b : UInt8) : List UInt8 :=
  (Header.mk 80 49152 (8 + UInt32.ofNat offset) 0xABCD1235 0x50 flagAck 4096 0 0).encode ++ [b]

theorem byteSegment_data {t : Table} (remote : (t.sockets 0).remotePort = 80)
    (own : (t.sockets 0).localPort = 49152) (offset : Nat) (b : UInt8) : DataSegment (t.sockets 0) (byteSegment offset b)
      (Header.mk 80 49152 (8 + UInt32.ofNat offset) 0xABCD1235 0x50 flagAck 4096 0 0) [b] :=
  ⟨parse_encode _ _ rfl, remote.symm, own.symm, show flagAck &&& flagRst = 0 by decide,
    show flagAck &&& flagFin = 0 by decide⟩

theorem received_prefix_one_byte : ∃ moves y,
    Run (SessionStep (addr 10 0 2 15) 0 [1, 2] 8) ⟨connectedTable, []⟩ moves y ∧ y.received = [1] ∧
      y.received <+: [1, 2] ∧ ∀ m ∈ moves, m.after.received <+: [1, 2] := by
  refine ⟨_, _, .cons (.segment (byteSegment_data rfl rfl 0 1) rfl (by decide)) (.single (.recv 10)), rfl, ?_⟩
  refine received_prefix connectedTable_connected connectedTable_unread
    (.cons (.segment (byteSegment_data rfl rfl 0 1) rfl (by decide)) (.single (.recv 10))) ?_
  rw [List.forall_mem_cons, List.forall_mem_singleton]
  refine ⟨fun offset payload h data same parsed _ => ?_, fun offset payload h data same => ?_⟩
  · cases same
    cases (parse_encode _ [1] rfl).symm.trans parsed
    rw [connectedTable_unread]
    decide
  · cases same

/-- The first byte arrives twice, as after a lost ACK: tcp_recv returns it twice. -/
theorem retransmission_repeats : ∃ moves y,
    Run (SessionStep (addr 10 0 2 15) 0 [1, 2] 8) ⟨connectedTable, []⟩ moves y ∧
      moves.map Move.event = [.segment 0 (byteSegment 0 1), .segment 0 (byteSegment 0 1), .recv 10] ∧
      y.received = [1, 1] ∧ ¬ y.received <+: [1, 2] := by
  refine ⟨_, _, .cons (.segment (byteSegment_data rfl rfl 0 1) rfl (by decide))
    (.cons (.segment (byteSegment_data rfl rfl 0 1) rfl (by decide)) (.single (.recv 10))), rfl, rfl, by decide⟩

/-! ### An orderly network and the advertised window -/

/-- The connection, what tcp_recv has returned, the bytes that have arrived, and the segments sent. -/
structure Ledger where
  table : Table
  received : List UInt8
  arrived : List UInt8
  sent : List Outgoing

inductive LedgerEvent where
  | segment (payload : List UInt8)
  | recv (maxLen : Nat)

/-- In-order, loss-free arrival; no segment carries more than the advertised window. -/
inductive LedgerStep (myIp : Ipv4Addr) (i : Fin maxSockets) (start : UInt32) :
    Ledger → LedgerEvent → Ledger → Prop where
  | segment {y : Ledger} {payload : List UInt8} {h : Header} {data : List UInt8} :
      DataSegment (y.table.sockets i) payload h data → h.seq = start + UInt32.ofNat y.arrived.length →
      data.length ≤ 4096 →
      LedgerStep myIp i start y (.segment payload)
        { y with
          table := (tcpHandle myIp y.table (y.table.sockets i).remoteIp payload).1
          arrived := y.arrived ++ data
          sent := y.sent ++ (tcpHandle myIp y.table (y.table.sockets i).remoteIp payload).2 }
  | recv {y : Ledger} (maxLen : Nat) :
      LedgerStep myIp i start y (.recv maxLen)
        { y with
          table := y.table.set i (tcpRecv (y.table.sockets i) maxLen).1
          received := y.received ++ (tcpRecv (y.table.sockets i) maxLen).2 }

/-- Every byte covered by an ACK that was sent has been returned or will be, once and in order, and
nothing else will. -/
structure Kept (i : Fin maxSockets) (start : UInt32) (y : Ledger) : Prop where
  covered : ∀ o ∈ y.sent, ∀ k, k ≤ y.arrived.length → o.header.ack = start + UInt32.ofNat k →
    y.arrived.take k <+: y.received ++ unread (y.table.sockets i)
  genuine : y.received ++ unread (y.table.sockets i) <+: y.arrived

/-- The unread bytes and the new ones leave a slot of the buffer free. -/
def Fits (i : Fin maxSockets) (y : Ledger) (e : LedgerEvent) : Prop :=
  ∀ payload h data, e = .segment payload → parse payload = some (h, data) →
    (unread (y.table.sockets i)).length + data.length < rxSize

structure LedgerInv (i : Fin maxSockets) (y : Ledger) : Prop where
  connected : Connected y.table i
  stored : y.received ++ unread (y.table.sockets i) = y.arrived

theorem LedgerInv.kept {i : Fin maxSockets} {y : Ledger} (invariant : LedgerInv i y) (start : UInt32) :
    Kept i start y := by
  refine ⟨fun o _ k _ _ => ?_, ?_⟩
  · rw [invariant.stored]
    exact List.take_prefix k _
  · rw [invariant.stored]

theorem unread_length_lt (s : Socket) : (unread s).length < rxSize := by
  rw [unread_eq, Ring.length_contents]
  exact s.ring.count_lt

theorem LedgerStep.inv {myIp : Ipv4Addr} {i : Fin maxSockets} {start : UInt32} {y y' : Ledger} {e : LedgerEvent}
    (invariant : LedgerInv i y) (fits : Fits i y e) (taken : LedgerStep myIp i start y e y') : LedgerInv i y' := by
  obtain ⟨connected, stored⟩ := invariant
  cases taken with
  | @segment payload h data segment _ _ =>
    have handled := tcpHandle_data myIp connected segment
    have room := fits payload h data rfl segment.parsed
    by_cases empty : data = []
    · rw [if_pos empty] at handled
      rw [handled, empty]
      refine ⟨connected, ?_⟩
      simp only [List.append_nil]
      exact stored
    · rw [if_neg empty] at handled
      rw [handled]
      refine ⟨connected.set rfl rfl, ?_⟩
      simp only [set_self]
      rw [took_unread _ room, ← List.append_assoc, stored]
  | recv maxLen =>
    refine ⟨connected.set rfl rfl, ?_⟩
    simp only [set_self]
    rw [List.append_assoc, tcpRecv_eq]
    exact stored

/-- A segment that does not fit is acknowledged in full and not kept. -/
theorem LedgerStep.kept_iff {myIp : Ipv4Addr} {i : Fin maxSockets} {start : UInt32} {y y' : Ledger}
    {e : LedgerEvent} (invariant : LedgerInv i y) (taken : LedgerStep myIp i start y e y') :
    Kept i start y' ↔ Fits i y e := by
  refine ⟨fun kept payload h data same parsed => ?_, fun fits => (taken.inv invariant fits).kept start⟩
  obtain ⟨connected, stored⟩ := invariant
  by_contra full
  cases taken with
  | recv => cases same
  | @segment _ h' data' segment number _ =>
    cases same
    cases segment.parsed.symm.trans parsed
    have short := unread_length_lt (y.table.sockets i)
    have nonempty : data ≠ [] := by
      rintro rfl
      exact full (by simpa using short)
    have handled := tcpHandle_data myIp connected segment
    rw [if_neg nonempty] at handled
    have covered := kept.covered
    simp only [handled, set_self] at covered
    -- the ACK just sent covers all that has arrived
    have all := covered _ (List.mem_append_right _ (List.mem_singleton_self _)) _ (Nat.le_refl _) (by
      rw [tcpSendFlags_ack, List.length_append, UInt32.ofNat_add, ← UInt32.add_assoc, ← number]
      rfl)
    rw [List.take_length] at all
    have length := all.length_le
    rw [List.length_append, List.length_append, took_unread_length, ← stored, List.length_append] at length
    -- the ring has gone round: fewer bytes are unread than came in
    have wrapped := Nat.mod_lt ((unread (y.table.sockets i)).length + data.length) (show 0 < rxSize by decide)
    omega

/-- Over a whole run of in-order arrivals and tcp_recv calls, every acknowledged byte is kept exactly
when no segment arrives that brings the unread bytes to 4096 or more. -/
theorem run_kept_iff (myIp : Ipv4Addr) {t : Table} {i : Fin maxSockets} {start : UInt32}
    (connected : Connected t i) (empty : unread (t.sockets i) = []) {moves : List (Move Ledger LedgerEvent)}
    {y : Ledger} (run : Run (LedgerStep myIp i start) ⟨t, [], [], []⟩ moves y) :
    (∀ m ∈ moves, Kept i start m.after) ↔ ∀ m ∈ moves, Fits i m.before m.event :=
  run.good_iff (LedgerInv i) (Fits i) (fun _ _ y' => Kept i start y')
    (fun before fits taken => LedgerStep.inv before fits taken) (fun before taken => LedgerStep.kept_iff before taken)
    ⟨connected, empty⟩

/-- The peer can always send the next bytes. -/
theorem exists_segment (myIp : Ipv4Addr) {i : Fin maxSockets} (start : UInt32) {y : Ledger}
    (connected : Connected y.table i) {data : List UInt8} (small : data.length ≤ 4096) :
    ∃ payload y', LedgerStep myIp i start y (.segment payload) y' ∧ y'.arrived = y.arrived ++ data ∧
      y'.received = y.received ∧ Connected y'.table i := by
  have segment : DataSegment (y.table.sockets i)
      ((Header.mk (y.table.sockets i).remotePort (y.table.sockets i).localPort
        (start + UInt32.ofNat y.arrived.length) 0 0x50 flagAck 4096 0 0).encode ++ data) _ data :=
    ⟨parse_encode _ _ rfl, rfl, rfl, show flagAck &&& flagRst = 0 by decide, show flagAck &&& flagFin = 0 by decide⟩
  refine ⟨_, _, .segment segment rfl small, rfl, rfl, ?_⟩
  rw [tcpHandle_data myIp connected segment]
  split
  · exact connected
  · exact connected.set rfl rfl

theorem run_kept_iff_one_recv :
    (∀ m ∈ [Move.mk (Ledger.mk connectedTable [] [] []) (LedgerEvent.recv 10)
        ⟨connectedTable.set 0 (tcpRecv (connectedTable.sockets 0) 10).1, [], [], []⟩], Kept 0 8 m.after) ↔
      ∀ m ∈ [Move.mk (Ledger.mk connectedTable [] [] []) (LedgerEvent.recv 10)
        ⟨connectedTable.set 0 (tcpRecv (connectedTable.sockets 0) 10).1, [], [], []⟩], Fits 0 m.before m.event :=
  run_kept_iff (addr 10 0 2 15) connectedTable_connected connectedTable_unread (.single (.recv 10))

/-- Four segments of 1024 bytes, within the advertised window, before the first tcp_recv. -/
theorem full_window_lost : ∃ moves y,
    Run (LedgerStep (addr 10 0 2 15) 0 8) ⟨connectedTable, [], [], []⟩ moves y ∧ moves.length = 4 ∧
      y.arrived = List.replicate 4096 7 ∧ y.received = [] ∧ ¬ ∀ m ∈ moves, Kept 0 8 m.after := by
  have small : (List.replicate 1024 (7 : UInt8)).length ≤ 4096 := by
    rw [List.length_replicate]
    decide
  obtain ⟨_, y₁, step₁, arrived₁, received₁, connected₁⟩ := exists_segment (addr 10 0 2 15) 8
    (y := ⟨connectedTable, [], [], []⟩) connectedTable_connected small
  obtain ⟨_, y₂, step₂, arrived₂, received₂, connected₂⟩ := exists_segment (addr 10 0 2 15) 8 connected₁ small
  obtain ⟨_, y₃, step₃, arrived₃, received₃, connected₃⟩ := exists_segment (addr 10 0 2 15) 8 connected₂ small
  obtain ⟨_, y₄, step₄, arrived₄, received₄, -⟩ := exists_segment (addr 10 0 2 15) 8 connected₃ small
  have run := Run.cons step₁ (.cons step₂ (.cons step₃ (.single step₄)))
  have arrived : y₄.arrived = List.replicate 4096 7 := by
    rw [arrived₄, arrived₃, arrived₂, arrived₁]
    simp only [List.nil_append, List.replicate_append_replicate]
  have received : y₄.received = [] := received₄.trans (received₃.trans (received₂.trans received₁))
  refine ⟨_, y₄, run, rfl, arrived, received, fun kept => ?_⟩
  have first : LedgerInv 0 ⟨connectedTable, [], [], []⟩ := ⟨connectedTable_connected, connectedTable_unread⟩
  have fits := (run.good_iff (LedgerInv 0) (Fits 0) (fun _ _ y' => Kept 0 8 y')
    (fun before fits taken => LedgerStep.inv before fits taken)
    (fun before taken => LedgerStep.kept_iff before taken) first).mp kept
  have stored := (run.keeps (LedgerInv 0) (Fits 0) (fun before fits taken => LedgerStep.inv before fits taken) first fits).1.stored
  have long := congrArg List.length stored
  rw [received, arrived, List.nil_append, List.length_replicate] at long
  have short := unread_length_lt (y₄.table.sockets 0)
  rw [long] at short
  exact absurd short (by decide)

end ChrisOS.Net.Tcp
