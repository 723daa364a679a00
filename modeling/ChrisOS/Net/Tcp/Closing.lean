import ChrisOS.Net.Tcp.Stream

/-! The segment that ends the stream of a connection. -/

set_option autoImplicit false

namespace ChrisOS.Net.Tcp
open ChrisOS.Lib

/-- A segment of the peer with FIN, with any other flags and any data. -/
structure LastSegment (s : Socket) (payload : List UInt8) (h : Header) (data : List UInt8) : Prop where
  parsed : parse payload = some (h, data)
  fromPort : h.srcPort = s.remotePort
  toPort : h.dstPort = s.localPort
  fin : h.flags &&& flagFin ≠ 0

/-- What tcp_recv calls return one after the other, and the socket after them. -/
def recvs : List Nat → Socket → List UInt8 × Socket
  | [], s => ([], s)
  | maxLen :: rest, s =>
    let r := recvs rest (tcpRecv s maxLen).1
    ((tcpRecv s maxLen).2 ++ r.1, r.2)

/-- Calls of tcp_recv take the unread bytes from the front, whatever their sizes. -/
theorem recvs_eq (calls : List Nat) (s : Socket) : (recvs calls s).1 ++ unread (recvs calls s).2 = unread s := by
  induction calls generalizing s with
  | nil => rfl
  | cons maxLen rest ih =>
    rw [recvs]
    dsimp only
    rw [List.append_assoc, ih, tcpRecv_eq]

/-- With the last segment handled, all data go to tcp_recv in order, none but them, and the one segment sent
acknowledges the data and the FIN. -/
structure StreamEnds (myIp : Ipv4Addr) (i : Fin maxSockets) (y : Ledger) (payload : List UInt8) (h : Header)
    (data : List UInt8) : Prop where
  returned : ∀ calls : List Nat,
    let last := (tcpHandle myIp y.table (y.table.sockets i).remoteIp payload).1.sockets i
    y.received ++ (recvs calls last).1 ++ unread (recvs calls last).2 = y.arrived ++ data
  acknowledged : ∃ o, (tcpHandle myIp y.table (y.table.sockets i).remoteIp payload).2 = [o] ∧
    o.header.ack = h.seq + UInt32.ofNat data.length + 1

/-- What the last segment does to its connection. -/
theorem tcpHandle_last (myIp : Ipv4Addr) {t : Table} {i : Fin maxSockets} (connected : Connected t i)
    {payload : List UInt8} {h : Header} {data : List UInt8} (segment : LastSegment (t.sockets i) payload h data) :
    tcpHandle myIp t (t.sockets i).remoteIp payload =
      if h.flags &&& flagRst ≠ 0 then (t.set i { t.sockets i with state := .closed }, [])
      else (t.set i { t.sockets i with ack := h.seq + 1, state := .closed },
        [tcpSendFlags myIp { t.sockets i with ack := h.seq + 1 } (flagAck ||| flagFin) []]) := by
  rw [connected.tcpHandle myIp _ segment.parsed segment.toPort, onEstablished]
  by_cases rst : h.flags &&& flagRst ≠ 0
  · rw [if_pos rst, if_pos rst]
  · rw [if_neg rst, if_neg rst, if_pos segment.fin]

theorem unread_ended (s : Socket) (ack : UInt32) : unread { s with ack := ack, state := .closed } = unread s := rfl

/-- The stream ends as it should exactly when the last segment has neither data nor RST. -/
theorem lastSegment_ends_iff (myIp : Ipv4Addr) {i : Fin maxSockets} {y : Ledger} (invariant : LedgerInv i y)
    {payload : List UInt8} {h : Header} {data : List UInt8} (segment : LastSegment (y.table.sockets i) payload h data) :
    StreamEnds myIp i y payload h data ↔ h.flags &&& flagRst = 0 ∧ data = [] := by
  have handled := tcpHandle_last myIp invariant.connected segment
  constructor
  · rintro ⟨returned, o, sent, -⟩
    by_cases rst : h.flags &&& flagRst ≠ 0
    · rw [handled, if_pos rst] at sent
      cases sent
    · refine ⟨not_not.mp rst, ?_⟩
      have all := returned []
      rw [handled, if_neg rst] at all
      -- nothing was stored for the data
      simp only [set_self, recvs, List.append_nil, unread_ended, invariant.stored] at all
      exact List.self_eq_append_right.mp all
  · rintro ⟨rst, rfl⟩
    refine ⟨fun calls => ?_, ?_⟩
    · rw [handled, if_neg (not_not_intro rst)]
      simp only [set_self]
      rw [List.append_assoc, recvs_eq, unread_ended, invariant.stored, List.append_nil]
    · rw [handled, if_neg (not_not_intro rst)]
      refine ⟨_, rfl, ?_⟩
      have none : h.seq + UInt32.ofNat ([] : List UInt8).length = h.seq := UInt32.add_zero _
      rw [none]
      rfl

/-- After any arrivals in order that fit the buffer, all bytes up to the end of the stream are returned and
acknowledged exactly when the segment that ends it has neither data nor RST. -/
theorem stream_ends_iff (myIp : Ipv4Addr) {t : Table} {i : Fin maxSockets} {start : UInt32} (connected : Connected t i)
    (empty : unread (t.sockets i) = []) {moves : List (Move Ledger LedgerEvent)} {y : Ledger}
    (run : Run (LedgerStep myIp i start) ⟨t, [], [], []⟩ moves y) (fits : ∀ m ∈ moves, Fits i m.before m.event)
    {payload : List UInt8} {h : Header} {data : List UInt8} (segment : LastSegment (y.table.sockets i) payload h data) :
    StreamEnds myIp i y payload h data ↔ h.flags &&& flagRst = 0 ∧ data = [] := by
  have invariant := (run.keeps (LedgerInv i) (Fits i) (fun before fits taken => LedgerStep.inv before fits taken)
    ⟨connected, empty⟩ fits).1
  exact lastSegment_ends_iff myIp invariant segment

/-- The segment with FIN that follows on connectedTable, with data. -/
def lastHeader : Header := ⟨80, 49152, 8, 0xABCD1235, 0x50, flagFin ||| flagAck, 4096, 0, 0⟩

theorem encode_last (data : List UInt8) : LastSegment (connectedTable.sockets 0) (lastHeader.encode ++ data) lastHeader data :=
  ⟨parse_encode _ _ rfl, rfl, rfl, show (flagFin ||| flagAck) &&& flagFin ≠ 0 by decide⟩

theorem stream_ends_iff_bare :
    StreamEnds (addr 10 0 2 15) 0 ⟨connectedTable, [], [], []⟩ (lastHeader.encode ++ []) lastHeader [] ↔
      lastHeader.flags &&& flagRst = 0 ∧ ([] : List UInt8) = [] :=
  stream_ends_iff (addr 10 0 2 15) connectedTable_connected connectedTable_unread
    (show Run (LedgerStep (addr 10 0 2 15) 0 8) _ [] _ from .nil _) (fun _ none => nomatch none) (encode_last [])

/-- One byte of data in the segment with FIN is lost. -/
theorem fin_loses_data : ¬ ∀ (myIp : Ipv4Addr) (t : Table) (i : Fin maxSockets) (start : UInt32)
    (moves : List (Move Ledger LedgerEvent)) (y : Ledger) (payload : List UInt8) (h : Header) (data : List UInt8),
    Connected t i → unread (t.sockets i) = [] → Run (LedgerStep myIp i start) ⟨t, [], [], []⟩ moves y →
    (∀ m ∈ moves, Fits i m.before m.event) → LastSegment (y.table.sockets i) payload h data →
    h.flags &&& flagRst = 0 → h.seq = start + UInt32.ofNat y.arrived.length →
    (unread (y.table.sockets i)).length + data.length < rxSize → StreamEnds myIp i y payload h data := by
  intro ends
  have ended := ends (addr 10 0 2 15) connectedTable 0 8 [] ⟨connectedTable, [], [], []⟩ _ lastHeader [1]
    connectedTable_connected connectedTable_unread (.nil _) (fun _ none => nomatch none) (encode_last [1]) (by decide) (by decide)
    (by rw [connectedTable_unread]; decide)
  have invariant : LedgerInv 0 ⟨connectedTable, [], [], []⟩ := ⟨connectedTable_connected, connectedTable_unread⟩
  have whole := (lastSegment_ends_iff (addr 10 0 2 15) invariant (encode_last [1])).mp ended
  cases whole.2

end ChrisOS.Net.Tcp
