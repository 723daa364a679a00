import ChrisOS.Net.Tcp
import ChrisOS.Lib.Run

/-! Which segments can change a socket.

The demultiplexing loop of tcp_handle compares local ports only. A segment that
it hands to a socket is guarded when it changes nothing unless it comes from the
socket's peer, and opens a connection only by answering the SYN that was sent.
What others than the peer send then makes no difference to a run.
-/

set_option autoImplicit false

namespace ChrisOS.Net.Tcp
open ChrisOS.Lib

def FromPeer (s : Socket) (src : Ipv4Addr) (h : Header) : Prop := src = s.remoteIp ∧ h.srcPort = s.remotePort

def Header.isSynAck (h : Header) : Prop := h.flags &&& (flagSyn ||| flagAck) = flagSyn ||| flagAck

/-- A segment changes a socket only if it is from the socket's peer and to its local port, and
establishes a connection only as the SYN+ACK for the SYN that was sent. -/
structure Guarded (myIp : Ipv4Addr) (t : Table) (src : Ipv4Addr) (payload : List UInt8) : Prop where
  changes : ∀ i, (tcpHandle myIp t src payload).1.sockets i ≠ t.sockets i →
    ∃ h data, parse payload = some (h, data) ∧ FromPeer (t.sockets i) src h ∧ h.dstPort = (t.sockets i).localPort
  opens : ∀ i, (t.sockets i).state = .synSent → ((tcpHandle myIp t src payload).1.sockets i).state = .established →
    ∃ h data, parse payload = some (h, data) ∧ h.isSynAck ∧ FromPeer (t.sockets i) src h ∧
      h.dstPort = (t.sockets i).localPort ∧ h.ack = (t.sockets i).seq

/-- Data that leaves the socket as it is: it acknowledges nothing new and goes around the whole
buffer, ending on the bytes that are there. -/
def Repeats (s : Socket) (h : Header) (data : List UInt8) : Prop :=
  h.seq + UInt32.ofNat data.length = s.ack ∧ data.length % rxSize = 0 ∧ s.ring.fromHead <:+ data

/-- What a socket does not check about the segments that its local port selects. -/
def Intrudes (s : Socket) (src : Ipv4Addr) (h : Header) (data : List UInt8) : Prop :=
  (s.state = .synSent ∧ h.isSynAck ∧ ¬ (FromPeer s src h ∧ h.ack = s.seq)) ∨
  (s.state = .established ∧ ¬ FromPeer s src h ∧
    (h.flags &&& flagRst ≠ 0 ∨ h.flags &&& flagFin ≠ 0 ∨ (data ≠ [] ∧ ¬ Repeats s h data)))

/-- The segment is handed to a socket on which it intrudes. -/
def Intrusion (t : Table) (src : Ipv4Addr) (payload : List UInt8) : Prop :=
  ∃ h data i, parse payload = some (h, data) ∧ t.first (·.listens h.dstPort) = some i ∧
    Intrudes (t.sockets i) src h data

theorem withRing_self (s : Socket) : s.withRing s.ring = s := rfl

theorem listens_iff {s : Socket} {port : UInt16} :
    s.listens port = true ↔ s.localPort = port ∧ (s.state = .synSent ∨ s.state = .established) := by
  unfold Socket.listens
  cases s.state <;> simp

theorem onSynSent_eq {myIp : Ipv4Addr} {s : Socket} {src : Ipv4Addr} {h : Header} (other : ¬ h.isSynAck) :
    (onSynSent myIp s src h).1 = s := by
  unfold Header.isSynAck at other
  rw [onSynSent, if_neg other]

theorem onSynSent_opens (myIp : Ipv4Addr) (s : Socket) (src : Ipv4Addr) {h : Header} (synAck : h.isSynAck) :
    (onSynSent myIp s src h).1.state = .established := by
  unfold Header.isSynAck at synAck
  rw [onSynSent, if_pos synAck]

/-- An established socket stays as it is exactly on a segment with no flag to act on and no new data. -/
theorem onEstablished_eq_iff {myIp : Ipv4Addr} {s : Socket} {h : Header} {data : List UInt8}
    (established : s.state = .established) : (onEstablished myIp s h data).1 = s ↔
      ¬ (h.flags &&& flagRst ≠ 0 ∨ h.flags &&& flagFin ≠ 0 ∨ (data ≠ [] ∧ ¬ Repeats s h data)) := by
  have closes {s' : Socket} (closed : s'.state = .closed) : s' ≠ s := by
    rintro rfl
    rw [closed] at established
    cases established
  unfold onEstablished
  by_cases rst : h.flags &&& flagRst ≠ 0
  · rw [if_pos rst]
    exact iff_of_false (closes rfl) (not_not_intro (.inl rst))
  · rw [if_neg rst]
    by_cases fin : h.flags &&& flagFin ≠ 0
    · rw [if_pos fin]
      exact iff_of_false (closes rfl) (not_not_intro (.inr (.inl fin)))
    · rw [if_neg fin]
      by_cases some_data : data.length > 0
      · have nonempty : data ≠ [] := List.length_pos_iff.mp some_data
        rw [if_pos some_data]
        -- the data must leave both the ring and ack as they were
        have same : { s.withRing (s.ring.pushAll data) with ack := h.seq + UInt32.ofNat data.length } = s ↔
            Repeats s h data := by
          unfold Repeats
          constructor
          · intro same
            have ring : s.ring.pushAll data = s.ring := congrArg Socket.ring same
            obtain ⟨whole, around⟩ := (Ring.pushAll_eq_self_iff s.ring data).mp ring
            exact ⟨congrArg Socket.ack same, whole, around.resolve_left nonempty⟩
          · rintro ⟨ack, whole, around⟩
            rw [(Ring.pushAll_eq_self_iff s.ring data).mpr ⟨whole, .inr around⟩, withRing_self, ack]
        simp only [same]
        tauto
      · have empty : data = [] := List.eq_nil_of_length_eq_zero (by omega)
        rw [if_neg some_data]
        simp [empty, not_not.mp rst, not_not.mp fin]

/-- What a live socket does with a segment it is handed. -/
theorem dispatch_guarded_iff (myIp : Ipv4Addr) {s : Socket} (src : Ipv4Addr) (h : Header) (data : List UInt8)
    (live : s.state = .synSent ∨ s.state = .established) :
    (((dispatch myIp s src h data).1 ≠ s → FromPeer s src h) ∧
      (s.state = .synSent → (dispatch myIp s src h data).1.state = .established →
        h.isSynAck ∧ FromPeer s src h ∧ h.ack = s.seq)) ↔ ¬ Intrudes s src h data := by
  unfold Intrudes dispatch
  rcases live with waiting | established
  · rw [if_pos waiting]
    by_cases synAck : h.isSynAck
    · -- every SYN+ACK opens the connection, so it has to be the right one
      have opens := onSynSent_opens myIp s src synAck
      have changed : (onSynSent myIp s src h).1 ≠ s := by
        intro same
        rw [same, waiting] at opens
        cases opens
      simp only [waiting, opens, synAck, changed, ne_eq, not_false_eq_true, forall_const, true_and, reduceCtorEq,
        false_and, or_false, not_not]
      exact ⟨And.right, fun meets => ⟨meets.1, meets⟩⟩
    · simp [onSynSent_eq synAck, waiting, synAck]
  · have other : s.state ≠ .synSent := by rw [established]; decide
    rw [if_neg other]
    -- nothing opens here: only changes count
    have changed : (onEstablished myIp s h data).1 ≠ s ↔
        h.flags &&& flagRst ≠ 0 ∨ h.flags &&& flagFin ≠ 0 ∨ (data ≠ [] ∧ ¬ Repeats s h data) := by
      rw [ne_eq, onEstablished_eq_iff established, not_not]
    rw [changed]
    constructor
    · rintro ⟨peer, -⟩ (⟨waiting, -⟩ | ⟨-, stranger, acts⟩)
      · exact other waiting
      · exact stranger (peer acts)
    · intro passive
      refine ⟨fun acts => ?_, fun waiting => absurd waiting other⟩
      by_contra stranger
      exact passive (.inr ⟨established, stranger, acts⟩)

/-- tcp_handle changes at most the socket that the segment is handed to. -/
theorem tcpHandle_socket (myIp : Ipv4Addr) {t : Table} (src : Ipv4Addr) {payload : List UInt8} {h : Header}
    {data : List UInt8} {i : Fin maxSockets} (parsed : parse payload = some (h, data))
    (found : t.first (·.listens h.dstPort) = some i) :
    tcpHandle myIp t src payload =
      (t.set i (dispatch myIp (t.sockets i) src h data).1, (dispatch myIp (t.sockets i) src h data).2) := by
  simp only [tcpHandle, parsed, found]

theorem tcpHandle_ignored {myIp : Ipv4Addr} {t : Table} {src : Ipv4Addr} {payload : List UInt8}
    (untaken : ¬ ∃ h data i, parse payload = some (h, data) ∧ t.first (·.listens h.dstPort) = some i) :
    tcpHandle myIp t src payload = (t, []) := by
  unfold tcpHandle
  cases parsed : parse payload with
  | none => rfl
  | some seg =>
    cases found : t.first (·.listens seg.1.dstPort) with
    | none => simp only [found]
    | some i => exact absurd ⟨seg.1, seg.2, i, parsed, found⟩ untaken

/-! ### What one segment can do -/

/-- The ways a segment can move the state of a socket. -/
def Moves (s s' : State) : Prop := s' = s ∨ (s = .synSent ∧ s' = .established) ∨ (s = .established ∧ s' = .closed)

section
variable (myIp : Ipv4Addr) (s : Socket) (src : Ipv4Addr) (h : Header) (data : List UInt8)

theorem dispatch_moves (live : s.state = .synSent ∨ s.state = .established) :
    Moves s.state (dispatch myIp s src h data).1.state := by
  unfold dispatch
  split
  · rename_i waiting
    by_cases synAck : h.isSynAck
    · exact .inr (.inl ⟨waiting, onSynSent_opens myIp s src synAck⟩)
    · exact .inl (congrArg Socket.state (onSynSent_eq synAck))
  · rename_i other
    have established := live.resolve_left other
    unfold onEstablished
    split
    · exact .inr (.inr ⟨established, rfl⟩)
    split
    · exact .inr (.inr ⟨established, rfl⟩)
    split
    · exact .inl rfl
    · exact .inl rfl

theorem dispatch_sends : (dispatch myIp s src h data).2.length ≤ 1 := by
  unfold dispatch
  split
  · unfold onSynSent
    split
    · exact Nat.le_refl 1
    · exact Nat.zero_le 1
  · unfold onEstablished
    split
    · exact Nat.zero_le 1
    split
    · exact Nat.le_refl 1
    split
    · exact Nat.le_refl 1
    · exact Nat.zero_le 1

/-- Only a handshake changes the next sequence number. -/
theorem dispatch_seq (other : s.state ≠ .synSent) : (dispatch myIp s src h data).1.seq = s.seq := by
  rw [dispatch, if_neg other]
  unfold onEstablished
  split
  · rfl
  split
  · rfl
  split
  · rfl
  · rfl

end

/-- A socket stays as it is, or the segment was handed to it. -/
theorem tcpHandle_socket_cases (myIp : Ipv4Addr) (t : Table) (src : Ipv4Addr) (payload : List UInt8) (i : Fin maxSockets) :
    (tcpHandle myIp t src payload).1.sockets i = t.sockets i ∨
      ∃ h data, parse payload = some (h, data) ∧ t.first (·.listens h.dstPort) = some i ∧
        (tcpHandle myIp t src payload).1.sockets i = (dispatch myIp (t.sockets i) src h data).1 := by
  by_cases taken : ∃ h data i, parse payload = some (h, data) ∧ t.first (·.listens h.dstPort) = some i
  · obtain ⟨h, data, j, parsed, found⟩ := taken
    rw [tcpHandle_socket myIp src parsed found]
    by_cases here : i = j
    · subst here
      exact .inr ⟨h, data, parsed, found, set_self t i _⟩
    · exact .inl (set_other t _ here)
  · rw [tcpHandle_ignored taken]
    exact .inl rfl

/-- A segment is guarded exactly when it does not intrude on the socket it is handed to. -/
theorem segment_guarded_iff (myIp : Ipv4Addr) (t : Table) (src : Ipv4Addr) (payload : List UInt8) :
    Guarded myIp t src payload ↔ ¬ Intrusion t src payload := by
  by_cases taken : ∃ h data i, parse payload = some (h, data) ∧ t.first (·.listens h.dstPort) = some i
  · obtain ⟨h, data, i, parsed, found⟩ := taken
    -- the segment goes to socket i, and no other changes
    have result := tcpHandle_socket myIp src parsed found
    obtain ⟨port, live⟩ := listens_iff.mp (first_hit found)
    have only : Intrusion t src payload ↔ Intrudes (t.sockets i) src h data := by
      constructor
      · rintro ⟨h', data', i', parsed', found', intrudes⟩
        cases parsed.symm.trans parsed'
        cases found.symm.trans found'
        exact intrudes
      · exact fun intrudes => ⟨h, data, i, parsed, found, intrudes⟩
    rw [only, ← dispatch_guarded_iff myIp src h data live]
    constructor
    · rintro ⟨changes, opens⟩
      rw [result] at changes opens
      have changes := changes i
      have opens := opens i
      rw [set_self] at changes opens
      refine ⟨fun changed => ?_, fun waiting established => ?_⟩
      · obtain ⟨h', data', parsed', peer, -⟩ := changes changed
        cases parsed.symm.trans parsed'
        exact peer
      · obtain ⟨h', data', parsed', synAck, peer, -, ack⟩ := opens waiting established
        cases parsed.symm.trans parsed'
        exact ⟨synAck, peer, ack⟩
    · rintro ⟨changes, opens⟩
      refine ⟨fun j changed => ?_, fun j waiting established => ?_⟩
      · rw [result] at changed
        by_cases here : j = i
        · subst here
          rw [set_self] at changed
          exact ⟨h, data, parsed, changes changed, port.symm⟩
        · exact absurd (set_other t _ here) changed
      · rw [result] at established
        by_cases here : j = i
        · subst here
          rw [set_self] at established
          obtain ⟨synAck, peer, ack⟩ := opens waiting established
          exact ⟨h, data, parsed, synAck, peer, port.symm, ack⟩
        · rw [set_other t _ here, waiting] at established
          cases established
  · -- the segment goes to no socket
    have ignored : tcpHandle myIp t src payload = (t, []) := tcpHandle_ignored taken
    refine iff_of_true ⟨fun j changed => ?_, fun j waiting established => ?_⟩ ?_
    · rw [ignored] at changed
      exact absurd rfl changed
    · rw [ignored, waiting] at established
      cases established
    · rintro ⟨h, data, i, parsed, found, -⟩
      exact taken ⟨h, data, i, parsed, found⟩

/-! ### Runs that differ in what strangers send -/

inductive TableEvent where
  /-- Work of the host itself, such as tcp_open, tcp_connect, tcp_recv or tcp_close. -/
  | own (work : Table → Table)
  | segment (src : Ipv4Addr) (payload : List UInt8)

inductive TableStep (myIp : Ipv4Addr) : Table → TableEvent → Table → Prop where
  | own {t : Table} (work : Table → Table) : TableStep myIp t (.own work) (work t)
  | segment {t : Table} (src : Ipv4Addr) (payload : List UInt8) :
      TableStep myIp t (.segment src payload) (tcpHandle myIp t src payload).1

/-- A segment that is not from the peer of the socket it is handed to. -/
def Stranger (t : Table) : TableEvent → Prop
  | .own _ => False
  | .segment src payload => ∀ h data i, parse payload = some (h, data) → t.first (·.listens h.dstPort) = some i →
      ¬ FromPeer (t.sockets i) src h

def Intrusive (t : Table) : TableEvent → Prop
  | .own _ => False
  | .segment src payload => Intrusion t src payload

/-- Two runs with the same events but for the segments of strangers. -/
inductive Alike : List (Move Table TableEvent) → List (Move Table TableEvent) → Prop where
  | nil : Alike [] []
  | both {m m' : Move Table TableEvent} {moves moves' : List (Move Table TableEvent)} :
      m.event = m'.event → Alike moves moves' → Alike (m :: moves) (m' :: moves')
  | left {m : Move Table TableEvent} {moves moves' : List (Move Table TableEvent)} :
      Stranger m.before m.event → Alike moves moves' → Alike (m :: moves) moves'
  | right {m' : Move Table TableEvent} {moves moves' : List (Move Table TableEvent)} :
      Stranger m'.before m'.event → Alike moves moves' → Alike moves (m' :: moves')

/-- A stranger's segment leaves the table as it is exactly when it does not intrude. -/
theorem stranger_ignored_iff (myIp : Ipv4Addr) {t : Table} {src : Ipv4Addr} {payload : List UInt8}
    (stranger : Stranger t (.segment src payload)) :
    (tcpHandle myIp t src payload).1 = t ↔ ¬ Intrusion t src payload := by
  rw [← segment_guarded_iff myIp]
  constructor
  · intro same
    refine ⟨fun i changed => ?_, fun i waiting established => ?_⟩
    · rw [same] at changed
      exact absurd rfl changed
    · rw [same, waiting] at established
      cases established
  · intro guarded
    by_cases taken : ∃ h data i, parse payload = some (h, data) ∧ t.first (·.listens h.dstPort) = some i
    · obtain ⟨h, data, i, parsed, found⟩ := taken
      have result := tcpHandle_socket myIp src parsed found
      have kept : (tcpHandle myIp t src payload).1.sockets i = t.sockets i := by
        by_contra changed
        obtain ⟨h', data', parsed', peer, -⟩ := guarded.changes i changed
        cases parsed.symm.trans parsed'
        exact stranger h data i parsed found peer
      rw [result] at kept ⊢
      rw [set_self] at kept
      rw [kept]
      exact set_same t i
    · rw [tcpHandle_ignored taken]

theorem TableStep.stranger {myIp : Ipv4Addr} {t t' : Table} {e : TableEvent} (taken : TableStep myIp t e t')
    (stranger : Stranger t e) (peaceful : ¬ Intrusive t e) : t' = t := by
  cases taken with
  | own => exact absurd stranger id
  | segment src payload => exact (stranger_ignored_iff myIp stranger).mpr peaceful

theorem TableStep.deterministic {myIp : Ipv4Addr} {t u v : Table} {e : TableEvent} (left : TableStep myIp t e u)
    (right : TableStep myIp t e v) : u = v := by
  cases left <;> cases right <;> rfl

/-- Two runs that differ in strangers' segments only, none of which intrudes, end in the same table. -/
theorem Alike.same_table {myIp : Ipv4Addr} {moves moves' : List (Move Table TableEvent)} (alike : Alike moves moves')
    {t u u' : Table} (run : Run (TableStep myIp) t moves u) (run' : Run (TableStep myIp) t moves' u')
    (peaceful : ∀ m ∈ moves, ¬ Intrusive m.before m.event) (peaceful' : ∀ m ∈ moves', ¬ Intrusive m.before m.event) :
    u = u' := by
  induction alike generalizing t with
  | nil =>
    cases run
    cases run'
    rfl
  | both same _ ih =>
    cases run with
    | cons taken rest =>
      cases run' with
      | cons taken' rest' =>
        cases same
        cases taken.deterministic taken'
        exact ih rest rest' (List.forall_mem_cons.mp peaceful).2 (List.forall_mem_cons.mp peaceful').2
  | left stranger _ ih =>
    cases run with
    | cons taken rest =>
      -- the extra segment leaves the table where the other run has it
      cases taken.stranger stranger (peaceful _ (.head _))
      exact ih rest run' (List.forall_mem_cons.mp peaceful).2 peaceful'
  | right stranger _ ih =>
    cases run' with
    | cons taken rest =>
      cases taken.stranger stranger (peaceful' _ (.head _))
      exact ih run rest peaceful (List.forall_mem_cons.mp peaceful').2

/-- A segment is guarded exactly when it does not intrude, and as long as none intrudes, what strangers send
makes no difference to where a run ends. -/
theorem segments_guarded (myIp : Ipv4Addr) :
    (∀ t src payload, Guarded myIp t src payload ↔ ¬ Intrusion t src payload) ∧
    ∀ t moves moves' u u', Run (TableStep myIp) t moves u → Run (TableStep myIp) t moves' u' → Alike moves moves' →
      (∀ m ∈ moves, ¬ Intrusive m.before m.event) → (∀ m ∈ moves', ¬ Intrusive m.before m.event) → u = u' :=
  ⟨segment_guarded_iff myIp, fun _ _ _ _ _ run run' alike peaceful peaceful' =>
    alike.same_table run run' peaceful peaceful'⟩

/-! ### A stranger's reset -/

def addr (a b c d : UInt8) : Ipv4Addr := ⟨![a, b, c, d]⟩

/-- A segment with no data. -/
def bare (srcPort dstPort : UInt16) (seq ack : UInt32) (flags : UInt8) : List UInt8 :=
  (Header.mk srcPort dstPort seq ack 0x50 flags 4096 0 0).encode

/-- 10.0.2.15 has connected to port 80 of 10.0.2.2, which has answered. -/
def connectedTable : Table :=
  (tcpHandle (addr 10 0 2 15) (tcpConnect (addr 10 0 2 15) (tcpOpen (tcpInit blankTable)).1 0 (addr 10 0 2 2) 80).1
    (addr 10 0 2 2) (bare 80 49152 7 0xABCD1235 (flagSyn ||| flagAck))).1

theorem connectedTable_state : (connectedTable.sockets 0).state = .established := rfl

/-- A reset from any port of any other host, sent to the right local port, closes the connection. -/
theorem stranger_resets : ¬ Guarded (addr 10 0 2 15) connectedTable (addr 6 6 6 6) (bare 1 49152 0 0 flagRst) := by
  rintro ⟨changes, -⟩
  have closed : ((tcpHandle (addr 10 0 2 15) connectedTable (addr 6 6 6 6) (bare 1 49152 0 0 flagRst)).1.sockets 0).state =
      .closed := rfl
  obtain ⟨h, data, parsed, ⟨host, -⟩, -⟩ := changes 0 fun same => by
    rw [same, connectedTable_state] at closed
    cases closed
  have peer : (connectedTable.sockets 0).remoteIp.bytes 0 = 10 := rfl
  rw [← host] at peer
  exact absurd peer (by decide)

end ChrisOS.Net.Tcp
