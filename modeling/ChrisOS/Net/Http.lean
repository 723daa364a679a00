import ChrisOS.Net.Tcp.Demux
import ChrisOS.Lib.Run

/-! http_get and http_close of net/http.c, and the sockets they use.

http_get is cut where it polls: in dns_lookup, in tcp_connect and in the ARP lookup of
tcp_send. Segments arrive there and between calls. The URL and the request text are left
out, and so is what dns_lookup does besides returning an address.
-/

set_option autoImplicit false

namespace ChrisOS.Net.Http
open ChrisOS.Lib ChrisOS.Net.Tcp

/-- The port that parse_url sets. -/
def httpPort : UInt16 := 80

def ipAny : Ipv4Addr := ⟨fun _ => 0⟩

/-- Where http_get stands. -/
inductive Phase where
  | idle
  | resolving
  /-- In the polling loop of tcp_connect. -/
  | connecting (sock : Fin maxSockets)
  | sending (sock : Fin maxSockets)
  | allocating (sock : Fin maxSockets)
  deriving DecidableEq

/-- The socket that http_get has taken. -/
def Phase.socket : Phase → Option (Fin maxSockets)
  | .idle | .resolving => none
  | .connecting i | .sending i | .allocating i => some i

structure Client where
  table : Table
  phase : Phase
  /-- The table as it was when http_get was last called. -/
  entry : Table

inductive Event where
  | get
  | resolved (ip : Ipv4Addr)
  /-- The loop of tcp_connect ends, by the state or by the deadline. -/
  | polled
  | send (request : List UInt8)
  /-- The request structure is allocated, and http_get returns its address. -/
  | kmalloc (ptr : Nat)
  | close (sock : Fin maxSockets)
  | segment (src : Ipv4Addr) (payload : List UInt8)

namespace Client

/-- From the answer of dns_lookup to the loop of tcp_connect. -/
def resolved (myIp : Ipv4Addr) (y : Client) (ip : Ipv4Addr) : Client :=
  if ipEq ip ipAny then { y with phase := .idle }
  else
    match tcpOpen y.table with
    | (t, none) => { y with table := t, phase := .idle }
    | (t, some i) => { y with table := (tcpConnect myIp t i ip httpPort).1, phase := .connecting i }

/-- After the loop of tcp_connect. -/
def polled (y : Client) (i : Fin maxSockets) : Client :=
  -- a socket that is given up is not closed
  if connectResult (y.table.sockets i) ≠ 0 then { y with phase := .idle }
  else { y with phase := .sending i }

/-- The result of tcp_send is not looked at. -/
def send (myIp : Ipv4Addr) (y : Client) (i : Fin maxSockets) (request : List UInt8) : Client :=
  { y with table := y.table.set i (tcpSend myIp (y.table.sockets i) request).1, phase := .allocating i }

end Client

/-- The state after an event, if it can happen: calls follow one another, segments come at any time. -/
def next (myIp : Ipv4Addr) (y : Client) : Event → Option Client
  | .get => if y.phase = .idle then some { y with phase := .resolving, entry := y.table } else none
  | .resolved ip => if y.phase = .resolving then some (y.resolved myIp ip) else none
  | .polled =>
    match y.phase with
    | .connecting i => some (y.polled i)
    | _ => none
  | .send request =>
    match y.phase with
    | .sending i => some (y.send myIp i request)
    | _ => none
  | .kmalloc _ =>
    match y.phase with
    | .allocating _ => some { y with phase := .idle }
    | _ => none
  | .close i =>
    if y.phase = .idle then some { y with table := y.table.set i (tcpClose myIp (y.table.sockets i)).1 } else none
  | .segment src payload => some { y with table := (tcpHandle myIp y.table src payload).1 }

abbrev Step (myIp : Ipv4Addr) (y : Client) (e : Event) (y' : Client) : Prop := next myIp y e = some y'

/-- What http_get returns, if it ends in this step. -/
def returned (m : Move Client Event) : Option Nat :=
  if m.before.phase ≠ .idle ∧ m.after.phase = .idle then
    match m.event with
    | .kmalloc ptr => some ptr
    | _ => some 0
  else none

/-- After tcp_init. -/
def start (t : Table) : Client := ⟨tcpInit t, .idle, tcpInit t⟩

/-- The indices of the CLOSED entries. -/
def closed (t : Table) : Finset (Fin maxSockets) := Finset.univ.filter fun i => (t.sockets i).state = .closed

def closedCount (t : Table) : Nat := (closed t).card

/-- No connection that was there when http_get was called has ended since: a socket that is closed
now, or is the call's own, was closed then. -/
def Undisturbed (y : Client) : Prop :=
  ∀ j, y.phase.socket = some j ∨ (y.table.sockets j).state = .closed → (y.entry.sockets j).state = .closed

/-- http_get returns 0 on a socket that is still open: the loop of tcp_connect ends in SYN_SENT, or
there is no memory for the request. -/
def LeavesOpen (y : Client) (e : Event) : Prop :=
  ∃ i, y.phase.socket = some i ∧
    (e = .polled ∧ (y.table.sockets i).state = .synSent ∨ e = .kmalloc 0 ∧ (y.table.sockets i).state ≠ .closed)

/-! ### What a segment can do to a socket -/

/-- The segment is handed to socket i, which is established, and its flags end the connection. -/
def Ends (t : Table) (payload : List UInt8) (i : Fin maxSockets) : Prop :=
  ∃ h data, parse payload = some (h, data) ∧ t.first (·.listens h.dstPort) = some i ∧
    (t.sockets i).state = .established ∧ (h.flags &&& flagRst ≠ 0 ∨ h.flags &&& flagFin ≠ 0)

theorem onSynSent_cases (myIp : Ipv4Addr) (s : Socket) (src : Ipv4Addr) (h : Header) :
    (onSynSent myIp s src h).1.localPort = s.localPort ∧
      ((onSynSent myIp s src h).1.state = s.state ∨ (onSynSent myIp s src h).1.state = .established) := by
  unfold onSynSent
  split
  · exact ⟨rfl, .inr rfl⟩
  · exact ⟨rfl, .inl rfl⟩

theorem onEstablished_cases (myIp : Ipv4Addr) (s : Socket) (h : Header) (data : List UInt8) :
    (onEstablished myIp s h data).1.localPort = s.localPort ∧
      ((onEstablished myIp s h data).1.state = s.state ∨
        (onEstablished myIp s h data).1.state = .closed ∧ (h.flags &&& flagRst ≠ 0 ∨ h.flags &&& flagFin ≠ 0)) := by
  unfold onEstablished
  split
  · rename_i rst
    exact ⟨rfl, .inr ⟨rfl, .inl rst⟩⟩
  · split
    · rename_i fin
      exact ⟨rfl, .inr ⟨rfl, .inr fin⟩⟩
    · split
      · exact ⟨rfl, .inl rfl⟩
      · exact ⟨rfl, .inl rfl⟩

/-- All that tcp_handle can do to ports and states. -/
theorem tcpHandle_cases (myIp : Ipv4Addr) (t : Table) (src : Ipv4Addr) (payload : List UInt8) (j : Fin maxSockets) :
    ((tcpHandle myIp t src payload).1.sockets j).localPort = (t.sockets j).localPort ∧
      (((tcpHandle myIp t src payload).1.sockets j).state = (t.sockets j).state ∨
        (t.sockets j).state = .synSent ∧ ((tcpHandle myIp t src payload).1.sockets j).state = .established ∨
        Ends t payload j ∧ ((tcpHandle myIp t src payload).1.sockets j).state = .closed) := by
  rcases tcpHandle_socket_cases myIp t src payload j with same | ⟨h, data, parsed, found, served⟩
  · rw [same]
    exact ⟨rfl, .inl rfl⟩
  · rw [served]
    unfold dispatch
    split
    · rename_i waiting
      obtain ⟨port, state⟩ := onSynSent_cases myIp (t.sockets j) src h
      exact ⟨port, state.imp id fun opens => .inl ⟨waiting, opens⟩⟩
    · rename_i other
      have established := ((listens_iff.mp (first_hit found)).2).resolve_left other
      obtain ⟨port, state⟩ := onEstablished_cases myIp (t.sockets j) h data
      refine ⟨port, state.imp id fun ⟨closes, flags⟩ => .inr ⟨?_, closes⟩⟩
      exact ⟨h, data, parsed, found, established, flags⟩

theorem tcpHandle_nextPort (myIp : Ipv4Addr) (t : Table) (src : Ipv4Addr) (payload : List UInt8) :
    (tcpHandle myIp t src payload).1.nextPort = t.nextPort := by
  unfold tcpHandle
  cases parse payload with
  | none => rfl
  | some seg =>
    dsimp only
    cases t.first (·.listens seg.1.dstPort) <;> rfl

/-! ### tcp_open and tcp_connect -/

/-- tcp_open takes a closed socket and leaves states and ports alone. -/
theorem tcpOpen_cases (t : Table) :
    (tcpOpen t = (t, none) ∧ ∀ j, (t.sockets j).state ≠ .closed) ∨
      ∃ i, tcpOpen t = (t.set i (t.sockets i).opened, some i) ∧ (t.sockets i).state = .closed := by
  unfold tcpOpen
  cases found : t.first fun s => s.state = .closed with
  | none => exact .inl ⟨rfl, fun j => by simpa using first_none found j⟩
  | some i => exact .inr ⟨i, rfl, by simpa using first_hit found⟩

theorem mem_closed {t : Table} {i : Fin maxSockets} : i ∈ closed t ↔ (t.sockets i).state = .closed := by
  simp [closed]

theorem closedCount_pos_iff (t : Table) : 0 < closedCount t ↔ (tcpOpen t).2.isSome := by
  rw [closedCount, Finset.card_pos]
  rcases tcpOpen_cases t with ⟨failed, open_⟩ | ⟨i, opened, is⟩
  · rw [failed]
    exact iff_of_false (fun ⟨j, member⟩ => open_ j (mem_closed.mp member)) Bool.false_ne_true
  · rw [opened]
    exact iff_of_true ⟨i, mem_closed.mpr is⟩ rfl

/-! ### Steps by event -/

section Steps
variable {myIp : Ipv4Addr} {y y' : Client}

theorem step_get : Step myIp y .get y' ↔ y.phase = .idle ∧ { y with phase := .resolving, entry := y.table } = y' := by
  simp [Step, next]

theorem step_resolved {ip : Ipv4Addr} :
    Step myIp y (.resolved ip) y' ↔ y.phase = .resolving ∧ y.resolved myIp ip = y' := by
  simp [Step, next]

theorem step_polled : Step myIp y .polled y' ↔ ∃ i, y.phase = .connecting i ∧ y.polled i = y' := by
  unfold Step next
  cases y.phase <;> simp

theorem step_send {request : List UInt8} :
    Step myIp y (.send request) y' ↔ ∃ i, y.phase = .sending i ∧ y.send myIp i request = y' := by
  unfold Step next
  cases y.phase <;> simp

theorem step_kmalloc {ptr : Nat} :
    Step myIp y (.kmalloc ptr) y' ↔ ∃ i, y.phase = .allocating i ∧ { y with phase := .idle } = y' := by
  unfold Step next
  cases y.phase <;> simp

theorem step_close {i : Fin maxSockets} : Step myIp y (.close i) y' ↔ y.phase = .idle ∧
    { y with table := y.table.set i (tcpClose myIp (y.table.sockets i)).1 } = y' := by
  simp [Step, next]

theorem step_segment {src : Ipv4Addr} {payload : List UInt8} : Step myIp y (.segment src payload) y' ↔
    { y with table := (tcpHandle myIp y.table src payload).1 } = y' := by
  simp [Step, next]

end Steps

/-! ### The sockets of a call -/

structure Inv (y : Client) : Prop where
  /-- FIN_WAIT is never entered. -/
  active : ∀ j, (y.table.sockets j).state ≠ .finWait
  /-- During a call no closed socket but the call's own is opened. -/
  kept : y.phase ≠ .idle → ∀ j, y.phase.socket ≠ some j → (y.entry.sockets j).state = .closed →
    (y.table.sockets j).state = .closed

theorem inv_start (t : Table) : Inv (start t) := by
  refine ⟨fun j => ?_, fun busy => absurd rfl busy⟩
  show State.closed ≠ .finWait
  decide

/-- Between calls nothing is said about sockets that are closed. -/
theorem Inv.idle {y : Client} (active : ∀ j, (y.table.sockets j).state ≠ .finWait) (idle : y.phase = .idle) : Inv y :=
  ⟨active, fun busy => absurd idle busy⟩

/-- Later in a call, with the same socket and the same states. -/
theorem Inv.later {y y' : Client} (invariant : Inv y) (busy : y.phase ≠ .idle) (entry : y'.entry = y.entry)
    (socket : y'.phase.socket = y.phase.socket)
    (state : ∀ j, (y'.table.sockets j).state = (y.table.sockets j).state) : Inv y' := by
  refine ⟨fun j => ?_, fun _ j other was => ?_⟩
  · rw [state]
    exact invariant.active j
  · rw [socket] at other
    rw [entry] at was
    rw [state]
    exact invariant.kept busy j other was

theorem tcpConnect_state (myIp : Ipv4Addr) (t : Table) (i j : Fin maxSockets) (dest : Ipv4Addr) (port : UInt16) :
    ((tcpConnect myIp t i dest port).1.sockets j).state = if j = i then .synSent else (t.sockets j).state := by
  rw [tcpConnect]
  by_cases here : j = i
  · subst here
    rw [if_pos rfl]
    exact congrArg Socket.state (set_self _ _ _)
  · rw [if_neg here]
    exact congrArg Socket.state (set_other _ _ here)

theorem opened_state (t : Table) (i j : Fin maxSockets) :
    ((t.set i (t.sockets i).opened).sockets j).state = (t.sockets j).state := by
  by_cases here : j = i
  · subst here
    rw [set_self]
    rfl
  · rw [set_other _ _ here]

theorem Inv.resolved {y : Client} (invariant : Inv y) (myIp ip : Ipv4Addr) (resolving : y.phase = .resolving) :
    Inv (y.resolved myIp ip) := by
  unfold Client.resolved
  split
  · exact .idle invariant.active rfl
  · rcases tcpOpen_cases y.table with ⟨failed, -⟩ | ⟨i, opened, -⟩
    · rw [failed]
      exact .idle invariant.active rfl
    · rw [opened]
      refine ⟨fun j => ?_, fun _ j other was => ?_⟩
      · rw [tcpConnect_state, opened_state]
        split
        · decide
        · exact invariant.active j
      · have away : j ≠ i := fun same => other (congrArg some same.symm)
        have none_taken : y.phase.socket ≠ some j := by
          rw [resolving, Phase.socket]
          exact Option.some_ne_none j |>.symm
        rw [tcpConnect_state, opened_state, if_neg away]
        exact invariant.kept (by rw [resolving]; decide) j none_taken was

theorem send_state (myIp : Ipv4Addr) (y : Client) (i j : Fin maxSockets) (request : List UInt8) :
    ((y.send myIp i request).table.sockets j).state = (y.table.sockets j).state := by
  unfold Client.send
  by_cases here : j = i
  · subst here
    rw [set_self, tcpSend]
    split <;> rfl
  · rw [set_other _ _ here]

theorem Inv.segment {y : Client} (invariant : Inv y) (myIp src : Ipv4Addr) (payload : List UInt8) :
    Inv { y with table := (tcpHandle myIp y.table src payload).1 } := by
  refine ⟨fun j => ?_, fun busy j other was => ?_⟩
  · rcases (tcpHandle_cases myIp y.table src payload j).2 with same | ⟨-, opens⟩ | ⟨-, closes⟩
    · rw [same]
      exact invariant.active j
    · rw [opens]
      decide
    · rw [closes]
      decide
  · have is := invariant.kept busy j other was
    -- only a socket in SYN_SENT is opened by a segment
    rcases (tcpHandle_cases myIp y.table src payload j).2 with same | ⟨waiting, -⟩ | ⟨-, closes⟩
    · rw [same]
      exact is
    · cases is.symm.trans waiting
    · exact closes

/-- What one step preserves. -/
theorem Step.inv {myIp : Ipv4Addr} {y y' : Client} {e : Event} (invariant : Inv y) (taken : Step myIp y e y') :
    Inv y' := by
  cases e with
  | get =>
    obtain ⟨-, rfl⟩ := step_get.mp taken
    exact ⟨invariant.active, fun _ j _ was => was⟩
  | resolved ip =>
    obtain ⟨resolving, rfl⟩ := step_resolved.mp taken
    exact invariant.resolved myIp ip resolving
  | polled =>
    obtain ⟨i, phase, rfl⟩ := step_polled.mp taken
    unfold Client.polled
    split
    · exact .idle invariant.active rfl
    · exact invariant.later (by rw [phase]; exact Phase.noConfusion) rfl (by rw [phase]; rfl) fun j => rfl
  | send request =>
    obtain ⟨i, phase, rfl⟩ := step_send.mp taken
    exact invariant.later (by rw [phase]; exact Phase.noConfusion) rfl (by rw [phase]; rfl)
      fun j => send_state myIp y i j request
  | kmalloc ptr =>
    obtain ⟨i, -, rfl⟩ := step_kmalloc.mp taken
    exact .idle invariant.active rfl
  | close i =>
    obtain ⟨idle, rfl⟩ := step_close.mp taken
    refine .idle (fun j => ?_) idle
    by_cases here : j = i
    · subst here
      rw [set_self]
      exact State.noConfusion
    · rw [set_other _ _ here]
      exact invariant.active j
  | segment src payload =>
    cases step_segment.mp taken
    exact invariant.segment myIp src payload

/-! ### Calls that return 0 -/

theorem returned_eq_zero {y y' : Client} {e : Event} (zero : returned ⟨y, e, y'⟩ = some 0) :
    y.phase ≠ .idle ∧ y'.phase = .idle ∧ ∀ ptr, e = .kmalloc ptr → ptr = 0 := by
  unfold returned at zero
  dsimp only at zero
  split at zero
  · rename_i ends
    refine ⟨ends.1, ends.2, ?_⟩
    rintro ptr rfl
    exact Option.some.inj zero
  · cases zero

/-- A step that returns 0 leaves the table as it is; the call's own socket, if it has one, is open
then exactly if the step leaves it open. -/
theorem Step.returns_zero {myIp : Ipv4Addr} {y y' : Client} {e : Event} (invariant : Inv y) (taken : Step myIp y e y')
    (zero : returned ⟨y, e, y'⟩ = some 0) : y.phase ≠ .idle ∧ y'.table = y.table ∧
      (LeavesOpen y e ↔ ∃ i, y.phase.socket = some i ∧ (y.table.sockets i).state ≠ .closed) := by
  obtain ⟨busy, idle, null⟩ := returned_eq_zero zero
  refine ⟨busy, ?_⟩
  cases e with
  | get => exact absurd (step_get.mp taken).1 busy
  | resolved ip =>
    obtain ⟨resolving, rfl⟩ := step_resolved.mp taken
    refine ⟨?_, by simp [LeavesOpen, resolving, Phase.socket]⟩
    unfold Client.resolved at idle ⊢
    split
    · rfl
    · rename_i named
      rw [if_neg named] at idle
      rcases tcpOpen_cases y.table with ⟨failed, -⟩ | ⟨i, opened, -⟩
      · rw [failed]
      · rw [opened] at idle
        cases idle
  | polled =>
    obtain ⟨i, phase, rfl⟩ := step_polled.mp taken
    unfold Client.polled at idle ⊢
    split at idle
    · rename_i failed
      rw [if_pos failed]
      refine ⟨rfl, ?_⟩
      have active := invariant.active i
      -- neither established nor FIN_WAIT: what is not closed is in SYN_SENT
      cases state : (y.table.sockets i).state with
      | closed | synSent => simp [LeavesOpen, phase, Phase.socket, state]
      | established => simp [connectResult, state] at failed
      | finWait => exact absurd state active
    · cases idle
  | send request =>
    obtain ⟨i, phase, rfl⟩ := step_send.mp taken
    cases idle
  | kmalloc ptr =>
    obtain ⟨i, phase, rfl⟩ := step_kmalloc.mp taken
    cases null ptr rfl
    exact ⟨rfl, by simp [LeavesOpen, phase, Phase.socket]⟩
  | close i => exact absurd (step_close.mp taken).1 busy
  | segment src payload =>
    cases step_segment.mp taken
    exact absurd idle busy

/-- Inside an undisturbed call the closed sockets are those at its start, without its own if that is open. -/
theorem Inv.closedCount_eq_iff {y : Client} (invariant : Inv y) (busy : y.phase ≠ .idle) (calm : Undisturbed y) :
    closedCount y.table = closedCount y.entry ↔
      ¬ ∃ i, y.phase.socket = some i ∧ (y.table.sockets i).state ≠ .closed := by
  have less : closed y.table ⊆ closed y.entry := fun j member => mem_closed.mpr (calm j (.inr (mem_closed.mp member)))
  constructor
  · rintro same ⟨i, own, is_open⟩
    have all := Finset.eq_of_subset_of_card_le less (Nat.le_of_eq same.symm)
    have member : i ∈ closed y.entry := mem_closed.mpr (calm i (.inl own))
    rw [← all] at member
    exact is_open (mem_closed.mp member)
  · intro none_open
    refine congrArg Finset.card (less.antisymm fun j member => mem_closed.mpr ?_)
    by_cases own : y.phase.socket = some j
    · by_contra is_open
      exact none_open ⟨j, own, is_open⟩
    · exact invariant.kept busy j own (mem_closed.mp member)

/-- In every run an http_get that returns 0, with no earlier connection ended meanwhile, has as many
closed sockets after it as before it exactly when it does not leave its own socket open; then
tcp_open fails after it only if it failed before. -/
theorem failed_get_closedCount_iff (myIp : Ipv4Addr) (t : Table) {moves : List (Move Client Event)} {y : Client}
    (run : Run (Step myIp) (start t) moves y) :
    ∀ m ∈ moves, returned m = some 0 → Undisturbed m.before →
      (closedCount m.after.table = closedCount m.before.entry ∧
        ((tcpOpen m.before.entry).2.isSome → (tcpOpen m.after.table).2.isSome) ↔ ¬ LeavesOpen m.before m.event) := by
  intro m member zero calm
  have before := ((run.invariant Inv Step.inv (inv_start t)).2 m member).1
  have taken := run.steps m member
  obtain ⟨busy, table, judged⟩ := Step.returns_zero before taken zero
  rw [judged, table, ← before.closedCount_eq_iff busy calm]
  refine ⟨And.left, fun same => ⟨same, ?_⟩⟩
  rw [← closedCount_pos_iff, ← closedCount_pos_iff, same]
  exact id

/-- The first http_get after boot fails in dns_lookup. -/
theorem failed_get_closedCount_iff_no_dns : ∃ moves y,
    Run (Step (addr 10 0 2 15)) (start blankTable) moves y ∧
      moves.map Move.event = [.get, .resolved ipAny] ∧
      ∀ m ∈ moves, returned m = some 0 → Undisturbed m.before →
        (closedCount m.after.table = closedCount m.before.entry ∧
          ((tcpOpen m.before.entry).2.isSome → (tcpOpen m.after.table).2.isSome) ↔ ¬ LeavesOpen m.before m.event) := by
  obtain ⟨moves, y, run, events⟩ : ∃ moves y, Run (Step (addr 10 0 2 15)) (start blankTable) moves y ∧
      moves.map Move.event = [.get, .resolved ipAny] :=
    ⟨_, _, .cons (step_get.mpr ⟨rfl, rfl⟩) (.single (step_resolved.mpr ⟨rfl, rfl⟩)), rfl⟩
  exact ⟨moves, y, run, events, failed_get_closedCount_iff (addr 10 0 2 15) blankTable run⟩

/-- Nobody answers the SYN: http_get returns 0, and one socket fewer is closed. -/
theorem timeout_leaks : ∃ moves y, Run (Step (addr 10 0 2 15)) (start blankTable) moves y ∧
    moves.map Move.event = [.get, .resolved (addr 10 0 2 2), .polled] ∧
    ¬ ∀ m ∈ moves, returned m = some 0 → closedCount m.after.table = closedCount m.before.entry := by
  refine ⟨_, _, .cons (step_get.mpr ⟨rfl, rfl⟩) (.cons (step_resolved.mpr ⟨rfl, rfl⟩)
    (.single (step_polled.mpr ⟨0, rfl, rfl⟩))), rfl, fun all => ?_⟩
  have same := all _ (.tail _ (.tail _ (.head _))) rfl
  exact absurd same (by decide)

end ChrisOS.Net.Http
