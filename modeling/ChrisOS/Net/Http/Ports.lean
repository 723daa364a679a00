import ChrisOS.Net.Http

/-! The local ports of the TCP sockets.

Besides http_get, other code calls the socket interface on any socket and at any
time, also while http_get polls.
-/

set_option autoImplicit false

namespace ChrisOS.Net.Http.Ports
open ChrisOS.Lib ChrisOS.Net.Tcp

inductive Event where
  | http (e : Http.Event)
  | tcpOpen
  | tcpConnect (sock : Fin maxSockets) (dest : Ipv4Addr) (port : UInt16)
  | tcpSend (sock : Fin maxSockets) (data : List UInt8)
  | tcpRecv (sock : Fin maxSockets) (maxLen : Nat)
  | tcpClose (sock : Fin maxSockets)

/-- A call on one socket that leaves the rest of the table alone. -/
def onSocket (y : Client) (i : Fin maxSockets) (f : Socket → Socket) : Client :=
  { y with table := y.table.set i (f (y.table.sockets i)) }

def next (myIp : Ipv4Addr) (y : Client) : Event → Option Client
  | .http e => Http.next myIp y e
  | .tcpOpen => some { y with table := (Tcp.tcpOpen y.table).1 }
  | .tcpConnect i dest port => some { y with table := (Tcp.tcpConnect myIp y.table i dest port).1 }
  | .tcpSend i data => some (onSocket y i fun s => (Tcp.tcpSend myIp s data).1)
  | .tcpRecv i maxLen => some (onSocket y i fun s => (Tcp.tcpRecv s maxLen).1)
  | .tcpClose i => some (onSocket y i fun s => (Tcp.tcpClose myIp s).1)

abbrev Step (myIp : Ipv4Addr) (y : Client) (e : Event) (y' : Client) : Prop := next myIp y e = some y'

/-- The socket for which tcp_connect is called in a step. -/
def connects (y : Client) : Event → Option (Fin maxSockets)
  | .http (.resolved ip) => if ipEq ip ipAny then none else (Tcp.tcpOpen y.table).2
  | .tcpConnect i _ _ => some i
  | _ => none

/-- Where next_port starts; the range goes up to the largest port. -/
def firstPort : Nat := 49152

/-- How many ports the range has. -/
def portCount : Nat := 2 ^ 16 - firstPort

def Distinct (t : Table) : Prop :=
  ∀ i j, (t.sockets i).state ≠ .closed → (t.sockets j).state ≠ .closed →
    (t.sockets i).localPort = (t.sockets j).localPort → i = j

/-- The state after a step has distinct ports, and a port assigned in it is in the range. -/
def Sound (m : Move Client Event) : Prop :=
  Distinct m.after.table ∧
    ∀ i, connects m.before m.event = some i → firstPort ≤ (m.after.table.sockets i).localPort.toNat

/-- The calls of tcp_connect in a run. -/
def connectCount (moves : List (Move Client Event)) : Nat :=
  moves.countP fun m => (connects m.before m.event).isSome

/-! ### One step -/

/-- No port changes and no closed socket is opened. -/
structure Keeps (t t' : Table) : Prop where
  nextPort : t'.nextPort = t.nextPort
  port : ∀ j, (t'.sockets j).localPort = (t.sockets j).localPort
  closed : ∀ j, (t.sockets j).state = .closed → (t'.sockets j).state = .closed

/-- Socket i takes the next port. -/
structure Assigns (t t' : Table) (i : Fin maxSockets) : Prop where
  nextPort : t'.nextPort = t.nextPort + 1
  port : ∀ j, (t'.sockets j).localPort = if j = i then t.nextPort else (t.sockets j).localPort
  closed : ∀ j, j ≠ i → (t.sockets j).state = .closed → (t'.sockets j).state = .closed

theorem Keeps.refl (t : Table) : Keeps t t := ⟨rfl, fun _ => rfl, fun _ is => is⟩

theorem Keeps.set {t : Table} {i : Fin maxSockets} {s : Socket} (port : s.localPort = (t.sockets i).localPort)
    (closed : (t.sockets i).state = .closed → s.state = .closed) : Keeps t (t.set i s) := by
  refine ⟨rfl, fun j => ?_, fun j is => ?_⟩
  · by_cases here : j = i
    · subst here
      rw [set_self]
      exact port
    · rw [set_other t s here]
  · by_cases here : j = i
    · subst here
      rw [set_self]
      exact closed is
    · rw [set_other t s here]
      exact is

theorem keeps_tcpOpen (t : Table) : Keeps t (Tcp.tcpOpen t).1 := by
  rcases tcpOpen_cases t with ⟨failed, -⟩ | ⟨i, opened, -⟩
  · rw [failed]
    exact .refl t
  · rw [opened]
    exact .set rfl id

theorem keeps_tcpSend (myIp : Ipv4Addr) (t : Table) (i : Fin maxSockets) (data : List UInt8) :
    Keeps t (t.set i (Tcp.tcpSend myIp (t.sockets i) data).1) := by
  unfold Tcp.tcpSend
  split
  · exact .set rfl id
  · exact .set rfl id

theorem keeps_tcpClose (myIp : Ipv4Addr) (t : Table) (i : Fin maxSockets) :
    Keeps t (t.set i (Tcp.tcpClose myIp (t.sockets i)).1) := .set rfl fun _ => rfl

theorem keeps_tcpHandle (myIp : Ipv4Addr) (t : Table) (src : Ipv4Addr) (payload : List UInt8) :
    Keeps t (tcpHandle myIp t src payload).1 := by
  refine ⟨tcpHandle_nextPort myIp t src payload, fun j => (tcpHandle_cases myIp t src payload j).1, fun j is => ?_⟩
  rcases (tcpHandle_cases myIp t src payload j).2 with same | ⟨waiting, -⟩ | ⟨-, closes⟩
  · rw [same]
    exact is
  · cases is.symm.trans waiting
  · exact closes

theorem assigns_tcpConnect (myIp : Ipv4Addr) (t : Table) (i : Fin maxSockets) (dest : Ipv4Addr) (port : UInt16) :
    Assigns t (Tcp.tcpConnect myIp t i dest port).1 i := by
  refine ⟨rfl, fun j => ?_, fun j other is => ?_⟩
  · rw [Tcp.tcpConnect]
    by_cases here : j = i
    · subst here
      rw [if_pos rfl]
      exact congrArg Socket.localPort (set_self _ _ _)
    · rw [if_neg here]
      exact congrArg Socket.localPort (set_other _ _ here)
  · rw [tcpConnect_state, if_neg other]
    exact is

theorem Assigns.of_keeps {t u v : Table} {i : Fin maxSockets} (kept : Keeps t u) (assigned : Assigns u v i) :
    Assigns t v i := by
  refine ⟨by rw [assigned.nextPort, kept.nextPort], fun j => ?_, fun j other is => assigned.closed j other (kept.closed j is)⟩
  rw [assigned.port, kept.port, kept.nextPort]

/-- All that http_get does to ports and closed sockets. -/
theorem http_cases {myIp : Ipv4Addr} {y y' : Client} {e : Http.Event} (taken : Http.Step myIp y e y') :
    connects y (.http e) = none ∧ Keeps y.table y'.table ∨
      ∃ i, connects y (.http e) = some i ∧ Assigns y.table y'.table i := by
  cases e with
  | get =>
    obtain ⟨-, rfl⟩ := step_get.mp taken
    exact .inl ⟨rfl, .refl _⟩
  | resolved ip =>
    obtain ⟨-, rfl⟩ := step_resolved.mp taken
    unfold Client.resolved connects
    dsimp only
    by_cases unknown : ipEq ip ipAny = true
    · rw [if_pos unknown, if_pos unknown]
      exact .inl ⟨rfl, .refl _⟩
    · rw [if_neg unknown, if_neg unknown]
      rcases tcpOpen_cases y.table with ⟨failed, -⟩ | ⟨i, opened, -⟩
      · rw [failed]
        exact .inl ⟨rfl, .refl _⟩
      · have kept := keeps_tcpOpen y.table
        rw [opened] at kept ⊢
        exact .inr ⟨i, rfl, .of_keeps kept (assigns_tcpConnect myIp _ i ip httpPort)⟩
  | polled =>
    obtain ⟨i, -, rfl⟩ := step_polled.mp taken
    unfold Client.polled
    split <;> exact .inl ⟨rfl, .refl _⟩
  | send request =>
    obtain ⟨i, -, rfl⟩ := step_send.mp taken
    exact .inl ⟨rfl, keeps_tcpSend myIp y.table i request⟩
  | kmalloc ptr =>
    obtain ⟨i, -, rfl⟩ := step_kmalloc.mp taken
    exact .inl ⟨rfl, .refl _⟩
  | close i =>
    obtain ⟨-, rfl⟩ := step_close.mp taken
    exact .inl ⟨rfl, keeps_tcpClose myIp y.table i⟩
  | segment src payload =>
    cases step_segment.mp taken
    exact .inl ⟨rfl, keeps_tcpHandle myIp y.table src payload⟩

/-- All that a step does to ports and closed sockets. -/
theorem step_cases {myIp : Ipv4Addr} {y y' : Client} {e : Event} (taken : Step myIp y e y') :
    connects y e = none ∧ Keeps y.table y'.table ∨ ∃ i, connects y e = some i ∧ Assigns y.table y'.table i := by
  cases e with
  | http e => exact http_cases taken
  | tcpOpen =>
    cases taken
    exact .inl ⟨rfl, keeps_tcpOpen y.table⟩
  | tcpConnect i dest port =>
    cases taken
    exact .inr ⟨i, rfl, assigns_tcpConnect myIp y.table i dest port⟩
  | tcpSend i data =>
    cases taken
    exact .inl ⟨rfl, keeps_tcpSend myIp y.table i data⟩
  | tcpRecv i maxLen =>
    cases taken
    exact .inl ⟨rfl, .set rfl id⟩
  | tcpClose i =>
    cases taken
    exact .inl ⟨rfl, keeps_tcpClose myIp y.table i⟩

/-! ### Runs -/

/-- After `c` connects the open sockets have different ones of the first `c` ports. -/
structure Inv (c : Nat) (t : Table) : Prop where
  nextPort : t.nextPort = UInt16.ofNat (firstPort + c)
  ports : ∀ i, (t.sockets i).state ≠ .closed →
    firstPort ≤ (t.sockets i).localPort.toNat ∧ (t.sockets i).localPort.toNat < firstPort + c
  distinct : Distinct t

theorem Inv.keeps {c : Nat} {t t' : Table} (invariant : Inv c t) (kept : Keeps t t') : Inv c t' := by
  have opened (j : Fin maxSockets) : (t'.sockets j).state ≠ .closed → (t.sockets j).state ≠ .closed :=
    mt (kept.closed j)
  refine ⟨kept.nextPort.trans invariant.nextPort, fun i is_open => ?_, fun i j first second same => ?_⟩
  · rw [kept.port]
    exact invariant.ports i (opened i is_open)
  · rw [kept.port, kept.port] at same
    exact invariant.distinct i j (opened i first) (opened j second) same

/-- A connect that finds a port of the range left takes a new one. -/
theorem Inv.assigns {c : Nat} {t t' : Table} {i : Fin maxSockets} (invariant : Inv c t) (room : c < portCount)
    (assigned : Assigns t t' i) : Inv (c + 1) t' ∧ (t'.sockets i).localPort.toNat = firstPort + c := by
  have word : firstPort + c < 2 ^ 16 := by
    have : portCount = 2 ^ 16 - firstPort := rfl
    omega
  have fresh : t.nextPort.toNat = firstPort + c := by
    rw [invariant.nextPort, UInt16.toNat_ofNat', Nat.mod_eq_of_lt word]
  have here : (t'.sockets i).localPort = t.nextPort := by rw [assigned.port, if_pos rfl]
  have there (j : Fin maxSockets) (other : j ≠ i) : (t'.sockets j).localPort = (t.sockets j).localPort := by
    rw [assigned.port, if_neg other]
  have opened (j : Fin maxSockets) (other : j ≠ i) : (t'.sockets j).state ≠ .closed → (t.sockets j).state ≠ .closed :=
    mt (assigned.closed j other)
  -- the port taken is above all that are in use
  have above (j : Fin maxSockets) (other : j ≠ i) (is_open : (t'.sockets j).state ≠ .closed) :
      (t'.sockets j).localPort ≠ t.nextPort := by
    intro same
    have := (invariant.ports j (opened j other is_open)).2
    rw [there j other] at same
    rw [same] at this
    omega
  refine ⟨⟨?_, fun j is_open => ?_, fun j k first second same => ?_⟩, by rw [here, fresh]⟩
  · rw [assigned.nextPort, invariant.nextPort, ← Nat.add_assoc, UInt16.ofNat_add (firstPort + c) 1]
    rfl
  · by_cases own : j = i
    · subst own
      rw [here]
      omega
    · obtain ⟨lower, upper⟩ := invariant.ports j (opened j own is_open)
      rw [there j own]
      omega
  · by_cases own : j = i
    · subst own
      by_contra other
      exact above k (Ne.symm other) second (same.symm.trans here)
    · by_cases own' : k = i
      · subst own'
        exact absurd (same.trans here) (above j own first)
      · rw [there j own, there k own'] at same
        exact invariant.distinct j k (opened j own first) (opened k own' second) same

theorem inv_start (t : Table) (first : t.nextPort = UInt16.ofNat firstPort) : Inv 0 (start t).table := by
  refine ⟨first, fun i is_open => absurd rfl is_open, fun i j is_open => absurd rfl is_open⟩

/-- From a state after `c` connects, a run is sound exactly as long as the range has ports left. -/
theorem run_sound_iff {myIp : Ipv4Addr} {y u : Client} {moves : List (Move Client Event)}
    (run : Run (Step myIp) y moves u) {c : Nat} (enough : c ≤ portCount) (invariant : Inv c y.table) :
    (∀ m ∈ moves, Sound m) ↔ c + connectCount moves ≤ portCount := by
  induction run generalizing c with
  | nil => simpa [connectCount] using enough
  | @cons y y' u e moves taken _ ih =>
    rw [List.forall_mem_cons, connectCount, List.countP_cons]
    rcases step_cases taken with ⟨quiet, kept⟩ | ⟨i, connected, assigned⟩
    · have after := invariant.keeps kept
      have sound : Sound ⟨y, e, y'⟩ := ⟨after.distinct, fun i connected => by cases quiet.symm.trans connected⟩
      rw [and_iff_right sound, ih enough after, quiet]
      rfl
    · rw [connected]
      rcases Nat.lt_or_eq_of_le enough with room | rfl
      · obtain ⟨after, port⟩ := invariant.assigns room assigned
        have sound : Sound ⟨y, e, y'⟩ := by
          refine ⟨after.distinct, fun j same => ?_⟩
          cases connected.symm.trans same
          rw [port]
          exact Nat.le_add_right _ _
        rw [and_iff_right sound, ih room after, connectCount]
        simp only [Option.isSome_some, ↓reduceIte]
        omega
      · -- the counter has wrapped around to 0
        have wrapped : (y'.table.sockets i).localPort.toNat = 0 := by
          rw [assigned.port, if_pos rfl, invariant.nextPort]
          rfl
        simp only [Option.isSome_some, ↓reduceIte]
        refine iff_of_false (fun ⟨sound, _⟩ => ?_) (by omega)
        have := sound.2 i connected
        rw [wrapped] at this
        exact absurd this (by decide)

/-- In a run from tcp_init the open sockets have distinct ports and every assigned port is in the range
exactly as long as tcp_connect is called no more often than the range has ports. -/
theorem ports_sound_iff (myIp : Ipv4Addr) {t : Table} (first : t.nextPort = UInt16.ofNat firstPort)
    {moves : List (Move Client Event)} {y : Client} (run : Run (Step myIp) (start t) moves y) :
    (Distinct (start t).table ∧ ∀ m ∈ moves, Sound m) ↔ connectCount moves ≤ 16384 := by
  have invariant := inv_start t first
  have size : portCount = 16384 := rfl
  rw [and_iff_right invariant.distinct, run_sound_iff run (Nat.zero_le _) invariant, Nat.zero_add, size]

theorem ports_sound_iff_one_connect : ∃ moves y, Run (Step (addr 10 0 2 15)) (start blankTable) moves y ∧
    connectCount moves = 1 ∧
    ((Distinct (start blankTable).table ∧ ∀ m ∈ moves, Sound m) ↔ connectCount moves ≤ 16384) := by
  obtain ⟨moves, y, run, one⟩ : ∃ moves y, Run (Step (addr 10 0 2 15)) (start blankTable) moves y ∧
      connectCount moves = 1 :=
    ⟨[⟨_, .tcpConnect 0 (addr 10 0 2 2) 80, _⟩], _, .single rfl, rfl⟩
  exact ⟨moves, y, run, one, ports_sound_iff (addr 10 0 2 15) rfl run⟩

/-- Any number of connections, each closed before the next. -/
theorem exists_connects (myIp dest : Ipv4Addr) (n : Nat) (y : Client) :
    ∃ moves u, Run (Step myIp) y moves u ∧ connectCount moves = n := by
  induction n generalizing y with
  | zero => exact ⟨[], y, .nil y, rfl⟩
  | succ n ih =>
    let connected : Client := { y with table := (Tcp.tcpConnect myIp y.table 0 dest 80).1 }
    let closed : Client := onSocket connected 0 fun s => (Tcp.tcpClose myIp s).1
    obtain ⟨moves, u, run, count⟩ := ih closed
    have first : Step myIp y (.tcpConnect 0 dest 80) connected := rfl
    have second : Step myIp connected (.tcpClose 0) closed := rfl
    refine ⟨_, u, .cons first (.cons second run), ?_⟩
    simp only [connectCount, List.countP_cons, connects] at count ⊢
    rw [count]
    rfl

/-- The 16385th connection is given port 0. -/
theorem port_counter_wraps : ∃ moves y, Run (Step (addr 10 0 2 15)) (start blankTable) moves y ∧
    connectCount moves = 16385 ∧ ¬ (Distinct (start blankTable).table ∧ ∀ m ∈ moves, Sound m) := by
  obtain ⟨moves, y, run, count⟩ := exists_connects (addr 10 0 2 15) (addr 10 0 2 2) 16385 (start blankTable)
  refine ⟨moves, y, run, count, fun ⟨_, sound⟩ => ?_⟩
  have := (run_sound_iff run (Nat.zero_le _) (inv_start blankTable rfl)).mp sound
  rw [count] at this
  exact absurd this (by decide)

end ChrisOS.Net.Http.Ports
