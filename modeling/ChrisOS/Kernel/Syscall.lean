import ChrisOS.Net.Tcp
import ChrisOS.Lib.Run

/-! The network system calls of kernel/syscall.c over the TCP socket table.

A handle id is an index into sock_table, and an entry of sock_table is a socket of
the table of net/tcp.c. What arrives while a call polls is a step of its own.
-/

set_option autoImplicit false

namespace ChrisOS.Kernel.Syscall
open ChrisOS.Lib ChrisOS.Net ChrisOS.Net.Tcp

/-- Entries of sock_table. -/
def sockTableSize : Nat := 8

instance : NeZero sockTableSize := ⟨by decide⟩

structure Sys where
  table : Table
  handles : Fin sockTableSize → Option (Fin maxSockets)

def getSock (y : Sys) (id : Nat) : Option (Fin maxSockets) :=
  if inside : id < sockTableSize then y.handles ⟨id, inside⟩ else none

/-- The first free entry takes the socket; none stands for -1. -/
def allocSock (y : Sys) (s : Fin maxSockets) : Sys × Option (Fin sockTableSize) :=
  match (List.finRange sockTableSize).find? fun i => (y.handles i).isNone with
  | none => (y, none)
  | some i => ({ y with handles := Function.update y.handles i (some s) }, some i)

/-- The calls with the registers and user bytes they read. -/
inductive Call where
  | socket
  | connect (id : Nat) (ip : Ipv4Addr) (port : UInt16)
  | send (id : Nat) (data : List UInt8)
  | recv (id : Nat) (maxLen : Nat)
  | close (id : Nat)

/-- What a call sends, the bytes it stores for the caller, and eax. SYS_NET_CONNECT has its eax
only when its polling loop ends, from connectResult. -/
structure Reply where
  out : List Outgoing
  buf : List UInt8
  eax : Option UInt32

def failed : Reply := ⟨[], [], some (0 - 1)⟩

/-- A call that goes through get_sock: -1 without a socket. -/
def through (y : Sys) (id : Nat) (f : Fin maxSockets → Sys × Reply) : Sys × Reply :=
  match getSock y id with
  | none => (y, failed)
  | some i => f i

def sysSocket (y : Sys) : Sys × Reply :=
  let opened := tcpOpen y.table
  let y := { y with table := opened.1 }
  match opened.2 with
  | none => (y, failed)
  | some s =>
    let r := allocSock y s
    (r.1, ⟨[], [], some (r.2.elim (0 - 1) fun id => UInt32.ofNat id)⟩)

def sysConnect (myIp : Ipv4Addr) (y : Sys) (id : Nat) (ip : Ipv4Addr) (port : UInt16) : Sys × Reply :=
  through y id fun i =>
    let r := tcpConnect myIp y.table i ip port
    ({ y with table := r.1 }, ⟨r.2, [], none⟩)

def sysSend (myIp : Ipv4Addr) (y : Sys) (id : Nat) (data : List UInt8) : Sys × Reply :=
  through y id fun i =>
    let r := tcpSend myIp (y.table.sockets i) data
    ({ y with table := y.table.set i r.1 }, ⟨r.2.1, [], some (UInt32.ofInt r.2.2)⟩)

def sysRecv (y : Sys) (id maxLen : Nat) : Sys × Reply :=
  through y id fun i =>
    let r := tcpRecv (y.table.sockets i) maxLen
    ({ y with table := y.table.set i r.1 }, ⟨[], r.2, some (UInt32.ofNat r.2.length)⟩)

/-- SYS_NET_CLOSE empties the entry and always returns 0. -/
def sysClose (myIp : Ipv4Addr) (y : Sys) (id : Nat) : Sys × Reply :=
  match getSock y id with
  | none => (y, ⟨[], [], some 0⟩)
  | some i =>
    let r := tcpClose myIp (y.table.sockets i)
    ({ table := y.table.set i r.1, handles := fun j => if j.val = id then none else y.handles j }, ⟨r.2, [], some 0⟩)

def syscallHandler (myIp : Ipv4Addr) (y : Sys) : Call → Sys × Reply
  | .socket => sysSocket y
  | .connect id ip port => sysConnect myIp y id ip port
  | .send id data => sysSend myIp y id data
  | .recv id maxLen => sysRecv y id maxLen
  | .close id => sysClose myIp y id

/-! ### Runs -/

inductive Event where
  | call (c : Call)
  | segment (src : Ipv4Addr) (payload : List UInt8)

inductive Step (myIp : Ipv4Addr) : Sys → Event → Sys → Prop where
  | call {y : Sys} (c : Call) : Step myIp y (.call c) (syscallHandler myIp y c).1
  | segment {y : Sys} (src : Ipv4Addr) (payload : List UInt8) :
      Step myIp y (.segment src payload) { y with table := (tcpHandle myIp y.table src payload).1 }

/-- tcp_init, with sock_table still zero. -/
def boot (table : Table) : Sys := ⟨tcpInit table, fun _ => none⟩

/-- Handles that are open at the same time refer to different sockets. -/
def Distinct (y : Sys) : Prop :=
  ∀ a b i, y.handles a = some i → y.handles b = some i → a = b

/-- The handle id that a call names. -/
def Call.id : Call → Option Nat
  | .socket => none
  | .connect id _ _ | .send id _ | .recv id _ | .close id => some id

/-- A call leaves the socket behind every other open handle as it is. -/
def KeepsOthers (y : Sys) (e : Event) (y' : Sys) : Prop :=
  ∀ c, e = .call c → ∀ b i, y.handles b = some i → c.id ≠ some b.val → y'.table.sockets i = y.table.sockets i

/-- SYS_NET_SOCKET is about to reuse a CLOSED socket that an open handle still refers to. -/
def Reuses (y : Sys) (e : Event) : Prop :=
  e = .call .socket ∧ ∃ i, (y.table.first fun s => s.state = .closed) = some i ∧ ∃ b, y.handles b = some i

theorem getSock_some {y : Sys} {id : Nat} {i : Fin maxSockets} (found : getSock y id = some i) :
    ∃ b : Fin sockTableSize, b.val = id ∧ y.handles b = some i := by
  unfold getSock at found
  split at found
  · exact ⟨_, rfl, found⟩
  · cases found

/-- With distinct handles, four sockets cannot fill eight entries. -/
theorem exists_free {y : Sys} (distinct : Distinct y) : ∃ b, y.handles b = none := by
  by_contra full
  have held (b : Fin sockTableSize) : (y.handles b).isSome = true := by
    rw [Option.isSome_iff_ne_none]
    exact fun none_held => full ⟨b, none_held⟩
  -- eight handles on four sockets
  have injective : Function.Injective fun b => (y.handles b).get (held b) := by
    intro a b same
    refine distinct a b _ (Option.some_get (held a)).symm ?_
    simp only at same
    rw [same, Option.some_get]
  have := Fintype.card_le_of_injective _ injective
  rw [Fintype.card_fin, Fintype.card_fin] at this
  exact absurd this (by decide)

/-! ### One step -/

theorem tcpOpen_none {t : Table} (missed : (t.first fun s => s.state = .closed) = none) : tcpOpen t = (t, none) := by
  rw [tcpOpen, missed]

theorem tcpOpen_some {t : Table} {i : Fin maxSockets} (found : (t.first fun s => s.state = .closed) = some i) :
    tcpOpen t = (t.set i (t.sockets i).opened, some i) := by
  rw [tcpOpen, found]

theorem allocSock_cases (y : Sys) (s : Fin maxSockets) :
    (allocSock y s = (y, none) ∧ ∀ b, y.handles b ≠ none) ∨
    ∃ b, y.handles b = none ∧
      allocSock y s = ({ y with handles := Function.update y.handles b (some s) }, some b) := by
  unfold allocSock
  cases found : (List.finRange sockTableSize).find? fun i => (y.handles i).isNone with
  | none =>
    refine .inl ⟨rfl, fun b free => ?_⟩
    have := List.find?_eq_none.mp found b (List.mem_finRange b)
    simp [free] at this
  | some b =>
    have := List.find?_some (p := fun i => (y.handles i).isNone) found
    exact .inr ⟨b, by simpa using this, rfl⟩

/-- A call that goes through get_sock touches at most the socket of its handle. -/
theorem through_touches {y : Sys} {id : Nat} {f : Fin maxSockets → Sys × Reply}
    (handles : ∀ i b j, (f i).1.handles b = some j → y.handles b = some j)
    (sockets : ∀ i j, j ≠ i → (f i).1.table.sockets j = y.table.sockets j) :
    (∀ b j, (through y id f).1.handles b = some j → y.handles b = some j) ∧
      ∀ j, getSock y id ≠ some j → (through y id f).1.table.sockets j = y.table.sockets j := by
  unfold through
  cases found : getSock y id with
  | none => exact ⟨fun _ _ held => held, fun _ _ => rfl⟩
  | some i =>
    refine ⟨handles i, fun j other => sockets i j ?_⟩
    rintro rfl
    exact other rfl

/-- What a call other than SYS_NET_SOCKET does: it touches the socket of its handle, and opens no handle. -/
theorem syscall_touches (myIp : Ipv4Addr) (y : Sys) {c : Call} {id : Nat} (named : c.id = some id) :
    (∀ b i, (syscallHandler myIp y c).1.handles b = some i → y.handles b = some i) ∧
      ∀ j, getSock y id ≠ some j → (syscallHandler myIp y c).1.table.sockets j = y.table.sockets j := by
  cases c with
  | socket => cases named
  | connect | send | recv =>
    cases named
    exact through_touches (fun _ _ _ held => held) fun _ _ other => set_other _ _ other
  | close _ =>
    cases named
    simp only [syscallHandler, sysClose]
    cases found : getSock y id with
    | none => exact ⟨fun _ _ held => held, fun _ _ => rfl⟩
    | some i =>
      refine ⟨fun b j held => ?_, fun j other => set_other _ _ ?_⟩
      · simp only at held
        split at held
        · cases held
        · exact held
      · rintro rfl
        exact other rfl

theorem sysSocket_cases (y : Sys) :
    ((y.table.first fun s => s.state = .closed) = none ∧ (sysSocket y).1 = y) ∨
    ∃ i, (y.table.first fun s => s.state = .closed) = some i ∧
      (sysSocket y).1.table = y.table.set i (y.table.sockets i).opened ∧
      ((sysSocket y).1.handles = y.handles ∧ (∀ b, y.handles b ≠ none) ∨
        ∃ b, y.handles b = none ∧ (sysSocket y).1.handles = Function.update y.handles b (some i)) := by
  unfold sysSocket
  cases found : y.table.first fun s => s.state = .closed with
  | none =>
    rw [tcpOpen_none found]
    exact .inl ⟨rfl, rfl⟩
  | some i =>
    rw [tcpOpen_some found]
    refine .inr ⟨i, rfl, ?_⟩
    rcases allocSock_cases { y with table := y.table.set i (y.table.sockets i).opened } i with ⟨full, busy⟩ | ⟨b, free, took⟩
    · simp only [full]
      exact ⟨trivial, .inl ⟨trivial, busy⟩⟩
    · simp only [took]
      exact ⟨trivial, .inr ⟨b, free, rfl⟩⟩

/-- SYS_NET_SOCKET keeps the handles distinct and the sockets behind them as they are exactly when the socket
that it opens is behind none of them. -/
theorem sysSocket_good_iff {y : Sys} (distinct : Distinct y) :
    Distinct (sysSocket y).1 ∧ KeepsOthers y (.call .socket) (sysSocket y).1 ↔ ¬ Reuses y (.call .socket) := by
  rcases sysSocket_cases y with ⟨missed, same⟩ | ⟨i, found, table, handles⟩
  · rw [same]
    refine iff_of_true ⟨distinct, fun _ _ _ _ _ _ => rfl⟩ ?_
    rintro ⟨-, i, found, -⟩
    rw [missed] at found
    cases found
  · -- an entry is free, so the new socket gets its handle
    obtain ⟨free, is_free⟩ := exists_free distinct
    obtain ⟨-, busy⟩ | ⟨b, empty, handles⟩ := handles
    · exact absurd is_free (busy free)
    have reuses : Reuses y (.call .socket) ↔ ∃ a, y.handles a = some i := by
      constructor
      · rintro ⟨-, j, found', held⟩
        cases found.symm.trans found'
        exact held
      · exact fun held => ⟨rfl, i, found, held⟩
    rw [reuses]
    constructor
    · rintro ⟨distinct', -⟩ ⟨a, held⟩
      -- the old handle and the new one are on the same socket
      have other : a ≠ b := by
        rintro rfl
        rw [empty] at held
        cases held
      refine other (distinct' a b i ?_ ?_)
      · rw [handles, Function.update_of_ne other]
        exact held
      · rw [handles, Function.update_self]
    · intro unused
      refine ⟨fun a a' j left right => ?_, fun c same a j held _ => ?_⟩
      · rw [handles, Function.update_apply] at left right
        split at left <;> split at right
        · rename_i first second
          rw [first, second]
        · cases left
          exact absurd ⟨_, right⟩ unused
        · cases right
          exact absurd ⟨_, left⟩ unused
        · exact distinct a a' j left right
      · rw [table]
        refine set_other _ _ ?_
        rintro rfl
        exact unused ⟨a, held⟩

/-- A step from distinct handles keeps them distinct and their sockets apart exactly when it does not
reuse a socket. -/
theorem Step.good_iff {myIp : Ipv4Addr} {y y' : Sys} {e : Event} (distinct : Distinct y) (taken : Step myIp y e y') :
    Distinct y' ∧ KeepsOthers y e y' ↔ ¬ Reuses y e := by
  cases taken with
  | segment src payload =>
    refine iff_of_true ⟨distinct, fun c same => ?_⟩ ?_
    · cases same
    · rintro ⟨same, -⟩
      cases same
  | call c =>
    cases named : c.id with
    | some id =>
      obtain ⟨opens, leaves⟩ := syscall_touches myIp y named
      refine iff_of_true ⟨fun a b i left right => distinct a b i (opens a i left) (opens b i right),
        fun c' same b i held other => ?_⟩ ?_
      · cases same
        refine leaves i fun found => ?_
        obtain ⟨a, at_, held'⟩ := getSock_some found
        -- two handles on one socket are one handle
        rw [distinct b a i held held'] at other
        exact other (named.trans (congrArg some at_.symm))
      · rintro ⟨same, -⟩
        cases same
        cases named
    | none =>
      have socket : c = .socket := by
        cases c <;> first | rfl | cases named
      subst socket
      exact sysSocket_good_iff distinct

/-- Open handles stay apart over a whole run exactly when no SYS_NET_SOCKET is taken while the first
CLOSED socket is behind an open handle. -/
theorem run_distinct_iff {myIp : Ipv4Addr} {table : Table} {moves : List (Move Sys Event)} {y : Sys}
    (run : Run (Step myIp) (boot table) moves y) :
    (∀ m ∈ moves, Distinct m.after ∧ KeepsOthers m.before m.event m.after) ↔
      ∀ m ∈ moves, ¬ Reuses m.before m.event := by
  refine run.good_iff Distinct (fun y e => ¬ Reuses y e) (fun y e y' => Distinct y' ∧ KeepsOthers y e y')
    (fun before fresh taken => ((taken.good_iff before).mpr fresh).1) (fun before taken => taken.good_iff before) ?_
  intro a b i held
  cases held

theorem run_distinct_iff_one_socket :
    (∀ m ∈ [Move.mk (boot blankTable) (Event.call .socket) (sysSocket (boot blankTable)).1],
        Distinct m.after ∧ KeepsOthers m.before m.event m.after) ↔
      ∀ m ∈ [Move.mk (boot blankTable) (Event.call .socket) (sysSocket (boot blankTable)).1],
        ¬ Reuses m.before m.event :=
  run_distinct_iff (Run.single (Step.call .socket : Step ⟨fun _ => 0⟩ (boot blankTable) _ _))

/-- Two SYS_NET_SOCKET calls in a row: both handles refer to socket 0. -/
theorem two_sockets_alias : ∃ moves y, Run (Step ⟨fun _ => 0⟩) (boot blankTable) moves y ∧
    moves.map Move.event = [.call .socket, .call .socket] ∧ y.handles 0 = some 0 ∧ y.handles 1 = some 0 ∧
    ¬ ∀ m ∈ moves, Distinct m.after ∧ KeepsOthers m.before m.event m.after := by
  refine ⟨_, _, .cons (.call .socket) (.single (.call .socket)), rfl, rfl, rfl, fun good => ?_⟩
  have distinct := (good _ (.tail _ (.head _))).1
  exact absurd (distinct 0 1 0 rfl rfl) (by decide)

end ChrisOS.Kernel.Syscall
