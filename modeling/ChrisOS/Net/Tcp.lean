import ChrisOS.Net.Types
import ChrisOS.Lib.Ring
import Mathlib

/-! The TCP code of net/tcp.c.

A call returns the new socket and the segments it sends. The polling loops of
tcp_connect and tcp_recv are left to the run: what arrives meanwhile is a step of
its own. So is what arrives while a segment waits for its ARP reply.
-/

set_option autoImplicit false

namespace ChrisOS.Net.Tcp
open ChrisOS.Lib

def flagFin : UInt8 := 0x01
def flagSyn : UInt8 := 0x02
def flagRst : UInt8 := 0x04
def flagAck : UInt8 := 0x10

def maxSockets : Nat := 4
def maxPayload : Nat := 1440
def hdrLen : Nat := 20

/-- sizeof(rx_buf). -/
def rxSize : Nat := 4096

instance : NeZero maxSockets := ⟨by decide⟩

instance : NeZero rxSize := ⟨by decide⟩

inductive State where
  | closed | synSent | established | finWait
  deriving DecidableEq, Repr

structure Socket where
  remoteIp : Ipv4Addr
  remotePort : UInt16
  localPort : UInt16
  seq : UInt32
  ack : UInt32
  state : State
  rxBuf : Fin rxSize → UInt8
  rxHead : Fin rxSize
  rxTail : Fin rxSize

structure Header where
  srcPort : UInt16
  dstPort : UInt16
  seq : UInt32
  ack : UInt32
  dataOff : UInt8
  flags : UInt8
  window : UInt16
  checksum : UInt16
  urgent : UInt16
  deriving DecidableEq

def Header.encode (h : Header) : List UInt8 :=
  bytes16 h.srcPort ++ bytes16 h.dstPort ++ bytes32 h.seq ++ bytes32 h.ack ++ [h.dataOff, h.flags] ++
    bytes16 h.window ++ bytes16 h.checksum ++ bytes16 h.urgent

/-- The packed structure over the first bytes of a segment. -/
def Header.decode (b : List UInt8) : Header where
  srcPort := word16At b 0
  dstPort := word16At b 2
  seq := word32At b 4
  ack := word32At b 8
  dataOff := byteAt b 12
  flags := byteAt b 13
  window := word16At b 14
  checksum := word16At b 16
  urgent := word16At b 18

theorem Header.length_encode (h : Header) : h.encode.length = hdrLen := rfl

theorem Header.decode_encode (h : Header) (data : List UInt8) : decode (h.encode ++ data) = h := by
  cases h with
  | mk srcPort dstPort seq ack dataOff flags window checksum urgent =>
    simp only [decode, Header.mk.injEq]
    exact ⟨be16_bytes16 srcPort, be16_bytes16 dstPort, be32_bytes32 seq, be32_bytes32 ack, rfl, rfl,
      be16_bytes16 window, be16_bytes16 checksum, be16_bytes16 urgent⟩

/-! ### Checksum -/

/-- The 16-bit words of a byte string, a last odd byte padded with zero. -/
def sumWords : List UInt8 → Nat
  | [] => 0
  | [a] => a.toNat * 256
  | a :: b :: rest => a.toNat * 256 + b.toNat + sumWords rest

/-- `while (sum >> 16) sum = (sum & 0xFFFF) + (sum >> 16)`. -/
def foldCarry (sum : Nat) : Nat := if sum < 2 ^ 16 then sum else foldCarry (sum % 2 ^ 16 + sum / 2 ^ 16)
  termination_by sum
  decreasing_by omega

def ipProtoTcp : Nat := 6

/-- tcp_checksum over the pseudo header and the segment, whose words sum up below 2^32. -/
def tcpChecksum (src dst : Ipv4Addr) (seg : List UInt8) : UInt16 :=
  ~~~ UInt16.ofNat (foldCarry (sumWords src.toList + sumWords dst.toList + ipProtoTcp + seg.length + sumWords seg))

/-! ### Sending -/

/-- A segment handed to ipv4_send. -/
structure Outgoing where
  dest : Ipv4Addr
  header : Header
  data : List UInt8
  deriving DecidableEq

def Outgoing.bytes (o : Outgoing) : List UInt8 := o.header.encode ++ o.data

def tcpSendFlags (myIp : Ipv4Addr) (s : Socket) (flags : UInt8) (data : List UInt8) : Outgoing :=
  -- what is beyond one segment is dropped
  let data := data.take maxPayload
  let hdr : Header :=
    { srcPort := s.localPort
      dstPort := s.remotePort
      seq := s.seq
      ack := if flags &&& flagAck ≠ 0 then s.ack else 0
      dataOff := 0x50
      flags := flags
      window := 4096
      checksum := 0
      urgent := 0 }
  ⟨s.remoteIp, { hdr with checksum := tcpChecksum myIp s.remoteIp (hdr.encode ++ data) }, data⟩

/-! ### The socket table -/

structure Table where
  sockets : Fin maxSockets → Socket
  nextPort : UInt16

def Table.set (t : Table) (i : Fin maxSockets) (s : Socket) : Table :=
  { t with sockets := Function.update t.sockets i s }

/-- A for loop over the table that stops at the first hit. -/
def Table.first (t : Table) (hit : Socket → Bool) : Option (Fin maxSockets) :=
  (List.finRange maxSockets).find? fun i => hit (t.sockets i)

def blankSocket : Socket := ⟨⟨fun _ => 0⟩, 0, 0, 0, 0, .closed, fun _ => 0, 0, 0⟩

/-- The table as the kernel image holds it. -/
def blankTable : Table := ⟨fun _ => blankSocket, 49152⟩

def tcpInit (t : Table) : Table := { t with sockets := fun i => { t.sockets i with state := .closed } }

def Socket.opened (s : Socket) : Socket := { s with rxHead := 0, rxTail := 0, seq := 0xABCD1234, ack := 0 }

/-- The table and the index of the socket returned; none stands for a null pointer. -/
def tcpOpen (t : Table) : Table × Option (Fin maxSockets) :=
  match t.first fun s => s.state = .closed with
  | none => (t, none)
  | some i => (t.set i (t.sockets i).opened, some i)

/-- tcp_connect up to its polling loop. -/
def tcpConnect (myIp : Ipv4Addr) (t : Table) (i : Fin maxSockets) (dest : Ipv4Addr) (port : UInt16) :
    Table × List Outgoing :=
  let s := { t.sockets i with remoteIp := dest, remotePort := port, localPort := t.nextPort, state := .synSent }
  ({ t.set i { s with seq := s.seq + 1 } with nextPort := t.nextPort + 1 }, [tcpSendFlags myIp s flagSyn []])

/-- What tcp_connect returns once its loop ends. -/
def connectResult (s : Socket) : Int := if s.state = .established then 0 else -1

def tcpSend (myIp : Ipv4Addr) (s : Socket) (data : List UInt8) : Socket × List Outgoing × Int :=
  if s.state ≠ .established then (s, [], -1)
  -- seq moves on by all of data, sent or not
  else ({ s with seq := s.seq + UInt32.ofNat data.length }, [tcpSendFlags myIp s flagAck data], data.length)

def Socket.ring (s : Socket) : Ring rxSize UInt8 := ⟨s.rxBuf, s.rxHead, s.rxTail⟩

def Socket.withRing (s : Socket) (r : Ring rxSize UInt8) : Socket :=
  { s with rxBuf := r.buf, rxHead := r.head, rxTail := r.tail }

/-- tcp_recv after its polling loop: at most `maxLen` bytes, while head and tail differ. -/
def tcpRecv (s : Socket) (maxLen : Nat) : Socket × List UInt8 :=
  let taken := Ring.takeUpTo maxLen s.ring
  (s.withRing taken.2, taken.1)

def tcpClose (myIp : Ipv4Addr) (s : Socket) : Socket × List Outgoing :=
  -- FIN_WAIT is never entered
  ({ s with state := .closed }, if s.state = .established then [tcpSendFlags myIp s (flagFin ||| flagAck) []] else [])

/-! ### Receiving -/

/-- The branch of a socket in SYN_SENT. -/
def onSynSent (myIp : Ipv4Addr) (s : Socket) (src : Ipv4Addr) (h : Header) : Socket × List Outgoing :=
  if h.flags &&& (flagSyn ||| flagAck) = flagSyn ||| flagAck then
    -- any SYN+ACK will do: its source and its ack are taken over, not compared
    let s := { s with
      ack := h.seq + 1
      seq := h.ack
      state := .established
      remoteIp := src
      remotePort := h.srcPort }
    (s, [tcpSendFlags myIp s flagAck []])
  else (s, [])

/-- The branch of a socket in ESTABLISHED. -/
def onEstablished (myIp : Ipv4Addr) (s : Socket) (h : Header) (data : List UInt8) : Socket × List Outgoing :=
  if h.flags &&& flagRst ≠ 0 then ({ s with state := .closed }, [])
  else if h.flags &&& flagFin ≠ 0 then
    -- data that comes with the FIN are dropped
    let s := { s with ack := h.seq + 1 }
    ({ s with state := .closed }, [tcpSendFlags myIp s (flagAck ||| flagFin) []])
  else if data.length > 0 then
    -- h.seq is not compared with s.ack, nor the data with the room left
    let s := { s.withRing (s.ring.pushAll data) with ack := h.seq + UInt32.ofNat data.length }
    (s, [tcpSendFlags myIp s flagAck []])
  else (s, [])

/-- The tests of the demultiplexing loop, up to the two states that end it. -/
def Socket.listens (s : Socket) (dstPort : UInt16) : Bool :=
  s.state ≠ .closed && s.localPort = dstPort && (s.state = .synSent || s.state = .established)

/-- `data_off` in bytes. -/
def Header.offset (h : Header) : Nat := (h.dataOff >>> 4).toNat * 4

/-- A segment that passes the length tests: its header and its data. -/
def parse (payload : List UInt8) : Option (Header × List UInt8) :=
  if payload.length < hdrLen then none
  else
    let h := Header.decode payload
    if h.offset < hdrLen ∨ h.offset > payload.length then none
    else some (h, payload.drop h.offset)

/-- A header without options is followed by the data. -/
theorem parse_encode (h : Header) (data : List UInt8) (off : h.dataOff = 0x50) :
    parse (h.encode ++ data) = some (h, data) := by
  have long : ¬ (h.encode ++ data).length < hdrLen := by
    rw [List.length_append, Header.length_encode]
    omega
  have offset : h.offset = hdrLen := by
    unfold Header.offset
    rw [off]
    rfl
  have inside : ¬ (h.offset < hdrLen ∨ h.offset > (h.encode ++ data).length) := by
    rw [offset]
    omega
  have rest : (h.encode ++ data).drop hdrLen = data := List.drop_left' (Header.length_encode h)
  rw [parse, if_neg long]
  dsimp only
  rw [Header.decode_encode, if_neg inside, offset, rest]

def dispatch (myIp : Ipv4Addr) (s : Socket) (src : Ipv4Addr) (h : Header) (data : List UInt8) :
    Socket × List Outgoing :=
  if s.state = .synSent then onSynSent myIp s src h else onEstablished myIp s h data

def tcpHandle (myIp : Ipv4Addr) (t : Table) (src : Ipv4Addr) (payload : List UInt8) : Table × List Outgoing :=
  match parse payload with
  | none => (t, [])
  | some seg =>
    match t.first (·.listens seg.1.dstPort) with
    | none => (t, [])
    | some i =>
      let r := dispatch myIp (t.sockets i) src seg.1 seg.2
      (t.set i r.1, r.2)

/-! ### First hits -/

theorem first_hit {t : Table} {hit : Socket → Bool} {i : Fin maxSockets} (found : t.first hit = some i) :
    hit (t.sockets i) = true :=
  List.find?_some (p := fun i => hit (t.sockets i)) found

theorem first_none {t : Table} {hit : Socket → Bool} (missed : t.first hit = none) (i : Fin maxSockets) :
    hit (t.sockets i) = false := by
  have := List.find?_eq_none.mp missed i (List.mem_finRange i)
  simpa using this

theorem first_eq_some_iff {t : Table} {hit : Socket → Bool} {i : Fin maxSockets} :
    t.first hit = some i ↔ hit (t.sockets i) = true ∧ ∀ j < i, hit (t.sockets j) = false := by
  rw [Table.first, ← Fin.find?_eq_find?_finRange, Fin.find?_eq_some_iff]

@[simp] theorem set_self (t : Table) (i : Fin maxSockets) (s : Socket) : (t.set i s).sockets i = s :=
  Function.update_self _ _ _

theorem set_other (t : Table) {i j : Fin maxSockets} (s : Socket) (other : j ≠ i) :
    (t.set i s).sockets j = t.sockets j := Function.update_of_ne other _ _

theorem set_same (t : Table) (i : Fin maxSockets) : t.set i (t.sockets i) = t := by
  rw [Table.set, Function.update_eq_self]

/-- Changing a socket to one that answers the test alike changes no first hit. -/
theorem first_set {t : Table} {hit : Socket → Bool} {i : Fin maxSockets} {s : Socket}
    (same : hit s = hit (t.sockets i)) : (t.set i s).first hit = t.first hit := by
  have agree : (fun j => hit ((t.set i s).sockets j)) = fun j => hit (t.sockets j) := by
    funext j
    by_cases here : j = i
    · subst here
      rw [set_self, same]
    · rw [set_other t s here]
  rw [Table.first, agree]
  rfl

end ChrisOS.Net.Tcp
