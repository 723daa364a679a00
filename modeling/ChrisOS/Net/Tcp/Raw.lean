import ChrisOS.Net.Tcp.Demux
import ChrisOS.Net.Udp
import ChrisOS.Lib.Traced

/-! The sockets of net/tcp.c as C declares them, and every access that tcp_handle makes.

Here the indices of a receive buffer are 16-bit numbers, which nothing but the code keeps
below its size, and a segment is memory behind a pointer with the length that came with it.
-/

set_option autoImplicit false

namespace ChrisOS.Net.Tcp.Raw
open ChrisOS.Lib Traced
open ChrisOS.Net.Udp (window length_window window_succ window_drop byteAt_window)

inductive Access where
  /-- Of the segment. -/
  | read (i : Nat)
  /-- Of rx_buf. -/
  | write (i : Nat)

/-- tcp_socket_t. -/
structure RawSocket where
  remoteIp : Ipv4Addr
  remotePort : UInt16
  localPort : UInt16
  seq : UInt32
  ack : UInt32
  state : State
  rxBuf : Nat → UInt8
  rxHead : UInt16
  rxTail : UInt16

structure RawTable where
  sockets : Fin maxSockets → RawSocket
  nextPort : UInt16

def RawTable.set (t : RawTable) (i : Fin maxSockets) (s : RawSocket) : RawTable :=
  { t with sockets := Function.update t.sockets i s }

def RawTable.first (t : RawTable) (hit : RawSocket → Bool) : Option (Fin maxSockets) :=
  (List.finRange maxSockets).find? fun i => hit (t.sockets i)

/-- `(uint16_t)((index + 1) % sizeof(rx_buf))`. -/
def nextIndex (index : UInt16) : UInt16 := UInt16.ofNat ((index.toNat + 1) % rxSize)

/-- The socket with its buffer as a ring. -/
def RawSocket.view (s : RawSocket) : Socket where
  remoteIp := s.remoteIp
  remotePort := s.remotePort
  localPort := s.localPort
  seq := s.seq
  ack := s.ack
  state := s.state
  rxBuf := fun k => s.rxBuf k
  rxHead := Fin.ofNat rxSize s.rxHead.toNat
  rxTail := Fin.ofNat rxSize s.rxTail.toNat

def RawTable.view (t : RawTable) : Table := ⟨fun i => (t.sockets i).view, t.nextPort⟩

/-! ### Receiving -/

def load (m : Nat → UInt8) (i : Nat) : Traced Access UInt8 := do
  emit (.read i)
  pure (m i)

def load16 (m : Nat → UInt8) (i : Nat) : Traced Access UInt16 := do
  let hi ← load m i
  let lo ← load m (i + 1)
  pure (be16 hi lo)

def load32 (m : Nat → UInt8) (i : Nat) : Traced Access UInt32 := do
  let a ← load m i
  let b ← load m (i + 1)
  let c ← load m (i + 2)
  let d ← load m (i + 3)
  pure (be32 a b c d)

/-- The fields of the header that tcp_handle reads. -/
structure Fields where
  dstPort : UInt16
  srcPort : UInt16
  flags : UInt8
  seq : UInt32
  ack : UInt32
  dataOff : UInt8

def loadFields (m : Nat → UInt8) : Traced Access Fields := do
  let dstPort ← load16 m 2
  let srcPort ← load16 m 0
  let flags ← load m 13
  let seq ← load32 m 4
  let ack ← load32 m 8
  let dataOff ← load m 12
  pure ⟨dstPort, srcPort, flags, seq, ack, dataOff⟩

/-- `off`; at most 60. -/
def Fields.offset (f : Fields) : Nat := (f.dataOff >>> 4).toNat * 4

def RawSocket.store (s : RawSocket) (b : UInt8) : Traced Access RawSocket := do
  emit (.write s.rxHead.toNat)
  pure { s with rxBuf := Function.update s.rxBuf s.rxHead.toNat b, rxHead := nextIndex s.rxHead }

/-- The loop over the data, with this many bytes left from index `i` on. -/
def storeLoop (m : Nat → UInt8) : Nat → Nat → RawSocket → Traced Access RawSocket
  | 0, _, s => pure s
  | left + 1, i, s => do
    let b ← load m i
    let s ← s.store b
    storeLoop m left (i + 1) s

def onSynSent (myIp : Ipv4Addr) (s : RawSocket) (src : Ipv4Addr) (f : Fields) : RawSocket × List Outgoing :=
  if f.flags &&& (flagSyn ||| flagAck) = flagSyn ||| flagAck then
    let s := { s with
      ack := f.seq + 1
      seq := f.ack
      state := .established
      remoteIp := src
      remotePort := f.srcPort }
    (s, [tcpSendFlags myIp s.view flagAck []])
  else (s, [])

def onEstablished (myIp : Ipv4Addr) (s : RawSocket) (f : Fields) (m : Nat → UInt8) (len : UInt16) :
    Traced Access (RawSocket × List Outgoing) :=
  if f.flags &&& flagRst ≠ 0 then pure ({ s with state := .closed }, [])
  else if f.flags &&& flagFin ≠ 0 then
    let s := { s with ack := f.seq + 1 }
    pure ({ s with state := .closed }, [tcpSendFlags myIp s.view (flagAck ||| flagFin) []])
  else
    let dlen := len - UInt16.ofNat f.offset
    if dlen.toNat > 0 then do
      let s ← storeLoop m dlen.toNat f.offset { s with ack := f.seq + dlen.toUInt32 }
      pure (s, [tcpSendFlags myIp s.view flagAck []])
    else pure (s, [])

/-- The demultiplexing loop over the sockets that are left. -/
def demuxLoop (myIp : Ipv4Addr) (t : RawTable) (src : Ipv4Addr) (f : Fields) (m : Nat → UInt8) (len : UInt16) :
    List (Fin maxSockets) → Traced Access (RawTable × List Outgoing)
  | [] => pure (t, [])
  | i :: rest =>
    let s := t.sockets i
    if s.state = .closed then demuxLoop myIp t src f m len rest
    else if s.localPort ≠ f.dstPort then demuxLoop myIp t src f m len rest
    else if s.state = .synSent then
      let r := onSynSent myIp s src f
      pure (t.set i r.1, r.2)
    else if s.state = .established then do
      let r ← onEstablished myIp s f m len
      pure (t.set i r.1, r.2)
    else demuxLoop myIp t src f m len rest

def tcpHandle (myIp : Ipv4Addr) (t : RawTable) (src : Ipv4Addr) (m : Nat → UInt8) (len : UInt16) :
    Traced Access (RawTable × List Outgoing) :=
  if len.toNat < hdrLen then pure (t, [])
  else do
    let f ← loadFields m
    if f.offset < hdrLen ∨ f.offset > len.toNat then pure (t, [])
    else demuxLoop myIp t src f m len (List.finRange maxSockets)

/-! ### The calls -/

/-- The sockets as the kernel image holds them. -/
def blankRaw : RawTable := ⟨fun _ => ⟨⟨fun _ => 0⟩, 0, 0, 0, 0, .closed, fun _ => 0, 0, 0⟩, 49152⟩

/-- The second loop of tcp_recv. -/
def recvLoop : Nat → RawSocket → List UInt8 × RawSocket
  | 0, s => ([], s)
  | left + 1, s =>
    if s.rxHead = s.rxTail then ([], s)
    else
      let r := recvLoop left { s with rxTail := nextIndex s.rxTail }
      (s.rxBuf s.rxTail.toNat :: r.1, r.2)

inductive Call where
  | init
  | opens
  | connect (i : Fin maxSockets) (dest : Ipv4Addr) (port : UInt16)
  | send (i : Fin maxSockets) (m : Nat → UInt8) (len : UInt16)
  | recv (i : Fin maxSockets) (maxLen : UInt16)
  | close (i : Fin maxSockets)
  | handle (src : Ipv4Addr) (m : Nat → UInt8) (len : UInt16)

/-- The table after a call. -/
def RawTable.after (myIp : Ipv4Addr) (t : RawTable) : Call → RawTable
  | .init => { t with sockets := fun i => { t.sockets i with state := .closed } }
  | .opens =>
    match t.first fun s => s.state = .closed with
    | none => t
    | some i => t.set i { t.sockets i with rxHead := 0, rxTail := 0, seq := 0xABCD1234, ack := 0 }
  | .connect i dest port =>
    let s := { t.sockets i with remoteIp := dest, remotePort := port, localPort := t.nextPort, state := .synSent }
    { t.set i { s with seq := s.seq + 1 } with nextPort := t.nextPort + 1 }
  | .send i _ len =>
    let s := t.sockets i
    if s.state ≠ .established then t else t.set i { s with seq := s.seq + len.toUInt32 }
  | .recv i maxLen => t.set i (recvLoop maxLen.toNat (t.sockets i)).2
  | .close i => t.set i { t.sockets i with state := .closed }
  | .handle src m len => (tcpHandle myIp t src m len).value.1

/-- A call, whatever the address of the host is at that time. -/
def RawStep (t : RawTable) (c : Call) (t' : RawTable) : Prop := ∃ myIp, t' = t.after myIp c

/-- The tables after any calls. -/
def Reachable (t : RawTable) : Prop := ∃ moves, Run RawStep blankRaw moves t

/-! ### Indices -/

/-- Both indices are those of slots, and the state is one that the code gives. -/
structure Sound (s : RawSocket) : Prop where
  head : s.rxHead.toNat < rxSize
  tail : s.rxTail.toNat < rxSize
  state : s.state ≠ .finWait

theorem nextIndex_toNat (index : UInt16) : (nextIndex index).toNat = (index.toNat + 1) % rxSize := by
  have small : (index.toNat + 1) % rxSize < 2 ^ 16 :=
    Nat.lt_trans (Nat.mod_lt _ (by decide)) (show rxSize < 2 ^ 16 by decide)
  rw [nextIndex, UInt16.toNat_ofNat', Nat.mod_eq_of_lt small]

theorem nextIndex_lt (index : UInt16) : (nextIndex index).toNat < rxSize := by
  rw [nextIndex_toNat]
  exact Nat.mod_lt _ (by decide)

theorem nextIndex_ofNat (index : UInt16) : Fin.ofNat rxSize (nextIndex index).toNat = Fin.ofNat rxSize index.toNat + 1 := by
  apply Fin.ext
  simp [nextIndex_toNat, Fin.val_add]

def Access.Inside (len : Nat) : Access → Prop
  | .read i => i < len
  | .write i => i < rxSize

theorem store_view {s : RawSocket} (sound : Sound s) (b : UInt8) :
    (s.store b).value.view = s.view.withRing (s.view.ring.push b) := by
  have slot : (fun k : Fin rxSize => Function.update s.rxBuf s.rxHead.toNat b k) =
      Function.update (fun k : Fin rxSize => s.rxBuf k) (Fin.ofNat rxSize s.rxHead.toNat) b := by
    funext k
    have same : (k : Nat) = s.rxHead.toNat ↔ k = Fin.ofNat rxSize s.rxHead.toNat := by
      rw [Fin.ext_iff, Fin.val_ofNat, Nat.mod_eq_of_lt sound.head]
    simp only [Function.update_apply, same]
  simp only [RawSocket.store, value_bind, value_pure, RawSocket.view, Socket.withRing, Socket.ring, Ring.push, slot,
    nextIndex_ofNat]

theorem store_sound {s : RawSocket} (sound : Sound s) (b : UInt8) : Sound (s.store b).value :=
  ⟨nextIndex_lt _, sound.tail, sound.state⟩

/-! ### One segment -/

section
variable {m : Nat → UInt8} {len : Nat}

theorem load_inside {i : Nat} (inside : i < len) : All (Access.Inside len) (load m i) := by
  rw [load, all_bind_iff, all_emit_iff]
  exact ⟨inside, all_pure _⟩

theorem load16_inside {i : Nat} (inside : i + 1 < len) : All (Access.Inside len) (load16 m i) := by
  simp only [load16, all_bind_iff]
  exact ⟨load_inside (by omega), load_inside inside, all_pure _⟩

theorem load32_inside {i : Nat} (inside : i + 3 < len) : All (Access.Inside len) (load32 m i) := by
  simp only [load32, all_bind_iff]
  exact ⟨load_inside (by omega), load_inside (by omega), load_inside (by omega), load_inside inside, all_pure _⟩

theorem loadFields_inside (whole : hdrLen ≤ len) : All (Access.Inside len) (loadFields m) := by
  have size : hdrLen = 20 := rfl
  simp only [loadFields, all_bind_iff]
  exact ⟨load16_inside (by omega), load16_inside (by omega), load_inside (by omega), load32_inside (by omega),
    load32_inside (by omega), load_inside (by omega), all_pure _⟩

theorem storeLoop_sound (left i : Nat) {s : RawSocket} (sound : Sound s) : Sound (storeLoop m left i s).value := by
  induction left generalizing i s with
  | zero => exact sound
  | succ left ih => exact ih (i + 1) (store_sound sound (m i))

theorem storeLoop_inside {left i : Nat} (fits : i + left ≤ len) {s : RawSocket} (sound : Sound s) :
    All (Access.Inside len) (storeLoop m left i s) := by
  induction left generalizing i s with
  | zero => exact all_pure _
  | succ left ih =>
    rw [storeLoop, all_bind_iff, all_bind_iff]
    refine ⟨load_inside (by omega), ?_, ih (by omega) (store_sound sound _)⟩
    rw [RawSocket.store, all_bind_iff, all_emit_iff]
    exact ⟨sound.head, all_pure _⟩

/-- The loop pushes the data. -/
theorem storeLoop_view (left i : Nat) {s : RawSocket} (sound : Sound s) :
    (storeLoop m left i s).value.view = s.view.withRing (s.view.ring.pushAll (window m i left)) := by
  induction left generalizing i s with
  | zero => rfl
  | succ left ih =>
    have rest := ih (i + 1) (store_sound sound (m i))
    rw [store_view sound] at rest
    rw [window_succ, Ring.pushAll_cons]
    exact rest

end

/-! ### The table behind it -/

theorem view_set (t : RawTable) (i : Fin maxSockets) (s : RawSocket) : (t.set i s).view = t.view.set i s.view := by
  have moved : (fun j => ((t.set i s).sockets j).view) = Function.update (fun j => (t.sockets j).view) i s.view := by
    funext j
    by_cases here : j = i
    · subst here
      simp [RawTable.set]
    · simp [RawTable.set, here]
  rw [RawTable.view, moved]
  rfl

/-- The fields of a header that tcp_handle reads. -/
def fieldsOf (h : Header) : Fields := ⟨h.dstPort, h.srcPort, h.flags, h.seq, h.ack, h.dataOff⟩

theorem offset_fieldsOf (h : Header) : (fieldsOf h).offset = h.offset := rfl

theorem fieldsOf_decode (m : Nat → UInt8) {len : Nat} (whole : hdrLen ≤ len) :
    fieldsOf (Header.decode (window m 0 len)) = (loadFields m).value := by
  have at_ {i : Nat} (early : i < hdrLen) : byteAt (window m 0 len) i = m i :=
    byteAt_window m (Nat.lt_of_lt_of_le early whole)
  simp only [fieldsOf, Header.decode, word16At, word32At, at_ (by decide : 0 < hdrLen), at_ (by decide : 0 + 1 < hdrLen),
    at_ (by decide : 2 < hdrLen), at_ (by decide : 2 + 1 < hdrLen), at_ (by decide : 4 < hdrLen),
    at_ (by decide : 4 + 1 < hdrLen), at_ (by decide : 4 + 2 < hdrLen), at_ (by decide : 4 + 3 < hdrLen),
    at_ (by decide : 8 < hdrLen), at_ (by decide : 8 + 1 < hdrLen), at_ (by decide : 8 + 2 < hdrLen),
    at_ (by decide : 8 + 3 < hdrLen), at_ (by decide : 12 < hdrLen), at_ (by decide : 13 < hdrLen)]
  rfl

theorem onSynSent_view (myIp : Ipv4Addr) (s : RawSocket) (src : Ipv4Addr) (h : Header) :
    ((onSynSent myIp s src (fieldsOf h)).1.view, (onSynSent myIp s src (fieldsOf h)).2) =
      Tcp.onSynSent myIp s.view src h := by
  have flags : (fieldsOf h).flags = h.flags := rfl
  rw [onSynSent, Tcp.onSynSent, flags]
  split
  · rfl
  · rfl

/-- The subtraction of the header does not wrap. -/
theorem dlen_toNat {len : UInt16} {f : Fields} (fits : f.offset ≤ len.toNat) :
    (len - UInt16.ofNat f.offset).toNat = len.toNat - f.offset := by
  have back : (UInt16.ofNat f.offset).toNat = f.offset :=
    UInt16.toNat_ofNat_of_lt' (Nat.lt_of_le_of_lt fits len.toNat_lt)
  have covered : UInt16.ofNat f.offset ≤ len := by
    rw [UInt16.le_iff_toNat_le, back]
    exact fits
  rw [UInt16.toNat_sub_of_le _ _ covered, back]

theorem onEstablished_view (myIp : Ipv4Addr) {s : RawSocket} (sound : Sound s) (h : Header) (m : Nat → UInt8)
    {len : UInt16} (fits : h.offset ≤ len.toNat) :
    ((onEstablished myIp s (fieldsOf h) m len).value.1.view, (onEstablished myIp s (fieldsOf h) m len).value.2) =
      Tcp.onEstablished myIp s.view h (window m h.offset (len.toNat - h.offset)) := by
  have dlen : (len - UInt16.ofNat (fieldsOf h).offset).toNat = len.toNat - h.offset := dlen_toNat fits
  have wide : (len - UInt16.ofNat (fieldsOf h).offset).toUInt32 = UInt32.ofNat (len.toNat - h.offset) := by
    rw [← dlen]
    exact (UInt32.ofNat_uInt16ToNat _).symm
  have flags : (fieldsOf h).flags = h.flags := rfl
  rw [onEstablished, Tcp.onEstablished, flags]
  dsimp only
  rw [dlen, wide, length_window]
  split
  · rfl
  split
  · rfl
  split
  · -- the acknowledgement is set before the loop here, and after it there
    have pushed := storeLoop_view (m := m) (len.toNat - h.offset) h.offset
      (s := { s with ack := (fieldsOf h).seq + UInt32.ofNat (len.toNat - h.offset) }) ⟨sound.head, sound.tail, sound.state⟩
    rw [value_bind, value_pure, offset_fieldsOf]
    dsimp only
    rw [pushed]
    rfl
  · rfl

theorem onEstablished_inside (myIp : Ipv4Addr) {s : RawSocket} (sound : Sound s) (f : Fields) (m : Nat → UInt8)
    {len : UInt16} (fits : f.offset ≤ len.toNat) : All (Access.Inside len.toNat) (onEstablished myIp s f m len) := by
  unfold onEstablished
  split
  · exact all_pure _
  split
  · exact all_pure _
  dsimp only
  rw [dlen_toNat fits]
  split
  · rw [all_bind_iff]
    exact ⟨storeLoop_inside (by omega) ⟨sound.head, sound.tail, sound.state⟩, all_pure _⟩
  · exact all_pure _

theorem onEstablished_sound (myIp : Ipv4Addr) {s : RawSocket} (sound : Sound s) (f : Fields) (m : Nat → UInt8)
    (len : UInt16) : Sound (onEstablished myIp s f m len).value.1 := by
  unfold onEstablished
  split
  · exact ⟨sound.head, sound.tail, State.noConfusion⟩
  split
  · exact ⟨sound.head, sound.tail, State.noConfusion⟩
  dsimp only
  split
  · exact storeLoop_sound _ _ ⟨sound.head, sound.tail, sound.state⟩
  · exact sound

theorem onSynSent_sound (myIp : Ipv4Addr) {s : RawSocket} (sound : Sound s) (src : Ipv4Addr) (f : Fields) :
    Sound (onSynSent myIp s src f).1 := by
  unfold onSynSent
  split
  · exact ⟨sound.head, sound.tail, State.noConfusion⟩
  · exact sound

/-! ### The demultiplexing loop -/

/-- What is done for the socket that the loop stops at. -/
def serve (myIp : Ipv4Addr) (t : RawTable) (i : Fin maxSockets) (src : Ipv4Addr) (f : Fields) (m : Nat → UInt8)
    (len : UInt16) : Traced Access (RawTable × List Outgoing) :=
  if (t.sockets i).state = .synSent then
    pure (t.set i (onSynSent myIp (t.sockets i) src f).1, (onSynSent myIp (t.sockets i) src f).2)
  else do
    let r ← onEstablished myIp (t.sockets i) f m len
    pure (t.set i r.1, r.2)

theorem demuxLoop_eq (myIp : Ipv4Addr) (t : RawTable) (src : Ipv4Addr) (f : Fields) (m : Nat → UInt8) (len : UInt16)
    (left : List (Fin maxSockets)) : demuxLoop myIp t src f m len left =
      match left.find? fun i => (t.sockets i).view.listens f.dstPort with
      | none => pure (t, [])
      | some i => serve myIp t i src f m len := by
  induction left with
  | nil => rfl
  | cons i rest ih =>
    have state : (t.sockets i).view.state = (t.sockets i).state := rfl
    have port : (t.sockets i).view.localPort = (t.sockets i).localPort := rfl
    rw [demuxLoop, List.find?_cons, Socket.listens, state, port]
    dsimp only
    by_cases other : (t.sockets i).localPort ≠ f.dstPort
    · simp [other, ih]
    · rw [if_neg other, not_not.mp other]
      cases at_ : (t.sockets i).state with
      | closed => simpa using ih
      | synSent => simp [serve, at_]
      | established => simp [serve, at_]
      | finWait => simpa using ih

theorem demux_eq (myIp : Ipv4Addr) (t : RawTable) (src : Ipv4Addr) (f : Fields) (m : Nat → UInt8) (len : UInt16) :
    demuxLoop myIp t src f m len (List.finRange maxSockets) =
      match t.view.first (·.listens f.dstPort) with
      | none => pure (t, [])
      | some i => serve myIp t i src f m len :=
  demuxLoop_eq myIp t src f m len (List.finRange maxSockets)

/-- Serving a socket is dispatching to it. -/
theorem serve_view (myIp : Ipv4Addr) {t : RawTable} {i : Fin maxSockets} (sound : Sound (t.sockets i)) (src : Ipv4Addr)
    (h : Header) (m : Nat → UInt8) {len : UInt16} (fits : h.offset ≤ len.toNat) :
    ((serve myIp t i src (fieldsOf h) m len).value.1.view, (serve myIp t i src (fieldsOf h) m len).value.2) =
      (t.view.set i (dispatch myIp (t.view.sockets i) src h (window m h.offset (len.toNat - h.offset))).1,
        (dispatch myIp (t.view.sockets i) src h (window m h.offset (len.toNat - h.offset))).2) := by
  have state : (t.view.sockets i).state = (t.sockets i).state := rfl
  have socket : t.view.sockets i = (t.sockets i).view := rfl
  rw [serve, dispatch, state, socket]
  split
  · rw [← onSynSent_view, value_pure, view_set]
  · rw [← onEstablished_view myIp sound h m fits, value_bind, value_pure, view_set]

theorem serve_inside (myIp : Ipv4Addr) {t : RawTable} {i : Fin maxSockets} (sound : Sound (t.sockets i)) (src : Ipv4Addr)
    (f : Fields) (m : Nat → UInt8) {len : UInt16} (fits : f.offset ≤ len.toNat) :
    All (Access.Inside len.toNat) (serve myIp t i src f m len) := by
  unfold serve
  split
  · exact all_pure _
  · rw [all_bind_iff]
    exact ⟨onEstablished_inside myIp sound f m fits, all_pure _⟩

/-- Only the socket that is served changes. -/
theorem serve_table (myIp : Ipv4Addr) (t : RawTable) (i : Fin maxSockets) (src : Ipv4Addr) (f : Fields)
    (m : Nat → UInt8) (len : UInt16) : ∃ s, (serve myIp t i src f m len).value.1 = t.set i s ∧
      (Sound (t.sockets i) → Sound s) := by
  unfold serve
  split
  · exact ⟨_, rfl, fun sound => onSynSent_sound myIp sound src f⟩
  · exact ⟨_, rfl, fun sound => onEstablished_sound myIp sound f m len⟩

theorem parse_window (m : Nat → UInt8) (len : UInt16) : parse (window m 0 len.toNat) =
    if len.toNat < hdrLen then none
    else if (loadFields m).value.offset < hdrLen ∨ (loadFields m).value.offset > len.toNat then none
    else some (Header.decode (window m 0 len.toNat),
      window m (loadFields m).value.offset (len.toNat - (loadFields m).value.offset)) := by
  rw [parse, length_window]
  split
  · rfl
  · rename_i whole
    dsimp only
    rw [← offset_fieldsOf, fieldsOf_decode m (Nat.le_of_not_lt whole), window_drop, Nat.zero_add]

/-- A table with indices in range does with a segment what the table of rings does. -/
theorem tcpHandle_view (myIp : Ipv4Addr) {t : RawTable} (sound : ∀ i, Sound (t.sockets i)) (src : Ipv4Addr)
    (m : Nat → UInt8) (len : UInt16) :
    ((tcpHandle myIp t src m len).value.1.view, (tcpHandle myIp t src m len).value.2) =
      Tcp.tcpHandle myIp t.view src (window m 0 len.toNat) := by
  rw [tcpHandle, Tcp.tcpHandle, parse_window]
  split
  · rfl
  rename_i whole
  have fields := fieldsOf_decode m (Nat.le_of_not_lt whole)
  rw [value_bind, ← fields, offset_fieldsOf]
  split
  · rfl
  rename_i off
  dsimp only
  rw [demux_eq]
  have dstPort : (fieldsOf (Header.decode (window m 0 len.toNat))).dstPort =
    (Header.decode (window m 0 len.toNat)).dstPort := rfl
  rw [dstPort]
  cases t.view.first (·.listens (Header.decode (window m 0 len.toNat)).dstPort) with
  | none => rfl
  | some i => exact serve_view myIp (sound i) src _ m (Nat.le_of_not_lt fun long => off (.inr long))

@[simp] theorem set_self (t : RawTable) (i : Fin maxSockets) (s : RawSocket) : (t.set i s).sockets i = s :=
  Function.update_self _ _ _

theorem set_other (t : RawTable) {i j : Fin maxSockets} (s : RawSocket) (other : j ≠ i) :
    (t.set i s).sockets j = t.sockets j := Function.update_of_ne other _ _

theorem set_sound {t : RawTable} (sound : ∀ i, Sound (t.sockets i)) {i : Fin maxSockets} {s : RawSocket} (new : Sound s)
    (j : Fin maxSockets) : Sound ((t.set i s).sockets j) := by
  by_cases here : j = i
  · subst here
    rw [set_self]
    exact new
  · rw [set_other t s here]
    exact sound j

theorem tcpHandle_sound (myIp : Ipv4Addr) {t : RawTable} (sound : ∀ i, Sound (t.sockets i)) (src : Ipv4Addr)
    (m : Nat → UInt8) (len : UInt16) (j : Fin maxSockets) : Sound ((tcpHandle myIp t src m len).value.1.sockets j) := by
  unfold tcpHandle
  split
  · exact sound j
  rw [value_bind]
  split
  · exact sound j
  rw [demux_eq]
  cases t.view.first (·.listens (loadFields m).value.dstPort) with
  | none => exact sound j
  | some i =>
    obtain ⟨s, table, kept⟩ := serve_table myIp t i src (loadFields m).value m len
    dsimp only
    rw [table]
    exact set_sound sound (kept (sound i)) j

/-! ### The calls on rings -/

theorem recvLoop_sound (left : Nat) {s : RawSocket} (sound : Sound s) : Sound (recvLoop left s).2 := by
  induction left generalizing s with
  | zero => exact sound
  | succ left ih =>
    rw [recvLoop]
    split
    · exact sound
    · exact ih ⟨sound.head, nextIndex_lt _, sound.state⟩

theorem recvLoop_view (left : Nat) {s : RawSocket} (sound : Sound s) : (recvLoop left s).1 = (Ring.takeUpTo left s.view.ring).1 ∧
    (recvLoop left s).2.view = s.view.withRing (Ring.takeUpTo left s.view.ring).2 := by
  induction left generalizing s with
  | zero => exact ⟨rfl, rfl⟩
  | succ left ih =>
    have empty : s.rxHead = s.rxTail ↔ s.view.ring.head = s.view.ring.tail := by
      rw [← UInt16.toNat_inj, Fin.ext_iff, Socket.ring, RawSocket.view, Fin.val_ofNat, Fin.val_ofNat,
        Nat.mod_eq_of_lt sound.head, Nat.mod_eq_of_lt sound.tail]
    rw [recvLoop, Ring.takeUpTo]
    by_cases met : s.rxHead = s.rxTail
    · rw [if_pos met, if_pos (empty.mp met)]
      exact ⟨rfl, rfl⟩
    · rw [if_neg met, if_neg fun same => met (empty.mpr same)]
      obtain ⟨bytes, left⟩ := ih (s := { s with rxTail := nextIndex s.rxTail }) ⟨sound.head, nextIndex_lt _, sound.state⟩
      have popped : ({ s with rxTail := nextIndex s.rxTail } : RawSocket).view.ring = s.view.ring.pop := by
        simp only [RawSocket.view, Socket.ring, Ring.pop, nextIndex_ofNat]
      have slot : s.rxBuf s.rxTail.toNat = s.view.ring.buf s.view.ring.tail := by
        simp [RawSocket.view, Socket.ring, Nat.mod_eq_of_lt sound.tail]
      dsimp only
      rw [bytes, left, popped, slot]
      exact ⟨rfl, rfl⟩

/-- What a call does to the table of rings. -/
def onRings (myIp : Ipv4Addr) (t : Table) : Call → Table
  | .init => tcpInit t
  | .opens => (tcpOpen t).1
  | .connect i dest port => (tcpConnect myIp t i dest port).1
  | .send i m len => t.set i (tcpSend myIp (t.sockets i) (window m 0 len.toNat)).1
  | .recv i maxLen => t.set i (tcpRecv (t.sockets i) maxLen.toNat).1
  | .close i => t.set i (tcpClose myIp (t.sockets i)).1
  | .handle src m len => (Tcp.tcpHandle myIp t src (window m 0 len.toNat)).1

theorem after_sound (myIp : Ipv4Addr) {t : RawTable} (sound : ∀ i, Sound (t.sockets i)) (c : Call) (j : Fin maxSockets) :
    Sound ((t.after myIp c).sockets j) := by
  have zero : (0 : UInt16).toNat < rxSize := by decide
  cases c with
  | init => exact ⟨(sound j).head, (sound j).tail, State.noConfusion⟩
  | opens =>
    rw [RawTable.after]
    split
    · exact sound j
    · refine set_sound sound ?_ j
      exact ⟨zero, zero, (sound _).state⟩
  | connect i dest port =>
    refine set_sound sound ?_ j
    exact ⟨(sound i).head, (sound i).tail, State.noConfusion⟩
  | send i m len =>
    rw [RawTable.after]
    split
    · exact sound j
    · refine set_sound sound ?_ j
      exact ⟨(sound i).head, (sound i).tail, (sound i).state⟩
  | recv i maxLen => exact set_sound sound (recvLoop_sound _ (sound i)) j
  | close i =>
    refine set_sound sound ?_ j
    exact ⟨(sound i).head, (sound i).tail, State.noConfusion⟩
  | handle src m len => exact tcpHandle_sound myIp sound src m len j

/-- Every call does to the table of rings what it does to the sockets of the source. -/
theorem after_view (myIp : Ipv4Addr) {t : RawTable} (sound : ∀ i, Sound (t.sockets i)) (c : Call) :
    (t.after myIp c).view = onRings myIp t.view c := by
  cases c with
  | init => rfl
  | opens =>
    have hit : t.first (fun s => s.state = .closed) = t.view.first fun s => s.state = .closed := rfl
    rw [RawTable.after, onRings, tcpOpen, hit]
    cases t.view.first fun s => s.state = .closed with
    | none => rfl
    | some i => exact view_set t i _
  | connect i dest port =>
    have other := view_set t i { t.sockets i with
      remoteIp := dest
      remotePort := port
      localPort := t.nextPort
      state := .synSent
      seq := (t.sockets i).seq + 1 }
    exact congrArg (fun u => { u with nextPort := t.nextPort + 1 }) other
  | send i m len =>
    have wide : UInt32.ofNat (window m 0 len.toNat).length = len.toUInt32 := by
      rw [length_window]
      exact UInt32.ofNat_uInt16ToNat len
    have state : (t.view.sockets i).state = (t.sockets i).state := rfl
    rw [RawTable.after, onRings, tcpSend, wide, state]
    split
    · exact (Tcp.set_same t.view i).symm
    · exact view_set t i _
  | recv i maxLen =>
    obtain ⟨-, left⟩ := recvLoop_view maxLen.toNat (sound i)
    rw [RawTable.after, onRings, view_set, left]
    rfl
  | close i => exact view_set t i _
  | handle src m len => exact congrArg Prod.fst (tcpHandle_view myIp sound src m len)

theorem RawStep.sound {t t' : RawTable} {c : Call} (sound : ∀ i, Sound (t.sockets i)) (taken : RawStep t c t') :
    ∀ i, Sound (t'.sockets i) := by
  obtain ⟨myIp, rfl⟩ := taken
  exact after_sound myIp sound c

theorem blankRaw_sound (i : Fin maxSockets) : Sound (blankRaw.sockets i) := by
  have zero : (0 : UInt16).toNat < rxSize := by decide
  exact ⟨zero, zero, State.noConfusion⟩

/-- Indices stay in range, from the kernel image on. -/
theorem Reachable.sound {t : RawTable} (reached : Reachable t) (i : Fin maxSockets) : Sound (t.sockets i) := by
  obtain ⟨moves, run⟩ := reached
  exact (run.invariant (fun t => ∀ i, Sound (t.sockets i)) RawStep.sound blankRaw_sound).1 i

/-- Every run of the calls is one of the same calls on rings. -/
theorem run_view {moves : List (Move RawTable Call)} {t : RawTable} (run : Run RawStep blankRaw moves t) :
    Run (fun r c r' => ∃ myIp, r' = onRings myIp r c) blankTable
      (moves.map fun m => ⟨m.before.view, m.event, m.after.view⟩) t.view := by
  refine run.simulate RawTable.view (fun t => ∀ i, Sound (t.sockets i)) RawStep.sound ?_ blankRaw_sound
  rintro s c t sound ⟨myIp, rfl⟩
  exact ⟨myIp, after_view myIp sound c⟩

/-! ### What tcp_handle can do -/

/-- `off`, from the byte that holds it. -/
def dataOffset (m : Nat → UInt8) : Nat := (m 12 >>> 4).toNat * 4

def dstPort (m : Nat → UInt8) : UInt16 := be16 (m 2) (m 3)

theorem offset_loadFields (m : Nat → UInt8) : (loadFields m).value.offset = dataOffset m := rfl

theorem dstPort_loadFields (m : Nat → UInt8) : (loadFields m).value.dstPort = dstPort m := rfl

/-- A socket that is not CLOSED has the port. -/
def Owns (t : RawTable) (port : UInt16) (i : Fin maxSockets) : Prop :=
  (t.sockets i).state ≠ .closed ∧ (t.sockets i).localPort = port

/-- The segment is too short, its header length is not in range, or nobody has its port. -/
def Refused (t : RawTable) (m : Nat → UInt8) (len : UInt16) : Prop :=
  len.toNat < hdrLen ∨ dataOffset m < hdrLen ∨ len.toNat < dataOffset m ∨ ∀ i, ¬ Owns t (dstPort m) i

/-- Nothing but socket i may differ, and its state by a move of the handshake or the close. -/
structure Confined (t t' : RawTable) (i : Fin maxSockets) : Prop where
  others : ∀ j, j ≠ i → t'.sockets j = t.sockets j
  nextPort : t'.nextPort = t.nextPort
  moves : Moves (t.sockets i).state (t'.sockets i).state

theorem listens_view_iff {t : RawTable} {i : Fin maxSockets} (sound : Sound (t.sockets i)) {port : UInt16} :
    (t.sockets i).view.listens port = true ↔ Owns t port i := by
  have state : (t.sockets i).view.state = (t.sockets i).state := rfl
  have own : (t.sockets i).view.localPort = (t.sockets i).localPort := rfl
  have known := sound.state
  rw [listens_iff, Owns, state, own, and_comm]
  cases at_ : (t.sockets i).state with
  | closed => simp
  | synSent => simp
  | established => simp
  | finWait => exact absurd at_ known

theorem tcpHandle_inside (myIp : Ipv4Addr) {t : RawTable} (sound : ∀ i, Sound (t.sockets i)) (src : Ipv4Addr)
    (m : Nat → UInt8) (len : UInt16) : All (Access.Inside len.toNat) (tcpHandle myIp t src m len) := by
  unfold tcpHandle
  split
  · exact all_pure _
  rename_i whole
  rw [all_bind_iff]
  refine ⟨loadFields_inside (Nat.le_of_not_lt whole), ?_⟩
  split
  · exact all_pure _
  rename_i off
  rw [demux_eq]
  cases t.view.first (·.listens (loadFields m).value.dstPort) with
  | none => exact all_pure _
  | some i => exact serve_inside myIp (sound i) src _ m (Nat.le_of_not_lt fun long => off (.inr long))

theorem tcpHandle_refused (myIp : Ipv4Addr) {t : RawTable} (sound : ∀ i, Sound (t.sockets i)) (src : Ipv4Addr)
    {m : Nat → UInt8} {len : UInt16} (refused : Refused t m len) : (tcpHandle myIp t src m len).value = (t, []) := by
  unfold tcpHandle
  split
  · rfl
  rename_i whole
  rw [value_bind]
  split
  · rfl
  rename_i off
  rw [offset_loadFields, not_or] at off
  rw [demux_eq, dstPort_loadFields]
  cases found : t.view.first (·.listens (dstPort m)) with
  | none => rfl
  | some i =>
    -- the first hit would have the port
    have owner : Owns t (dstPort m) i := (listens_view_iff (sound i)).mp (first_hit found)
    rcases refused with short | least | long | nobody
    · exact absurd short whole
    · exact absurd least off.1
    · exact absurd long off.2
    · exact absurd owner (nobody i)

theorem serve_confined (myIp : Ipv4Addr) {t : RawTable} {i : Fin maxSockets} (sound : Sound (t.sockets i))
    {port : UInt16} (owner : Owns t port i) (src : Ipv4Addr) (h : Header) (m : Nat → UInt8) {len : UInt16}
    (fits : h.offset ≤ len.toNat) :
    Confined t (serve myIp t i src (fieldsOf h) m len).value.1 i ∧ (serve myIp t i src (fieldsOf h) m len).value.2.length ≤ 1 := by
  obtain ⟨-, live⟩ := listens_iff.mp ((listens_view_iff sound).mpr owner)
  obtain ⟨table, sent⟩ := Prod.mk.inj (serve_view myIp sound src h m fits)
  obtain ⟨s, changed, -⟩ := serve_table myIp t i src (fieldsOf h) m len
  rw [changed] at table ⊢
  refine ⟨⟨fun j other => set_other t s other, rfl, ?_⟩, ?_⟩
  · have state := congrArg (fun u : Table => (u.sockets i).state) table
    rw [view_set, Tcp.set_self, Tcp.set_self] at state
    have moves := dispatch_moves myIp (t.view.sockets i) src h (window m h.offset (len.toNat - h.offset)) live
    rw [← state] at moves
    rw [set_self]
    exact moves
  · rw [sent]
    exact dispatch_sends myIp _ src h _

theorem tcpHandle_served (myIp : Ipv4Addr) {t : RawTable} (sound : ∀ i, Sound (t.sockets i)) (src : Ipv4Addr)
    {m : Nat → UInt8} {len : UInt16} (taken : ¬ Refused t m len) :
    ∃ i, Owns t (dstPort m) i ∧ (∀ j < i, ¬ Owns t (dstPort m) j) ∧
      Confined t (tcpHandle myIp t src m len).value.1 i ∧ (tcpHandle myIp t src m len).value.2.length ≤ 1 := by
  simp only [Refused, not_or, not_forall, not_not] at taken
  obtain ⟨whole, least, fits, someone, owner⟩ := taken
  have off : ¬ ((loadFields m).value.offset < hdrLen ∨ (loadFields m).value.offset > len.toNat) := not_or.mpr ⟨least, fits⟩
  rw [tcpHandle, if_neg whole, value_bind, if_neg off, demux_eq, dstPort_loadFields]
  have hit (j : Fin maxSockets) : (t.view.sockets j).listens (dstPort m) = true ↔ Owns t (dstPort m) j :=
    listens_view_iff (sound j)
  cases found : t.view.first (·.listens (dstPort m)) with
  | none =>
    have missed := first_none found someone
    rw [(hit someone).mpr owner] at missed
    cases missed
  | some i =>
    obtain ⟨first, others⟩ := first_eq_some_iff.mp found
    have first := (hit i).mp first
    refine ⟨i, first, fun j before owns => ?_, ?_⟩
    · have missed := others j before
      rw [(hit j).mpr owns] at missed
      cases missed
    · have fields := fieldsOf_decode m (Nat.le_of_not_lt whole)
      have offset := congrArg Fields.offset fields
      rw [offset_fieldsOf] at offset
      rw [← fields]
      exact serve_confined myIp (sound i) first src _ m (offset ▸ Nat.le_of_not_lt fits)

/-- From any reachable table, a segment of any bytes is read and stored inside its bounds; a refused one changes
nothing, and any other changes at most the first socket that has its port, and draws at most one segment. -/
theorem tcpHandle_confined {t : RawTable} (reached : Reachable t) (myIp src : Ipv4Addr) (m : Nat → UInt8) (len : UInt16) :
    All (Access.Inside len.toNat) (tcpHandle myIp t src m len) ∧
    (Refused t m len → (tcpHandle myIp t src m len).value = (t, [])) ∧
    (¬ Refused t m len → ∃ i, Owns t (dstPort m) i ∧ (∀ j < i, ¬ Owns t (dstPort m) j) ∧
      Confined t (tcpHandle myIp t src m len).value.1 i ∧ (tcpHandle myIp t src m len).value.2.length ≤ 1) :=
  ⟨tcpHandle_inside myIp reached.sound src m len, tcpHandle_refused myIp reached.sound src,
    tcpHandle_served myIp reached.sound src⟩

/-- The sockets after a connection to port 80 of 10.0.2.2. -/
def connectedRaw : RawTable :=
  ((blankRaw.after (addr 10 0 2 15) .opens).after (addr 10 0 2 15) (.connect 0 (addr 10 0 2 2) 80)).after (addr 10 0 2 15)
    (.handle (addr 10 0 2 2) (byteAt (bare 80 49152 7 0xABCD1235 (flagSyn ||| flagAck))) 20)

theorem connectedRaw_reachable : Reachable connectedRaw := ⟨_, .cons ⟨_, rfl⟩ (.cons ⟨_, rfl⟩ (.single ⟨_, rfl⟩))⟩

/-- A segment with one byte of data. -/
def oneByte : Nat → UInt8 := byteAt (bare 80 49152 8 0xABCD1235 flagAck ++ [1])

theorem tcpHandle_confined_connected :
    All (Access.Inside 21) (tcpHandle (addr 10 0 2 15) connectedRaw (addr 10 0 2 2) oneByte 21) ∧
    (Refused connectedRaw oneByte 21 →
      (tcpHandle (addr 10 0 2 15) connectedRaw (addr 10 0 2 2) oneByte 21).value = (connectedRaw, [])) ∧
    (¬ Refused connectedRaw oneByte 21 → ∃ i, Owns connectedRaw (dstPort oneByte) i ∧
      (∀ j < i, ¬ Owns connectedRaw (dstPort oneByte) j) ∧
      Confined connectedRaw (tcpHandle (addr 10 0 2 15) connectedRaw (addr 10 0 2 2) oneByte 21).value.1 i ∧
      (tcpHandle (addr 10 0 2 15) connectedRaw (addr 10 0 2 2) oneByte 21).value.2.length ≤ 1) :=
  tcpHandle_confined connectedRaw_reachable (addr 10 0 2 15) (addr 10 0 2 2) oneByte 21

end ChrisOS.Net.Tcp.Raw
