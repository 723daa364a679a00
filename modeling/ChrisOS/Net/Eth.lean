import ChrisOS.Lib.Bytes
import ChrisOS.Lib.Records
import ChrisOS.Lib.Run

/-! The receive side of net/eth.c, and the RTL8139 that it drives.

eth_poll is written down twice from the same parts: as one call that nothing
interrupts, and step by step, where frames arrive and further calls begin between
any two steps. A further call begins when a handler polls (arp_lookup) or on the
interrupt of the card.
-/

set_option autoImplicit false

namespace ChrisOS.Net.Eth
open ChrisOS.Lib

def isrRok : UInt16 := 0x0001
def isrRer : UInt16 := 0x0002

def rcrAap : Nat := 1 <<< 0
def rcrApm : Nat := 1 <<< 1
def rcrAm : Nat := 1 <<< 2
def rcrAb : Nat := 1 <<< 3
def rcrWrap : Nat := 1 <<< 7
def rcrRblen32k : Nat := 1 <<< 11

def rxStatRok : Nat := 0x0001

/-- What eth_init writes to RCR; nothing else writes it. -/
def rcr : Nat := rcrAap ||| rcrApm ||| rcrAm ||| rcrAb ||| rcrWrap ||| rcrRblen32k

/-- The receive ring that bits 12:11 of RCR select. -/
def ringSize : Nat := 8192 * 2 ^ ((rcr >>> 11) % 4)

theorem ringSize_eq : ringSize = 16384 := rfl

attribute [irreducible] ringSize

/-- The test of eth_poll for a bad packet. -/
def bad (status len : Nat) : Bool := status &&& rxStatRok = 0 || len = 0 || len > 1514

/-! ### The card -/

/-- A frame as the card stores it, with its CRC. -/
structure Packet where
  status : UInt16
  bytes : List UInt8
  crc : 4 ≤ bytes.length
  short : bytes.length < 2 ^ 16

namespace Packet

/-- The stored length, which counts the CRC. -/
def length (p : Packet) : Nat := p.bytes.length

def image (p : Packet) : List UInt8 :=
  [byteOf p.status.toNat 0, byteOf p.status.toNat 1, byteOf p.length 0, byteOf p.length 1] ++ p.bytes

/-- The bytes of ring that a frame takes: header, frame and CRC, up to a multiple of 4. -/
def size (p : Packet) : Nat := (p.length + 4 + 3) / 4 * 4

/-- What is left without the CRC. -/
def frame (p : Packet) : List UInt8 := p.bytes.take (p.length - 4)

def fine (p : Packet) : Bool := !bad p.status.toNat p.length

theorem fine_length {p : Packet} (fine : p.fine = true) : p.length ≤ 1514 := by
  simp only [Packet.fine, bad, Bool.not_eq_true', Bool.or_eq_false_iff, decide_eq_false_iff_not] at fine
  omega

theorem size_pos (p : Packet) : 0 < p.size := by
  unfold size
  omega

theorem length_image (p : Packet) : p.image.length = p.length + 4 := by
  simp [image, length]

theorem image_le_size (p : Packet) : p.image.length ≤ p.size := by
  rw [length_image, size]
  omega

end Packet

structure Nic where
  mem : Nat → UInt8
  /-- CBR: where the next frame goes. -/
  cbr : Nat
  /-- What was last written to CAPR. -/
  capr : Option Nat
  isr : UInt16

namespace Nic

/-- The offset of the first frame that is not yet released. -/
def readPtr (n : Nic) : Nat :=
  match n.capr with
  | none => 0
  | some v => (v + 16) % ringSize

def unread (n : Nic) : Nat := (n.cbr + ringSize - n.readPtr) % ringSize

/-- The card drops a frame that would fill the ring. -/
def room (n : Nic) (p : Packet) : Bool := n.unread + p.size < ringSize

/-- In WRAP mode a frame is stored in one piece; only the next header wraps. -/
def store (n : Nic) (p : Packet) : Nic :=
  { n with
    mem := fun a => if n.cbr ≤ a ∧ a < n.cbr + p.image.length then p.image.getD (a - n.cbr) 0 else n.mem a
    cbr := (n.cbr + p.size) % ringSize
    isr := n.isr ||| isrRok }

def bufe (n : Nic) : Bool := n.readPtr = n.cbr

/-- Bits written to ISR are cleared. -/
def writeIsr (n : Nic) (v : UInt16) : Nic := { n with isr := n.isr &&& ~~~v }

def writeCapr (n : Nic) (v : Nat) : Nic := { n with capr := some v }

end Nic

/-! ### The driver -/

/-- Where an activation of eth_poll is. -/
inductive Point where
  | loop
  | isrRead (isr : UInt16)
  | isrAcked
  /-- BUFE was clear: about to read the header. -/
  | header
  /-- In netstack_rx. -/
  | handling (len : Nat)
  | advanced
  | badPacket
  | resynced

structure Activation where
  budget : Nat
  point : Point

/-- The card, the statics of net/eth.c and the activations of eth_poll, innermost first. The last four
fields are history: every frame stored, how many of them eth_poll has passed, which frame was stored last
at an offset, and what netstack_rx was called with. -/
structure Machine where
  nic : Nic
  nicOk : Bool
  rxOffset : Nat
  stack : List Activation
  stored : List Packet
  passed : Nat
  numberAt : Nat → Nat
  delivered : List (Nat × List UInt8)

/-- After eth_init has found a card. -/
def ethInit : Machine := ⟨⟨fun _ => 0, 0, none, 0⟩, true, 0, [], [], 0, fun _ => 0, []⟩

namespace Machine

def ackIsr (s : Machine) (isr : UInt16) : Machine := { s with nic := s.nic.writeIsr isr }

def pktStatus (s : Machine) : Nat := word16 s.nic.mem s.rxOffset
def pktLen (s : Machine) : Nat := word16 s.nic.mem (s.rxOffset + 2)

/-- The bytes at rx_buf + rx_offset + 4. -/
def rxFrame (s : Machine) : List UInt8 :=
  (List.range ((s.pktLen + (2 ^ 16 - 4)) % 2 ^ 16)).map fun k => s.nic.mem (s.rxOffset + 4 + k)

/-- The call of netstack_rx. -/
def deliver (s : Machine) : Machine :=
  { s with delivered := s.delivered ++ [(s.numberAt s.rxOffset, s.rxFrame)], passed := s.passed + 1 }

def advance (s : Machine) (len : Nat) : Machine :=
  -- wrapped at 32768, though the ring that RCR selects is shorter
  { s with rxOffset := (s.rxOffset + len + 4 + 3) / 4 * 4 % 2 ^ 16 % 32768 }

def writeCapr (s : Machine) : Machine :=
  { s with nic := s.nic.writeCapr ((s.rxOffset + 32768 - 16) % 32768) }

/-- The jump behind everything that is in the ring. -/
def resync (s : Machine) : Machine := { s with rxOffset := s.nic.cbr % 32768, passed := s.stored.length }

/-- The loop of eth_poll, when no frame arrives and no handler polls. -/
def pollLoop : Nat → Machine → Machine
  | 0, s => s
  | budget + 1, s =>
    if s.nic.isr &&& (isrRok ||| isrRer) = 0 then s
    else
      -- this clears ROK for all frames in the ring, not just the next
      let s := s.ackIsr s.nic.isr
      if s.nic.bufe then s
      else if bad s.pktStatus s.pktLen then s.resync.writeCapr
      else pollLoop budget (s.deliver.advance s.pktLen).writeCapr

def ethPoll (s : Machine) : Machine := if s.nicOk then s.pollLoop 32 else s

/-! ### Step by step -/

def goto (s : Machine) (budget : Nat) (point : Point) (outer : List Activation) : Machine :=
  { s with stack := ⟨budget, point⟩ :: outer }

def leave (s : Machine) (outer : List Activation) : Machine := { s with stack := outer }

/-- What the innermost activation does next. -/
def turn (s : Machine) (budget : Nat) (outer : List Activation) : Point → Machine
  | .loop =>
    if budget = 0 ∨ s.nic.isr &&& (isrRok ||| isrRer) = 0 then s.leave outer
    else s.goto (budget - 1) (.isrRead s.nic.isr) outer
  | .isrRead isr => (s.ackIsr isr).goto budget .isrAcked outer
  | .isrAcked => if s.nic.bufe then s.leave outer else s.goto budget .header outer
  | .header =>
    if bad s.pktStatus s.pktLen then s.goto budget .badPacket outer
    else s.deliver.goto budget (.handling s.pktLen) outer
  | .handling len => (s.advance len).goto budget .advanced outer
  | .advanced => s.writeCapr.goto budget .loop outer
  | .badPacket => s.resync.goto budget .resynced outer
  | .resynced => s.writeCapr.leave outer

def receive (s : Machine) (p : Packet) : Machine :=
  { s with
    nic := s.nic.store p
    stored := s.stored ++ [p]
    numberAt := Function.update s.numberAt s.nic.cbr s.stored.length }

end Machine

inductive Event where
  /-- eth_poll or eth_handle_interrupt is called. -/
  | call
  | tick
  | receive (p : Packet)
  /-- The card raises other bits of ISR. -/
  | raise (bits : UInt16)

/-- One event; a call may come while others are active. -/
def next (s : Machine) : Event → Option Machine
  | .call => some (if s.nicOk then s.goto 32 .loop s.stack else s)
  | .tick =>
    match s.stack with
    | [] => none
    | ⟨budget, point⟩ :: outer => some (s.turn budget outer point)
  | .receive p => if s.nic.room p then some (s.receive p) else none
  | .raise bits => some { s with nic := { s.nic with isr := s.nic.isr ||| bits } }

def Step (s : Machine) (e : Event) (t : Machine) : Prop := next s e = some t

theorem step_receive_cases {s t : Machine} {p : Packet} (taken : Step s (.receive p) t) :
    s.nic.room p = true ∧ t = s.receive p := by
  simp only [Step, next, Option.ite_none_right_eq_some, Option.some.injEq] at taken
  exact ⟨taken.1, taken.2.symm⟩

/-- A tick is the next turn of the innermost activation. -/
theorem step_tick_cases {s t : Machine} (taken : Step s .tick t) :
    ∃ budget point outer, s.stack = ⟨budget, point⟩ :: outer ∧ t = s.turn budget outer point := by
  cases top : s.stack with
  | nil => simp [Step, next, top] at taken
  | cons active outer =>
    simp only [Step, next, top, Option.some.injEq] at taken
    exact ⟨active.budget, active.point, outer, rfl, taken.symm⟩

end ChrisOS.Net.Eth
