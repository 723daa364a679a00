import ChrisOS.Lib.Run
import ChrisOS.Lib.Signed
import Mathlib.Data.FinEnum
import Mathlib.Logic.Function.Basic

/-! The handler of drivers/mouse.c, from bytes to packets and the pointer. -/

set_option autoImplicit false

namespace ChrisOS.Drivers.Mouse
open ChrisOS.Lib
open ChrisOS.Lib.Signed (Fits toInt_small neg_iff toInt_add toInt_sub)

/-- What vesa_init found. -/
structure Fb where
  active : Bool
  width : UInt32
  height : UInt32

/-- The variables of the driver. -/
structure Pointer where
  mouseX : Int32
  mouseY : Int32
  mouseB : Int32
  lastDx : Int32
  lastDy : Int32
  mouseCycle : UInt8
  mouseByte : Nat → UInt8

/-- As the kernel is loaded. -/
def Pointer.boot : Pointer := ⟨0, 0, 0, 0, 0, 0, fun _ => 0⟩

/-- What the handler does besides setting its variables. -/
structure Handled where
  mouse : Pointer
  /-- The bytes that it takes apart. -/
  packet : Option (UInt8 × UInt8 × UInt8)
  /-- installer_start is called. -/
  installer : Bool

/-- `(int)byte`, with the upper bits set if the sign bit is. -/
def movement (byte sign : UInt8) : Int32 :=
  let d : Int32 := ⟨byte.toUInt32⟩
  if sign ≠ 0 then ⟨d.toUInt32 ||| 0xFFFFFF00⟩ else d

/-- `if (z < 0) z = 0`, and then `if (z >= (int)size) z = size - 1`. -/
def clampTo (size : UInt32) (z : Int32) : Int32 :=
  let z := if z < 0 then 0 else z
  if z ≥ ⟨size⟩ then ⟨size - 1⟩ else z

/-- The pointer is over the button of the installer. -/
def onButton (fb : Fb) (x y : Int32) : Bool :=
  let sh : Int32 := ⟨fb.height⟩
  x ≥ 4 && x ≤ 4 + 72 && y ≥ sh - 36 + 4 && y ≤ sh - 36 + 4 + 28

/-- The third byte of a packet is in. -/
def decode (fb : Fb) (m : Pointer) : Handled :=
  let b := m.mouseByte
  let mouseB : Int32 := ⟨(b 0 &&& 0x07).toUInt32⟩
  let dx := movement (b 1) (b 0 &&& 0x10)
  let dy := movement (b 2) (b 0 &&& 0x20)
  let x := m.mouseX + dx
  let y := m.mouseY - dy
  let mouse := { m with mouseCycle := 0, mouseB, lastDx := dx, lastDy := dy }
  let packet := some (b 0, b 1, b 2)
  if fb.active then
    let mouseX := clampTo fb.width x
    let mouseY := clampTo fb.height y
    ⟨{ mouse with mouseX, mouseY }, packet,
      mouseB &&& 1 ≠ 0 && m.mouseB &&& 1 = 0 && onButton fb mouseX mouseY⟩
  else ⟨{ mouse with mouseX := x, mouseY := y }, packet, false⟩

def mouseHandler (fb : Fb) (m : Pointer) (d : UInt8) : Handled :=
  if m.mouseCycle = 0 ∧ (d &&& 0x08 = 0 ∨ d = 0xFA) then ⟨m, none, false⟩
  else
    let m := { m with
      mouseByte := Function.update m.mouseByte m.mouseCycle.toNat d
      mouseCycle := m.mouseCycle + 1 }
    if m.mouseCycle = 3 then decode fb m else ⟨m, none, false⟩

/-! ### Packets -/

/-- A frame buffer of a size that the boot loader can report. -/
structure Screen extends Fb where
  graphical : active = true
  wide : 0 < width ∧ width < 65536
  high : 0 < height ∧ height < 65536

/-- The first byte of a packet has bit 3 set. -/
structure Packet where
  first : UInt8
  x : UInt8
  y : UInt8
  framed : first &&& 0x08 ≠ 0

/-- A movement of nine bits. -/
def nineBits (sign : Bool) (byte : UInt8) : Int := if sign then byte.toNat - 256 else byte.toNat

def Packet.dx (p : Packet) : Int := nineBits (p.first.toBitVec.getLsbD 4) p.x
def Packet.dy (p : Packet) : Int := nineBits (p.first.toBitVec.getLsbD 5) p.y

/-- The nearest place on a side of the screen. -/
def nearest (size : UInt32) (z : Int) : Int := max 0 (min z (size.toNat - 1))

/-- Three calls of the handler. -/
structure Fed where
  one : Handled
  two : Handled
  three : Handled

def feed (fb : Fb) (m : Pointer) (p : Packet) : Fed :=
  let one := mouseHandler fb m p.first
  let two := mouseHandler fb one.mouse p.x
  ⟨one, two, mouseHandler fb two.mouse p.y⟩

/-- The packet moves the pointer, sets the variables, and is done with. -/
structure Moved (screen : Screen) (m : Pointer) (p : Packet) (t : Pointer) : Prop where
  buttons : t.mouseB.toInt = p.first.toNat % 8
  lastDx : t.lastDx.toInt = p.dx
  lastDy : t.lastDy.toInt = p.dy
  x : t.mouseX.toInt = nearest screen.width (m.mouseX.toInt + p.dx)
  y : t.mouseY.toInt = nearest screen.height (m.mouseY.toInt - p.dy)
  boundary : t.mouseCycle = 0

/-- The variables that the packets set. -/
def Pointer.shown (m : Pointer) : Int32 × Int32 × Int32 × Int32 × Int32 :=
  (m.mouseX, m.mouseY, m.mouseB, m.lastDx, m.lastDy)

def Pointer.Inside (screen : Screen) (m : Pointer) : Prop :=
  (0 ≤ m.mouseX.toInt ∧ m.mouseX.toInt < screen.width.toNat) ∧ (0 ≤ m.mouseY.toInt ∧ m.mouseY.toInt < screen.height.toNat)

/-- The packet is decoded as one unit: nothing happens before its last byte. -/
structure Decoded (screen : Screen) (m : Pointer) (p : Packet) (t : Pointer) : Prop where
  unit : (feed screen.toFb m p).one.packet = none ∧ (feed screen.toFb m p).two.packet = none ∧
    (feed screen.toFb m p).three.packet = some (p.first, p.x, p.y)
  still : (feed screen.toFb m p).one.mouse.shown = m.shown ∧ (feed screen.toFb m p).two.mouse.shown = m.shown
  moved : Moved screen m p t
  inside : t.Inside screen

def Step (screen : Screen) (m : Pointer) (p : Packet) (t : Pointer) : Prop := t = (feed screen.toFb m p).three.mouse

/-! ### Bytes -/

theorem toInt_byte (b : UInt8) : (⟨b.toUInt32⟩ : Int32).toInt = b.toNat := by
  rw [toInt_small]
  · rfl
  · exact Nat.lt_trans b.toNat_lt (by decide)

theorem toInt_buttons (b : UInt8) : (⟨(b &&& 0x07).toUInt32⟩ : Int32).toInt = b.toNat % 8 := by
  have low : (b &&& 0x07).toNat = b.toNat % 8 := Nat.and_two_pow_sub_one_eq_mod b.toNat 3
  rw [toInt_byte, low, Int.natCast_emod]
  rfl

/-- The upper bits make the movement negative. -/
theorem toInt_movement (byte sign : UInt8) : (movement byte sign).toInt = nineBits (sign ≠ 0) byte := by
  have set : ∀ byte : UInt8, (⟨byte.toUInt32 ||| 0xFFFFFF00⟩ : Int32).toInt = byte.toNat - 256 := by decide +kernel
  rw [movement, nineBits]
  by_cases negative : sign ≠ 0
  · rw [if_pos negative, if_pos (decide_eq_true negative)]
    exact set byte
  · rw [if_neg negative, if_neg (by simpa using negative)]
    exact toInt_byte byte

theorem sign_bits (b : UInt8) : decide (b &&& 0x10 ≠ 0) = b.toBitVec.getLsbD 4 ∧ decide (b &&& 0x20 ≠ 0) = b.toBitVec.getLsbD 5 := by
  have bytes : ∀ b : UInt8, decide (b &&& 0x10 ≠ 0) = b.toBitVec.getLsbD 4 ∧
      decide (b &&& 0x20 ≠ 0) = b.toBitVec.getLsbD 5 := by decide +kernel
  exact bytes b

theorem nineBits_bounds (sign : Bool) (byte : UInt8) : -256 ≤ nineBits sign byte ∧ nineBits sign byte ≤ 255 := by
  have small := byte.toNat_lt
  rw [nineBits]
  split <;> omega

/-! ### The pointer -/

theorem toInt_clampTo {size : UInt32} (some : 0 < size ∧ size < 65536) (z : Int32) :
    (clampTo size z).toInt = nearest size z.toInt := by
  have least : 0 < size.toNat := UInt32.lt_iff_toNat_lt.mp some.1
  have most : size.toNat < 65536 := UInt32.lt_iff_toNat_lt.mp some.2
  have whole : (⟨size⟩ : Int32).toInt = size.toNat := toInt_small (by omega)
  have last : (⟨size - 1⟩ : Int32).toInt = size.toNat - 1 := by
    have less : (size - 1).toNat = size.toNat - 1 := UInt32.toNat_sub_of_le _ _ (UInt32.le_iff_toNat_le.mpr least)
    rw [toInt_small (by omega), less]
    omega
  have zero : (0 : Int32).toInt = 0 := rfl
  have beyond (n : Int32) : n ≥ ⟨size⟩ ↔ (size.toNat : Int) ≤ n.toInt := by
    rw [ge_iff_le, Int32.le_iff_toInt_le, whole]
  rw [clampTo, nearest]
  split
  · rename_i negative
    have sign := neg_iff.mp negative
    rw [if_neg (by rw [beyond, zero]; omega), zero]
    omega
  · rename_i positive
    have sign := mt neg_iff.mpr positive
    split
    · rename_i past
      have far := (beyond z).mp past
      rw [last]
      omega
    · rename_i within
      have near := mt (beyond z).mpr within
      omega

theorem nearest_inside {size : UInt32} (some : 0 < size) (z : Int) : 0 ≤ nearest size z ∧ nearest size z < size.toNat := by
  have least : 0 < size.toNat := UInt32.lt_iff_toNat_lt.mp some
  rw [nearest]
  omega

/-- A movement does not overflow from here. -/
def Roomy (z : Int32) : Prop := -2147483392 ≤ z.toInt ∧ z.toInt < 2147483392

/-- Between two packets. -/
structure Ready (m : Pointer) : Prop where
  boundary : m.mouseCycle = 0
  x : Roomy m.mouseX
  y : Roomy m.mouseY

/-- After its last byte the packet is in mouse_byte. -/
def loaded (m : Pointer) (p : Packet) : Pointer :=
  { m with
    mouseByte := Function.update (Function.update (Function.update m.mouseByte 0 p.first) 1 p.x) 2 p.y
    mouseCycle := 3 }

theorem decode_moved {screen : Screen} {m : Pointer} (ready : Ready m) (p : Packet) :
    Moved screen m p (decode screen.toFb (loaded m p)).mouse := by
  have dx : (movement p.x (p.first &&& 0x10)).toInt = p.dx := by
    rw [toInt_movement, (sign_bits p.first).1, Packet.dx]
  have dy : (movement p.y (p.first &&& 0x20)).toInt = p.dy := by
    rw [toInt_movement, (sign_bits p.first).2, Packet.dy]
  have dx_bounds : -256 ≤ p.dx ∧ p.dx ≤ 255 := nineBits_bounds _ _
  have dy_bounds : -256 ≤ p.dy ∧ p.dy ≤ 255 := nineBits_bounds _ _
  have roomX := ready.x
  have roomY := ready.y
  unfold Roomy at roomX roomY
  have x : (m.mouseX + movement p.x (p.first &&& 0x10)).toInt = m.mouseX.toInt + p.dx := by
    rw [toInt_add (by unfold Fits; omega), dx]
  have y : (m.mouseY - movement p.y (p.first &&& 0x20)).toInt = m.mouseY.toInt - p.dy := by
    rw [toInt_sub (by unfold Fits; omega), dy]
  have decoded : (decode screen.toFb (loaded m p)).mouse = { loaded m p with
      mouseCycle := 0
      mouseB := ⟨(p.first &&& 0x07).toUInt32⟩
      lastDx := movement p.x (p.first &&& 0x10)
      lastDy := movement p.y (p.first &&& 0x20)
      mouseX := clampTo screen.width (m.mouseX + movement p.x (p.first &&& 0x10))
      mouseY := clampTo screen.height (m.mouseY - movement p.y (p.first &&& 0x20)) } := by
    rw [decode, if_pos screen.graphical]
    rfl
  rw [decoded]
  refine ⟨toInt_buttons p.first, dx, dy, ?_, ?_, rfl⟩
  · rw [← x]
    exact toInt_clampTo screen.wide _
  · rw [← y]
    exact toInt_clampTo screen.high _

/-- A pointer on the screen is far from where ints end. -/
theorem Moved.inside {screen : Screen} {m t : Pointer} {p : Packet} (moved : Moved screen m p t) : t.Inside screen := by
  rw [Pointer.Inside, moved.x, moved.y]
  exact ⟨nearest_inside screen.wide.1 _, nearest_inside screen.high.1 _⟩

theorem Moved.ready {screen : Screen} {m t : Pointer} {p : Packet} (moved : Moved screen m p t) : Ready t := by
  obtain ⟨⟨left, right⟩, top, bottom⟩ := moved.inside
  have wide : screen.width.toNat < 65536 := UInt32.lt_iff_toNat_lt.mp screen.wide.2
  have high : screen.height.toNat < 65536 := UInt32.lt_iff_toNat_lt.mp screen.high.2
  refine ⟨moved.boundary, ?_, ?_⟩
  · unfold Roomy
    omega
  · unfold Roomy
    omega

/-! ### Three bytes -/

/-- A byte that the filter lets pass is stored. -/
theorem mouseHandler_stores {fb : Fb} {m : Pointer} {d : UInt8} (passes : m.mouseCycle = 0 → d &&& 0x08 ≠ 0 ∧ d ≠ 0xFA) :
    mouseHandler fb m d =
      let stored := { m with mouseByte := Function.update m.mouseByte m.mouseCycle.toNat d, mouseCycle := m.mouseCycle + 1 }
      if m.mouseCycle + 1 = 3 then decode fb stored else ⟨stored, none, false⟩ := by
  have taken : ¬ (m.mouseCycle = 0 ∧ (d &&& 0x08 = 0 ∨ d = 0xFA)) := by
    rintro ⟨first, unframed | ack⟩
    · exact (passes first).1 unframed
    · exact (passes first).2 ack
  exact if_neg taken

theorem feed_loaded (fb : Fb) {m : Pointer} (boundary : m.mouseCycle = 0) {p : Packet} (accepted : p.first ≠ 0xFA) :
    (feed fb m p).one.packet = none ∧ (feed fb m p).two.packet = none ∧
      (feed fb m p).one.mouse.shown = m.shown ∧ (feed fb m p).two.mouse.shown = m.shown ∧
      (feed fb m p).three = decode fb (loaded m p) := by
  have one : mouseHandler fb m p.first =
      ⟨{ m with mouseByte := Function.update m.mouseByte 0 p.first, mouseCycle := 1 }, none, false⟩ := by
    rw [mouseHandler_stores fun _ => ⟨p.framed, accepted⟩, boundary]
    rfl
  have two : mouseHandler fb (mouseHandler fb m p.first).mouse p.x = ⟨{ m with
      mouseByte := Function.update (Function.update m.mouseByte 0 p.first) 1 p.x, mouseCycle := 2 }, none, false⟩ := by
    rw [one, mouseHandler_stores fun first => absurd first (by decide : (1 : UInt8) ≠ 0)]
    rfl
  have three : mouseHandler fb (mouseHandler fb (mouseHandler fb m p.first).mouse p.x).mouse p.y = decode fb (loaded m p) := by
    rw [two, mouseHandler_stores fun first => absurd first (by decide : (2 : UInt8) ≠ 0)]
    rfl
  refine ⟨congrArg Handled.packet one, congrArg Handled.packet two, ?_, ?_, three⟩
  · exact congrArg (fun h => h.mouse.shown) one
  · exact congrArg (fun h => h.mouse.shown) two

/-- The handler takes nothing apart before it has three bytes. -/
theorem mouseHandler_early (fb : Fb) {m : Pointer} (early : m.mouseCycle = 0 ∨ m.mouseCycle = 1) (d : UInt8) :
    (mouseHandler fb m d).packet = none ∧
      (m.mouseCycle = 0 → (mouseHandler fb m d).mouse.mouseCycle = 0 ∨ (mouseHandler fb m d).mouse.mouseCycle = 1) := by
  have more : ¬ m.mouseCycle + 1 = 3 := by
    rcases early with zero | one
    · rw [zero]
      decide
    · rw [one]
      decide
  rw [mouseHandler]
  split
  · exact ⟨rfl, .inl⟩
  · rw [if_neg more]
    refine ⟨rfl, fun zero => .inr ?_⟩
    dsimp only
    rw [zero]
    rfl

/-! ### Runs -/

/-- The filter takes 0xFA for an acknowledgement. -/
def Admits (_ : Pointer) (p : Packet) : Prop := p.first ≠ 0xFA

theorem judged {screen : Screen} {m t : Pointer} {p : Packet} (ready : Ready m) (taken : Step screen m p t) :
    Decoded screen m p t ↔ Admits m p := by
  constructor
  · rintro decoded ack
    have dropped : mouseHandler screen.toFb m p.first = ⟨m, none, false⟩ := if_pos ⟨ready.boundary, .inr ack⟩
    obtain ⟨-, second⟩ := mouseHandler_early screen.toFb (.inl ready.boundary) p.x
    obtain ⟨third, -⟩ := mouseHandler_early screen.toFb (second ready.boundary) p.y
    have whole := decoded.unit.2.2
    simp only [feed, dropped, third] at whole
    cases whole
  · intro accepted
    obtain ⟨one, two, first, second, three⟩ := feed_loaded screen.toFb ready.boundary accepted
    have moved : Moved screen m p t := by
      rw [show t = (decode screen.toFb (loaded m p)).mouse by rw [← three]; exact taken]
      exact decode_moved ready p
    refine ⟨⟨one, two, ?_⟩, ⟨first, second⟩, moved, moved.inside⟩
    rw [three, decode, if_pos screen.graphical]
    rfl

/-- In every run of packets each one is decoded as a unit and moves the pointer as it says,
just as long as no first byte is 0xFA. -/
theorem packets_decoded_iff (screen : Screen) {m t : Pointer} (ready : Ready m) {moves : List (Move Pointer Packet)}
    (run : Run (Step screen) m moves t) :
    (∀ e ∈ moves, Decoded screen e.before e.event e.after) ↔ ∀ e ∈ moves, e.event.first ≠ 0xFA :=
  run.good_iff Ready Admits (Decoded screen)
    (fun ready accepted taken => ((judged ready taken).mpr accepted).moved.ready) judged ready

def vga : Screen := ⟨⟨true, 640, 480⟩, rfl, by decide, by decide⟩

theorem boot_ready : Ready .boot := ⟨rfl, by unfold Roomy; decide, by unfold Roomy; decide⟩

/-- Two packets, the second one to the left and down. -/
theorem packets_decoded : ∃ moves t, Run (Step vga) .boot moves t ∧ moves.length = 2 ∧
    ((∀ e ∈ moves, Decoded vga e.before e.event e.after) ↔ ∀ e ∈ moves, e.event.first ≠ 0xFA) := by
  have right (m : Pointer) : Step vga m ⟨0x08, 5, 3, by decide⟩ _ := rfl
  have left (m : Pointer) : Step vga m ⟨0x39, 0xFE, 0xF0, by decide⟩ _ := rfl
  have run := Run.cons (right .boot) (.cons (left _) (.nil _))
  exact ⟨_, _, run, rfl, packets_decoded_iff vga boot_ready run⟩

/-- The right button is down and the pointer moves left and down, too fast to be told: the
first byte is dropped, and the last one is taken for the first byte of a packet. -/
theorem dropped_first : (feed vga.toFb .boot ⟨0xFA, 0x10, 0x08, by decide⟩).three.mouse.mouseCycle = 1 ∧
    ¬ ∀ (screen : Screen) (m : Pointer) (p : Packet) (t : Pointer), Ready m → Step screen m p t → Decoded screen m p t := by
  refine ⟨by decide, fun all => ?_⟩
  have decoded := all vga .boot ⟨0xFA, 0x10, 0x08, by decide⟩ _ boot_ready rfl
  exact absurd decoded.unit.2.2 (by decide)

end ChrisOS.Drivers.Mouse
