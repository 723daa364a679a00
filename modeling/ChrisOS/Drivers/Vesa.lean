import ChrisOS.Lib.Bytes
import ChrisOS.Lib.Canvas
import ChrisOS.Lib.Signed

/-! The frame buffer: what boot.asm leaves at 0x500, vesa_init, and the pixels of drivers/vesa.h.

Coordinates are ints, memory is by its addresses. Where the lines of the mode do not
overlap the pixels are a canvas.
-/

set_option autoImplicit false

namespace ChrisOS.Drivers.Vesa
open ChrisOS.Lib
open ChrisOS.Lib.Signed (Fits)

/-! ### From the BIOS to vesa_init -/

/-- The fields of the ModeInfoBlock that boot.asm reads. -/
structure ModeInfo where
  bytesPerScanLine : UInt16
  xResolution : UInt16
  yResolution : UInt16
  bitsPerPixel : UInt8
  physBasePtr : UInt32

/-- What int 0x10 answers to 0x4F01 and to 0x4F02. -/
structure Bios where
  modeInfo : Option ModeInfo
  modeSet : Bool

/-- The words at 0x500. -/
structure Handoff where
  addr : UInt32
  width : UInt32
  height : UInt32
  bpp : UInt32
  pitch : UInt32

def noVesa : Handoff := ⟨0, 0, 0, 0, 0⟩

def ModeInfo.handoff (i : ModeInfo) : Handoff :=
  ⟨if i.physBasePtr ≠ 0 then i.physBasePtr else 0xFD000000, i.xResolution.toUInt32, i.yResolution.toUInt32,
    i.bitsPerPixel.toUInt32, i.bytesPerScanLine.toUInt32⟩

/-- The part of boot.asm before the kernel is loaded. -/
def bootHandoff (b : Bios) : Handoff :=
  match b.modeInfo with
  | none => noVesa
  | some i => if b.modeSet then i.handoff else noVesa

/-- The variables of vesa.c. -/
structure Fb where
  addr : UInt32
  width : UInt32
  height : UInt32
  pitch : UInt32
  bpp : UInt32
  active : Bool

/-- As the kernel is loaded. -/
def Fb.boot : Fb := ⟨0xFD000000, 1024, 768, 4096, 32, false⟩

/-- The string is written to the terminal, which goes by fb_active. -/
def vesaInit (h : Handoff) (fb : Fb) : Fb × String :=
  if h.addr = 0 ∨ h.bpp ≠ 32 ∧ h.bpp ≠ 24 then ({ fb with active := false }, "VESA: not available, using text mode\n")
  else
    (⟨h.addr, h.width, h.height, if h.pitch > 0 then h.pitch else h.width * (h.bpp / 8), h.bpp, true⟩,
      "VESA: framebuffer ready\n")

/-! ### Pixels -/

/-- `(unsigned)z`, and what an int is in unsigned arithmetic. -/
def unsigned (z : Int) : Nat := (z % 2 ^ 32).toNat

abbrev Mem := Nat → UInt8

/-- `&fb_addr[y * stride + x]` -/
def Fb.word (fb : Fb) (x y : Int) : Nat :=
  (fb.addr.toNat + 4 * ((unsigned y * (fb.pitch.toNat / 4) + unsigned x) % 2 ^ 32)) % 2 ^ 32

/-- `(uint8_t*)fb_addr + y * fb_pitch + x * 3` -/
def Fb.bytes (fb : Fb) (x y : Int) : Nat :=
  (fb.addr.toNat + unsigned y * fb.pitch.toNat % 2 ^ 32 + unsigned (x * 3)) % 2 ^ 32

def fbPutPixel (fb : Fb) (x y : Int) (color : UInt32) (mem : Mem) : Mem :=
  if unsigned x < fb.width.toNat ∧ unsigned y < fb.height.toNat then
    if fb.bpp = 32 then putWord32 mem (fb.word x y) color.toNat
    else if fb.bpp = 24 then
      let p := fb.bytes x y
      let mem := Function.update mem p (byteOf color.toNat 0)
      let mem := Function.update mem (p + 1) (byteOf color.toNat 1)
      Function.update mem (p + 2) (byteOf color.toNat 2)
    else mem
  else mem

def fbGetPixel (fb : Fb) (x y : Int) (mem : Mem) : UInt32 :=
  if unsigned x < fb.width.toNat ∧ unsigned y < fb.height.toNat then
    if fb.bpp = 32 then UInt32.ofNat (word32 mem (fb.word x y))
    else if fb.bpp = 24 then
      let p := fb.bytes x y
      UInt32.ofNat ((mem p).toNat + 2 ^ 8 * (mem (p + 1)).toNat + 2 ^ 16 * (mem (p + 2)).toNat)
    else 0
  else 0

def rgb (r g b : UInt8) : UInt32 := r.toUInt32 <<< 16 ||| g.toUInt32 <<< 8 ||| b.toUInt32

/-- Calls of fb_put_pixel, in their order. -/
abbrev Dots := List ((Int × Int) × UInt32)

def Fb.draw (fb : Fb) (dots : Dots) (mem : Mem) : Mem :=
  dots.foldl (fun mem d => fbPutPixel fb d.1.1 d.1.2 d.2 mem) mem

/-- The coordinates are ints. -/
def Dots.Fit (dots : Dots) : Prop := ∀ d ∈ dots, Fits d.1.1 ∧ Fits d.1.2

/-! ### Where the pixels lie -/

/-- A mode whose lines do not overlap and lie in the memory. -/
structure Fb.Sound (fb : Fb) : Prop where
  active : fb.active = true
  depth : fb.bpp = 32 ∨ fb.bpp = 24
  wide : fb.width.toNat < 2 ^ 16
  high : fb.height.toNat < 2 ^ 16
  lines : fb.width.toNat * (fb.bpp.toNat / 8) ≤ fb.pitch.toNat
  room : fb.addr.toNat + fb.height.toNat * fb.pitch.toNat ≤ 2 ^ 32

/-- The bytes of a pixel. -/
def Fb.size (fb : Fb) : Nat := if fb.bpp = 32 then 4 else 3

/-- The bytes from a line to the next one. -/
def Fb.stride (fb : Fb) : Nat := if fb.bpp = 32 then fb.pitch.toNat / 4 * 4 else fb.pitch.toNat

def Fb.place (fb : Fb) (x y : Nat) : Nat := fb.addr.toNat + (y * fb.stride + x * fb.size)

def Fb.Inside (fb : Fb) (x y : Int) : Prop := (0 ≤ x ∧ x < fb.width.toNat) ∧ (0 ≤ y ∧ y < fb.height.toNat)

instance (fb : Fb) (x y : Int) : Decidable (fb.Inside x y) :=
  inferInstanceAs (Decidable ((0 ≤ x ∧ x < fb.width.toNat) ∧ (0 ≤ y ∧ y < fb.height.toNat)))

/-- What a pixel keeps of a colour. -/
def Fb.kept (fb : Fb) (color : UInt32) : UInt32 := if fb.bpp = 32 then color else UInt32.ofNat (color.toNat % 2 ^ 24)

theorem unsigned_of_nonneg {z : Int} (nonneg : 0 ≤ z) (fits : Fits z) : unsigned z = z.toNat := by
  unfold Fits at fits
  unfold unsigned
  rw [Int.emod_eq_of_lt nonneg (by omega)]

theorem unsigned_triple {z : Int} (nonneg : 0 ≤ z) (small : z < (2 ^ 16 : Nat)) : unsigned (z * 3) = z.toNat * 3 := by
  unfold unsigned
  omega

theorem unsigned_lt_iff {z : Int} (fits : Fits z) {n : Nat} (small : n < 2 ^ 16) :
    unsigned z < n ↔ 0 ≤ z ∧ z < n := by
  unfold Fits at fits
  unfold unsigned
  omega

theorem cells_apart {w n l x y x' y' : Nat} (lines : w * n ≤ l) (wide : x < w) (wide' : x' < w)
    (other : ¬(x = x' ∧ y = y')) : y * l + x * n + n ≤ y' * l + x' * n ∨ y' * l + x' * n + n ≤ y * l + x * n := by
  have one {a b : Nat} (below : a < b) : a * n + n ≤ b * n := by
    rw [← Nat.succ_mul]
    exact Nat.mul_le_mul_right n below
  have row {a b : Nat} (below : a < b) : a * l + l ≤ b * l := by
    rw [← Nat.succ_mul]
    exact Nat.mul_le_mul_right l below
  have first := one wide
  have second := one wide'
  rcases Nat.lt_trichotomy y y' with above | same | below
  · have := row above
    omega
  · subst same
    rcases Nat.lt_trichotomy x x' with left | same | right
    · have := one left
      omega
    · exact absurd ⟨same, rfl⟩ other
    · have := one right
      omega
  · have := row below
    omega

section
variable {fb : Fb} (sound : fb.Sound)
include sound

theorem Fb.Sound.fitting : fb.width.toNat * fb.size ≤ fb.stride ∧ fb.stride ≤ fb.pitch.toNat := by
  have lines := sound.lines
  unfold Fb.size Fb.stride
  rcases sound.depth with deep | deep
  · rw [deep, if_pos rfl, if_pos rfl]
    rw [deep] at lines
    change _ * 4 ≤ _ at lines
    omega
  · rw [deep, if_neg (by decide), if_neg (by decide)]
    rw [deep] at lines
    change _ * 3 ≤ _ at lines
    omega

theorem Fb.Sound.onScreen_iff {x y : Int} (fits : Fits x ∧ Fits y) :
    (unsigned x < fb.width.toNat ∧ unsigned y < fb.height.toNat) ↔ fb.Inside x y :=
  and_congr (unsigned_lt_iff fits.1 sound.wide) (unsigned_lt_iff fits.2 sound.high)

/-- A pixel of the screen lies in the frame buffer. -/
theorem Fb.Sound.place_end {x y : Nat} (wide : x < fb.width.toNat) (high : y < fb.height.toNat) :
    y * fb.stride + x * fb.size + fb.size ≤ fb.height.toNat * fb.pitch.toNat := by
  obtain ⟨lines, pitch⟩ := sound.fitting
  have across : x * fb.size + fb.size ≤ fb.stride := by
    rw [← Nat.succ_mul]
    exact (Nat.mul_le_mul_right _ wide).trans lines
  have down : y * fb.stride + fb.stride ≤ fb.height.toNat * fb.pitch.toNat := by
    rw [← Nat.succ_mul]
    exact (Nat.mul_le_mul high pitch)
  omega

theorem Fb.Sound.word_eq (deep : fb.bpp = 32) {x y : Int} (fits : Fits x ∧ Fits y) (inside : fb.Inside x y) :
    fb.word x y = fb.place x.toNat y.toNat := by
  obtain ⟨⟨x0, wide⟩, y0, high⟩ := inside
  have size : fb.size = 4 := if_pos deep
  have stride : fb.stride = fb.pitch.toNat / 4 * 4 := if_pos deep
  have stop := sound.place_end (x := x.toNat) (y := y.toNat) (by omega) (by omega)
  have room := sound.room
  rw [size, stride, ← Nat.mul_assoc] at stop
  rw [Fb.word, Fb.place, size, stride, ← Nat.mul_assoc, unsigned_of_nonneg x0 fits.1, unsigned_of_nonneg y0 fits.2]
  generalize y.toNat * (fb.pitch.toNat / 4) = row at *
  generalize fb.height.toNat * fb.pitch.toNat = all at *
  omega

theorem Fb.Sound.bytes_eq (deep : fb.bpp ≠ 32) {x y : Int} (fits : Fits x ∧ Fits y) (inside : fb.Inside x y) :
    fb.bytes x y = fb.place x.toNat y.toNat := by
  obtain ⟨⟨x0, wide⟩, y0, high⟩ := inside
  have size : fb.size = 3 := if_neg deep
  have stride : fb.stride = fb.pitch.toNat := if_neg deep
  have stop := sound.place_end (x := x.toNat) (y := y.toNat) (by omega) (by omega)
  have room := sound.room
  have three : unsigned (x * 3) = x.toNat * 3 :=
    unsigned_triple x0 (Int.lt_trans wide (Int.ofNat_lt.mpr sound.wide))
  rw [size, stride] at stop
  rw [Fb.bytes, Fb.place, size, stride, three, unsigned_of_nonneg y0 fits.2]
  generalize y.toNat * fb.pitch.toNat = row at *
  generalize fb.height.toNat * fb.pitch.toNat = all at *
  omega

/-! ### A pixel's bytes -/

omit sound in
theorem three_bytes (mem : Mem) (p : Nat) (b0 b1 b2 : UInt8) {mem' : Mem}
    (stored : mem' = Function.update (Function.update (Function.update mem p b0) (p + 1) b1) (p + 2) b2) :
    (mem' p = b0 ∧ mem' (p + 1) = b1 ∧ mem' (p + 2) = b2) ∧ ∀ a, a < p ∨ p + 3 ≤ a → mem' a = mem a := by
  subst stored
  refine ⟨⟨?_, ?_, Function.update_self ..⟩, fun a away => ?_⟩
  · rw [Function.update_of_ne (by omega), Function.update_of_ne (by omega), Function.update_self]
  · rw [Function.update_of_ne (by omega), Function.update_self]
  · rw [Function.update_of_ne (by omega), Function.update_of_ne (by omega), Function.update_of_ne (by omega)]

theorem Fb.Sound.put_other {x y : Int} (fits : Fits x ∧ Fits y) (color : UInt32) (mem : Mem) {a : Nat}
    (away : fb.Inside x y → a < fb.place x.toNat y.toNat ∨ fb.place x.toNat y.toNat + fb.size ≤ a) :
    fbPutPixel fb x y color mem a = mem a := by
  unfold fbPutPixel
  by_cases here : fb.Inside x y
  · have apart := away here
    rw [if_pos ((sound.onScreen_iff fits).mpr here)]
    by_cases deep : fb.bpp = 32
    · rw [if_pos deep, sound.word_eq deep fits here, putWord32, if_neg]
      rw [Fb.size, if_pos deep] at apart
      omega
    · rw [if_neg deep, if_pos (sound.depth.resolve_left deep), sound.bytes_eq deep fits here]
      rw [Fb.size, if_neg deep] at apart
      exact (three_bytes mem _ _ _ _ rfl).2 a apart
  · rw [if_neg fun both => here ((sound.onScreen_iff fits).mp both)]

/-- What is read depends on the pixel's bytes only. -/
theorem Fb.Sound.get_congr {x y : Int} (fits : Fits x ∧ Fits y) {mem mem' : Mem}
    (same : fb.Inside x y → ∀ i < fb.size, mem (fb.place x.toNat y.toNat + i) = mem' (fb.place x.toNat y.toNat + i)) :
    fbGetPixel fb x y mem = fbGetPixel fb x y mem' := by
  unfold fbGetPixel
  by_cases here : fb.Inside x y
  · have bytes := same here
    rw [if_pos ((sound.onScreen_iff fits).mpr here), if_pos ((sound.onScreen_iff fits).mpr here)]
    by_cases deep : fb.bpp = 32
    · rw [Fb.size, if_pos deep] at bytes
      rw [if_pos deep, if_pos deep, sound.word_eq deep fits here, word32_congr bytes]
    · rw [Fb.size, if_neg deep] at bytes
      have zero := bytes 0 (by decide)
      have deep' := sound.depth.resolve_left deep
      rw [Nat.add_zero] at zero
      rw [if_neg deep, if_neg deep, if_pos deep', if_pos deep', sound.bytes_eq deep fits here]
      dsimp only
      rw [zero, bytes 1 (by decide), bytes 2 (by decide)]
  · have off : ¬(unsigned x < fb.width.toNat ∧ unsigned y < fb.height.toNat) :=
      fun both => here ((sound.onScreen_iff fits).mp both)
    rw [if_neg off, if_neg off]

theorem Fb.Sound.get_put_self {x y : Int} (fits : Fits x ∧ Fits y) (inside : fb.Inside x y) (color : UInt32) (mem : Mem) :
    fbGetPixel fb x y (fbPutPixel fb x y color mem) = fb.kept color := by
  have on := (sound.onScreen_iff fits).mpr inside
  rw [fbGetPixel, fbPutPixel, Fb.kept, if_pos on, if_pos on]
  by_cases deep : fb.bpp = 32
  · rw [if_pos deep, if_pos deep, if_pos deep, word32_put _ _ color.toNat_lt, UInt32.ofNat_toNat]
  · have deep' := sound.depth.resolve_left deep
    rw [if_neg deep, if_neg deep, if_neg deep, if_pos deep', if_pos deep']
    dsimp only
    obtain ⟨⟨first, second, third⟩, -⟩ := three_bytes mem (fb.bytes x y) (byteOf color.toNat 0) (byteOf color.toNat 1)
      (byteOf color.toNat 2) rfl
    rw [first, second, third, byteOf_toNat, byteOf_toNat, byteOf_toNat]
    congr 1
    omega

theorem Fb.Sound.get_put_other {x y x' y' : Int} (fits : Fits x ∧ Fits y) (fits' : Fits x' ∧ Fits y')
    (other : (x', y') = (x, y) → ¬fb.Inside x y) (color : UInt32) (mem : Mem) :
    fbGetPixel fb x' y' (fbPutPixel fb x y color mem) = fbGetPixel fb x' y' mem := by
  refine sound.get_congr fits' fun here' i small => sound.put_other fits color mem fun here => ?_
  have inside := here
  obtain ⟨⟨x0, wide⟩, y0, high⟩ := here
  obtain ⟨⟨x0', wide'⟩, y0', high'⟩ := here'
  have different : ¬(x.toNat = x'.toNat ∧ y.toNat = y'.toNat) := fun same =>
    other (Prod.ext (show x' = x by omega) (show y' = y by omega)) inside
  have apart := cells_apart sound.fitting.1 (show x.toNat < fb.width.toNat by omega) (show x'.toNat < fb.width.toNat by omega)
    different
  unfold Fb.place
  omega

theorem Fb.Sound.kept_get (x y : Int) (mem : Mem) : fb.kept (fbGetPixel fb x y mem) = fbGetPixel fb x y mem := by
  unfold Fb.kept
  by_cases deep : fb.bpp = 32
  · rw [if_pos deep]
  · rw [if_neg deep, fbGetPixel, if_neg deep, if_pos (sound.depth.resolve_left deep)]
    split
    · dsimp only
      have b0 := (mem (fb.bytes x y)).toNat_lt
      have b1 := (mem (fb.bytes x y + 1)).toNat_lt
      have b2 := (mem (fb.bytes x y + 2)).toNat_lt
      rw [UInt32.toNat_ofNat', Nat.mod_eq_of_lt (show _ < 2 ^ 32 by omega), Nat.mod_eq_of_lt (by omega)]
    · rfl

end

/-- The frame buffer of a sound mode. -/
def Fb.Sound.canvas {fb : Fb} (sound : fb.Sound) : Canvas Mem (Int × Int) UInt32 where
  get mem p := fbGetPixel fb p.1 p.2 mem
  put p color mem := fbPutPixel fb p.1 p.2 color mem
  Named p := Fits p.1 ∧ Fits p.2
  Inside p := fb.Inside p.1 p.2
  kept := fb.kept
  get_put_self named inside := sound.get_put_self named inside _ _
  get_put_other named named' other := sound.get_put_other named named' other _ _
  kept_get _ _ := sound.kept_get _ _ _

theorem Fb.Sound.draw_eq {fb : Fb} (sound : fb.Sound) (dots : Dots) (mem : Mem) :
    fb.draw dots mem = sound.canvas.paint dots mem := rfl

/-! ### From boot on -/

/-- The bytes from a line to the next one. A pitch of 0 stands for the least one. -/
def ModeInfo.pitch (i : ModeInfo) : Nat :=
  if i.bytesPerScanLine = 0 then i.xResolution.toNat * (i.bitsPerPixel.toNat / 8) else i.bytesPerScanLine.toNat

/-- A line has room for its pixels, and the frame buffer ends in the memory. -/
structure ModeInfo.Consistent (i : ModeInfo) : Prop where
  lines : i.xResolution.toNat * (i.bitsPerPixel.toNat / 8) ≤ i.pitch
  room : (if i.physBasePtr ≠ 0 then i.physBasePtr else 0xFD000000).toNat + i.yResolution.toNat * i.pitch ≤ 2 ^ 32

theorem vesaInit_active {h : Handoff} {fb : Fb} (active : (vesaInit h fb).1.active = true) :
    (h.addr ≠ 0 ∧ (h.bpp = 32 ∨ h.bpp = 24)) ∧
      (vesaInit h fb).1 = ⟨h.addr, h.width, h.height, if h.pitch > 0 then h.pitch else h.width * (h.bpp / 8), h.bpp, true⟩ := by
  unfold vesaInit at active ⊢
  split at active
  · cases active
  · rename_i passed
    rw [not_or, not_and_not_right] at passed
    rw [if_neg (by tauto)]
    exact ⟨⟨passed.1, (em _).imp id passed.2⟩, rfl⟩

theorem bootHandoff_mode {b : Bios} (there : (bootHandoff b).addr ≠ 0) :
    ∃ i, b.modeInfo = some i ∧ bootHandoff b = i.handoff := by
  unfold bootHandoff at there ⊢
  cases mode : b.modeInfo with
  | none =>
    rw [mode] at there
    exact absurd rfl there
  | some i =>
    rw [mode] at there
    by_cases set : b.modeSet = true
    · exact ⟨i, rfl, if_pos set⟩
    · dsimp only at there
      rw [if_neg set] at there
      exact absurd rfl there

theorem pitch_toNat (i : ModeInfo) : (if i.handoff.pitch > 0 then i.handoff.pitch
    else i.handoff.width * (i.handoff.bpp / 8)).toNat = i.pitch := by
  have narrow := i.xResolution.toNat_lt
  have shallow := i.bitsPerPixel.toNat_lt
  have given : i.handoff.pitch > 0 ↔ i.bytesPerScanLine ≠ 0 := by
    rw [gt_iff_lt, UInt32.lt_iff_toNat_lt, ne_eq, ← UInt16.toNat_inj]
    exact Nat.pos_iff_ne_zero
  unfold ModeInfo.pitch
  by_cases zero : i.bytesPerScanLine = 0
  · rw [if_neg fun positive => given.mp positive zero, if_pos zero, UInt32.toNat_mul, UInt32.toNat_div]
    have small : i.xResolution.toNat * (i.bitsPerPixel.toNat / 8) ≤ 2 ^ 16 * 2 ^ 8 := Nat.mul_le_mul (by omega) (by omega)
    exact Nat.mod_eq_of_lt (Nat.lt_of_le_of_lt small (by decide))
  · rw [if_pos (given.mpr zero), if_neg zero]
    rfl

theorem vesaInit_sound {b : Bios} {fb : Fb} (consistent : ∀ i, b.modeInfo = some i → i.Consistent)
    (active : (vesaInit (bootHandoff b) fb).1.active = true) : (vesaInit (bootHandoff b) fb).1.Sound := by
  obtain ⟨⟨addr, depth⟩, found⟩ := vesaInit_active active
  obtain ⟨i, mode, handoff⟩ := bootHandoff_mode addr
  obtain ⟨lines, room⟩ := consistent i mode
  rw [← pitch_toNat] at lines room
  rw [handoff] at depth
  rw [found, handoff]
  exact ⟨rfl, depth, i.xResolution.toNat_lt, i.yResolution.toNat_lt, lines, room⟩

/-- Where the BIOS reports a mode whose lines do not overlap, what is drawn after vesa_init is on the screen as
it was put there last, and nowhere else. -/
theorem drawn_pixels {b : Bios} (consistent : ∀ i, b.modeInfo = some i → i.Consistent) {fb : Fb}
    (init : fb = (vesaInit (bootHandoff b) .boot).1) (active : fb.active = true) {dots : Dots} (fit : dots.Fit) (mem : Mem) :
    (∀ x y, Fits x → Fits y → fbGetPixel fb x y (fb.draw dots mem) =
      if fb.Inside x y then ((Canvas.image dots (x, y)).map fb.kept).getD (fbGetPixel fb x y mem) else 0) ∧
    ∀ a, a < fb.addr.toNat ∨ fb.addr.toNat + fb.height.toNat * fb.pitch.toNat ≤ a → fb.draw dots mem a = mem a := by
  subst init
  have sound := vesaInit_sound consistent active
  refine ⟨fun x y fx fy => ?_, fun a away => ?_⟩
  · rw [sound.draw_eq]
    by_cases inside : (vesaInit (bootHandoff b) .boot).1.Inside x y
    · rw [if_pos inside]
      exact sound.canvas.get_paint (p := (x, y)) fit ⟨fx, fy⟩ inside
    · rw [if_neg inside, fbGetPixel, if_neg fun on => inside ((sound.onScreen_iff ⟨fx, fy⟩).mp on)]
  · induction dots generalizing mem with
    | nil => rfl
    | cons d dots ih =>
      unfold Dots.Fit at fit
      rw [List.forall_mem_cons] at fit
      rw [Fb.draw, List.foldl_cons]
      refine (ih fit.2 _).trans (sound.put_other fit.1 d.2 mem fun inside => ?_)
      obtain ⟨⟨x0, wide⟩, y0, high⟩ := inside
      have stop := sound.place_end (x := d.1.1.toNat) (y := d.1.2.toNat) (by omega) (by omega)
      unfold Fb.place
      omega

/-- Mode 0x118 with three bytes a pixel. -/
def trueColor : Bios := ⟨some ⟨3072, 1024, 768, 24, 0xFD000000⟩, true⟩

theorem trueColor_consistent (i : ModeInfo) (mode : trueColor.modeInfo = some i) : i.Consistent := by
  cases mode
  exact ⟨by decide, by decide⟩

theorem drawn_pixels_trueColor :
    fbGetPixel (vesaInit (bootHandoff trueColor) .boot).1 5 7
        ((vesaInit (bootHandoff trueColor) .boot).1.draw [((5, 7), 0x01020304), ((5, -7), 1)] fun _ => 0xAA) = 0x020304 ∧
      (vesaInit (bootHandoff trueColor) .boot).1.draw [((5, 7), 0x01020304), ((5, -7), 1)] (fun _ => 0xAA) 0x1000 = 0xAA := by
  have fit : Dots.Fit [((5, 7), 0x01020304), ((5, -7), 1)] := by
    simp [Dots.Fit, Fits]
  obtain ⟨pixel, elsewhere⟩ := drawn_pixels trueColor_consistent rfl (by decide) fit fun _ => 0xAA
  refine ⟨?_, elsewhere 0x1000 (.inl (by decide))⟩
  rw [pixel 5 7 (by simp [Fits]) (by simp [Fits]), if_pos (by decide)]
  rfl

end ChrisOS.Drivers.Vesa
