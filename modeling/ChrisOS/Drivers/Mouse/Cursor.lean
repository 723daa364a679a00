import ChrisOS.Drivers.Vesa
import ChrisOS.Lib.Run
import ChrisOS.Lib.Sprite

/-! The pointer on the screen: mouse_tick of drivers/mouse.c and draw_cursor of ui/draw.c.

mouse_tick runs with interrupts on, and the handlers draw on the same screen. A pixel of
theirs may come between any two accesses of it.
-/

set_option autoImplicit false

namespace ChrisOS.Drivers.Cursor
open ChrisOS.Lib ChrisOS.Lib.Sprite ChrisOS.Drivers.Vesa
open ChrisOS.Lib.Signed (Fits)

def cursorBmp : List UInt16 :=
  [0x8000, 0xC000, 0xE000, 0xF000, 0xF800, 0xFC00, 0xFE00, 0xFF00, 0xFF80, 0xFFC0, 0xFC00, 0xEC00, 0xC600, 0x0600, 0x0300,
    0x0300, 0x0180, 0x0180, 0x00C0, 0x0000]

/-- The places of the 20 rows and 12 columns, counted row by row. -/
def places : Nat := 20 * 12

/-- `bits & (0x8000 >> col)` -/
def marked (i : Nat) : Bool := cursorBmp.getD (i / 12) 0 &&& 0x8000 >>> UInt16.ofNat (i % 12) ≠ 0

/-- Where mouse_tick is, with the place that comes next. -/
inductive Point where
  | idle
  | restoring (i : Nat)
  | aiming
  | saving (i : Nat)
  | marking (i : Nat)

/-- The screen and the variables of mouse_tick. -/
structure Overlay where
  mem : Mem
  /-- The array cursor_bg, row by row. -/
  bg : Nat → UInt32
  drawn : Bool
  drawnX : Int
  drawnY : Int
  point : Point

def Overlay.place (s : Overlay) (i : Nat) : Int × Int := (s.drawnX + (i % 12 : Nat), s.drawnY + (i / 12 : Nat))

inductive Event where
  /-- A pixel that is drawn by anybody else. -/
  | draw (x y : Int) (color : UInt32)
  | tick
  /-- The next pixel of a loop of mouse_tick. -/
  | access
  /-- mouse_x and mouse_y are read. -/
  | aim (x y : Int)

/-- The loop goes on, or the next thing begins. -/
def advance (loop : Nat → Point) (i : Nat) (behind : Point) : Point := if i + 1 < places then loop (i + 1) else behind

/-- A round of the loop that mouse_tick is in. -/
def access (fb : Fb) (s : Overlay) : Option Overlay :=
  match s.point with
  | .idle | .aiming => none
  | .restoring i => some { s with
      mem := fbPutPixel fb (s.place i).1 (s.place i).2 (s.bg i) s.mem
      point := advance .restoring i .aiming }
  | .saving i => some { s with
      bg := Function.update s.bg i (fbGetPixel fb (s.place i).1 (s.place i).2 s.mem)
      point := advance .saving i (.marking 0) }
  | .marking i => some { s with
      mem := if marked i then fbPutPixel fb (s.place i).1 (s.place i).2 (rgb 255 255 255) s.mem else s.mem
      drawn := s.drawn || !(i + 1 < places)
      point := advance .marking i .idle }

def next (fb : Fb) (s : Overlay) : Event → Option Overlay
  | .draw x y color => some { s with mem := fbPutPixel fb x y color s.mem }
  | .tick =>
    match s.point with
    | .idle => some { s with point := if s.drawn then .restoring 0 else .aiming }
    | _ => none
  | .access => access fb s
  | .aim x y =>
    match s.point with
    | .aiming => some { s with drawnX := x, drawnY := y, point := .saving 0 }
    | _ => none

abbrev Step (fb : Fb) (s : Overlay) (e : Event) (t : Overlay) : Prop := next fb s e = some t

/-! ### What is saved -/

/-- The number of a place. -/
def Overlay.slot (s : Overlay) (p : Int × Int) : Option Nat :=
  if (0 ≤ p.1 - s.drawnX ∧ p.1 - s.drawnX < 12) ∧ 0 ≤ p.2 - s.drawnY ∧ p.2 - s.drawnY < 20 then
    some ((p.2 - s.drawnY).toNat * 12 + (p.1 - s.drawnX).toNat)
  else none

/-- cursor_bg has what is under the pointer at a place. -/
def Overlay.covers (s : Overlay) (i : Nat) : Bool :=
  match s.point with
  | .idle => s.drawn
  | .restoring k => k ≤ i
  | .aiming => false
  | .saving k => i < k
  | .marking _ => true

/-- The pixels under the pointer that are put back later. -/
def Overlay.held (s : Overlay) (p : Int × Int) : Option UInt32 :=
  (s.slot p).bind fun i => if s.covers i then some (s.bg i) else none

/-- A loop is in its bounds. -/
def Point.Inside : Point → Prop
  | .restoring i | .saving i | .marking i => i < places
  | _ => True

/-- The loops are in their bounds, and the pointer was on a screen. -/
structure Ready (s : Overlay) : Prop where
  inside : s.point.Inside
  wide : 0 ≤ s.drawnX ∧ s.drawnX < 2 ^ 16
  high : 0 ≤ s.drawnY ∧ s.drawnY < 2 ^ 16

theorem slot_place (s : Overlay) {i : Nat} (inside : i < places) : s.slot (s.place i) = some i := by
  unfold places at inside
  have col : s.drawnX + ((i % 12 : Nat) : Int) - s.drawnX = (i % 12 : Nat) := by omega
  have row : s.drawnY + ((i / 12 : Nat) : Int) - s.drawnY = (i / 12 : Nat) := by omega
  rw [Overlay.slot, Overlay.place]
  dsimp only
  rw [col, row, if_pos (by omega), Int.toNat_natCast, Int.toNat_natCast, Nat.div_add_mod']

theorem slot_some {s : Overlay} {p : Int × Int} {i : Nat} (found : s.slot p = some i) : i < places ∧ p = s.place i := by
  rw [Overlay.slot, Option.ite_none_right_eq_some] at found
  obtain ⟨⟨⟨left, right⟩, top, bottom⟩, index⟩ := found
  have index := Option.some.inj index
  have row : i / 12 = (p.2 - s.drawnY).toNat := by omega
  have col : i % 12 = (p.1 - s.drawnX).toNat := by omega
  refine ⟨by unfold places; omega, ?_⟩
  rw [Overlay.place, row, col]
  exact Prod.ext (by dsimp only; omega) (by dsimp only; omega)

theorem held_eq {s t : Overlay} (x : t.drawnX = s.drawnX) (y : t.drawnY = s.drawnY)
    (same : ∀ i < places, (if t.covers i then some (t.bg i) else none) = if s.covers i then some (s.bg i) else none) :
    t.held = s.held := by
  funext p
  have slot : t.slot p = s.slot p := by rw [Overlay.slot, Overlay.slot, x, y]
  rw [Overlay.held, Overlay.held, slot]
  cases found : s.slot p with
  | none => rfl
  | some i => exact same i (slot_some found).1

/-- One place is saved or put back. -/
theorem held_update {s t : Overlay} (x : t.drawnX = s.drawnX) (y : t.drawnY = s.drawnY) {i : Nat} (inside : i < places)
    {v : Option UInt32} (here : (if t.covers i then some (t.bg i) else none) = v)
    (others : ∀ j < places, j ≠ i → (if t.covers j then some (t.bg j) else none) = if s.covers j then some (s.bg j) else none) :
    t.held = Function.update s.held (s.place i) v := by
  funext p
  have slot : t.slot p = s.slot p := by rw [Overlay.slot, Overlay.slot, x, y]
  by_cases same : p = s.place i
  · rw [same, Function.update_self, Overlay.held, ← same, slot, same, slot_place s inside]
    exact here
  · rw [Function.update_of_ne same, Overlay.held, Overlay.held, slot]
    cases found : s.slot p with
    | none => rfl
    | some j =>
      obtain ⟨below, place⟩ := slot_some found
      exact others j below fun index => same (index ▸ place)

theorem held_place (s : Overlay) {i : Nat} (inside : i < places) :
    s.held (s.place i) = if s.covers i then some (s.bg i) else none := by
  rw [Overlay.held, slot_place s inside]
  rfl

theorem Ready.below {s : Overlay} (ready : Ready s) {here : Point} (point : s.point = here) : here.Inside := point ▸ ready.inside

theorem Ready.named {s : Overlay} (ready : Ready s) {i : Nat} (inside : i < places) :
    Fits (s.place i).1 ∧ Fits (s.place i).2 := by
  obtain ⟨-, wide, high⟩ := ready
  unfold places at inside
  unfold Fits Overlay.place
  dsimp only
  omega

/-! ### Steps -/

section
variable {fb : Fb} (sound : fb.Sound)

/-- The picture under the pointer. -/
def Overlay.under (s : Overlay) (p : Int × Int) : UInt32 := Sprite.under sound.canvas s.mem s.held p

/-- What holds between the steps. -/
structure Inv (s : Overlay) : Prop where
  ready : Ready s
  genuine : Genuine sound.canvas s.held

/-- Coordinates are ints, and mouse_handler keeps the pointer on the screen. -/
def Admits (fb : Fb) : Event → Prop
  | .draw x y _ => Fits x ∧ Fits y
  | .aim x y => fb.Inside x y
  | _ => True

end

theorem advance_inside (loop : Nat → Point) (behind : Point) (bounded : ∀ k < places, (loop k).Inside) (rest : behind.Inside)
    (i : Nat) : (advance loop i behind).Inside := by
  unfold advance
  by_cases more : i + 1 < places
  · rw [if_pos more]
    exact bounded _ more
  · rw [if_neg more]
    exact rest

theorem restoring_covers {s : Overlay} {i j : Nat} (point : s.point = advance .restoring i .aiming) (inside : j < places) :
    s.covers j = decide (i < j) := by
  rw [Overlay.covers, point, advance]
  split_ifs with more
  · rfl
  · exact (decide_eq_false (by omega)).symm

theorem saving_covers {s : Overlay} {i j : Nat} (point : s.point = advance .saving i (.marking 0)) (inside : j < places) :
    s.covers j = decide (j ≤ i) := by
  rw [Overlay.covers, point, advance]
  split_ifs with more
  · exact decide_eq_decide.mpr Nat.lt_succ_iff
  · exact (decide_eq_true (by omega)).symm

section
variable {fb : Fb} {sound : fb.Sound} {s t : Overlay}

/-- A step of mouse_tick itself keeps the picture under the pointer. -/
def Keeps (sound : fb.Sound) (s t : Overlay) : Prop :=
  Inv sound t ∧ ∀ q, Fits q.1 ∧ Fits q.2 → fb.Inside q.1 q.2 → t.under sound q = s.under sound q

theorem Inv.restoring (inv : Inv sound s) {i : Nat} (point : s.point = .restoring i) (taken : access fb s = some t) :
    Keeps sound s t := by
  have inside : i < places := inv.ready.below point
  have named := inv.ready.named inside
  have saved : s.held (s.place i) = some (s.bg i) := by
    rw [held_place s inside, if_pos (by simp [Overlay.covers, point])]
  rw [access, point] at taken
  obtain rfl := Option.some.inj taken
  have held := held_update (s := s) (t := { s with
      mem := fbPutPixel fb (s.place i).1 (s.place i).2 (s.bg i) s.mem
      point := advance .restoring i .aiming }) rfl rfl inside (v := none)
    (by rw [restoring_covers rfl inside]; simp)
    (fun j below other => by
      have same : decide (i < j) = decide (i ≤ j) := decide_eq_decide.mpr (by omega)
      rw [restoring_covers rfl below, Overlay.covers, point, same])
  refine ⟨⟨⟨advance_inside .restoring .aiming (fun _ => id) trivial i, inv.ready.wide, inv.ready.high⟩, ?_⟩,
    fun q here screen => ?_⟩
  · rw [held]
    exact inv.genuine.restore
  · rw [Overlay.under, held]
    exact under_restore inv.genuine saved named here screen

theorem Inv.saving (inv : Inv sound s) {i : Nat} (point : s.point = .saving i) (taken : access fb s = some t) :
    Keeps sound s t := by
  have inside : i < places := inv.ready.below point
  have named := inv.ready.named inside
  have free : s.held (s.place i) = none := by
    rw [held_place s inside, if_neg (by simp [Overlay.covers, point])]
  rw [access, point] at taken
  obtain rfl := Option.some.inj taken
  have held := held_update (s := s) (t := { s with
      bg := Function.update s.bg i (fbGetPixel fb (s.place i).1 (s.place i).2 s.mem)
      point := advance .saving i (.marking 0) }) rfl rfl inside
    (v := some (fbGetPixel fb (s.place i).1 (s.place i).2 s.mem))
    (by rw [saving_covers rfl inside]; simp)
    (fun j below other => by
      have same : decide (j ≤ i) = decide (j < i) := decide_eq_decide.mpr (by omega)
      rw [saving_covers rfl below, Overlay.covers, point, same]
      dsimp only
      rw [Function.update_of_ne other])
  refine ⟨⟨⟨advance_inside .saving (.marking 0) (fun _ => id) (show 0 < places by decide) i, inv.ready.wide, inv.ready.high⟩, ?_⟩,
    fun q here screen => ?_⟩
  · rw [held]
    exact inv.genuine.save (k := sound.canvas) named
  · rw [Overlay.under, held]
    exact under_save (k := sound.canvas) free

theorem Inv.marking (inv : Inv sound s) {i : Nat} (point : s.point = .marking i) (taken : access fb s = some t) :
    Keeps sound s t := by
  have inside : i < places := inv.ready.below point
  have named := inv.ready.named inside
  have covered : s.held (s.place i) ≠ none := by
    rw [held_place s inside, if_pos (by simp [Overlay.covers, point])]
    exact Option.some_ne_none _
  rw [access, point] at taken
  obtain rfl := Option.some.inj taken
  have held : Overlay.held { s with
      mem := if marked i then fbPutPixel fb (s.place i).1 (s.place i).2 (rgb 255 255 255) s.mem else s.mem
      drawn := s.drawn || !(i + 1 < places)
      point := advance .marking i .idle } = s.held := held_eq rfl rfl fun j below => by
    have before : s.covers j = true := by rw [Overlay.covers, point]
    rw [before, Overlay.covers, advance]
    by_cases more : i + 1 < places
    · dsimp only
      rw [if_pos more]
    · dsimp only
      rw [if_neg more]
      simp [more]
  refine ⟨⟨⟨advance_inside .marking .idle (fun _ => id) trivial i, inv.ready.wide, inv.ready.high⟩, ?_⟩,
    fun q here screen => ?_⟩
  · rw [held]
    exact inv.genuine
  · rw [Overlay.under, held]
    dsimp only
    split
    · exact under_put_held (k := sound.canvas) covered named here
    · rfl

theorem Inv.tick (inv : Inv sound s) (taken : next fb s .tick = some t) : Keeps sound s t := by
  cases point : s.point with
  | idle =>
    rw [next, point] at taken
    obtain rfl := Option.some.inj taken
    have held : Overlay.held { s with point := if s.drawn then .restoring 0 else .aiming } = s.held :=
      held_eq rfl rfl fun j below => by
        rw [Overlay.covers, Overlay.covers, point]
        cases s.drawn <;> rfl
    have inside : (if s.drawn then Point.restoring 0 else .aiming).Inside := by
      cases s.drawn
      · exact trivial
      · exact (show 0 < places by decide)
    refine ⟨⟨⟨inside, inv.ready.wide, inv.ready.high⟩, ?_⟩, fun q _ _ => ?_⟩
    · rw [held]
      exact inv.genuine
    · rw [Overlay.under, held]
      rfl
  | restoring _ | aiming | saving _ | marking _ => simp [next, point] at taken

/-- Between the loops nothing is saved, so the pointer may go anywhere. -/
theorem Inv.aim (inv : Inv sound s) {x y : Int} (screen : fb.Inside x y) (taken : next fb s (.aim x y) = some t) :
    Keeps sound s t := by
  cases point : s.point with
  | aiming =>
    rw [next, point] at taken
    obtain rfl := Option.some.inj taken
    have held : Overlay.held { s with drawnX := x, drawnY := y, point := .saving 0 } = s.held := by
      funext p
      simp [Overlay.held, Overlay.covers, point]
    have narrow := sound.wide
    have low := sound.high
    obtain ⟨⟨x0, wide⟩, y0, high⟩ := screen
    refine ⟨⟨⟨show 0 < places by decide, ⟨x0, by dsimp only; omega⟩, y0, by dsimp only; omega⟩, ?_⟩, fun q _ _ => ?_⟩
    · rw [held]
      exact inv.genuine
    · rw [Overlay.under, held]
      rfl
  | idle | restoring _ | saving _ | marking _ => simp [next, point] at taken

theorem Inv.access (inv : Inv sound s) (taken : next fb s .access = some t) : Keeps sound s t := by
  cases point : s.point with
  | restoring i => exact inv.restoring point taken
  | saving i => exact inv.saving point taken
  | marking i => exact inv.marking point taken
  | idle | aiming => simp [next, Cursor.access, point] at taken

/-! ### Runs -/

/-- A pixel that is drawn by others where nothing is saved. -/
def survivor (s : Overlay) : Event → Option ((Int × Int) × UInt32)
  | .draw x y color => if s.held (x, y) = none then some ((x, y), color) else none
  | _ => none

def survivors (moves : List (Move Overlay Event)) : Dots := moves.flatMap fun m => (survivor m.before m.event).toList

theorem survivors_cons (m : Move Overlay Event) (moves : List (Move Overlay Event)) :
    survivors (m :: moves) = (survivor m.before m.event).toList ++ survivors moves := List.flatMap_cons

theorem Inv.draw (inv : Inv sound s) {x y : Int} {color : UInt32} (fits : Fits x ∧ Fits y)
    (taken : next fb s (.draw x y color) = some t) : Inv sound t ∧ ∀ q, Fits q.1 ∧ Fits q.2 → fb.Inside q.1 q.2 →
      t.under sound q = ((Canvas.image (survivor s (.draw x y color)).toList q).map fb.kept).getD (s.under sound q) := by
  obtain rfl := Option.some.inj taken
  refine ⟨⟨⟨inv.ready.inside, inv.ready.wide, inv.ready.high⟩, inv.genuine⟩, fun q here screen => ?_⟩
  rw [survivor]
  by_cases free : s.held (x, y) = none
  · rw [if_pos free, Option.toList_some, Canvas.image_cons, Canvas.image_nil, Option.none_or]
    by_cases same : (x, y) = q
    · subst same
      rw [if_pos rfl]
      exact under_put_self (k := sound.canvas) (p := (x, y)) free fits screen
    · rw [if_neg same]
      exact under_put_other (k := sound.canvas) (p := (x, y)) fits here (Ne.symm same)
  · rw [if_neg free]
    exact under_put_held (k := sound.canvas) (p := (x, y)) free fits here

theorem Inv.step (inv : Inv sound s) {e : Event} (admitted : Admits fb e) (taken : Step fb s e t) :
    Inv sound t ∧ ∀ q, Fits q.1 ∧ Fits q.2 → fb.Inside q.1 q.2 →
      t.under sound q = ((Canvas.image (survivor s e).toList q).map fb.kept).getD (s.under sound q) := by
  cases e with
  | draw x y color => exact inv.draw admitted taken
  | tick => exact inv.tick taken
  | access => exact inv.access taken
  | aim x y => exact inv.aim admitted taken

theorem Inv.run (inv : Inv sound s) {moves : List (Move Overlay Event)} (run : Run (Step fb) s moves t)
    (admitted : ∀ m ∈ moves, Admits fb m.event) {q : Int × Int} (here : Fits q.1 ∧ Fits q.2) (screen : fb.Inside q.1 q.2) :
    t.under sound q = ((Canvas.image (survivors moves) q).map fb.kept).getD (s.under sound q) := by
  induction run with
  | nil => rfl
  | @cons s t u e moves taken _ ih =>
    rw [List.forall_mem_cons] at admitted
    obtain ⟨after, under⟩ := inv.step admitted.1 taken
    rw [ih after admitted.2, under q here screen, survivors_cons, Canvas.image_append]
    cases Canvas.image (survivors moves) q <;> rfl

end

/-- As the kernel is loaded. -/
def Overlay.boot (mem : Mem) : Overlay := ⟨mem, fun _ => 0, false, 0, 0, .idle⟩

theorem boot_held (mem : Mem) (p : Int × Int) : (Overlay.boot mem).held p = none := by
  simp [Overlay.held, Overlay.covers, Overlay.boot]

theorem boot_inv {fb : Fb} (sound : fb.Sound) (mem : Mem) : Inv sound (.boot mem) := by
  have zero : (0 : Int) ≤ 0 ∧ (0 : Int) < 2 ^ 16 := by decide
  refine ⟨⟨trivial, zero, zero⟩, fun p c _ saved => ?_⟩
  rw [boot_held] at saved
  cases saved

/-- The screen of mode 0x118. -/
def screen : Fb := (vesaInit (bootHandoff trueColor) .boot).1

theorem screen_sound : screen.Sound := vesaInit_sound trueColor_consistent (by decide)

/-- The bitmap is over a place that is saved. -/
def Overlay.tops (s : Overlay) (i : Nat) : Bool :=
  match s.point with
  | .idle => marked i
  | .marking k => i < k && marked i
  | _ => false

def Point.puttingBack : Point → Bool
  | .restoring _ => true
  | _ => false

/-- While nothing is put back, a place under the pointer has the pointer's white or what was saved. -/
def Shows (fb : Fb) (s : Overlay) : Prop :=
  s.point.puttingBack = false → ∀ i < places, s.covers i = true → fb.Inside (s.place i).1 (s.place i).2 →
    fbGetPixel fb (s.place i).1 (s.place i).2 s.mem = if s.tops i then fb.kept (rgb 255 255 255) else s.bg i

theorem place_inj {s : Overlay} {i j : Nat} (below : i < places) (below' : j < places) (same : s.place i = s.place j) :
    i = j := by
  have found := slot_place s below
  rw [same, slot_place s below'] at found
  exact (Option.some.inj found).symm

section
variable {fb : Fb} {sound : fb.Sound} {s t : Overlay}

theorem Shows.draw (shows : Shows fb s) (inv : Inv sound s) {x y : Int} {color : UInt32} (fits : Fits x ∧ Fits y)
    (free : s.held (x, y) = none) (taken : next fb s (.draw x y color) = some t) : Shows fb t := by
  obtain rfl := Option.some.inj taken
  intro steady i below covered screen
  have before := shows steady i below covered screen
  have apart : s.place i ≠ (x, y) := fun same => by
    rw [← same, held_place s below, if_pos (show s.covers i = true from covered)] at free
    cases free
  refine Eq.trans ?_ before
  exact sound.get_put_other fits (inv.ready.named below) (fun same => absurd same apart) _ _

theorem Shows.restoring {i : Nat} (point : s.point = .restoring i) (taken : access fb s = some t) : Shows fb t := by
  rw [access, point] at taken
  obtain rfl := Option.some.inj taken
  intro steady j below covered
  rw [restoring_covers rfl below] at covered
  have more : ¬i + 1 < places := fun more => by
    simp [advance, more, Point.puttingBack] at steady
  have := of_decide_eq_true covered
  omega

theorem saving_tops {s : Overlay} {i : Nat} (point : s.point = advance .saving i (.marking 0)) (j : Nat) :
    s.tops j = false := by
  rw [Overlay.tops, point, advance]
  by_cases more : i + 1 < places
  · rw [if_pos more]
  · rw [if_neg more]
    rfl

theorem Shows.saving (shows : Shows fb s) {i : Nat} (point : s.point = .saving i) (taken : access fb s = some t) :
    Shows fb t := by
  have steady : s.point.puttingBack = false := by
    rw [point]
    rfl
  rw [access, point] at taken
  obtain rfl := Option.some.inj taken
  intro _ j below covered screen
  rw [saving_covers rfl below] at covered
  rw [saving_tops rfl]
  dsimp only
  by_cases same : j = i
  · rw [same, Function.update_self]
    rfl
  · have earlier : s.covers j = true := by
      rw [Overlay.covers, point]
      exact decide_eq_true (Nat.lt_of_le_of_ne (of_decide_eq_true covered) same)
    have before := shows steady j below earlier screen
    rw [Overlay.tops, point] at before
    rw [Function.update_of_ne same]
    exact before

theorem marking_tops {s : Overlay} {i j : Nat} (point : s.point = advance .marking i .idle) (below : j < places) :
    s.tops j = (decide (j ≤ i) && marked j) := by
  rw [Overlay.tops, point, advance]
  by_cases more : i + 1 < places
  · rw [if_pos more]
    exact congrArg (· && marked j) (decide_eq_decide.mpr Nat.lt_succ_iff)
  · rw [if_neg more, decide_eq_true (show j ≤ i by omega)]
    rfl

theorem Shows.marking (shows : Shows fb s) (inv : Inv sound s) {i : Nat} (point : s.point = .marking i)
    (taken : access fb s = some t) : Shows fb t := by
  have inside : i < places := inv.ready.below point
  have steady : s.point.puttingBack = false := by
    rw [point]
    rfl
  have named := inv.ready.named inside
  have tops (j : Nat) : s.tops j = (decide (j < i) && marked j) := by rw [Overlay.tops, point]
  rw [access, point] at taken
  obtain rfl := Option.some.inj taken
  intro _ j below _ screen
  have before := shows steady j below (by rw [Overlay.covers, point]) screen
  rw [tops] at before
  rw [marking_tops rfl below]
  by_cases same : j = i
  · subst same
    rw [decide_eq_false (Nat.lt_irrefl j)] at before
    rw [decide_eq_true (Nat.le_refl j)]
    by_cases mark : marked j = true
    · rw [mark, if_pos rfl]
      exact sound.get_put_self named screen _ _
    · rw [Bool.eq_false_iff.mpr mark]
      exact before
  · have order : decide (j ≤ i) = decide (j < i) := decide_eq_decide.mpr (by omega)
    rw [order]
    refine Eq.trans ?_ before
    dsimp only
    split
    · exact sound.get_put_other named (inv.ready.named below) (fun equal => absurd (place_inj below inside equal) same) _ _
    · rfl

/-- Nobody draws under the pointer. -/
def Apart (s : Overlay) : Event → Prop
  | .draw x y _ => s.held (x, y) = none
  | _ => True

theorem Shows.step (shows : Shows fb s) (inv : Inv sound s) {e : Event} (admitted : Admits fb e) (apart : Apart s e)
    (taken : Step fb s e t) : Shows fb t := by
  cases e with
  | draw x y color => exact shows.draw inv admitted apart taken
  | tick =>
    cases point : s.point with
    | idle =>
      rw [Step, next, point] at taken
      obtain rfl := Option.some.inj taken
      intro steady i _ covered
      cases drawn : s.drawn with
      | true => simp [drawn, Point.puttingBack] at steady
      | false => simp [drawn, Overlay.covers] at covered
    | restoring _ | aiming | saving _ | marking _ => simp [Step, next, point] at taken
  | access =>
    cases point : s.point with
    | restoring i => exact .restoring point taken
    | saving i => exact shows.saving point taken
    | marking i => exact shows.marking inv point taken
    | idle | aiming => simp [Step, next, Cursor.access, point] at taken
  | aim x y =>
    cases point : s.point with
    | aiming =>
      rw [Step, next, point] at taken
      obtain rfl := Option.some.inj taken
      intro _ i _ covered
      simp [Overlay.covers] at covered
    | idle | restoring _ | saving _ | marking _ => simp [Step, next, point] at taken

theorem Shows.run (shows : Shows fb s) (inv : Inv sound s) {moves : List (Move Overlay Event)} (run : Run (Step fb) s moves t)
    (admitted : ∀ m ∈ moves, Admits fb m.event) (apart : ∀ m ∈ moves, Apart m.before m.event) : Shows fb t ∧ Inv sound t :=
  (run.keeps (fun s => Shows fb s ∧ Inv sound s) (fun s e => Admits fb e ∧ Apart s e)
    (fun holds allowed taken => ⟨holds.1.step holds.2 allowed.1 allowed.2 taken, (holds.2.step allowed.1 taken).1⟩)
    ⟨shows, inv⟩ fun m member => ⟨admitted m member, apart m member⟩).1

end

/-- Every pixel that others draw. -/
def draws (moves : List (Move Overlay Event)) : Dots := moves.flatMap fun m =>
  match m.event with
  | .draw x y color => [((x, y), color)]
  | _ => []

theorem survivors_apart {moves : List (Move Overlay Event)} (apart : ∀ m ∈ moves, Apart m.before m.event) :
    survivors moves = draws moves := by
  induction moves with
  | nil => rfl
  | cons m moves ih =>
    rw [List.forall_mem_cons] at apart
    rw [survivors_cons, ih apart.2, draws, draws, List.flatMap_cons]
    congr 1
    obtain ⟨before, event, after⟩ := m
    cases event with
    | draw x y color =>
      have free : before.held (x, y) = none := apart.1
      exact congrArg Option.toList (if_pos free)
    | tick | access | aim _ _ => rfl

/-- mouse_tick once, from its call to its return. -/
def oneTick : List Event := [.tick, .aim 100 100] ++ List.replicate (2 * places) .access

theorem oneTick_returns : ∃ moves t, Run (Step screen) (.boot fun _ => 0xAA) moves t ∧
    (t.point matches .idle) = true ∧ t.drawn = true ∧ t.drawnX = 100 ∧ t.drawnY = 100 ∧
    moves.all (fun m => match m.event with
      | .draw _ _ _ => false
      | .aim x y => screen.Inside x y
      | _ => true) = true := by
  have checked : (trace (next screen) (.boot fun _ => 0xAA) oneTick).any (fun r =>
      (r.2.point matches .idle) && (r.2.drawn && (r.2.drawnX = 100 && (r.2.drawnY = 100 && r.1.all fun m => match m.event with
        | .draw _ _ _ => false
        | .aim x y => screen.Inside x y
        | _ => true)))) = true := by decide +kernel
  obtain ⟨moves, t, run, holds⟩ := Run.of_trace_any checked
  simp only [Bool.and_eq_true, decide_eq_true_eq] at holds
  exact ⟨moves, t, run, holds⟩

end ChrisOS.Drivers.Cursor
