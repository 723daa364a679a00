import ChrisOS.Lib.Bresenham
import ChrisOS.Lib.Loop
import ChrisOS.Lib.Signed
import ChrisOS.Lib.Traced
import Mathlib.Algebra.Order.Field.Rat
import Mathlib.Algebra.Order.Ring.Abs
import Mathlib.Tactic.FieldSimp
import Mathlib.Tactic.Linarith
import Mathlib.Tactic.Ring

/-! Lines on the frame buffer (ui/draw.c).

Every value that the loop computes is on record, so that the ints need no wrapping.
-/

set_option autoImplicit false

namespace ChrisOS.Ui.Draw
open ChrisOS.Lib Traced
open ChrisOS.Lib.Bresenham (walk next Advances)
open ChrisOS.Lib.Signed (Fits toInt_fits)

/-- A call of fb_put_pixel. -/
structure Pixel where
  x : Int
  y : Int
  color : UInt32
deriving DecidableEq

/-- An int that is computed. -/
def int (z : Int) : Traced Int Int := do
  emit z
  pure z

/-- The values that draw_line computes before its loop. -/
structure Line where
  x1 : Int
  y1 : Int
  dx : Int
  dy : Int
  sx : Int
  sy : Int
  color : UInt32

/-- The values that its loop changes. -/
structure Pen where
  x0 : Int
  y0 : Int
  err : Int

/-- `err += dy; x0 += sx;` -/
def stepX (l : Line) (p : Pen) : Traced Int Pen := do
  let err ← int (p.err + l.dy)
  let x0 ← int (p.x0 + l.sx)
  pure { p with err, x0 }

/-- `err += dx; y0 += sy;` -/
def stepY (l : Line) (p : Pen) : Traced Int Pen := do
  let err ← int (p.err + l.dx)
  let y0 ← int (p.y0 + l.sy)
  pure { p with err, y0 }

/-- A round of the loop after its exit. -/
def lineStep (l : Line) (p : Pen) : Traced Int Pen := do
  let e2 ← int (2 * p.err)
  let p ← (if e2 ≥ l.dy then stepX l p else pure p : Traced Int Pen)
  if e2 ≤ l.dx then stepY l p else pure p

/-- The pixels in the order in which they are put. -/
def lineLoop (l : Line) : Nat → Pen → Option (Traced Int (List Pixel))
  | 0, _ => none
  | budget + 1, p =>
    let here : Pixel := ⟨p.x0, p.y0, l.color⟩
    if p.x0 = l.x1 ∧ p.y0 = l.y1 then some (pure [here])
    else (lineLoop l budget (lineStep l p).value).map fun rest => do
      let _ ← lineStep l p
      let points ← rest
      pure (here :: points)

def lineSetup (x0 y0 x1 y1 : Int) (color : UInt32) : Traced Int (Line × Pen) := do
  let dx ← int (if x1 > x0 then x1 - x0 else x0 - x1)
  let height ← int (if y1 > y0 then y1 - y0 else y0 - y1)
  let dy ← int (-height)
  let sx := if x0 < x1 then 1 else -1
  let sy := if y0 < y1 then 1 else -1
  let err ← int (dx + dy)
  pure (⟨x1, y1, dx, dy, sx, sy, color⟩, ⟨x0, y0, err⟩)

def drawLine (x0 y0 x1 y1 : Int32) (color : UInt32) (budget : Nat) : Option (Traced Int (List Pixel)) :=
  let setup := lineSetup x0.toInt y0.toInt x1.toInt y1.toInt color
  (lineLoop setup.value.1 budget setup.value.2).map fun rest => do
    let _ ← setup
    rest

/-- One coordinate stays or comes one closer to its end. -/
def Toward (goal before after : Int) : Prop :=
  after = before ∨ (before < goal ∧ after = before + 1) ∨ (goal < before ∧ after = before - 1)

/-- The point is no more than half a pixel from the segment, across its longer extent. -/
structure HalfPixel (x0 y0 x1 y1 : Int) (p : Pixel) : Prop where
  flat : (y1 - y0).natAbs ≤ (x1 - x0).natAbs →
    |(p.y : ℚ) - (y0 + (p.x - x0) * ((y1 - y0) / (x1 - x0)))| ≤ 1 / 2
  steep : (x1 - x0).natAbs ≤ (y1 - y0).natAbs →
    |(p.x : ℚ) - (x0 + (p.y - y0) * ((x1 - x0) / (y1 - y0)))| ≤ 1 / 2
  inside : (min x0 x1 ≤ p.x ∧ p.x ≤ max x0 x1) ∧ (min y0 y1 ≤ p.y ∧ p.y ≤ max y0 y1)

/-- The points make a line from one end to the other. -/
structure Draws (x0 y0 x1 y1 : Int) (color : UInt32) (points : List Pixel) : Prop where
  count : points.length = max (x1 - x0).natAbs (y1 - y0).natAbs + 1
  first : points.head? = some ⟨x0, y0, color⟩
  last : points.getLast? = some ⟨x1, y1, color⟩
  steps : ∀ {k p q}, points[k]? = some p → points[k + 1]? = some q → Toward x1 p.x q.x ∧ Toward y1 p.y q.y
  near : ∀ p ∈ points, HalfPixel x0 y0 x1 y1 p

/-! ### The box around a line -/

theorem value_int (z : Int) : (int z).value = z := rfl

theorem all_int_iff {P : Int → Prop} {z : Int} : All P (int z) ↔ P z := List.forall_mem_singleton

/-- A direction along an axis and an extent. -/
structure Side where
  start : Int
  sign : Int
  extent : Nat
  unit : sign = 1 ∨ sign = -1

def Side.at (s : Side) (i : Nat) : Int := s.start + s.sign * i

def Side.between (start stop : Int) : Side :=
  ⟨start, if start < stop then 1 else -1, (stop - start).natAbs, by split <;> simp⟩

namespace Side
variable {s : Side}

theorem at_zero : s.at 0 = s.start := by simp [Side.at]

theorem at_succ (i : Nat) : s.at (i + 1) = s.at i + s.sign := by
  rw [Side.at, Side.at, Int.natCast_succ, Int.mul_add, Int.mul_one, Int.add_assoc]

theorem at_inj {i j : Nat} : s.at i = s.at j ↔ i = j := by
  rw [Side.at, Side.at]
  rcases s.unit with plus | minus
  · rw [plus]
    omega
  · rw [minus]
    omega

theorem between_at (start stop : Int) : (between start stop).at (between start stop).extent = stop := by
  rw [Side.at]
  dsimp only [between]
  split <;> omega

theorem natAbs_extent (s : Side) : (s.at s.extent - s.start).natAbs = s.extent := by
  rw [Side.at]
  rcases s.unit with plus | minus
  · rw [plus]
    omega
  · rw [minus]
    omega

/-- The places on the way are between the ends. -/
theorem at_inside {i : Nat} (inside : i ≤ s.extent) :
    min s.start (s.at s.extent) ≤ s.at i ∧ s.at i ≤ max s.start (s.at s.extent) := by
  rw [Side.at, Side.at]
  rcases s.unit with plus | minus
  · rw [plus]
    omega
  · rw [minus]
    omega

theorem at_fits {i : Nat} (inside : i ≤ s.extent) (start : Fits s.start) (stop : Fits (s.at s.extent)) :
    Fits (s.at i) := by
  have between := at_inside inside
  unfold Fits at *
  omega

theorem toward {i j : Nat} (inside : j ≤ s.extent) (step : j = i ∨ j = i + 1) :
    Toward (s.at s.extent) (s.at i) (s.at j) := by
  rcases step with rfl | rfl
  · exact .inl rfl
  · rw [Toward, at_succ, Side.at, Side.at]
    rcases s.unit with plus | minus
    · rw [plus]
      omega
    · rw [minus]
      omega

end Side

/-! ### One round -/

section
variable (h v : Side) (color : UInt32)

def lineOf : Line := ⟨h.at h.extent, v.at v.extent, h.extent, -v.extent, h.sign, v.sign, color⟩

/-- The pen after i steps across and j steps up or down. -/
def penAt (p : Nat × Nat) : Pen :=
  ⟨h.at p.1, v.at p.2, ((p.2 + 1) * h.extent : Nat) - ((p.1 + 1) * v.extent : Nat)⟩

def pixelAt (p : Nat × Nat) : Pixel := ⟨h.at p.1, v.at p.2, color⟩

variable {h v color}

/-- The error term decides as the path does. -/
theorem across_iff {p : Nat × Nat} : 2 * (penAt h v p).err ≥ (lineOf h v color).dy ↔ Advances h.extent v.extent p.1 p.2 := by
  have along : (p.1 + 1) * v.extent = p.1 * v.extent + v.extent := Nat.succ_mul _ _
  have aside : (p.2 + 1) * h.extent = p.2 * h.extent + h.extent := Nat.succ_mul _ _
  rw [Bresenham.advances_iff]
  dsimp only [penAt, lineOf]
  omega

theorem down_iff {p : Nat × Nat} : 2 * (penAt h v p).err ≤ (lineOf h v color).dx ↔ Advances v.extent h.extent p.2 p.1 := by
  have along : (p.1 + 1) * v.extent = p.1 * v.extent + v.extent := Nat.succ_mul _ _
  have aside : (p.2 + 1) * h.extent = p.2 * h.extent + h.extent := Nat.succ_mul _ _
  rw [Bresenham.advances_iff]
  dsimp only [penAt, lineOf]
  omega

theorem err_across (p : Nat × Nat) : (penAt h v (p.1 + 1, p.2)).err = (penAt h v p).err + -v.extent := by
  have along : (p.1 + 1 + 1) * v.extent = (p.1 + 1) * v.extent + v.extent := Nat.succ_mul _ _
  dsimp only [penAt]
  omega

theorem err_down (p : Nat × Nat) : (penAt h v (p.1, p.2 + 1)).err = (penAt h v p).err + h.extent := by
  have aside : (p.2 + 1 + 1) * h.extent = (p.2 + 1) * h.extent + h.extent := Nat.succ_mul _ _
  dsimp only [penAt]
  omega

theorem value_stepX (p : Nat × Nat) : (stepX (lineOf h v color) (penAt h v p)).value = penAt h v (p.1 + 1, p.2) := by
  have error : (penAt h v p).err + (lineOf h v color).dy = (penAt h v (p.1 + 1, p.2)).err := (err_across p).symm
  rw [stepX, value_bind, value_bind, value_int, value_int, value_pure, error, penAt, penAt, Side.at_succ]
  rfl

theorem value_stepY (p : Nat × Nat) : (stepY (lineOf h v color) (penAt h v p)).value = penAt h v (p.1, p.2 + 1) := by
  have error : (penAt h v p).err + (lineOf h v color).dx = (penAt h v (p.1, p.2 + 1)).err := (err_down p).symm
  rw [stepY, value_bind, value_bind, value_int, value_int, value_pure, error, penAt, penAt, Side.at_succ]
  rfl

/-- The first half of a round. -/
theorem value_half (p : Nat × Nat) :
    Traced.value (if 2 * (penAt h v p).err ≥ (lineOf h v color).dy then stepX (lineOf h v color) (penAt h v p)
      else pure (penAt h v p)) = penAt h v ((next h.extent v.extent p).1, p.2) := by
  rw [next]
  by_cases across : Advances h.extent v.extent p.1 p.2
  · rw [if_pos (across_iff.mpr across), if_pos across, value_stepX]
  · rw [if_neg (mt across_iff.mp across), if_neg across, value_pure]

/-- A round takes the pen one step along the path. -/
theorem value_lineStep (p : Nat × Nat) :
    (lineStep (lineOf h v color) (penAt h v p)).value = penAt h v (next h.extent v.extent p) := by
  rw [lineStep, value_bind, value_int, value_bind, value_half]
  by_cases down : Advances v.extent h.extent p.2 p.1
  · rw [if_pos (down_iff.mpr down), value_stepY, next, if_pos down]
  · rw [if_neg (mt down_iff.mp down), value_pure, next, if_neg down]

/-! ### The loop -/

theorem stepX_fits {l : Line} {p : Pen} (err : Fits (p.err + l.dy)) (x : Fits (p.x0 + l.sx)) : All Fits (stepX l p) := by
  rw [stepX, all_bind_iff, all_int_iff, all_bind_iff, all_int_iff]
  exact ⟨err, x, all_pure _⟩

theorem stepY_fits {l : Line} {p : Pen} (err : Fits (p.err + l.dx)) (y : Fits (p.y0 + l.sy)) : All Fits (stepY l p) := by
  rw [stepY, all_bind_iff, all_int_iff, all_bind_iff, all_int_iff]
  exact ⟨err, y, all_pure _⟩

variable (small : h.extent < 536870912 ∧ v.extent < 536870912)
include small

/-- The error term stays below one and a half extents. -/
theorem err_bound (k : Nat) : -1610612736 ≤ 2 * (penAt h v (walk h.extent v.extent k)).err ∧
    2 * (penAt h v (walk h.extent v.extent k)).err ≤ 1610612736 := by
  obtain ⟨above, below⟩ := Bresenham.walk_error h.extent v.extent k
  generalize walk h.extent v.extent k = p at above below
  have along : (p.1 + 1) * v.extent = p.1 * v.extent + v.extent := Nat.succ_mul _ _
  have aside : (p.2 + 1) * h.extent = p.2 * h.extent + h.extent := Nat.succ_mul _ _
  dsimp only [penAt]
  omega

variable (acrossEnds : Fits h.start ∧ Fits (h.at h.extent)) (downEnds : Fits v.start ∧ Fits (v.at v.extent))
include acrossEnds downEnds

/-- No round computes a number that is no int. -/
theorem lineStep_fits {k : Nat} (before : k < max h.extent v.extent) :
    All Fits (lineStep (lineOf h v color) (penAt h v (walk h.extent v.extent k))) := by
  have inside : (next h.extent v.extent (walk h.extent v.extent k)).1 ≤ h.extent ∧
      (next h.extent v.extent (walk h.extent v.extent k)).2 ≤ v.extent := Bresenham.walk_inside before
  have error := err_bound small k
  generalize walk h.extent v.extent k = p at inside error
  rw [lineStep, all_bind_iff, all_int_iff, value_int, all_bind_iff, value_half]
  refine ⟨by unfold Fits; omega, ?_, ?_⟩
  · split
    · rename_i across
      refine stepX_fits (by unfold Fits; dsimp only [lineOf]; omega) ?_
      show Fits (h.at p.1 + h.sign)
      rw [← Side.at_succ]
      have advanced : (next h.extent v.extent p).1 = p.1 + 1 := if_pos (across_iff.mp across)
      exact Side.at_fits (by omega) acrossEnds.1 acrossEnds.2
    · exact all_pure _
  · split
    · rename_i down
      have advanced : (next h.extent v.extent p).2 = p.2 + 1 := if_pos (down_iff.mp down)
      have error' : Fits ((penAt h v ((next h.extent v.extent p).1, p.2)).err + h.extent) := by
        unfold Fits
        rcases Bresenham.next_fst h.extent v.extent p with stays | steps
        · rw [stays, Prod.mk.eta]
          omega
        · rw [steps, err_across]
          omega
      refine stepY_fits error' ?_
      show Fits (v.at p.2 + v.sign)
      rw [← Side.at_succ]
      exact Side.at_fits (by omega) downEnds.1 downEnds.2
    · exact all_pure _

variable (color)

/-- The loop puts the rest of the path. -/
theorem lineLoop_puts {k left : Nat} (whole : k + left = max h.extent v.extent) :
    ∃ out, (∀ budget, left < budget → lineLoop (lineOf h v color) budget (penAt h v (walk h.extent v.extent k)) = some out) ∧
      All Fits out ∧ out.value = (List.range' k (left + 1)).map fun i => pixelAt h v color (walk h.extent v.extent i) := by
  induction left generalizing k with
  | zero =>
    have corner : walk h.extent v.extent k = (h.extent, v.extent) := by
      rw [← Bresenham.walk_max, ← whole, Nat.add_zero]
    have arrived : (penAt h v (h.extent, v.extent)).x0 = (lineOf h v color).x1 ∧
        (penAt h v (h.extent, v.extent)).y0 = (lineOf h v color).y1 := ⟨rfl, rfl⟩
    refine ⟨pure [pixelAt h v color (walk h.extent v.extent k)], fun budget enough => ?_, all_pure _, rfl⟩
    cases budget with
    | zero => exact absurd enough (Nat.lt_irrefl 0)
    | succ budget =>
      rw [corner, lineLoop, if_pos arrived]
      rfl
  | succ left ih =>
    obtain ⟨rest, reached, fits, points⟩ := ih (k := k + 1) (by omega)
    have before : k < max h.extent v.extent := by omega
    have away : ¬ ((penAt h v (walk h.extent v.extent k)).x0 = (lineOf h v color).x1 ∧
        (penAt h v (walk h.extent v.extent k)).y0 = (lineOf h v color).y1) := by
      rintro ⟨x, y⟩
      exact Bresenham.walk_ne_corner before (Prod.ext (Side.at_inj.mp x) (Side.at_inj.mp y))
    refine ⟨do
      let _ ← lineStep (lineOf h v color) (penAt h v (walk h.extent v.extent k))
      let points ← rest
      pure (pixelAt h v color (walk h.extent v.extent k) :: points), fun budget enough => ?_, ?_, ?_⟩
    · cases budget with
      | zero => exact absurd enough (Nat.not_lt_zero _)
      | succ budget =>
        rw [Bresenham.walk] at reached
        rw [lineLoop, if_neg away, value_lineStep, reached budget (Nat.lt_of_succ_lt_succ enough)]
        rfl
    · rw [all_bind_iff, all_bind_iff]
      exact ⟨lineStep_fits small acrossEnds downEnds before, fits, all_pure _⟩
    · rw [value_bind, value_bind, value_pure, points]
      rfl

end

/-! ### The line as a whole -/

/-- What the function computes before its loop puts the pen at the start of the path. -/
theorem value_lineSetup (x0 y0 x1 y1 : Int) (color : UInt32) : (lineSetup x0 y0 x1 y1 color).value =
    (lineOf (.between x0 x1) (.between y0 y1) color, penAt (.between x0 x1) (.between y0 y1) (0, 0)) := by
  have width : (if x1 > x0 then x1 - x0 else x0 - x1) = (x1 - x0).natAbs := by split <;> omega
  have height : (if y1 > y0 then y1 - y0 else y0 - y1) = (y1 - y0).natAbs := by split <;> omega
  simp only [lineSetup, value_bind, value_int, value_pure, lineOf, penAt, Side.between_at, Side.at_zero, width, height,
    Prod.mk.injEq]
  refine ⟨rfl, ?_⟩
  rw [Nat.zero_add, Nat.one_mul, Nat.one_mul, Int.sub_eq_add_neg]
  rfl

theorem lineSetup_fits {x0 y0 x1 y1 : Int} (small : (x1 - x0).natAbs < 536870912 ∧ (y1 - y0).natAbs < 536870912)
    (color : UInt32) : All Fits (lineSetup x0 y0 x1 y1 color) := by
  simp only [lineSetup, all_bind_iff, all_int_iff, value_int, Fits]
  refine ⟨?_, ?_, ?_, ?_, all_pure _⟩
  all_goals (split <;> omega)

/-- The path is within half a step of the diagonal, in fractions. -/
theorem half_step {a b i j : Nat} (positive : 0 < a) (near : Bresenham.Near a b (i, j)) :
    |(j : ℚ) - i * (b / a)| ≤ 1 / 2 := by
  have above : 2 * ((i : ℚ) * b) ≤ 2 * (j * a) + a := by exact_mod_cast near.above
  have below : 2 * ((j : ℚ) * a) ≤ 2 * (i * b) + a := by exact_mod_cast near.below
  have side : (0 : ℚ) < a := by exact_mod_cast positive
  have whole : (j : ℚ) - i * (b / a) = (j * a - i * b) / a := by field_simp
  rw [whole, abs_le, le_div_iff₀ side, div_le_iff₀ side]
  constructor <;> linarith

/-- In the coordinates of the screen. -/
theorem half_pixel {h v : Side} {p : Nat × Nat} (wide : v.extent ≤ h.extent) (inside : p.2 ≤ v.extent)
    (near : Bresenham.Near h.extent v.extent p) :
    |(v.at p.2 : ℚ) - (v.start + (h.at p.1 - h.start) * ((v.at v.extent - v.start) / (h.at h.extent - h.start)))| ≤ 1 / 2 := by
  rcases Nat.eq_zero_or_pos h.extent with point | positive
  · have still : p.2 = 0 := by omega
    rw [point, still]
    simp [Side.at]
  · have steps := half_step positive near
    have across : ((h.at p.1 : ℚ) - h.start) / (h.at h.extent - h.start) = p.1 / h.extent := by
      rcases h.unit with plus | minus
      · simp [Side.at, plus]
      · simp [Side.at, minus]
    have down (n : Nat) : (v.at n : ℚ) = v.start + v.sign * n := by simp [Side.at]
    have unit : |(v.sign : ℚ)| = 1 := by
      rcases v.unit with plus | minus
      · simp [plus]
      · simp [minus]
    calc |(v.at p.2 : ℚ) - (v.start + (h.at p.1 - h.start) * ((v.at v.extent - v.start) / (h.at h.extent - h.start)))|
      _ = |(v.sign : ℚ) * (p.2 - p.1 * (v.extent / h.extent))| := by
        rw [← mul_comm_div, across, down, down]
        ring_nf
      _ = |(p.2 : ℚ) - p.1 * (v.extent / h.extent)| := by rw [abs_mul, unit, one_mul]
      _ ≤ 1 / 2 := steps

theorem pixel_near {h v : Side} {k : Nat} (inside : k ≤ max h.extent v.extent) (color : UInt32) :
    HalfPixel h.start v.start (h.at h.extent) (v.at v.extent) (pixelAt h v color (walk h.extent v.extent k)) := by
  have box := Bresenham.walk_inside inside
  constructor
  · intro wide
    rw [h.natAbs_extent, v.natAbs_extent] at wide
    exact half_pixel wide box.2 (Bresenham.walk_near wide k)
  · intro tall
    rw [h.natAbs_extent, v.natAbs_extent] at tall
    have near := Bresenham.walk_near tall k
    rw [Bresenham.walk_swap] at near
    have half := half_pixel (p := (walk h.extent v.extent k).swap) tall box.1 near
    exact half
  · exact ⟨Side.at_inside box.1, Side.at_inside box.2⟩

section
variable (h v : Side) (color : UInt32)

/-- The pixels of the whole path. -/
def pathPixels : List Pixel :=
  (List.range' 0 (max h.extent v.extent + 1)).map fun i => pixelAt h v color (walk h.extent v.extent i)

theorem getElem?_pathPixels {k : Nat} {p : Pixel} (found : (pathPixels h v color)[k]? = some p) :
    k ≤ max h.extent v.extent ∧ p = pixelAt h v color (walk h.extent v.extent k) := by
  rw [pathPixels, List.getElem?_map, Option.map_eq_some_iff] at found
  obtain ⟨i, found, rfl⟩ := found
  rw [List.getElem?_eq_some_iff] at found
  obtain ⟨below, found⟩ := found
  rw [List.length_range'] at below
  rw [List.getElem_range', Nat.one_mul, Nat.zero_add] at found
  exact ⟨Nat.le_of_lt_succ below, by rw [found]⟩

theorem pathPixels_draws : Draws h.start v.start (h.at h.extent) (v.at v.extent) color (pathPixels h v color) where
  count := by rw [pathPixels, List.length_map, List.length_range', h.natAbs_extent, v.natAbs_extent]
  first := by
    rw [pathPixels, List.range'_succ, List.map_cons, List.head?_cons, Bresenham.walk, pixelAt, Side.at_zero, Side.at_zero]
  last := by
    rw [pathPixels, List.getLast?_map, List.getLast?_range', if_neg (Nat.succ_ne_zero _), Nat.zero_add, Nat.add_sub_cancel,
      Option.map_some, Bresenham.walk_max]
    rfl
  steps {k p q} here there := by
    obtain ⟨-, rfl⟩ := getElem?_pathPixels h v color here
    obtain ⟨inside, rfl⟩ := getElem?_pathPixels h v color there
    have box := Bresenham.walk_inside inside
    exact ⟨Side.toward box.1 (Bresenham.next_fst ..), Side.toward box.2 (Bresenham.next_snd ..)⟩
  near p member := by
    obtain ⟨k, found⟩ := List.getElem?_of_mem member
    obtain ⟨inside, rfl⟩ := getElem?_pathPixels h v color found
    exact pixel_near inside color

end

/-- draw_line returns after a line of pixels, and every int it computes is in range. -/
theorem drawLine_draws (x0 y0 x1 y1 : Int32) (color : UInt32)
    (small : (x1.toInt - x0.toInt).natAbs < 2 ^ 29 ∧ (y1.toInt - y0.toInt).natAbs < 2 ^ 29) :
    ∃ out, Returns (drawLine x0 y0 x1 y1 color) out ∧ Draws x0.toInt y0.toInt x1.toInt y1.toInt color out.value ∧
      All Fits out := by
  have put := lineLoop_puts (h := .between x0.toInt x1.toInt) (v := .between y0.toInt y1.toInt) color small
    ⟨toInt_fits x0, by rw [Side.between_at]; exact toInt_fits x1⟩ ⟨toInt_fits y0, by rw [Side.between_at]; exact toInt_fits y1⟩
    (Nat.zero_add _)
  obtain ⟨out, reached, fits, points⟩ := put
  have draws := pathPixels_draws (.between x0.toInt x1.toInt) (.between y0.toInt y1.toInt) color
  rw [pathPixels, ← points, Side.between_at, Side.between_at] at draws
  refine ⟨do
    let _ ← lineSetup x0.toInt y0.toInt x1.toInt y1.toInt color
    out, ⟨max (x1.toInt - x0.toInt).natAbs (y1.toInt - y0.toInt).natAbs + 1, fun budget enough => ?_⟩, draws, ?_⟩
  · rw [drawLine, value_lineSetup]
    exact congrArg (Option.map _) (reached budget (Nat.lt_of_succ_le enough))
  · rw [all_bind_iff]
    exact ⟨lineSetup_fits small color, fits⟩

/-- A line that goes down and to the left. -/
theorem drawLine_draws_left : ∃ out, Returns (drawLine 7 0 (-3) 4 0xFFFFFF) out ∧ Draws 7 0 (-3) 4 0xFFFFFF out.value ∧
    All Fits out := drawLine_draws 7 0 (-3) 4 0xFFFFFF (by decide)

end ChrisOS.Ui.Draw
