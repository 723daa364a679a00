import Mathlib.Data.Nat.Notation

/-! Lattice paths that follow the diagonal of a box.

A path goes from one corner of an a by b box to the opposite one. It advances along
an axis whenever that leaves it no farther than half a step behind. Both axes are
treated alike, so every fact about the wide boxes has a mirror image for the tall ones.
-/

set_option autoImplicit false

namespace ChrisOS.Lib.Bresenham

/-- From (i, j) the path goes on along the side of length a. -/
def Advances (a b i j : Nat) : Prop := (2 * i + 1) * b ≤ 2 * (j + 1) * a

instance (a b i j : Nat) : Decidable (Advances a b i j) := inferInstanceAs (Decidable (_ ≤ _))

theorem advances_iff {a b i j : Nat} : Advances a b i j ↔ 2 * (i * b) + b ≤ 2 * (j * a) + 2 * a := by
  have left : (2 * i + 1) * b = 2 * (i * b) + b := by rw [Nat.succ_mul, Nat.mul_assoc]
  have right : 2 * (j + 1) * a = 2 * (j * a) + 2 * a := by rw [Nat.mul_assoc, Nat.succ_mul j, Nat.mul_add]
  rw [Advances, left, right]

def next (a b : Nat) (p : Nat × Nat) : Nat × Nat :=
  (if Advances a b p.1 p.2 then p.1 + 1 else p.1, if Advances b a p.2 p.1 then p.2 + 1 else p.2)

/-- The path by the number of steps taken. -/
def walk (a b : Nat) : Nat → Nat × Nat
  | 0 => (0, 0)
  | k + 1 => next a b (walk a b k)

variable {a b : Nat}

theorem walk_swap (a b k : Nat) : walk b a k = (walk a b k).swap := by
  induction k with
  | zero => rfl
  | succ k ih =>
    rw [walk, ih]
    rfl

/-- The point is within half a step of the diagonal, across the side of length a. -/
structure Near (a b : Nat) (p : Nat × Nat) : Prop where
  above : 2 * (p.1 * b) ≤ 2 * (p.2 * a) + a
  below : 2 * (p.2 * a) ≤ 2 * (p.1 * b) + a

section
variable {p : Nat × Nat} (wide : b ≤ a)
include wide

/-- Along the long side the path advances with every step. -/
theorem Near.advances (near : Near a b p) : Advances a b p.1 p.2 := by
  have above := near.above
  rw [advances_iff]
  omega

theorem Near.next (near : Near a b p) : Near a b (next a b p) := by
  have above := near.above
  have below := near.below
  have along : (p.1 + 1) * b = p.1 * b + b := Nat.succ_mul p.1 b
  have across : (p.2 + 1) * a = p.2 * a + a := Nat.succ_mul p.2 a
  rw [Bresenham.next, if_pos (near.advances wide)]
  split
  · rename_i steps
    have room := advances_iff.mp steps
    constructor <;> dsimp only <;> omega
  · rename_i stays
    have room := mt advances_iff.mpr stays
    constructor <;> dsimp only <;> omega

theorem walk_near (k : Nat) : Near a b (walk a b k) := by
  induction k with
  | zero => constructor <;> simp [walk]
  | succ k ih => exact ih.next wide

theorem walk_fst (k : Nat) : (walk a b k).1 = k := by
  induction k with
  | zero => rfl
  | succ k ih =>
    rw [walk, Bresenham.next, if_pos ((walk_near wide k).advances wide), ih]

/-- The path stays in the box as long as it is. -/
theorem walk_snd_le {k : Nat} (inside : k ≤ a) : (walk a b k).2 ≤ b := by
  have below := (walk_near wide k).below
  rw [walk_fst wide k] at below
  have most : k * b ≤ a * b := Nat.mul_le_mul_right b inside
  refine Nat.le_of_not_lt fun beyond => ?_
  have least : (b + 1) * a ≤ (walk a b k).2 * a := Nat.mul_le_mul_right a beyond
  rw [Nat.succ_mul, Nat.mul_comm b a] at least
  have empty : a = 0 := by omega
  obtain rfl : k = 0 := by omega
  exact absurd beyond (Nat.not_lt_zero b)

/-- It ends at the corner. -/
theorem walk_corner : walk a b a = (a, b) := by
  have above := (walk_near wide a).above
  rw [walk_fst wide a] at above
  refine Prod.ext (walk_fst wide a) (Nat.le_antisymm (walk_snd_le wide (Nat.le_refl a)) ?_)
  refine Nat.le_of_not_lt fun short => ?_
  have most : ((walk a b a).2 + 1) * a ≤ b * a := Nat.mul_le_mul_right a short
  rw [Nat.succ_mul, Nat.mul_comm b a] at most
  omega

end

/-! ### Both kinds of boxes -/

theorem walk_max (a b : Nat) : walk a b (max a b) = (a, b) := by
  rcases Nat.le_total b a with wide | tall
  · rw [Nat.max_eq_left wide, walk_corner wide]
  · rw [Nat.max_eq_right tall, walk_swap b a, walk_corner tall]
    rfl

/-- It does not come to the corner before. -/
theorem walk_ne_corner {k : Nat} (before : k < max a b) : walk a b k ≠ (a, b) := by
  intro early
  rcases Nat.le_total b a with wide | tall
  · rw [Nat.max_eq_left wide] at before
    have first := walk_fst wide k
    rw [early] at first
    exact absurd first (Nat.ne_of_gt before)
  · rw [Nat.max_eq_right tall] at before
    have second := walk_fst tall k
    rw [walk_swap, early] at second
    exact absurd second (Nat.ne_of_gt before)

theorem walk_inside {k : Nat} (inside : k ≤ max a b) : (walk a b k).1 ≤ a ∧ (walk a b k).2 ≤ b := by
  rcases Nat.le_total b a with wide | tall
  · rw [Nat.max_eq_left wide] at inside
    exact ⟨Nat.le_trans (Nat.le_of_eq (walk_fst wide k)) inside, walk_snd_le wide inside⟩
  · rw [Nat.max_eq_right tall] at inside
    rw [walk_swap b a]
    exact ⟨walk_snd_le tall inside, Nat.le_trans (Nat.le_of_eq (walk_fst tall k)) inside⟩

/-- Twice the distance from the diagonal never exceeds the longer side. -/
theorem walk_error (a b k : Nat) : 2 * ((walk a b k).1 * b) ≤ 2 * ((walk a b k).2 * a) + max a b ∧
    2 * ((walk a b k).2 * a) ≤ 2 * ((walk a b k).1 * b) + max a b := by
  rcases Nat.le_total b a with wide | tall
  · rw [Nat.max_eq_left wide]
    exact ⟨(walk_near wide k).above, (walk_near wide k).below⟩
  · rw [Nat.max_eq_right tall, walk_swap b a]
    exact ⟨(walk_near tall k).below, (walk_near tall k).above⟩

/-- A step advances by at most one along each side. -/
theorem next_fst (a b : Nat) (p : Nat × Nat) : (next a b p).1 = p.1 ∨ (next a b p).1 = p.1 + 1 := by
  rw [next]
  split
  · exact .inr rfl
  · exact .inl rfl

theorem next_snd (a b : Nat) (p : Nat × Nat) : (next a b p).2 = p.2 ∨ (next a b p).2 = p.2 + 1 :=
  next_fst b a p.swap

end ChrisOS.Lib.Bresenham
