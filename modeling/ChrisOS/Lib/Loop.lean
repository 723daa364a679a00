/-! Fuel-indexed meanings of loops that need not terminate.

A loop is a family of partial outcomes indexed by an iteration budget. It
returns a value when some budget reaches the value and no larger one disagrees.
-/

set_option autoImplicit false

namespace ChrisOS.Lib

variable {A B : Type}

/-- Some budget suffices for the outcome, and every larger budget agrees. -/
def Returns (loop : Nat → Option A) (outcome : A) : Prop :=
  ∃ enough, ∀ budget, enough ≤ budget → loop budget = some outcome

/-- More budget never changes an outcome that was reached. -/
def Steady (loop : Nat → Option A) : Prop :=
  ∀ budget outcome, loop budget = some outcome → loop (budget + 1) = some outcome

theorem Returns.unique {loop : Nat → Option A} {first second : A}
    (left : Returns loop first) (right : Returns loop second) : first = second := by
  obtain ⟨n, left⟩ := left
  obtain ⟨m, right⟩ := right
  have agree := (left (max n m) (Nat.le_max_left n m)).symm.trans
    (right (max n m) (Nat.le_max_right n m))
  exact Option.some.inj agree

theorem Returns.of_all {loop : Nat → Option A} {outcome : A}
    (all : ∀ budget, loop budget = some outcome) : Returns loop outcome :=
  ⟨0, fun budget _ => all budget⟩

theorem Returns.of_succ {loop : Nat → Option A} {outcome : A}
    (later : Returns (fun budget => loop (budget + 1)) outcome) : Returns loop outcome := by
  obtain ⟨n, later⟩ := later
  refine ⟨n + 1, fun budget bound => ?_⟩
  have reached : loop (budget - 1 + 1) = some outcome := later (budget - 1) (by omega)
  rwa [Nat.sub_add_cancel (by omega)] at reached

theorem Returns.congr {loop other : Nat → Option A} {outcome : A}
    (same : ∀ budget, loop budget = other budget) (ends : Returns loop outcome) :
    Returns other outcome := by
  obtain ⟨n, ends⟩ := ends
  exact ⟨n, fun budget bound => (same budget).symm.trans (ends budget bound)⟩

/-- Sequencing two loops that share one budget. -/
theorem Returns.bind {loop : Nat → Option A} {next : Nat → A → Option B} {a : A} {b : B}
    (first : Returns loop a) (second : Returns (fun budget => next budget a) b) :
    Returns (fun budget => (loop budget).bind (next budget)) b := by
  obtain ⟨n, first⟩ := first
  obtain ⟨m, second⟩ := second
  refine ⟨max n m, fun budget bound => ?_⟩
  have reached := first budget (by omega)
  have ended := second budget (by omega)
  simpa only [reached, Option.bind_some] using ended

theorem Returns.map {loop : Nat → Option A} {a : A} (ends : Returns loop a) (f : A → B) :
    Returns (fun budget => (loop budget).map f) (f a) := by
  obtain ⟨n, ends⟩ := ends
  exact ⟨n, fun budget bound => congrArg (Option.map f) (ends budget bound)⟩

theorem Steady.mono {loop : Nat → Option A} (steady : Steady loop) {n : Nat} {outcome : A}
    (reached : loop n = some outcome) (k : Nat) : loop (n + k) = some outcome := by
  induction k with
  | zero => exact reached
  | succ k ih => exact steady (n + k) outcome ih

theorem Steady.returns {loop : Nat → Option A} (steady : Steady loop) {n : Nat} {outcome : A}
    (reached : loop n = some outcome) : Returns loop outcome := by
  refine ⟨n, fun budget bound => ?_⟩
  have := steady.mono reached (budget - n)
  rwa [Nat.add_sub_cancel' bound] at this

end ChrisOS.Lib
