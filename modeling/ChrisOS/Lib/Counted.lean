import ChrisOS.Lib.Traced

/-! Loops that count up, over computations with their accesses on record. -/

set_option autoImplicit false

namespace ChrisOS.Lib.Counted
open Traced

variable {E S : Type}

/-- `for (i = 0; i < n; i++) body(i)`. -/
def forUp (body : Nat → S → Traced E S) : Nat → S → Traced E S
  | 0, s => pure s
  | n + 1, s => do
    let s ← forUp body n s
    body n s

variable {body : Nat → S → Traced E S} {n : Nat} {s : S}

/-- The invariant is about the state before the round with its number. -/
theorem forUp_value (inv : Nat → S → Prop) (start : inv 0 s)
    (round : ∀ {i s}, i < n → inv i s → inv (i + 1) (body i s).value) : inv n (forUp body n s).value := by
  induction n with
  | zero => exact start
  | succ n ih =>
    have before := ih fun below holds => round (Nat.lt_succ_of_lt below) holds
    rw [forUp, value_bind]
    exact round (Nat.lt_succ_self n) before

theorem forUp_all {P : E → Prop} (round : ∀ {i s}, i < n → All P (body i s)) : All P (forUp body n s) := by
  induction n with
  | zero => exact all_pure _
  | succ n ih =>
    rw [forUp, all_bind_iff]
    exact ⟨ih fun below => round (Nat.lt_succ_of_lt below), round (Nat.lt_succ_self n)⟩

/-! ### Tables -/

section
variable {X : Type} (get : S → Nat → Nat → X) {m : Nat} (val : S → Nat → Nat → X)
  (stable : ∀ {s t i j}, j < m → (∀ r c, c < m → i < r → get t r c = get s r c) → val t i j = val s i j)
include stable

/-- A row is set cell by cell, to values that do not depend on the row itself. -/
theorem forUp_row (body : Nat → S → Traced E S) (s : S) {i : Nat} (sets : ∀ {j s r c}, j < m → c < m →
      get (body j s).value r c = if r = i ∧ c = j then val s i j else get s r c) {r c : Nat} (inside : c < m) :
    get (forUp body m s).value r c = if r = i then val s i c else get s r c := by
  have all : ∀ r c, c < m → get (forUp body m s).value r c = if r = i ∧ c < m then val s i c else get s r c := forUp_value
    (fun j t => ∀ r c, c < m → get t r c = if r = i ∧ c < j then val s i c else get s r c)
    (fun r c _ => by rw [if_neg fun both => Nat.not_lt_zero _ both.2])
    (fun {j t} below before r c inside => by
      have same : val t i j = val s i j := stable below fun r' c' inside' behind => by
        rw [before r' c' inside', if_neg fun both => Nat.ne_of_gt behind both.1]
      rw [sets below inside, same, before r c inside]
      by_cases here : r = i ∧ c = j
      · rw [if_pos here, if_pos ⟨here.1, by omega⟩, here.2]
      · rw [if_neg here]
        exact if_congr (by omega) rfl rfl)
  rw [all r c inside]
  exact if_congr (and_iff_left inside) rfl rfl

/-- The rows are set one after the other, to values that depend on rows further down only. -/
theorem forUp_grid (body : Nat → Nat → S → Traced E S) (s : S) (sets : ∀ {i j s r c}, i < n → j < m → c < m →
      get (body i j s).value r c = if r = i ∧ c = j then val s i j else get s r c) {r c : Nat} (inside : c < m) :
    get (forUp (fun i => forUp (body i) m) n s).value r c = if r < n then val s r c else get s r c := by
  have all : ∀ r c, c < m → get (forUp (fun i => forUp (body i) m) n s).value r c =
      if r < n then val s r c else get s r c := forUp_value
    (fun i t => ∀ r c, c < m → get t r c = if r < i then val s r c else get s r c)
    (fun r c _ => by rw [if_neg (Nat.not_lt_zero r)])
    (fun {i t} below before r c inside => by
      have same : val t i c = val s i c := stable inside fun r' c' inside' behind => by
        rw [before r' c' inside', if_neg (Nat.not_lt_of_gt behind)]
      rw [forUp_row get val stable (body i) t (sets below) inside, same, before r c inside]
      by_cases here : r = i
      · rw [if_pos here, if_pos (by omega), here]
      · rw [if_neg here]
        exact if_congr (by omega) rfl rfl)
  exact all r c inside

end

-- A loop with a number of rounds in the source is not to be unrolled.
attribute [irreducible] forUp

end ChrisOS.Lib.Counted
