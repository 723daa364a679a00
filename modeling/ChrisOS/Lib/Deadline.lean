import ChrisOS.Lib.Loop
import Mathlib.Algebra.Group.Nat.Defs
import Mathlib.Order.Monotone.Basic
import Mathlib.Data.Nat.Find

/-! Loops that wait for a condition and give up at a deadline of a 32-bit tick counter.

Time is the number of ticks since the deadline was set; what the loop sees of it is
the counter, which wraps.
-/

set_option autoImplicit false

namespace ChrisOS.Lib.Deadline

/-- What the checks of a loop see: the ticks since the deadline was set, and whether the condition holds. -/
structure Checks where
  elapsed : Nat → Nat
  done : Nat → Bool
  mono : Monotone elapsed

/-- No more than so many ticks pass from one check to the next. -/
structure Checks.Within (c : Checks) (gap : Nat) : Prop where
  first : c.elapsed 0 ≤ gap
  next : ∀ k, c.elapsed (k + 1) ≤ c.elapsed k + gap

/-- The counter after some ticks. -/
def counter (start : UInt32) (elapsed : Nat) : UInt32 := start + UInt32.ofNat elapsed

/-- `while (get_ticks() < deadline && !done)`: the check at which the loop ends, if the budget is enough. -/
def waitLoop (start ticks : UInt32) (c : Checks) : Nat → Nat → Option Nat
  | 0, _ => none
  | budget + 1, k =>
    if counter start (c.elapsed k) < start + ticks ∧ c.done k = false then waitLoop start ticks c budget (k + 1)
    else some k

/-- The loop ends with its condition or when all its ticks are over, and at the first check after that. -/
structure Timely (ticks : UInt32) (c : Checks) (loop : Nat → Option Nat) : Prop where
  notEarly : ∀ k, Returns loop k → c.done k = true ∨ ticks.toNat ≤ c.elapsed k
  notLate : ∀ k, ticks.toNat ≤ c.elapsed k → ∃ j ≤ k, Returns loop j

variable {start ticks : UInt32} {c : Checks}

theorem Timely.congr {loop other : Nat → Option Nat} (same : ∀ k, Returns loop k ↔ Returns other k)
    (timely : Timely ticks c loop) : Timely ticks c other where
  notEarly k returned := timely.notEarly k ((same k).mpr returned)
  notLate k expired := by
    obtain ⟨j, le, returned⟩ := timely.notLate k expired
    exact ⟨j, le, (same j).mp returned⟩

/-- The loop's test fails at this check. -/
def Ends (start ticks : UInt32) (c : Checks) (k : Nat) : Prop :=
  ¬ (counter start (c.elapsed k) < start + ticks ∧ c.done k = false)

/-- The loop comes to this check. -/
def Reached (start ticks : UInt32) (c : Checks) (k : Nat) : Prop := ∀ j < k, ¬ Ends start ticks c j

/-- From a check on, a loop ends where its test fails first. -/
theorem waitLoop_returns {i k : Nat} (le : i ≤ k) (ends : Ends start ticks c k)
    (goes : ∀ j, i ≤ j → j < k → ¬ Ends start ticks c j) : Returns (fun budget => waitLoop start ticks c budget i) k := by
  obtain ⟨n, distance⟩ := Nat.exists_eq_add_of_le le
  induction n generalizing i with
  | zero =>
    rw [Nat.add_zero] at distance
    subst distance
    refine .of_succ (.of_all fun budget => ?_)
    rw [waitLoop, if_neg ends]
  | succ n ih =>
    have more := not_not.mp (goes i (Nat.le_refl _) (by omega))
    refine .of_succ (.congr (fun budget => ?_) (ih (i := i + 1) (by omega) (fun j above => goes j (by omega)) (by omega)))
    rw [waitLoop, if_pos more]

/-- Where a loop returns, its test fails. -/
theorem waitLoop_ends {budget i k : Nat} (returned : waitLoop start ticks c budget i = some k) :
    i ≤ k ∧ Ends start ticks c k ∧ ∀ j, i ≤ j → j < k → ¬ Ends start ticks c j := by
  induction budget generalizing i with
  | zero => cases returned
  | succ budget ih =>
    rw [waitLoop] at returned
    split at returned
    · rename_i more
      obtain ⟨le, ends, goes⟩ := ih returned
      refine ⟨Nat.le_of_succ_le le, ends, fun j above below => ?_⟩
      rcases Nat.eq_or_lt_of_le above with rfl | later
      · exact not_not.mpr more
      · exact goes j later below
    · rename_i stops
      cases returned
      exact ⟨Nat.le_refl _, stops, fun j above below => absurd above (Nat.not_le.mpr below)⟩

theorem waitLoop_returns_iff {k : Nat} :
    Returns (fun budget => waitLoop start ticks c budget 0) k ↔ Reached start ticks c k ∧ Ends start ticks c k := by
  constructor
  · rintro ⟨enough, returned⟩
    obtain ⟨-, ends, goes⟩ := waitLoop_ends (returned enough (Nat.le_refl _))
    exact ⟨fun j less => goes j (Nat.zero_le _) less, ends⟩
  · rintro ⟨reached, ends⟩
    exact waitLoop_returns (Nat.zero_le k) ends fun j _ less => reached j less

/-- A check that fails is the end of the loop, or there was one before it. -/
theorem exists_returns {k : Nat} (ends : Ends start ticks c k) :
    ∃ j ≤ k, Returns (fun budget => waitLoop start ticks c budget 0) j := by
  classical
  have some : ∃ j, Ends start ticks c j := ⟨k, ends⟩
  exact ⟨Nat.find some, Nat.find_min' some ends,
    waitLoop_returns_iff.mpr ⟨fun j less => Nat.find_min some less, Nat.find_spec some⟩⟩

/-! ### The counter -/

theorem counter_toNat (start : UInt32) (elapsed : Nat) :
    (counter start elapsed).toNat = (start.toNat + elapsed) % 2 ^ 32 := by
  rw [counter, UInt32.toNat_add, UInt32.toNat_ofNat']
  omega

/-- As long as neither the deadline nor the counter wraps, the test is about the time that passed. -/
theorem ends_iff {k : Nat} (deadline : start.toNat + ticks.toNat < 2 ^ 32)
    (now : start.toNat + c.elapsed k < 2 ^ 32) :
    Ends start ticks c k ↔ c.done k = true ∨ ticks.toNat ≤ c.elapsed k := by
  rw [Ends, UInt32.lt_iff_toNat_lt, counter_toNat, UInt32.toNat_add, Nat.mod_eq_of_lt deadline, Nat.mod_eq_of_lt now,
    Nat.add_lt_add_iff_left, not_and_or, Nat.not_lt, Bool.not_eq_false, or_comm]

section
variable {gap : Nat}

/-- A loop that goes on has ticks left, so the next check comes before the counter wraps. -/
theorem elapsed_lt (fits : start.toNat + ticks.toNat + gap ≤ 2 ^ 32) (waits : 0 < ticks.toNat) (ticking : 0 < gap)
    (within : c.Within gap) {k : Nat} (reached : Reached start ticks c k) : c.elapsed k < ticks.toNat + gap := by
  induction k with
  | zero =>
    have := within.first
    omega
  | succ k ih =>
    have before := ih fun j less => reached j (Nat.lt_succ_of_lt less)
    have goes := reached k (Nat.lt_succ_self k)
    rw [ends_iff (by omega) (by omega)] at goes
    have := within.next k
    omega

theorem timely_of_fits (fits : start.toNat + ticks.toNat + gap ≤ 2 ^ 32) (waits : 0 < ticks.toNat) (ticking : 0 < gap)
    (within : c.Within gap) : Timely ticks c fun budget => waitLoop start ticks c budget 0 := by
  have judged {k : Nat} (reached : Reached start ticks c k) :
      Ends start ticks c k ↔ c.done k = true ∨ ticks.toNat ≤ c.elapsed k := by
    have := elapsed_lt fits waits ticking within reached
    exact ends_iff (by omega) (by omega)
  refine ⟨fun k returned => ?_, fun k expired => ?_⟩
  · obtain ⟨reached, ends⟩ := waitLoop_returns_iff.mp returned
    exact (judged reached).mp ends
  · by_cases reached : Reached start ticks c k
    · exact exists_returns ((judged reached).mpr (.inr expired))
    · simp only [Reached, not_forall, not_not] at reached
      obtain ⟨j, less, ends⟩ := reached
      obtain ⟨i, le, returned⟩ := exists_returns ends
      exact ⟨i, by omega, returned⟩

/-! ### Counters that wrap -/

/-- Checks in the tick in which the deadline was set. -/
def atOnce (done : Nat → Bool) : Checks := ⟨fun _ => 0, done, monotone_const⟩

/-- A check at every tick until one is left; the checks after that come when the counter is at 0 again. -/
def overWrap (start ticks : UInt32) (done : Nat → Bool) (fits : start.toNat + ticks.toNat < 2 ^ 32) : Checks where
  elapsed k := if k < ticks.toNat then k else 2 ^ 32 - start.toNat
  done := done
  mono := by
    intro j k le
    simp only
    split <;> split <;> omega

/-- A deadline that wraps is over at once. -/
theorem not_timely_atOnce {done : Nat → Bool} (pending : ∀ k, done k = false) (waits : 0 < ticks.toNat)
    (wraps : 2 ^ 32 ≤ start.toNat + ticks.toNat) :
    ¬ Timely ticks (atOnce done) fun budget => waitLoop start ticks (atOnce done) budget 0 := by
  intro timely
  have bound := ticks.toNat_lt
  have ends : Ends start ticks (atOnce done) 0 := by
    rintro ⟨less, -⟩
    rw [UInt32.lt_iff_toNat_lt, counter_toNat, UInt32.toNat_add] at less
    have below := start.toNat_lt
    simp only [atOnce] at less
    omega
  have returned := waitLoop_returns_iff.mpr ⟨fun _ less => absurd less (Nat.not_lt_zero _), ends⟩
  rcases timely.notEarly 0 returned with holds | expired
  · rw [show (atOnce done).done 0 = false from pending 0] at holds
    cases holds
  · have : (atOnce done).elapsed 0 = 0 := rfl
    omega

/-- A counter that wraps before the check after the deadline is below the deadline again. -/
theorem not_timely_overWrap {done : Nat → Bool} (pending : ∀ k, done k = false) (waits : 0 < ticks.toNat)
    (fits : start.toNat + ticks.toNat < 2 ^ 32) :
    ¬ Timely ticks (overWrap start ticks done fits) fun budget =>
      waitLoop start ticks (overWrap start ticks done fits) budget 0 := by
  intro timely
  have goes {k : Nat} (le : k ≤ ticks.toNat) : ¬ Ends start ticks (overWrap start ticks done fits) k := by
    refine not_not.mpr ⟨?_, pending k⟩
    rw [UInt32.lt_iff_toNat_lt, counter_toNat, UInt32.toNat_add]
    simp only [overWrap]
    split <;> omega
  have expired : ticks.toNat ≤ (overWrap start ticks done fits).elapsed ticks.toNat := by
    simp only [overWrap, lt_irrefl, ↓reduceIte]
    omega
  obtain ⟨j, le, returned⟩ := timely.notLate _ expired
  exact goes le (waitLoop_returns_iff.mp returned).2

theorem within_atOnce (done : Nat → Bool) : (atOnce done).Within gap := ⟨Nat.zero_le _, fun _ => Nat.zero_le _⟩

theorem within_overWrap {done : Nat → Bool} (waits : 0 < ticks.toNat) (ticking : 0 < gap)
    (fits : start.toNat + ticks.toNat < 2 ^ 32) (wraps : 2 ^ 32 < start.toNat + ticks.toNat + gap) :
    (overWrap start ticks done fits).Within gap := by
  refine ⟨?_, fun k => ?_⟩
  · simp only [overWrap, if_pos waits]
    omega
  · simp only [overWrap]
    split <;> split <;> omega

end

end ChrisOS.Lib.Deadline
