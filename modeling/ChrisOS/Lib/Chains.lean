import Mathlib.Data.List.Nodup
import Mathlib.Logic.Function.Basic
import Mathlib.Tactic.Common

/-! Chains of keys in a successor table, ended by marker keys.

A table assigns each key its successor. A chain is the list of keys a walk visits
until it meets a marker; reaching is the same walk stopped anywhere.
-/

set_option autoImplicit false

namespace ChrisOS.Lib.Chains

variable {K : Type} {inside ended : K → Prop}

/-- The keys visited from a key until a marker. -/
inductive Chain (inside ended : K → Prop) (next : K → K) : K → List K → Prop where
  | stop {k : K} : ended k → Chain inside ended next k []
  | link {k : K} {ks : List K} : inside k → Chain inside ended next (next k) ks →
      Chain inside ended next k (k :: ks)

/-- The keys a walk can stand on. -/
inductive Reaches (inside : K → Prop) (next : K → K) : K → K → Prop where
  | here {k : K} : inside k → Reaches inside next k k
  | step {k target : K} : inside k → Reaches inside next (next k) target → Reaches inside next k target

section
variable {next : K → K}

theorem Chain.members {k : K} {ks : List K} (chain : Chain inside ended next k ks) : ∀ x ∈ ks, inside x := by
  induction chain with
  | stop => exact fun _ member => absurd member List.not_mem_nil
  | link valid _ ih => exact List.forall_mem_cons.mpr ⟨valid, ih⟩

/-- The walk from a member runs through the rest of the chain. -/
theorem Chain.suffix {k x : K} {before after : List K}
    (chain : Chain inside ended next k (before ++ x :: after)) : Chain inside ended next x (x :: after) := by
  induction before generalizing k with
  | nil =>
    cases chain with
    | link valid rest => exact .link valid rest
  | cons b before ih =>
    cases chain with
    | link _ rest => exact ih rest

theorem Chain.congr {other : K → K} {k : K} {ks : List K} (chain : Chain inside ended next k ks)
    (same : ∀ x ∈ ks, other x = next x) : Chain inside ended other k ks := by
  induction chain with
  | stop done => exact .stop done
  | link valid _ ih =>
    obtain ⟨head, tail⟩ := List.forall_mem_cons.mp same
    exact .link valid (head ▸ ih tail)

theorem Reaches.valid {k target : K} (reached : Reaches inside next k target) : inside target := by
  induction reached with
  | here valid => exact valid
  | step _ _ ih => exact ih

section
variable (apart : ∀ k, inside k → ¬ended k)
include apart

theorem Chain.unique {k : K} {ks js : List K} (left : Chain inside ended next k ks)
    (right : Chain inside ended next k js) : ks = js := by
  induction left generalizing js with
  | stop done =>
    cases right with
    | stop => rfl
    | link valid _ => exact absurd done (apart _ valid)
  | link valid _ ih =>
    cases right with
    | stop done => exact absurd done (apart _ valid)
    | link _ rest => rw [ih rest]

/-- A chain visits no key twice: its rest would have two lengths. -/
theorem Chain.nodup {k : K} {ks : List K} (chain : Chain inside ended next k ks) : ks.Nodup := by
  induction chain with
  | stop => exact List.nodup_nil
  | @link k ks valid rest ih =>
    refine List.nodup_cons.mpr ⟨fun member => ?_, ih⟩
    obtain ⟨before, after, rfl⟩ := List.append_of_mem member
    have whole : Chain inside ended next k (k :: (before ++ k :: after)) := .link valid rest
    have lengths := congrArg List.length (whole.unique apart rest.suffix)
    simp only [List.length_cons, List.length_append] at lengths
    omega

/-- A walk stands on the members of its chain and on nothing else. -/
theorem Chain.reaches_iff {k target : K} {ks : List K} (chain : Chain inside ended next k ks) :
    Reaches inside next k target ↔ target ∈ ks := by
  induction chain with
  | stop done =>
    refine ⟨fun reached => ?_, fun member => absurd member List.not_mem_nil⟩
    cases reached with
    | here valid => exact absurd done (apart _ valid)
    | step valid _ => exact absurd done (apart _ valid)
  | link valid _ ih =>
    rw [List.mem_cons, ← ih]
    constructor
    · intro reached
      cases reached with
      | here => exact .inl rfl
      | step _ rest => exact .inr rest
    · rintro (rfl | rest)
      · exact .here valid
      · exact .step valid rest

end
end

/-! ### Clearing keys -/

section
variable [DecidableEq K]

/-- The table with the entries of some keys replaced by one value. -/
def clear (zero : K) (ks : List K) (next : K → K) : K → K := fun k => if k ∈ ks then zero else next k

@[simp] theorem clear_nil (zero : K) (next : K → K) : clear zero [] next = next := by
  funext k
  simp [clear]

theorem clear_cons (zero k : K) (ks : List K) (next : K → K) :
    clear zero (k :: ks) next = clear zero ks (Function.update next k zero) := by
  funext x
  simp only [clear, List.mem_cons, Function.update_apply]
  by_cases member : x ∈ ks
  · simp only [member, or_true, ↓reduceIte]
  · simp only [member, or_false, ↓reduceIte]

theorem clear_of_not_mem (zero : K) {ks : List K} (next : K → K) {k : K} (other : k ∉ ks) :
    clear zero ks next k = next k :=
  if_neg other

end

end ChrisOS.Lib.Chains
