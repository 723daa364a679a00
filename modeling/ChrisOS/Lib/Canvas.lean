import Mathlib.Logic.Function.Basic
import Mathlib.Data.List.Basic

/-! Drawing by dots on a store of colours.

A drawing is a list of dots. What it leaves is a partial picture, the colour of the last
dot at each place, and drawings one after the other lay their pictures over each other.
-/

set_option autoImplicit false

namespace ChrisOS.Lib

/-- A store that is drawn on. Nothing is kept of a dot that is not inside. -/
structure Canvas (M P C : Type) where
  get : M → P → C
  put : P → C → M → M
  Named : P → Prop
  Inside : P → Prop
  /-- What is kept of a colour. -/
  kept : C → C
  get_put_self {p : P} {c : C} {m : M} : Named p → Inside p → get (put p c m) p = kept c
  get_put_other {p q : P} {c : C} {m : M} : Named p → Named q → (q = p → ¬Inside p) → get (put p c m) q = get m q
  kept_get {m : M} {p : P} : Named p → Inside p → kept (get m p) = get m p

namespace Canvas

variable {M P C : Type}

def paint (k : Canvas M P C) (dots : List (P × C)) (m : M) : M := dots.foldl (fun m d => k.put d.1 d.2 m) m

@[simp] theorem paint_nil (k : Canvas M P C) (m : M) : k.paint [] m = m := rfl

@[simp] theorem paint_cons (k : Canvas M P C) (d : P × C) (dots : List (P × C)) (m : M) :
    k.paint (d :: dots) m = k.paint dots (k.put d.1 d.2 m) := rfl

/-! ### Pictures -/

section
variable [DecidableEq P]

/-- The colour of the last dot at each place. -/
def image : List (P × C) → P → Option C
  | [], _ => none
  | d :: rest, p => (image rest p).or (if d.1 = p then some d.2 else none)

@[simp] theorem image_nil (p : P) : image ([] : List (P × C)) p = none := rfl

theorem image_cons (d : P × C) (rest : List (P × C)) (p : P) :
    image (d :: rest) p = (image rest p).or (if d.1 = p then some d.2 else none) := rfl

theorem image_append (first second : List (P × C)) (p : P) :
    image (first ++ second) p = (image second p).or (image first p) := by
  induction first with
  | nil => simp
  | cons d first ih => rw [List.cons_append, image_cons, ih, image_cons, Option.or_assoc]

end

/-! ### What is drawn -/

variable (k : Canvas M P C) {dots : List (P × C)} {p : P} {m : M}

theorem get_paint [DecidableEq P] (named : ∀ d ∈ dots, k.Named d.1) (here : k.Named p) (inside : k.Inside p) :
    k.get (k.paint dots m) p = ((image dots p).map k.kept).getD (k.get m p) := by
  induction dots generalizing m with
  | nil => rfl
  | cons d dots ih =>
    rw [List.forall_mem_cons] at named
    rw [paint_cons, ih named.2, image_cons]
    cases image dots p with
    | some c => rfl
    | none =>
      rw [Option.none_or, Option.map_none, Option.getD_none]
      by_cases same : d.1 = p
      · subst same
        rw [if_pos rfl, k.get_put_self here inside]
        rfl
      · rw [if_neg same, k.get_put_other named.1 here fun other => absurd other.symm same]
        rfl

end Canvas

end ChrisOS.Lib
