import ChrisOS.Lib.Canvas

/-! A sprite over a drawing, with what it covers saved place by place.

Four things happen to a place: its colour is saved, the sprite is drawn over it, what was
saved is put back, and somebody who knows of no sprite draws there. Only the last one changes the
picture under the sprite, and only where nothing is saved.
-/

set_option autoImplicit false

namespace ChrisOS.Lib.Sprite

variable {M P C : Type} (k : Canvas M P C)

/-- The picture under the sprite, by what is saved of each place. -/
def under (m : M) (held : P → Option C) (p : P) : C := (held p).getD (k.get m p)

/-- What is saved came from the canvas. -/
def Genuine (held : P → Option C) : Prop := ∀ p c, k.Inside p → held p = some c → k.kept c = c

variable {k} {m : M} {held : P → Option C} {p q : P} {c : C}

theorem under_save [DecidableEq P] (free : held p = none) :
    under k m (Function.update held p (some (k.get m p))) q = under k m held q := by
  by_cases same : q = p
  · subst same
    rw [under, under, Function.update_self, free]
    rfl
  · rw [under, Function.update_of_ne same, under]

theorem Genuine.save [DecidableEq P] (genuine : Genuine k held) (named : k.Named p) :
    Genuine k (Function.update held p (some (k.get m p))) := by
  intro q c inside saved
  by_cases same : q = p
  · subst same
    rw [Function.update_self] at saved
    rw [← Option.some.inj saved]
    exact k.kept_get named inside
  · rw [Function.update_of_ne same] at saved
    exact genuine q c inside saved

theorem under_restore [DecidableEq P] (genuine : Genuine k held) (saved : held p = some c) (named : k.Named p)
    (here : k.Named q) (inside : k.Inside q) :
    under k (k.put p c m) (Function.update held p none) q = under k m held q := by
  by_cases same : q = p
  · subst same
    rw [under, under, Function.update_self, saved, Option.getD_none, k.get_put_self named inside]
    exact genuine q c inside saved
  · rw [under, Function.update_of_ne same, under, k.get_put_other named here fun other => absurd other same]

theorem Genuine.restore [DecidableEq P] (genuine : Genuine k held) : Genuine k (Function.update held p none) := by
  intro q c inside saved
  by_cases same : q = p
  · subst same
    rw [Function.update_self] at saved
    cases saved
  · rw [Function.update_of_ne same] at saved
    exact genuine q c inside saved

/-- A dot at a covered place is not under the sprite. -/
theorem under_put_held (covered : held p ≠ none) (named : k.Named p) (here : k.Named q) :
    under k (k.put p c m) held q = under k m held q := by
  by_cases same : q = p
  · subst same
    obtain ⟨c', saved⟩ := Option.ne_none_iff_exists'.mp covered
    rw [under, under, saved]
    rfl
  · rw [under, under, k.get_put_other named here fun other => absurd other same]

theorem under_put_self (free : held p = none) (named : k.Named p) (inside : k.Inside p) :
    under k (k.put p c m) held p = k.kept c := by
  rw [under, free, Option.getD_none, k.get_put_self named inside]

theorem under_put_other (named : k.Named p) (here : k.Named q) (other : q ≠ p) :
    under k (k.put p c m) held q = under k m held q := by
  rw [under, under, k.get_put_other named here fun same => absurd same other]

end ChrisOS.Lib.Sprite
