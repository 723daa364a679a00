import Mathlib.Logic.Function.Basic
import Mathlib.Data.List.Infix

/-! Sequences of block writes: their effect on a store and the stores a stop
between two of them can leave behind.
-/

set_option autoImplicit false

namespace ChrisOS.Lib.Writes

variable {Addr Block : Type} [DecidableEq Addr]

/-- The store after the writes, oldest first. -/
def apply : List (Addr × Block) → (Addr → Block) → Addr → Block
  | [], store => store
  | w :: ws, store => apply ws (Function.update store w.1 w.2)

@[simp] theorem apply_nil (store : Addr → Block) : apply [] store = store := rfl

@[simp] theorem apply_cons (w : Addr × Block) (ws : List (Addr × Block)) (store : Addr → Block) :
    apply (w :: ws) store = apply ws (Function.update store w.1 w.2) := rfl

theorem apply_append (ws vs : List (Addr × Block)) (store : Addr → Block) :
    apply (ws ++ vs) store = apply vs (apply ws store) := by
  induction ws generalizing store with
  | nil => rfl
  | cons w ws ih => exact ih _

/-- An address that no write names keeps its block. -/
theorem apply_other {ws : List (Addr × Block)} {a : Addr} (store : Addr → Block)
    (other : ∀ w ∈ ws, w.1 ≠ a) : apply ws store a = store a := by
  induction ws generalizing store with
  | nil => rfl
  | cons w ws ih =>
    have := List.forall_mem_cons.mp other
    rw [apply_cons, ih _ this.2, Function.update_of_ne this.1.symm]

/-- Every store left by a prefix of the writes has the property. -/
def Throughout (P : (Addr → Block) → Prop) (store : Addr → Block) (ws : List (Addr × Block)) : Prop :=
  ∀ done, done <+: ws → P (apply done store)

theorem Throughout.nil {P : (Addr → Block) → Prop} {store : Addr → Block} (holds : P store) :
    Throughout P store [] := by
  intro done isPrefix
  rw [List.prefix_nil.mp isPrefix]
  exact holds

theorem Throughout.cons {P : (Addr → Block) → Prop} {store : Addr → Block} {w : Addr × Block}
    {ws : List (Addr × Block)} (holds : P store)
    (rest : Throughout P (Function.update store w.1 w.2) ws) : Throughout P store (w :: ws) := by
  intro done isPrefix
  rcases List.prefix_cons_iff.mp isPrefix with rfl | ⟨done, rfl, rest'⟩
  · exact holds
  · exact rest done rest'

theorem Throughout.start {P : (Addr → Block) → Prop} {store : Addr → Block} {ws : List (Addr × Block)}
    (all : Throughout P store ws) : P store := all [] (List.nil_prefix)

theorem Throughout.tail {P : (Addr → Block) → Prop} {store : Addr → Block} {w : Addr × Block}
    {ws : List (Addr × Block)} (all : Throughout P store (w :: ws)) :
    Throughout P (Function.update store w.1 w.2) ws :=
  fun done isPrefix => all (w :: done) (List.cons_prefix_cons.mpr ⟨rfl, isPrefix⟩)

theorem Throughout.append {P : (Addr → Block) → Prop} {store : Addr → Block} {ws vs : List (Addr × Block)}
    (first : Throughout P store ws) (second : Throughout P (apply ws store) vs) :
    Throughout P store (ws ++ vs) := by
  induction ws generalizing store with
  | nil => exact second
  | cons w ws ih => exact .cons first.start (ih first.tail second)

theorem Throughout.finish {P : (Addr → Block) → Prop} {store : Addr → Block} {ws : List (Addr × Block)}
    (all : Throughout P store ws) : P (apply ws store) := all ws (List.prefix_refl ws)

theorem Throughout.mono {P Q : (Addr → Block) → Prop} {store : Addr → Block} {ws : List (Addr × Block)}
    (all : Throughout P store ws) (weaker : ∀ s, P s → Q s) : Throughout Q store ws :=
  fun done isPrefix => weaker _ (all done isPrefix)

end ChrisOS.Lib.Writes
