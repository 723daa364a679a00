import Mathlib.Control.Monad.Writer
import Mathlib.Data.List.Basic

/-! Computations that put every access to an array on record. -/

set_option autoImplicit false

namespace ChrisOS.Lib

variable {E A B : Type}

abbrev Traced (E A : Type) := Writer (List E) A

namespace Traced

def value (x : Traced E A) : A := x.run.1

def trace (x : Traced E A) : List E := x.run.2

def emit (e : E) : Traced E Unit := tell [e]

/-- A read of an array, by its index. -/
def peek (m : Nat → A) (i : Nat) : Traced Nat A := do
  emit i
  pure (m i)

@[simp] theorem value_pure (a : A) : value (pure a : Traced E A) = a := rfl

@[simp] theorem trace_pure (a : A) : trace (pure a : Traced E A) = [] := rfl

@[simp] theorem value_bind (x : Traced E A) (f : A → Traced E B) : value (x >>= f) = value (f (value x)) := rfl

@[simp] theorem trace_bind (x : Traced E A) (f : A → Traced E B) : trace (x >>= f) = trace x ++ trace (f (value x)) := rfl

@[simp] theorem value_emit (e : E) : value (emit e) = () := rfl

@[simp] theorem trace_emit (e : E) : trace (emit e) = [e] := rfl

@[simp] theorem value_peek (m : Nat → A) (i : Nat) : value (peek m i) = m i := rfl

@[simp] theorem trace_peek (m : Nat → A) (i : Nat) : trace (peek m i) = [i] := rfl

/-- Every access has the property. -/
def All (P : E → Prop) (x : Traced E A) : Prop := ∀ e ∈ x.trace, P e

variable {P : E → Prop}

theorem all_pure (a : A) : All P (pure a) := fun _ member => nomatch member

theorem all_bind_iff {x : Traced E A} {f : A → Traced E B} : All P (x >>= f) ↔ All P x ∧ All P (f x.value) :=
  List.forall_mem_append

theorem all_emit_iff {e : E} : All P (emit e) ↔ P e := List.forall_mem_singleton

theorem all_peek_iff {P : Nat → Prop} {m : Nat → A} {i : Nat} : All P (peek m i) ↔ P i := List.forall_mem_singleton

end Traced

end ChrisOS.Lib
