import Mathlib

/-! Circular buffers with a write index and a read index.

Equal indices mean empty, so a buffer of n slots holds at most n - 1 elements;
the n-th unread push makes it look empty again.
-/

set_option autoImplicit false

namespace ChrisOS.Lib

structure Ring (n : Nat) (A : Type) where
  buf : Fin n → A
  head : Fin n
  tail : Fin n

namespace Ring
variable {n : Nat} [NeZero n] {A : Type}

def push (r : Ring n A) (a : A) : Ring n A := ⟨Function.update r.buf r.head a, r.head + 1, r.tail⟩

def pushAll (r : Ring n A) (l : List A) : Ring n A := l.foldl push r

def pop (r : Ring n A) : Ring n A := { r with tail := r.tail + 1 }

/-- Pop at most k elements, stopping when the indices meet. -/
def takeUpTo : Nat → Ring n A → List A × Ring n A
  | 0, r => ([], r)
  | k + 1, r => if r.head = r.tail then ([], r) else (r.buf r.tail :: (takeUpTo k r.pop).1, (takeUpTo k r.pop).2)

/-- Number of unread elements, as the indices show it. -/
def count (r : Ring n A) : Nat := (r.head - r.tail).val

/-- The unread elements, oldest first. -/
def contents (r : Ring n A) : List A := (List.range r.count).map fun j => r.buf (r.tail + Fin.ofNat n j)

@[simp] theorem pushAll_nil (r : Ring n A) : r.pushAll [] = r := rfl

theorem pushAll_cons (r : Ring n A) (a : A) (l : List A) : r.pushAll (a :: l) = (r.push a).pushAll l := rfl

theorem pushAll_append (r : Ring n A) (l m : List A) : r.pushAll (l ++ m) = (r.pushAll l).pushAll m :=
  List.foldl_append

theorem length_contents (r : Ring n A) : r.contents.length = r.count := by simp [contents]

omit [NeZero n] in
theorem count_lt (r : Ring n A) : r.count < n := (r.head - r.tail).isLt

theorem ofNat_add (a b : Nat) : Fin.ofNat n (a + b) = Fin.ofNat n a + Fin.ofNat n b := by
  apply Fin.ext
  simp [Fin.val_add]

theorem ofNat_injOn {a b : Nat} (left : a < n) (right : b < n) (same : Fin.ofNat n a = Fin.ofNat n b) : a = b := by
  have := congrArg Fin.val same
  simpa [Nat.mod_eq_of_lt left, Nat.mod_eq_of_lt right] using this

theorem tail_add_count (r : Ring n A) : r.tail + Fin.ofNat n r.count = r.head := by
  have : Fin.ofNat n r.count = r.head - r.tail := by
    apply Fin.ext
    simp only [Fin.val_ofNat]
    exact Nat.mod_eq_of_lt r.count_lt
  rw [this, add_sub_cancel]

/-- The write index moves on by the number of pushes. -/
theorem head_pushAll (r : Ring n A) (l : List A) : (r.pushAll l).head = r.head + Fin.ofNat n l.length := by
  induction l generalizing r with
  | nil => simp
  | cons a l ih =>
    rw [pushAll_cons, ih, List.length_cons, Nat.add_comm, ofNat_add, ← add_assoc]
    rfl

theorem tail_pushAll (r : Ring n A) (l : List A) : (r.pushAll l).tail = r.tail := by
  induction l generalizing r with
  | nil => rfl
  | cons a l ih => rw [pushAll_cons, ih]; rfl

theorem count_pushAll (r : Ring n A) (l : List A) : (r.pushAll l).count = (r.count + l.length) % n := by
  rw [count, head_pushAll, tail_pushAll, add_sub_right_comm, Fin.val_add]
  simp [count]

theorem contents_push (r : Ring n A) (a : A) (room : r.count + 1 < n) : (r.push a).contents = r.contents ++ [a] := by
  have more : (r.push a).count = r.count + 1 := by
    have := count_pushAll r [a]
    rwa [List.length_singleton, Nat.mod_eq_of_lt room] at this
  rw [contents, more, List.range_succ, List.map_append, List.map_singleton]
  congr 1
  · apply List.map_congr_left
    intro j member
    -- an unread slot is not the one being written
    refine Function.update_of_ne (fun here => ?_) _ _
    have below := List.mem_range.mp member
    have here : r.tail + Fin.ofNat n j = r.tail + Fin.ofNat n r.count := here.trans r.tail_add_count.symm
    have := ofNat_injOn (by omega) (by omega) (add_left_cancel here)
    omega
  · have : (r.push a).tail + Fin.ofNat n r.count = r.head := r.tail_add_count
    rw [this]
    exact congrArg (fun b => [b]) (Function.update_self _ _ _)

/-- Pushes that leave a slot empty append to what is unread. -/
theorem contents_pushAll (r : Ring n A) (l : List A) (room : r.count + l.length < n) :
    (r.pushAll l).contents = r.contents ++ l := by
  induction l generalizing r with
  | nil => simp
  | cons a l ih =>
    rw [List.length_cons] at room
    have pushed := contents_push r a (by omega)
    have more : (r.push a).count = r.count + 1 := by
      rw [← length_contents, pushed, List.length_append, length_contents, List.length_singleton]
    rw [pushAll_cons, ih (r.push a) (by omega), pushed, List.append_assoc, List.singleton_append]

theorem contents_eq_nil {r : Ring n A} (empty : r.head = r.tail) : r.contents = [] := by
  rw [contents, count, empty, sub_self]
  rfl

theorem contents_eq_cons {r : Ring n A} (more : r.head ≠ r.tail) : r.contents = r.buf r.tail :: r.pop.contents := by
  have positive : 0 < r.count := by
    rw [count, Nat.pos_iff_ne_zero]
    intro zero
    exact more (sub_eq_zero.mp (Fin.ext zero))
  obtain ⟨k, unread⟩ : ∃ k, r.count = k + 1 := ⟨r.count - 1, by omega⟩
  have bound := r.count_lt
  have rest : r.pop.count = k := by
    have shift : r.head - (r.tail + 1) = Fin.ofNat n k := by
      rw [sub_add_eq_sub_sub, sub_eq_iff_eq_add]
      apply Fin.ext
      have : (r.head - r.tail).val = k + 1 := unread
      rw [this, Fin.val_add, Fin.val_ofNat, Fin.val_one', Nat.mod_add_mod, Nat.add_mod_mod,
        Nat.mod_eq_of_lt (by omega)]
    have : r.pop.count = (Fin.ofNat n k).val := congrArg Fin.val shift
    rw [this, Fin.val_ofNat, Nat.mod_eq_of_lt (by omega)]
  rw [contents, unread, List.range_succ_eq_map, List.map_cons, List.map_map, contents, rest]
  congr 1
  · simp
  · apply List.map_congr_left
    intro j _
    have : r.tail + Fin.ofNat n (j + 1) = r.tail + 1 + Fin.ofNat n j := by
      rw [Nat.add_comm, ofNat_add, ← add_assoc]
      rfl
    exact congrArg r.buf this

/-- The pop loop returns the oldest unread elements and leaves the others. -/
theorem takeUpTo_eq (k : Nat) (r : Ring n A) :
    (takeUpTo k r).1 = r.contents.take k ∧ (takeUpTo k r).2.contents = r.contents.drop k := by
  induction k generalizing r with
  | zero => exact ⟨rfl, rfl⟩
  | succ k ih =>
    rw [takeUpTo]
    by_cases empty : r.head = r.tail
    · rw [if_pos empty, contents_eq_nil empty]
      exact ⟨rfl, List.drop_nil.symm⟩
    · rw [if_neg empty, contents_eq_cons empty]
      obtain ⟨taken, left⟩ := ih r.pop
      refine ⟨?_, left⟩
      rw [List.take_succ_cons]
      exact congrArg _ taken

/-! ### What overflowing pushes leave in the slots -/

/-- All slots, from the write index on. -/
def fromHead (r : Ring n A) : List A := List.ofFn fun j : Fin n => r.buf (r.head + j)

theorem buf_pushAll (r : Ring n A) (l : List A) (fits : l.length ≤ n) (i : Fin n) :
    (r.pushAll l).buf i = l.getD (i - r.head).val (r.buf i) := by
  induction l using List.reverseRecOn with
  | nil => simp
  | append_singleton l a ih =>
    rw [List.length_append, List.length_singleton] at fits
    have last : (r.pushAll (l ++ [a])).buf i =
        if i = r.head + Fin.ofNat n l.length then a else (r.pushAll l).buf i := by
      rw [pushAll_append, ← head_pushAll]
      exact Function.update_apply (r.pushAll l).buf _ a i
    rw [last, ih (by omega)]
    by_cases here : i = r.head + Fin.ofNat n l.length
    · have offset : (i - r.head).val = l.length := by
        rw [here, add_sub_cancel_left, Fin.val_ofNat, Nat.mod_eq_of_lt (by omega)]
      rw [if_pos here, offset]
      simp
    · have offset : (i - r.head).val ≠ l.length := by
        intro same
        refine here ?_
        rw [← same, Fin.ofNat_val_eq_self, add_sub_cancel]
      rw [if_neg here]
      rcases Nat.lt_or_gt_of_ne offset with less | more
      · simp [List.getD_eq_getElem?_getD, List.getElem?_append_left less]
      · rw [List.getD_eq_default _ _ (Nat.le_of_lt more), List.getD_eq_default]
        rw [List.length_append, List.length_singleton]
        omega

/-- Pushes that change nothing go around the buffer a whole number of times and end on its own slots. -/
theorem pushAll_eq_self_iff (r : Ring n A) (l : List A) :
    r.pushAll l = r ↔ l.length % n = 0 ∧ (l = [] ∨ r.fromHead <:+ l) := by
  have around : (r.pushAll l).head = r.head ↔ l.length % n = 0 := by
    rw [head_pushAll, add_eq_left, Fin.ext_iff, Fin.val_ofNat, Fin.val_zero]
  -- the last n pushes decide every slot
  have tail_of (before after : List A) (long : after.length = n) (whole : (before ++ after).length % n = 0) :
      (r.pushAll (before ++ after)).buf = r.buf ↔ r.fromHead = after := by
    have whole' : before.length % n = 0 := by simpa [List.length_append, long] using whole
    have start : (r.pushAll before).head = r.head := by
      rw [head_pushAll, add_eq_left]
      exact Fin.ext (by simpa using whole')
    have slot (i : Fin n) : (r.pushAll (before ++ after)).buf i = after[(i - r.head).val] := by
      rw [pushAll_append, buf_pushAll _ _ (Nat.le_of_eq long), start, List.getD_eq_getElem _ _ (by rw [long]; exact Fin.isLt _)]
    constructor
    · intro same
      refine List.ext_getElem (by simp [fromHead, long]) fun j left right => ?_
      have bound : j < n := by rw [← long]; exact right
      have := slot (r.head + ⟨j, bound⟩)
      rw [same] at this
      simp only [fromHead, List.getElem_ofFn, this, add_sub_cancel_left]
    · rintro rfl
      funext i
      rw [slot]
      simp [fromHead]
  constructor
  · intro same
    have whole := around.mp (congrArg Ring.head same)
    refine ⟨whole, ?_⟩
    by_cases none_pushed : l = []
    · exact .inl none_pushed
    · have long : n ≤ l.length := by
        by_contra short
        have : l.length % n = l.length := Nat.mod_eq_of_lt (Nat.lt_of_not_le short)
        have := List.length_pos_iff.mpr none_pushed
        omega
      have split := List.take_append_drop (l.length - n) l
      rw [← split] at same whole
      have same := (tail_of _ _ (by rw [List.length_drop]; omega) whole).mp (congrArg Ring.buf same)
      exact .inr ⟨_, by rw [same]; exact split⟩
  · rintro ⟨whole, rfl | ⟨before, rfl⟩⟩
    · rfl
    · have same := (tail_of before r.fromHead (by simp [fromHead]) whole).mpr rfl
      have index := around.mpr whole
      have other := tail_pushAll r (before ++ r.fromHead)
      cases pushed : r.pushAll (before ++ r.fromHead)
      rw [pushed] at same index other
      cases r
      simp_all

end Ring

end ChrisOS.Lib
