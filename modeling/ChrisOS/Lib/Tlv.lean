import Mathlib.Data.List.Infix
import Mathlib.Data.List.GetD

/-! Prefix codes and what a byte field starts with, and tag-length-value options as
such a code.

A field need not be a sequence of codewords: it starts with a longest one, which is
unique, and what follows it is anything.
-/

set_option autoImplicit false

namespace ChrisOS.Lib

section Codes
variable {X B : Type} {encode : X → List B}

/-- No codeword is empty, and a list starts with at most one codeword. -/
structure PrefixCode (encode : X → List B) : Prop where
  nonempty : ∀ x, encode x ≠ []
  unique : ∀ {x y field}, encode x <+: field → encode y <+: field → x = y

/-- The longest sequence of codewords that a field starts with. -/
structure Longest (encode : X → List B) (xs : List X) (field : List B) : Prop where
  inside : xs.flatMap encode <+: field
  longest : ∀ ys : List X, ys.flatMap encode <+: field → (ys.flatMap encode).length ≤ (xs.flatMap encode).length

/-- Of two sequences that a field starts with, the shorter one is a prefix of the other. -/
theorem PrefixCode.prefix_of_length_le (code : PrefixCode encode) {xs ys : List X} {field : List B}
    (left : xs.flatMap encode <+: field) (right : ys.flatMap encode <+: field)
    (shorter : (ys.flatMap encode).length ≤ (xs.flatMap encode).length) : ys <+: xs := by
  induction ys generalizing xs field with
  | nil => exact List.nil_prefix
  | cons y ys ih =>
    rw [List.flatMap_cons] at right shorter
    cases xs with
    | nil =>
      have empty : encode y = [] := by
        apply List.eq_nil_of_length_eq_zero
        simp only [List.flatMap_nil, List.length_append, List.length_nil] at shorter
        omega
      exact absurd empty (code.nonempty y)
    | cons x xs =>
      rw [List.flatMap_cons] at left shorter
      have same : x = y := code.unique ((List.prefix_append _ _).trans left) ((List.prefix_append _ _).trans right)
      subst same
      obtain ⟨rest, rfl⟩ := left
      rw [List.append_assoc, List.prefix_append_right_inj] at right
      rw [List.length_append, List.length_append] at shorter
      exact List.cons_prefix_cons.mpr ⟨rfl, ih (List.prefix_append _ _) right (by omega)⟩

theorem Longest.covers (code : PrefixCode encode) {xs ys : List X} {field : List B} (longest : Longest encode xs field)
    (inside : ys.flatMap encode <+: field) : ys <+: xs :=
  code.prefix_of_length_le longest.inside inside (longest.longest ys inside)

theorem Longest.unique (code : PrefixCode encode) {xs ys : List X} {field : List B} (left : Longest encode xs field)
    (right : Longest encode ys field) : xs = ys :=
  (right.covers code left.inside).eq_of_length_le (left.covers code right.inside).length_le

/-- A field that starts with no codeword. -/
theorem Longest.nil {field : List B} (stuck : ∀ x, ¬ encode x <+: field) : Longest encode [] field where
  inside := List.nil_prefix
  longest ys inside := by
    cases ys with
    | nil => exact Nat.le_refl _
    | cons y ys =>
      rw [List.flatMap_cons] at inside
      exact absurd ((List.prefix_append _ _).trans inside) (stuck y)

theorem Longest.cons (code : PrefixCode encode) {x : X} {xs : List X} {rest : List B}
    (longest : Longest encode xs rest) : Longest encode (x :: xs) (encode x ++ rest) where
  inside := by
    rw [List.flatMap_cons, List.prefix_append_right_inj]
    exact longest.inside
  longest ys inside := by
    cases ys with
    | nil => exact Nat.zero_le _
    | cons y ys =>
      rw [List.flatMap_cons] at inside
      have same : x = y := code.unique (List.prefix_append _ _) ((List.prefix_append _ _).trans inside)
      subst same
      rw [List.prefix_append_right_inj] at inside
      have shorter := longest.longest ys inside
      rw [List.flatMap_cons, List.flatMap_cons, List.length_append, List.length_append]
      omega

theorem Longest.append (code : PrefixCode encode) (xs : List X) {ys : List X} {rest : List B}
    (longest : Longest encode ys rest) : Longest encode (xs ++ ys) (xs.flatMap encode ++ rest) := by
  induction xs with
  | nil => exact longest
  | cons x xs ih =>
    rw [List.cons_append, List.flatMap_cons, List.append_assoc]
    exact ih.cons code

end Codes

/-! ### Tag-length-value options -/

namespace Tlv

/-- A pad byte, or an option with its tag, length byte and value. -/
inductive Item (pad stop : UInt8) where
  | pad
  | option (tag : UInt8) (value : List UInt8) (proper : tag ≠ stop ∧ tag ≠ pad) (short : value.length < 256)

variable {pad stop : UInt8}

def Item.encode : Item pad stop → List UInt8
  | .pad => [pad]
  | .option tag value _ _ => tag :: UInt8.ofNat value.length :: value

def Item.tag? : Item pad stop → Option UInt8
  | .pad => none
  | .option tag _ _ _ => some tag

/-- The value of an option that has the tag and one byte. -/
def Item.byteOf (tag : UInt8) : Item pad stop → Option UInt8
  | .option other [v] _ _ => if other = tag then some v else none
  | _ => none

theorem Item.byteOf_option {tag other : UInt8} {value : List UInt8} (proper : other ≠ stop ∧ other ≠ pad)
    (short : value.length < 256) : (Item.option other value proper short).byteOf tag =
      if other = tag ∧ value.length = 1 then value.head? else none := by
  match value with
  | [] => simp only [byteOf, List.length_nil, Nat.zero_ne_one, and_false, ↓reduceIte]
  | [v] => simp only [byteOf, List.length_singleton, and_true, List.head?_cons]
  | v :: w :: rest =>
    have long : ¬ (other = tag ∧ (v :: w :: rest).length = 1) := by
      simp only [List.length_cons]
      omega
    rw [if_neg long]
    rfl

theorem Item.byteOf_none {tag : UInt8} {item : Item pad stop} (other : item.tag? ≠ some tag) :
    item.byteOf tag = none := by
  cases item with
  | pad => rfl
  | option found value proper short =>
    have apart : ¬ (found = tag ∧ value.length = 1) := fun same => other (congrArg some same.1)
    rw [byteOf_option, if_neg apart]

/-- The last one-byte value that a sequence gives a tag. -/
def lastByte (tag default : UInt8) (items : List (Item pad stop)) : UInt8 :=
  (items.filterMap (Item.byteOf tag)).getLastD default

theorem lastByte_cons_some {tag default v : UInt8} {item : Item pad stop} (items : List (Item pad stop))
    (carries : item.byteOf tag = some v) : lastByte tag default (item :: items) = lastByte tag v items := by
  rw [lastByte, List.filterMap_cons_some carries, List.getLastD_cons]
  rfl

theorem lastByte_cons_none {tag default : UInt8} {item : Item pad stop} (items : List (Item pad stop))
    (other : item.byteOf tag = none) : lastByte tag default (item :: items) = lastByte tag default items := by
  rw [lastByte, List.filterMap_cons_none other]
  rfl

theorem lastByte_absent {tag default : UInt8} {items : List (Item pad stop)}
    (absent : ∀ item ∈ items, item.tag? ≠ some tag) : lastByte tag default items = default := by
  have none : items.filterMap (Item.byteOf tag) = [] :=
    List.filterMap_eq_nil_iff.mpr fun item member => Item.byteOf_none (absent item member)
  rw [lastByte, none]
  rfl

/-- A tag that occurs once, in an option of one byte. -/
theorem lastByte_once {tag default v : UInt8} {before after : List (Item pad stop)} {item : Item pad stop}
    (carries : item.byteOf tag = some v) (absentBefore : ∀ item ∈ before, item.tag? ≠ some tag)
    (absentAfter : ∀ item ∈ after, item.tag? ≠ some tag) :
    lastByte tag default (before ++ item :: after) = v := by
  induction before with
  | nil => rw [List.nil_append, lastByte_cons_some after carries, lastByte_absent absentAfter]
  | cons first before ih =>
    rw [List.forall_mem_cons] at absentBefore
    rw [List.cons_append, lastByte_cons_none _ (Item.byteOf_none absentBefore.1), ih absentBefore.2]

theorem Item.eq_of_prefix {x y : Item pad stop} {field : List UInt8} (left : x.encode <+: field)
    (right : y.encode <+: field) : x = y := by
  cases x with
  | pad =>
    cases y with
    | pad => rfl
    | option tag value proper short =>
      obtain ⟨rest, rfl⟩ := left
      exact absurd (List.cons_prefix_cons.mp right).1 proper.2
  | option tag value proper short =>
    obtain ⟨rest, rfl⟩ := left
    cases y with
    | pad => exact absurd (List.cons_prefix_cons.mp right).1.symm proper.2
    | option tag' value' proper' short' =>
      obtain ⟨sameTag, right⟩ := List.cons_prefix_cons.mp right
      obtain ⟨sameLen, right⟩ := List.cons_prefix_cons.mp right
      -- values of equal length that start one list
      have length : value'.length = value.length := by
        have := congrArg UInt8.toNat sameLen
        rwa [UInt8.toNat_ofNat', UInt8.toNat_ofNat', Nat.mod_eq_of_lt short', Nat.mod_eq_of_lt short] at this
      have sameValue : value' = value :=
        List.append_inj_left (List.prefix_iff_eq_append.mp right |>.trans rfl) length
      subst sameTag sameValue
      rfl

/-- What a field starts with whose first bytes are an item. -/
theorem Item.encode_prefix_cons {x : Item pad stop} {b : UInt8} {rest : List UInt8} (apart : pad ≠ stop)
    (inside : x.encode <+: b :: rest) :
    b ≠ stop ∧ (b = pad ∨ ∃ len value, rest = len :: value ∧ len.toNat ≤ value.length) := by
  cases x with
  | pad =>
    obtain ⟨same, -⟩ := List.cons_prefix_cons.mp inside
    exact ⟨same ▸ apart, .inl same.symm⟩
  | option tag value proper short =>
    obtain ⟨same, inside⟩ := List.cons_prefix_cons.mp inside
    obtain ⟨rest', rfl⟩ := inside
    refine ⟨same ▸ proper.1, .inr ⟨_, value ++ rest', rfl, ?_⟩⟩
    rw [UInt8.toNat_ofNat', Nat.mod_eq_of_lt short, List.length_append]
    omega

theorem prefixCode : PrefixCode (@Item.encode pad stop) where
  nonempty item := by cases item <;> exact List.cons_ne_nil _ _
  unique := Item.eq_of_prefix

/-! A sequence stops at the end of the field, at an end tag and at an option that is cut off. -/

theorem longest_empty : Longest (@Item.encode pad stop) [] [] :=
  .nil fun x inside => prefixCode.nonempty x (List.prefix_nil.mp inside)

theorem longest_stop (apart : pad ≠ stop) (rest : List UInt8) :
    Longest (@Item.encode pad stop) [] (stop :: rest) :=
  .nil fun _ inside => (Item.encode_prefix_cons apart inside).1 rfl

theorem longest_cut (apart : pad ≠ stop) {tag : UInt8} {rest : List UInt8} (proper : tag ≠ pad)
    (cut : ∀ len value, rest = len :: value → value.length < len.toNat) :
    Longest (@Item.encode pad stop) [] (tag :: rest) := by
  refine .nil fun x inside => ?_
  rcases (Item.encode_prefix_cons apart inside).2 with padded | ⟨len, value, more, fits⟩
  · exact proper padded
  · exact Nat.not_le.mpr (cut len value more) fits

end Tlv

end ChrisOS.Lib
