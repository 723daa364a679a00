import Mathlib.Data.List.Induction
import Mathlib.Logic.Function.Basic

/-! Caches of a fixed size: a store goes to the first slot that is free or has the key,
and to slot 0 if there is none.

Nothing is ever removed, so the slots in use are the first ones. That, and no key in two
slots, is the invariant.
-/

set_option autoImplicit false

namespace ChrisOS.Lib.Cache

variable {K V : Type} [DecidableEq K]

/-- The contents of the slots. -/
abbrev Slots (K V : Type) := Nat → Option (K × V)

def empty : Slots K V := fun _ => none

/-- The slot is free or has the key. -/
def takes (slot : Option (K × V)) (k : K) : Bool := slot.all (·.1 = k)

/-- The value of a slot with the key. -/
def answer (slot : Option (K × V)) (k : K) : Option V := slot.bind fun e => if e.1 = k then some e.2 else none

def slotFor (n : Nat) (c : Slots K V) (k : K) : Nat := ((List.range n).find? fun i => takes (c i) k).getD 0

def store (n : Nat) (c : Slots K V) (k : K) (v : V) : Slots K V := Function.update c (slotFor n c k) (some (k, v))

def find (n : Nat) (c : Slots K V) (k : K) : Option V := (List.range n).findSome? fun i => answer (c i) k

/-- The slots in use come first, and no two of them have one key. -/
structure Sound (n : Nat) (c : Slots K V) : Prop where
  packed : ∀ i j, i < j → j < n → c i = none → c j = none
  distinct : ∀ i j e e', i < n → j < n → c i = some e → c j = some e' → e.1 = e'.1 → i = j

/-- All slots are in use. -/
def Full (n : Nat) (c : Slots K V) : Prop := ∀ i, i < n → c i ≠ none

/-- No slot has the key. -/
def Absent (n : Nat) (c : Slots K V) (k : K) : Prop := ∀ i, i < n → ∀ v, c i ≠ some (k, v)

omit [DecidableEq K] in
theorem sound_empty (n : Nat) : Sound n (empty : Slots K V) :=
  ⟨fun _ _ _ _ _ => rfl, fun _ _ _ _ _ _ is => nomatch is⟩

theorem takes_iff {slot : Option (K × V)} {k : K} : takes slot k = true ↔ ∀ e, slot = some e → e.1 = k := by
  cases slot with
  | none => simp [takes]
  | some e => simp [takes]

theorem takes_eq_false_iff {slot : Option (K × V)} {k : K} :
    takes slot k = false ↔ ∃ e, slot = some e ∧ e.1 ≠ k := by
  cases slot with
  | none => simp [takes]
  | some e => simp [takes]

theorem answer_eq_some_iff {slot : Option (K × V)} {k : K} {v : V} : answer slot k = some v ↔ slot = some (k, v) := by
  cases slot with
  | none => simp [answer]
  | some e =>
    obtain ⟨k', v'⟩ := e
    simp [answer]

/-! ### Lookup -/

section
variable {n : Nat} {c : Slots K V} {k : K}

theorem find_eq_none_iff : find n c k = none ↔ Absent n c k := by
  simp only [find, List.findSome?_eq_none_iff, List.mem_range, Absent]
  constructor
  · intro none_found i inside v is
    rw [← answer_eq_some_iff, none_found i inside] at is
    cases is
  · intro absent i inside
    cases found : answer (c i) k with
    | none => rfl
    | some v => exact absurd (answer_eq_some_iff.mp found) (absent i inside v)

theorem find_slot {v : V} (found : find n c k = some v) : ∃ i, i < n ∧ c i = some (k, v) := by
  obtain ⟨i, member, answers⟩ := List.exists_of_findSome?_eq_some found
  exact ⟨i, List.mem_range.mp member, answer_eq_some_iff.mp answers⟩

/-- With no key in two slots, lookup finds what any slot has. -/
theorem Sound.find_iff (sound : Sound n c) {v : V} : find n c k = some v ↔ ∃ i, i < n ∧ c i = some (k, v) := by
  refine ⟨find_slot, ?_⟩
  rintro ⟨i, inside, is⟩
  cases found : find n c k with
  | none => exact absurd is (find_eq_none_iff.mp found i inside v)
  | some w =>
    obtain ⟨j, inside', is'⟩ := find_slot found
    have same := sound.distinct j i _ _ inside' inside is' is rfl
    rw [same, is] at is'
    exact congrArg (fun e => e.map Prod.snd) is'.symm

/-! ### The slot of a store -/

/-- A slot that is not taken is no free slot, and does not have the key. -/
theorem ne_none_of_passed {i : Nat} (passed : takes (c i) k = false) : c i ≠ none ∧ ∀ v, c i ≠ some (k, v) := by
  obtain ⟨e, is, other⟩ := takes_eq_false_iff.mp passed
  rw [is]
  refine ⟨Option.some_ne_none e, ?_⟩
  rintro v same
  cases same
  exact other rfl

/-- The slot that a store takes: the one that has the key, else the first free one, else slot 0. -/
theorem Sound.slotFor_cases (sound : Sound n c) (k : K) (positive : 0 < n) : slotFor n c k < n ∧
    ((∃ v, c (slotFor n c k) = some (k, v)) ∨
      (Absent n c k ∧ c (slotFor n c k) = none ∧ ∀ i, i < slotFor n c k → c i ≠ none) ∨
      (Absent n c k ∧ Full n c ∧ slotFor n c k = 0)) := by
  unfold slotFor
  cases hit : (List.range n).find? fun i => takes (c i) k with
  | none =>
    have passed {i : Nat} (inside : i < n) : takes (c i) k = false := by
      have no := List.find?_eq_none.mp hit i (List.mem_range.mpr inside)
      rwa [Bool.not_eq_true] at no
    exact ⟨positive, .inr (.inr ⟨fun i inside => (ne_none_of_passed (passed inside)).2,
      fun i inside => (ne_none_of_passed (passed inside)).1, rfl⟩)⟩
  | some i =>
    obtain ⟨takes_i, inside, earlier⟩ := List.find?_range_eq_some.mp hit
    have passed {j : Nat} (less : j < i) : takes (c j) k = false := by
      have no := earlier j less
      rwa [Bool.not_eq_true'] at no
    refine ⟨List.mem_range.mp inside, ?_⟩
    rw [Option.getD_some]
    cases is : c i with
    | some e => exact .inl ⟨e.2, by rw [← takes_iff.mp takes_i e is]⟩
    | none =>
      refine .inr (.inl ⟨fun j inside' v => ?_, rfl, fun j less => (ne_none_of_passed (passed less)).1⟩)
      rcases Nat.lt_trichotomy j i with less | same | more
      · exact (ne_none_of_passed (passed less)).2 v
      · rw [same, is]
        exact (Option.some_ne_none _).symm
      · rw [sound.packed i j more inside' is]
        exact (Option.some_ne_none _).symm

/-! ### Stores -/

theorem store_self (n : Nat) (c : Slots K V) (k : K) (v : V) : store n c k v (slotFor n c k) = some (k, v) :=
  Function.update_self _ _ _

theorem store_other (v : V) {i : Nat} (other : i ≠ slotFor n c k) : store n c k v i = c i :=
  Function.update_of_ne other _ _

/-- No slot but the one that is written has the key. -/
theorem Sound.elsewhere (sound : Sound n c) (positive : 0 < n) {i : Nat} {w : V} (inside : i < n)
    (other : i ≠ slotFor n c k) : c i ≠ some (k, w) := by
  intro is
  obtain ⟨inside', ⟨v, same⟩ | ⟨absent, -⟩ | ⟨absent, -⟩⟩ := sound.slotFor_cases k positive
  · exact other (sound.distinct i _ _ _ inside inside' is same rfl)
  · exact absent i inside w is
  · exact absent i inside w is

theorem Sound.store (sound : Sound n c) (positive : 0 < n) (k : K) (v : V) : Sound n (store n c k v) := by
  obtain ⟨inside, cases⟩ := sound.slotFor_cases k positive
  constructor
  · intro i j less inside' free
    by_cases here : i = slotFor n c k
    · rw [here, store_self] at free
      cases free
    · rw [store_other v here] at free
      have later := sound.packed i j less inside' free
      have there : j ≠ slotFor n c k := by
        rintro rfl
        rcases cases with ⟨w, is⟩ | ⟨-, -, before⟩ | ⟨-, full, -⟩
        · rw [later] at is
          cases is
        · exact before i less free
        · exact full _ inside' later
      rw [store_other v there]
      exact later
  · intro i j e e' inside_i inside_j is is' same
    by_cases here : i = slotFor n c k
    · by_cases there : j = slotFor n c k
      · exact here.trans there.symm
      · subst here
        rw [store_self] at is
        rw [store_other v there] at is'
        cases is
        have key : e' = (k, e'.2) := Prod.ext same.symm rfl
        rw [key] at is'
        exact absurd is' (sound.elsewhere positive inside_j there)
    · rw [store_other v here] at is
      by_cases there : j = slotFor n c k
      · subst there
        rw [store_self] at is'
        cases is'
        have key : e = (k, e.2) := Prod.ext same rfl
        rw [key] at is
        exact absurd is (sound.elsewhere positive inside_i here)
      · rw [store_other v there] at is'
        exact sound.distinct i j e e' inside_i inside_j is is' same

/-- A lookup right after a store hits. -/
theorem Sound.find_store_self (sound : Sound n c) (positive : 0 < n) (k : K) (v : V) :
    find n (Cache.store n c k v) k = some v := by
  rw [(sound.store positive k v).find_iff]
  exact ⟨slotFor n c k, (sound.slotFor_cases k positive).1, store_self n c k v⟩

/-- What a store of another key does to a lookup: nothing, unless its entry was in slot 0 and had to go. -/
theorem Sound.find_store_other (sound : Sound n c) (positive : 0 < n) {k other : K} (v : V) (different : other ≠ k) :
    find n (Cache.store n c k v) other = find n c other ∨
      find n (Cache.store n c k v) other = none ∧ Full n c ∧ Absent n c k ∧ ∃ w, c 0 = some (other, w) := by
  have sound' := sound.store positive k v
  obtain ⟨inside, cases⟩ := sound.slotFor_cases k positive
  cases found : find n (Cache.store n c k v) other with
  | some w =>
    refine .inl (Eq.symm ?_)
    obtain ⟨i, inside_i, is⟩ := find_slot found
    have there : i ≠ slotFor n c k := by
      rintro rfl
      rw [store_self] at is
      cases is
      exact different rfl
    rw [store_other v there] at is
    exact sound.find_iff.mpr ⟨i, inside_i, is⟩
  | none =>
    cases before : find n c other with
    | none => exact .inl rfl
    | some w =>
      -- the entry was in the slot that is written
      obtain ⟨i, inside_i, is⟩ := find_slot before
      have here : i = slotFor n c k := by
        by_contra there
        refine find_eq_none_iff.mp found i inside_i w ?_
        rw [store_other v there]
        exact is
      subst here
      rcases cases with ⟨u, same⟩ | ⟨-, free, -⟩ | ⟨absent, full, first⟩
      · rw [is] at same
        cases same
        exact absurd rfl different
      · rw [is] at free
        cases free
      · rw [first] at is
        exact .inr ⟨rfl, full, absent, w, is⟩

end

/-! ### Histories -/

def storeAll (n : Nat) (history : List (K × V)) : Slots K V := history.foldl (fun c e => store n c e.1 e.2) empty

/-- The value of the last store of a key. -/
def lastStore (history : List (K × V)) (k : K) : Option V :=
  history.foldl (fun last e => if e.1 = k then some e.2 else last) none

theorem storeAll_concat (n : Nat) (history : List (K × V)) (k : K) (v : V) :
    storeAll n (history ++ [(k, v)]) = store n (storeAll n history) k v := List.foldl_append

theorem lastStore_concat (history : List (K × V)) (key k : K) (v : V) :
    lastStore (history ++ [(key, v)]) k = if key = k then some v else lastStore history k := List.foldl_append

theorem sound_storeAll {n : Nat} (positive : 0 < n) (history : List (K × V)) : Sound n (storeAll n history) := by
  induction history using List.reverseRecOn with
  | nil => exact sound_empty n
  | append_singleton history e ih =>
    rw [storeAll_concat]
    exact ih.store positive e.1 e.2

/-- After any stores a lookup misses or finds what was stored last. -/
theorem find_storeAll {n : Nat} (positive : 0 < n) (history : List (K × V)) (k : K) :
    find n (storeAll n history) k = none ∨ find n (storeAll n history) k = lastStore history k := by
  induction history using List.reverseRecOn with
  | nil => exact .inl (find_eq_none_iff.mpr fun _ _ _ is => nomatch is)
  | append_singleton history e ih =>
    obtain ⟨key, v⟩ := e
    have sound := sound_storeAll positive history
    rw [storeAll_concat, lastStore_concat]
    by_cases same : key = k
    · subst same
      rw [if_pos rfl]
      exact .inr (sound.find_store_self positive key v)
    · rw [if_neg same]
      rcases sound.find_store_other positive v (Ne.symm same) with kept | ⟨gone, -⟩
      · rw [kept]
        exact ih
      · exact .inl gone

end ChrisOS.Lib.Cache
