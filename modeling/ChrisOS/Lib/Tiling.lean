import Mathlib.Data.List.Chain
import Mathlib.Data.List.TakeWhile
import Mathlib.Tactic.Common

/-! Tilings of an address range by headed cells, as a first-fit allocator keeps them.

A cell is a header followed by its payload. Positions are not stored: they are
the running sums of the extents. The header length is a parameter.
-/

set_option autoImplicit false

namespace ChrisOS.Lib.Tiling

structure Cell where
  size : Nat
  free : Bool
  deriving DecidableEq, Repr

variable (hdr : Nat)

/-- Total length of a tiling, headers included. -/
def span : List Cell → Nat
  | [] => 0
  | c :: cs => hdr + c.size + span cs

/-- The cells with the addresses they start at. -/
def placed : Nat → List Cell → List (Nat × Cell)
  | _, [] => []
  | a, c :: cs => (a, c) :: placed (a + (hdr + c.size)) cs

/-- A used cell of the given size starts at the given address. -/
def Live (a : Nat) (cs : List Cell) (p n : Nat) : Prop := (p, Cell.mk n false) ∈ placed hdr a cs

/-- No two neighbours are both free. -/
def Settled (cs : List Cell) : Prop := cs.IsChain (fun c d => ¬(c.free = true ∧ d.free = true))

def liveBytes : List Cell → Nat
  | [] => 0
  | c :: cs => (if c.free then 0 else hdr + c.size) + liveBytes cs

def freeBytes : List Cell → Nat
  | [] => 0
  | c :: cs => (if c.free then c.size else 0) + freeBytes cs

def freeCount : List Cell → Nat
  | [] => 0
  | c :: cs => (if c.free then 1 else 0) + freeCount cs

theorem bytes_span (cs : List Cell) :
    liveBytes hdr cs + freeBytes cs + hdr * freeCount cs = span hdr cs := by
  induction cs with
  | nil => rfl
  | cons c cs ih =>
    simp only [liveBytes, freeBytes, freeCount, span, Nat.mul_add]
    cases c.free <;> simp <;> omega

theorem placed_bounds {a : Nat} {cs : List Cell} {p : Nat} {c : Cell} (at_ : (p, c) ∈ placed hdr a cs) :
    a ≤ p ∧ p + (hdr + c.size) ≤ a + span hdr cs := by
  induction cs generalizing a with
  | nil => simp [placed] at at_
  | cons d ds ih =>
    simp only [placed, List.mem_cons, Prod.mk.injEq] at at_
    simp only [span]
    rcases at_ with ⟨rfl, rfl⟩ | later
    · omega
    · have := ih later
      omega

/-- Two cells of one tiling are the same cell or lie apart. -/
theorem placed_apart {a : Nat} {cs : List Cell} {p q : Nat} {c d : Cell}
    (left : (p, c) ∈ placed hdr a cs) (right : (q, d) ∈ placed hdr a cs) :
    (p = q ∧ c = d) ∨ p + (hdr + c.size) ≤ q ∨ q + (hdr + d.size) ≤ p := by
  induction cs generalizing a with
  | nil => simp [placed] at left
  | cons e es ih =>
    simp only [placed, List.mem_cons, Prod.mk.injEq] at left right
    rcases left with ⟨rfl, rfl⟩ | left <;> rcases right with ⟨rfl, rfl⟩ | right
    · exact .inl ⟨rfl, rfl⟩
    · exact .inr (.inl (placed_bounds hdr right).1)
    · exact .inr (.inr (placed_bounds hdr left).1)
    · exact ih left right

@[simp] theorem placed_cells (a : Nat) (cs : List Cell) : (placed hdr a cs).map Prod.snd = cs := by
  induction cs generalizing a with
  | nil => rfl
  | cons c cs ih => rw [placed, List.map_cons, ih]

theorem placed_append (a : Nat) (cs ds : List Cell) :
    placed hdr a (cs ++ ds) = placed hdr a cs ++ placed hdr (a + span hdr cs) ds := by
  induction cs generalizing a with
  | nil => simp [placed, span]
  | cons c cs ih => simp [placed, span, ih, Nat.add_assoc]

theorem span_append (cs ds : List Cell) : span hdr (cs ++ ds) = span hdr cs + span hdr ds := by
  induction cs with
  | nil => simp [span]
  | cons c cs ih => simp [span, ih, Nat.add_assoc]

/-- A placed cell splits the tiling at its position. -/
theorem placed_split {a : Nat} {cs : List Cell} {p : Nat} {c : Cell} (at_ : (p, c) ∈ placed hdr a cs) :
    ∃ before after, cs = before ++ c :: after ∧ p = a + span hdr before := by
  induction cs generalizing a with
  | nil => simp [placed] at at_
  | cons d ds ih =>
    simp only [placed, List.mem_cons, Prod.mk.injEq] at at_
    rcases at_ with ⟨rfl, rfl⟩ | later
    · exact ⟨[], ds, rfl, by simp [span]⟩
    · obtain ⟨before, after, rfl, same⟩ := ih later
      exact ⟨d :: before, after, rfl, by simp only [span]; omega⟩

/-! ### Coalescing -/

/-- One forward pass from the current cell: absorb a free successor and stay, or advance. -/
def coalesceFrom : Cell → List Cell → List Cell
  | c, [] => [c]
  | c, d :: ds =>
    if c.free && d.free then coalesceFrom ⟨c.size + (hdr + d.size), true⟩ ds
    else c :: coalesceFrom d ds

def coalesce : List Cell → List Cell
  | [] => []
  | c :: cs => coalesceFrom hdr c cs

theorem coalesceFrom_live (c : Cell) (cs : List Cell) (a p n : Nat) :
    Live hdr a (coalesceFrom hdr c cs) p n ↔ Live hdr a (c :: cs) p n := by
  induction cs generalizing c a with
  | nil => rfl
  | cons d ds ih =>
    simp only [coalesceFrom]
    split
    · rename_i both
      obtain ⟨cfree, dfree⟩ := Bool.and_eq_true_iff.mp both
      rw [ih]
      simp only [Live, placed, List.mem_cons, Prod.mk.injEq]
      rw [show a + (hdr + (c.size + (hdr + d.size))) = a + (hdr + c.size) + (hdr + d.size) by omega]
      obtain ⟨csize, cfree'⟩ := c
      obtain ⟨dsize, dfree'⟩ := d
      simp only at cfree dfree
      simp [cfree, dfree]
    · simp only [Live, placed, List.mem_cons] at ih ⊢
      rw [ih]

theorem coalesce_live (cs : List Cell) (a p n : Nat) :
    Live hdr a (coalesce hdr cs) p n ↔ Live hdr a cs p n := by
  cases cs with
  | nil => rfl
  | cons c cs => exact coalesceFrom_live hdr c cs a p n

/-- Coalescing moves no cell: what is left lies where a cell lay before. -/
theorem coalesceFrom_placed {c d : Cell} {cs : List Cell} {a q : Nat}
    (at_ : (q, d) ∈ placed hdr a (coalesceFrom hdr c cs)) : ∃ e, (q, e) ∈ placed hdr a (c :: cs) := by
  induction cs generalizing c a with
  | nil => exact ⟨d, at_⟩
  | cons e es ih =>
    rw [coalesceFrom] at at_
    split at at_
    · obtain ⟨f, there⟩ := ih at_
      rw [placed, List.mem_cons, Prod.mk.injEq] at there
      rcases there with ⟨rfl, -⟩ | there
      · exact ⟨c, .head _⟩
      · have same : a + (hdr + (c.size + (hdr + e.size))) = a + (hdr + c.size) + (hdr + e.size) := by omega
        rw [same] at there
        exact ⟨f, .tail _ (.tail _ there)⟩
    · rw [placed, List.mem_cons, Prod.mk.injEq] at at_
      rcases at_ with ⟨rfl, -⟩ | at_
      · exact ⟨c, .head _⟩
      · obtain ⟨f, there⟩ := ih at_
        exact ⟨f, .tail _ there⟩

theorem coalesce_placed {d : Cell} {cs : List Cell} {a q : Nat} (at_ : (q, d) ∈ placed hdr a (coalesce hdr cs)) :
    ∃ e, (q, e) ∈ placed hdr a cs := by
  cases cs with
  | nil => exact ⟨d, at_⟩
  | cons c cs => exact coalesceFrom_placed hdr at_

/-- The pass starts with a cell of the same kind as the one it was given. -/
theorem coalesceFrom_head (c : Cell) (cs : List Cell) :
    ∃ size rest, coalesceFrom hdr c cs = ⟨size, c.free⟩ :: rest := by
  induction cs generalizing c with
  | nil => exact ⟨c.size, [], rfl⟩
  | cons d ds ih =>
    simp only [coalesceFrom]
    split
    · rename_i both
      have cfree := (Bool.and_eq_true_iff.mp both).1
      rw [cfree]
      exact ih ⟨c.size + (hdr + d.size), true⟩
    · exact ⟨c.size, _, rfl⟩

theorem coalesceFrom_settled (c : Cell) (cs : List Cell) : Settled (coalesceFrom hdr c cs) := by
  induction cs generalizing c with
  | nil => exact .singleton c
  | cons d ds ih =>
    simp only [coalesceFrom]
    split
    · exact ih _
    · rename_i apart
      obtain ⟨size, rest, head⟩ := coalesceFrom_head hdr d ds
      have tail := ih d
      rw [head] at tail ⊢
      refine .cons_cons ?_ tail
      simpa using apart

theorem coalesce_settled (cs : List Cell) : Settled (coalesce hdr cs) := by
  cases cs with
  | nil => exact .nil
  | cons c cs => exact coalesceFrom_settled hdr c cs

/-! ### First fit -/

/-- Take the first free cell that is large enough. Split it when the rest can
hold a header and `slack` bytes more. -/
def carve (slack n : Nat) : Nat → List Cell → Option (Nat × List Cell)
  | _, [] => none
  | a, c :: cs =>
    if c.free ∧ n ≤ c.size then
      some (a, if n + hdr + slack ≤ c.size then ⟨n, false⟩ :: ⟨c.size - n - hdr, true⟩ :: cs
        else ⟨c.size, false⟩ :: cs)
    else (carve slack n (a + (hdr + c.size)) cs).map fun r => (r.1, c :: r.2)

theorem carve_none_iff (slack n a : Nat) (cs : List Cell) :
    carve hdr slack n a cs = none ↔ ∀ c ∈ cs, c.free = true → c.size < n := by
  induction cs generalizing a with
  | nil => simp [carve]
  | cons c cs ih =>
    simp only [carve]
    split
    · rename_i fits
      simp only [reduceCtorEq, List.forall_mem_cons, false_iff, not_and]
      intro small
      have := small fits.1
      omega
    · rename_i misses
      simp only [Option.map_eq_none_iff, ih, List.forall_mem_cons]
      refine ⟨fun rest => ⟨fun isFree => ?_, rest⟩, fun all => all.2⟩
      exact Nat.lt_of_not_le fun bound => misses ⟨isFree, bound⟩

/-- What a successful allocation does: the chosen free cell is replaced in place. -/
theorem carve_split {slack n a p : Nat} {cs ds : List Cell} (taken : carve hdr slack n a cs = some (p, ds)) :
    ∃ before after size, cs = before ++ ⟨size, true⟩ :: after ∧ p = a + span hdr before ∧ n ≤ size ∧
      ds = before ++ (if n + hdr + slack ≤ size then [⟨n, false⟩, ⟨size - n - hdr, true⟩]
        else [⟨size, false⟩]) ++ after := by
  induction cs generalizing a ds with
  | nil => simp [carve] at taken
  | cons c cs ih =>
    simp only [carve] at taken
    split at taken
    · rename_i fits
      obtain ⟨csize, cfree⟩ := c
      simp only at fits
      simp only [Option.some.injEq, Prod.mk.injEq] at taken
      obtain ⟨rfl, rfl⟩ := taken
      refine ⟨[], cs, csize, by simp [fits.1], by simp [span], fits.2, ?_⟩
      split <;> rfl
    · obtain ⟨⟨q, es⟩, rest, same⟩ := Option.map_eq_some_iff.mp taken
      simp only [Prod.mk.injEq] at same
      obtain ⟨rfl, rfl⟩ := same
      obtain ⟨before, after, size, rfl, at_, fits, rfl⟩ := ih rest
      exact ⟨c :: before, after, size, rfl, by simp only [span]; omega, fits, rfl⟩

/-- The live cells afterwards are the old ones and the new one, at a fresh address. -/
theorem carve_live {slack n a p : Nat} {cs ds : List Cell} (taken : carve hdr slack n a cs = some (p, ds)) :
    ∃ m, n ≤ m ∧ (m = n ∨ m < n + hdr + slack) ∧ (∀ q k, Live hdr a ds q k ↔ (q = p ∧ k = m) ∨ Live hdr a cs q k) ∧
      (p, Cell.mk m false) ∈ placed hdr a ds ∧ ∃ size, (p, Cell.mk size true) ∈ placed hdr a cs := by
  obtain ⟨before, after, size, rfl, rfl, fits, rfl⟩ := carve_split hdr taken
  by_cases room : n + hdr + slack ≤ size
  · refine ⟨n, Nat.le_refl n, .inl rfl, fun q k => ?_, ?_, size, ?_⟩
    · simp only [Live, room, ↓reduceIte, List.append_assoc, List.cons_append, List.nil_append,
        placed_append, placed, List.mem_append, List.mem_cons, Prod.mk.injEq, Cell.mk.injEq]
      rw [show a + span hdr before + (hdr + n) + (hdr + (size - n - hdr)) =
        a + span hdr before + (hdr + size) by omega]
      simp only [and_true, Bool.false_eq_true, and_false, false_or]
      tauto
    · simp [room, placed_append, placed]
    · simp [placed_append, placed]
  · refine ⟨size, fits, .inr (by omega), fun q k => ?_, ?_, size, ?_⟩
    · simp only [Live, room, ↓reduceIte, List.append_assoc, List.cons_append, List.nil_append,
        placed_append, placed, List.mem_append, List.mem_cons, Prod.mk.injEq, Cell.mk.injEq]
      simp only [and_true, Bool.false_eq_true, and_false, false_or]
      tauto
    · simp [room, placed_append, placed]
    · simp [placed_append, placed]

theorem carve_settled {slack n a p : Nat} {cs ds : List Cell} (taken : carve hdr slack n a cs = some (p, ds))
    (settled : Settled cs) : Settled ds := by
  obtain ⟨before, after, size, rfl, -, -, rfl⟩ := carve_split hdr taken
  obtain ⟨left, right, joint⟩ := List.isChain_append.mp settled
  -- the cell that follows a free cell is in use
  have after_used : ∀ d ∈ after.head?, d.free = false := by
    cases after with
    | nil => simp
    | cons d ds => simpa [Settled] using (List.isChain_cons_cons.mp right).1
  have rest : Settled after := right.tail
  rw [List.append_assoc]
  refine List.isChain_append.mpr ⟨left, ?_, ?_⟩
  · split
    · refine .cons_cons (by simp) (List.isChain_cons.mpr ⟨fun d member => ?_, rest⟩)
      simp [after_used d member]
    · exact List.isChain_cons.mpr ⟨by simp, rest⟩
  · intro c _ d member
    split at member <;> simp at member <;> subst member <;> simp

/-- The cells before the first fit. -/
def passed (n : Nat) (cs : List Cell) : List Cell := cs.takeWhile fun c => ¬(c.free = true ∧ n ≤ c.size)

/-- First fit lands right behind the cells that it passed. -/
theorem carve_address {slack n a p : Nat} {cs ds : List Cell} (taken : carve hdr slack n a cs = some (p, ds)) :
    p = a + span hdr (passed n cs) := by
  induction cs generalizing a ds with
  | nil => simp [carve] at taken
  | cons c cs ih =>
    simp only [carve] at taken
    split at taken
    · rename_i fits
      obtain ⟨rfl, -⟩ := Prod.mk.inj (Option.some.inj taken)
      simp [passed, fits, span]
    · rename_i misses
      obtain ⟨⟨q, es⟩, rest, same⟩ := Option.map_eq_some_iff.mp taken
      obtain ⟨rfl, -⟩ := Prod.mk.inj same
      have later := ih rest
      have skipped : passed n (c :: cs) = c :: passed n cs := List.takeWhile_cons_of_pos (decide_eq_true misses)
      rw [skipped, span]
      omega

/-! ### Release -/

/-- Mark the cell at address `p` free. -/
def release (p : Nat) : Nat → List Cell → List Cell
  | _, [] => []
  | a, c :: cs => if a = p then ⟨c.size, true⟩ :: cs else c :: release p (a + (hdr + c.size)) cs

theorem release_split {p a : Nat} (before after : List Cell) (c : Cell) (positive : 0 < hdr)
    (at_ : p = a + span hdr before) :
    release hdr p a (before ++ c :: after) = before ++ ⟨c.size, true⟩ :: after := by
  induction before generalizing a with
  | nil => simp [release, at_, span]
  | cons b bs ih =>
    simp only [span] at at_
    simp only [List.cons_append, release, show ¬a = p by omega, ↓reduceIte]
    rw [ih (by omega)]

theorem release_placed {p a q : Nat} {d : Cell} {cs : List Cell} (at_ : (q, d) ∈ placed hdr a (release hdr p a cs)) :
    ∃ e, (q, e) ∈ placed hdr a cs := by
  induction cs generalizing a with
  | nil => exact ⟨d, at_⟩
  | cons c cs ih =>
    rw [release] at at_
    split at at_
    · rw [placed, List.mem_cons, Prod.mk.injEq] at at_
      rcases at_ with ⟨rfl, -⟩ | at_
      · exact ⟨c, .head _⟩
      · exact ⟨d, .tail _ at_⟩
    · rw [placed, List.mem_cons, Prod.mk.injEq] at at_
      rcases at_ with ⟨rfl, -⟩ | at_
      · exact ⟨c, .head _⟩
      · obtain ⟨e, there⟩ := ih at_
        exact ⟨e, .tail _ there⟩

theorem release_live (positive : 0 < hdr) (p a : Nat) (cs : List Cell) (q n : Nat) :
    Live hdr a (release hdr p a cs) q n ↔ Live hdr a cs q n ∧ q ≠ p := by
  induction cs generalizing a with
  | nil => simp [release, Live, placed]
  | cons c cs ih =>
    simp only [release]
    split
    · rename_i here
      subst here
      have apart : ∀ d, (q, d) ∈ placed hdr (a + (hdr + c.size)) cs → q ≠ a := fun d at_ same => by
        have := (placed_bounds hdr at_).1
        omega
      simp only [Live, placed, List.mem_cons, Prod.mk.injEq, Cell.mk.injEq, Bool.false_eq_true,
        and_false, false_or]
      constructor
      · exact fun at_ => ⟨.inr at_, apart _ at_⟩
      · rintro ⟨⟨same, -⟩ | at_, other⟩
        · exact absurd same other
        · exact at_
    · rename_i other
      simp only [Live] at ih
      simp only [Live, placed, List.mem_cons, Prod.mk.injEq, ih]
      constructor
      · rintro (⟨rfl, same⟩ | ⟨at_, apart⟩)
        · exact ⟨.inl ⟨rfl, same⟩, other⟩
        · exact ⟨.inr at_, apart⟩
      · rintro ⟨⟨rfl, same⟩ | at_, apart⟩
        · exact .inl ⟨rfl, same⟩
        · exact .inr ⟨at_, apart⟩

/-! ### Sizes in steps

Where headers and requests are multiples of `d`, all sizes are.
-/

theorem carve_dvd {d slack n a p : Nat} {cs ds : List Cell} (taken : carve hdr slack n a cs = some (p, ds))
    (header : d ∣ hdr) (request : d ∣ n) (sizes : ∀ c ∈ cs, d ∣ c.size) : ∀ c ∈ ds, d ∣ c.size := by
  obtain ⟨before, after, size, rfl, -, -, rfl⟩ := carve_split hdr taken
  simp only [List.forall_mem_append, List.forall_mem_cons] at sizes ⊢
  obtain ⟨first, old, last⟩ := sizes
  refine ⟨⟨first, ?_⟩, last⟩
  split
  · have rest : d ∣ size - n - hdr := Nat.dvd_sub (Nat.dvd_sub old request) header
    simpa using ⟨request, rest⟩
  · simpa using old

theorem coalesceFrom_dvd {d : Nat} (header : d ∣ hdr) {c : Cell} {cs : List Cell} (first : d ∣ c.size)
    (sizes : ∀ c ∈ cs, d ∣ c.size) : ∀ e ∈ coalesceFrom hdr c cs, d ∣ e.size := by
  induction cs generalizing c with
  | nil => simpa [coalesceFrom] using first
  | cons e es ih =>
    obtain ⟨second, rest⟩ := List.forall_mem_cons.mp sizes
    rw [coalesceFrom]
    split
    · exact ih (Nat.dvd_add first (Nat.dvd_add header second)) rest
    · exact List.forall_mem_cons.mpr ⟨first, ih second rest⟩

theorem coalesce_dvd {d : Nat} (header : d ∣ hdr) {cs : List Cell} (sizes : ∀ c ∈ cs, d ∣ c.size) :
    ∀ c ∈ coalesce hdr cs, d ∣ c.size := by
  cases cs with
  | nil => exact sizes
  | cons c cs =>
    obtain ⟨first, rest⟩ := List.forall_mem_cons.mp sizes
    exact coalesceFrom_dvd hdr header first rest

theorem release_dvd {d p a : Nat} {cs : List Cell} (sizes : ∀ c ∈ cs, d ∣ c.size) :
    ∀ c ∈ release hdr p a cs, d ∣ c.size := by
  induction cs generalizing a with
  | nil => exact sizes
  | cons c cs ih =>
    obtain ⟨first, rest⟩ := List.forall_mem_cons.mp sizes
    rw [release]
    split
    · exact List.forall_mem_cons.mpr ⟨first, rest⟩
    · exact List.forall_mem_cons.mpr ⟨first, ih rest⟩

/-! ### Settled tilings are determined by their live cells -/

/-- Behind a free cell of a settled tiling comes a used cell or the end. -/
theorem Settled.next_used {c d : Cell} {cs : List Cell} (settled : Settled (c :: d :: cs))
    (cfree : c.free = true) : d = ⟨d.size, false⟩ := by
  have := (List.isChain_cons_cons.mp settled).1
  obtain ⟨size, dfree⟩ := d
  simpa [cfree] using this

/-- A leading free cell ends where the first live cell starts. -/
theorem free_head_le (a : Nat) {c e : Cell} {cs es : List Cell} (settled : Settled (c :: cs))
    (cfree : c.free = true) (efree : e.free = true) (same_span : span hdr (c :: cs) = span hdr (e :: es))
    (same : ∀ p n, Live hdr a (c :: cs) p n → Live hdr a (e :: es) p n) : e.size ≤ c.size := by
  cases cs with
  | nil => simp only [span] at same_span; omega
  | cons d ds =>
    have used := settled.next_used cfree
    have live : Live hdr a (c :: d :: ds) (a + (hdr + c.size)) d.size := by
      rw [used]; simp [Live, placed]
    have there := same _ _ live
    simp only [Live, placed, List.mem_cons, Prod.mk.injEq] at there
    rcases there with ⟨-, head⟩ | later
    · rw [← head] at efree; cases efree
    · have := (placed_bounds hdr later).1
      omega

theorem live_tail (a : Nat) {c : Cell} {cs : List Cell} (positive : 0 < hdr) (p n : Nat) :
    Live hdr (a + (hdr + c.size)) cs p n ↔ Live hdr a (c :: cs) p n ∧ a < p := by
  simp only [Live, placed, List.mem_cons, Prod.mk.injEq]
  constructor
  · intro at_
    have := (placed_bounds hdr at_).1
    exact ⟨.inr at_, by omega⟩
  · rintro ⟨⟨rfl, -⟩ | at_, bound⟩
    · omega
    · exact at_

/-- A live head cell is the head of every tiling with the same live cells. -/
theorem live_head {a : Nat} {c : Cell} {cs : List Cell} {n : Nat} (positive : 0 < hdr)
    (live : Live hdr a (c :: cs) a n) : c = ⟨n, false⟩ := by
  simp only [Live, placed, List.mem_cons, Prod.mk.injEq] at live
  rcases live with ⟨-, same⟩ | later
  · exact same.symm
  · have := (placed_bounds hdr later).1
    omega

theorem eq_of_live (positive : 0 < hdr) (a : Nat) {cs ds : List Cell} (left : Settled cs) (right : Settled ds)
    (same_span : span hdr cs = span hdr ds) (same : ∀ p n, Live hdr a cs p n ↔ Live hdr a ds p n) : cs = ds := by
  induction cs generalizing a ds with
  | nil =>
    cases ds with
    | nil => rfl
    | cons d ds => simp only [span] at same_span; omega
  | cons c cs ih =>
    cases ds with
    | nil => simp only [span] at same_span; omega
    | cons d ds =>
      have heads : c = d := by
        obtain ⟨csize, cfree⟩ := c
        obtain ⟨dsize, dfree⟩ := d
        cases cfree with
        | false => exact (live_head hdr positive ((same a csize).mp (by simp [Live, placed]))).symm
        | true =>
          cases dfree with
          | false => exact live_head hdr positive ((same a dsize).mpr (by simp [Live, placed]))
          | true =>
            have := free_head_le hdr a left rfl rfl same_span fun p n => (same p n).mp
            have := free_head_le hdr a right rfl rfl same_span.symm fun p n => (same p n).mpr
            simp only [Cell.mk.injEq, and_true] at *
            omega
      subst heads
      congr 1
      refine ih (a + (hdr + c.size)) left.tail right.tail (by simp only [span] at same_span; omega) fun p n => ?_
      rw [live_tail hdr a positive, live_tail hdr a positive, same]

/-! ### Maximal free regions -/

/-- An address lies in a live cell, header or payload. -/
def Covered (a : Nat) (cs : List Cell) (x : Nat) : Prop :=
  ∃ p n, Live hdr a cs p n ∧ p ≤ x ∧ x < p + (hdr + n)

/-- A nonempty stretch without live cells that cannot be extended on either side. -/
structure Gap (a : Nat) (cs : List Cell) (lo hi : Nat) : Prop where
  lower : a ≤ lo
  proper : lo < hi
  upper : hi ≤ a + span hdr cs
  clear : ∀ x, lo ≤ x → x < hi → ¬Covered hdr a cs x
  maximal_left : lo = a ∨ Covered hdr a cs (lo - 1)
  maximal_right : hi = a + span hdr cs ∨ Covered hdr a cs hi

theorem cell_at {a x : Nat} {cs : List Cell} (lower : a ≤ x) (upper : x < a + span hdr cs) :
    ∃ p c, (p, c) ∈ placed hdr a cs ∧ p ≤ x ∧ x < p + (hdr + c.size) := by
  induction cs generalizing a with
  | nil => simp only [span] at upper; omega
  | cons c cs ih =>
    by_cases here : x < a + (hdr + c.size)
    · exact ⟨a, c, by simp [placed], lower, here⟩
    · simp only [span] at upper
      obtain ⟨p, d, at_, inside⟩ := ih (a := a + (hdr + c.size)) (by omega) (by omega)
      exact ⟨p, d, by simp [placed, at_], inside⟩

theorem free_not_covered {a p size x : Nat} {cs : List Cell} (at_ : (p, Cell.mk size true) ∈ placed hdr a cs)
    (lower : p ≤ x) (upper : x < p + (hdr + size)) : ¬Covered hdr a cs x := by
  rintro ⟨q, n, live, qx, xq⟩
  rcases placed_apart hdr at_ live with ⟨-, same⟩ | apart | apart
  · cases same
  · simp only at apart; omega
  · simp only at apart; omega

theorem gap_of_free (positive : 0 < hdr) {a p size : Nat} {cs : List Cell} (settled : Settled cs)
    (at_ : (p, Cell.mk size true) ∈ placed hdr a cs) : Gap hdr a cs p (p + (hdr + size)) := by
  have bounds := placed_bounds hdr at_
  refine ⟨bounds.1, by omega, bounds.2, fun x => free_not_covered hdr at_, ?_, ?_⟩
  · obtain ⟨before, after, rfl, rfl⟩ := placed_split hdr at_
    rcases List.eq_nil_or_concat before with rfl | ⟨init, b, rfl⟩
    · exact .inl (by simp [span])
    · rw [List.concat_eq_append] at *
      have used : b.free = false := by
        have joint := (List.isChain_append.mp settled).2.2 b (by simp) _ rfl
        simpa using joint
      have extent : span hdr (init ++ [b]) = span hdr init + (hdr + b.size) := by
        simp [span_append, span]
      refine .inr ⟨a + span hdr init, b.size, ?_, by omega, by omega⟩
      obtain ⟨bsize, bfree⟩ := b
      cases used
      simp [Live, placed_append, placed]
  · obtain ⟨before, after, rfl, rfl⟩ := placed_split hdr at_
    cases after with
    | nil => exact .inl (by simp only [span_append, span]; omega)
    | cons d ds =>
      have used := Settled.next_used (List.isChain_append.mp settled).2.1 rfl
      refine .inr ⟨_, d.size, ?_, Nat.le_refl _, by omega⟩
      rw [used]
      simp [Live, placed_append, placed]

theorem gap_iff_free (positive : 0 < hdr) {a lo hi : Nat} {cs : List Cell} (settled : Settled cs) :
    Gap hdr a cs lo hi ↔ ∃ size, (lo, Cell.mk size true) ∈ placed hdr a cs ∧ hi = lo + (hdr + size) := by
  refine ⟨fun gap => ?_, fun ⟨size, at_, same⟩ => same ▸ gap_of_free hdr positive settled at_⟩
  obtain ⟨lower, proper, upper, clear, maximal_left, maximal_right⟩ := gap
  obtain ⟨p, ⟨size, free⟩, at_, px, xp⟩ := cell_at hdr lower (Nat.lt_of_lt_of_le proper upper)
  cases free with
  | false => exact absurd ⟨p, size, at_, px, xp⟩ (clear lo (Nat.le_refl lo) proper)
  | true =>
    simp only at xp
    have cell := gap_of_free hdr positive settled at_
    have start : lo = p := by
      rcases maximal_left with same | covered
      · have := cell.lower
        omega
      · by_contra other
        exact cell.clear (lo - 1) (by omega) (by omega) covered
    subst start
    refine ⟨size, at_, ?_⟩
    rcases Nat.lt_trichotomy hi (lo + (hdr + size)) with short | same | long
    · rcases maximal_right with same | covered
      · have := cell.upper
        omega
      · exact absurd covered (cell.clear hi (by omega) short)
    · exact same
    · rcases cell.maximal_right with same | covered
      · omega
      · exact absurd covered (clear _ (by omega) long)

/-- First fit fails exactly when no maximal free region can hold the request and a header. -/
theorem carve_none_iff_gap (positive : 0 < hdr) (slack n a : Nat) {cs : List Cell} (settled : Settled cs) :
    carve hdr slack n a cs = none ↔ ∀ lo hi, Gap hdr a cs lo hi → hi - lo < n + hdr := by
  rw [carve_none_iff]
  constructor
  · intro small lo hi gap
    obtain ⟨size, at_, rfl⟩ := (gap_iff_free hdr positive settled).mp gap
    obtain ⟨before, after, rfl, -⟩ := placed_split hdr at_
    have bound : size < n := small ⟨size, true⟩ (by simp) rfl
    omega
  · intro small c member cfree
    obtain ⟨size, free⟩ := c
    cases cfree
    obtain ⟨before, after, rfl⟩ := List.append_of_mem member
    have at_ : (a + span hdr before, Cell.mk size true) ∈ placed hdr a (before ++ ⟨size, true⟩ :: after) := by
      simp [placed_append, placed]
    have := small _ _ (gap_of_free hdr positive settled at_)
    simp only
    omega

end ChrisOS.Lib.Tiling
