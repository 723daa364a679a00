import ChrisOS.Kernel.Mm
import ChrisOS.Lib.Tiling

/-! The block list in memory represents a tiling of the heap range.

Each allocator routine is matched with the list operation it performs: kmalloc
with first-fit carving, kfree with release followed by one coalescing pass.
-/

set_option autoImplicit false

namespace ChrisOS.Kernel.Mm
open ChrisOS.Lib ChrisOS.Lib.Tiling

def heapEnd : Nat := heapStart + heapSize

/-- The link stored in a block that ends at `x`. -/
def linkOf (x : Nat) : Nat := if x = heapEnd then 0 else x

/-- The three header words of a block. -/
structure Header (h : Heap) (p : Nat) (c : Cell) : Prop where
  size : h.size p = c.size
  free : h.free p = if c.free then 1 else 0
  next : h.next p = linkOf (p + (blockHdr + c.size))

/-- The list starting at heap_head shows exactly this tiling of the heap range. -/
structure Represents (h : Heap) (cs : List Cell) : Prop where
  head : h.heapHead = heapStart
  covers : span blockHdr cs = heapSize
  headers : ∀ p c, (p, c) ∈ placed blockHdr heapStart cs → Header h p c

theorem Header.congr {h h' : Heap} {p : Nat} {c : Cell} (header : Header h p c)
    (same : ∀ x, p ≤ x → x < p + blockHdr → h'.mem x = h.mem x) : Header h' p c := by
  have at_ (k : Nat) (bound : k < blockHdr) : h'.mem (p + k) = h.mem (p + k) :=
    same (p + k) (by omega) (by omega)
  refine ⟨(at_ 0 (by decide)).trans header.size, (at_ 4 (by decide)).trans header.free, ?_⟩
  exact (at_ 8 (by decide)).trans header.next

/-- Rewriting a stretch of blocks in place leaves the others' headers alone. -/
theorem Represents.replace {h h' : Heap} {before mid mid' after : List Cell}
    (rep : Represents h (before ++ (mid ++ after))) (same_span : span blockHdr mid' = span blockHdr mid)
    (head : h'.heapHead = h.heapHead)
    (frame : ∀ x, x < heapStart + span blockHdr before ∨
      heapStart + span blockHdr before + span blockHdr mid ≤ x → h'.mem x = h.mem x)
    (new : ∀ p c, (p, c) ∈ placed blockHdr (heapStart + span blockHdr before) mid' → Header h' p c) :
    Represents h' (before ++ (mid' ++ after)) := by
  refine ⟨head.trans rep.head, ?_, fun p c at_ => ?_⟩
  · rw [← rep.covers]
    simp only [span_append, same_span]
  · have old := rep.headers p c
    simp only [placed_append, List.mem_append, same_span] at at_ old
    rcases at_ with left | middle | right
    · refine (old (.inl left)).congr fun x lower upper => frame x (.inl ?_)
      have := placed_bounds blockHdr left
      omega
    · exact new p c middle
    · refine (old (.inr (.inr right))).congr fun x lower upper => frame x (.inr ?_)
      have := placed_bounds blockHdr right
      omega

theorem represents_mmInit (h : Heap) : Represents (mmInit h) [⟨heapSize - blockHdr, true⟩] := by
  refine ⟨rfl, by decide, fun p c at_ => ?_⟩
  simp only [placed, List.mem_cons, Prod.mk.injEq, List.not_mem_nil, or_false] at at_
  obtain ⟨rfl, rfl⟩ := at_
  refine ⟨?_, ?_, ?_⟩ <;>
    simp [mmInit, Heap.setSize, Heap.setFree, Heap.setNext, Heap.size, Heap.free, Heap.next,
      Function.update, linkOf, heapEnd, heapStart, heapSize, blockHdr]

/-- Positions lie inside the heap range. -/
theorem Represents.bounds {h : Heap} {before mid after : List Cell}
    (rep : Represents h (before ++ (mid ++ after))) :
    heapStart + span blockHdr before + span blockHdr mid ≤ heapEnd := by
  have := rep.covers
  simp only [span_append] at this
  unfold heapEnd
  omega

theorem Represents.header {h : Heap} {before after : List Cell} {c : Cell}
    (rep : Represents h (before ++ ([c] ++ after))) : Header h (heapStart + span blockHdr before) c := by
  refine rep.headers _ _ ?_
  simp [placed_append, placed]

theorem linkOf_lt {x y : Nat} (inside : x < y) (bound : y ≤ heapEnd) : linkOf x = x := by
  simp [linkOf, show x ≠ heapEnd by omega]

/-! ### kmalloc -/

section
variable {h : Heap} {p n size : Nat}

/-- The words of memory after a hit that splits the block. -/
theorem take_mem_split (old : h.size p = size) (bound : p + (blockHdr + size) ≤ heapEnd)
    (room : n + blockHdr + align ≤ size) :
    (take h p n).mem = fun x =>
      if x = p + 4 then 0 else if x = p then n else if x = p + 8 then p + blockHdr + n
      else if x = p + blockHdr + n + 8 then h.next p else if x = p + blockHdr + n + 4 then 1
      else if x = p + blockHdr + n then size - n - blockHdr else h.mem x := by
  have limit : heapEnd < 2 ^ 32 := by decide
  have hdr : blockHdr = 12 := rfl
  have split : add32 (add32 p blockHdr) n = p + blockHdr + n := add32_add32_of_lt (by omega)
  have enough : add32 (add32 n blockHdr) align = n + blockHdr + align := add32_add32_of_lt (by omega)
  have rest : sub32 (sub32 size n) blockHdr = size - n - blockHdr := by
    rw [sub32_of_le (a := size) (by omega) (by omega), sub32_of_le (by omega) (by omega)]
  have link : (p + 8 = p + blockHdr + n + 4) = False := by simp only [eq_iff_iff, iff_false]; omega
  have link' : (p + 8 = p + blockHdr + n) = False := by simp only [eq_iff_iff, iff_false]; omega
  funext x
  simp only [take, old, enough, ge_iff_le, room, ↓reduceIte, split, rest, Heap.setSize, Heap.setFree,
    Heap.setNext, Heap.next, Function.update_apply, link, link']

/-- The words of memory after a hit that hands out the whole block. -/
theorem take_mem_whole (old : h.size p = size) (bound : p + (blockHdr + size) ≤ heapEnd) (fits : n ≤ size)
    (tight : ¬n + blockHdr + align ≤ size) :
    (take h p n).mem = fun x => if x = p + 4 then 0 else h.mem x := by
  have limit : heapEnd + 100 < 2 ^ 32 := by decide
  have hdr : blockHdr = 12 := rfl
  have slack : align = 8 := rfl
  have enough : add32 (add32 n blockHdr) align = n + blockHdr + align := add32_add32_of_lt (by omega)
  funext x
  simp only [take, old, enough, ge_iff_le, tight, ↓reduceIte, Heap.setFree, Function.update_apply]

/-- A hit changes words of the block that is hit only. -/
theorem take_frame (old : h.size p = size) (bound : p + (blockHdr + size) ≤ heapEnd) (fits : n ≤ size) {x : Nat}
    (outside : x < p ∨ p + (blockHdr + size) ≤ x) : (take h p n).mem x = h.mem x := by
  have hdr : blockHdr = 12 := rfl
  by_cases room : n + blockHdr + align ≤ size
  · rw [take_mem_split old bound room]
    simp only
    repeat rw [if_neg (by omega)]
  · rw [take_mem_whole old bound fits room]
    simp only
    rw [if_neg (by omega)]

theorem take_head : (take h p n).heapHead = h.heapHead := by
  simp only [take]
  split <;> rfl

end

theorem take_represents {h : Heap} {before after : List Cell} {size n : Nat}
    (rep : Represents h (before ++ ([⟨size, true⟩] ++ after))) (fits : n ≤ size) :
    Represents (take h (heapStart + span blockHdr before) n)
      (before ++ ((if n + blockHdr + align ≤ size then [⟨n, false⟩, ⟨size - n - blockHdr, true⟩]
        else [⟨size, false⟩]) ++ after)) := by
  have old := rep.header
  have bound := rep.bounds
  have extent : span blockHdr [⟨size, true⟩] = blockHdr + size := by simp [span]
  rw [extent] at bound
  have hdr : blockHdr = 12 := rfl
  split
  · rename_i room
    have words := take_mem_split old.size bound room
    refine rep.replace (by simp only [span]; omega) take_head (fun x outside => ?_) fun q c at_ => ?_
    · rw [extent] at outside
      rw [words]
      simp only
      repeat rw [if_neg (by omega)]
    · generalize heapStart + span blockHdr before = p at *
      simp only [placed, List.mem_cons, Prod.mk.injEq, List.not_mem_nil, or_false] at at_
      rcases at_ with ⟨rfl, rfl⟩ | ⟨rfl, rfl⟩
      · refine ⟨?_, ?_, ?_⟩
        · simp [Heap.size, words]
        · simp [Heap.free, words]
        · simp only [Heap.next, words]
          rw [linkOf_lt (y := q + (blockHdr + size)) (by omega) bound]
          simp [Nat.add_assoc]
      · refine ⟨?_, ?_, ?_⟩
        · simp only [Heap.size, words]
          repeat rw [if_neg (by omega)]
          rw [if_pos (Nat.add_assoc ..).symm]
        · simp only [Heap.free, words]
          repeat rw [if_neg (by omega)]
          simp [Nat.add_assoc]
        · simp only [Heap.next, words]
          repeat rw [if_neg (by omega)]
          have link := old.next
          simp only [Heap.next] at link
          simp only [Nat.add_assoc, ↓reduceIte, link]
          congr 1
          omega
  · rename_i tight
    have words := take_mem_whole old.size bound fits tight
    refine rep.replace (by simp only [span]) take_head (fun x outside => ?_) fun q c at_ => ?_
    · rw [extent] at outside
      rw [words]
      simp only
      rw [if_neg (by omega)]
    · simp only [placed, List.mem_cons, Prod.mk.injEq, List.not_mem_nil, or_false] at at_
      obtain ⟨rfl, rfl⟩ := at_
      refine ⟨?_, ?_, ?_⟩
      · simpa [Heap.size, words] using old.size
      · simp [Heap.free, words]
      · simpa [Heap.next, words] using old.next

/-- Where the unvisited part of the list is empty the link is null. -/
theorem Represents.link_end {h : Heap} {before : List Cell} (rep : Represents h (before ++ [])) :
    linkOf (heapStart + span blockHdr before) = 0 := by
  have := rep.covers
  simp only [List.append_nil] at this
  simp [linkOf, heapEnd, this]

/-- A link to a block is its address, which is not null. -/
theorem Represents.link_cons {h : Heap} {before after : List Cell} {c : Cell}
    (rep : Represents h (before ++ ([c] ++ after))) :
    linkOf (heapStart + span blockHdr before) = heapStart + span blockHdr before ∧
      heapStart + span blockHdr before ≠ 0 := by
  have bound := rep.bounds
  have start : heapStart ≠ 0 := by decide
  simp only [span, Nat.add_zero] at bound
  exact ⟨linkOf_lt (y := heapStart + span blockHdr before + (blockHdr + c.size))
    (by have : 0 < blockHdr := by decide
        omega) bound, by omega⟩

theorem span_snoc (before : List Cell) (c : Cell) :
    heapStart + span blockHdr (before ++ [c]) = heapStart + span blockHdr before + (blockHdr + c.size) := by
  simp only [span_append, span]
  omega

theorem Header.free_ne_zero {h : Heap} {p : Nat} {c : Cell} (header : Header h p c) :
    h.free p ≠ 0 ↔ c.free = true := by
  rw [header.free]
  cases c.free <;> simp

/-- kmalloc's search is first fit over the blocks it has not passed yet. -/
theorem kmallocLoop_eq {h : Heap} {n : Nat} (before rest : List Cell) (rep : Represents h (before ++ rest))
    {budget : Nat} (enough : rest.length < budget) :
    kmallocLoop n budget h (linkOf (heapStart + span blockHdr before)) =
      match carve blockHdr align n (heapStart + span blockHdr before) rest with
      | none => some (h, 0)
      | some r => some (take h r.1 n, r.1 + blockHdr) := by
  induction rest generalizing before budget with
  | nil =>
    obtain ⟨budget, rfl⟩ := Nat.exists_eq_add_of_lt enough
    simp [kmallocLoop, rep.link_end, carve]
  | cons c cs ih =>
    obtain ⟨budget, rfl⟩ := Nat.exists_eq_succ_of_ne_zero (Nat.ne_of_gt (Nat.zero_lt_of_lt enough))
    have rep' : Represents h (before ++ ([c] ++ cs)) := rep
    have header := rep'.header
    have bound := rep'.bounds
    have limit : heapEnd < 2 ^ 32 := by decide
    obtain ⟨link, nonzero⟩ := rep'.link_cons
    have hit : (h.free (heapStart + span blockHdr before) ≠ 0 ∧
        h.size (heapStart + span blockHdr before) ≥ n) ↔ (c.free = true ∧ n ≤ c.size) := by
      rw [header.free_ne_zero, header.size]
    rw [link, kmallocLoop, if_neg nonzero]
    simp only [hit, carve]
    split
    · simp only [span] at bound
      rw [add32_of_lt (by omega)]
    · have next := ih (before ++ [c]) (by simpa using rep) (show cs.length < budget by simpa using enough)
      rw [span_snoc] at next
      rw [header.next, next]
      cases carve blockHdr align n (heapStart + span blockHdr before + (blockHdr + c.size)) cs <;> rfl

/-- kmalloc on a represented heap: first fit on the tiling, for every large enough budget. -/
theorem kmalloc_returns {h : Heap} {cs : List Cell} (rep : Represents h cs) {size : Nat} (positive : size ≠ 0) :
    match carve blockHdr align (alignUp size) heapStart cs with
    | none => Returns (kmalloc h size) (h, 0)
    | some r => Returns (kmalloc h size) (take h r.1 (alignUp size), r.1 + blockHdr) ∧
        Represents (take h r.1 (alignUp size)) r.2 := by
  have loop (budget : Nat) (enough : cs.length < budget) :=
    kmallocLoop_eq (n := alignUp size) [] cs rep enough
  simp only [span, Nat.add_zero] at loop
  have start : linkOf heapStart = h.heapHead := by rw [rep.head]; decide
  split
  · rename_i failed
    refine ⟨cs.length + 1, fun budget enough => ?_⟩
    have := loop budget enough
    rw [start, failed] at this
    simpa only [kmalloc, positive, ↓reduceIte] using this
  · rename_i r taken
    refine ⟨⟨cs.length + 1, fun budget enough => ?_⟩, ?_⟩
    · have := loop budget enough
      rw [start, taken] at this
      simpa only [kmalloc, positive, ↓reduceIte] using this
    · obtain ⟨before, after, size', rfl, at_, fits, same⟩ := carve_split blockHdr taken
      rw [same, at_, List.append_assoc]
      exact take_represents rep fits

/-! ### kfree -/

theorem setFree_represents {h : Heap} {before after : List Cell} {c : Cell}
    (rep : Represents h (before ++ ([c] ++ after))) :
    Represents (h.setFree (heapStart + span blockHdr before) 1) (before ++ ([⟨c.size, true⟩] ++ after)) := by
  have old := rep.header
  have hdr : blockHdr = 12 := rfl
  refine rep.replace (by simp only [span]) rfl (fun x outside => ?_) fun q d at_ => ?_
  · simp only [span] at outside
    simp only [Heap.setFree, Function.update_apply, show ¬x = heapStart + span blockHdr before + 4 by omega,
      ↓reduceIte]
  · simp only [placed, List.mem_cons, Prod.mk.injEq, List.not_mem_nil, or_false] at at_
    obtain ⟨rfl, rfl⟩ := at_
    exact ⟨by simpa [Heap.size, Heap.setFree] using old.size, by simp [Heap.free, Heap.setFree],
      by simpa [Heap.next, Heap.setFree] using old.next⟩

theorem absorb_represents {h : Heap} {before after : List Cell} {m k : Nat}
    (rep : Represents h (before ++ ([⟨m, true⟩, ⟨k, true⟩] ++ after))) :
    Represents (absorb h (heapStart + span blockHdr before))
      (before ++ ([⟨m + (blockHdr + k), true⟩] ++ after)) := by
  have left : Header h (heapStart + span blockHdr before) ⟨m, true⟩ :=
    Represents.header (by simpa using rep)
  have right : Header h (heapStart + span blockHdr before + (blockHdr + m)) ⟨k, true⟩ := by
    have split : Represents h ((before ++ [⟨m, true⟩]) ++ ([⟨k, true⟩] ++ after)) := by simpa using rep
    simpa only [span_snoc] using split.header
  have bound := rep.bounds
  simp only [span, Nat.add_zero] at bound
  have hdr : blockHdr = 12 := rfl
  have limit : heapEnd < 2 ^ 32 := by decide
  have next : h.next (heapStart + span blockHdr before) =
      heapStart + span blockHdr before + (blockHdr + m) := by
    rw [left.next, linkOf_lt (y := heapEnd) (by simp only; omega) (Nat.le_refl _)]
  have merged : add32 (h.size (heapStart + span blockHdr before))
      (add32 blockHdr (h.size (heapStart + span blockHdr before + (blockHdr + m)))) = m + (blockHdr + k) := by
    rw [left.size, right.size, add32_of_lt (a := blockHdr) (by simp only; omega),
      add32_of_lt (by simp only; omega)]
  have right_next := right.next
  generalize at_ : heapStart + span blockHdr before = p at left right bound next merged right_next ⊢
  have link : (h.setSize p (m + (blockHdr + k))).next p = p + (blockHdr + m) := by
    simpa [Heap.next, Heap.setSize] using next
  have link' : (h.setSize p (m + (blockHdr + k))).next (p + (blockHdr + m)) =
      linkOf (p + (blockHdr + m) + (blockHdr + k)) := by
    rw [← right_next]
    simp only [Heap.next, Heap.setSize, Function.update_apply]
    rw [if_neg (by omega)]
  have words : (absorb h p).mem = fun x => if x = p + 8 then linkOf (p + (blockHdr + m) + (blockHdr + k))
      else if x = p then m + (blockHdr + k) else h.mem x := by
    funext x
    simp only [absorb, next, merged, link, link']
    simp only [Heap.setNext, Heap.setSize, Function.update_apply]
  refine rep.replace (by simp only [span]; omega) rfl (fun x outside => ?_) fun q d member => ?_
  · simp only [span, at_] at outside
    rw [words]
    simp only
    rw [if_neg (by omega), if_neg (by omega)]
  · simp only [placed, List.mem_cons, Prod.mk.injEq, List.not_mem_nil, or_false, at_] at member
    obtain ⟨rfl, rfl⟩ := member
    refine ⟨by simp [Heap.size, words], ?_, ?_⟩
    · have := left.free
      simpa [Heap.free, words] using this
    · simp only [Heap.next, words, ↓reduceIte]
      congr 1
      omega

theorem absorb_frame (h : Heap) (p : Nat) {x : Nat} (outside : ¬(p ≤ x ∧ x < p + blockHdr)) :
    (absorb h p).mem x = h.mem x := by
  have hdr : blockHdr = 12 := rfl
  have first : x ≠ p := by omega
  have third : x ≠ p + 8 := by omega
  simp only [absorb, Heap.setNext, Heap.setSize, Function.update_apply, if_neg first, if_neg third]

/-- One pass of kfree's loop coalesces everything from the current block on, and stores into headers only. -/
theorem kfreeLoop_eq {h : Heap} (before : List Cell) (c : Cell) (cs : List Cell)
    (rep : Represents h (before ++ ([c] ++ cs))) :
    ∃ h', (∀ budget, cs.length + 2 ≤ budget →
        kfreeLoop budget h (heapStart + span blockHdr before) = some h') ∧
      Represents h' (before ++ coalesceFrom blockHdr c cs) ∧
      ∀ x, (∀ q d, (q, d) ∈ placed blockHdr (heapStart + span blockHdr before) (c :: cs) →
        ¬(q ≤ x ∧ x < q + blockHdr)) → h'.mem x = h.mem x := by
  induction cs generalizing h before c with
  | nil =>
    obtain ⟨link, nonzero⟩ := rep.link_cons
    have last : h.next (heapStart + span blockHdr before) = 0 := by
      rw [rep.header.next, ← span_snoc]
      exact Represents.link_end (by simpa using rep)
    refine ⟨h, fun budget enough => ?_, rep, fun _ _ => rfl⟩
    obtain ⟨budget, rfl⟩ := Nat.exists_eq_add_of_le enough
    rw [show [].length + 2 + budget = budget + 1 + 1 by simp; omega, kfreeLoop, if_neg nonzero, last,
      if_neg (by simp), kfreeLoop, if_pos rfl]
  | cons d ds ih =>
    obtain ⟨link, nonzero⟩ := rep.link_cons
    have header := rep.header
    have snoc : Represents h ((before ++ [c]) ++ ([d] ++ ds)) := by simpa using rep
    obtain ⟨link', nonzero'⟩ := snoc.link_cons
    have header' := snoc.header
    rw [span_snoc] at link' nonzero' header'
    have next : h.next (heapStart + span blockHdr before) =
        heapStart + span blockHdr before + (blockHdr + c.size) := header.next.trans link'
    have merges : (h.free (heapStart + span blockHdr before) ≠ 0 ∧
        h.next (heapStart + span blockHdr before) ≠ 0 ∧
        h.free (h.next (heapStart + span blockHdr before)) ≠ 0) ↔ (c.free && d.free) = true := by
      rw [next, header.free_ne_zero, header'.free_ne_zero, Bool.and_eq_true_iff]
      exact ⟨fun ⟨left, _, right⟩ => ⟨left, right⟩, fun ⟨left, right⟩ => ⟨left, nonzero', right⟩⟩
    by_cases both : (c.free && d.free) = true
    · obtain ⟨cfree, dfree⟩ := Bool.and_eq_true_iff.mp both
      obtain ⟨csize, _⟩ := c
      obtain ⟨dsize, _⟩ := d
      cases cfree
      cases dfree
      obtain ⟨h', runs, done, frame⟩ := ih before ⟨csize + (blockHdr + dsize), true⟩ (absorb_represents rep)
      refine ⟨h', fun budget enough => ?_, by simpa [coalesceFrom] using done, fun x outside => ?_⟩
      · obtain ⟨budget, rfl⟩ := Nat.exists_eq_add_of_le enough
        rw [show (Cell.mk dsize true :: ds).length + 2 + budget = ds.length + 2 + budget + 1 by
          simp only [List.length_cons]; omega, kfreeLoop, if_neg nonzero, if_pos (merges.mpr both)]
        exact runs _ (by omega)
      · -- the merged block lies where the first of the two lay
        rw [frame x, absorb_frame h _ (outside _ _ (.head _))]
        intro q e at_
        rw [placed, List.mem_cons, Prod.mk.injEq] at at_
        rcases at_ with ⟨rfl, -⟩ | at_
        · exact outside _ _ (.head _)
        · apply outside q e
          rw [← Nat.add_assoc blockHdr csize, ← Nat.add_assoc] at at_
          exact .tail _ (.tail _ at_)
    · obtain ⟨h', runs, done, frame⟩ := ih (before ++ [c]) d snoc
      refine ⟨h', fun budget enough => ?_, by simpa [coalesceFrom, both] using done, fun x outside => ?_⟩
      · obtain ⟨budget, rfl⟩ := Nat.exists_eq_add_of_le enough
        rw [show (d :: ds).length + 2 + budget = ds.length + 2 + budget + 1 by
          simp only [List.length_cons]; omega, kfreeLoop, if_neg nonzero, if_neg (mt merges.mp both), next,
          ← span_snoc]
        exact runs _ (by omega)
      · apply frame x
        intro q e at_
        rw [span_snoc] at at_
        exact outside q e (.tail _ at_)

/-- kfree of a block's payload pointer: release it, then coalesce. Only words of headers change. -/
theorem kfree_returns {h : Heap} {cs : List Cell} (rep : Represents h cs) {p : Nat} {c : Cell}
    (at_ : (p, c) ∈ placed blockHdr heapStart cs) :
    ∃ h', Returns (kfree h (p + blockHdr)) h' ∧
      Represents h' (coalesce blockHdr (release blockHdr p heapStart cs)) ∧
      ∀ x, (∀ q d, (q, d) ∈ placed blockHdr heapStart cs → ¬(q ≤ x ∧ x < q + blockHdr)) → h'.mem x = h.mem x := by
  obtain ⟨before, after, rfl, same⟩ := placed_split blockHdr at_
  have kept (q : Nat) (d : Cell) (there : (q, d) ∈ placed blockHdr heapStart (release blockHdr p heapStart (before ++ c :: after))) :
      ∃ e, (q, e) ∈ placed blockHdr heapStart (before ++ c :: after) := release_placed blockHdr there
  rw [release_split blockHdr before after c (by decide) same] at kept ⊢
  have freed := setFree_represents (rep : Represents h (before ++ ([c] ++ after)))
  rw [← same] at freed
  have bound := placed_bounds blockHdr at_
  rw [rep.covers] at bound
  have limit : heapStart + heapSize < 2 ^ 32 := by decide
  have hdr : blockHdr = 12 := rfl
  have back : sub32 (p + blockHdr) blockHdr = p := by
    rw [sub32_of_le (by omega) (by omega)]
    omega
  generalize freedCells : before ++ ([⟨c.size, true⟩] ++ after) = es at freed
  have pass : ∃ h', (∀ budget, es.length + 1 ≤ budget → kfreeLoop budget (h.setFree p 1) heapStart = some h') ∧
      Represents h' (coalesce blockHdr es) ∧
      ∀ x, (∀ q d, (q, d) ∈ placed blockHdr heapStart es → ¬(q ≤ x ∧ x < q + blockHdr)) →
        h'.mem x = (h.setFree p 1).mem x := by
    -- the list is not empty, so heap_head is its first block
    cases es with
    | nil => exact absurd freed.covers (by decide)
    | cons e es =>
      obtain ⟨h', runs, rep', frame⟩ := kfreeLoop_eq [] e es freed
      exact ⟨h', fun budget enough => runs budget enough, rep', frame⟩
  obtain ⟨h', runs, done, frame⟩ := pass
  have list : before ++ ⟨c.size, true⟩ :: after = es := freedCells
  refine ⟨h', ⟨es.length + 1, fun budget enough => ?_⟩, list ▸ done, fun x outside => ?_⟩
  · have := runs budget enough
    simp only [kfree, show ¬p + blockHdr = 0 by omega, ↓reduceIte, back]
    rwa [freed.head]
  · have own := outside p c at_
    have other : x ≠ p + 4 := by omega
    have rest : h'.mem x = (h.setFree p 1).mem x := by
      apply frame x
      intro q d there
      rw [← list] at there
      obtain ⟨e, before'⟩ := kept q d there
      exact outside q e before'
    exact rest.trans (Function.update_of_ne other 1 h.mem)

/-! ### Accounting and the visible list -/

theorem liveBytes_le (cs : List Cell) : liveBytes blockHdr cs ≤ span blockHdr cs := by
  have := bytes_span blockHdr cs
  omega

theorem freeBytes_le (cs : List Cell) : freeBytes cs ≤ span blockHdr cs := by
  have := bytes_span blockHdr cs
  omega

/-- The header a tiling prescribes at an address. -/
def blockOf (r : Nat × Cell) : Block :=
  ⟨r.1, r.2.size, if r.2.free then 1 else 0, linkOf (r.1 + (blockHdr + r.2.size))⟩

theorem blocksFrom_eq {h : Heap} (before rest : List Cell) (rep : Represents h (before ++ rest))
    {budget : Nat} (enough : rest.length < budget) :
    blocksFrom h budget (linkOf (heapStart + span blockHdr before)) =
      some ((placed blockHdr (heapStart + span blockHdr before) rest).map blockOf) := by
  induction rest generalizing before budget with
  | nil =>
    obtain ⟨budget, rfl⟩ := Nat.exists_eq_add_of_lt enough
    simp [blocksFrom, rep.link_end, placed]
  | cons c cs ih =>
    obtain ⟨budget, rfl⟩ := Nat.exists_eq_succ_of_ne_zero (Nat.ne_of_gt (Nat.zero_lt_of_lt enough))
    have rep' : Represents h (before ++ ([c] ++ cs)) := rep
    have header := rep'.header
    obtain ⟨link, nonzero⟩ := rep'.link_cons
    have rest := ih (before ++ [c]) (by simpa using rep) (show cs.length < budget by simpa using enough)
    rw [span_snoc] at rest
    rw [link, blocksFrom, if_neg nonzero, header.next, rest, header.size, header.free]
    simp [placed, blockOf]

theorem blocks_returns {h : Heap} {cs : List Cell} (rep : Represents h cs) :
    Returns (blocks h) ((placed blockHdr heapStart cs).map blockOf) := by
  refine ⟨cs.length + 1, fun budget enough => ?_⟩
  have := blocksFrom_eq [] cs rep enough
  simpa [blocks, rep.head, span, linkOf, heapEnd, heapSize] using this

/-- A loop from block to block goes through the list of blocks. -/
theorem loop_folds {h : Heap} {loop : Nat → Nat → Nat → Option Nat} {step : Nat → Block → Nat}
    (out : ∀ sum b, loop 0 sum b = none)
    (turn : ∀ budget sum b, loop (budget + 1) sum b = if b = 0 then some sum
      else loop budget (step sum ⟨b, h.size b, h.free b, h.next b⟩) (h.next b)) (budget sum b : Nat) :
    loop budget sum b = (blocksFrom h budget b).map fun bs => bs.foldl step sum := by
  induction budget generalizing sum b with
  | zero =>
    rw [out]
    rfl
  | succ budget ih =>
    rw [turn, blocksFrom]
    split
    · rfl
    · rw [ih, Option.map_map]
      rfl

theorem mmUsedLoop_folds (h : Heap) (budget used b : Nat) : mmUsedLoop h budget used b =
    (blocksFrom h budget b).map fun bs =>
      bs.foldl (fun used b => if b.free = 0 then add32 used (add32 blockHdr b.size) else used) used :=
  loop_folds (fun _ _ => rfl) (fun _ _ _ => rfl) budget used b

theorem mmFreeLoop_folds (h : Heap) (budget free b : Nat) : mmFreeLoop h budget free b =
    (blocksFrom h budget b).map fun bs => bs.foldl (fun free b => if b.free ≠ 0 then add32 free b.size else free) free :=
  loop_folds (fun _ _ => rfl) (fun _ _ _ => rfl) budget free b

/-- The sums of both loops stay inside the heap, and so below 2^32. -/
theorem foldl_used {a used : Nat} {cs : List Cell} (small : used + liveBytes blockHdr cs ≤ heapSize) :
    ((placed blockHdr a cs).map blockOf).foldl
      (fun used b => if b.free = 0 then add32 used (add32 blockHdr b.size) else used) used =
      used + liveBytes blockHdr cs := by
  induction cs generalizing a used with
  | nil => rfl
  | cons c cs ih =>
    have limit : heapSize < 2 ^ 32 := by decide
    rw [liveBytes] at small
    rw [placed, List.map_cons, List.foldl_cons, liveBytes]
    cases free : c.free with
    | true =>
      simp only [free, ↓reduceIte, Nat.zero_add] at small
      simp only [blockOf, free, ↓reduceIte, Nat.one_ne_zero, Nat.zero_add]
      exact ih small
    | false =>
      simp only [free, Bool.false_eq_true, ↓reduceIte] at small
      simp only [blockOf, free, Bool.false_eq_true, ↓reduceIte]
      have fits : used + (blockHdr + c.size) + liveBytes blockHdr cs ≤ heapSize := by omega
      rw [add32_of_lt (a := blockHdr) (by omega), add32_of_lt (by omega), ih fits, Nat.add_assoc]

theorem foldl_free {a free : Nat} {cs : List Cell} (small : free + freeBytes cs ≤ heapSize) :
    ((placed blockHdr a cs).map blockOf).foldl (fun free b => if b.free ≠ 0 then add32 free b.size else free) free =
      free + freeBytes cs := by
  induction cs generalizing a free with
  | nil => rfl
  | cons c cs ih =>
    have limit : heapSize < 2 ^ 32 := by decide
    rw [freeBytes] at small
    rw [placed, List.map_cons, List.foldl_cons, freeBytes]
    cases unused : c.free with
    | true =>
      simp only [unused, ↓reduceIte] at small
      simp only [blockOf, unused, ↓reduceIte, ne_eq, Nat.one_ne_zero, not_false_eq_true]
      have fits : free + c.size + freeBytes cs ≤ heapSize := by omega
      rw [add32_of_lt (by omega), ih fits, Nat.add_assoc]
    | false =>
      simp only [unused, Bool.false_eq_true, ↓reduceIte, Nat.zero_add] at small
      simp only [blockOf, unused, Bool.false_eq_true, ↓reduceIte, ne_eq, not_true_eq_false, Nat.zero_add]
      exact ih small

theorem mmUsed_returns {h : Heap} {cs : List Cell} (rep : Represents h cs) :
    Returns (mmUsed h) (liveBytes blockHdr cs) := by
  have small := liveBytes_le cs
  rw [rep.covers, ← Nat.zero_add (liveBytes blockHdr cs)] at small
  have summed := (blocks_returns rep).map fun bs =>
    bs.foldl (fun used b => if b.free = 0 then add32 used (add32 blockHdr b.size) else used) 0
  rw [foldl_used small, Nat.zero_add] at summed
  exact summed.congr fun budget => (mmUsedLoop_folds h budget 0 h.heapHead).symm

theorem mmFree_returns {h : Heap} {cs : List Cell} (rep : Represents h cs) :
    Returns (mmFree h) (freeBytes cs) := by
  have small := freeBytes_le cs
  rw [rep.covers, ← Nat.zero_add (freeBytes cs)] at small
  have summed := (blocks_returns rep).map fun bs =>
    bs.foldl (fun free b => if b.free ≠ 0 then add32 free b.size else free) 0
  rw [foldl_free small, Nat.zero_add] at summed
  exact summed.congr fun budget => (mmFreeLoop_folds h budget 0 h.heapHead).symm

end ChrisOS.Kernel.Mm
