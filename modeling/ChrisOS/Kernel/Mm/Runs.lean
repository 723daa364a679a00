import ChrisOS.Kernel.Mm.Refinement
import Mathlib.Order.Interval.Set.Basic
import Mathlib.Order.Disjoint

/-! Whole runs of the allocator: every finite history of kmalloc calls and of
kfree calls on pointers that are still live, from mm_init on.
-/

set_option autoImplicit false

namespace ChrisOS.Kernel.Mm
open ChrisOS.Lib ChrisOS.Lib.Tiling

/-- Heaps reached by a history, with the pointers handed out and not yet freed. -/
inductive Reachable : Heap → List Nat → Prop where
  | init (h : Heap) : Reachable (mmInit h) []
  | kmalloc {h h' : Heap} {live : List Nat} {size ptr : Nat} : Reachable h live → size < 2 ^ 32 →
      Returns (kmalloc h size) (h', ptr) → Reachable h' (if ptr = 0 then live else ptr :: live)
  | kfree {h h' : Heap} {live : List Nat} {ptr : Nat} : Reachable h live → ptr ∈ live →
      Returns (kfree h ptr) h' → Reachable h' (live.erase ptr)

/-- The invariant of every history. -/
structure Tracks (h : Heap) (live : List Nat) (cs : List Cell) : Prop where
  represents : Represents h cs
  settled : Settled cs
  pointers : ∀ ptr, ptr ∈ live ↔ ∃ p n, Live blockHdr heapStart cs p n ∧ ptr = p + blockHdr
  nodup : live.Nodup

theorem tracks_mmInit (h : Heap) : Tracks (mmInit h) [] [⟨heapSize - blockHdr, true⟩] := by
  refine ⟨represents_mmInit h, .singleton _, fun ptr => ?_, .nil⟩
  simp [Live, placed]

/-- What kmalloc does to a tracked heap: nothing, or one more live cell where a free one was. -/
theorem Tracks.kmalloc {h : Heap} {live : List Nat} {cs : List Cell} (tracks : Tracks h live cs) (size : Nat) :
    (Returns (kmalloc h size) (h, 0) ∧
      (size ≠ 0 → carve blockHdr align (alignUp size) heapStart cs = none)) ∨
    ∃ h' p ds, carve blockHdr align (alignUp size) heapStart cs = some (p, ds) ∧
      Returns (kmalloc h size) (h', p + blockHdr) ∧ Tracks h' ((p + blockHdr) :: live) ds := by
  by_cases positive : size = 0
  · exact .inl ⟨.of_all fun budget => by simp [Mm.kmalloc, positive], fun nonzero => absurd positive nonzero⟩
  · have returned := kmalloc_returns tracks.represents positive
    cases taken : carve blockHdr align (alignUp size) heapStart cs with
    | none =>
      rw [taken] at returned
      exact .inl ⟨returned, fun _ => rfl⟩
    | some r =>
      rw [taken] at returned
      obtain ⟨p, ds⟩ := r
      obtain ⟨m, -, -, lives, -, was, free⟩ := carve_live blockHdr taken
      refine .inr ⟨_, p, ds, rfl, returned.1, returned.2, carve_settled blockHdr taken tracks.settled,
        fun ptr => ?_, List.nodup_cons.mpr ⟨fun member => ?_, tracks.nodup⟩⟩
      · rw [List.mem_cons, tracks.pointers]
        constructor
        · rintro (rfl | ⟨q, n, there, rfl⟩)
          · exact ⟨p, m, (lives p m).mpr (.inl ⟨rfl, rfl⟩), rfl⟩
          · exact ⟨q, n, (lives q n).mpr (.inr there), rfl⟩
        · rintro ⟨q, n, there, rfl⟩
          rcases (lives q n).mp there with ⟨rfl, -⟩ | there
          · exact .inl rfl
          · exact .inr ⟨q, n, there, rfl⟩
      · obtain ⟨q, n, there, same⟩ := (tracks.pointers _).mp member
        have : q = p := by omega
        subst this
        -- the chosen cell was free, so no live cell starts there
        rcases placed_apart blockHdr there free with ⟨-, kinds⟩ | apart | apart
        · cases kinds
        · have : 0 < blockHdr := by decide
          simp only at apart
          omega
        · have : 0 < blockHdr := by decide
          simp only at apart
          omega

/-- No payload pointer is the null pointer. -/
theorem payload_ne_zero (p : Nat) : p + blockHdr ≠ 0 := by
  have : 0 < blockHdr := by decide
  omega

/-- What kfree does to a tracked heap: the cell of the pointer is live no more. -/
theorem Tracks.kfree {h : Heap} {live : List Nat} {cs : List Cell} (tracks : Tracks h live cs) {ptr : Nat}
    (member : ptr ∈ live) :
    ∃ h' p n ds, ptr = p + blockHdr ∧ Live blockHdr heapStart cs p n ∧
      ds = coalesce blockHdr (release blockHdr p heapStart cs) ∧
      Returns (kfree h ptr) h' ∧ Tracks h' (live.erase ptr) ds := by
  obtain ⟨p, n, there, rfl⟩ := (tracks.pointers ptr).mp member
  obtain ⟨h', returned, represents, -⟩ := kfree_returns tracks.represents there
  refine ⟨h', p, n, _, rfl, there, rfl, returned, represents, coalesce_settled blockHdr _, fun q => ?_,
    tracks.nodup.erase _⟩
  rw [tracks.nodup.mem_erase_iff, tracks.pointers]
  simp only [coalesce_live, release_live blockHdr (by decide)]
  constructor
  · rintro ⟨other, r, k, live, rfl⟩
    exact ⟨r, k, ⟨live, fun same => other (same ▸ rfl)⟩, rfl⟩
  · rintro ⟨r, k, ⟨live, other⟩, rfl⟩
    exact ⟨fun same => other (by omega), r, k, live, rfl⟩

theorem Tracks.kmalloc_returns {h : Heap} {live : List Nat} {cs : List Cell} (tracks : Tracks h live cs)
    (size : Nat) : ∃ h' ptr, Returns (Mm.kmalloc h size) (h', ptr) := by
  rcases tracks.kmalloc size with ⟨failed, -⟩ | ⟨h', p, -, -, taken, -⟩
  · exact ⟨h, 0, failed⟩
  · exact ⟨h', _, taken⟩

/-- A word stored inside a live payload leaves every header alone. -/
theorem Tracks.store {h : Heap} {live : List Nat} {cs : List Cell} (tracks : Tracks h live cs) {p n x : Nat}
    (there : Live blockHdr heapStart cs p n) (lower : p + blockHdr ≤ x) (upper : x < p + blockHdr + n) (v : Nat) :
    Tracks { h with mem := Function.update h.mem x v } live cs := by
  refine ⟨⟨tracks.represents.head, tracks.represents.covers, fun q c at_ => ?_⟩, tracks.settled,
    tracks.pointers, tracks.nodup⟩
  refine (tracks.represents.headers q c at_).congr fun y first last => Function.update_of_ne ?_ v h.mem
  rcases placed_apart blockHdr there at_ with ⟨rfl, -⟩ | apart | apart
  · omega
  · simp only at apart
    omega
  · omega

/-! ### What the allocator leaves alone -/

/-- The word is in no block header. -/
def NoHeader (cs : List Cell) (x : Nat) : Prop :=
  ∀ q d, (q, d) ∈ placed blockHdr heapStart cs → ¬(q ≤ x ∧ x < q + blockHdr)

/-- The word lies outside the heap, or in a block that is handed out. -/
def Foreign (cs : List Cell) (x : Nat) : Prop :=
  x < heapStart ∨ heapEnd ≤ x ∨ ∃ p n, Live blockHdr heapStart cs p n ∧ p + blockHdr ≤ x ∧ x < p + blockHdr + n

theorem Foreign.apart {cs : List Cell} (covers : span blockHdr cs = heapSize) {x : Nat} (foreign : Foreign cs x) {q : Nat}
    {d : Cell} (at_ : (q, d) ∈ placed blockHdr heapStart cs) :
    x < q ∨ q + (blockHdr + d.size) ≤ x ∨ d.free = false ∧ q + blockHdr ≤ x := by
  have bounds := placed_bounds blockHdr at_
  have finish : heapEnd = heapStart + heapSize := rfl
  rcases foreign with low | high | ⟨p, n, there, lower, upper⟩
  · exact .inl (by omega)
  · exact .inr (.inl (by omega))
  · rcases placed_apart blockHdr there at_ with ⟨rfl, rfl⟩ | before | after
    · exact .inr (.inr ⟨rfl, lower⟩)
    · simp only at before
      exact .inl (by omega)
    · exact .inr (.inl (by omega))

theorem Foreign.noHeader {cs : List Cell} (covers : span blockHdr cs = heapSize) {x : Nat} (foreign : Foreign cs x) :
    NoHeader cs x := by
  intro q d at_ inside
  rcases foreign.apart covers at_ with before | after | ⟨-, after⟩
  · omega
  · omega
  · omega

/-- Words outside the headers may change. -/
theorem Tracks.of_mem {h : Heap} {live : List Nat} {cs : List Cell} (tracks : Tracks h live cs) {mem : Nat → Nat}
    (frame : ∀ x, mem x ≠ h.mem x → NoHeader cs x) : Tracks { h with mem := mem } live cs := by
  refine ⟨⟨tracks.represents.head, tracks.represents.covers, fun q c at_ => ?_⟩, tracks.settled, tracks.pointers,
    tracks.nodup⟩
  apply (tracks.represents.headers q c at_).congr
  intro x lower upper
  by_contra changed
  exact frame x changed q c at_ ⟨lower, upper⟩

/-- kmalloc changes words of the free block that it carves only. -/
theorem Tracks.kmalloc_frame {h h' : Heap} {live : List Nat} {cs : List Cell} (tracks : Tracks h live cs) {size ptr : Nat}
    (returned : Returns (Mm.kmalloc h size) (h', ptr)) {x : Nat} (foreign : Foreign cs x) : h'.mem x = h.mem x := by
  by_cases zero : size = 0
  · have nothing : Returns (Mm.kmalloc h size) (h, 0) := .of_all fun budget => by simp [Mm.kmalloc, zero]
    cases returned.unique nothing
    rfl
  · have taken := Mm.kmalloc_returns tracks.represents zero
    cases carved : carve blockHdr align (alignUp size) heapStart cs with
    | none =>
      rw [carved] at taken
      cases returned.unique taken
      rfl
    | some r =>
      rw [carved] at taken
      cases returned.unique taken.1
      obtain ⟨before, after, size', rfl, at_, fits, -⟩ := carve_split blockHdr carved
      have rep : Represents h (before ++ ([⟨size', true⟩] ++ after)) := tracks.represents
      have bound := rep.bounds
      have old := rep.header.size
      rw [← at_] at bound old
      simp only [span, Nat.add_zero] at bound
      apply take_frame old bound fits
      have here : (r.1, Cell.mk size' true) ∈ placed blockHdr heapStart (before ++ ⟨size', true⟩ :: after) := by
        rw [placed_append, ← at_]
        exact List.mem_append_right _ (.head _)
      rcases foreign.apart tracks.represents.covers here with below | above | ⟨used, -⟩
      · exact .inl below
      · exact .inr above
      · cases used

/-- kfree changes words of headers only. -/
theorem Tracks.kfree_frame {h h' : Heap} {live : List Nat} {cs : List Cell} (tracks : Tracks h live cs) {ptr : Nat}
    (member : ptr ∈ live) (returned : Returns (Mm.kfree h ptr) h') {x : Nat} (outside : NoHeader cs x) :
    h'.mem x = h.mem x := by
  obtain ⟨p, n, there, rfl⟩ := (tracks.pointers ptr).mp member
  obtain ⟨h'', freed, -, frame⟩ := kfree_returns tracks.represents there
  cases returned.unique freed
  exact frame x outside

/-- Freeing a block makes no new header. -/
theorem NoHeader.coalesce {cs : List Cell} {x : Nat} (outside : NoHeader cs x) (p : Nat) :
    NoHeader (coalesce blockHdr (release blockHdr p heapStart cs)) x := by
  intro q d at_
  obtain ⟨e, released⟩ := coalesce_placed blockHdr at_
  obtain ⟨f, there⟩ := release_placed blockHdr released
  exact outside q f there

/-- Where the headers lie is read off memory. -/
theorem NoHeader.of_represents {h : Heap} {cs ds : List Cell} (left : Represents h cs) (right : Represents h ds) {x : Nat}
    (outside : NoHeader cs x) : NoHeader ds x := by
  intro q d at_
  have same := (blocks_returns right).unique (blocks_returns left)
  have listed : blockOf (q, d) ∈ (placed blockHdr heapStart cs).map blockOf :=
    same ▸ List.mem_map_of_mem at_
  obtain ⟨⟨r, c⟩, there, equal⟩ := List.mem_map.mp listed
  have here : r = q := congrArg Block.addr equal
  exact here ▸ outside r c there

/-- Freeing a block makes no new header, wherever the freed heap's headers are read from. -/
theorem Tracks.kfree_noHeader {h h' : Heap} {live : List Nat} {cs ds : List Cell} (tracks : Tracks h live cs) {ptr : Nat}
    (member : ptr ∈ live) (returned : Returns (Mm.kfree h ptr) h') (represents : Represents h' ds) {x : Nat}
    (outside : NoHeader cs x) : NoHeader ds x := by
  obtain ⟨h'', p, n, es, -, -, rfl, freed, tracks'⟩ := tracks.kfree member
  cases returned.unique freed
  exact .of_represents tracks'.represents represents (outside.coalesce p)

theorem Reachable.tracks {h : Heap} {live : List Nat} (run : Reachable h live) : ∃ cs, Tracks h live cs := by
  induction run with
  | init h => exact ⟨_, tracks_mmInit h⟩
  | @kmalloc h h' live size ptr _ _ returned ih =>
    obtain ⟨cs, tracks⟩ := ih
    rcases tracks.kmalloc size with ⟨failed, -⟩ | ⟨h'', p, ds, -, taken, tracks'⟩
    · cases returned.unique failed
      exact ⟨cs, tracks⟩
    · cases returned.unique taken
      rw [if_neg (payload_ne_zero p)]
      exact ⟨ds, tracks'⟩
  | @kfree h h' live ptr _ member returned ih =>
    obtain ⟨cs, tracks⟩ := ih
    obtain ⟨h'', p, n, ds, -, -, -, freed, tracks'⟩ := tracks.kfree member
    cases returned.unique freed
    exact ⟨ds, tracks'⟩

end ChrisOS.Kernel.Mm
