import ChrisOS.Kernel.Mm.Calls

/-! What a request is answered with: the room behind the pointer, and its alignment. -/

set_option autoImplicit false

namespace ChrisOS.Kernel.Mm
open ChrisOS.Lib ChrisOS.Lib.Tiling

/-! ### Room -/

/-- Behind the header of `b` at `ptr` lie `n` usable bytes, with few to spare. -/
structure Room (bs : List Block) (n ptr : Nat) (b : Block) : Prop where
  member : b ∈ bs
  pointer : ptr = b.addr + blockHdr
  usable : n ≤ b.size
  -- the bytes asked for end before the next header and before the end of the heap
  clear : ∀ c ∈ bs, b.addr < c.addr → ptr + n ≤ c.addr
  inside : ptr + n ≤ heapStart + heapSize
  spare : b.size < (n + 7) / 8 * 8 + 20

/-- The pointer of an answered request is that of a block with room for it. -/
def Fits (h : Heap) (n ptr : Nat) : Prop := ∃ bs b, Returns (blocks h) bs ∧ Room bs n ptr b

/-- A request close to 2^32 wraps to nothing. -/
theorem alignUp_wraps {n : Nat} (large : 2 ^ 32 - 8 < n) (bound : n < 2 ^ 32) : alignUp n = 0 := by
  have low : add32 n align < 8 := by
    unfold add32 align
    omega
  have reduced : sub32 (add32 n align) 1 < 8 := by
    unfold sub32 add32 align
    omega
  have := and_not_low 3 (by decide) (show sub32 (add32 n align) 1 < 2 ^ 32 by omega)
  rw [alignUp, show align - 1 = 2 ^ 3 - 1 from rfl, this]
  omega

/-- The block behind a pointer that kmalloc returned. -/
theorem Tracks.granted {h : Heap} {live : List Nat} {cs ds : List Cell} {n p : Nat} (tracks : Tracks h live ds)
    (carved : carve blockHdr align n heapStart cs = some (p, ds)) :
    ∃ b ∈ blockList ds, b.addr = p ∧ n ≤ b.size ∧ b.size < n + 20 ∧ b.finish ≤ heapStart + heapSize ∧
      ∀ c ∈ blockList ds, b.addr < c.addr → b.finish ≤ c.addr := by
  obtain ⟨m, lower, upper, -, at_, -⟩ := carve_live blockHdr carved
  have bounds := placed_bounds blockHdr at_
  rw [tracks.represents.covers] at bounds
  simp only at bounds
  refine ⟨_, mem_blockList.mpr ⟨p, _, at_, rfl⟩, rfl, lower, ?_, ?_, ?_⟩
  · simp only [blockOf_size]
    unfold blockHdr align at upper
    omega
  · simp only [blockOf_finish]
    omega
  · intro c member later
    obtain ⟨q, d, there, rfl⟩ := mem_blockList.mp member
    simp only [blockOf_finish, blockOf_addr] at later ⊢
    rcases placed_apart blockHdr at_ there with ⟨same, -⟩ | apart | apart
    · omega
    · exact apart
    · omega

/-- First fit fails when every free block is too small. -/
theorem carve_none_iff_blocks {cs : List Cell} (m : Nat) :
    carve blockHdr align m heapStart cs = none ↔ ∀ b ∈ blockList cs, b.free ≠ 0 → b.size < m := by
  have cells : cs = (placed blockHdr heapStart cs).map Prod.snd := (placed_cells ..).symm
  rw [carve_none_iff, blockList, List.forall_mem_map]
  nth_rewrite 1 [cells]
  rw [List.forall_mem_map]
  apply forall₂_congr
  intro r _
  rw [Ne, blockOf_used, blockOf_size, Bool.not_eq_false]

theorem no_free_cell {cs : List Cell} :
    carve blockHdr align 0 heapStart cs = none ↔ ∀ b ∈ blockList cs, b.free = 0 := by
  rw [carve_none_iff_blocks]
  apply forall₂_congr
  intro b _
  simp

theorem Tracks.fits_iff {h : Heap} {live : List Nat} {cs ds : List Cell} {n p : Nat} (tracks : Tracks h live ds)
    (carved : carve blockHdr align (alignUp n) heapStart cs = some (p, ds)) (bound : n < 2 ^ 32) :
    Fits h n (p + blockHdr) ↔ n ≤ 2 ^ 32 - 8 := by
  constructor
  · rintro ⟨bs, b, -, room⟩
    have inside := room.inside
    have : heapStart + heapSize < 2 ^ 32 - 8 := by decide
    omega
  · intro small
    obtain ⟨b, member, rfl, usable, spare, inside, clear⟩ := tracks.granted carved
    rw [alignUp_eq small] at usable spare
    refine ⟨_, b, blocks_returns tracks.represents, member, rfl, by omega, fun c other later => ?_, ?_, spare⟩
    · have := clear c other later
      unfold Block.finish at this
      omega
    · unfold Block.finish at inside
      omega

/-- A granted request has its room exactly when rounding it up did not wrap. -/
theorem kmalloc_fits_iff {h : Heap} {live : List Nat} (run : Reachable h live) {n : Nat} (positive : 1 ≤ n)
    (bound : n < 2 ^ 32) :
    ∃ bs h' ptr, Returns (blocks h) bs ∧ Returns (kmalloc h n) (h', ptr) ∧
      ((ptr ≠ 0 → Fits h' n ptr) ↔ n ≤ 2 ^ 32 - 8 ∨ ∀ b ∈ bs, b.free = 0) := by
  obtain ⟨cs, tracks⟩ := run.tracks
  rcases tracks.kmalloc n with ⟨failed, missed⟩ | ⟨h', p, ds, carved, taken, tracks'⟩
  · refine ⟨_, h, 0, blocks_returns tracks.represents, failed, ?_⟩
    have none := missed (by omega)
    have wraps : n ≤ 2 ^ 32 - 8 ∨ ∀ b ∈ blockList cs, b.free = 0 := by
      by_cases small : n ≤ 2 ^ 32 - 8
      · exact .inl small
      · rw [alignUp_wraps (by omega) bound] at none
        exact .inr (no_free_cell.mp none)
    exact ⟨fun _ => wraps, fun _ null => absurd rfl null⟩
  · refine ⟨_, h', p + blockHdr, blocks_returns tracks.represents, taken, ?_⟩
    have large : 2 ^ 32 - 8 < n → ¬∀ b ∈ blockList cs, b.free = 0 := by
      intro large
      rw [← no_free_cell, ← alignUp_wraps large bound, carved]
      simp
    rw [tracks'.fits_iff carved bound]
    constructor
    · exact fun fits => .inl (fits (payload_ne_zero p))
    · rintro (small | none) _
      · exact small
      · exact Nat.le_of_not_lt fun wide => large wide none

theorem kmalloc_fits_iff_one_call : ∃ h bs h' ptr, Reachable h [heapStart + blockHdr] ∧ Returns (blocks h) bs ∧
    Returns (kmalloc h 40) (h', ptr) ∧ (ptr ≠ 0 → Fits h' 40 ptr) := by
  obtain ⟨h, run⟩ := reachable_one_call
  obtain ⟨bs, h', ptr, listed, taken, fits⟩ := kmalloc_fits_iff run (n := 40) (by decide) (by decide)
  exact ⟨h, bs, h', ptr, run, listed, taken, fits.mpr (.inl (by decide))⟩

/-- The largest request is granted a block of no bytes. -/
theorem kmalloc_fits_fails : ¬∀ h live, Reachable h live → ∀ n, 1 ≤ n → n < 2 ^ 32 → ∀ h' ptr,
    Returns (kmalloc h n) (h', ptr) → ptr ≠ 0 → Fits h' n ptr := by
  intro all
  let boot : Heap := ⟨fun _ => 0, 0⟩
  rcases (tracks_mmInit boot).kmalloc (2 ^ 32 - 1) with ⟨-, missed⟩ | ⟨h, p, ds, carved, taken, tracks⟩
  · exact absurd (missed (by decide)) (by decide)
  · have fits := all _ _ (.init boot) _ (by decide) (by decide) _ _ taken (payload_ne_zero p)
    exact absurd ((tracks.fits_iff carved (by decide)).mp fits) (by decide)

/-! ### Alignment -/

/-- The blocks that first fit passes over on the way to its choice. -/
def passedBlocks (n : Nat) (bs : List Block) : List Block := bs.takeWhile fun b => ¬(b.free ≠ 0 ∧ alignUp n ≤ b.size)

theorem alignUp_dvd (n : Nat) : 8 ∣ alignUp n := by
  have reduced : sub32 (add32 n align) 1 < 2 ^ 32 := by
    unfold sub32
    omega
  have := and_not_low 3 (by decide) reduced
  rw [alignUp, show align - 1 = 2 ^ 3 - 1 from rfl, this]
  omega

/-- Sizes are multiples of four, as the header length and the rounded requests are. -/
theorem Reachable.tracks_sizes {h : Heap} {live : List Nat} (run : Reachable h live) :
    ∃ cs, Tracks h live cs ∧ ∀ c ∈ cs, 4 ∣ c.size := by
  have header : 4 ∣ blockHdr := by decide
  induction run with
  | init h => exact ⟨_, tracks_mmInit h, by decide⟩
  | @kmalloc h h' live size ptr _ _ returned ih =>
    obtain ⟨cs, tracks, sizes⟩ := ih
    rcases tracks.kmalloc size with ⟨failed, -⟩ | ⟨h'', p, ds, carved, taken, tracks'⟩
    · cases returned.unique failed
      exact ⟨cs, tracks, sizes⟩
    · cases returned.unique taken
      rw [if_neg (payload_ne_zero p)]
      have request : 4 ∣ alignUp size := Nat.dvd_trans (by decide) (alignUp_dvd size)
      exact ⟨ds, tracks', carve_dvd blockHdr carved header request sizes⟩
  | @kfree h h' live ptr _ member returned ih =>
    obtain ⟨cs, tracks, sizes⟩ := ih
    obtain ⟨h'', p, n, ds, -, -, rfl, freed, tracks'⟩ := tracks.kfree member
    cases returned.unique freed
    exact ⟨_, tracks', coalesce_dvd blockHdr header (release_dvd blockHdr sizes)⟩

/-- A block whose size is a multiple of eight shifts what follows it by four. -/
theorem span_mod {cs : List Cell} (sizes : ∀ c ∈ cs, 4 ∣ c.size) :
    span blockHdr cs % 8 = 4 * (cs.countP fun c => align ∣ c.size) % 8 := by
  induction cs with
  | nil => rfl
  | cons c cs ih =>
    obtain ⟨first, rest⟩ := List.forall_mem_cons.mp sizes
    have tail := ih rest
    have header : blockHdr = 12 := rfl
    rw [span, List.countP_cons]
    unfold align at tail ⊢
    by_cases whole : 8 ∣ c.size
    · simp only [whole, decide_true, ↓reduceIte]
      omega
    · simp only [whole, decide_false, Bool.false_eq_true, ↓reduceIte]
      omega

theorem passedBlocks_blockList (n : Nat) (cs : List Cell) :
    passedBlocks n (blockList cs) = blockList (passed (alignUp n) cs) := by
  suffices general : ∀ a, passedBlocks n ((placed blockHdr a cs).map blockOf) =
      (placed blockHdr a (passed (alignUp n) cs)).map blockOf from general heapStart
  have same (r : Nat × Cell) : decide (¬((blockOf r).free ≠ 0 ∧ alignUp n ≤ (blockOf r).size)) =
      decide (¬(r.2.free = true ∧ alignUp n ≤ r.2.size)) := by
    apply decide_eq_decide.mpr
    rw [Ne, blockOf_used, Bool.not_eq_false, blockOf_size]
  intro a
  induction cs generalizing a with
  | nil => rfl
  | cons c cs ih =>
    have rest := ih (a + (blockHdr + c.size))
    simp only [passedBlocks, passed, placed, List.map_cons, List.takeWhile_cons, same] at rest ⊢
    split
    · rw [rest, placed, List.map_cons]
    · rfl

theorem blockList_countP (cs : List Cell) :
    (blockList cs).countP (fun b => align ∣ b.size) = cs.countP fun c => align ∣ c.size := by
  have cells : cs = (placed blockHdr heapStart cs).map Prod.snd := (placed_cells ..).symm
  nth_rewrite 2 [cells]
  rw [blockList, List.countP_map, List.countP_map]
  rfl

theorem passedBlocks_eq_self {n : Nat} {cs : List Cell} :
    passedBlocks n (blockList cs) = blockList cs ↔ carve blockHdr align (alignUp n) heapStart cs = none := by
  rw [carve_none_iff_blocks, passedBlocks, List.takeWhile_eq_self_iff]
  apply forall₂_congr
  intro b _
  rw [decide_eq_true_eq, not_and, Nat.not_le]

theorem kmalloc_zero (h : Heap) : Returns (kmalloc h 0) (h, 0) := .of_all fun _ => rfl

/-- The payload starts as many words off as there are blocks of aligned size in front. -/
theorem carve_aligned {cs ds : List Cell} {n p : Nat} (sizes : ∀ c ∈ cs, 4 ∣ c.size)
    (carved : carve blockHdr align (alignUp n) heapStart cs = some (p, ds)) :
    align ∣ p + blockHdr ↔ Odd ((passedBlocks n (blockList cs)).countP fun b => align ∣ b.size) := by
  have address := carve_address blockHdr carved
  have before : ∀ c ∈ passed (alignUp n) cs, 4 ∣ c.size := fun c member => sizes c (List.takeWhile_subset _ member)
  have shift := span_mod before
  have first : (heapStart + blockHdr) % 8 = 4 := by decide
  rw [passedBlocks_blockList, blockList_countP, Nat.odd_iff]
  unfold align at shift ⊢
  omega

/-- A granted request is aligned exactly when first fit passed an odd number of blocks of aligned size. -/
theorem kmalloc_aligned_iff {h : Heap} {live : List Nat} (run : Reachable h live) {n : Nat} (bound : n < 2 ^ 32) :
    ∃ bs h' ptr, Returns (blocks h) bs ∧ Returns (kmalloc h n) (h', ptr) ∧
      ((ptr ≠ 0 → align ∣ ptr) ↔ n = 0 ∨ passedBlocks n bs = bs ∨
        Odd ((passedBlocks n bs).countP fun b => align ∣ b.size)) := by
  obtain ⟨cs, tracks, sizes⟩ := run.tracks_sizes
  have listed := blocks_returns tracks.represents
  by_cases zero : n = 0
  · subst zero
    exact ⟨_, h, 0, listed, kmalloc_zero h, fun _ => .inl rfl, fun _ null => absurd rfl null⟩
  rcases tracks.kmalloc n with ⟨failed, missed⟩ | ⟨h', p, ds, carved, taken, -⟩
  · have nothing : passedBlocks n (blockList cs) = blockList cs := passedBlocks_eq_self.mpr (missed zero)
    exact ⟨_, h, 0, listed, failed, fun _ => .inr (.inl nothing), fun _ null => absurd rfl null⟩
  · have found : passedBlocks n (blockList cs) ≠ blockList cs := by
      rw [Ne, passedBlocks_eq_self, carved]
      simp
    refine ⟨blockList cs, h', p + blockHdr, listed, taken, ?_⟩
    rw [carve_aligned sizes carved]
    constructor
    · exact fun aligned => .inr (.inr (aligned (payload_ne_zero p)))
    · rintro (null | nothing | odd) _
      · exact absurd null zero
      · exact absurd nothing found
      · exact odd

theorem kmalloc_aligned_iff_second_call : ∃ h live h' ptr, Reachable h live ∧ Returns (kmalloc h 512) (h', ptr) ∧
    (ptr ≠ 0 → align ∣ ptr) := by
  let boot : Heap := ⟨fun _ => 0, 0⟩
  rcases (tracks_mmInit boot).kmalloc 512 with ⟨-, missed⟩ | ⟨h, p, ds, carved, taken, tracks⟩
  · exact absurd (missed (by decide)) (by decide)
  · have first : carve blockHdr align (alignUp 512) heapStart [⟨heapSize - blockHdr, true⟩] =
        some (heapStart, [⟨512, false⟩, ⟨heapSize - blockHdr - 512 - blockHdr, true⟩]) := by decide
    obtain ⟨rfl, rfl⟩ := Prod.mk.inj (Option.some.inj (carved.symm.trans first))
    have run := Reachable.kmalloc (.init boot) (by decide) taken
    obtain ⟨bs, h', ptr, listed, taken', aligned⟩ := kmalloc_aligned_iff run (n := 512) (by decide)
    cases listed.unique (blocks_returns tracks.represents)
    exact ⟨h, _, h', ptr, run, taken', aligned.mpr (.inr (.inr (by decide)))⟩

/-- The first block handed out lies four bytes off. -/
theorem kmalloc_aligned_fails : ¬∀ h live, Reachable h live → ∀ n, n < 2 ^ 32 → ∀ h' ptr,
    Returns (kmalloc h n) (h', ptr) → ptr ≠ 0 → align ∣ ptr := by
  intro all
  let boot : Heap := ⟨fun _ => 0, 0⟩
  obtain ⟨h₁, -, taken, -⟩ := first_sector_block boot
  exact absurd (all _ _ (.init boot) 512 (by decide) _ _ taken (payload_ne_zero _)) (by decide)

end ChrisOS.Kernel.Mm
