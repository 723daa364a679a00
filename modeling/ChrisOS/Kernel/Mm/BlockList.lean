import ChrisOS.Kernel.Mm.Runs
import Mathlib

/-! What every history guarantees about the block list itself: exact tiling,
separation of live payloads, accounting, full coalescing and independence of
the history.
-/

set_option autoImplicit false

namespace ChrisOS.Kernel.Mm
open ChrisOS.Lib ChrisOS.Lib.Tiling

namespace Block

def finish (b : Block) : Nat := b.addr + blockHdr + b.size

def header (b : Block) : Set Nat := Set.Ico b.addr (b.addr + blockHdr)

def payload (b : Block) : Set Nat := Set.Ico (b.addr + blockHdr) b.finish

end Block

/-- The blocks follow each other without gap or overlap from heap start to heap end. -/
structure TilesHeap (bs : List Block) : Prop where
  first : bs.head?.map Block.addr = some heapStart
  linked : bs.IsChain fun b c => b.next = b.finish ∧ c.addr = b.finish
  last : ∀ b ∈ bs.getLast?, b.next = 0 ∧ b.finish = heapStart + heapSize

/-- A nonempty stretch of the heap outside all used blocks, maximal on both sides. -/
structure FreeRegion (bs : List Block) (lo hi : Nat) : Prop where
  lower : heapStart ≤ lo
  proper : lo < hi
  upper : hi ≤ heapStart + heapSize
  clear : ∀ x, lo ≤ x → x < hi → ∀ b ∈ bs, b.free = 0 → ¬(b.addr ≤ x ∧ x < b.finish)
  maximal_left : lo = heapStart ∨ ∃ b ∈ bs, b.free = 0 ∧ b.addr ≤ lo - 1 ∧ lo - 1 < b.finish
  maximal_right : hi = heapStart + heapSize ∨ ∃ b ∈ bs, b.free = 0 ∧ b.addr ≤ hi ∧ hi < b.finish

/-- A block handed out and not yet freed: its payload pointer is live. -/
def LiveBlock (live : List Nat) (bs : List Block) (addr size : Nat) : Prop :=
  addr + blockHdr ∈ live ∧ ∃ b ∈ bs, b.addr = addr ∧ b.size = size

/-- The block list of a tiling of the heap range. -/
def blockList (cs : List Cell) : List Block := (placed blockHdr heapStart cs).map blockOf

theorem mem_blockList {cs : List Cell} {b : Block} :
    b ∈ blockList cs ↔ ∃ p c, (p, c) ∈ placed blockHdr heapStart cs ∧ blockOf (p, c) = b := by
  simp [blockList]

@[simp] theorem blockOf_addr (r : Nat × Cell) : (blockOf r).addr = r.1 := rfl

@[simp] theorem blockOf_size (r : Nat × Cell) : (blockOf r).size = r.2.size := rfl

@[simp] theorem blockOf_finish (r : Nat × Cell) : (blockOf r).finish = r.1 + (blockHdr + r.2.size) := by
  simp [Block.finish, Nat.add_assoc]

theorem blockOf_used {r : Nat × Cell} : (blockOf r).free = 0 ↔ r.2.free = false := by
  simp [blockOf]

theorem exists_used_block {cs : List Cell} (holds : Nat → Nat → Prop) :
    (∃ b ∈ blockList cs, b.free = 0 ∧ holds b.addr b.finish) ↔
      ∃ p n, Live blockHdr heapStart cs p n ∧ holds p (p + (blockHdr + n)) := by
  constructor
  · rintro ⟨b, member, used, prop⟩
    obtain ⟨p, ⟨n, free⟩, at_, rfl⟩ := mem_blockList.mp member
    cases blockOf_used.mp used
    exact ⟨p, n, at_, by simpa using prop⟩
  · rintro ⟨p, n, at_, prop⟩
    exact ⟨_, mem_blockList.mpr ⟨p, _, at_, rfl⟩, rfl, by simpa using prop⟩

theorem freeRegion_iff_gap {cs : List Cell} (covers : span blockHdr cs = heapSize) (lo hi : Nat) :
    FreeRegion (blockList cs) lo hi ↔ Gap blockHdr heapStart cs lo hi := by
  have covered (x : Nat) : (∃ b ∈ blockList cs, b.free = 0 ∧ b.addr ≤ x ∧ x < b.finish) ↔
      Covered blockHdr heapStart cs x := exists_used_block fun a e => a ≤ x ∧ x < e
  constructor
  · rintro ⟨lower, proper, upper, clear, left, right⟩
    refine ⟨lower, proper, by rwa [covers], fun x xlo xhi inside => ?_, ?_, ?_⟩
    · obtain ⟨b, member, used, within⟩ := (covered x).mpr inside
      exact clear x xlo xhi b member used within
    · exact left.imp_right (covered _).mp
    · rw [covers]
      exact right.imp_right (covered _).mp
  · rintro ⟨lower, proper, upper, clear, left, right⟩
    rw [covers] at upper right
    refine ⟨lower, proper, upper, fun x xlo xhi b member used within => ?_, ?_, ?_⟩
    · exact clear x xlo xhi ((covered x).mp ⟨b, member, used, within⟩)
    · exact left.imp_right (covered _).mpr
    · exact right.imp_right (covered _).mpr

/-! ### Tiling -/

theorem placed_linked (a : Nat) (cs : List Cell) (bound : a + span blockHdr cs = heapEnd) :
    ((placed blockHdr a cs).map blockOf).IsChain (fun b c => b.next = b.finish ∧ c.addr = b.finish) ∧
      ∀ b ∈ ((placed blockHdr a cs).map blockOf).getLast?, b.next = 0 ∧ b.finish = heapEnd := by
  induction cs generalizing a with
  | nil => exact ⟨.nil, by simp [placed]⟩
  | cons c cs ih =>
    simp only [span] at bound
    obtain ⟨linked, last⟩ := ih (a + (blockHdr + c.size)) (by omega)
    cases cs with
    | nil =>
      simp only [span, Nat.add_zero] at bound
      refine ⟨.singleton _, fun b member => ?_⟩
      simp only [placed, List.map_cons, List.map_nil, List.getLast?_singleton, Option.mem_some_iff] at member
      subst member
      simp [blockOf, linkOf, bound, Block.finish, Nat.add_assoc]
    | cons d ds =>
      simp only [span] at bound
      have hdr : 0 < blockHdr := by decide
      refine ⟨.cons_cons ⟨?_, ?_⟩ linked, fun b member => last b ?_⟩
      · rw [blockOf_finish]
        exact linkOf_lt (y := heapEnd) (by simp only; omega) (Nat.le_refl _)
      · simp
      · simpa [placed] using member

theorem Represents.tilesHeap {h : Heap} {cs : List Cell} (rep : Represents h cs) : TilesHeap (blockList cs) := by
  have covers : heapStart + span blockHdr cs = heapEnd := by rw [rep.covers]; rfl
  obtain ⟨linked, last⟩ := placed_linked heapStart cs covers
  refine ⟨?_, linked, last⟩
  cases cs with
  | nil => exact absurd rep.covers (by decide)
  | cons c cs => rfl

theorem Represents.in_heap {h : Heap} {cs : List Cell} (rep : Represents h cs) {b : Block}
    (member : b ∈ blockList cs) : b.payload ⊆ Set.Ico heapStart (heapStart + heapSize) := by
  obtain ⟨p, c, at_, rfl⟩ := mem_blockList.mp member
  have bounds := placed_bounds blockHdr at_
  rw [rep.covers] at bounds
  refine Set.Ico_subset_Ico ?_ ?_
  · simp only [blockOf_addr]; omega
  · simp only [blockOf_finish]; omega

theorem payload_header_disjoint {cs : List Cell} {b c : Block} (left : b ∈ blockList cs)
    (right : c ∈ blockList cs) : Disjoint b.payload c.header := by
  obtain ⟨p, e, at_, rfl⟩ := mem_blockList.mp left
  obtain ⟨q, f, at', rfl⟩ := mem_blockList.mp right
  rw [Set.disjoint_left]
  simp only [Block.payload, Block.header, Set.mem_Ico, blockOf_addr, blockOf_finish]
  rcases placed_apart blockHdr at_ at' with ⟨rfl, -⟩ | apart | apart
  all_goals rintro x ⟨_, _⟩ ⟨_, _⟩; omega

theorem payloads_disjoint {cs : List Cell} {b c : Block} (left : b ∈ blockList cs)
    (right : c ∈ blockList cs) (other : b ≠ c) : Disjoint b.payload c.payload := by
  obtain ⟨p, e, at_, rfl⟩ := mem_blockList.mp left
  obtain ⟨q, f, at', rfl⟩ := mem_blockList.mp right
  rw [Set.disjoint_left]
  simp only [Block.payload, Set.mem_Ico, blockOf_addr, blockOf_finish]
  rcases placed_apart blockHdr at_ at' with ⟨rfl, rfl⟩ | apart | apart
  · exact absurd rfl other
  all_goals rintro x ⟨_, _⟩ ⟨_, _⟩; omega

/-! ### Live blocks and accounting -/

theorem Tracks.used_iff_live {h : Heap} {live : List Nat} {cs : List Cell} (tracks : Tracks h live cs)
    (ptr : Nat) : ptr ∈ live ↔ ∃ b ∈ blockList cs, b.free = 0 ∧ ptr = b.addr + blockHdr := by
  rw [tracks.pointers]
  exact (exists_used_block fun a _ => ptr = a + blockHdr).symm

theorem live_block_mem {cs : List Cell} {p n : Nat} :
    Live blockHdr heapStart cs p n ↔ ∃ b ∈ blockList cs, b.free = 0 ∧ b.addr = p ∧ b.size = n := by
  constructor
  · exact fun at_ => ⟨_, mem_blockList.mpr ⟨p, _, at_, rfl⟩, rfl, rfl, rfl⟩
  · rintro ⟨b, member, used, rfl, rfl⟩
    obtain ⟨p, ⟨n, free⟩, at_, rfl⟩ := mem_blockList.mp member
    cases blockOf_used.mp used
    exact at_

theorem Tracks.live_iff {h : Heap} {live : List Nat} {cs : List Cell} (tracks : Tracks h live cs) (p n : Nat) :
    LiveBlock live (blockList cs) p n ↔ Live blockHdr heapStart cs p n := by
  have hdr : 0 < blockHdr := by decide
  constructor
  · rintro ⟨member, b, inList, rfl, rfl⟩
    obtain ⟨q, m, at_, same⟩ := (tracks.pointers _).mp member
    obtain ⟨p, c, there, rfl⟩ := mem_blockList.mp inList
    simp only [blockOf_addr, blockOf_size] at *
    -- two cells at one address are one cell
    rcases placed_apart blockHdr at_ there with ⟨rfl, rfl⟩ | apart | apart
    · exact at_
    all_goals omega
  · intro at_
    obtain ⟨b, member, used, rfl, rfl⟩ := live_block_mem.mp at_
    exact ⟨(tracks.pointers _).mpr ⟨_, _, at_, rfl⟩, b, member, rfl, rfl⟩

theorem blockList_freeCount (cs : List Cell) :
    ((blockList cs).filter fun b => b.free ≠ 0).length = freeCount cs := by
  suffices general : ∀ a, (((placed blockHdr a cs).map blockOf).filter fun b => b.free ≠ 0).length =
      freeCount cs from general heapStart
  intro a
  induction cs generalizing a with
  | nil => rfl
  | cons c cs ih =>
    obtain ⟨size, free⟩ := c
    have rest := ih (a + (blockHdr + size))
    cases free <;> simp [placed, blockOf, freeCount] at rest ⊢ <;> omega

/-! ### The results -/

/-- Every history keeps the block list an exact tiling with separate payloads,
every further call terminates and leaves the other live blocks alone, and the
two counters account for the whole heap. -/
theorem reachable_tiles_heap {h : Heap} {live : List Nat} (run : Reachable h live) :
    ∃ bs, Returns (blocks h) bs ∧ TilesHeap bs ∧
      (∀ ptr, ptr ∈ live ↔ ∃ b ∈ bs, b.free = 0 ∧ ptr = b.addr + blockHdr) ∧
      (∀ b ∈ bs, b.free = 0 → b.payload ⊆ Set.Ico heapStart (heapStart + heapSize) ∧
        (∀ c ∈ bs, Disjoint b.payload c.header) ∧
        ∀ c ∈ bs, c.free = 0 → b ≠ c → Disjoint b.payload c.payload) ∧
      (∀ size, size < 2 ^ 32 → ∃ h' ptr bs', Returns (kmalloc h size) (h', ptr) ∧ Returns (blocks h') bs' ∧
        ∀ b ∈ bs, b.free = 0 → ∃ b' ∈ bs', b'.addr = b.addr ∧ b'.size = b.size ∧ b'.free = b.free) ∧
      (∀ ptr ∈ live, ∃ h' bs', Returns (kfree h ptr) h' ∧ Returns (blocks h') bs' ∧
        ∀ b ∈ bs, b.free = 0 → ptr ≠ b.addr + blockHdr →
          ∃ b' ∈ bs', b'.addr = b.addr ∧ b'.size = b.size ∧ b'.free = b.free) ∧
      ∃ used free, Returns (mmUsed h) used ∧ Returns (mmFree h) free ∧
        used + free + blockHdr * (bs.filter fun b => b.free ≠ 0).length = heapSize := by
  obtain ⟨cs, tracks⟩ := run.tracks
  have rep := tracks.represents
  refine ⟨_, blocks_returns rep, rep.tilesHeap, tracks.used_iff_live, fun b member used => ⟨rep.in_heap member,
    fun c => payload_header_disjoint member, fun c member' _ => payloads_disjoint member member'⟩, ?_, ?_,
    _, _, mmUsed_returns rep, mmFree_returns rep, ?_⟩
  · intro size _
    rcases tracks.kmalloc size with ⟨failed, -⟩ | ⟨h', p, ds, carved, taken, tracks'⟩
    · exact ⟨h, 0, _, failed, blocks_returns rep, fun b member _ => ⟨b, member, rfl, rfl, rfl⟩⟩
    · refine ⟨h', _, _, taken, blocks_returns tracks'.represents, fun b member used => ?_⟩
      obtain ⟨m, -, -, lives, -⟩ := carve_live blockHdr carved
      have there := (lives b.addr b.size).mpr (.inr (live_block_mem.mpr ⟨b, member, used, rfl, rfl⟩))
      obtain ⟨b', member', used', addr, size⟩ := live_block_mem.mp there
      exact ⟨b', member', addr, size, used'.trans used.symm⟩
  · intro ptr isLive
    obtain ⟨h', p, n, ds, rfl, -, rfl, freed, tracks'⟩ := tracks.kfree isLive
    refine ⟨h', _, freed, blocks_returns tracks'.represents, fun b member used other => ?_⟩
    have there : Live blockHdr heapStart (coalesce blockHdr (release blockHdr p heapStart cs)) b.addr b.size := by
      rw [coalesce_live, release_live blockHdr (by decide)]
      exact ⟨live_block_mem.mpr ⟨b, member, used, rfl, rfl⟩, fun same => other (same ▸ rfl)⟩
    obtain ⟨b', member', used', addr, size⟩ := live_block_mem.mp there
    exact ⟨b', member', addr, size, used'.trans used.symm⟩
  · have := bytes_span blockHdr cs
    rw [rep.covers] at this
    have count := blockList_freeCount cs
    simp only [blockList] at count
    rw [count, this]

/-- A history of one call: the first block handed out sits at the start of the heap. -/
theorem reachable_one_call : ∃ h, Reachable h [heapStart + blockHdr] := by
  let boot : Heap := ⟨fun _ => 0, 0⟩
  rcases (tracks_mmInit boot).kmalloc 100 with ⟨-, missed⟩ | ⟨h, p, ds, carved, taken, -⟩
  · exact absurd (missed (by decide)) (by decide)
  · have first : carve blockHdr align (alignUp 100) heapStart [⟨heapSize - blockHdr, true⟩] =
        some (heapStart, [⟨104, false⟩, ⟨heapSize - blockHdr - 104 - blockHdr, true⟩]) := by decide
    obtain ⟨rfl, -⟩ := Prod.mk.inj (Option.some.inj (carved.symm.trans first))
    exact ⟨h, Reachable.kmalloc (.init boot) (by decide) taken⟩

theorem reachable_tiles_heap_one_call : ∃ h, Reachable h [heapStart + blockHdr] ∧
    ∃ bs, Returns (blocks h) bs ∧ TilesHeap bs ∧ ∃ b ∈ bs, b.free = 0 ∧ b.addr = heapStart := by
  obtain ⟨h, run⟩ := reachable_one_call
  obtain ⟨bs, listed, tiles, live, -⟩ := reachable_tiles_heap run
  obtain ⟨b, member, used, same⟩ := (live _).mp (List.mem_singleton.mpr rfl)
  exact ⟨h, run, bs, listed, tiles, b, member, used, (Nat.add_right_cancel same).symm⟩

theorem alignUp_eq {n : Nat} (bound : n ≤ 2 ^ 32 - 8) : alignUp n = (n + 7) / 8 * 8 := by
  have reduced : sub32 (add32 n align) 1 = n + 7 := by
    unfold sub32 add32 align
    omega
  have := and_not_low 3 (by decide) (show n + 7 < 2 ^ 32 by omega)
  rw [alignUp, reduced]
  exact this

/-- With nothing handed out the heap is one free cell. -/
theorem Tracks.cells_of_nil {h : Heap} {cs : List Cell} (tracks : Tracks h [] cs) :
    cs = [⟨heapSize - blockHdr, true⟩] := by
  have hdr : 0 < blockHdr := by decide
  refine eq_of_live blockHdr hdr heapStart tracks.settled (.singleton _)
    (tracks.represents.covers.trans (by decide)) fun p n => ?_
  have none : ¬Live blockHdr heapStart cs p n := fun at_ => by
    have := (tracks.pointers (p + blockHdr)).mpr ⟨p, n, at_, rfl⟩
    cases this
  simp only [none, false_iff]
  simp [Live, placed]

/-- Coalescing is complete, so first fit fails only for want of a large enough region. -/
theorem reachable_coalesced {h : Heap} {live : List Nat} (run : Reachable h live) :
    ∃ bs, Returns (blocks h) bs ∧ (bs.IsChain fun b c => ¬(b.free ≠ 0 ∧ c.free ≠ 0)) ∧
      (∀ n, 1 ≤ n → n ≤ 2 ^ 32 - 8 → ∃ h' ptr, Returns (kmalloc h n) (h', ptr) ∧
        (ptr = 0 ↔ ¬∃ lo hi, FreeRegion bs lo hi ∧ (n + 7) / 8 * 8 ≤ hi - lo - blockHdr)) ∧
      (live = [] → bs = [⟨heapStart, heapSize - blockHdr, 1, 0⟩]) := by
  obtain ⟨cs, tracks⟩ := run.tracks
  have rep := tracks.represents
  have hdr : 0 < blockHdr := by decide
  refine ⟨_, blocks_returns rep, ?_, fun n positive bound => ?_, fun empty => ?_⟩
  · suffices general : ∀ a, Settled cs → ((placed blockHdr a cs).map blockOf).IsChain
        fun b c => ¬(b.free ≠ 0 ∧ c.free ≠ 0) from general heapStart tracks.settled
    clear tracks rep
    intro a settled
    induction cs generalizing a with
    | nil => exact .nil
    | cons c cs ih =>
      cases cs with
      | nil => exact .singleton _
      | cons d ds =>
        obtain ⟨apart, tail⟩ := List.isChain_cons_cons.mp settled
        refine .cons_cons ?_ (ih _ tail)
        simpa [blockOf] using apart
  · have fits := carve_none_iff_gap blockHdr hdr align (alignUp n) heapStart tracks.settled
    have regions : (∃ lo hi, FreeRegion (blockList cs) lo hi ∧ (n + 7) / 8 * 8 ≤ hi - lo - blockHdr) ↔
        carve blockHdr align (alignUp n) heapStart cs ≠ none := by
      rw [ne_eq, fits, alignUp_eq bound]
      simp only [freeRegion_iff_gap rep.covers]
      push Not
      refine exists_congr fun lo => exists_congr fun hi => and_congr_right fun gap => ?_
      obtain ⟨size, -, rfl⟩ := (gap_iff_free blockHdr hdr tracks.settled).mp gap
      omega
    rcases tracks.kmalloc n with ⟨failed, missed⟩ | ⟨h', p, ds, carved, taken, -⟩
    · exact ⟨h, 0, failed, fun _ found => regions.mp found (missed (by omega)), fun _ => rfl⟩
    · refine ⟨h', p + blockHdr, taken, ?_⟩
      have found : ∃ lo hi, FreeRegion (blockList cs) lo hi ∧ (n + 7) / 8 * 8 ≤ hi - lo - blockHdr :=
        regions.mpr (by simp [carved])
      exact ⟨fun null => by omega, fun none => absurd found none⟩
  · subst empty
    rw [tracks.cells_of_nil]
    rfl

theorem reachable_coalesced_one_call : ∃ h, Reachable h [heapStart + blockHdr] ∧
    ∃ bs, Returns (blocks h) bs ∧ bs.IsChain fun b c => ¬(b.free ≠ 0 ∧ c.free ≠ 0) := by
  obtain ⟨h, run⟩ := reachable_one_call
  obtain ⟨bs, listed, coalesced, -⟩ := reachable_coalesced run
  exact ⟨h, run, bs, listed, coalesced⟩

/-- Tracked heaps with the same live blocks show the same list. -/
theorem Tracks.cells_eq {h₁ h₂ : Heap} {live₁ live₂ : List Nat} {cs ds : List Cell} (left : Tracks h₁ live₁ cs)
    (right : Tracks h₂ live₂ ds) (same : ∀ p n, Live blockHdr heapStart cs p n ↔ Live blockHdr heapStart ds p n) :
    cs = ds :=
  eq_of_live blockHdr (by decide) heapStart left.settled right.settled
    (left.represents.covers.trans right.represents.covers.symm) same

/-- Releasing the cell that was carved brings the old tiling back. -/
theorem Tracks.restored {h h'' : Heap} {live live'' : List Nat} {cs ds : List Cell} (tracks : Tracks h live cs)
    {n p : Nat} (carved : carve blockHdr align n heapStart cs = some (p, ds))
    (after : Tracks h'' live'' (coalesce blockHdr (release blockHdr p heapStart ds))) :
    coalesce blockHdr (release blockHdr p heapStart ds) = cs := by
  obtain ⟨m, -, -, lives, -, was, free⟩ := carve_live blockHdr carved
  refine after.cells_eq tracks fun r k => ?_
  rw [coalesce_live, release_live blockHdr (by decide), lives]
  constructor
  · rintro ⟨⟨rfl, -⟩ | there, other⟩
    · exact absurd rfl other
    · exact there
  · refine fun there => ⟨.inr there, fun here => ?_⟩
    subst here
    have hdr : 0 < blockHdr := by decide
    rcases placed_apart blockHdr there free with ⟨-, kinds⟩ | apart | apart
    · cases kinds
    all_goals simp only at apart; omega

theorem kmalloc_kfree_restores {h : Heap} {live : List Nat} {cs : List Cell} (tracks : Tracks h live cs)
    (size : Nat) : ∃ h' ptr h'', Returns (kmalloc h size) (h', ptr) ∧ Returns (kfree h' ptr) h'' ∧
      Returns (blocks h'') (blockList cs) := by
  rcases tracks.kmalloc size with ⟨failed, -⟩ | ⟨h', p, ds, carved, taken, tracks'⟩
  · exact ⟨h, 0, h, failed, .of_all fun budget => by simp [Mm.kfree], blocks_returns tracks.represents⟩
  · obtain ⟨h'', q, n, es, same, -, rfl, freed, tracks''⟩ := tracks'.kfree (List.mem_cons_self ..)
    obtain rfl : p = q := by omega
    rw [tracks.restored carved tracks''] at tracks''
    exact ⟨h', _, h'', taken, freed, blocks_returns tracks''.represents⟩

theorem kfree_comm {h : Heap} {live : List Nat} {cs : List Cell} (tracks : Tracks h live cs) {a b : Nat}
    (left : a ∈ live) (right : b ∈ live) (other : a ≠ b) :
    ∃ h₁ h₂ h₁' h₂' bs, Returns (kfree h a) h₁ ∧ Returns (kfree h₁ b) h₁' ∧ Returns (kfree h b) h₂ ∧
      Returns (kfree h₂ a) h₂' ∧ Returns (blocks h₁') bs ∧ Returns (blocks h₂') bs := by
  obtain ⟨h₁, p, n, ds, rfl, -, rfl, freed₁, tracks₁⟩ := tracks.kfree left
  obtain ⟨h₂, q, m, es, rfl, -, rfl, freed₂, tracks₂⟩ := tracks.kfree right
  obtain ⟨h₁', q', _, _, same, -, rfl, freed₁', tracks₁'⟩ :=
    tracks₁.kfree ((tracks.nodup.mem_erase_iff).mpr ⟨other.symm, right⟩)
  obtain ⟨h₂', p', _, _, same', -, rfl, freed₂', tracks₂'⟩ :=
    tracks₂.kfree ((tracks.nodup.mem_erase_iff).mpr ⟨other, left⟩)
  obtain rfl : q = q' := by omega
  obtain rfl : p = p' := by omega
  have cells := tracks₁'.cells_eq tracks₂' fun r k => by
    simp only [coalesce_live, release_live blockHdr (show 0 < blockHdr by decide)]
    tauto
  exact ⟨h₁, h₂, h₁', h₂', _, freed₁, freed₁', freed₂, freed₂', blocks_returns tracks₁'.represents,
    cells ▸ blocks_returns tracks₂'.represents⟩

/-- The block list is a function of the live blocks: no trace of the history survives. -/
theorem reachable_history_independent :
    (∀ h₁ h₂ live₁ live₂, Reachable h₁ live₁ → Reachable h₂ live₂ →
      ∃ bs₁ bs₂, Returns (blocks h₁) bs₁ ∧ Returns (blocks h₂) bs₂ ∧
        ((∀ p n, LiveBlock live₁ bs₁ p n ↔ LiveBlock live₂ bs₂ p n) → bs₁ = bs₂)) ∧
    (∀ h live, Reachable h live → ∀ size, size < 2 ^ 32 → ∃ h' ptr h'' bs, Returns (kmalloc h size) (h', ptr) ∧
      Returns (kfree h' ptr) h'' ∧ Returns (blocks h) bs ∧ Returns (blocks h'') bs) ∧
    (∀ h live, Reachable h live → ∀ a ∈ live, ∀ b ∈ live, a ≠ b →
      ∃ h₁ h₂ h₁' h₂' bs, Returns (kfree h a) h₁ ∧ Returns (kfree h₁ b) h₁' ∧ Returns (kfree h b) h₂ ∧
        Returns (kfree h₂ a) h₂' ∧ Returns (blocks h₁') bs ∧ Returns (blocks h₂') bs) := by
  refine ⟨fun h₁ h₂ live₁ live₂ run₁ run₂ => ?_, fun h live run size _ => ?_,
    fun h live run a left b right other => ?_⟩
  · obtain ⟨cs, left⟩ := run₁.tracks
    obtain ⟨ds, right⟩ := run₂.tracks
    refine ⟨_, _, blocks_returns left.represents, blocks_returns right.represents, fun same => ?_⟩
    have cells : cs = ds := left.cells_eq right fun p n => by
      rw [← left.live_iff, ← right.live_iff]
      exact same p n
    rw [cells]
  · obtain ⟨cs, tracks⟩ := run.tracks
    obtain ⟨h', ptr, h'', taken, freed, restored⟩ := kmalloc_kfree_restores tracks size
    exact ⟨h', ptr, h'', _, taken, freed, blocks_returns tracks.represents, restored⟩
  · obtain ⟨cs, tracks⟩ := run.tracks
    exact kfree_comm tracks left right other

theorem reachable_history_independent_one_call : ∃ h, Reachable h [heapStart + blockHdr] ∧
    ∃ h' ptr h'' bs, Returns (kmalloc h 40) (h', ptr) ∧ Returns (kfree h' ptr) h'' ∧
      Returns (blocks h) bs ∧ Returns (blocks h'') bs := by
  obtain ⟨h, run⟩ := reachable_one_call
  exact ⟨h, run, reachable_history_independent.2.1 h _ run 40 (by decide)⟩

end ChrisOS.Kernel.Mm
