import ChrisOS.Kernel.Mm.BlockList

/-! The heap beside code that takes blocks and gives them back.

Between its calls the code may store words anywhere but in a block header. Code that
gives back all it takes, however nested, leaves the block list as it was.
-/

set_option autoImplicit false

namespace ChrisOS.Kernel.Mm
open ChrisOS.Lib ChrisOS.Lib.Tiling

/-- A call of the allocator, with the pointer that was returned or passed. -/
inductive HeapCall where
  | kmalloc (size ptr : Nat)
  | kfree (ptr : Nat)
  deriving DecidableEq

/-- Address and size of each block in the list that is not free. -/
def liveBlocks (h : Heap) : Set (Nat × Nat) :=
  {r | ∃ bs b, Returns (blocks h) bs ∧ b ∈ bs ∧ b.free = 0 ∧ r = (b.addr, b.size)}

/-- The words stored lie in no block header. -/
def Spares (h : Heap) (mem : Nat → Nat) : Prop :=
  ∃ bs, Returns (blocks h) bs ∧ ∀ x, mem x ≠ h.mem x → ∀ b ∈ bs, x ∉ b.header

/-- The calls are made in turn, with these answers. -/
inductive Serves : Heap → List HeapCall → Heap → Prop where
  | done (h : Heap) : Serves h [] h
  | store {h h' : Heap} {mem : Nat → Nat} {calls : List HeapCall} : Spares h mem →
      Serves { h with mem := mem } calls h' → Serves h calls h'
  | kmalloc {h h₁ h' : Heap} {size ptr : Nat} {calls : List HeapCall} : Returns (kmalloc h size) (h₁, ptr) →
      Serves h₁ calls h' → Serves h (.kmalloc size ptr :: calls) h'
  | kfree {h h₁ h' : Heap} {ptr : Nat} {calls : List HeapCall} : Returns (kfree h ptr) h₁ →
      Serves h₁ calls h' → Serves h (.kfree ptr :: calls) h'

/-- Each block taken is given back, after those taken since. -/
inductive Nested : List HeapCall → Prop where
  | nil : Nested []
  | denied {size : Nat} {rest : List HeapCall} : Nested rest → Nested (.kmalloc size 0 :: rest)
  | block {size ptr : Nat} {inner rest : List HeapCall} : Nested inner → Nested rest →
      Nested (.kmalloc size ptr :: (inner ++ .kfree ptr :: rest))

theorem Nested.append {xs ys : List HeapCall} (first : Nested xs) (second : Nested ys) : Nested (xs ++ ys) := by
  induction first with
  | nil => exact second
  | denied _ ih => exact .denied ih
  | @block size ptr inner rest nested _ _ ih =>
    rw [List.cons_append, List.append_assoc]
    exact .block nested ih

/-! ### One call -/

section
variable {h h' : Heap} {live : List Nat} {cs : List Cell}

theorem Tracks.spares (tracks : Tracks h live cs) {mem : Nat → Nat} (spares : Spares h mem) :
    Tracks { h with mem := mem } live cs := by
  obtain ⟨bs, listed, away⟩ := spares
  cases listed.unique (blocks_returns tracks.represents)
  apply tracks.of_mem
  intro x changed q d at_
  exact away x changed _ (mem_blockList.mpr ⟨q, d, at_, rfl⟩)

theorem Tracks.liveBlocks_eq (tracks : Tracks h live cs) :
    liveBlocks h = {r | Live blockHdr heapStart cs r.1 r.2} := by
  ext r
  constructor
  · rintro ⟨bs, b, listed, member, used, rfl⟩
    cases listed.unique (blocks_returns tracks.represents)
    exact live_block_mem.mpr ⟨b, member, used, rfl, rfl⟩
  · intro there
    obtain ⟨b, member, used, addr, size⟩ := live_block_mem.mp there
    exact ⟨_, b, blocks_returns tracks.represents, member, used, by rw [addr, size]⟩

namespace Serves

theorem tracks_of_done (serves : Serves h [] h') (tracks : Tracks h live cs) : Tracks h' live cs := by
  generalize none : [] = calls at serves
  induction serves with
  | done => exact tracks
  | store spares _ ih => exact ih (tracks.spares spares) none
  | kmalloc | kfree => cases none

/-- The heap that serves the call, after the stores before it. -/
theorem kmalloc_inv {size ptr : Nat} {calls : List HeapCall} (serves : Serves h (.kmalloc size ptr :: calls) h')
    (tracks : Tracks h live cs) :
    ∃ h₀ h₁, Tracks h₀ live cs ∧ Returns (Mm.kmalloc h₀ size) (h₁, ptr) ∧ Serves h₁ calls h' := by
  generalize first : HeapCall.kmalloc size ptr :: calls = all at serves
  induction serves with
  | done | kfree => cases first
  | store spares _ ih => exact ih (tracks.spares spares) first
  | kmalloc returned rest =>
    cases first
    exact ⟨_, _, tracks, returned, rest⟩

theorem kfree_inv {ptr : Nat} {calls : List HeapCall} (serves : Serves h (.kfree ptr :: calls) h')
    (tracks : Tracks h live cs) :
    ∃ h₀ h₁, Tracks h₀ live cs ∧ Returns (Mm.kfree h₀ ptr) h₁ ∧ Serves h₁ calls h' := by
  generalize first : HeapCall.kfree ptr :: calls = all at serves
  induction serves with
  | done | kmalloc => cases first
  | store spares _ ih => exact ih (tracks.spares spares) first
  | kfree returned rest =>
    cases first
    exact ⟨_, _, tracks, returned, rest⟩

theorem split {xs ys : List HeapCall} (serves : Serves h (xs ++ ys) h') :
    ∃ h₁, Serves h xs h₁ ∧ Serves h₁ ys h' := by
  generalize whole : xs ++ ys = all at serves
  induction serves generalizing xs with
  | done h =>
    obtain ⟨rfl, rfl⟩ := List.append_eq_nil_iff.mp whole
    exact ⟨h, .done h, .done h⟩
  | store spares _ ih =>
    obtain ⟨h₁, first, second⟩ := ih whole
    exact ⟨h₁, .store spares first, second⟩
  | @kmalloc h _ _ _ _ _ returned rest ih =>
    cases xs with
    | nil =>
      cases whole
      exact ⟨h, .done h, .kmalloc returned rest⟩
    | cons x xs =>
      cases whole
      obtain ⟨h₁, first, second⟩ := ih rfl
      exact ⟨h₁, .kmalloc returned first, second⟩
  | @kfree h _ _ _ _ returned rest ih =>
    cases xs with
    | nil =>
      cases whole
      exact ⟨h, .done h, .kfree returned rest⟩
    | cons x xs =>
      cases whole
      obtain ⟨h₁, first, second⟩ := ih rfl
      exact ⟨h₁, .kfree returned first, second⟩

end Serves

theorem kfree_null {h h' : Heap} (returned : Returns (kfree h 0) h') : h' = h :=
  returned.unique (.of_all fun budget => by simp [Mm.kfree])

end

/-! ### Code that gives back what it takes -/

/-- The same tiling again, whatever was stored meanwhile. -/
theorem Nested.tracks {calls : List HeapCall} (nested : Nested calls) {h h' : Heap} {live : List Nat} {cs : List Cell}
    (serves : Serves h calls h') (tracks : Tracks h live cs) : Tracks h' live cs := by
  induction nested generalizing h h' live cs with
  | nil => exact serves.tracks_of_done tracks
  | @denied size rest _ ih =>
    obtain ⟨h₀, h₁, tracks₀, returned, later⟩ := serves.kmalloc_inv tracks
    rcases tracks₀.kmalloc size with ⟨failed, -⟩ | ⟨_, p, _, -, taken, -⟩
    · cases returned.unique failed
      exact ih later tracks₀
    · have null : 0 = p + blockHdr := congrArg Prod.snd (returned.unique taken)
      exact absurd null.symm (payload_ne_zero p)
  | @block size ptr inner rest _ _ ihInner ihRest =>
    obtain ⟨h₀, h₁, tracks₀, returned, later⟩ := serves.kmalloc_inv tracks
    obtain ⟨h₂, within, after⟩ := later.split
    rcases tracks₀.kmalloc size with ⟨failed, -⟩ | ⟨_, p, ds, carved, taken, tracks₁⟩
    · cases returned.unique failed
      obtain ⟨h₃, h₄, tracks₃, freed, last⟩ := after.kfree_inv (ihInner within tracks₀)
      cases kfree_null freed
      exact ihRest last tracks₃
    · cases returned.unique taken
      obtain ⟨h₃, h₄, tracks₃, freed, last⟩ := after.kfree_inv (ihInner within tracks₁)
      obtain ⟨_, q, _, es, same, -, rfl, freed', tracks₄⟩ := tracks₃.kfree List.mem_cons_self
      cases freed.unique freed'
      obtain rfl : p = q := by omega
      rw [tracks₀.restored carved tracks₄, List.erase_cons_head] at tracks₄
      exact ihRest last tracks₄

theorem Nested.liveBlocks_eq {calls : List HeapCall} (nested : Nested calls) {h h' : Heap} {live : List Nat}
    (run : Reachable h live) (serves : Serves h calls h') : liveBlocks h' = liveBlocks h := by
  obtain ⟨cs, tracks⟩ := run.tracks
  rw [(nested.tracks serves tracks).liveBlocks_eq, tracks.liveBlocks_eq]

/-- A block that is taken and not given back is live that was not. -/
theorem liveBlocks_of_taken {h h' : Heap} {live : List Nat} (run : Reachable h live) {size ptr : Nat}
    (serves : Serves h [.kmalloc size ptr] h') (granted : ptr ≠ 0) : liveBlocks h' ≠ liveBlocks h := by
  obtain ⟨cs, tracks⟩ := run.tracks
  obtain ⟨h₀, h₁, tracks₀, returned, rest⟩ := serves.kmalloc_inv tracks
  rcases tracks₀.kmalloc size with ⟨failed, -⟩ | ⟨_, p, ds, carved, taken, tracks₁⟩
  · cases returned.unique failed
    exact absurd rfl granted
  · cases returned.unique taken
    have fresh := (List.nodup_cons.mp tracks₁.nodup).1
    obtain ⟨q, n, there, same⟩ := (tracks₁.pointers _).mp List.mem_cons_self
    rw [(rest.tracks_of_done tracks₁).liveBlocks_eq, tracks.liveBlocks_eq]
    intro equal
    have before : (q, n) ∈ {r : Nat × Nat | Live blockHdr heapStart cs r.1 r.2} := equal ▸ there
    exact fresh ((tracks.pointers _).mpr ⟨q, n, before, same⟩)

/-- The first block of 512 bytes lies at the start of the heap, and can be given back. -/
theorem first_sector_block (boot : Heap) : ∃ h₁ h₂, Returns (kmalloc (mmInit boot) 512) (h₁, heapStart + blockHdr) ∧
    Returns (kfree h₁ (heapStart + blockHdr)) h₂ := by
  rcases (tracks_mmInit boot).kmalloc 512 with ⟨-, missed⟩ | ⟨h₁, p, ds, carved, taken, tracks⟩
  · exact absurd (missed (by decide)) (by decide)
  · have first : carve blockHdr align (alignUp 512) heapStart [⟨heapSize - blockHdr, true⟩] =
        some (heapStart, [⟨512, false⟩, ⟨heapSize - blockHdr - 512 - blockHdr, true⟩]) := by decide
    obtain ⟨rfl, -⟩ := Prod.mk.inj (Option.some.inj (carved.symm.trans first))
    obtain ⟨h₂, _, _, _, -, -, -, freed, -⟩ := tracks.kfree List.mem_cons_self
    exact ⟨h₁, h₂, taken, freed⟩

/-- A heap of one live block has no sector's worth left. -/
theorem exhausted (boot : Heap) : ∃ h live, Reachable h live ∧ Returns (kmalloc h 512) (h, 0) := by
  let whole := heapSize - 16
  rcases (tracks_mmInit boot).kmalloc whole with ⟨-, missed⟩ | ⟨h, p, ds, carved, taken, tracks⟩
  · exact absurd (missed (by decide)) (by decide)
  · have first : carve blockHdr align (alignUp whole) heapStart [⟨heapSize - blockHdr, true⟩] =
        some (heapStart, [⟨heapSize - blockHdr, false⟩]) := by decide
    obtain ⟨-, rfl⟩ := Prod.mk.inj (Option.some.inj (carved.symm.trans first))
    refine ⟨h, _, .kmalloc (.init boot) (by decide) taken, ?_⟩
    rcases tracks.kmalloc 512 with ⟨failed, -⟩ | ⟨_, _, _, found, -⟩
    · exact failed
    · have none : carve blockHdr align (alignUp 512) heapStart [⟨heapSize - blockHdr, false⟩] = none := by decide
      exact nomatch none.symm.trans found

end ChrisOS.Kernel.Mm
