import ChrisOS.Fs.Elf.Reads

/-! What elf_load may be told by a hostile file to read and to write.

None of the offsets and sizes in the headers are checked. A file is handled within its bounds
exactly when its own numbers keep them.
-/

set_option autoImplicit false

namespace ChrisOS.Fs.Elf
open ChrisOS.Lib

/-- The checks that elf_load makes. -/
def Passes (mem : Mem) (data size : Nat) : Prop :=
  hdrSize ≤ size ∧ magic mem data = elfMagic ∧ bits mem data = 1 ∧ machine mem data = em386 ∧ type mem data = etExec

/-- Every program header, and the contents of every segment to load, lie inside the file. -/
structure Inside (mem : Mem) (data size : Nat) : Prop where
  table : ∀ i, i < phnum mem data → phoff mem data + i * phentsize mem data + phdrSize ≤ size
  contents : ∀ i, i < phnum mem data → phType mem (headerAt mem data i) = ptLoad →
    phOffset mem (headerAt mem data i) + phFilesz mem (headerAt mem data i) ≤ size

/-- Memory when the loop comes to header `i`. -/
def before (mem : Mem) (data i : Nat) : Mem := Writes.apply (loadSegments data i 0 mem).1 mem

/-- The stores made for header `i`. -/
def storesFor (mem : Mem) (data i : Nat) : Stores :=
  (loadSegment data (headerAt (before mem data i) data i) (before mem data i)).1

/-- elf_load reads inside the file and stores inside the segments, and accepts no file that
reaches beyond its end. -/
structure Confined (mem : Mem) (data size : Nat) : Prop where
  reads : ∀ a ∈ elfLoadReads mem data size, data ≤ a ∧ a < data + size
  writes : (elfLoad mem data size).entryOut ≠ none → ∀ i, i < phnum mem data → ∀ w ∈ storesFor mem data i,
    phVaddr mem (headerAt mem data i) ≤ w.1 ∧
      w.1 < phVaddr mem (headerAt mem data i) + phMemsz mem (headerAt mem data i)
  rejects : ¬Inside mem data size →
    (elfLoad mem data size).entryOut = none ∧ Writes.apply (elfLoad mem data size).stores mem = mem

/-- The numbers of every segment that is loaded fit together and into memory. -/
def FitsMemory (mem : Mem) (data : Nat) : Prop :=
  ∀ i, i < phnum mem data → Loads mem (headerAt mem data i) →
    phFilesz mem (headerAt mem data i) ≤ phMemsz mem (headerAt mem data i) ∧
      phVaddr mem (headerAt mem data i) + phMemsz mem (headerAt mem data i) ≤ 2 ^ 32

/-- A byte of the ELF header or of a program header. -/
def HeaderByte (mem : Mem) (data a : Nat) : Prop :=
  (∃ k, k < hdrSize ∧ a = u32 (data + k)) ∨
    ∃ i, i < phnum mem data ∧ ∃ k, k < phdrSize ∧ a = u32 (headerAt mem data i + k)

/-- No segment is loaded over a header. -/
def SparesHeaders (mem : Mem) (data : Nat) : Prop :=
  ∀ i, i < phnum mem data → Loads mem (headerAt mem data i) → ∀ k, k < extent mem (headerAt mem data i) →
    ¬HeaderByte mem data (u32 (phVaddr mem (headerAt mem data i) + k))

section
variable {mem m₀ : Mem} {data size ph : Nat} {region allowed : Nat → Prop}

theorem SparesHeaders.sheltered (spares : SparesHeaders mem data) : Sheltered (HeaderByte mem data) mem data :=
  ⟨fun k small => .inl ⟨k, small, rfl⟩, fun i bound k small => .inr ⟨i, bound, k, small, rfl⟩, spares⟩

theorem elfLoad_rejects (fails : ¬Passes mem data size) :
    (elfLoad mem data size).entryOut = none ∧ (elfLoad mem data size).stores = [] := by
  unfold elfLoad
  split
  · exact ⟨rfl, rfl⟩
  split
  · exact ⟨rfl, rfl⟩
  split
  · exact ⟨rfl, rfl⟩
  split
  · exact ⟨rfl, rfl⟩
  split
  · exact ⟨rfl, rfl⟩
  rename_i large magic bits machine type
  exact absurd ⟨Nat.le_of_not_lt large, not_not.mp magic, not_not.mp bits, not_not.mp machine, not_not.mp type⟩ fails

/-! ### Stores -/

/-- Stores from `v` on stay in the `m` bytes there when they are no more and do not wrap. -/
theorem stretch_iff {v f m : Nat} (word : v < 2 ^ 32) (file : f < 2 ^ 32) (memory : m < 2 ^ 32) :
    (∀ k, k < max f m → v ≤ u32 (v + k) ∧ u32 (v + k) < v + m) ↔ f ≤ m ∧ v + m ≤ 2 ^ 32 := by
  constructor
  · intro within
    have space : v + m ≤ 2 ^ 32 := by
      by_contra wraps
      -- the first byte past the end of memory lands at address zero
      have first := (within (2 ^ 32 - v) (by omega)).1
      rw [Nat.add_sub_cancel' (Nat.le_of_lt word)] at first
      have zero : u32 (2 ^ 32) = 0 := rfl
      omega
    refine ⟨?_, space⟩
    by_contra more
    have next := within m (by omega)
    unfold u32 at next
    omega
  · rintro ⟨fits, space⟩ k below
    rw [u32_of_lt (by omega)]
    omega

theorem Sheltered.storesFor_eq (sheltered : Sheltered region mem data) (i : Nat) :
    storesFor mem data i = (loadSegment data (headerAt mem data i) (before mem data i)).1 := by
  have kept : Keeps region mem (before mem data i) := sheltered.keeps (.refl region mem) i 0
  rw [storesFor, sheltered.headerAt_eq kept]

theorem Sheltered.writes_iff (sheltered : Sheltered region mem data) :
    (∀ i, i < phnum mem data → ∀ w ∈ storesFor mem data i, phVaddr mem (headerAt mem data i) ≤ w.1 ∧
      w.1 < phVaddr mem (headerAt mem data i) + phMemsz mem (headerAt mem data i)) ↔ FitsMemory mem data := by
  refine forall₂_congr fun i bound => ?_
  have kept : Keeps region mem (before mem data i) := sheltered.keeps (.refl region mem) i 0
  have spans := sheltered.table i bound
  rw [sheltered.storesFor_eq i]
  by_cases loads : Loads mem (headerAt mem data i)
  · have stored : (loadSegment data (headerAt mem data i) (before mem data i)).1.map Prod.fst = _ :=
      loadSegment_addresses kept spans loads (sheltered.clear i bound loads)
    rw [← stretch_iff (phVaddr_lt ..) (phFilesz_lt ..) (phMemsz_lt ..)]
    have each (holds : Nat → Prop) : (∀ w ∈ (loadSegment data (headerAt mem data i) (before mem data i)).1, holds w.1) ↔
        ∀ k, k < extent mem (headerAt mem data i) → holds (u32 (phVaddr mem (headerAt mem data i) + k)) := by
      rw [← List.forall_mem_map (f := Prod.fst), stored, List.forall_mem_map]
      simp only [List.mem_range]
    rw [each fun a => phVaddr mem (headerAt mem data i) ≤ a ∧
      a < phVaddr mem (headerAt mem data i) + phMemsz mem (headerAt mem data i)]
    exact ⟨fun within _ => within, fun within => within loads⟩
  · have skipped : ¬Loads (before mem data i) (headerAt mem data i) := fun there => loads ((kept.loads spans).mp there)
    rw [loadSegment_skips skipped]
    simp [loads]

/-! ### Reads -/

theorem field_allowed {p off width n : Nat} (spans : Spans allowed p n) (inside : off + width ≤ n) :
    ∀ a ∈ field p off width, allowed a := by
  intro a member
  obtain ⟨k, small, rfl⟩ := List.mem_map.mp member
  have := List.mem_range.mp small
  exact spans (off + k) (by omega)

/-- What the copy loop reads: fields of the program header, and the contents of its segment. -/
theorem copyLoopReads_allowed (keeps : Keeps region m₀ mem) (spans : Spans region ph phdrSize)
    (header : Spans allowed ph phdrSize)
    (source : ∀ k, k < phFilesz m₀ ph → allowed (u32 (data + u32 (phOffset m₀ ph + k)))) {dest : Nat}
    (clear : ∀ k, k < phFilesz m₀ ph → ¬region (u32 (dest + k))) {left b : Nat} :
    ∀ a ∈ copyLoopReads data ph dest left b mem, allowed a := by
  induction left generalizing b mem with
  | zero => exact List.forall_mem_nil _
  | succ left ih =>
    have filesz : phFilesz mem ph = phFilesz m₀ ph := keeps.word32 spans (by decide)
    have offset : phOffset mem ph = phOffset m₀ ph := keeps.word32 spans (by decide)
    rw [copyLoopReads, filesz, offset]
    refine List.forall_mem_append.mpr ⟨field_allowed header (by decide), ?_⟩
    split
    · rename_i below
      refine List.forall_mem_append.mpr ⟨field_allowed header (by decide), List.forall_mem_cons.mpr ⟨source b below, ?_⟩⟩
      exact ih (keeps.update _ (clear b below))
    · exact List.forall_mem_nil _

theorem zeroLoopReads_allowed (keeps : Keeps region m₀ mem) (spans : Spans region ph phdrSize)
    (header : Spans allowed ph phdrSize) {dest : Nat} (clear : ∀ k, k < phMemsz m₀ ph → ¬region (u32 (dest + k)))
    {left b : Nat} : ∀ a ∈ zeroLoopReads ph dest left b mem, allowed a := by
  induction left generalizing b mem with
  | zero => exact List.forall_mem_nil _
  | succ left ih =>
    have memsz : phMemsz mem ph = phMemsz m₀ ph := keeps.word32 spans (by decide)
    rw [zeroLoopReads, memsz]
    refine List.forall_mem_append.mpr ⟨field_allowed header (by decide), ?_⟩
    split
    · rename_i below
      exact ih (keeps.update _ (clear b below))
    · exact List.forall_mem_nil _

theorem loadSegmentReads_allowed (keeps : Keeps region m₀ mem) (spans : Spans region ph phdrSize)
    (header : Spans allowed ph phdrSize)
    (source : Loads m₀ ph → ∀ k, k < phFilesz m₀ ph → allowed (u32 (data + u32 (phOffset m₀ ph + k))))
    (clear : Loads m₀ ph → ∀ k, k < extent m₀ ph → ¬region (u32 (phVaddr m₀ ph + k))) :
    ∀ a ∈ loadSegmentReads data ph mem, allowed a := by
  have fields (off : Nat) (inside : off + 4 ≤ phdrSize) : ∀ a ∈ field ph off 4, allowed a := field_allowed header inside
  rw [loadSegmentReads]
  refine List.forall_mem_append.mpr ⟨fields 0 (by decide), ?_⟩
  split
  · exact List.forall_mem_nil _
  rename_i load
  refine List.forall_mem_append.mpr ⟨fields 20 (by decide), ?_⟩
  split
  · exact List.forall_mem_nil _
  rename_i some
  have loads : Loads m₀ ph := (keeps.loads spans).mp ⟨not_not.mp load, some⟩
  have vaddr : phVaddr mem ph = phVaddr m₀ ph := keeps.word32 spans (by decide)
  have first (k : Nat) (below : k < phFilesz m₀ ph) : ¬region (u32 (phVaddr m₀ ph + k)) :=
    clear loads k (Nat.lt_of_lt_of_le below (Nat.le_max_left ..))
  have second (k : Nat) (below : k < phMemsz m₀ ph) : ¬region (u32 (phVaddr m₀ ph + k)) :=
    clear loads k (Nat.lt_of_lt_of_le below (Nat.le_max_right ..))
  simp only [List.forall_mem_append]
  rw [vaddr]
  refine ⟨⟨⟨⟨⟨⟨fields 8 (by decide), ?_⟩, fields 16 (by decide)⟩, ?_⟩, fields 8 (by decide)⟩, fields 16 (by decide)⟩,
    fields 20 (by decide)⟩
  · exact copyLoopReads_allowed keeps spans header (source loads) first
  · exact zeroLoopReads_allowed (copyLoop_keeps keeps spans first) spans header second

/-- The reads of the loop over headers, when no segment is loaded over a header. -/
theorem loadSegmentsReads_allowed (sheltered : Sheltered region m₀ data) (keeps : Keeps region m₀ mem)
    (header : Spans allowed data hdrSize)
    (table : ∀ i, i < phnum m₀ data → Spans allowed (headerAt m₀ data i) phdrSize)
    (source : ∀ i, i < phnum m₀ data → Loads m₀ (headerAt m₀ data i) → ∀ k, k < phFilesz m₀ (headerAt m₀ data i) →
      allowed (u32 (data + u32 (phOffset m₀ (headerAt m₀ data i) + k)))) {left i : Nat} :
    ∀ a ∈ loadSegmentsReads data left i mem, allowed a := by
  induction left generalizing i mem with
  | zero => exact List.forall_mem_nil _
  | succ left ih =>
    rw [loadSegmentsReads]
    refine List.forall_mem_append.mpr ⟨field_allowed header (by decide), ?_⟩
    split
    · rename_i more
      have bound : i < phnum m₀ data := sheltered.phnum_eq keeps ▸ more
      have here : u32 (data + phoff mem data + i * phentsize mem data) = headerAt m₀ data i :=
        sheltered.headerAt_eq keeps i
      simp only [List.forall_mem_append]
      rw [here]
      refine ⟨⟨⟨field_allowed header (by decide), field_allowed header (by decide)⟩, ?_⟩, ?_⟩
      · exact loadSegmentReads_allowed keeps (sheltered.table i bound) (table i bound) (source i bound)
          (sheltered.clear i bound)
      · exact ih (sheltered.segment keeps bound)
    · exact List.forall_mem_nil _

/-- The checks themselves read the ELF header only. -/
theorem elfLoadReads_allowed (header : hdrSize ≤ size → Spans allowed data hdrSize)
    (segments : Passes mem data size → ∀ a ∈ loadSegmentsReads data (2 ^ 16) 0 mem, allowed a) :
    ∀ a ∈ elfLoadReads mem data size, allowed a := by
  unfold elfLoadReads
  split
  · exact List.forall_mem_nil _
  rename_i large
  have spans := header (Nat.le_of_not_lt large)
  refine List.forall_mem_append.mpr ⟨field_allowed spans (by decide), ?_⟩
  split
  · exact List.forall_mem_nil _
  rename_i magic
  refine List.forall_mem_append.mpr ⟨field_allowed spans (by decide), ?_⟩
  split
  · exact List.forall_mem_nil _
  rename_i bits
  refine List.forall_mem_append.mpr ⟨field_allowed spans (by decide), ?_⟩
  split
  · exact List.forall_mem_nil _
  rename_i machine
  refine List.forall_mem_append.mpr ⟨field_allowed spans (by decide), ?_⟩
  split
  · exact List.forall_mem_nil _
  rename_i type
  have passes : Passes mem data size := ⟨Nat.le_of_not_lt large, not_not.mp magic, not_not.mp bits, not_not.mp machine,
    not_not.mp type⟩
  exact List.forall_mem_append.mpr ⟨segments passes, field_allowed spans (by decide)⟩

/-! ### The whole load -/

theorem Passes.accepted (passes : Passes mem data size) : (elfLoad mem data size).entryOut ≠ none := by
  obtain ⟨header, magic, bits, machine, type⟩ := passes
  rw [(elfLoad_accepts header magic bits machine type).1]
  exact Option.some_ne_none _

/-- Only a file that lies within itself may be accepted. -/
theorem Confined.inside (confined : Confined mem data size) (passes : Passes mem data size) : Inside mem data size := by
  by_contra outside
  exact passes.accepted (confined.rejects outside).1

theorem Inside.headerAt_eq (inside : Inside mem data size) (buffer : data + size ≤ 2 ^ 32) {i : Nat}
    (bound : i < phnum mem data) : headerAt mem data i = data + phoff mem data + i * phentsize mem data := by
  have table := inside.table i bound
  unfold phdrSize at table
  exact u32_of_lt (by omega)

theorem Inside.reads (inside : Inside mem data size) (buffer : data + size ≤ 2 ^ 32) (large : hdrSize ≤ size)
    (spares : SparesHeaders mem data) : ∀ a ∈ loadSegmentsReads data (2 ^ 16) 0 mem, Buffer data size a := by
  refine loadSegmentsReads_allowed spares.sheltered (.refl _ mem) ?_ ?_ ?_
  · exact buffer_spans (Nat.le_refl _) (by omega) buffer
  · intro i bound
    have table := inside.table i bound
    rw [inside.headerAt_eq buffer bound]
    exact buffer_spans (by omega) (by omega) buffer
  · intro i bound loads k below
    have contents := inside.contents i bound loads.1
    rw [u32_of_lt (n := phOffset mem (headerAt mem data i) + k) (by omega), u32_of_lt (by omega)]
    exact ⟨by omega, by omega⟩

theorem confined_of_numbers (buffer : data + size ≤ 2 ^ 32) (spares : Passes mem data size → SparesHeaders mem data)
    (numbers : Passes mem data size → Inside mem data size ∧ FitsMemory mem data) : Confined mem data size := by
  constructor
  · refine elfLoadReads_allowed (fun large => buffer_spans (Nat.le_refl _) (by omega) buffer) fun passes => ?_
    exact (numbers passes).1.reads buffer passes.1 (spares passes)
  · intro accepted
    by_cases passes : Passes mem data size
    · exact (spares passes).sheltered.writes_iff.mpr (numbers passes).2
    · exact absurd (elfLoad_rejects passes).1 accepted
  · intro outside
    obtain ⟨handed, stores⟩ := elfLoad_rejects fun passes => outside (numbers passes).1
    exact ⟨handed, by rw [stores, Writes.apply_nil]⟩

theorem WellFormed.sparesHeaders (well : WellFormed mem data size) : SparesHeaders mem data := by
  intro i bound loads k below header
  have clear := well.sheltered.clear i bound loads k below
  rcases header with ⟨j, small, same⟩ | ⟨h, first, j, small, same⟩
  · exact clear (same ▸ well.sheltered.header j small)
  · exact clear (same ▸ well.sheltered.table h first j small)

theorem WellFormed.numbers (well : WellFormed mem data size) : Inside mem data size ∧ FitsMemory mem data := by
  refine ⟨⟨fun i bound => ?_, fun i bound load => (well.segments i bound load).contents⟩, fun i bound loads => ?_⟩
  · have step : (i + 1) * phentsize mem data ≤ phnum mem data * phentsize mem data := Nat.mul_le_mul_right _ bound
    rw [Nat.add_mul, Nat.one_mul] at step
    have table := well.table
    have entries := well.entries
    omega
  · have fit := well.segments i bound loads.1
    exact ⟨fit.fits, fit.space⟩

/-- elf_load keeps to the file and its segments exactly when the file's own numbers do: where no
segment is loaded over a header, and in any case no further than the headers and contents reach. -/
theorem elfLoad_confined_iff (mem : Mem) (data size : Nat) (buffer : data + size ≤ 2 ^ 32) :
    ((Passes mem data size → SparesHeaders mem data) →
      (Confined mem data size ↔ (Passes mem data size → Inside mem data size ∧ FitsMemory mem data))) ∧
    (Confined mem data size → Passes mem data size → Inside mem data size) := by
  refine ⟨fun spares => ⟨fun confined passes => ⟨confined.inside passes, ?_⟩, confined_of_numbers buffer spares⟩,
    Confined.inside⟩
  exact (spares passes).sheltered.writes_iff.mp (confined.writes passes.accepted)

theorem elfLoad_confined_iff_tinyFile : Confined (memoryOf tinyFile 4096) 4096 88 := by
  have well := tinyFile_wellFormed
  exact ((elfLoad_confined_iff _ _ _ well.buffer).1 fun _ => well.sparesHeaders).mpr fun _ => well.numbers

/-- A file that ends before its program header table is accepted. -/
theorem elfLoad_confined_fails : ¬∀ mem data size, data + size ≤ 2 ^ 32 → Confined mem data size := by
  intro all
  have confined := all (memoryOf (tinyFile.take 52) 4096) 4096 52 (by decide)
  have passes : Passes (memoryOf (tinyFile.take 52) 4096) 4096 52 :=
    ⟨by decide, by decide, by decide, by decide, by decide⟩
  have table := (confined.inside passes).table 0 (by decide)
  exact absurd table (by decide)

end

end ChrisOS.Fs.Elf
