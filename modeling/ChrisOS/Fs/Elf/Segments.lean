import ChrisOS.Fs.Elf
import Mathlib.Data.List.Range

/-! What the segment loops of elf_load leave in memory.

The loops read the headers again and again while they store. As long as no store hits the
headers, they act on the headers that they started with.
-/

set_option autoImplicit false

namespace ChrisOS.Fs.Elf
open ChrisOS.Lib

/-- sizeof(elf32_phdr_t). -/
def phdrSize : Nat := 32

/-- The program header with index `i`. -/
def headerAt (mem : Mem) (data i : Nat) : Nat := u32 (data + phoff mem data + i * phentsize mem data)

/-- The header has its segment loaded. -/
def Loads (mem : Mem) (ph : Nat) : Prop := phType mem ph = ptLoad ∧ phMemsz mem ph ≠ 0

/-- How many bytes both inner loops store. -/
def extent (mem : Mem) (ph : Nat) : Nat := max (phFilesz mem ph) (phMemsz mem ph)

/-! ### Memory that is left alone -/

/-- The region holds what it held at first. -/
def Keeps (region : Nat → Prop) (m₀ mem : Mem) : Prop := ∀ a, region a → mem a = m₀ a

/-- The `n` bytes from `p` on lie in the region. -/
def Spans (region : Nat → Prop) (p n : Nat) : Prop := ∀ k, k < n → region (u32 (p + k))

section
variable {region : Nat → Prop} {m₀ mem : Mem} {p n : Nat}

theorem Keeps.refl (region : Nat → Prop) (mem : Mem) : Keeps region mem mem := fun _ _ => rfl

theorem Keeps.apply (keeps : Keeps region m₀ mem) {stores : Stores} (clear : ∀ w ∈ stores, ¬region w.1) :
    Keeps region m₀ (Writes.apply stores mem) := by
  intro a inside
  rw [Writes.apply_other]
  · exact keeps a inside
  · rintro w member rfl
    exact clear w member inside

theorem Keeps.update (keeps : Keeps region m₀ mem) {a : Nat} (v : UInt8) (clear : ¬region a) :
    Keeps region m₀ (Function.update mem a v) := by
  have outside : ∀ w ∈ [(a, v)], ¬region w.1 := List.forall_mem_singleton.mpr clear
  exact keeps.apply outside

theorem Keeps.word32 (keeps : Keeps region m₀ mem) (spans : Spans region p n) {off : Nat} (inside : off + 4 ≤ n) :
    word32 (bytesAt mem p) off = word32 (bytesAt m₀ p) off :=
  word32_congr fun k small => keeps _ (spans (off + k) (by omega))

theorem Keeps.word16 (keeps : Keeps region m₀ mem) (spans : Spans region p n) {off : Nat} (inside : off + 2 ≤ n) :
    word16 (bytesAt mem p) off = word16 (bytesAt m₀ p) off :=
  word16_congr fun k small => keeps _ (spans (off + k) (by omega))

end

/-- The region holds every header, and no segment is loaded there. -/
structure Sheltered (region : Nat → Prop) (m₀ : Mem) (data : Nat) : Prop where
  header : Spans region data hdrSize
  table : ∀ i, i < phnum m₀ data → Spans region (headerAt m₀ data i) phdrSize
  clear : ∀ i, i < phnum m₀ data → Loads m₀ (headerAt m₀ data i) →
    ∀ k, k < extent m₀ (headerAt m₀ data i) → ¬region (u32 (phVaddr m₀ (headerAt m₀ data i) + k))

section
variable {region : Nat → Prop} {m₀ mem : Mem} {data ph dest : Nat}

/-! ### The inner loops -/

theorem copyLoop_addresses (keeps : Keeps region m₀ mem) (spans : Spans region ph phdrSize) {left b : Nat}
    (enough : phFilesz m₀ ph ≤ b + left) (clear : ∀ k, k < phFilesz m₀ ph → ¬region (u32 (dest + k))) :
    (copyLoop data ph dest left b mem).map Prod.fst =
      (List.range' b (phFilesz m₀ ph - b)).map fun k => u32 (dest + k) := by
  induction left generalizing b mem with
  | zero =>
    have none : phFilesz m₀ ph - b = 0 := by omega
    rw [copyLoop, none]
    rfl
  | succ left ih =>
    have filesz : phFilesz mem ph = phFilesz m₀ ph := keeps.word32 spans (by decide)
    rw [copyLoop, filesz]
    split
    · rename_i more
      have rest : phFilesz m₀ ph - b = phFilesz m₀ ph - (b + 1) + 1 := by omega
      rw [rest, List.range'_succ, List.map_cons, List.map_cons, ih (keeps.update _ (clear b more)) (by omega)]
    · have none : phFilesz m₀ ph - b = 0 := by omega
      rw [none]
      rfl

theorem zeroLoop_addresses (keeps : Keeps region m₀ mem) (spans : Spans region ph phdrSize) {left b : Nat}
    (enough : phMemsz m₀ ph ≤ b + left) (clear : ∀ k, k < phMemsz m₀ ph → ¬region (u32 (dest + k))) :
    (zeroLoop ph dest left b mem).map Prod.fst =
      (List.range' b (phMemsz m₀ ph - b)).map fun k => u32 (dest + k) := by
  induction left generalizing b mem with
  | zero =>
    have none : phMemsz m₀ ph - b = 0 := by omega
    rw [zeroLoop, none]
    rfl
  | succ left ih =>
    have memsz : phMemsz mem ph = phMemsz m₀ ph := keeps.word32 spans (by decide)
    rw [zeroLoop, memsz]
    split
    · rename_i more
      have rest : phMemsz m₀ ph - b = phMemsz m₀ ph - (b + 1) + 1 := by omega
      rw [rest, List.range'_succ, List.map_cons, List.map_cons, ih (keeps.update _ (clear b more)) (by omega)]
    · have none : phMemsz m₀ ph - b = 0 := by omega
      rw [none]
      rfl

theorem mem_addresses {stores : Stores} {at_ : Nat → Nat} {b n : Nat}
    (addresses : stores.map Prod.fst = (List.range' b n).map at_) {w : Nat × UInt8} (member : w ∈ stores) :
    ∃ k, b ≤ k ∧ k < b + n ∧ w.1 = at_ k := by
  have listed : w.1 ∈ (List.range' b n).map at_ := addresses ▸ List.mem_map_of_mem member
  obtain ⟨k, inside, same⟩ := List.mem_map.mp listed
  obtain ⟨lower, upper⟩ := List.mem_range'_1.mp inside
  exact ⟨k, lower, upper, same.symm⟩

/-! ### One segment -/

theorem loadSegment_skips (skipped : ¬Loads mem ph) : loadSegment data ph mem = ([], []) := by
  unfold loadSegment
  split
  · rfl
  · rename_i load
    by_cases empty : phMemsz mem ph = 0
    · rw [if_pos empty]
    · exact absurd ⟨not_not.mp load, empty⟩ skipped

/-- The stores of both inner loops, with the loops in the memory they run in. -/
theorem loadSegment_loads (loads : Loads mem ph) :
    (loadSegment data ph mem).1 = copyLoop data ph (phVaddr mem ph) (2 ^ 32) 0 mem ++
      zeroLoop ph (phVaddr mem ph) (2 ^ 32)
        (phFilesz (Writes.apply (copyLoop data ph (phVaddr mem ph) (2 ^ 32) 0 mem) mem) ph)
        (Writes.apply (copyLoop data ph (phVaddr mem ph) (2 ^ 32) 0 mem) mem) := by
  unfold loadSegment
  rw [if_neg (not_not.mpr loads.1), if_neg loads.2]

theorem Keeps.loads (keeps : Keeps region m₀ mem) (spans : Spans region ph phdrSize) : Loads mem ph ↔ Loads m₀ ph := by
  have type : phType mem ph = phType m₀ ph := keeps.word32 spans (by decide)
  have memsz : phMemsz mem ph = phMemsz m₀ ph := keeps.word32 spans (by decide)
  rw [Loads, Loads, type, memsz]

theorem phFilesz_lt (mem : Mem) (ph : Nat) : phFilesz mem ph < 2 ^ 32 := word32_lt ..

theorem phMemsz_lt (mem : Mem) (ph : Nat) : phMemsz mem ph < 2 ^ 32 := word32_lt ..

theorem phVaddr_lt (mem : Mem) (ph : Nat) : phVaddr mem ph < 2 ^ 32 := word32_lt ..

theorem copyLoop_whole (data : Nat) (keeps : Keeps region m₀ mem) (spans : Spans region ph phdrSize)
    (clear : ∀ k, k < phFilesz m₀ ph → ¬region (u32 (dest + k))) :
    (copyLoop data ph dest (2 ^ 32) 0 mem).map Prod.fst =
      (List.range' 0 (phFilesz m₀ ph)).map fun k => u32 (dest + k) := by
  have small := phFilesz_lt m₀ ph
  exact copyLoop_addresses keeps spans (by omega) clear

theorem copyLoop_keeps (keeps : Keeps region m₀ mem) (spans : Spans region ph phdrSize)
    (clear : ∀ k, k < phFilesz m₀ ph → ¬region (u32 (dest + k))) :
    Keeps region m₀ (Writes.apply (copyLoop data ph dest (2 ^ 32) 0 mem) mem) := by
  have copied := copyLoop_whole data keeps spans clear
  apply keeps.apply
  intro w member
  obtain ⟨k, -, below, same⟩ := mem_addresses copied member
  rw [same]
  exact clear k (by omega)

theorem loadSegment_addresses (keeps : Keeps region m₀ mem) (spans : Spans region ph phdrSize) (loads : Loads m₀ ph)
    (clear : ∀ k, k < extent m₀ ph → ¬region (u32 (phVaddr m₀ ph + k))) :
    (loadSegment data ph mem).1.map Prod.fst = (List.range (extent m₀ ph)).map fun k => u32 (phVaddr m₀ ph + k) := by
  have vaddr : phVaddr mem ph = phVaddr m₀ ph := keeps.word32 spans (by decide)
  have small := phFilesz_lt m₀ ph
  have small' := phMemsz_lt m₀ ph
  have first (k : Nat) (below : k < phFilesz m₀ ph) : ¬region (u32 (phVaddr m₀ ph + k)) :=
    clear k (Nat.lt_of_lt_of_le below (Nat.le_max_left ..))
  have copied := copyLoop_whole data keeps spans first
  have kept : Keeps region m₀ (Writes.apply (copyLoop data ph (phVaddr m₀ ph) (2 ^ 32) 0 mem) mem) :=
    copyLoop_keeps keeps spans first
  have filesz : phFilesz (Writes.apply (copyLoop data ph (phVaddr m₀ ph) (2 ^ 32) 0 mem) mem) ph = phFilesz m₀ ph :=
    kept.word32 spans (by decide)
  have enough : phMemsz m₀ ph ≤ phFilesz m₀ ph + 2 ^ 32 := by omega
  have second (k : Nat) (below : k < phMemsz m₀ ph) : ¬region (u32 (phVaddr m₀ ph + k)) :=
    clear k (Nat.lt_of_lt_of_le below (Nat.le_max_right ..))
  have zeroed := zeroLoop_addresses kept spans enough second
  have length : extent m₀ ph = phFilesz m₀ ph + (phMemsz m₀ ph - phFilesz m₀ ph) := by
    unfold extent
    omega
  rw [loadSegment_loads ((keeps.loads spans).mpr loads), vaddr, filesz, List.map_append, copied, zeroed,
    List.range_eq_range', length, ← List.range'_append_1, List.map_append, Nat.zero_add]

theorem loadSegment_keeps (keeps : Keeps region m₀ mem) (spans : Spans region ph phdrSize)
    (clear : Loads m₀ ph → ∀ k, k < extent m₀ ph → ¬region (u32 (phVaddr m₀ ph + k))) :
    Keeps region m₀ (Writes.apply (loadSegment data ph mem).1 mem) := by
  by_cases loads : Loads m₀ ph
  · have stored : (loadSegment data ph mem).1.map Prod.fst = _ := loadSegment_addresses keeps spans loads (clear loads)
    rw [List.range_eq_range'] at stored
    apply keeps.apply
    intro w member
    obtain ⟨k, -, below, same⟩ := mem_addresses stored member
    rw [same]
    exact clear loads k (by omega)
  · rw [loadSegment_skips fun there => loads ((keeps.loads spans).mp there)]
    exact keeps

/-! ### All segments -/

theorem Sheltered.headerAt_eq (sheltered : Sheltered region m₀ data) (keeps : Keeps region m₀ mem) (i : Nat) :
    headerAt mem data i = headerAt m₀ data i := by
  have phoff : phoff mem data = phoff m₀ data := keeps.word32 sheltered.header (by decide)
  have phentsize : phentsize mem data = phentsize m₀ data := keeps.word16 sheltered.header (by decide)
  rw [headerAt, headerAt, phoff, phentsize]

theorem Sheltered.phnum_eq (sheltered : Sheltered region m₀ data) (keeps : Keeps region m₀ mem) :
    phnum mem data = phnum m₀ data := keeps.word16 sheltered.header (by decide)

theorem Sheltered.segment (sheltered : Sheltered region m₀ data) (keeps : Keeps region m₀ mem) {i : Nat}
    (bound : i < phnum m₀ data) :
    Keeps region m₀ (Writes.apply (loadSegment data (headerAt m₀ data i) mem).1 mem) :=
  loadSegment_keeps keeps (sheltered.table i bound) (sheltered.clear i bound)

/-- One turn of the loop over headers. -/
theorem Sheltered.turn (sheltered : Sheltered region m₀ data) (keeps : Keeps region m₀ mem) {i : Nat} (left : Nat)
    (bound : i < phnum m₀ data) : (loadSegments data (left + 1) i mem).1 =
      (loadSegment data (headerAt m₀ data i) mem).1 ++ (loadSegments data left (i + 1)
        (Writes.apply (loadSegment data (headerAt m₀ data i) mem).1 mem)).1 := by
  rw [← sheltered.headerAt_eq keeps, loadSegments, if_pos (by rw [sheltered.phnum_eq keeps]; exact bound)]
  rfl

theorem Sheltered.done (sheltered : Sheltered region m₀ data) (keeps : Keeps region m₀ mem) {i : Nat} (left : Nat)
    (above : phnum m₀ data ≤ i) : (loadSegments data left i mem).1 = [] := by
  cases left with
  | zero => rfl
  | succ left => rw [loadSegments, if_neg (by rw [sheltered.phnum_eq keeps]; omega)]

theorem Sheltered.keeps (sheltered : Sheltered region m₀ data) (keeps : Keeps region m₀ mem) (left i : Nat) :
    Keeps region m₀ (Writes.apply (loadSegments data left i mem).1 mem) := by
  induction left generalizing i mem with
  | zero => exact keeps
  | succ left ih =>
    by_cases bound : i < phnum m₀ data
    · rw [sheltered.turn keeps left bound, Writes.apply_append]
      exact ih (sheltered.segment keeps bound) (i + 1)
    · rw [sheltered.done keeps (left + 1) (Nat.le_of_not_lt bound)]
      exact keeps

end

/-! ### A well-formed file -/

/-- Memory with the segment of a header laid over it: the bytes of the file, then zeros. -/
def overlay (m₀ : Mem) (data ph : Nat) (mem : Mem) : Mem := fun a =>
  if phType m₀ ph = ptLoad ∧ phVaddr m₀ ph ≤ a ∧ a < phVaddr m₀ ph + phMemsz m₀ ph then
    if a < phVaddr m₀ ph + phFilesz m₀ ph then m₀ (data + phOffset m₀ ph + (a - phVaddr m₀ ph)) else 0
  else mem a

/-- Memory with every segment of the file laid over it, in the order of the headers. -/
def image (m₀ : Mem) (data : Nat) : Mem :=
  (List.range (phnum m₀ data)).foldl (fun mem i => overlay m₀ data (headerAt m₀ data i) mem) m₀

/-- The segment lies in the file and in memory, and away from the file's buffer. -/
structure FitSegment (m₀ : Mem) (data size ph : Nat) : Prop where
  contents : phOffset m₀ ph + phFilesz m₀ ph ≤ size
  fits : phFilesz m₀ ph ≤ phMemsz m₀ ph
  space : phVaddr m₀ ph + phMemsz m₀ ph ≤ 2 ^ 32
  apart : ∀ a, phVaddr m₀ ph ≤ a → a < phVaddr m₀ ph + phMemsz m₀ ph → ¬(data ≤ a ∧ a < data + size)

/-- The `size` bytes at `data` are a well-formed 32-bit x86 executable. -/
structure WellFormed (m₀ : Mem) (data size : Nat) : Prop where
  buffer : data + size ≤ 2 ^ 32
  short : size < 2 ^ 31
  header : hdrSize ≤ size
  magic : magic m₀ data = elfMagic
  bits : bits m₀ data = 1
  machine : machine m₀ data = em386
  type : type m₀ data = etExec
  entries : phdrSize ≤ phentsize m₀ data
  table : phoff m₀ data + phnum m₀ data * phentsize m₀ data ≤ size
  segments : ∀ i, i < phnum m₀ data → phType m₀ (headerAt m₀ data i) = ptLoad →
    FitSegment m₀ data size (headerAt m₀ data i)

section
variable {m₀ mem : Mem} {data size ph : Nat}

/-- The bytes of the file's buffer. -/
def Buffer (data size : Nat) (a : Nat) : Prop := data ≤ a ∧ a < data + size

theorem buffer_spans {p n : Nat} (lower : data ≤ p) (upper : p + n ≤ data + size) (buffer : data + size ≤ 2 ^ 32) :
    Spans (Buffer data size) p n := by
  intro k small
  rw [u32_of_lt (by omega)]
  exact ⟨by omega, by omega⟩

theorem copyLoop_apply (buffer : data + size ≤ 2 ^ 32) (fit : FitSegment m₀ data size ph)
    (spans : Spans (Buffer data size) ph phdrSize) (keeps : Keeps (Buffer data size) m₀ mem) {left b : Nat}
    (enough : phFilesz m₀ ph ≤ b + left) (a : Nat) :
    Writes.apply (copyLoop data ph (phVaddr m₀ ph) left b mem) mem a =
      if phVaddr m₀ ph + b ≤ a ∧ a < phVaddr m₀ ph + phFilesz m₀ ph then
        m₀ (data + phOffset m₀ ph + (a - phVaddr m₀ ph)) else mem a := by
  obtain ⟨contents, fits, space, apart⟩ := fit
  induction left generalizing b mem with
  | zero =>
    rw [copyLoop, if_neg (by omega)]
    rfl
  | succ left ih =>
    have filesz : phFilesz mem ph = phFilesz m₀ ph := keeps.word32 spans (by decide)
    have offset : phOffset mem ph = phOffset m₀ ph := keeps.word32 spans (by decide)
    rw [copyLoop, filesz, offset]
    split
    · rename_i more
      have target : u32 (phVaddr m₀ ph + b) = phVaddr m₀ ph + b := u32_of_lt (by omega)
      have source : u32 (data + u32 (phOffset m₀ ph + b)) = data + phOffset m₀ ph + b := by
        rw [u32_of_lt (n := phOffset m₀ ph + b) (by omega), u32_of_lt (by omega), Nat.add_assoc]
      have byte : mem (data + phOffset m₀ ph + b) = m₀ (data + phOffset m₀ ph + b) := keeps _ ⟨by omega, by omega⟩
      have kept := keeps.update (m₀ (data + phOffset m₀ ph + b)) (apart (phVaddr m₀ ph + b) (by omega) (by omega))
      rw [Writes.apply_cons]
      simp only [target, source, byte]
      rw [ih kept (by omega)]
      by_cases here : a = phVaddr m₀ ph + b
      · subst here
        rw [if_neg (by omega), Function.update_self, if_pos (by omega), Nat.add_sub_cancel_left]
      · rw [Function.update_of_ne here]
        exact if_congr (by omega) rfl rfl
    · rw [if_neg (by omega)]
      rfl

theorem zeroLoop_apply (fit : FitSegment m₀ data size ph) (spans : Spans (Buffer data size) ph phdrSize)
    (keeps : Keeps (Buffer data size) m₀ mem) {left b : Nat} (enough : phMemsz m₀ ph ≤ b + left) (a : Nat) :
    Writes.apply (zeroLoop ph (phVaddr m₀ ph) left b mem) mem a =
      if phVaddr m₀ ph + b ≤ a ∧ a < phVaddr m₀ ph + phMemsz m₀ ph then 0 else mem a := by
  obtain ⟨-, fits, space, apart⟩ := fit
  induction left generalizing b mem with
  | zero =>
    rw [zeroLoop, if_neg (by omega)]
    rfl
  | succ left ih =>
    have memsz : phMemsz mem ph = phMemsz m₀ ph := keeps.word32 spans (by decide)
    rw [zeroLoop, memsz]
    split
    · rename_i more
      have target : u32 (phVaddr m₀ ph + b) = phVaddr m₀ ph + b := u32_of_lt (by omega)
      have kept := keeps.update 0 (apart (phVaddr m₀ ph + b) (by omega) (by omega))
      rw [Writes.apply_cons]
      simp only [target]
      rw [ih kept (by omega)]
      by_cases here : a = phVaddr m₀ ph + b
      · subst here
        rw [if_neg (by omega), Function.update_self, if_pos (by omega)]
      · rw [Function.update_of_ne here]
        exact if_congr (by omega) rfl rfl
    · rw [if_neg (by omega)]
      rfl

theorem loadSegment_apply (buffer : data + size ≤ 2 ^ 32) (spans : Spans (Buffer data size) ph phdrSize)
    (fit : phType m₀ ph = ptLoad → FitSegment m₀ data size ph) (keeps : Keeps (Buffer data size) m₀ mem) :
    Writes.apply (loadSegment data ph mem).1 mem = overlay m₀ data ph mem := by
  funext a
  by_cases loads : Loads m₀ ph
  · have fit := fit loads.1
    have filesz_lt := phFilesz_lt m₀ ph
    have memsz_lt := phMemsz_lt m₀ ph
    have vaddr : phVaddr mem ph = phVaddr m₀ ph := keeps.word32 spans (by decide)
    have enough : phFilesz m₀ ph ≤ 0 + 2 ^ 32 := by omega
    have copied := copyLoop_apply buffer fit spans keeps enough
    have kept : Keeps (Buffer data size) m₀ (Writes.apply (copyLoop data ph (phVaddr m₀ ph) (2 ^ 32) 0 mem) mem) := by
      intro x inside
      rw [copied, if_neg, keeps x inside]
      intro within
      exact fit.apart x (by omega) (Nat.lt_of_lt_of_le within.2 (Nat.add_le_add_left fit.fits _)) inside
    have filesz : phFilesz (Writes.apply (copyLoop data ph (phVaddr m₀ ph) (2 ^ 32) 0 mem) mem) ph = phFilesz m₀ ph :=
      kept.word32 spans (by decide)
    rw [loadSegment_loads ((keeps.loads spans).mpr loads), vaddr, filesz, Writes.apply_append,
      zeroLoop_apply fit spans kept (by omega), copied, overlay]
    have fits := fit.fits
    by_cases inside : phVaddr m₀ ph ≤ a ∧ a < phVaddr m₀ ph + phMemsz m₀ ph
    · have outer : phType m₀ ph = ptLoad ∧ phVaddr m₀ ph ≤ a ∧ a < phVaddr m₀ ph + phMemsz m₀ ph := ⟨loads.1, inside⟩
      rw [if_pos outer]
      by_cases first : a < phVaddr m₀ ph + phFilesz m₀ ph
      · rw [if_neg (by omega), if_pos (by omega), if_pos first]
      · rw [if_pos (by omega), if_neg first]
    · rw [if_neg (by omega), if_neg (by omega), if_neg fun is => inside is.2]
  · rw [loadSegment_skips fun there => loads ((keeps.loads spans).mp there), overlay, if_neg]
    · rfl
    · rintro ⟨type, lower, upper⟩
      exact loads ⟨type, by omega⟩

namespace WellFormed

theorem inTable (well : WellFormed m₀ data size) {i : Nat} (bound : i < phnum m₀ data) :
    data ≤ headerAt m₀ data i ∧ headerAt m₀ data i + phdrSize ≤ data + size := by
  have step : (i + 1) * phentsize m₀ data ≤ phnum m₀ data * phentsize m₀ data := Nat.mul_le_mul_right _ bound
  rw [Nat.add_mul, Nat.one_mul] at step
  have buffer := well.buffer
  have table := well.table
  have entries := well.entries
  have short := well.short
  unfold headerAt
  unfold phdrSize at entries ⊢
  rw [u32_of_lt (by omega)]
  omega

theorem sheltered (well : WellFormed m₀ data size) : Sheltered (Buffer data size) m₀ data := by
  have header := well.header
  refine ⟨buffer_spans (Nat.le_refl _) (by omega) well.buffer, fun i bound => ?_, fun i bound loads k below => ?_⟩
  · obtain ⟨lower, upper⟩ := well.inTable bound
    exact buffer_spans lower upper well.buffer
  · have fit := well.segments i bound loads.1
    have fits := fit.fits
    have space := fit.space
    unfold extent at below
    rw [u32_of_lt (by omega)]
    exact fit.apart _ (by omega) (by omega)

theorem loadSegments_apply (well : WellFormed m₀ data size) (keeps : Keeps (Buffer data size) m₀ mem) {left i : Nat}
    (enough : phnum m₀ data ≤ i + left) :
    Writes.apply (loadSegments data left i mem).1 mem =
      (List.range' i (phnum m₀ data - i)).foldl (fun mem i => overlay m₀ data (headerAt m₀ data i) mem) mem := by
  induction left generalizing i mem with
  | zero =>
    have none : phnum m₀ data - i = 0 := by omega
    rw [none]
    rfl
  | succ left ih =>
    by_cases bound : i < phnum m₀ data
    · obtain ⟨lower, upper⟩ := well.inTable bound
      have spans : Spans (Buffer data size) (headerAt m₀ data i) phdrSize := buffer_spans lower upper well.buffer
      have rest : phnum m₀ data - i = phnum m₀ data - (i + 1) + 1 := by omega
      rw [well.sheltered.turn keeps left bound, Writes.apply_append,
        ih (well.sheltered.segment keeps bound) (by omega), rest, List.range'_succ, List.foldl_cons,
        loadSegment_apply well.buffer spans (well.segments i bound) keeps]
    · have none : phnum m₀ data - i = 0 := by omega
      rw [well.sheltered.done keeps (left + 1) (Nat.le_of_not_lt bound), none]
      rfl

end WellFormed

/-- Past the checks, elf_load goes through the headers and hands out the entry. -/
theorem elfLoad_accepts {size : Nat} (header : hdrSize ≤ size) (magic : magic mem data = elfMagic)
    (bits : bits mem data = 1) (machine : machine mem data = em386) (type : type mem data = etExec) :
    (elfLoad mem data size).entryOut =
        some (entry (Writes.apply (loadSegments data (2 ^ 16) 0 mem).1 mem) data) ∧
      (elfLoad mem data size).stores = (loadSegments data (2 ^ 16) 0 mem).1 := by
  unfold elfLoad
  rw [if_neg (Nat.not_lt_of_le header), if_neg (not_not.mpr magic), if_neg (not_not.mpr bits),
    if_neg (not_not.mpr machine), if_neg (not_not.mpr type)]
  exact ⟨rfl, rfl⟩

/-- Bytes outside all segments are left as they are. -/
theorem image_other {a : Nat} (outside : ∀ i, i < phnum m₀ data → phType m₀ (headerAt m₀ data i) = ptLoad →
    ¬(phVaddr m₀ (headerAt m₀ data i) ≤ a ∧
      a < phVaddr m₀ (headerAt m₀ data i) + phMemsz m₀ (headerAt m₀ data i))) : image m₀ data a = m₀ a := by
  have step : ∀ is : List Nat, (∀ i ∈ is, i < phnum m₀ data) → ∀ mem : Mem,
      is.foldl (fun mem i => overlay m₀ data (headerAt m₀ data i) mem) mem a = mem a := by
    intro is
    induction is with
    | nil => exact fun _ _ => rfl
    | cons i is ih =>
      intro bounds mem
      obtain ⟨bound, rest⟩ := List.forall_mem_cons.mp bounds
      rw [List.foldl_cons, ih rest, overlay, if_neg]
      rintro ⟨type, within⟩
      exact outside i bound type within
  exact step _ (fun i member => List.mem_range.mp member) m₀

end

/-- A well-formed file is loaded: its segments lie in memory, and nothing else has changed. -/
theorem elfLoad_image {m₀ : Mem} {data size : Nat} (well : WellFormed m₀ data size) :
    (elfLoad m₀ data size).entryOut = some (entry m₀ data) ∧
      Writes.apply (elfLoad m₀ data size).stores m₀ = image m₀ data ∧
      ∀ a, (∀ i, i < phnum m₀ data → phType m₀ (headerAt m₀ data i) = ptLoad →
        ¬(phVaddr m₀ (headerAt m₀ data i) ≤ a ∧
          a < phVaddr m₀ (headerAt m₀ data i) + phMemsz m₀ (headerAt m₀ data i))) → image m₀ data a = m₀ a := by
  obtain ⟨handed, stores⟩ := elfLoad_accepts well.header well.magic well.bits well.machine well.type
  have start := Keeps.refl (Buffer data size) m₀
  have few : phnum m₀ data < 2 ^ 16 := word16_lt ..
  have kept := well.sheltered.keeps start (2 ^ 16) 0
  have same : entry (Writes.apply (loadSegments data (2 ^ 16) 0 m₀).1 m₀) data = entry m₀ data :=
    kept.word32 well.sheltered.header (by decide)
  refine ⟨by rw [handed, same], ?_, fun a => image_other⟩
  rw [stores, well.loadSegments_apply start (by omega), image, List.range_eq_range']
  rfl

/-- A file of one segment: four bytes, and four zeros behind them. -/
def tinyFile : List UInt8 :=
  [0x7F, 0x45, 0x4C, 0x46, 1, 0, 0, 0, 0, 0, 0, 0, 0, 0, 0, 0, 2, 0, 3, 0, 1, 0, 0, 0, 0, 0, 0x40, 0, 52, 0, 0, 0,
    0, 0, 0, 0, 0, 0, 0, 0, 52, 0, 32, 0, 1, 0, 0, 0, 0, 0, 0, 0,
    1, 0, 0, 0, 84, 0, 0, 0, 0, 0, 0x40, 0, 0, 0, 0x40, 0, 4, 0, 0, 0, 8, 0, 0, 0, 5, 0, 0, 0, 0, 0, 0, 0,
    0xEB, 0xFE, 0x90, 0x90]

/-- Memory with nothing in it but a file. -/
def memoryOf (file : List UInt8) (data : Nat) : Mem := fun a => if a < data then 0 else file.getD (a - data) 0

theorem tinyFile_wellFormed : WellFormed (memoryOf tinyFile 4096) 4096 88 := by
  refine ⟨by decide, by decide, by decide, by decide, by decide, by decide, by decide, by decide, by decide, ?_⟩
  intro i bound _
  have only : phnum (memoryOf tinyFile 4096) 4096 = 1 := by decide
  obtain rfl : i = 0 := by omega
  have vaddr : phVaddr (memoryOf tinyFile 4096) (headerAt (memoryOf tinyFile 4096) 4096 0) = 0x400000 := by decide
  refine ⟨by decide, by decide, by decide, fun a lower upper inside => ?_⟩
  omega

theorem elfLoad_image_tinyFile :
    (elfLoad (memoryOf tinyFile 4096) 4096 88).entryOut = some (entry (memoryOf tinyFile 4096) 4096) ∧
      Writes.apply (elfLoad (memoryOf tinyFile 4096) 4096 88).stores (memoryOf tinyFile 4096) =
        image (memoryOf tinyFile 4096) 4096 := by
  obtain ⟨handed, laid, -⟩ := elfLoad_image tinyFile_wellFormed
  exact ⟨handed, laid⟩

end ChrisOS.Fs.Elf
