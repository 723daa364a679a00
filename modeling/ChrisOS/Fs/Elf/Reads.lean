import ChrisOS.Fs.Elf.Segments

/-! The bytes that elf_load reads through its pointers into the file.

The reads are collected along the same control flow as the stores. That nothing is missed
shows in `elfLoad_congr`: memory matters to elf_load at these addresses only.
-/

set_option autoImplicit false

namespace ChrisOS.Fs.Elf
open ChrisOS.Lib

/-- The addresses of a field at offset `off` from a pointer. -/
def field (p off width : Nat) : List Nat := (List.range width).map fun k => u32 (p + (off + k))

def copyLoopReads (data ph dest : Nat) : Nat → Nat → Mem → List Nat
  | 0, _, _ => []
  | left + 1, b, mem =>
    field ph 16 4 ++
      if b < phFilesz mem ph then
        let src := u32 (data + u32 (phOffset mem ph + b))
        field ph 4 4 ++ src ::
          copyLoopReads data ph dest left (b + 1) (Function.update mem (u32 (dest + b)) (mem src))
      else []

def zeroLoopReads (ph dest : Nat) : Nat → Nat → Mem → List Nat
  | 0, _, _ => []
  | left + 1, b, mem =>
    field ph 20 4 ++
      if b < phMemsz mem ph then zeroLoopReads ph dest left (b + 1) (Function.update mem (u32 (dest + b)) 0)
      else []

def loadSegmentReads (data ph : Nat) (mem : Mem) : List Nat :=
  field ph 0 4 ++
    if phType mem ph ≠ ptLoad then []
    else field ph 20 4 ++
      if phMemsz mem ph = 0 then []
      else
        let dest := phVaddr mem ph
        let copied := Writes.apply (copyLoop data ph dest (2 ^ 32) 0 mem) mem
        field ph 8 4 ++ copyLoopReads data ph dest (2 ^ 32) 0 mem ++
          field ph 16 4 ++ zeroLoopReads ph dest (2 ^ 32) (phFilesz copied ph) copied ++
          -- the arguments of klog
          field ph 8 4 ++ field ph 16 4 ++ field ph 20 4

def loadSegmentsReads (data : Nat) : Nat → Nat → Mem → List Nat
  | 0, _, _ => []
  | left + 1, i, mem =>
    field data 44 2 ++
      if i < phnum mem data then
        let ph := u32 (data + phoff mem data + i * phentsize mem data)
        field data 28 4 ++ field data 42 2 ++ loadSegmentReads data ph mem ++
          loadSegmentsReads data left (i + 1) (Writes.apply (loadSegment data ph mem).1 mem)
      else []

def elfLoadReads (mem : Mem) (data size : Nat) : List Nat :=
  if size < hdrSize then []
  else field data 0 4 ++
    if magic mem data ≠ elfMagic then []
    else field data 4 1 ++
      if bits mem data ≠ 1 then []
      else field data 18 2 ++
        if machine mem data ≠ em386 then []
        else field data 16 2 ++
          if type mem data ≠ etExec then []
          else loadSegmentsReads data (2 ^ 16) 0 mem ++ field data 24 4

/-! ### Nothing else matters -/

/-- The two memories agree at these addresses. -/
def Agree (reads : List Nat) (mem mem' : Mem) : Prop := ∀ a ∈ reads, mem' a = mem a

section
variable {mem mem' : Mem} {reads more : List Nat}

theorem agree_append : Agree (reads ++ more) mem mem' ↔ Agree reads mem mem' ∧ Agree more mem mem' :=
  List.forall_mem_append

theorem Agree.update (agree : Agree reads mem mem') (a : Nat) (v : UInt8) :
    Agree reads (Function.update mem a v) (Function.update mem' a v) := by
  intro x member
  by_cases here : x = a
  · rw [here, Function.update_self, Function.update_self]
  · rw [Function.update_of_ne here, Function.update_of_ne here]
    exact agree x member

theorem Agree.apply (agree : Agree reads mem mem') (stores : Stores) :
    Agree reads (Writes.apply stores mem) (Writes.apply stores mem') := by
  induction stores generalizing mem mem' with
  | nil => exact agree
  | cons w ws ih => exact ih (agree.update w.1 w.2)

theorem Agree.field {p off width : Nat} (agree : Agree (field p off width) mem mem') {k : Nat} (small : k < width) :
    bytesAt mem' p (off + k) = bytesAt mem p (off + k) :=
  agree _ (List.mem_map_of_mem (List.mem_range.mpr small))

theorem Agree.word32 {p off : Nat} (agree : Agree (Elf.field p off 4) mem mem') :
    word32 (bytesAt mem' p) off = word32 (bytesAt mem p) off := word32_congr fun _ small => agree.field small

theorem Agree.word16 {p off : Nat} (agree : Agree (Elf.field p off 2) mem mem') :
    word16 (bytesAt mem' p) off = word16 (bytesAt mem p) off := word16_congr fun _ small => agree.field small

end

theorem copyLoop_congr {data ph dest left b : Nat} {mem mem' : Mem}
    (agree : Agree (copyLoopReads data ph dest left b mem) mem mem') :
    copyLoop data ph dest left b mem' = copyLoop data ph dest left b mem := by
  induction left generalizing b mem mem' with
  | zero => rfl
  | succ left ih =>
    rw [copyLoopReads, agree_append] at agree
    have filesz : phFilesz mem' ph = phFilesz mem ph := agree.1.word32
    rw [copyLoop, copyLoop, filesz]
    split
    · rename_i below
      have inner := agree.2
      rw [if_pos below] at inner
      dsimp only at inner
      obtain ⟨fields, source, rest⟩ := agree_append.mp inner |>.imp_right List.forall_mem_cons.mp
      have offset : phOffset mem' ph = phOffset mem ph := fields.word32
      dsimp only
      rw [offset, source]
      exact congrArg _ (ih (Agree.update rest _ _))
    · rfl

theorem zeroLoop_congr {ph dest left b : Nat} {mem mem' : Mem}
    (agree : Agree (zeroLoopReads ph dest left b mem) mem mem') :
    zeroLoop ph dest left b mem' = zeroLoop ph dest left b mem := by
  induction left generalizing b mem mem' with
  | zero => rfl
  | succ left ih =>
    rw [zeroLoopReads, agree_append] at agree
    have memsz : phMemsz mem' ph = phMemsz mem ph := agree.1.word32
    rw [zeroLoop, zeroLoop, memsz]
    split
    · rename_i below
      have rest := agree.2
      rw [if_pos below] at rest
      exact congrArg _ (ih (Agree.update rest _ _))
    · rfl

theorem loadSegment_congr {data ph : Nat} {mem mem' : Mem} (agree : Agree (loadSegmentReads data ph mem) mem mem') :
    loadSegment data ph mem' = loadSegment data ph mem := by
  rw [loadSegmentReads, agree_append] at agree
  obtain ⟨first, agree⟩ := agree
  have type : phType mem' ph = phType mem ph := first.word32
  unfold loadSegment
  rw [type]
  split
  · rfl
  rename_i load
  rw [if_neg load, agree_append] at agree
  obtain ⟨second, agree⟩ := agree
  have memsz : phMemsz mem' ph = phMemsz mem ph := second.word32
  rw [memsz]
  split
  · rfl
  rename_i some
  rw [if_neg some] at agree
  simp only [agree_append] at agree
  obtain ⟨⟨⟨⟨⟨⟨third, copies⟩, fourth⟩, zeros⟩, -⟩, -⟩, -⟩ := agree
  have vaddr : phVaddr mem' ph = phVaddr mem ph := third.word32
  dsimp only
  rw [vaddr, copyLoop_congr copies]
  generalize copyLoop data ph (phVaddr mem ph) (2 ^ 32) 0 mem = copied at zeros
  have filesz : phFilesz (Writes.apply copied mem') ph = phFilesz (Writes.apply copied mem) ph :=
    (fourth.apply copied).word32
  rw [filesz, zeroLoop_congr (zeros.apply copied)]
  generalize zeroLoop ph (phVaddr mem ph) (2 ^ 32) (phFilesz (Writes.apply copied mem) ph)
    (Writes.apply copied mem) = zeroed
  have vaddr' : phVaddr (Writes.apply zeroed (Writes.apply copied mem')) ph =
      phVaddr (Writes.apply zeroed (Writes.apply copied mem)) ph := ((third.apply copied).apply zeroed).word32
  have filesz' : phFilesz (Writes.apply zeroed (Writes.apply copied mem')) ph =
      phFilesz (Writes.apply zeroed (Writes.apply copied mem)) ph := ((fourth.apply copied).apply zeroed).word32
  have memsz' : phMemsz (Writes.apply zeroed (Writes.apply copied mem')) ph =
      phMemsz (Writes.apply zeroed (Writes.apply copied mem)) ph := ((second.apply copied).apply zeroed).word32
  rw [vaddr', filesz', memsz']

theorem loadSegments_congr {data left i : Nat} {mem mem' : Mem}
    (agree : Agree (loadSegmentsReads data left i mem) mem mem') :
    loadSegments data left i mem' = loadSegments data left i mem := by
  induction left generalizing i mem mem' with
  | zero => rfl
  | succ left ih =>
    rw [loadSegmentsReads, agree_append] at agree
    have phnum : phnum mem' data = phnum mem data := agree.1.word16
    rw [loadSegments, loadSegments, phnum]
    split
    · rename_i below
      have inner := agree.2
      rw [if_pos below] at inner
      simp only [agree_append] at inner
      obtain ⟨⟨⟨first, second⟩, segment⟩, rest⟩ := inner
      have phoff : phoff mem' data = phoff mem data := first.word32
      have phentsize : phentsize mem' data = phentsize mem data := second.word16
      dsimp only
      rw [phoff, phentsize, loadSegment_congr segment, ih (rest.apply _)]
    · rfl

/-- Two memories with the same bytes at the addresses that elf_load reads have the same load. -/
theorem elfLoad_congr {data size : Nat} {mem mem' : Mem} (agree : Agree (elfLoadReads mem data size) mem mem') :
    elfLoad mem' data size = elfLoad mem data size := by
  unfold elfLoadReads at agree
  unfold elfLoad
  split
  · rfl
  rename_i large
  rw [if_neg large, agree_append] at agree
  obtain ⟨first, agree⟩ := agree
  have magic : magic mem' data = magic mem data := first.word32
  rw [magic]
  split
  · rfl
  rename_i good
  rw [if_neg good, agree_append] at agree
  obtain ⟨second, agree⟩ := agree
  have bits : bits mem' data = bits mem data := congrArg UInt8.toNat (second.field (k := 0) (by decide))
  rw [bits]
  split
  · rfl
  rename_i narrow
  rw [if_neg narrow, agree_append] at agree
  obtain ⟨third, agree⟩ := agree
  have machine : machine mem' data = machine mem data := third.word16
  rw [machine]
  split
  · rfl
  rename_i right
  rw [if_neg right, agree_append] at agree
  obtain ⟨fourth, agree⟩ := agree
  have type : type mem' data = type mem data := fourth.word16
  rw [type]
  split
  · rfl
  rename_i executable
  rw [if_neg executable, agree_append] at agree
  obtain ⟨segments, last⟩ := agree
  rw [loadSegments_congr segments]
  have entry : entry (Writes.apply (loadSegments data (2 ^ 16) 0 mem).1 mem') data =
      entry (Writes.apply (loadSegments data (2 ^ 16) 0 mem).1 mem) data := (last.apply _).word32
  dsimp only
  rw [entry]

end ChrisOS.Fs.Elf
