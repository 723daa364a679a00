import ChrisOS.Kernel.Sched
import ChrisOS.Lib.Bytes
import ChrisOS.Lib.Run
import ChrisOS.Lib.Writes

/-! elf_load and elf_exec of fs/elf.c, and the first steps of the threads they create.

elf_exec runs with interrupts off, from the keyboard interrupt, and is one step. A new
thread reads pending_entry when it first runs, which is a step of its own. Stack contents
and the timer are left out.
-/

set_option autoImplicit false

namespace ChrisOS.Fs.Elf
open ChrisOS.Lib ChrisOS.Kernel.Sched

def elfMaxSize : Nat := 256 * 1024

def elfMagic : Nat := 0x464C457F
def etExec : Nat := 2
def em386 : Nat := 3
def ptLoad : Nat := 1

/-- sizeof(elf32_hdr_t). -/
def hdrSize : Nat := 52

/-- The bytes of memory by address. -/
abbrev Mem := Nat → UInt8

/-- The bytes from an address on; addresses are 32 bits wide. -/
def bytesAt (mem : Mem) (a : Nat) : Nat → UInt8 := fun k => mem (u32 (a + k))

/-! ### The fields of elf32_hdr_t and elf32_phdr_t -/

section Fields
variable (mem : Mem) (p : Nat)

def magic : Nat := word32 (bytesAt mem p) 0
def bits : Nat := (bytesAt mem p 4).toNat
def type : Nat := word16 (bytesAt mem p) 16
def machine : Nat := word16 (bytesAt mem p) 18
def entry : Nat := word32 (bytesAt mem p) 24
def phoff : Nat := word32 (bytesAt mem p) 28
def phentsize : Nat := word16 (bytesAt mem p) 42
def phnum : Nat := word16 (bytesAt mem p) 44

def phType : Nat := word32 (bytesAt mem p) 0
def phOffset : Nat := word32 (bytesAt mem p) 4
def phVaddr : Nat := word32 (bytesAt mem p) 8
def phFilesz : Nat := word32 (bytesAt mem p) 16
def phMemsz : Nat := word32 (bytesAt mem p) 20

end Fields

inductive Arg where
  | num (n : Nat)
  | int (n : Int)
  | str (s : String)

inductive Output where
  | kprintf (format : String) (args : List Arg)
  | klog (format : String) (args : List Arg)

/-- Stores of bytes, oldest first. -/
abbrev Stores := List (Nat × UInt8)

/-- `for (b; b < ph->filesz; b++) dest[b] = data[ph->offset + b]`. The fields are read from
memory each time: dest may point anywhere. -/
def copyLoop (data ph dest : Nat) : Nat → Nat → Mem → Stores
  | 0, _, _ => []
  | left + 1, b, mem =>
    if b < phFilesz mem ph then
      let w := (u32 (dest + b), mem (u32 (data + u32 (phOffset mem ph + b))))
      w :: copyLoop data ph dest left (b + 1) (Function.update mem w.1 w.2)
    else []

/-- `for (b; b < ph->memsz; b++) dest[b] = 0`. -/
def zeroLoop (ph dest : Nat) : Nat → Nat → Mem → Stores
  | 0, _, _ => []
  | left + 1, b, mem =>
    if b < phMemsz mem ph then
      (u32 (dest + b), 0) :: zeroLoop ph dest left (b + 1) (Function.update mem (u32 (dest + b)) 0)
    else []

/-- The body of the loop over program headers. Both inner loops count below 2^32. -/
def loadSegment (data ph : Nat) (mem : Mem) : Stores × List Output :=
  if phType mem ph ≠ ptLoad then ([], [])
  else if phMemsz mem ph = 0 then ([], [])
  else
    let dest := phVaddr mem ph
    let copied := copyLoop data ph dest (2 ^ 32) 0 mem
    let mem := Writes.apply copied mem
    let zeroed := zeroLoop ph dest (2 ^ 32) (phFilesz mem ph) mem
    let mem := Writes.apply zeroed mem
    (copied ++ zeroed, [.klog "elf: loaded segment vaddr=%x filesz=%u memsz=%u"
      [.num (phVaddr mem ph), .num (phFilesz mem ph), .num (phMemsz mem ph)]])

/-- The loop over program headers, from the header with index `i` on. -/
def loadSegments (data : Nat) : Nat → Nat → Mem → Stores × List Output
  | 0, _, _ => ([], [])
  | left + 1, i, mem =>
    if i < phnum mem data then
      let first := loadSegment data (u32 (data + phoff mem data + i * phentsize mem data)) mem
      let rest := loadSegments data left (i + 1) (Writes.apply first.1 mem)
      (first.1 ++ rest.1, first.2 ++ rest.2)
    else ([], [])

/-- The entry address when the file is accepted, the bytes stored, and what is printed. -/
structure Load where
  entryOut : Option Nat
  stores : Stores
  printed : List Output

def reject (text : String) : Load := ⟨none, [], [.kprintf text []]⟩

def elfLoad (mem : Mem) (data size : Nat) : Load :=
  if size < hdrSize then reject "elf: file too small\n"
  else if magic mem data ≠ elfMagic then reject "elf: bad magic\n"
  else if bits mem data ≠ 1 then reject "elf: not 32-bit\n"
  else if machine mem data ≠ em386 then reject "elf: not x86\n"
  else if type mem data ≠ etExec then reject "elf: not executable\n"
  else
    -- the index has 16 bits, as phnum has
    let loaded := loadSegments data (2 ^ 16) 0 mem
    ⟨some (entry (Writes.apply loaded.1 mem) data), loaded.1, loaded.2⟩

/-- What a thread does: `waiting` is in thread_trampoline or elf_thread_entry, before
pending_entry is read. -/
inductive Phase where
  | kernel
  | waiting
  | user (entry : Nat)
  deriving DecidableEq

/-- The contents of a file. -/
abbrev File := Nat → UInt8

/-- The entry field of its ELF header. -/
def entryOf (f : File) : Nat := word32 f 24

structure Machine where
  table : Table Unit
  pendingEntry : Nat
  mem : Mem
  phase : Nat → Phase
  /-- Ghost data: the file that a thread was created for. -/
  file : Nat → Option File
  /-- Ghost data: the file that elf_load accepted last. -/
  accepted : Option File

/-- A call of elf_exec, with the answers it gets: the block of the first kmalloc, the return
value of fat32_read_file and what that leaves in the block, and the block of sched_spawn. -/
structure Call where
  filename : String
  buf : Nat
  size : Int
  image : File
  stack : Nat
  inMemory : buf + elfMaxSize ≤ 2 ^ 32

/-- Memory after fat32_read_file. -/
def Call.read (x : Call) (mem : Mem) : Mem := fun a =>
  if x.buf ≤ a ∧ a < x.buf + elfMaxSize then x.image (a - x.buf) else mem a

/-- elf_load on the buffer that was read. -/
def Call.load (x : Call) (mem : Mem) : Load := elfLoad (x.read mem) x.buf (u32 x.size.toNat)

section
variable (elfThreadEntry : Nat)

/-- sched_spawn on the table, with the answer of kmalloc; none stands for -1. -/
def spawn (s : Table Unit) (base : Nat) : Table Unit × Option Nat :=
  if s.count ≥ maxThreads then (s, none)
  else if base = 0 then (s.setStackBase s.count base, none)
  else (enlist (s.setStackBase s.count base) elfThreadEntry (), some s.count)

/-- The machine afterwards, the value returned, and what is printed. -/
def elfExec (m : Machine) (x : Call) : Machine × Int × List Output :=
  if x.buf = 0 then (m, -1, [.kprintf "elf: out of memory\n" []])
  else if x.size ≤ 0 then
    ({ m with mem := x.read m.mem }, -1, [.kprintf "elf: file not found: %s\n" [.str x.filename]])
  else
    let load := x.load m.mem
    let m := { m with mem := Writes.apply load.stores (x.read m.mem) }
    match load.entryOut with
    | none => (m, -1, load.printed)
    | some entry =>
      let m := { m with pendingEntry := entry, accepted := some x.image }
      match spawn elfThreadEntry m.table x.stack with
      -- pending_entry keeps the new value
      | (table, none) => ({ m with table := table }, -1, load.printed ++ [.kprintf "elf: could not spawn thread\n" []])
      | (table, some tid) =>
        ({ m with
            table := table
            phase := Function.update m.phase tid .waiting
            file := Function.update m.file tid (some x.image) },
          tid, load.printed ++ [.kprintf "elf: spawned thread %d for %s (entry=%p)\n"
            [.int tid, .str x.filename, .num entry]])

end

/-- thread_trampoline and elf_thread_entry, up to the first instruction of the user code. -/
def Machine.start (m : Machine) : Machine :=
  { m with phase := Function.update m.phase m.table.current (.user m.pendingEntry) }

inductive Event where
  | exec (x : Call)
  | start
  | yield
  | tick
  | exit

/-- elf_exec stores nothing outside its buffer and the memory that is free for programs: the file
fits the buffer, and no segment of it lies over the buffer or over what the kernel uses. -/
def Clear (kernel : Nat → Prop) (m : Machine) (x : Call) : Prop :=
  x.size ≤ elfMaxSize ∧
    ∀ w ∈ (x.load m.mem).stores, ¬ kernel w.1 ∧ ¬ (x.buf ≤ w.1 ∧ w.1 < x.buf + elfMaxSize)

/-- Anything may follow a store over the memory of the kernel. -/
inductive Step (kernel : Nat → Prop) (elfThreadEntry : Nat) : Machine → Event → Machine → Prop where
  | exec {m : Machine} {x : Call} : Clear kernel m x →
      Step kernel elfThreadEntry m (.exec x) (elfExec elfThreadEntry m x).1
  | wild {m m' : Machine} {x : Call} : ¬ Clear kernel m x → Step kernel elfThreadEntry m (.exec x) m'
  | start {m : Machine} : m.phase m.table.current = .waiting → Step kernel elfThreadEntry m .start m.start
  | yield {m : Machine} : m.phase m.table.current ≠ .waiting →
      Step kernel elfThreadEntry m .yield { m with table := schedYield () m.table }
  | tick {m : Machine} : Step kernel elfThreadEntry m .tick { m with table := schedTick () m.table }
  | exit {m : Machine} : m.phase m.table.current ≠ .waiting →
      Step kernel elfThreadEntry m .exit { m with table := (bury (m.table.setStackBase m.table.current 0)).1 }

/-- After sched_init, before the first call of elf_exec. -/
def boot (s : Table Unit) (mem : Mem) : Machine :=
  ⟨schedInit s, 0, mem, fun _ => .kernel, fun _ => none, none⟩

/-- A thread that starts enters user code at the entry of the file it was created for. -/
def StartsOwn (m : Machine) (e : Event) (m' : Machine) : Prop :=
  e = .start → ∃ f, m.file m.table.current = some f ∧ m'.phase m.table.current = .user (entryOf f)

/-- When a thread starts, the file that elf_load accepted last has the entry of the thread's own. -/
def LastIsOwn (m : Machine) (e : Event) : Prop :=
  e = .start → ∃ f last, m.file m.table.current = some f ∧ m.accepted = some last ∧ entryOf last = entryOf f

/-! ### What elf_load hands out -/

theorem entry_read {mem : Mem} {x : Call} {stores : Stores}
    (apart : ∀ w ∈ stores, ¬ (x.buf ≤ w.1 ∧ w.1 < x.buf + elfMaxSize)) :
    entry (Writes.apply stores (x.read mem)) x.buf = entryOf x.image := by
  apply word32_congr
  intro k small
  have fits := x.inMemory
  have far : elfMaxSize = 262144 := rfl
  have inside : x.buf ≤ x.buf + (24 + k) ∧ x.buf + (24 + k) < x.buf + elfMaxSize := by omega
  rw [bytesAt, u32_of_lt (by omega), Writes.apply_other]
  · rw [Call.read, if_pos inside, Nat.add_sub_cancel_left]
  · intro w member same
    apply apart w member
    rw [same]
    exact inside

/-- An accepted file has its own entry handed out, when its segments leave the buffer alone. -/
theorem Call.load_entry {x : Call} {mem : Mem} {e : Nat} (accepted : (x.load mem).entryOut = some e)
    (apart : ∀ w ∈ (x.load mem).stores, ¬ (x.buf ≤ w.1 ∧ w.1 < x.buf + elfMaxSize)) : e = entryOf x.image := by
  unfold Call.load elfLoad at accepted apart
  split at accepted
  · cases accepted
  split at accepted
  · cases accepted
  split at accepted
  · cases accepted
  split at accepted
  · cases accepted
  split at accepted
  · cases accepted
  rename_i big magic bits machine type
  rw [if_neg big, if_neg magic, if_neg bits, if_neg machine, if_neg type] at apart
  cases accepted
  exact entry_read apart

/-- All that elf_exec can do to the statics and to the threads. -/
theorem elfExec_cases (elfThreadEntry : Nat) (m : Machine) (x : Call) :
    ((elfExec elfThreadEntry m x).1.pendingEntry = m.pendingEntry ∧ (elfExec elfThreadEntry m x).1.phase = m.phase ∧
      (elfExec elfThreadEntry m x).1.file = m.file ∧ (elfExec elfThreadEntry m x).1.accepted = m.accepted) ∨
    ((x.load m.mem).entryOut = some (elfExec elfThreadEntry m x).1.pendingEntry ∧
      (elfExec elfThreadEntry m x).1.accepted = some x.image ∧
      ((elfExec elfThreadEntry m x).1.phase = m.phase ∧ (elfExec elfThreadEntry m x).1.file = m.file ∨
        ∃ tid, (elfExec elfThreadEntry m x).1.phase = Function.update m.phase tid .waiting ∧
          (elfExec elfThreadEntry m x).1.file = Function.update m.file tid (some x.image))) := by
  unfold elfExec
  split
  · exact .inl ⟨rfl, rfl, rfl, rfl⟩
  split
  · exact .inl ⟨rfl, rfl, rfl, rfl⟩
  dsimp only
  split
  · exact .inl ⟨rfl, rfl, rfl, rfl⟩
  · rename_i e handed
    right
    split
    · exact ⟨handed, rfl, .inl ⟨rfl, rfl⟩⟩
    · rename_i tid _
      exact ⟨handed, rfl, .inr ⟨tid, rfl, rfl⟩⟩

/-! ### Runs -/

/-- pending_entry is of the file accepted last, and a waiting thread has a file. -/
structure Inv (m : Machine) : Prop where
  pending : ∀ f, m.accepted = some f → m.pendingEntry = entryOf f
  waiting : ∀ i, m.phase i = .waiting → ∃ f last, m.file i = some f ∧ m.accepted = some last

theorem Inv.exec {m : Machine} {kernel : Nat → Prop} {x : Call} (invariant : Inv m) (clear : Clear kernel m x)
    (elfThreadEntry : Nat) : Inv (elfExec elfThreadEntry m x).1 := by
  rcases elfExec_cases elfThreadEntry m x with ⟨pending, phase, file, accepted⟩ | ⟨handed, accepted, spawned⟩
  · constructor
    · rw [pending, accepted]
      exact invariant.pending
    · rw [phase, file, accepted]
      exact invariant.waiting
  · have own := Call.load_entry handed fun w member => (clear.2 w member).2
    constructor
    · intro f last
      rw [accepted] at last
      cases last
      exact own
    · intro i waits
      rw [accepted]
      rcases spawned with ⟨phase, file⟩ | ⟨tid, phase, file⟩
      · rw [phase] at waits
        rw [file]
        obtain ⟨f, _, has, _⟩ := invariant.waiting i waits
        exact ⟨f, x.image, has, rfl⟩
      · rw [phase] at waits
        rw [file]
        by_cases new : i = tid
        · subst new
          exact ⟨x.image, x.image, Function.update_self .., rfl⟩
        · rw [Function.update_of_ne new] at waits
          obtain ⟨f, _, has, _⟩ := invariant.waiting i waits
          exact ⟨f, x.image, by rw [Function.update_of_ne new, has], rfl⟩

theorem start_phase (m : Machine) : m.start.phase = Function.update m.phase m.table.current (.user m.pendingEntry) := rfl

theorem Inv.start {m : Machine} (invariant : Inv m) : Inv m.start := by
  constructor
  · exact invariant.pending
  · intro i waits
    by_cases self : i = m.table.current
    · rw [self, start_phase, Function.update_self] at waits
      cases waits
    · rw [start_phase, Function.update_of_ne self] at waits
      exact invariant.waiting i waits

/-- A step that stores only where it may keeps the invariant. -/
theorem Step.keeps {kernel : Nat → Prop} {elfThreadEntry : Nat} {m m' : Machine} {e : Event}
    (taken : Step kernel elfThreadEntry m e m') (clear : ∀ x, e = .exec x → Clear kernel m x) (invariant : Inv m) :
    Inv m' := by
  cases taken with
  | exec fine => exact invariant.exec fine elfThreadEntry
  | wild spills => exact absurd (clear _ rfl) spills
  | start _ => exact invariant.start
  | yield _ => exact ⟨invariant.pending, invariant.waiting⟩
  | tick => exact ⟨invariant.pending, invariant.waiting⟩
  | exit _ => exact ⟨invariant.pending, invariant.waiting⟩

theorem judged_other {m m' : Machine} {e : Event} (other : e ≠ .start) : StartsOwn m e m' ↔ LastIsOwn m e :=
  ⟨fun _ same => absurd same other, fun _ same => absurd same other⟩

/-- A thread starts at the entry of the file accepted last, so at its own if that is the same. -/
theorem Step.judged {kernel : Nat → Prop} {elfThreadEntry : Nat} {m m' : Machine} {e : Event} (invariant : Inv m)
    (taken : Step kernel elfThreadEntry m e m') : StartsOwn m e m' ↔ LastIsOwn m e := by
  cases taken with
  | start waits =>
    obtain ⟨f, last, own, accepted⟩ := invariant.waiting _ waits
    have reached : m.start.phase m.table.current = .user (entryOf last) := by
      rw [start_phase, Function.update_self, invariant.pending last accepted]
    constructor
    · intro right _
      obtain ⟨g, has, entered⟩ := right rfl
      refine ⟨g, last, has, accepted, ?_⟩
      rw [reached] at entered
      exact Phase.user.inj entered
    · intro right _
      obtain ⟨g, last', has, accepted', same⟩ := right rfl
      cases accepted.symm.trans accepted'
      exact ⟨g, has, by rw [reached, same]⟩
  | exec _ => exact judged_other (by simp)
  | wild _ => exact judged_other (by simp)
  | yield _ => exact judged_other (by simp)
  | tick => exact judged_other (by simp)
  | exit _ => exact judged_other (by simp)

/-- In a run from boot in which no elf_exec stores over the kernel, every thread starts at the entry of
its own file exactly if no other file with another entry was accepted before it started. -/
theorem run_starts_own_iff {kernel : Nat → Prop} {elfThreadEntry : Nat} (s : Table Unit) (mem : Mem) {m : Machine}
    {moves : List (Move Machine Event)} (run : Run (Step kernel elfThreadEntry) (boot s mem) moves m)
    (clear : ∀ move ∈ moves, ∀ x, move.event = .exec x → Clear kernel move.before x) :
    (∀ move ∈ moves, StartsOwn move.before move.event move.after) ↔ ∀ move ∈ moves, LastIsOwn move.before move.event := by
  have fresh : Inv (boot s mem) := by
    constructor
    · intro f none
      cases none
    · intro i waits
      cases waits
  exact (run.restrict clear).good_iff Inv LastIsOwn StartsOwn
    (fun before _ taken => taken.1.keeps taken.2 before) (fun before taken => taken.1.judged before) fresh

/-! ### Files without segments -/

/-- An accepted file that has an entry address and no program headers. -/
def bare (entry : Nat) : File := fun k =>
  ([0x7F, 0x45, 0x4C, 0x46, 1, 1, 1, 0, 0, 0, 0, 0, 0, 0, 0, 0, 2, 0, 3, 0, 1, 0, 0, 0,
    byteOf entry 0, byteOf entry 1, byteOf entry 2, byteOf entry 3] : List UInt8).getD k 0

/-- elf_exec of such a file, with memory for its buffer and its stack. -/
def bareCall (entry : Nat) : Call := ⟨"a.elf", 0x280000, 52, bare entry, 0x2C0000, by decide⟩

theorem Call.read_phnum (x : Call) (mem : Mem) : phnum (x.read mem) x.buf = word16 x.image 44 := by
  apply word16_congr
  intro k small
  have fits := x.inMemory
  have far : elfMaxSize = 262144 := rfl
  have inside : x.buf ≤ x.buf + (44 + k) ∧ x.buf + (44 + k) < x.buf + elfMaxSize := by omega
  rw [bytesAt, u32_of_lt (by omega), Call.read, if_pos inside, Nat.add_sub_cancel_left]

theorem Call.load_no_headers {x : Call} (none : word16 x.image 44 = 0) (mem : Mem) : (x.load mem).stores = [] := by
  have loaded : (loadSegments x.buf (2 ^ 16) 0 (x.read mem)).1 = [] := by
    show (loadSegments x.buf (65535 + 1) 0 (x.read mem)).1 = []
    rw [loadSegments, Call.read_phnum, none, if_neg (Nat.lt_irrefl 0)]
  unfold Call.load elfLoad
  split
  · rfl
  split
  · rfl
  split
  · rfl
  split
  · rfl
  split
  · rfl
  exact loaded

theorem bareCall_clear (kernel : Nat → Prop) (m : Machine) (entry : Nat) : Clear kernel m (bareCall entry) := by
  constructor
  · exact (by decide : (52 : Int) ≤ elfMaxSize)
  · rw [Call.load_no_headers rfl]
    simp

/-- The table at power-on. -/
def blank : Table Unit := ⟨fun _ => ⟨(), 0, 0, .dead, 0⟩, 0, 0⟩

def poweredOn : Machine := boot blank fun _ => 0

def afterExec (m : Machine) (entry : Nat) : Machine := (elfExec 0x101000 m (bareCall entry)).1

def afterTick (m : Machine) : Machine := { m with table := schedTick () m.table }

/-- The memory that the kernel uses in the runs below. -/
def lowMemory (a : Nat) : Prop := a < 0x400000

theorem Step.exec_bare (m : Machine) (entry : Nat) :
    Step lowMemory 0x101000 m (.exec (bareCall entry)) (afterExec m entry) := .exec (bareCall_clear lowMemory m entry)

/-- One file is executed, and its thread starts where the file says. -/
theorem run_starts_own_iff_one_file : ∃ moves m, Run (Step lowMemory 0x101000) poweredOn moves m ∧
    ∀ move ∈ moves, StartsOwn move.before move.event move.after := by
  let one : Machine := afterExec poweredOn 0x400000
  let two : Machine := afterTick one
  have waits : two.phase two.table.current = .waiting := by decide +kernel
  have run : Run (Step lowMemory 0x101000) poweredOn [⟨poweredOn, .exec (bareCall 0x400000), one⟩, ⟨one, .tick, two⟩,
      ⟨two, .start, two.start⟩] two.start :=
    .cons (.exec_bare _ _) (.cons .tick (.single (.start waits)))
  refine ⟨_, _, run, (run_starts_own_iff blank (fun _ => 0) run ?_).mpr ?_⟩
  · simp only [List.forall_mem_cons]
    refine ⟨fun x same => ?_, fun x other => (by cases other), fun x other => (by cases other), by simp⟩
    cases same
    exact bareCall_clear lowMemory poweredOn 0x400000
  · simp only [List.forall_mem_cons]
    refine ⟨fun other => (by cases other), fun other => (by cases other), fun _ => ?_, by simp⟩
    exact ⟨bare 0x400000, bare 0x400000, rfl, rfl, rfl⟩

/-- Two files are executed before the thread of the first one runs: it starts at the entry of the second. -/
theorem second_exec_steals_start : ∃ moves m, Run (Step lowMemory 0x101000) poweredOn moves m ∧
    (∀ move ∈ moves, ∀ x, move.event = .exec x → Clear lowMemory move.before x) ∧
    ¬ ∀ move ∈ moves, StartsOwn move.before move.event move.after := by
  let one : Machine := afterExec poweredOn 0x400000
  let two : Machine := afterExec one 0x500000
  let three : Machine := afterTick two
  have waits : three.phase three.table.current = .waiting := by decide +kernel
  have run : Run (Step lowMemory 0x101000) poweredOn [⟨poweredOn, .exec (bareCall 0x400000), one⟩,
      ⟨one, .exec (bareCall 0x500000), two⟩, ⟨two, .tick, three⟩, ⟨three, .start, three.start⟩] three.start :=
    .cons (.exec_bare _ _) (.cons (.exec_bare _ _) (.cons .tick (.single (.start waits))))
  refine ⟨_, _, run, ?_, fun right => ?_⟩
  · simp only [List.forall_mem_cons]
    refine ⟨fun x same => ?_, fun x same => ?_, fun x other => (by cases other), fun x other => (by cases other), by simp⟩
    · cases same
      exact bareCall_clear lowMemory poweredOn 0x400000
    · cases same
      exact bareCall_clear lowMemory one 0x500000
  · have first : (three.file three.table.current).map entryOf = some 0x400000 := by decide +kernel
    have reached : three.start.phase three.table.current = .user 0x500000 := by decide +kernel
    have started : StartsOwn three .start three.start := right ⟨three, .start, three.start⟩ (by simp)
    clear_value three
    obtain ⟨f, own, entered⟩ := started rfl
    rw [own, Option.map_some, Option.some.injEq] at first
    rw [reached, first] at entered
    exact absurd (Phase.user.inj entered) (by decide)

end ChrisOS.Fs.Elf
