import ChrisOS.Fs.Elf
import ChrisOS.Fs.Fat32.Reads

/-! elf_exec together with the routines it calls: the file comes from the FAT32 driver
and the blocks from kmalloc. Stores of elf_load touch neither the disk nor the log.
-/

set_option autoImplicit false

namespace ChrisOS.Fs.Elf
open ChrisOS.Drivers.Ata ChrisOS.Fs.Fat32 ChrisOS.Lib ChrisOS.Kernel.Sched

/-- Memory from a block on as its buffer shows it. -/
def holding (mem : Mem) (b : Buf) : Mem := fun a => if b.ptr ≤ a then b.data (a - b.ptr) else mem a

def text (name : List UInt8) : String := String.ofList (name.map fun c => Char.ofNat c.toNat)

/-- What elf_exec returns and prints. `buf` is ghost data: its buffer as reading left it. -/
structure Exec where
  tid : Int
  printed : List Output
  buf : Buf

/-- sched_spawn as far as the heap goes: the number of the new thread. -/
def schedSpawn (table : Table Unit) : Kern (Option Nat) :=
  if table.count ≥ maxThreads then pure none
  else do
    let stackBase ← kmalloc stackSize
    if stackBase.ptr = 0 then pure none
    else pure (some table.count)

/-- elf_exec once the file was read. -/
def execLoaded (table : Table Unit) (mem : Mem) (name : List UInt8) (sz : Int) (buf : Buf) : Kern Exec :=
  let load := elfLoad (holding mem buf) buf.ptr (u32 sz.toNat)
  match load.entryOut with
  | none => do
    kfree buf
    pure ⟨-1, load.printed, buf⟩
  | some entry => do
    kfree buf
    let tid ← schedSpawn table
    match tid with
    | none => pure ⟨-1, load.printed ++ [.kprintf "elf: could not spawn thread\n" []], buf⟩
    | some tid => pure ⟨tid, load.printed ++ [.kprintf "elf: spawned thread %d for %s (entry=%p)\n"
        [.int tid, .str (text name), .num entry]], buf⟩

def execFile (g : Statics) (table : Table Unit) (mem : Mem) (budget : Nat) (name : List UInt8) : Kern Exec := do
  let buf ← kmalloc elfMaxSize
  if buf.ptr = 0 then pure ⟨-1, [.kprintf "elf: out of memory\n" []], buf⟩
  else do
    let r ← fat32ReadFile g budget name buf
    if r.1 ≤ 0 then do
      kfree r.2
      pure ⟨-1, [.kprintf "elf: file not found: %s\n" [.str (text name)]], r.2⟩
    else execLoaded table mem name r.1 r.2

section
variable {e : Env} {m : Drivers.Ata.Machine}

theorem schedSpawn_does (table : Table Unit) : Does e m (fun _ => schedSpawn table) [] fun _ => True := by
  unfold schedSpawn
  split
  · exact Does.pure trivial
  · refine Does.after (kmalloc_does _) fun stackBase _ _ _ => ?_
    split
    · exact Does.pure trivial
    · exact Does.pure trivial

theorem execLoaded_does (table : Table Unit) (mem : Mem) (name : List UInt8) (sz : Int) (buf : Buf) :
    Does e m (fun _ => execLoaded table mem name sz buf) [] fun x => x.buf = buf := by
  unfold execLoaded
  simp only
  cases (elfLoad (holding mem buf) buf.ptr (u32 sz.toNat)).entryOut with
  | none => exact Does.after (kfree_does _) fun _ _ _ _ => Does.pure rfl
  | some entry =>
    refine Does.after (kfree_does _) fun _ _ _ _ => ?_
    refine Does.after (schedSpawn_does table) fun tid _ _ _ => ?_
    cases tid with
    | none => exact Does.pure rfl
    | some tid => exact Does.pure rfl

/-- The buffer of elf_exec is written below its size exactly if no block was to be had for
it or the clusters that are read of the file fit there. -/
theorem execFile_below_iff {g : Statics} {limit : Nat} (reliable : Reliable e) (vol : Sound g limit m.disk)
    (table : Table Unit) (mem : Mem) (name : List UInt8) :
    Does e m (fun n => execFile g table mem n name) [] fun x =>
      Below x.buf elfMaxSize ↔
        e.block m.log.length = 0 ∨ FitsBuffer g limit m.disk (nameToFat83 name) elfMaxSize := by
  refine Does.after (kmalloc_unread elfMaxSize) fun b m₁ same ⟨ptr, unread⟩ => ?_
  rw [← ptr, ← same]
  by_cases null : b.ptr = 0
  · simp only [null, ↓reduceIte]
    refine Does.pure ⟨fun _ => .inl trivial, fun _ k filled => ?_⟩
    rw [unread] at filled
    cases filled
  · simp only [null, ↓reduceIte, false_or]
    refine Does.after (readFile_below_iff reliable (same ▸ vol) name unread elfMaxSize) fun r m₂ _ fits => ?_
    split
    · exact Does.after (kfree_does _) fun _ _ _ _ => Does.pure fits
    · exact (execLoaded_does table mem name r.1 r.2).mono fun x kept => by rw [kept]; exact fits

end

/-! ### The step model -/

/-- A call of the step model with the answers that the routines gave. -/
structure Answered (x : Call) (e : Env) (m : Drivers.Ata.Machine) (name : List UInt8) (b : Buf) : Prop where
  filename : x.filename = text name
  buf : x.buf = b.ptr
  image : x.image = b.data
  stack : x.stack = e.block (m.log.length + 1)

theorem Answered.read {x : Call} {e : Env} {m : Drivers.Ata.Machine} {name : List UInt8} {b : Buf}
    (answered : Answered x e m name b) (mem : Mem) : x.read (holding mem b) = holding mem b := by
  funext a
  unfold Call.read holding
  rw [answered.buf, answered.image]
  split
  · rename_i inside
    rw [if_pos inside.1]
  · rfl

/-- The thread number that the step model's sched_spawn returns for the same block. -/
theorem schedSpawn_run (elfThreadEntry : Nat) (table : Table Unit) (e : Env) (m : Drivers.Ata.Machine) :
    ∃ m', schedSpawn table e m = some ((spawn elfThreadEntry table (e.block m.log.length)).2, m') := by
  unfold schedSpawn spawn
  by_cases many : table.count ≥ maxThreads
  · rw [if_pos many, if_pos many]
    exact ⟨_, rfl⟩
  · rw [if_neg many, if_neg many]
    by_cases null : e.block m.log.length = 0
    · rw [if_pos null]
      refine ⟨m.record (.kmalloc stackSize (e.block m.log.length)), ?_⟩
      simp [bind_run, kmalloc, null]
    · rw [if_neg null]
      refine ⟨m.record (.kmalloc stackSize (e.block m.log.length)), ?_⟩
      simp [bind_run, kmalloc, null]

/-- From the point where the file is read, elf_exec returns and prints what the step model does. -/
theorem execLoaded_agrees (elfThreadEntry : Nat) {M : Machine} {x : Call} {e : Env} {m : Drivers.Ata.Machine}
    {name : List UInt8} {b : Buf} {mem : Mem} (answered : Answered x e m name b) (memory : M.mem = holding mem b)
    (granted : x.buf ≠ 0) (found : 0 < x.size) :
    ∃ m', execLoaded M.table mem name x.size b e m =
      some (⟨(elfExec elfThreadEntry M x).2.1, (elfExec elfThreadEntry M x).2.2, b⟩, m') := by
  have load : x.load M.mem = elfLoad (holding mem b) b.ptr (u32 x.size.toNat) := by
    rw [Call.load, memory, answered.read mem, answered.buf]
  have positive : ¬x.size ≤ 0 := Int.not_le.mpr found
  unfold execLoaded elfExec
  simp only [granted, positive, ↓reduceIte, load]
  cases (elfLoad (holding mem b) b.ptr (u32 x.size.toNat)).entryOut with
  | none => exact ⟨_, rfl⟩
  | some entry =>
    obtain ⟨m', spawned⟩ := schedSpawn_run elfThreadEntry M.table e (m.record (.kfree b.ptr))
    have stack : e.block (m.record (.kfree b.ptr)).log.length = x.stack := by
      rw [answered.stack, Drivers.Ata.Machine.record, List.length_append, List.length_singleton]
    rw [stack] at spawned
    refine ⟨m', ?_⟩
    simp only
    rw [bind_some (show kfree b e m = some ((), m.record (.kfree b.ptr)) from rfl), bind_some spawned]
    cases spawn elfThreadEntry M.table x.stack with
    | mk table tid =>
      cases tid with
      | none => rfl
      | some tid =>
        rw [answered.filename]
        rfl

end ChrisOS.Fs.Elf
