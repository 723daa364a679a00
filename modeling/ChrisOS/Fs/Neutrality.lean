import ChrisOS.Fs.Fat32.Blocks
import ChrisOS.Fs.Elf.Exec
import ChrisOS.Fs.Installer

/-! What the operations of the file system leave of the heap.

A store that hits a block header is not considered here: between its calls of the
allocator an operation may change any other word.
-/

set_option autoImplicit false

namespace ChrisOS.Fs
open ChrisOS.Drivers.Ata ChrisOS.Fs.Fat32 ChrisOS.Lib
open ChrisOS.Kernel.Mm (Heap HeapCall Nested Reachable Serves liveBlocks)
open ChrisOS.Kernel.Sched (Table)
open ChrisOS.Fs.Elf (Mem execFile execLoaded schedSpawn)

/-! ### elf_exec -/

section
variable {e : Env} {m : Machine}

theorem schedSpawn_nested (table : Table Unit) : Leads e m (schedSpawn table) fun tid _ evs =>
    tid = none → Nested (heapCalls evs) := by
  unfold schedSpawn
  split
  · exact .pure fun _ => .nil
  · refine .bind (kmalloc_takes _) fun stack m₁ evs taken => ?_
    subst taken
    split
    · rename_i null
      refine .pure fun _ => ?_
      rw [List.append_nil, null]
      exact .denied .nil
    · exact .pure fun failed => nomatch failed

/-- What is left of elf_exec gives the buffer back, and keeps a stack if it succeeds only. -/
theorem execLoaded_frees (table : Table Unit) (mem : Mem) (name : List UInt8) (sz : Int) (buf : Buf) :
    Leads e m (execLoaded table mem name sz buf) fun x _ evs =>
      x.tid < 0 → ∃ rest, heapCalls evs = .kfree buf.ptr :: rest ∧ Nested rest := by
  unfold execLoaded
  dsimp only
  cases (Elf.elfLoad (Elf.holding mem buf) buf.ptr (u32 sz.toNat)).entryOut with
  | none =>
    refine .bind (kfree_gives buf) fun _ m₁ evs gives => ?_
    subst gives
    exact .pure fun _ => ⟨[], rfl, .nil⟩
  | some entry =>
    refine .bind (kfree_gives buf) fun _ m₁ evs gives => ?_
    subst gives
    refine .bind (schedSpawn_nested table) fun tid m₂ evs' spawned => ?_
    cases tid with
    | none =>
      refine .pure fun _ => ⟨heapCalls evs', ?_, spawned rfl⟩
      rw [List.append_nil]
      rfl
    | some tid => exact .pure fun failed => absurd failed (Int.not_lt.mpr (Int.natCast_nonneg tid))

theorem execFile_nested (g : Statics) (table : Table Unit) (mem : Mem) (budget : Nat) (name : List UInt8) :
    Leads e m (execFile g table mem budget name) fun x _ evs => x.tid < 0 → Nested (heapCalls evs) := by
  refine .bind (kmalloc_takes _) fun buf m₁ evs taken => ?_
  subst taken
  split
  · rename_i null
    refine .pure fun _ => ?_
    rw [List.append_nil, null]
    exact .denied .nil
  · refine .bind (fat32ReadFile_tidy budget name buf) fun r m₂ evs read => ?_
    obtain ⟨tidy, ptr⟩ := read
    split
    · refine .bind (kfree_gives r.2) fun _ m₃ evs' gives => .pure fun _ => ?_
      subst gives
      rw [ptr, heapCalls_append, heapCalls_append]
      exact .block tidy.nested .nil
    · refine (execLoaded_frees table mem name r.1 r.2).mono fun x m₃ evs' frees failed => ?_
      obtain ⟨rest, calls, nested⟩ := frees failed
      rw [heapCalls_append, heapCalls_append, calls, ptr]
      exact .block tidy.nested nested

end

/-! ### The installer -/

namespace Installer

def Action.heapCall : Action → Option HeapCall
  | .kmalloc size ptr => some (.kmalloc size ptr)
  | .putchar _ | .writestring _ | .setcolor _ | .detect .. | .read .. | .write .. => none

def heapCalls (actions : List Action) : List HeapCall := actions.filterMap Action.heapCall

theorem heapCalls_eq_nil {actions : List Action} (none : ∀ a ∈ actions, a.heapCall = none) :
    heapCalls actions = [] := List.filterMap_eq_nil_iff.mpr none

theorem printNum_calls (n : Nat) : ∀ a ∈ printNum n, a.heapCall = none := by
  unfold printNum
  split
  · simp [Action.heapCall]
  · simp [Action.heapCall]

theorem progress_calls (lba : Nat) : ∀ a ∈ progress lba, a.heapCall = none := by
  have numbers := printNum_calls
  unfold progress
  split
  · simp only [List.forall_mem_append, List.forall_mem_singleton]
    exact ⟨⟨⟨⟨⟨⟨rfl, numbers _⟩, rfl⟩, numbers lba⟩, rfl⟩, numbers _⟩, rfl⟩
  · simp

theorem aborted_calls (text : String) (lba : Nat) : ∀ a ∈ aborted text lba, a.heapCall = none := by
  simp only [aborted, List.forall_mem_append, List.forall_mem_singleton]
  exact ⟨⟨rfl, printNum_calls lba⟩, rfl⟩

theorem installLoop_calls (answers : Answers) (target : UInt8) (left lba : Nat) (disks : Disks) :
    ∀ a ∈ (installLoop answers target left lba disks).2, a.heapCall = none := by
  induction left generalizing lba disks with
  | zero => simp [installLoop, Action.heapCall]
  | succ left ih =>
    simp only [installLoop]
    split
    · exact List.forall_mem_cons.mpr ⟨rfl, aborted_calls _ lba⟩
    · split
      · simp only [List.forall_mem_cons]
        exact ⟨rfl, rfl, aborted_calls _ lba⟩
      · simp only [List.forall_mem_cons, List.forall_mem_append]
        exact ⟨rfl, rfl, progress_calls lba, ih _ _⟩

/-- However it ends, the installer takes its buffer and never gives it back. -/
theorem runInstall_calls (answers : Answers) (target : UInt8) (disks : Disks) :
    heapCalls (runInstall answers target disks).2 = [.kmalloc 512 answers.block] := by
  unfold runInstall
  dsimp only
  split
  · rfl
  · change heapCalls ([.writestring _, .kmalloc 512 answers.block] ++ _) = _
    rw [heapCalls, List.filterMap_append, ← heapCalls, ← heapCalls, heapCalls_eq_nil (installLoop_calls _ _ _ _ _)]
    rfl

end Installer

/-! ### The operations -/

inductive Operation where
  | init
  | ls (g : Statics)
  | readFile (g : Statics) (name : List UInt8) (buf : Buf)
  | createFile (g : Statics) (name : List UInt8)
  | writeFile (g : Statics) (name : List UInt8) (data : Nat → UInt8) (size : Nat)
  | deleteFile (g : Statics) (name : List UInt8)
  | exec (g : Statics) (table : Table Unit) (mem : Mem) (name : List UInt8)
  | install (answers : Installer.Answers) (target : UInt8) (disks : Installer.Disks)

def Operation.isInstall : Operation → Bool
  | .install .. => true
  | _ => false

/-- The calls of the allocator between two states of the machine. -/
def callsBetween (m m' : Machine) : List HeapCall := heapCalls (m'.log.drop m.log.length)

/-- An operation that returns, with the calls of the allocator it made; of elf_exec, the runs that fail. -/
inductive Runs (e : Env) (m : Machine) : Operation → List HeapCall → Prop where
  | init {g : Statics} {m' : Machine} : fat32Init e m = some (g, m') → Runs e m .init (callsBetween m m')
  | ls {g : Statics} {m' : Machine} : fat32Ls g e m = some ((), m') → Runs e m (.ls g) (callsBetween m m')
  | readFile {g : Statics} {name : List UInt8} {buf : Buf} {budget : Nat} {r : Int × Buf} {m' : Machine} :
      fat32ReadFile g budget name buf e m = some (r, m') → Runs e m (.readFile g name buf) (callsBetween m m')
  | createFile {g : Statics} {name : List UInt8} {r : Nat} {m' : Machine} :
      fat32CreateFile g name e m = some (r, m') → Runs e m (.createFile g name) (callsBetween m m')
  | writeFile {g : Statics} {name : List UInt8} {data : Nat → UInt8} {size budget r : Nat} {m' : Machine} :
      fat32WriteFile g budget name data size e m = some (r, m') →
      Runs e m (.writeFile g name data size) (callsBetween m m')
  | deleteFile {g : Statics} {name : List UInt8} {budget r : Nat} {m' : Machine} :
      fat32DeleteFile g budget name e m = some (r, m') → Runs e m (.deleteFile g name) (callsBetween m m')
  | exec {g : Statics} {table : Table Unit} {mem : Mem} {name : List UInt8} {budget : Nat} {x : Elf.Exec} {m' : Machine} :
      execFile g table mem budget name e m = some (x, m') → x.tid < 0 →
      Runs e m (.exec g table mem name) (callsBetween m m')
  | install (answers : Installer.Answers) (target : UInt8) (disks : Installer.Disks) :
      Runs e m (.install answers target disks) (Installer.heapCalls (Installer.runInstall answers target disks).2)

theorem callsBetween_eq {m m' : Machine} {evs : List Drivers.Ata.Event} (log : m'.log = m.log ++ evs) :
    callsBetween m m' = heapCalls evs := by
  rw [callsBetween, log, List.drop_left]

section
variable {e : Env} {m : Machine} {op : Operation} {calls : List HeapCall}

theorem Runs.nested (runs : Runs e m op calls) (other : op.isInstall = false) : Nested calls := by
  have tidy {A : Type} {roomy : Prop} {x : Kern A} {a : A} {m' : Machine} (ran : x e m = some (a, m'))
      (leads : Leads e m x fun _ _ evs => Tidy roomy evs) : Nested (callsBetween m m') := by
    obtain ⟨evs, log, tidy⟩ := leads a m' ran
    rw [callsBetween_eq log]
    exact tidy.nested
  cases runs with
  | init ran => exact tidy ran fat32Init_tidy
  | ls ran => exact tidy ran fat32Ls_tidy
  | readFile ran => exact tidy ran ((fat32ReadFile_tidy _ _ _).mono fun _ _ _ => And.left)
  | createFile ran => exact tidy ran (fat32CreateFile_tidy _)
  | writeFile ran => exact tidy ran (fat32WriteFile_tidy _ _ _ _)
  | deleteFile ran => exact tidy ran (fat32DeleteFile_tidy _ _)
  | exec ran failed =>
    obtain ⟨evs, log, nested⟩ := execFile_nested _ _ _ _ _ _ _ ran
    rw [callsBetween_eq log]
    exact nested failed
  | install => cases other

theorem Runs.takes (runs : Runs e m op calls) (install : op.isInstall = true) :
    ∃ ptr, calls = [.kmalloc 512 ptr] := by
  cases runs with
  | install answers target disks => exact ⟨answers.block, Installer.runInstall_calls answers target disks⟩
  | init | ls | readFile | createFile | writeFile | deleteFile | exec => cases install

end

/-- Memory as it is before mm_init. -/
def blankHeap : Heap := ⟨fun _ => 0, 0⟩

/-- kmalloc hands out the first block of the heap. -/
def firstBlock : Nat := Kernel.Mm.heapStart + Kernel.Mm.blockHdr

end ChrisOS.Fs
