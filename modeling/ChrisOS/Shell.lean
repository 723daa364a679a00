import ChrisOS.Fs.Elf.Exec

/-! The commands of shell/shell.c that read a file. -/

set_option autoImplicit false

namespace ChrisOS.Shell
open ChrisOS.Drivers.Ata ChrisOS.Fs.Fat32 ChrisOS.Lib
open ChrisOS.Fs.Elf (execFile execFile_below_iff elfMaxSize)

/-- `for (i = 0; i < size; i++) terminal_putchar(buf[i])`, from index `i` on. -/
def printBytes (f : Nat → UInt8) : Nat → Nat → Kern Unit
  | 0, _ => pure ()
  | rounds + 1, i => do
    terminalPutchar (f i)
    printBytes f rounds (i + 1)

/-- The cat command. The buffer is returned as ghost data, as reading left it. -/
def cat (g : Statics) (budget : Nat) (name : List UInt8) : Kern Buf := do
  let buf ← kmalloc 4096
  let r ← fat32ReadFile g budget name buf
  if r.1 ≠ 0 then do
    -- a negative size prints nothing
    printBytes r.2.data r.1.toNat 0
    terminalPutchar 0x0A
    kfree r.2
    pure r.2
  else do
    terminalWritestring "file not found\n"
    kfree r.2
    pure r.2

section
variable {e : Env} {m : Machine}

theorem printBytes_does (f : Nat → UInt8) (rounds i : Nat) :
    Does e m (fun _ => printBytes f rounds i) [] fun _ => True := by
  induction rounds generalizing i m with
  | zero => exact Does.pure trivial
  | succ rounds ih => exact Does.after (terminalWritestring_does _) fun _ _ _ _ => ih (i + 1)

theorem cat_below_iff {g : Statics} {limit : Nat} (reliable : Reliable e) (vol : Sound g limit m.disk)
    (name : List UInt8) :
    Does e m (fun n => cat g n name) [] fun b =>
      Below b 4096 ↔ FitsBuffer g limit m.disk (nameToFat83 name) 4096 := by
  refine Does.after (kmalloc_unread 4096) fun b m₁ same ⟨_, unread⟩ => ?_
  rw [← same]
  refine Does.after (readFile_below_iff reliable (same ▸ vol) name unread 4096) fun r m₂ _ fits => ?_
  split
  · refine Does.after (printBytes_does _ _ _) fun _ _ _ _ => ?_
    refine Does.after (terminalWritestring_does _) fun _ _ _ _ => ?_
    exact Does.after (kfree_does _) fun _ _ _ _ => Does.pure fits
  · refine Does.after (terminalWritestring_does _) fun _ _ _ _ => ?_
    exact Does.after (kfree_does _) fun _ _ _ _ => Does.pure fits

/-- On a volume in order, cat and elf_exec write their buffers below their sizes exactly
if the clusters they read of the file fit there. -/
theorem readers_stay_below_iff {g : Statics} {limit : Nat} (reliable : Reliable e) (vol : Sound g limit m.disk)
    (name : List UInt8) :
    (∃ b m', Returns (fun n => cat g n name e m) (b, m') ∧
      (Below b 4096 ↔ FitsBuffer g limit m.disk (nameToFat83 name) 4096)) ∧
    ∀ table mem, ∃ x m', Returns (fun n => execFile g table mem n name e m) (x, m') ∧
      (Below x.buf elfMaxSize ↔
        e.block m.log.length = 0 ∨ FitsBuffer g limit m.disk (nameToFat83 name) elfMaxSize) := by
  refine ⟨?_, fun table mem => ?_⟩
  · obtain ⟨b, m', ran, -, below⟩ := cat_below_iff reliable vol name
    exact ⟨b, m', ran, below⟩
  · obtain ⟨x, m', ran, -, below⟩ := execFile_below_iff reliable vol table mem name
    exact ⟨x, m', ran, below⟩

end

/-- A one-byte file on a cluster of 8192 bytes overruns the buffer of cat. -/
theorem cat_overruns : ¬∀ (g : Statics) (limit : Nat) (e : Env) (m m' : Machine) (name : List UInt8) (b : Buf),
    Reliable e → Sound g limit m.disk → Returns (fun n => cat g n name e m) (b, m') → Below b 4096 := by
  intro all
  obtain ⟨b, m', ran, -, below⟩ :=
    cat_below_iff (m := ⟨wideDisk 1, []⟩) steadyEnv_reliable (wide_sound 1) [0x61]
  have fits := below.mp (all wide 128 steadyEnv _ m' [0x61] b steadyEnv_reliable (wide_sound 1) ran)
  have listed := (lookup_listed wide_geometry (wide_lookup 1)).1
  have room := fits 0 [3] (by rw [wide_lookup]) ⟨listed, by rw [wide_start listed]; exact wide_chain 1⟩
  have size : entrySize ((view wide 128 (wideDisk 1)).dir wide) 0 = 1 := by
    rw [← (rootBytes_entry wide_geometry _ listed.live.slot).entrySize, (wide_entry 1).entrySize, wideDir,
      entrySize_entryAt _ _ _ _ (by decide)]
  rw [size] at room
  exact absurd room (by decide)

theorem readers_stay_below_iff_wide :
    (∃ b m', Returns (fun n => cat wide n [0x61] steadyEnv ⟨wideDisk 1, []⟩) (b, m') ∧
      (Below b 4096 ↔ FitsBuffer wide 128 (wideDisk 1) (nameToFat83 [0x61]) 4096)) ∧
    ∀ table mem, ∃ x m', Returns (fun n => execFile wide table mem n [0x61] steadyEnv ⟨wideDisk 1, []⟩) (x, m') ∧
      (Below x.buf elfMaxSize ↔ steadyEnv.block 0 = 0 ∨
        FitsBuffer wide 128 (wideDisk 1) (nameToFat83 [0x61]) elfMaxSize) :=
  readers_stay_below_iff (m := ⟨wideDisk 1, []⟩) steadyEnv_reliable (wide_sound 1) [0x61]

end ChrisOS.Shell
