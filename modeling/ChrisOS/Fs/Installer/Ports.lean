import ChrisOS.Drivers.Ata.Leftover

/-! run_install of fs/installer.c over the port accesses of the driver.

Its loop stops at the first transfer that returns 0, so no drive that is left busy is
ever asked again. Whatever the drives do, the sectors copied are a first part of them.
-/

set_option autoImplicit false

namespace ChrisOS.Fs.Installer
open ChrisOS.Drivers.Ata

/-- The loop with its buffer, and the lines after it. -/
def portLoop (target : UInt8) (buf : Nat) : Nat → Nat → Ports.Mem → Ports.Pio (List Action)
  | 0, _, _ => pure [.writestring completeText, .writestring "Remove the boot USB/drive, then reboot.\n",
      .writestring "Type 'reboot' to restart now.\n"]
  | left + 1, lba, mem => do
    let (ok, mem) ← Ports.ataReadSectorEx sourceDrive lba buf mem
    if !ok then return .read sourceDrive lba false :: aborted "\nRead error at LBA " lba
    let data := mem.sector buf
    let ok ← Ports.ataWriteSectorEx target lba buf mem
    if !ok then return .read sourceDrive lba true :: .write target lba data false :: aborted "\nWrite error at LBA " lba
    let rest ← portLoop target buf left (lba + 1) mem
    return .read sourceDrive lba true :: .write target lba data true :: (progress lba ++ rest)

/-- run_install, with the address that kmalloc returns. -/
def portInstall (target : UInt8) (buf : Nat) (mem : Ports.Mem) : Ports.Pio (List Action) := do
  let opening := [.writestring "\nInstalling... please wait.\n", .kmalloc 512 buf]
  if buf = 0 then return opening ++ [.writestring "installer: out of memory\n"]
  let rest ← portLoop target buf installSectorCount 0 mem
  return opening ++ rest

/-! ### How far the loop comes -/

/-- The target's sectors of a stretch are the source's, and no other sector has changed. -/
structure Copied (before after : Disks) (target : UInt8) (lba n : Nat) : Prop where
  copied : ∀ l, lba ≤ l → l < lba + n → after (unit target) l = before (unit sourceDrive) l
  others : ∀ l, l < lba ∨ lba + n ≤ l → after (unit target) l = before (unit target) l
  units : ∀ u, u ≠ unit target → after u = before u

theorem Copied.none (disks : Disks) (target : UInt8) (lba : Nat) : Copied disks disks target lba 0 :=
  ⟨fun _ low high => absurd high (by omega), fun _ _ => rfl, fun _ _ => rfl⟩

theorem Copied.cons {before after : Disks} {target : UInt8} (apart : unit target ≠ unit sourceDrive) {lba n : Nat}
    (fits : lba < 2 ^ 28)
    (rest : Copied (writeSector before target lba (sectorAt before sourceDrive lba)) after target (lba + 1) n) :
    Copied before after target lba (n + 1) := by
  have here : lba28 lba = lba := Nat.mod_eq_of_lt fits
  constructor
  · intro l low high
    by_cases first : l = lba
    · subst first
      rw [rest.others l (.inl (by omega)), writeSector_self, here, Function.update_self, sectorAt, here]
    · rw [rest.copied l (by omega) (by omega), writeSector_unit apart.symm]
  · intro l outside
    rw [rest.others l (by omega), writeSector_self, here, Function.update_of_ne (by omega)]
  · intro u other
    rw [rest.units u other, writeSector_unit other]

theorem installLoop_copied {target : UInt8} (apart : unit target ≠ unit sourceDrive) (answers : Answers) (left lba : Nat)
    (disks : Disks) (fits : lba + left ≤ 2 ^ 28) : ∃ n ≤ left,
      Copied disks (installLoop answers target left lba disks).1 target lba n ∧
        (.writestring completeText ∈ (installLoop answers target left lba disks).2 → n = left) := by
  induction left generalizing lba disks with
  | zero => exact ⟨0, Nat.le_refl 0, .none disks target lba, fun _ => rfl⟩
  | succ left ih =>
    have quiet : ∀ text, text ≠ completeText → .writestring completeText ∉ aborted text lba :=
      fun text other member => aborted_harmless other lba _ member rfl
    simp only [installLoop]
    split
    · refine ⟨0, Nat.zero_le _, .none disks target lba, fun complete => ?_⟩
      rw [List.mem_cons] at complete
      exact absurd (complete.resolve_left (by simp)) (quiet _ (by decide))
    · split
      · refine ⟨0, Nat.zero_le _, .none disks target lba, fun complete => ?_⟩
        simp only [List.mem_cons] at complete
        exact absurd ((complete.resolve_left (by simp)).resolve_left (by simp)) (quiet _ (by decide))
      · obtain ⟨n, small, copied, all⟩ := ih (lba + 1)
          (writeSector disks target lba (sectorAt disks sourceDrive lba)) (by omega)
        refine ⟨n + 1, by omega, copied.cons apart (by omega), fun complete => ?_⟩
        simp only [List.mem_cons, List.mem_append, reduceCtorEq, false_or] at complete
        rw [all (complete.resolve_left fun member => progress_harmless lba _ member rfl)]

/-- The loop asks for the answers from its first block on. -/
theorem installLoop_congr {a b : Answers} {target : UInt8} {left : Nat} (lba : Nat) (disks : Disks)
    (reads : ∀ l, lba ≤ l → a.reads l = b.reads l) (writes : ∀ l, lba ≤ l → a.writes l = b.writes l) :
    installLoop a target left lba disks = installLoop b target left lba disks := by
  induction left generalizing lba disks with
  | zero => rfl
  | succ left ih =>
    have rest := ih (lba + 1) (writeSector disks target lba (sectorAt disks sourceDrive lba))
      (fun l later => reads l (by omega)) fun l later => writes l (by omega)
    simp only [installLoop, reads lba (Nat.le_refl lba), writes lba (Nat.le_refl lba), rest]

/-! ### The loop over the ports -/

theorem fill_sector (mem : Ports.Mem) (buf : Nat) (s : Sector) : (mem.fill buf 512 s).sector buf = s := by
  funext i
  rw [Ports.Mem.sector, Ports.Mem.fill, dif_pos (by omega)]
  exact congrArg s (Fin.ext (by simp))

/-- The answers of the transfers at one block, and later ones. -/
def Answers.from (answers : Answers) (lba : Nat) (read write : Bool) : Answers where
  block := answers.block
  reads := Function.update answers.reads lba read
  writes := Function.update answers.writes lba write

open Ports (Ends) in
theorem portLoop_follows {o : Ports.Oracle} (keeps : o.Keeps) {c : Ports.Channel} (quiet : c.Quiet) (target : UInt8)
    (buf block : Nat) {left : Nat} (lba : Nat) (mem : Ports.Mem) :
    Ends (portLoop target buf left lba mem) o c fun actions c' => ∃ answers : Answers, answers.block = block ∧
      (c'.view, actions) = installLoop answers target left lba c.view := by
  induction left generalizing lba mem c with
  | zero => exact ⟨⟨block, fun _ => true, fun _ => true⟩, rfl, rfl⟩
  | succ left ih =>
    refine .bind (Ports.readSector_moves keeps quiet sourceDrive lba buf mem) fun r c₁ moves => ?_
    obtain ⟨ok, mem'⟩ := r
    obtain ⟨same, moved, after⟩ := moves
    refine .ite (fun failed => .pure ?_) fun succeeded => ?_
    · refine ⟨⟨block, fun _ => false, fun _ => true⟩, rfl, ?_⟩
      rw [installLoop, if_pos rfl, same]
    · have read : ok = true := by simpa using succeeded
      subst read
      have quiet₁ : c₁.Quiet := after.resolve_right fun gave => Bool.noConfusion gave.1
      have data : mem'.sector buf = sectorAt c.view sourceDrive lba := by
        have filled : mem' = mem.fill buf 512 (sectorAt c.view sourceDrive lba) := Option.some.inj moved
        rw [filled]
        exact fill_sector mem buf _
      refine .bind (Ports.writeSector_moves keeps quiet₁ target lba buf mem') fun ok c₂ moves => ?_
      obtain ⟨written, after⟩ := moves
      rw [data, same] at written
      refine .ite (fun failed => .pure ?_) fun succeeded => ?_
      · have refused : ok = false := by simpa using failed
        subst refused
        refine ⟨⟨block, fun _ => true, fun _ => false⟩, rfl, ?_⟩
        rw [installLoop, if_neg Bool.noConfusion, if_pos rfl, written, data]
        rfl
      · have wrote : ok = true := by simpa using succeeded
        subst wrote
        have quiet₂ : c₂.Quiet := after.resolve_right fun gave => Bool.noConfusion gave.1
        refine .bind (ih quiet₂ (lba + 1) mem') fun rest c₃ rested => .pure ?_
        obtain ⟨answers, memory, followed⟩ := rested
        refine ⟨answers.from lba true true, memory, ?_⟩
        have later : installLoop (answers.from lba true true) target left (lba + 1) c₂.view =
            installLoop answers target left (lba + 1) c₂.view :=
          installLoop_congr _ _ (fun l high => Function.update_of_ne (by omega) ..) fun l high => Function.update_of_ne (by omega) ..
        rw [if_pos rfl] at written
        rw [written] at later followed
        rw [installLoop, if_neg (by simp [Answers.from]), if_neg (by simp [Answers.from]), later, ← followed, data]

theorem runInstall_copied {target : UInt8} (apart : unit target ≠ unit sourceDrive) (answers : Answers) (disks : Disks) :
    ∃ n ≤ installSectorCount, Copied disks (runInstall answers target disks).1 target 0 n ∧
      (.writestring completeText ∈ (runInstall answers target disks).2 → n = installSectorCount) := by
  unfold runInstall
  split
  · refine ⟨0, Nat.zero_le _, .none disks target 0, fun complete => ?_⟩
    simp only [List.cons_append, List.nil_append, List.mem_cons, Action.writestring.injEq, reduceCtorEq, false_or,
      List.not_mem_nil, or_false] at complete
    exact absurd complete (by decide)
  · obtain ⟨n, small, copied, all⟩ := installLoop_copied apart answers installSectorCount 0 disks (by decide)
    refine ⟨n, small, copied, fun complete => all ?_⟩
    simp only [List.cons_append, List.nil_append, List.mem_cons, Action.writestring.injEq, reduceCtorEq, false_or] at complete
    exact complete.resolve_left (by decide)

theorem portInstall_follows {o : Ports.Oracle} (keeps : o.Keeps) {c : Ports.Channel} (quiet : c.Quiet) (target : UInt8)
    (buf : Nat) (mem : Ports.Mem) :
    Ports.Ends (portInstall target buf mem) o c fun actions c' => ∃ answers : Answers, answers.block = buf ∧
      (c'.view, actions) = runInstall answers target c.view := by
  refine .ite (fun null => .pure ⟨⟨buf, fun _ => true, fun _ => true⟩, rfl, ?_⟩) fun memory => ?_
  · rw [runInstall, if_pos null]
  · refine .bind (portLoop_follows keeps quiet target buf buf 0 mem) fun rest c' ⟨answers, same, followed⟩ => .pure ?_
    refine ⟨answers, same, ?_⟩
    rw [runInstall, if_neg (same ▸ memory), ← followed, same]

end ChrisOS.Fs.Installer
