import ChrisOS.Drivers.Ata
import ChrisOS.Lib.Run
import Mathlib.Data.Nat.Digits.Defs

/-! The installer of fs/installer.c on the two drives of the primary channel.

installer_start is called by the shell and by a mouse click, installer_handle_char for
each character. Every call out is recorded, and its answer is given with the event.
-/

set_option autoImplicit false

namespace ChrisOS.Fs.Installer
open ChrisOS.Lib ChrisOS.Drivers.Ata

/-- SOURCE_DRIVE. -/
def sourceDrive : UInt8 := 0

/-- INSTALL_SECTOR_COUNT. -/
def installSectorCount : Nat := 53248

inductive Action where
  | putchar (c : UInt8)
  | writestring (text : String)
  | setcolor (color : Nat)
  | detect (drive : UInt8) (ok : Bool)
  | kmalloc (size ptr : Nat)
  | read (drive : UInt8) (lba : Nat) (ok : Bool)
  | write (drive : UInt8) (lba : Nat) (data : Sector) (ok : Bool)

/-- The answers of kmalloc and of the transfers in one run of run_install. -/
structure Answers where
  block : Nat
  reads : Nat → Bool
  writes : Nat → Bool

inductive Event where
  /-- installer_start, with the answers of ata_detect. -/
  | start (detects : UInt8 → Bool)
  /-- installer_handle_char. -/
  | char (c : UInt8) (answers : Answers)

/-- The sectors of the two drives, by unit and by 28-bit block address. -/
abbrev Disks := Nat → Nat → Sector

structure Statics where
  active : Bool
  state : Nat
  /-- The first found_count entries of the array. -/
  found : List UInt8
  targetDrive : UInt8

structure World where
  vars : Statics
  disks : Disks

/-- The unit that `0xE0 | (drive << 4)` selects: bit 4 is the lowest bit of the drive. -/
def unit (drive : UInt8) : Nat := drive.toNat % 2

/-- What ata_read_sector_ex leaves in the buffer when it returns 1. -/
def sectorAt (disks : Disks) (drive : UInt8) (lba : Nat) : Sector := disks (unit drive) (lba28 lba)

/-- The disks after ata_write_sector_ex has returned 1. -/
def writeSector (disks : Disks) (drive : UInt8) (lba : Nat) (data : Sector) : Disks :=
  Function.update disks (unit drive) (Function.update (disks (unit drive)) (lba28 lba) data)

def makeColor (fg bg : Nat) : Nat := fg ||| bg <<< 4

def black : Nat := 0
def lightGrey : Nat := 7
def lightCyan : Nat := 11
def lightRed : Nat := 12

/-- The digits are found from the right and printed from the left. -/
def printNum (n : Nat) : List Action :=
  if n = 0 then [.putchar 48]
  else (Nat.digits 10 n).reverse.map fun digit => .putchar (48 + UInt8.ofNat digit)

def milestone : Nat := if installSectorCount / 20 = 0 then 1 else installSectorCount / 20

/-- The progress line after a sector, at every milestone. -/
def progress (lba : Nat) : List Action :=
  if lba % milestone = 0 then
    [.writestring "  ["] ++ printNum (lba * 100 / installSectorCount) ++ [.writestring "%] sector "] ++ printNum lba ++
      [.writestring " / "] ++ printNum installSectorCount ++ [.putchar 10]
  else []

def aborted (text : String) (lba : Nat) : List Action :=
  [.writestring text] ++ printNum lba ++ [.writestring " — install aborted.\n"]

def completeText : String := "\nInstall complete!\n"

/-- The loop of run_install and the lines after it, with `left` sectors to go. -/
def installLoop (answers : Answers) (target : UInt8) : Nat → Nat → Disks → Disks × List Action
  | 0, _, disks =>
    (disks, [.writestring completeText, .writestring "Remove the boot USB/drive, then reboot.\n",
      .writestring "Type 'reboot' to restart now.\n"])
  | left + 1, lba, disks =>
    if answers.reads lba = false then
      (disks, .read sourceDrive lba false :: aborted "\nRead error at LBA " lba)
    else
      let buf := sectorAt disks sourceDrive lba
      if answers.writes lba = false then
        (disks, .read sourceDrive lba true :: .write target lba buf false :: aborted "\nWrite error at LBA " lba)
      else
        let rest := installLoop answers target left (lba + 1) (writeSector disks target lba buf)
        (rest.1, .read sourceDrive lba true :: .write target lba buf true :: (progress lba ++ rest.2))

def runInstall (answers : Answers) (target : UInt8) (disks : Disks) : Disks × List Action :=
  let opening := [.writestring "\nInstalling... please wait.\n", .kmalloc 512 answers.block]
  if answers.block = 0 then (disks, opening ++ [.writestring "installer: out of memory\n"])
  else
    let done := installLoop answers target installSectorCount 0 disks
    (done.1, opening ++ done.2)

/-- The body of the scan for one drive. -/
def scanDrive (detects : UInt8 → Bool) (d : UInt8) : List Action :=
  .detect d (detects d) ::
    if detects d then
      [.writestring "  Drive ", .putchar (48 + d),
        .writestring (if d = sourceDrive then " - primary master (boot drive)\n" else " - primary slave\n")]
    else []

def detected (detects : UInt8 → Bool) : List UInt8 := [0, 1].filter detects

def banner : List Action :=
  [.putchar 10, .setcolor (makeColor lightCyan black), .writestring "=== Chris OS Installer ===\n\n",
    .setcolor (makeColor lightGrey black), .writestring "Scanning drives...\n"]

def oneDrive : List Action :=
  [.setcolor (makeColor lightRed black), .writestring "\nOnly one drive detected.\n",
    .writestring "Connect a second drive to install onto, then try again.\n", .setcolor (makeColor lightGrey black)]

def listTarget (d : UInt8) : List Action :=
  if d = sourceDrive then [] else [.writestring "  ", .putchar (48 + d), .writestring " - primary slave\n"]

def installerStart (detects : UInt8 → Bool) : Statics × List Action :=
  let found := detected detects
  let scanned := banner ++ scanDrive detects 0 ++ scanDrive detects 1
  if found.length < 2 then (⟨false, 0, found, 0xFF⟩, scanned ++ oneDrive)
  else
    (⟨true, 0, found, 0xFF⟩, scanned ++
      [.putchar 10, .writestring "Available target drives (do NOT pick the boot drive):\n"] ++
      found.flatMap listTarget ++ [.putchar 10, .writestring "Type the target drive number: "])

/-- char is signed: bytes from 128 on are negative. -/
def signed (c : UInt8) : Int := if c.toNat < 128 then c.toNat else (c.toNat : Int) - 256

/-- installer_handle_char in state 0. -/
def chooseDrive (v : Statics) (c : UInt8) : Statics × List Action :=
  if signed c < 48 ∨ 49 < signed c then
    (v, [.putchar c, .writestring "\nInvalid drive number. Try again: "])
  else
    let chosen := c - 48
    if chosen = sourceDrive then
      (v, [.putchar c, .writestring "\nThat is the boot drive — choose a different one: "])
    else if chosen ∉ v.found then
      (v, [.putchar c, .writestring "\nDrive not detected. Try again: "])
    else
      ({ v with targetDrive := chosen, state := 1 },
        [.putchar c, .putchar 10, .setcolor (makeColor lightRed black), .writestring "\nWARNING: This will ERASE drive ",
          .putchar (48 + chosen), .writestring " and write ~26MB of data.\n", .setcolor (makeColor lightGrey black),
          .writestring "Type 'y' to confirm, 'n' to cancel: "])

/-- installer_handle_char in state 1. -/
def confirm (w : World) (c : UInt8) (answers : Answers) : World × List Action :=
  if c = 121 ∨ c = 89 then
    let done := runInstall answers w.vars.targetDrive w.disks
    (⟨{ w.vars with state := 3, active := false }, done.1⟩, [.putchar c, .putchar 10] ++ done.2)
  else
    ({ w with vars := { w.vars with active := false } }, [.putchar c, .putchar 10, .writestring "Install cancelled.\n"])

def installerHandleChar (w : World) (c : UInt8) (answers : Answers) : World × List Action :=
  if w.vars.active = false then (w, [])
  else if w.vars.state = 0 then ({ w with vars := (chooseDrive w.vars c).1 }, (chooseDrive w.vars c).2)
  else if w.vars.state = 1 then confirm w c answers
  else (w, [])

/-- The world after an event, and the calls made in it. -/
def perform (w : World) : Event → World × List Action
  | .start detects => ({ w with vars := (installerStart detects).1 }, (installerStart detects).2)
  | .char c answers => installerHandleChar w c answers

abbrev Step (w : World) (e : Event) (w' : World) : Prop := (perform w e).1 = w'

/-- The statics as the program is loaded. -/
def loaded : Statics := ⟨false, 0, [], 0xFF⟩

/-! ### What was asked and answered -/

/-- The answers of the last scan, and what was typed since: all characters, and those that were
accepted. -/
structure History where
  scan : Option (UInt8 → Bool)
  typed : List UInt8
  accepted : List UInt8

/-- A character is accepted when it moves the dialogue on. -/
def accepts (m : Move World Event) : Prop :=
  m.after.vars.state ≠ m.before.vars.state ∨ m.after.vars.active ≠ m.before.vars.active

instance (m : Move World Event) : Decidable (accepts m) := inferInstanceAs (Decidable (_ ∨ _))

def History.record (h : History) (m : Move World Event) : History :=
  match m.event with
  | .start detects => ⟨some detects, [], []⟩
  | .char c _ => ⟨h.scan, h.typed ++ [c], if accepts m then h.accepted ++ [c] else h.accepted⟩

def history (moves : List (Move World Event)) : History := moves.foldl History.record ⟨none, [], []⟩

/-- The last scan detected the drive, and the last two answers since are its digit and a yes, with
nothing else typed between. -/
structure Confirmed (h : History) (d : UInt8) : Prop where
  notSource : d ≠ sourceDrive
  found : ∃ scan, h.scan = some scan ∧ d ∈ detected scan
  typed : ∃ rest yes, (yes = 121 ∨ yes = 89) ∧ h.typed = rest ++ [48 + d, yes]
  accepted : ∃ rest yes, (yes = 121 ∨ yes = 89) ∧ h.accepted = rest ++ [48 + d, yes]

/-- The first sectors of the drive are the source's, and no other sector of the two drives has changed. -/
structure Installed (before after : Disks) (d : UInt8) : Prop where
  copied : ∀ lba < installSectorCount, after (unit d) lba = after (unit sourceDrive) lba
  others : ∀ lba, installSectorCount ≤ lba → after (unit d) lba = before (unit d) lba
  source : after (unit sourceDrive) = before (unit sourceDrive)

/-! ### The copy -/

theorem mem_detected {detects : UInt8 → Bool} {d : UInt8} : d ∈ detected detects ↔ (d = 0 ∨ d = 1) ∧ detects d = true := by
  simp [detected]

/-- The only drive that is scanned besides the source is the other unit. -/
theorem unit_apart {detects : UInt8 → Bool} {d : UInt8} (found : d ∈ detected detects) (other : d ≠ sourceDrive) :
    unit d ≠ unit sourceDrive := by
  obtain ⟨rfl | rfl, -⟩ := mem_detected.mp found
  · exact absurd rfl other
  · decide

theorem writeSector_self (disks : Disks) (drive : UInt8) (lba : Nat) (data : Sector) :
    writeSector disks drive lba data (unit drive) = Function.update (disks (unit drive)) (lba28 lba) data :=
  Function.update_self ..

theorem writeSector_unit {drive : UInt8} {u : Nat} (apart : u ≠ unit drive) (disks : Disks) (lba : Nat)
    (data : Sector) : writeSector disks drive lba data u = disks u :=
  Function.update_of_ne apart ..

/-- Neither writes a sector nor reports success. -/
def Harmless : Action → Prop
  | .write .. => False
  | .writestring text => text ≠ completeText
  | .putchar _ | .setcolor _ | .detect .. | .kmalloc .. | .read .. => True

instance : DecidablePred Harmless
  | .write .. => isFalse id
  | .writestring text => inferInstanceAs (Decidable (text ≠ completeText))
  | .putchar _ | .setcolor _ | .detect .. | .kmalloc .. | .read .. => isTrue trivial

theorem printNum_harmless (n : Nat) : ∀ a ∈ printNum n, Harmless a := by
  intro a member
  unfold printNum at member
  split at member
  · rw [List.mem_singleton.mp member]
    trivial
  · obtain ⟨digit, -, rfl⟩ := List.mem_map.mp member
    trivial

theorem progress_harmless (lba : Nat) : ∀ a ∈ progress lba, Harmless a := by
  have numbers := printNum_harmless
  unfold progress
  split
  · simp only [List.forall_mem_append, List.forall_mem_singleton]
    exact ⟨⟨⟨⟨⟨⟨by decide, numbers _⟩, by decide⟩, numbers lba⟩, by decide⟩, numbers _⟩, trivial⟩
  · simp

theorem aborted_harmless {text : String} (other : text ≠ completeText) (lba : Nat) :
    ∀ a ∈ aborted text lba, Harmless a := by
  simp only [aborted, List.forall_mem_append, List.forall_mem_singleton]
  exact ⟨⟨other, printNum_harmless lba⟩, by decide⟩

/-- The loop writes to its target only. -/
theorem installLoop_writes (answers : Answers) (target : UInt8) (left lba : Nat) (disks : Disks) :
    ∀ a ∈ (installLoop answers target left lba disks).2,
      Harmless a ∨ a = .writestring completeText ∨ ∃ l data ok, a = .write target l data ok := by
  induction left generalizing lba disks with
  | zero =>
    intro a member
    simp only [installLoop, List.mem_cons, List.not_mem_nil, or_false] at member
    rcases member with rfl | rfl | rfl
    · exact .inr (.inl rfl)
    · exact .inl (by decide)
    · exact .inl (by decide)
  | succ left ih =>
    simp only [installLoop]
    split
    · rw [List.forall_mem_cons]
      exact ⟨.inl trivial, fun a member => .inl (aborted_harmless (by decide) lba a member)⟩
    · split
      · simp only [List.forall_mem_cons]
        exact ⟨.inl trivial, .inr (.inr ⟨_, _, _, rfl⟩), fun a member => .inl (aborted_harmless (by decide) lba a member)⟩
      · simp only [List.forall_mem_cons, List.forall_mem_append]
        exact ⟨.inl trivial, .inr (.inr ⟨_, _, _, rfl⟩), fun a member => .inl (progress_harmless lba a member), ih _ _⟩

/-- A loop that reports success has copied every sector it had to go, and touched no other. -/
theorem installLoop_copies {answers : Answers} {target : UInt8} (apart : unit target ≠ unit sourceDrive) {left lba : Nat}
    {disks : Disks} (fits : lba + left ≤ 2 ^ 28)
    (complete : .writestring completeText ∈ (installLoop answers target left lba disks).2) :
    (∀ k, lba ≤ k → k < lba + left →
        (installLoop answers target left lba disks).1 (unit target) k = disks (unit sourceDrive) k) ∧
      (∀ k, k < lba ∨ lba + left ≤ k →
        (installLoop answers target left lba disks).1 (unit target) k = disks (unit target) k) ∧
      (installLoop answers target left lba disks).1 (unit sourceDrive) = disks (unit sourceDrive) := by
  -- the sectors below lba are done, those from lba on are the induction's
  induction left generalizing lba disks with
  | zero => exact ⟨fun k low high => absurd high (by omega), fun _ _ => rfl, rfl⟩
  | succ left ih =>
    have quiet : ∀ text, text ≠ completeText → .writestring completeText ∉ aborted text lba :=
      fun text other member => aborted_harmless other lba _ member rfl
    simp only [installLoop] at complete ⊢
    split at complete
    · rw [List.mem_cons] at complete
      exact absurd (complete.resolve_left (by simp)) (quiet _ (by decide))
    · split at complete
      · simp only [List.mem_cons] at complete
        exact absurd ((complete.resolve_left (by simp)).resolve_left (by simp)) (quiet _ (by decide))
      · rename_i readOk writeOk
        simp only [List.mem_cons, List.mem_append, reduceCtorEq, false_or] at complete
        have rest := complete.resolve_left fun member => progress_harmless lba _ member rfl
        obtain ⟨copied, others, source⟩ := ih (by omega) rest
        rw [if_neg readOk, if_neg writeOk]
        have here : lba28 lba = lba := Nat.mod_eq_of_lt (by omega)
        refine ⟨?_, ?_, ?_⟩
        · intro k low high
          by_cases first : k = lba
          · subst first
            rw [others k (.inl (by omega)), writeSector_self, here, Function.update_self, sectorAt, here]
          · rw [copied k (by omega) (by omega), writeSector_unit apart.symm]
        · intro k outside
          rw [others k (by omega), writeSector_self, here, Function.update_of_ne (by omega)]
        · rw [source, writeSector_unit apart.symm]

/-- With no transfer failing the loop reports success. -/
theorem installLoop_completes {answers : Answers} (reads : ∀ lba, answers.reads lba = true)
    (writes : ∀ lba, answers.writes lba = true) (target : UInt8) (left lba : Nat) (disks : Disks) :
    .writestring completeText ∈ (installLoop answers target left lba disks).2 := by
  induction left generalizing lba disks with
  | zero => exact .head _
  | succ left ih =>
    simp only [installLoop, reads, writes, Bool.true_eq_false, if_false]
    apply List.mem_cons_of_mem
    apply List.mem_cons_of_mem
    exact List.mem_append_right _ (ih _ _)

theorem runInstall_writes (answers : Answers) (target : UInt8) (disks : Disks) :
    ∀ a ∈ (runInstall answers target disks).2,
      Harmless a ∨ a = .writestring completeText ∨ ∃ l data ok, a = .write target l data ok := by
  unfold runInstall
  split
  · intro a member
    simp only [List.cons_append, List.nil_append, List.mem_cons, List.not_mem_nil, or_false] at member
    rcases member with rfl | rfl | rfl
    · exact .inl (by decide)
    · exact .inl trivial
    · exact .inl (by decide)
  · intro a member
    simp only [List.cons_append, List.nil_append, List.mem_cons] at member
    rcases member with rfl | rfl | member
    · exact .inl (by decide)
    · exact .inl trivial
    · exact installLoop_writes answers target installSectorCount 0 disks a member

theorem runInstall_installed {answers : Answers} {target : UInt8} (apart : unit target ≠ unit sourceDrive) {disks : Disks}
    (complete : .writestring completeText ∈ (runInstall answers target disks).2) :
    Installed disks (runInstall answers target disks).1 target := by
  unfold runInstall at complete ⊢
  split at complete
  · simp only [List.cons_append, List.nil_append, List.mem_cons, Action.writestring.injEq, reduceCtorEq, false_or,
      List.not_mem_nil, or_false] at complete
    exact absurd complete (by decide)
  · rename_i memory
    rw [if_neg memory]
    simp only [List.cons_append, List.nil_append, List.mem_cons, Action.writestring.injEq, reduceCtorEq, false_or] at complete
    have inside := complete.resolve_left (by decide)
    obtain ⟨copied, others, source⟩ := installLoop_copies apart (by decide) inside
    constructor
    · intro lba low
      rw [copied lba (Nat.zero_le lba) (by omega), source]
    · exact fun lba high => others lba (.inr (by omega))
    · exact source

/-! ### The dialogue -/

theorem scanDrive_harmless (detects : UInt8 → Bool) (d : UInt8) : ∀ a ∈ scanDrive detects d, Harmless a := by
  unfold scanDrive
  rw [List.forall_mem_cons]
  refine ⟨trivial, ?_⟩
  split
  · simp only [List.forall_mem_cons]
    refine ⟨by decide, trivial, ?_, by simp⟩
    split <;> decide
  · simp

theorem listTarget_harmless (d : UInt8) : ∀ a ∈ listTarget d, Harmless a := by
  unfold listTarget
  split
  · simp
  · simp only [List.forall_mem_cons]
    exact ⟨by decide, trivial, by decide, by simp⟩

theorem installerStart_harmless (detects : UInt8 → Bool) : ∀ a ∈ (installerStart detects).2, Harmless a := by
  have scanned : ∀ a ∈ banner ++ scanDrive detects 0 ++ scanDrive detects 1, Harmless a := by
    simp only [List.forall_mem_append]
    exact ⟨⟨by decide, scanDrive_harmless detects 0⟩, scanDrive_harmless detects 1⟩
  unfold installerStart
  dsimp only
  split
  · rw [List.forall_mem_append]
    exact ⟨scanned, by decide⟩
  · rw [List.forall_mem_append, List.forall_mem_append, List.forall_mem_append]
    refine ⟨⟨⟨scanned, by decide⟩, fun a member => ?_⟩, by decide⟩
    obtain ⟨d, -, listed⟩ := List.mem_flatMap.mp member
    exact listTarget_harmless d a listed

/-- A character in state 0 is refused, or it is the digit of a drive that was found. -/
theorem chooseDrive_cases (v : Statics) (c : UInt8) :
    (chooseDrive v c).1 = v ∨ ∃ d, c = 48 + d ∧ d ≠ sourceDrive ∧ d ∈ v.found ∧
      (chooseDrive v c).1 = { v with targetDrive := d, state := 1 } := by
  unfold chooseDrive
  split
  · exact .inl rfl
  · dsimp only
    split
    · exact .inl rfl
    · rename_i other
      split
      · exact .inl rfl
      · rename_i found
        exact .inr ⟨c - 48, by rw [UInt8.add_comm, UInt8.sub_add_cancel], other, not_not.mp found, rfl⟩

theorem chooseDrive_harmless (v : Statics) (c : UInt8) : ∀ a ∈ (chooseDrive v c).2, Harmless a := by
  unfold chooseDrive
  dsimp only
  split
  · simp only [List.forall_mem_cons]
    exact ⟨trivial, by decide, by simp⟩
  · split
    · simp only [List.forall_mem_cons]
      exact ⟨trivial, by decide, by simp⟩
    · split
      · simp only [List.forall_mem_cons]
        exact ⟨trivial, by decide, by simp⟩
      · simp only [List.forall_mem_cons]
        exact ⟨trivial, trivial, trivial, by decide, trivial, by decide, trivial, by decide, by simp⟩

/-- What the dialogue has on record while it waits: the last scan, and the digit of the target. -/
structure Tracked (w : World) (h : History) : Prop where
  scanned : w.vars.active = true → ∃ scan, h.scan = some scan ∧ w.vars.found = detected scan
  chosen : w.vars.active = true → w.vars.state = 1 →
    w.vars.targetDrive ≠ sourceDrive ∧ w.vars.targetDrive ∈ w.vars.found ∧
      (∃ rest, h.typed = rest ++ [48 + w.vars.targetDrive]) ∧ ∃ rest, h.accepted = rest ++ [48 + w.vars.targetDrive]

theorem Tracked.idle {w : World} {h : History} (inactive : w.vars.active = false) : Tracked w h := by
  constructor
  · intro active
    rw [inactive] at active
    cases active
  · intro active
    rw [inactive] at active
    cases active

/-- A character that is not the answer to the warning only prints; the answer ends the dialogue. -/
theorem handleChar_cases (w : World) (c : UInt8) (answers : Answers) :
    (w.vars.active = true ∧ w.vars.state = 1 ∧ installerHandleChar w c answers = confirm w c answers) ∨
    (w.vars.active = true ∧ w.vars.state = 0 ∧ (installerHandleChar w c answers).1 = { w with vars := (chooseDrive w.vars c).1 } ∧
      ∀ a ∈ (installerHandleChar w c answers).2, Harmless a) ∨
    ((w.vars.active = true → w.vars.state ≠ 1) ∧ installerHandleChar w c answers = (w, [])) := by
  unfold installerHandleChar
  split
  · rename_i inactive
    exact .inr (.inr ⟨fun active => absurd (inactive.symm.trans active) (by decide), rfl⟩)
  · rename_i active
    rw [Bool.not_eq_false] at active
    split
    · rename_i first
      exact .inr (.inl ⟨active, first, rfl, chooseDrive_harmless w.vars c⟩)
    · split
      · rename_i warned
        exact .inl ⟨active, warned, rfl⟩
      · rename_i other
        exact .inr (.inr ⟨fun _ => other, rfl⟩)

theorem confirm_inactive (w : World) (c : UInt8) (answers : Answers) : (confirm w c answers).1.vars.active = false := by
  unfold confirm
  split <;> rfl

/-- An event keeps the record. -/
theorem Tracked.step {w w' : World} {e : Event} {h : History} (tracked : Tracked w h) (taken : Step w e w') :
    Tracked w' (h.record ⟨w, e, w'⟩) := by
  subst taken
  cases e with
  | start detects =>
    simp only [perform, installerStart]
    split
    · exact .idle rfl
    · constructor
      · exact fun _ => ⟨detects, rfl, rfl⟩
      · exact fun _ second => absurd second (by simp)
  | char c answers =>
    rcases handleChar_cases w c answers with ⟨-, -, same⟩ | ⟨active, first, same, -⟩ | ⟨other, same⟩
    · apply Tracked.idle
      rw [perform, same, confirm_inactive]
    · obtain ⟨scan, scanned, found⟩ := tracked.scanned active
      rw [perform, same]
      rcases chooseDrive_cases w.vars c with refused | ⟨d, rfl, other, member, chosen⟩
      · rw [refused]
        exact ⟨fun _ => ⟨scan, scanned, found⟩, fun _ second => absurd (first.symm.trans second) (by decide)⟩
      · rw [chosen]
        have moved : accepts ⟨w, .char (48 + d) answers, { w with vars := { w.vars with targetDrive := d, state := 1 } }⟩ := by
          apply Or.inl
          rw [first]
          exact Nat.one_ne_zero
        constructor
        · exact fun _ => ⟨scan, scanned, found⟩
        · intro _ _
          refine ⟨other, member, ⟨h.typed, rfl⟩, h.accepted, ?_⟩
          simp only [History.record, if_pos moved]
    · rw [perform, same]
      constructor
      · exact tracked.scanned
      · exact fun active second => absurd second (other active)

/-- What is written or reported complete was confirmed in the character just typed. -/
theorem Tracked.writes {w w' : World} {e : Event} {h : History} (tracked : Tracked w h) (taken : Step w e w') :
    (∀ a ∈ (perform w e).2, Harmless a) ∨
      Confirmed (h.record ⟨w, e, w'⟩) w.vars.targetDrive ∧
        (∀ a ∈ (perform w e).2,
          Harmless a ∨ a = .writestring completeText ∨ ∃ l data ok, a = .write w.vars.targetDrive l data ok) ∧
        (.writestring completeText ∈ (perform w e).2 → Installed w.disks w'.disks w.vars.targetDrive) := by
  subst taken
  cases e with
  | start detects => exact .inl (installerStart_harmless detects)
  | char c answers =>
    rcases handleChar_cases w c answers with ⟨active, second, same⟩ | ⟨-, -, -, quiet⟩ | ⟨-, same⟩
    · rw [perform, same]
      by_cases yes : c = 121 ∨ c = 89
      · obtain ⟨other, member, typed, accepted⟩ := tracked.chosen active second
        obtain ⟨scan, scanned, found⟩ := tracked.scanned active
        obtain ⟨typed, typedEq⟩ := typed
        obtain ⟨accepted, acceptedEq⟩ := accepted
        rw [found] at member
        right
        rw [confirm, if_pos yes]
        refine ⟨⟨other, ⟨scan, scanned, member⟩, ?_, ?_⟩, ?_, ?_⟩
        · refine ⟨typed, c, yes, ?_⟩
          simp only [History.record, typedEq, List.append_assoc, List.singleton_append]
        · refine ⟨accepted, c, yes, ?_⟩
          have moved : accepts ⟨w, .char c answers, ⟨{ w.vars with state := 3, active := false },
              (runInstall answers w.vars.targetDrive w.disks).1⟩⟩ := by
            apply Or.inl
            rw [second]
            exact (by decide : 3 ≠ 1)
          simp only [History.record, if_pos moved, acceptedEq, List.append_assoc, List.singleton_append]
        · simp only [List.cons_append, List.nil_append, List.forall_mem_cons]
          exact ⟨.inl trivial, .inl trivial, runInstall_writes answers w.vars.targetDrive w.disks⟩
        · intro complete
          simp only [List.cons_append, List.nil_append, List.mem_cons, reduceCtorEq, false_or] at complete
          exact runInstall_installed (unit_apart member other) complete
      · left
        rw [confirm, if_neg yes]
        simp only [List.forall_mem_cons]
        exact ⟨trivial, trivial, by decide, by simp⟩
    · exact .inl quiet
    · left
      rw [perform, same]
      simp

theorem run_tracked {w u : World} {moves : List (Move World Event)} {h : History} (run : Run Step w moves u)
    (start : Tracked w h) : Tracked u (moves.foldl History.record h) := by
  induction run generalizing h with
  | nil => exact start
  | cons taken _ ih => exact ih (start.step taken)

theorem history_snoc (before : List (Move World Event)) (m : Move World Event) :
    history (before ++ [m]) = (history before).record m := by
  simp [history]

/-- However installer_start and characters follow one another, a sector is written only to a drive that
was confirmed, and success is reported only of a faithful copy. -/
theorem install_confirmed {w u : World} {moves before after : List (Move World Event)} {m : Move World Event}
    (power : w.vars = loaded) (run : Run Step w moves u) (split : moves = before ++ m :: after) :
    (∀ d lba data ok, .write d lba data ok ∈ (perform m.before m.event).2 → Confirmed (history (before ++ [m])) d) ∧
      (.writestring completeText ∈ (perform m.before m.event).2 →
        ∃ d, Confirmed (history (before ++ [m])) d ∧ Installed m.before.disks m.after.disks d) := by
  subst split
  obtain ⟨t, first, second⟩ := Run.split before run
  have tracked : Tracked t (history before) := run_tracked first (.idle (by rw [power]; rfl))
  cases second with
  | cons taken _ =>
    rw [history_snoc]
    rcases tracked.writes taken with quiet | ⟨confirmed, writes, installed⟩
    · constructor
      · exact fun d lba data ok member => (quiet _ member).elim
      · exact fun member => absurd rfl (quiet _ member)
    · constructor
      · intro d lba data ok member
        rcases writes _ member with harmless | same | ⟨l, data', ok', same⟩
        · exact harmless.elim
        · cases same
        · cases same
          exact confirmed
      · exact fun member => ⟨_, confirmed, installed member⟩

/-- Both drives answer, drive 1 is chosen and confirmed, and no transfer fails. -/
theorem install_confirmed_drive_one : ∃ (w u : World) (before : List (Move World Event)) (m : Move World Event),
    Run Step w (before ++ [m]) u ∧ .writestring completeText ∈ (perform m.before m.event).2 ∧
      ∃ d, Confirmed (history (before ++ [m])) d ∧ Installed m.before.disks m.after.disks d := by
  let answers : Answers := ⟨0x200000, fun _ => true, fun _ => true⟩
  let w : World := ⟨loaded, fun u lba _ => UInt8.ofNat (u + lba)⟩
  let scanned : World := (perform w (.start fun _ => true)).1
  let warned : World := (perform scanned (.char 49 answers)).1
  have run : Run Step w [⟨w, .start fun _ => true, scanned⟩, ⟨scanned, .char 49 answers, warned⟩,
      ⟨warned, .char 121 answers, (perform warned (.char 121 answers)).1⟩] (perform warned (.char 121 answers)).1 :=
    .cons rfl (.cons rfl (.single rfl))
  have complete : .writestring completeText ∈ (perform warned (.char 121 answers)).2 := by
    have reads : ∀ lba, answers.reads lba = true := fun _ => rfl
    have writes : ∀ lba, answers.writes lba = true := fun _ => rfl
    have loop := installLoop_completes reads writes 1 installSectorCount 0 warned.disks
    exact List.mem_append_right _ (List.mem_append_right _ loop)
  have confirmed := install_confirmed rfl run (show _ = [_, _] ++ _ :: [] from rfl)
  exact ⟨w, _, [_, _], _, run, complete, confirmed.2 complete⟩

end ChrisOS.Fs.Installer
