import ChrisOS.Drivers.Ata.Calls

/-! What a read that gave up leaves behind on the channel.

ata_wait_drq polls ATA_TIMEOUT times. A drive that comes up with its sector later still
holds it when the next call begins, and no call looks whose data it moves.
-/

set_option autoImplicit false

namespace ChrisOS.Drivers.Ata.Ports
open ChrisOS.Lib
open ChrisOS.Fs.Installer (Disks unit sectorAt)

/-- No command fails. -/
def Oracle.Obeys (o : Oracle) : Prop := ∀ u n, o.fails u n = false

/-- The selected unit prepares or holds the sector of a read that nobody waits for. -/
structure Leftover (c : Channel) (disks : Disks) (u lba : Nat) : Prop where
  selected : c.selected = u
  left : Working c disks (.busy .read lba 1) ∨ Asks c disks .read lba 1

variable {o : Oracle} {c : Channel} {disks : Disks} {u lba : Nat}

theorem Asks.view {command : Command} {count : Nat} (asks : Asks c disks command lba count) : c.view = disks := by
  obtain ⟨sector, -, working⟩ := asks
  funext v
  by_cases here : v = c.selected
  · subst here
    have phase : (c.drives c.selected).phase = _ := working.phase
    cases command with
    | read | write | identify =>
      rw [Channel.view, Drive.view, phase]
      exact working.media
  · exact (working.others v here).2

theorem Leftover.view (leftover : Leftover c disks u lba) : c.view = disks :=
  leftover.left.elim Working.view Asks.view

theorem Asks.registers {command : Command} {count : Nat} (asks : Asks c disks command lba count) {c' : Channel}
    (drives : c'.drives = c.drives) (selected : c'.selected = c.selected) : Asks c' disks command lba count := by
  obtain ⟨sector, sent, kind, phase, media, others⟩ := asks
  have same : c'.drive = c.drive := by rw [Channel.drive, drives, selected, Channel.drive]
  exact ⟨sector, selected ▸ sent, same ▸ kind, same ▸ phase, same ▸ selected ▸ media, drives ▸ selected ▸ others⟩

/-- A register write changes no drive that holds data, as long as the unit stays selected. -/
theorem Asks.outb_kept (keeps : o.Keeps) {command : Command} {count : Nat} (asks : Asks c disks command lba count) {r : Reg}
    {v : UInt8} (unit : r = .hddevsel → v.toNat / 16 % 2 = c.selected) (running : r ≠ .ctl) :
    Asks (outb r v o c).2 disks command lba count ∧ (outb r v o c).2.selected = c.selected := by
  have next := asks.ticked (o := o) keeps
  cases r with
  | error | seccount | lbaLow | lbaMid | lbaHigh => exact ⟨next.registers rfl rfl, rfl⟩
  | hddevsel => exact ⟨next.registers rfl (unit rfl), unit rfl⟩
  | command =>
    have ignored : (tick o c).start v = tick o c := by
      obtain ⟨sector, -, working⟩ := next
      unfold Channel.start
      cases command <;> simp [working.kind, working.phase, Command.transfer]
    change Asks ((tick o c).start v) disks _ _ _ ∧ ((tick o c).start v).selected = _
    rw [ignored]
    exact ⟨next, rfl⟩
  | ctl => exact absurd rfl running

/-- A command for the unit is not taken. -/
theorem Asks.issue_kept (keeps : o.Keeps) {command : Command} {count d : Nat} (asks : Asks c disks command lba count)
    (unit : d % 2 = c.selected) (lba' : Nat) (code : UInt8) :
    Asks (issue (0xE0 ||| d * 2 ^ 4) lba' code o c).2 disks command lba count ∧
      (issue (0xE0 ||| d * 2 ^ 4) lba' code o c).2.selected = c.selected := by
  obtain ⟨first, same₁⟩ := asks.outb_kept keeps (r := .hddevsel) (fun _ => (devsel_fields d lba').2.1.trans unit) nofun
  obtain ⟨second, same₂⟩ := first.outb_kept keeps (r := .seccount) (v := 1) nofun nofun
  obtain ⟨third, same₃⟩ := second.outb_kept keeps (r := .lbaLow) (v := byteOf lba' 0) nofun nofun
  obtain ⟨fourth, same₄⟩ := third.outb_kept keeps (r := .lbaMid) (v := byteOf lba' 1) nofun nofun
  obtain ⟨fifth, same₅⟩ := fourth.outb_kept keeps (r := .lbaHigh) (v := byteOf lba' 2) nofun nofun
  obtain ⟨last, same₆⟩ := fifth.outb_kept keeps (r := .command) (v := code) nofun nofun
  exact ⟨last, same₆.trans (same₅.trans (same₄.trans (same₃.trans (same₂.trans same₁))))⟩

theorem Asks.waitDrq_now (keeps : o.Keeps) {command : Command} {count : Nat} (asks : Asks c disks command lba count) :
    ataWaitDrq o c = (true, tick o c) := by
  rw [ataWaitDrq, ataTimeout, pollDrq_succ, (asks.ticked keeps).status, if_neg (by decide), if_pos (by decide)]

theorem Asks.waitBsy_now (keeps : o.Keeps) {command : Command} {count : Nat} (asks : Asks c disks command lba count) :
    ataWaitBsy o c = (true, tick o c) := by
  rw [ataWaitBsy, ataTimeout, pollBsy_succ, (asks.ticked keeps).status, if_pos (by decide)]

/-- A drive that sends takes no data. -/
theorem Asks.writeWords_kept (keeps : o.Keeps) (asks : Asks c disks .read lba 1) (buf : Nat) (mem : Mem) (n : Nat) :
    Asks (writeWords buf mem n o c).2 disks .read lba 1 ∧ (writeWords buf mem n o c).2.selected = c.selected := by
  induction n with
  | zero => exact ⟨asks, rfl⟩
  | succ n ih =>
    obtain ⟨before, same⟩ := ih
    have next := before.ticked (o := o) keeps
    obtain ⟨sector, -, working⟩ := next
    have ignored : (tick o (writeWords buf mem n o c).2).setDrive
        ((tick o (writeWords buf mem n o c).2).drive.given (word16 mem (buf + 2 * n))) = tick o (writeWords buf mem n o c).2 := by
      rw [Drive.given, working.phase]
      simp only [Command.transfer, Channel.setDrive, Channel.drive, Function.update_eq_self]
    change Asks (Channel.setDrive _ _) disks _ _ _ ∧ (Channel.setDrive _ _).selected = _
    rw [ignored]
    exact ⟨before.ticked keeps, same⟩

/-- The wait before a command finds the sector of the abandoned one ready, or the drive busy still. -/
theorem Leftover.waitBsy (keeps : o.Keeps) (obeys : o.Obeys) (leftover : Leftover c disks u lba) :
    (ataWaitBsy o c).2.selected = u ∧ if (ataWaitBsy o c).1 = true then Asks (ataWaitBsy o c).2 disks .read lba 1
      else Leftover (ataWaitBsy o c).2 disks u lba := by
  obtain ⟨rfl, working | asks⟩ := leftover
  · have same := (pollBsy_registers o c ataTimeout).2.2
    refine ⟨same, ?_⟩
    obtain ⟨ok, ⟨-, n, failed⟩ | asks⟩ | ⟨gave, busy, -⟩ := working.pollBsy_busy keeps ataTimeout
    · exact absurd failed (by simp [obeys c.selected n])
    · rw [ataWaitBsy, if_pos ok]
      exact asks
    · rw [ataWaitBsy, if_neg (Bool.eq_false_iff.mp gave)]
      exact ⟨same, .inl busy⟩
  · rw [asks.waitBsy_now keeps]
    exact ⟨rfl, asks.ticked keeps⟩

/-- A write returns what it likes and leaves the sector where it is. -/
theorem Leftover.writeSector_kept (keeps : o.Keeps) (obeys : o.Obeys) (leftover : Leftover c disks u lba) {d : Nat}
    (unit : d % 2 = u) (lba' buf : Nat) (mem : Mem) :
    Leftover (writeSector (0xE0 ||| d * 2 ^ 4) lba' buf mem o c).2 disks u lba := by
  obtain ⟨same, waited⟩ := leftover.waitBsy keeps obeys
  rw [writeSector_run]
  split at waited
  · rename_i free
    obtain ⟨issued, selected⟩ := waited.issue_kept keeps (unit.trans same.symm) lba' ataCmdWrite
    rw [if_pos free]
    dsimp only
    rw [issued.waitDrq_now keeps, if_pos rfl]
    obtain ⟨written, kept⟩ := (issued.ticked keeps).writeWords_kept keeps buf mem 256
    exact ⟨kept.trans (selected.trans same), .inr written⟩
  · rename_i taken
    rw [if_neg taken]
    exact waited

/-- A read that returns 1 hands out the sector of the abandoned one. -/
theorem Leftover.readSector_stale (keeps : o.Keeps) (obeys : o.Obeys) (leftover : Leftover c disks u lba) {d : Nat}
    (unit : d % 2 = u) (lba' buf : Nat) (mem : Mem) :
    Ends (readSector (0xE0 ||| d * 2 ^ 4) lba' buf mem) o c fun r _ =>
      r.1 = true → r.2 = mem.fill buf 512 (disks u lba) := by
  obtain ⟨same, waited⟩ := leftover.waitBsy keeps obeys
  rw [Ends, readSector_run]
  split at waited
  · rename_i free
    obtain ⟨issued, selected⟩ := waited.issue_kept keeps (unit.trans same.symm) lba' ataCmdRead
    rw [if_pos free]
    dsimp only
    rw [issued.waitDrq_now keeps, if_pos rfl]
    obtain ⟨sector, sent, working⟩ := issued.ticked keeps
    obtain ⟨filled, -⟩ := working.readWords_all keeps buf mem
    intro _
    rw [filled, sent rfl, tick_selected, selected, same]
  · rename_i taken
    rw [if_neg taken]
    exact fun succeeded => Bool.noConfusion succeeded

/-- A write to the drive, whatever block it names. -/
def WritesTo (drive : UInt8) (e : Call × Reply) : Prop :=
  ∃ d lba buf mem, e.1 = .writeEx d lba buf mem ∧ unit d = unit drive

theorem Leftover.step_kept (keeps : o.Keeps) (obeys : o.Obeys) {ataPresent : Bool} {drive : UInt8}
    (leftover : Leftover c disks (unit drive) lba) {e : Call × Reply} {c' : Channel} (taken : step o ataPresent c e c')
    (writes : WritesTo drive e) : Leftover c' disks (unit drive) lba := by
  obtain ⟨call, reply⟩ := e
  obtain ⟨d, lba', buf, mem, rfl, same⟩ := writes
  cases taken
  exact leftover.writeSector_kept keeps obeys same lba' buf mem

theorem serve_readEx (o : Oracle) (ataPresent : Bool) (drive : UInt8) (lba buf : Nat) (mem : Mem) (c : Channel) :
    (serve o ataPresent (.readEx drive lba buf mem) c).2 = (readSector (0xE0 ||| drive.toNat * 2 ^ 4) lba buf mem o c).2 := rfl

theorem readSector_refused {o : Oracle} {c waiting issued : Channel} {base lba : Nat} (free : ataWaitBsy o c = (true, waiting))
    (sent : (issue base lba ataCmdRead o waiting).2 = issued) (refused : (ataWaitDrq o issued).1 = false) (buf : Nat) (mem : Mem) :
    (readSector base lba buf mem o c).2 = (ataWaitDrq o issued).2 := by
  subst sent
  rw [readSector_run, free, if_pos rfl]
  dsimp only
  rw [if_neg (Bool.eq_false_iff.mp refused)]

/-- Time passes and no drive is done. -/
theorem tick_calm {o : Oracle} {c : Channel} (calm : ∀ u, o.settles u c.accesses = false) :
    tick o c = { c with accesses := c.accesses + 1 } := by
  have same : settled o c.accesses c.drives = c.drives := by
    funext u
    simp [settled, calm u]
  rw [tick, same]

/-- A wait for data during which no drive is done. -/
theorem pollDrq_calm {o : Oracle} {c : Channel} {left : Nat} (calm : ∀ u, ∀ k < left, o.settles u (c.accesses + k) = false)
    (status : c.drive.status = 0x80) : pollDrq left o c = (false, { c with accesses := c.accesses + left }) := by
  induction left generalizing c with
  | zero => rfl
  | succ left ih =>
    have ticked : tick o c = { c with accesses := c.accesses + 1 } := tick_calm fun u => calm u 0 (Nat.succ_pos left)
    have shown : (tick o c).drive.status = 0x80 := by
      rw [ticked]
      exact status
    have later : ∀ u, ∀ k < left, o.settles u ((tick o c).accesses + k) = false := fun u k below => by
      have := calm u (k + 1) (Nat.succ_lt_succ below)
      rwa [tick_accesses, Nat.add_assoc, Nat.add_comm 1]
    rw [pollDrq_succ, shown, if_neg (by decide), if_neg (by decide), ih later shown, ticked, Nat.add_assoc, Nat.add_comm 1]

theorem ataWaitDrq_calm {o : Oracle} {c : Channel} (calm : ∀ u, ∀ k < ataTimeout, o.settles u (c.accesses + k) = false)
    (status : c.drive.status = 0x80) : ataWaitDrq o c = (false, { c with accesses := c.accesses + ataTimeout }) :=
  pollDrq_calm calm status

/-- Drives that are done when a first wait has just ended. -/
def late : Oracle := ⟨fun _ n => decide (100007 ≤ n), fun _ _ => false, fun _ _ => false⟩

def twoDisks : Channel := ⟨0, 0, 0, 0, 0xE0, fun _ => ⟨.disk, fun _ => 0, fun lba _ => UInt8.ofNat lba, .ready false⟩, 0⟩

theorem twoDisks_quiet : twoDisks.Quiet := fun _ => trivial

def firstRead : Reply × Channel := serve late true (.readEx 1 5 0 fun _ => 0) twoDisks

def nextRead : Reply × Channel := serve late true (.readEx 1 6 0 fun _ => 0) firstRead.2

/-- The channel when the wait for the sector begins. -/
def issued : Channel := (issue (0xE0 ||| (1 : UInt8).toNat * 2 ^ 4) 5 ataCmdRead late (tick late twoDisks)).2

theorem issued_calm (u : Nat) (k : Nat) (below : k < ataTimeout) : late.settles u (issued.accesses + k) = false := by
  have accesses : issued.accesses = 7 := by decide +kernel
  rw [accesses]
  have small : 7 + k < 100007 := Nat.lt_of_lt_of_le (Nat.add_lt_add_left below 7) (by decide)
  exact decide_eq_false (Nat.not_le.mpr small)

theorem issued_busy : ¬(issued.drives 1).Rests := by
  have phase : (issued.drives 1).phase = .busy .read 5 1 := rfl
  simp [Drive.Rests, phase]

theorem firstRead_ends : firstRead.2 = { issued with accesses := issued.accesses + ataTimeout } := by
  have waited : ataWaitBsy late twoDisks = (true, tick late twoDisks) := by
    rw [ataWaitBsy, ataTimeout, pollBsy_succ, if_pos (by decide)]
  have status : issued.drive.status = 0x80 := by decide +kernel
  have refused := ataWaitDrq_calm issued_calm status
  rw [firstRead, serve_readEx]
  have run : (readSector (0xE0 ||| (1 : UInt8).toNat * 2 ^ 4) 5 0 (fun _ => 0) late twoDisks).2 = (ataWaitDrq late issued).2 :=
    readSector_refused waited (by rw [issued]) (by rw [refused]) 0 fun _ => 0
  rw [refused] at run
  exact run

theorem firstRead_busy : ¬firstRead.2.Quiet := by
  rw [firstRead_ends]
  exact fun quiet => issued_busy (quiet 1)

theorem nextRead_ok : nextRead.1.ok = true := by
  rw [nextRead, firstRead_ends]
  decide +kernel

end ChrisOS.Drivers.Ata.Ports
