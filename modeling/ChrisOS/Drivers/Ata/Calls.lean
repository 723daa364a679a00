import ChrisOS.Drivers.Ata.Transfers
import ChrisOS.Lib.Run

/-! Runs of driver calls on the primary channel, against the disks that installer.c works on.

The driver finds the drives by ata_init. From then on a run of calls moves whole sectors or
nothing, up to the first command that a slow drive is left with.
-/

set_option autoImplicit false

namespace ChrisOS.Drivers.Ata.Ports
open ChrisOS.Lib
open ChrisOS.Fs.Installer (Disks unit sectorAt)

inductive Call where
  | detect (drive : UInt8)
  | read (lba buf : Nat) (mem : Mem)
  | write (lba buf : Nat) (mem : Mem)
  | readEx (drive : UInt8) (lba buf : Nat) (mem : Mem)
  | writeEx (drive : UInt8) (lba buf : Nat) (mem : Mem)

/-- The status, and the memory after a read. -/
structure Reply where
  ok : Bool
  mem : Option Mem

def Reply.ofRead (r : Bool × Mem) : Reply := ⟨r.1, some r.2⟩

def Reply.ofStatus (ok : Bool) : Reply := ⟨ok, none⟩

def serve (o : Oracle) (ataPresent : Bool) (call : Call) (c : Channel) : Reply × Channel :=
  match call with
  | .detect drive => (ataDetect drive o c).map .ofStatus id
  | .read lba buf mem => (ataReadSector ataPresent lba buf mem o c).map .ofRead id
  | .write lba buf mem => (ataWriteSector ataPresent lba buf mem o c).map .ofStatus id
  | .readEx drive lba buf mem => (ataReadSectorEx drive lba buf mem o c).map .ofRead id
  | .writeEx drive lba buf mem => (ataWriteSectorEx drive lba buf mem o c).map .ofStatus id

def step (o : Oracle) (ataPresent : Bool) (c : Channel) (e : Call × Reply) (c' : Channel) : Prop :=
  serve o ataPresent e.1 c = (e.2, c')

/-- A call that returns 1 has moved its sector; one that returns 0 has moved nothing. -/
def Moves (disks : Disks) (e : Call × Reply) (disks' : Disks) : Prop :=
  match e.1 with
  | .detect _ => disks' = disks
  | .read lba buf mem => disks' = disks ∧ e.2.mem = some (if e.2.ok then mem.fill buf 512 (sectorAt disks 0 lba) else mem)
  | .readEx drive lba buf mem =>
    disks' = disks ∧ e.2.mem = some (if e.2.ok then mem.fill buf 512 (sectorAt disks drive lba) else mem)
  | .write lba buf mem => disks' = if e.2.ok then Fs.Installer.writeSector disks 0 lba (mem.sector buf) else disks
  | .writeEx drive lba buf mem =>
    disks' = if e.2.ok then Fs.Installer.writeSector disks drive lba (mem.sector buf) else disks

/-- Every drive rests. -/
def Channel.Quiet (c : Channel) : Prop := ∀ u, (c.drives u).Rests

def Channel.view (c : Channel) : Disks := fun u => (c.drives u).view

/-- A drive that was not done at any of ATA_TIMEOUT accesses in a row. -/
def Oracle.Slow (o : Oracle) : Prop := ∃ u n, ∀ k < ataTimeout, o.settles u (n + k) = false

theorem Channel.Quiet.resting {c : Channel} (quiet : c.Quiet) : Resting c.drives c.view := fun u => ⟨quiet u, rfl⟩

theorem Resting.quiet {c : Channel} {disks : Disks} (resting : Resting c.drives disks) : c.Quiet ∧ c.view = disks :=
  ⟨fun u => (resting u).1, funext fun u => (resting u).2⟩

theorem Working.view {c : Channel} {disks : Disks} {command : Command} {lba count : Nat}
    (working : Working c disks (.busy command lba count)) : c.view = disks := by
  funext u
  by_cases here : u = c.selected
  · subst here
    rw [Channel.view, Drive.view, show (c.drives c.selected).phase = _ from working.phase]
    exact working.media
  · exact (working.others u here).2

/-! ### Finding the drives -/

variable {o : Oracle} {c : Channel} {disks : Disks}

section
variable {A B : Type}

/-- The outcome of port code has a property. -/
def Ends (x : Pio A) (o : Oracle) (c : Channel) (P : A → Channel → Prop) : Prop := P (x o c).1 (x o c).2

theorem Ends.bind {x : Pio A} {f : A → Pio B} {Q : A → Channel → Prop} {P : B → Channel → Prop} (first : Ends x o c Q)
    (next : ∀ a c', Q a c' → Ends (f a) o c' P) : Ends (x >>= f) o c P := next _ _ first

theorem Ends.pure {a : A} {P : A → Channel → Prop} (holds : P a c) : Ends (pure a) o c P := holds

theorem Ends.ite {x y : Pio A} {P : A → Channel → Prop} {b : Prop} [Decidable b] (yes : b → Ends x o c P)
    (no : ¬b → Ends y o c P) : Ends (if b then x else y) o c P := by
  split
  · exact yes ‹_›
  · exact no ‹_›

end

/-- IDENTIFY was sent, if the drive took it: the disk prepares its answer or offers it. -/
def Identifying (c : Channel) (disks : Disks) : Prop :=
  Resting c.drives disks ∨ c.lbaMid = 0 ∧ c.lbaHigh = 0 ∧
    ∃ lba, Working c disks (.busy .identify lba 1) ∨ Asks c disks .identify lba 1

/-- The drive is at rest or offers its answer. -/
def Answering (c : Channel) (disks : Disks) : Prop :=
  Resting c.drives disks ∨ c.lbaMid = 0 ∧ c.lbaHigh = 0 ∧ ∃ lba, Asks c disks .identify lba 1

theorem Asks.status {command : Command} {lba count : Nat} (asks : Asks c disks command lba count) : c.drive.status = 0x58 := by
  obtain ⟨sector, -, working⟩ := asks
  cases command <;> simp [Drive.status, working.kind, working.phase, Command.transfer]

theorem Working.status {command : Command} {lba count : Nat} (working : Working c disks (.busy command lba count)) :
    c.drive.status = 0x80 := by
  simp [Drive.status, working.kind, working.phase]

theorem Asks.ticked (keeps : o.Keeps) {command : Command} {lba count : Nat} (asks : Asks c disks command lba count) :
    Asks (tick o c) disks command lba count := by
  obtain ⟨sector, sent, working⟩ := asks
  refine ⟨sector, sent, working.tick_data keeps fun d phase f l => ?_⟩
  cases command <;> simp [Drive.settle, phase, Command.transfer]

theorem Answering.ticked (keeps : o.Keeps) (answering : Answering c disks) : Answering (tick o c) disks := by
  obtain resting | ⟨mid, high, lba, asks⟩ := answering
  · exact .inl (resting.settled keeps _)
  · exact .inr ⟨mid, high, lba, asks.ticked keeps⟩

theorem Identifying.ticked (keeps : o.Keeps) (identifying : Identifying c disks) : Identifying (tick o c) disks := by
  obtain resting | ⟨mid, high, lba, working | asks⟩ := identifying
  · exact .inl (resting.settled keeps _)
  · obtain ⟨-, -, busy⟩ | ⟨-, -, resting⟩ | ⟨-, asks⟩ := working.tick_busy keeps
    · exact .inr ⟨mid, high, lba, .inl busy⟩
    · exact .inl resting
    · exact .inr ⟨mid, high, lba, .inr asks⟩
  · exact .inr ⟨mid, high, lba, .inr (asks.ticked keeps)⟩

/-- A drive that IDENTIFY is under way on shows a status. -/
theorem Identifying.resting (identifying : Identifying c disks) (zero : c.drive.status = 0) : Resting c.drives disks := by
  obtain resting | ⟨-, -, lba, working | asks⟩ := identifying
  · exact resting
  · exact absurd (working.status.symm.trans zero) (by decide)
  · exact absurd (asks.status.symm.trans zero) (by decide)

theorem sendIdentify_ends (keeps : o.Keeps) (resting : Resting c.drives disks) :
    Ends sendIdentify o c fun _ c' => Identifying c' disks := by
  obtain ⟨drives, n, run, still⟩ : ∃ drives n, (sendIdentify o c).2 =
      Channel.start ⟨0, 0, 0, 0, c.hddevsel, drives, n⟩ ataCmdIdentify ∧ Resting drives disks := by
    refine ⟨_, _, rfl, ?_⟩
    exact ((((resting.settled keeps _).settled keeps _).settled keeps _).settled keeps _).settled keeps _
  change Identifying (sendIdentify o c).2 disks
  rw [run]
  obtain resting | ⟨working, mid, high⟩ := start_outcome (c := ⟨0, 0, 0, 0, c.hddevsel, drives, n⟩) still
    (show decode ataCmdIdentify _ = some (.identify, 1) from rfl)
  · exact .inl resting
  · exact .inr ⟨mid, high, _, .inl working⟩

theorem pollBsy_registers (o : Oracle) (c : Channel) (left : Nat) : (pollBsy left o c).2.lbaMid = c.lbaMid ∧
    (pollBsy left o c).2.lbaHigh = c.lbaHigh ∧ (pollBsy left o c).2.selected = c.selected := by
  induction left generalizing c with
  | zero => exact ⟨rfl, rfl, rfl⟩
  | succ left ih =>
    rw [pollBsy_succ]
    split
    · exact ⟨rfl, rfl, rfl⟩
    · exact ih (tick o c)

/-- A wait for BSY gives up on a busy drive only if the drive was not done at any poll. -/
theorem Working.pollBsy_busy (keeps : o.Keeps) {command : Command} {lba count : Nat}
    (working : Working c disks (.busy command lba count)) (left : Nat) :
    Ends (pollBsy left) o c fun ok c' =>
      (ok = true ∧ ((Resting c'.drives disks ∧ ∃ n, o.fails c.selected n = true) ∨ Asks c' disks command lba count)) ∨
      (ok = false ∧ Working c' disks (.busy command lba count) ∧
        ∀ k < left, o.settles c.selected (c.accesses + k) = false) := by
  induction left generalizing c with
  | zero => exact .inr ⟨rfl, working, nofun⟩
  | succ left ih =>
    rw [Ends, pollBsy_succ]
    obtain ⟨status, waited, still⟩ | ⟨status, failed, resting⟩ | ⟨status, asks⟩ := working.tick_busy keeps
    · rw [status, if_neg (by decide)]
      obtain done | ⟨gave, busy, waits⟩ := ih still
      · exact .inl done
      · refine .inr ⟨gave, busy, fun k below => ?_⟩
        cases k with
        | zero => exact waited
        | succ k =>
          have := waits k (by omega)
          rwa [tick_accesses, tick_selected, Nat.add_assoc, Nat.add_comm 1] at this
    · rw [status, if_pos (by decide)]
      exact .inl ⟨rfl, .inl ⟨resting, _, failed⟩⟩
    · rw [status, if_pos (by decide)]
      exact .inl ⟨rfl, .inr asks⟩

/-- Some drive is slow, and the disks are as before. -/
def LeftBusy (o : Oracle) (c : Channel) (disks : Disks) : Prop := o.Slow ∧ c.view = disks

theorem ataWaitBsy_ends (keeps : o.Keeps) (identifying : Identifying c disks) :
    Ends ataWaitBsy o c fun ok c' =>
      if ok then Answering c' disks else Resting c'.drives disks ∨ LeftBusy o c' disks := by
  obtain resting | ⟨mid, high, lba, working | asks⟩ := identifying
  · have after := ataWaitBsy_resting keeps resting
    change if (ataWaitBsy o c).1 = true then Answering _ disks else Resting _ disks ∨ _
    split
    · exact .inl after
    · exact .inl after
  · obtain ⟨sameMid, sameHigh, -⟩ := pollBsy_registers o c ataTimeout
    change if (pollBsy ataTimeout o c).1 = true then Answering _ disks else Resting _ disks ∨ _
    obtain ⟨ok, done⟩ | ⟨gave, busy, waits⟩ := working.pollBsy_busy keeps ataTimeout
    · rw [if_pos ok]
      exact done.imp And.left fun asks => ⟨sameMid.trans mid, sameHigh.trans high, lba, asks⟩
    · rw [if_neg (Bool.eq_false_iff.mp gave)]
      exact .inr ⟨⟨_, _, waits⟩, busy.view⟩
  · have next := asks.ticked (o := o) keeps
    have run : ataWaitBsy o c = (true, tick o c) := by
      rw [ataWaitBsy, ataTimeout, pollBsy_succ, next.status, if_pos (by decide)]
    rw [Ends, run]
    exact .inr ⟨mid, high, lba, next⟩

theorem ataWaitDrq_ends (keeps : o.Keeps) (answering : Answering c disks) :
    Ends ataWaitDrq o c fun ok c' => if ok then ∃ lba, Asks c' disks .identify lba 1 else Resting c'.drives disks := by
  obtain resting | ⟨-, -, lba, asks⟩ := answering
  · obtain ⟨refused, after⟩ := ataWaitDrq_resting keeps resting
    unfold Ends
    rw [refused]
    exact after
  · have next := asks.ticked (o := o) keeps
    have run : ataWaitDrq o c = (true, tick o c) := by
      rw [ataWaitDrq, ataTimeout, pollDrq_succ, next.status, if_neg (by decide), if_pos (by decide)]
    rw [Ends, run]
    exact ⟨lba, next⟩

/-- The words of the answer are fetched, and the drive rests. -/
theorem skipWords_ends (keeps : o.Keeps) {lba : Nat} (asks : Asks c disks .identify lba 1) :
    Ends (skipWords 256) o c fun _ c' => Resting c'.drives disks := by
  obtain ⟨sector, -, working⟩ := asks
  exact working.skipWords_all keeps

/-- The address registers of a packet device are not 0; those of a disk are. -/
theorem Answering.signature (answering : Answering c disks) (signed : c.lbaMid ≠ 0 ∨ c.lbaHigh ≠ 0) :
    Resting c.drives disks := by
  obtain resting | ⟨mid, high, -⟩ := answering
  · exact resting
  · exact absurd signed (by simp [mid, high])

/-- ata_detect leaves the drives at rest, or gives up on a slow one. -/
theorem ataDetect_ends (keeps : o.Keeps) (resting : Resting c.drives disks) (drive : UInt8) :
    Ends (ataDetect drive) o c fun ok c' => Resting c'.drives disks ∨ (ok = false ∧ LeftBusy o c' disks) := by
  refine .ite (fun _ => .inl resting) fun _ => ?_
  refine .bind (Q := fun _ c' => Resting c'.drives disks) (resting.settled keeps _) fun _ c₁ resting => ?_
  refine .bind (Q := fun _ c' => Resting c'.drives disks) (resting.settled keeps _) fun status c₂ resting => ?_
  refine .ite (fun _ => .inl resting) fun _ => ?_
  refine .bind (sendIdentify_ends keeps resting) fun _ c₃ identifying => ?_
  refine .bind (Q := fun status c' => Identifying c' disks ∧ c'.drive.status = status)
    ⟨identifying.ticked keeps, rfl⟩ fun status c₄ ⟨identifying, shown⟩ => ?_
  refine .ite (fun zero => .inl (identifying.resting (shown.trans zero))) fun _ => ?_
  refine .bind (ataWaitBsy_ends keeps identifying) fun ok c₅ waited => ?_
  cases ok with
  | false => exact waited.imp_right fun left => ⟨rfl, left⟩
  | true =>
    refine .bind (Q := fun mid c' => Answering c' disks ∧ c'.lbaMid = mid) ⟨waited.ticked keeps, rfl⟩
      fun mid c₆ ⟨answering, shown⟩ => ?_
    refine .ite (fun signed => .inl (answering.signature (.inl (shown ▸ signed)))) fun _ => ?_
    refine .bind (Q := fun high c' => Answering c' disks ∧ c'.lbaHigh = high) ⟨answering.ticked keeps, rfl⟩
      fun high c₇ ⟨answering, shown⟩ => ?_
    refine .ite (fun signed => .inl (answering.signature (.inr (shown ▸ signed)))) fun _ => ?_
    refine .bind (ataWaitDrq_ends keeps answering) fun ok c₈ asked => ?_
    cases ok with
    | false => exact .inl asked
    | true =>
      obtain ⟨lba, asks⟩ := asked
      exact .bind (skipWords_ends keeps asks) fun _ _ resting => .inl resting

theorem reset_resting (c : Channel) : Resting c.reset.drives fun u => (c.drives u).media := fun _ => ⟨trivial, rfl⟩

/-- ata_init ends what the drives were doing; where it finds the drive, they rest. -/
theorem ataInit_ends (keeps : o.Keeps) (c : Channel) :
    Ends ataInit o c fun found c' => found.1 = true → c'.Quiet := by
  have reset := reset_resting (tick o c)
  refine .bind (Q := fun _ c' => Resting c'.drives fun u => ((tick o c).drives u).media) reset fun _ c₁ resting => ?_
  generalize (fun u => ((tick o c).drives u).media : Disks) = disks at resting
  refine .bind (Q := fun _ c' => Resting c'.drives disks) (resting.settled keeps _) fun _ c₂ resting => ?_
  refine .bind (Q := fun _ c' => Resting c'.drives disks) (resting.settled keeps _) fun _ c₃ resting => ?_
  refine .bind (Q := fun _ c' => Resting c'.drives disks) (resting.settled keeps _) fun status c₄ resting => ?_
  refine .ite (fun _ => .pure nofun) fun _ => ?_
  refine .bind (sendIdentify_ends keeps resting) fun _ c₅ identifying => ?_
  refine .bind (Q := fun _ c' => Identifying c' disks) (identifying.ticked keeps) fun status c₆ identifying => ?_
  refine .ite (fun _ => .pure nofun) fun _ => ?_
  refine .bind (ataWaitBsy_ends keeps identifying) fun ok c₇ waited => ?_
  cases ok with
  | false => exact .pure nofun
  | true =>
    refine .bind (Q := fun _ c' => Answering c' disks) (waited.ticked keeps) fun mid c₈ answering => ?_
    refine .ite (fun _ => .pure nofun) fun _ => ?_
    refine .bind (Q := fun _ c' => Answering c' disks) (answering.ticked keeps) fun high c₉ answering => ?_
    refine .ite (fun _ => .pure nofun) fun _ => ?_
    refine .bind (ataWaitDrq_ends keeps answering) fun ok c₁₀ asked => ?_
    cases ok with
    | false => exact .pure nofun
    | true =>
      obtain ⟨lba, asks⟩ := asked
      exact .bind (skipWords_ends keeps asks) fun _ _ resting _ => resting.quiet.1

/-! ### Runs of calls -/

theorem readSector_moves (keeps : o.Keeps) (quiet : c.Quiet) (drive : UInt8) (lba buf : Nat) (mem : Mem) :
    Ends (readSector (0xE0 ||| drive.toNat * 2 ^ 4) lba buf mem) o c fun r c' =>
      c'.view = c.view ∧ some r.2 = some (if r.1 then mem.fill buf 512 (sectorAt c.view drive lba) else mem) ∧
        (c'.Quiet ∨ (r.1 = false ∧ o.Slow)) := by
  obtain ⟨reply, resting⟩ | ⟨reply, resting⟩ | ⟨reply, working, -, n, waits⟩ :=
    readSector_outcome keeps quiet.resting drive.toNat lba buf mem
  · rw [Ends, reply]
    exact ⟨resting.quiet.2, rfl, .inl resting.quiet.1⟩
  · rw [Ends, reply]
    exact ⟨resting.quiet.2, rfl, .inl resting.quiet.1⟩
  · rw [Ends, reply]
    exact ⟨working.view, rfl, .inr ⟨rfl, _, n, waits⟩⟩

theorem writeSector_moves (keeps : o.Keeps) (quiet : c.Quiet) (drive : UInt8) (lba buf : Nat) (mem : Mem) :
    Ends (writeSector (0xE0 ||| drive.toNat * 2 ^ 4) lba buf mem) o c fun ok c' =>
      c'.view = (if ok then Fs.Installer.writeSector c.view drive lba (mem.sector buf) else c.view) ∧
        (c'.Quiet ∨ (ok = false ∧ o.Slow)) := by
  obtain ⟨reply, resting⟩ | ⟨reply, resting⟩ | ⟨reply, working, -, n, waits⟩ :=
    writeSector_outcome keeps quiet.resting drive.toNat lba buf mem
  · rw [Ends, reply]
    exact ⟨resting.quiet.2, .inl resting.quiet.1⟩
  · rw [Ends, reply]
    exact ⟨resting.quiet.2, .inl resting.quiet.1⟩
  · rw [Ends, reply]
    exact ⟨working.view, .inr ⟨rfl, _, n, waits⟩⟩

/-- ata_read_sector does what the kernel code above it counts on, with the buffer for memory. -/
theorem ataReadSector_agrees (keeps : o.Keeps) (quiet : c.Quiet) (lba off : Nat) (b : Buf) {e : Env} {m : Machine}
    (same : m.disk = c.view 0) (answers : e.fails m.log.length = !(ataReadSector true lba off b.data o c).1.1) :
    Ends (ataReadSector true lba off b.data) o c fun r c' =>
      ∃ b' m', Ata.ataReadSector lba b off e m = some ((r.1, b'), m') ∧ b'.data = r.2 ∧ m'.disk = c'.view 0 := by
  have ends : Ends (ataReadSector true lba off b.data) o c _ := readSector_moves keeps quiet 0 lba off b.data
  unfold Ends at ends ⊢
  generalize ataReadSector true lba off b.data o c = r at ends answers ⊢
  obtain ⟨⟨ok, mem⟩, c'⟩ := r
  obtain ⟨kept, moved, -⟩ := ends
  have data : mem = if ok then Mem.fill b.data off 512 (sectorAt c.view 0 lba) else b.data := Option.some.inj moved
  have run : Ata.ataReadSector lba b off e m = some ((ok, if ok then b.fill off lba (m.disk (lba28 lba)) else b),
      m.record (.read lba (b.ptr + off) ok)) := by
    simp only [Ata.ataReadSector, answers, Bool.not_not]
  refine ⟨_, _, run, ?_, same.trans (congrFun kept 0).symm⟩
  rw [data, same]
  cases ok with
  | false => rfl
  | true =>
    funext k
    change (if h : _ ∧ _ then _ else _) = if h : _ then _ else _
    by_cases inside : off ≤ k ∧ k < off + 512
    · rw [dif_pos inside, dif_pos ⟨inside.1, inside.2, by omega⟩]
      rfl
    · rw [dif_neg inside, dif_neg fun both => inside ⟨both.1, both.2.1⟩]

theorem ataWriteSector_agrees (keeps : o.Keeps) (quiet : c.Quiet) (lba off : Nat) (b : Buf) {e : Env} {m : Machine}
    (same : m.disk = c.view 0) (answers : e.fails m.log.length = !(ataWriteSector true lba off b.data o c).1) :
    Ends (ataWriteSector true lba off b.data) o c fun ok c' =>
      ∃ m', Ata.ataWriteSector lba b off e m = some (ok, m') ∧ m'.disk = c'.view 0 := by
  have ends : Ends (ataWriteSector true lba off b.data) o c _ := writeSector_moves keeps quiet 0 lba off b.data
  unfold Ends at ends ⊢
  generalize ataWriteSector true lba off b.data o c = r at ends answers ⊢
  obtain ⟨ok, c'⟩ := r
  obtain ⟨kept, -⟩ := ends
  refine ⟨_, by simp only [Ata.ataWriteSector, answers, Bool.not_not]; rfl, ?_⟩
  cases ok with
  | false => exact same.trans (congrFun kept 0).symm
  | true =>
    rw [show c'.view = Fs.Installer.writeSector c.view 0 lba (Mem.sector b.data off) from kept, same]
    exact (Function.update_self 0 (Function.update (c.view 0) (lba28 lba) (b.sector off)) c.view).symm

/-- A call from drives at rest moves its sector or nothing. The drives rest again, or it gave up on a slow one. -/
theorem step_moves (keeps : o.Keeps) {ataPresent : Bool} (quiet : c.Quiet) {e : Call × Reply} {c' : Channel}
    (taken : step o ataPresent c e c') : Moves c.view e c'.view ∧ (c'.Quiet ∨ (e.2.ok = false ∧ o.Slow)) := by
  obtain ⟨call, reply⟩ := e
  unfold step at taken
  cases call with
  | detect drive =>
    cases taken
    obtain resting | ⟨refused, slow, same⟩ := ataDetect_ends keeps quiet.resting drive
    · exact ⟨resting.quiet.2, .inl resting.quiet.1⟩
    · exact ⟨same, .inr ⟨refused, slow⟩⟩
  | read lba buf mem =>
    cases ataPresent with
    | false =>
      cases taken
      exact ⟨⟨rfl, rfl⟩, .inl quiet⟩
    | true =>
      cases taken
      obtain ⟨same, moved, after⟩ := readSector_moves keeps quiet 0 lba buf mem
      exact ⟨⟨same, moved⟩, after⟩
  | readEx drive lba buf mem =>
    cases taken
    obtain ⟨same, moved, after⟩ := readSector_moves keeps quiet drive lba buf mem
    exact ⟨⟨same, moved⟩, after⟩
  | write lba buf mem =>
    cases ataPresent with
    | false =>
      cases taken
      exact ⟨rfl, .inl quiet⟩
    | true =>
      cases taken
      exact writeSector_moves keeps quiet 0 lba buf mem
  | writeEx drive lba buf mem =>
    cases taken
    exact writeSector_moves keeps quiet drive lba buf mem

/-- The same call, seen from the disks. -/
def abstracted (m : Move Channel (Call × Reply)) : Move Disks (Call × Reply) := ⟨m.before.view, m.event, m.after.view⟩

/-- A run of calls from drives at rest moves sectors call by call, to its end or up to a call that
returns 0 because a drive stayed busy for ATA_TIMEOUT accesses. -/
theorem run_moves (keeps : o.Keeps) {ataPresent : Bool} (quiet : c.Quiet) {moves : List (Move Channel (Call × Reply))}
    {c' : Channel} (run : Run (step o ataPresent) c moves c') :
    (c'.Quiet ∧ Run Moves c.view (moves.map abstracted) c'.view) ∨
      ∃ first m rest, moves = first ++ m :: rest ∧ Run Moves c.view ((first ++ [m]).map abstracted) m.after.view ∧
        m.event.2.ok = false ∧ o.Slow := by
  induction run with
  | nil => exact .inl ⟨quiet, .nil _⟩
  | @cons s t u e moves taken _ ih =>
    obtain ⟨moved, still | ⟨refused, slow⟩⟩ := step_moves keeps quiet taken
    · obtain ⟨final, rest⟩ | ⟨first, m, rest, rfl, followed, refused, slow⟩ := ih still
      · exact .inl ⟨final, .cons moved rest⟩
      · exact .inr ⟨⟨s, e, t⟩ :: first, m, rest, rfl, .cons moved followed, refused, slow⟩
    · exact .inr ⟨[], ⟨s, e, t⟩, moves, rfl, .cons moved (.nil _), refused, slow⟩

/-- Drives that are done by the next access. -/
def quick : Oracle := ⟨fun _ _ => true, fun _ _ => false, fun _ _ => false⟩

/-- Two disks, the first in the middle of a transfer. -/
def atBoot : Channel where
  seccount := 7
  lbaLow := 0
  lbaMid := 0x14
  lbaHigh := 0xEB
  hddevsel := 0xB0
  drives := fun u => ⟨.disk, fun _ => 0, fun lba _ => UInt8.ofNat lba, if u = 0 then .busy .write 9 3 else .ready true⟩
  accesses := 0

theorem quick_not_slow : ¬quick.Slow := fun ⟨_, _, waits⟩ => Bool.noConfusion (waits 0 (by decide))

theorem step_serve (o : Oracle) (ataPresent : Bool) (call : Call) (c : Channel) :
    step o ataPresent c (call, (serve o ataPresent call c).1) (serve o ataPresent call c).2 := rfl

end ChrisOS.Drivers.Ata.Ports
