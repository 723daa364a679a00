import ChrisOS.Drivers.Ata.Ports
import ChrisOS.Fs.Installer

/-! What one call of drivers/ata.c does to the channel, by the stages of a transfer.

Between calls the drives rest. A sector counts as written when the drive has taken it.
-/

set_option autoImplicit false

namespace ChrisOS.Drivers.Ata.Ports
open ChrisOS.Lib
open ChrisOS.Fs.Installer (Disks)

/-- No command is under way. A sector may still be on its way to the medium. -/
def Drive.Rests (d : Drive) : Prop :=
  match d.phase with
  | .ready _ => True
  | .storing _ _ count => count ≤ 1
  | _ => False

/-- The sectors as the host knows them: one that the drive has taken counts. -/
def Drive.view (d : Drive) : Nat → Sector :=
  match d.phase with
  | .storing sector lba _ => Function.update d.media lba sector
  | _ => d.media

def Resting (drives : Nat → Drive) (disks : Disks) : Prop :=
  ∀ u, (drives u).Rests ∧ (drives u).view = disks u

/-- The selected disk is in a phase of a command, and the other unit rests. -/
structure Working (c : Channel) (disks : Disks) (phase : Phase) : Prop where
  kind : c.drive.kind = .disk
  phase : c.drive.phase = phase
  media : c.drive.media = disks c.selected
  others : ∀ u, u ≠ c.selected → (c.drives u).Rests ∧ (c.drives u).view = disks u

/-- No sector is lost on its way to the medium. -/
def Oracle.Keeps (o : Oracle) : Prop := ∀ u n, o.loses u n = false

section
variable {A B : Type}

theorem bind_run (x : Pio A) (f : A → Pio B) (o : Oracle) (c : Channel) :
    (x >>= f) o c = f (x o c).1 o (x o c).2 := rfl

@[simp] theorem pure_run (a : A) (o : Oracle) (c : Channel) : (pure a : Pio A) o c = (a, c) := rfl

end

@[simp] theorem tick_drives (o : Oracle) (c : Channel) : (tick o c).drives = settled o c.accesses c.drives := rfl

@[simp] theorem tick_selected (o : Oracle) (c : Channel) : (tick o c).selected = c.selected := rfl

@[simp] theorem tick_accesses (o : Oracle) (c : Channel) : (tick o c).accesses = c.accesses + 1 := rfl

theorem tick_drive (o : Oracle) (c : Channel) : (tick o c).drive = settled o c.accesses c.drives c.selected := rfl

@[simp] theorem setDrive_selected (c : Channel) (d : Drive) : (c.setDrive d).selected = c.selected := rfl

@[simp] theorem setDrive_drive (c : Channel) (d : Drive) : (c.setDrive d).drive = d :=
  Function.update_self ..

theorem setDrive_other (c : Channel) (d : Drive) {u : Nat} (other : u ≠ c.selected) : (c.setDrive d).drives u = c.drives u :=
  Function.update_of_ne other ..

theorem pollBsy_succ (left : Nat) (o : Oracle) (c : Channel) : pollBsy (left + 1) o c =
    if (tick o c).drive.status &&& ataSrBsy = 0 then (true, tick o c) else pollBsy left o (tick o c) := by
  rw [pollBsy, bind_run]
  change (if (tick o c).drive.status &&& ataSrBsy = 0 then pure true else pollBsy left : Pio Bool) o (tick o c) = _
  split <;> rfl

theorem pollDrq_succ (left : Nat) (o : Oracle) (c : Channel) : pollDrq (left + 1) o c =
    if (tick o c).drive.status &&& ataSrErr ≠ 0 then (false, tick o c)
    else if (tick o c).drive.status &&& ataSrDrq ≠ 0 then (true, tick o c) else pollDrq left o (tick o c) := by
  rw [pollDrq, bind_run]
  change (if (tick o c).drive.status &&& ataSrErr ≠ 0 then pure false
    else if (tick o c).drive.status &&& ataSrDrq ≠ 0 then pure true else pollDrq left : Pio Bool) o (tick o c) = _
  split
  · rfl
  · split <;> rfl

/-! ### Drives at rest -/

variable {o : Oracle} {c : Channel} {disks : Disks}

theorem Drive.settle_rests {d : Drive} (rests : d.Rests) (fails : Bool) :
    (d.settle fails false).Rests ∧ (d.settle fails false).view = d.view := by
  cases h : d.phase with
  | ready error => simp [Drive.settle, Drive.Rests, Drive.view, h]
  | storing sector lba count =>
    have last : count ≤ 1 := by simpa [Drive.Rests, h] using rests
    simp [Drive.settle, Drive.Rests, Drive.view, h, last]
  | _ => simp [Drive.Rests, h] at rests

theorem settled_rests (keeps : o.Keeps) {drives : Nat → Drive} (n u : Nat) (rests : (drives u).Rests) :
    (settled o n drives u).Rests ∧ (settled o n drives u).view = (drives u).view := by
  unfold settled
  split
  · rw [keeps]
    exact Drive.settle_rests rests _
  · exact ⟨rests, rfl⟩

theorem Resting.settled (keeps : o.Keeps) {drives : Nat → Drive} (resting : Resting drives disks) (n : Nat) :
    Resting (settled o n drives) disks := fun u => by
  obtain ⟨rests, same⟩ := settled_rests keeps n u (resting u).1
  exact ⟨rests, same.trans (resting u).2⟩

/-- A drive at rest never asks for data. -/
theorem Drive.status_of_rests {d : Drive} (rests : d.Rests) : d.status &&& ataSrErr ≠ 0 ∨ d.status &&& ataSrDrq = 0 := by
  unfold Drive.status
  split
  · split <;> decide
  · split
    · split <;> decide
    · exact .inr (by decide)
    · exact .inr (by decide)
    all_goals simp_all [Drive.Rests]

theorem pollBsy_resting (keeps : o.Keeps) (resting : Resting c.drives disks) (left : Nat) :
    Resting (pollBsy left o c).2.drives disks := by
  induction left generalizing c with
  | zero => exact resting
  | succ left ih =>
    have after := resting.settled keeps c.accesses
    rw [pollBsy_succ]
    split
    · exact after
    · exact ih after

theorem pollDrq_resting (keeps : o.Keeps) (resting : Resting c.drives disks) (left : Nat) :
    (pollDrq left o c).1 = false ∧ Resting (pollDrq left o c).2.drives disks := by
  induction left generalizing c with
  | zero => exact ⟨rfl, resting⟩
  | succ left ih =>
    have after := resting.settled keeps c.accesses
    have status := Drive.status_of_rests (after c.selected).1
    change (tick o c).drive.status &&& _ ≠ 0 ∨ (tick o c).drive.status &&& _ = 0 at status
    rw [pollDrq_succ]
    split
    · exact ⟨rfl, after⟩
    · rename_i calm
      rw [if_neg (not_not_intro (status.resolve_left calm))]
      exact ih after

theorem ataWaitBsy_resting (keeps : o.Keeps) (resting : Resting c.drives disks) : Resting (ataWaitBsy o c).2.drives disks :=
  pollBsy_resting keeps resting ataTimeout

theorem ataWaitDrq_resting (keeps : o.Keeps) (resting : Resting c.drives disks) :
    (ataWaitDrq o c).1 = false ∧ Resting (ataWaitDrq o c).2.drives disks :=
  pollDrq_resting keeps resting ataTimeout

/-! ### A command under way -/

theorem Working.tick_data (keeps : o.Keeps) {phase : Phase} (working : Working c disks phase)
    (still : ∀ d : Drive, d.phase = phase → ∀ f l, d.settle f l = d) : Working (tick o c) disks phase := by
  have same : (tick o c).drive = c.drive := by
    rw [tick_drive, settled]
    split
    · exact still _ working.phase _ _
    · rfl
  refine ⟨same ▸ working.kind, same ▸ working.phase, same ▸ working.media, fun u other => ?_⟩
  obtain ⟨rests, view⟩ := settled_rests keeps c.accesses u (working.others u other).1
  exact ⟨rests, view.trans (working.others u other).2⟩

/-- The selected drive ends its command and rests. -/
theorem Working.finish {phase : Phase} (working : Working c disks phase) {d : Drive} (rests : d.Rests) :
    Resting (c.setDrive d).drives (Function.update disks c.selected d.view) := fun u => by
  by_cases here : u = c.selected
  · subst here
    rw [Function.update_self, show (c.setDrive d).drives c.selected = d from Function.update_self ..]
    exact ⟨rests, rfl⟩
  · rw [setDrive_other c d here, Function.update_of_ne here]
    exact working.others u here

theorem Working.move {phase next : Phase} (working : Working c disks phase) :
    Working (c.setDrive { c.drive with phase := next }) disks next := by
  refine ⟨?_, ?_, ?_, fun u other => ?_⟩
  · rw [setDrive_drive]
    exact working.kind
  · rw [setDrive_drive]
  · rw [setDrive_drive]
    exact working.media
  · rw [setDrive_other c _ other]
    exact working.others u other

/-- The phase in which a drive moves the first sector of a command. -/
def Command.transfer (command : Command) (sector : Sector) (lba count : Nat) : Phase :=
  match command with
  | .read | .identify => .sending sector 0 lba count
  | .write => .receiving sector 0 lba count

/-- A drive asks for the data of its command; a read sends the sector at its address. -/
def Asks (c : Channel) (disks : Disks) (command : Command) (lba count : Nat) : Prop :=
  ∃ sector, (command = .read → sector = disks c.selected lba) ∧ Working c disks (command.transfer sector lba count)

theorem Working.others_tick (keeps : o.Keeps) {phase : Phase} (working : Working c disks phase) {u : Nat}
    (other : u ≠ c.selected) : ((tick o c).drives u).Rests ∧ ((tick o c).drives u).view = disks u := by
  obtain ⟨rests, view⟩ := settled_rests keeps c.accesses u (working.others u other).1
  exact ⟨rests, view.trans (working.others u other).2⟩

/-- What a busy drive shows after some time: it is busy still, it has failed, or it asks for data. -/
theorem Working.tick_busy (keeps : o.Keeps) {command : Command} {lba count : Nat}
    (working : Working c disks (.busy command lba count)) :
    ((tick o c).drive.status = 0x80 ∧ o.settles c.selected c.accesses = false ∧
      Working (tick o c) disks (.busy command lba count)) ∨
    ((tick o c).drive.status = 0x51 ∧ o.fails c.selected c.accesses = true ∧ Resting (tick o c).drives disks) ∨
    ((tick o c).drive.status = 0x58 ∧ Asks (tick o c) disks command lba count) := by
  have others : ∀ u, u ≠ c.selected → _ := fun u => working.others_tick keeps (u := u)
  obtain ⟨kind, phase, media, -⟩ := working
  cases done : o.settles c.selected c.accesses with
  | false =>
    have same : (tick o c).drive = c.drive := by simp [settled, done, Channel.drive]
    refine .inl ⟨?_, rfl, same ▸ kind, same ▸ phase, same ▸ media, others⟩
    simp [same, Drive.status, kind, phase]
  | true =>
    have next : (tick o c).drive = c.drive.settle (o.fails c.selected c.accesses) (o.loses c.selected c.accesses) := by
      simp [settled, done, Channel.drive]
    cases failed : o.fails c.selected c.accesses with
    | true =>
      have ready : (tick o c).drive = { c.drive with phase := .ready true } := by
        simp [next, Drive.settle, phase, failed]
      refine .inr (.inl ⟨by simp [ready, Drive.status, kind], rfl, fun u => ?_⟩)
      by_cases here : u = c.selected
      · subst here
        change (tick o c).drive.Rests ∧ (tick o c).drive.view = _
        rw [ready]
        exact ⟨trivial, media⟩
      · exact others u here
    | false =>
      refine .inr (.inr ⟨?_, ?_⟩)
      · cases command <;> simp [next, Drive.settle, phase, failed, Drive.status, kind]
      · cases command with
        | read => exact ⟨disks c.selected lba, fun _ => rfl, by simp [next, Drive.settle, phase, failed, kind],
            by simp [next, Drive.settle, phase, failed, Command.transfer, media],
            by simp [next, Drive.settle, phase, failed, media], others⟩
        | write => exact ⟨c.drive.media lba, nofun, by simp [next, Drive.settle, phase, failed, kind],
            by simp [next, Drive.settle, phase, failed, Command.transfer],
            by simp [next, Drive.settle, phase, failed, media], others⟩
        | identify => exact ⟨c.drive.identity, nofun, by simp [next, Drive.settle, phase, failed, kind],
            by simp [next, Drive.settle, phase, failed, Command.transfer],
            by simp [next, Drive.settle, phase, failed, media], others⟩

/-- A wait for data gives up on a busy drive only if the drive was not done at any poll. -/
theorem Working.pollDrq_busy (keeps : o.Keeps) {command : Command} {lba count : Nat}
    (working : Working c disks (.busy command lba count)) (left : Nat) :
    let next := pollDrq left o c
    next.2.selected = c.selected ∧
    ((next.1 = true ∧ Asks next.2 disks command lba count) ∨ (next.1 = false ∧ Resting next.2.drives disks) ∨
      (next.1 = false ∧ Working next.2 disks (.busy command lba count) ∧
        ∀ k < left, o.settles c.selected (c.accesses + k) = false)) := by
  induction left generalizing c with
  | zero => exact ⟨rfl, .inr (.inr ⟨rfl, working, nofun⟩)⟩
  | succ left ih =>
    obtain ⟨status, waited, still⟩ | ⟨status, -, rests⟩ | ⟨status, asks⟩ := working.tick_busy keeps
    · obtain ⟨same, outcomes⟩ := ih still
      have run : pollDrq (left + 1) o c = pollDrq left o (tick o c) := by
        rw [pollDrq_succ, status, if_neg (by decide), if_neg (by decide)]
      rw [run]
      refine ⟨same, ?_⟩
      obtain done | failed | ⟨gave, busy, waits⟩ := outcomes
      · exact .inl done
      · exact .inr (.inl failed)
      · refine .inr (.inr ⟨gave, busy, fun k below => ?_⟩)
        cases k with
        | zero => exact waited
        | succ k =>
          have := waits k (by omega)
          rwa [tick_accesses, tick_selected, Nat.add_assoc, Nat.add_comm 1] at this
    · have run : pollDrq (left + 1) o c = (false, tick o c) := by
        rw [pollDrq_succ, status, if_pos (by decide)]
      rw [run]
      exact ⟨rfl, .inr (.inl ⟨rfl, rests⟩)⟩
    · have run : pollDrq (left + 1) o c = (true, tick o c) := by
        rw [pollDrq_succ, status, if_neg (by decide), if_pos (by decide)]
      rw [run]
      exact ⟨rfl, .inl ⟨rfl, asks⟩⟩

theorem Working.ataWaitDrq_busy (keeps : o.Keeps) {command : Command} {lba count : Nat}
    (working : Working c disks (.busy command lba count)) : (ataWaitDrq o c).2.selected = c.selected ∧
      (((ataWaitDrq o c).1 = true ∧ Asks (ataWaitDrq o c).2 disks command lba count) ∨
        ((ataWaitDrq o c).1 = false ∧ Resting (ataWaitDrq o c).2.drives disks) ∨
        ((ataWaitDrq o c).1 = false ∧ Working (ataWaitDrq o c).2 disks (.busy command lba count) ∧
          ∀ k < ataTimeout, o.settles c.selected (c.accesses + k) = false)) :=
  working.pollDrq_busy keeps ataTimeout

/-! ### The data of a command -/

theorem wordAt_low (s : Sector) {i : Nat} (inside : i < 256) : byteOf (wordAt s i) 0 = s ⟨2 * i, by omega⟩ := by
  have := (s ⟨2 * i, by omega⟩).toNat_lt
  apply UInt8.toNat_inj.mp
  rw [byteOf_toNat, wordAt, dif_pos (by omega)]
  omega

theorem wordAt_high (s : Sector) {i : Nat} (inside : i < 256) : byteOf (wordAt s i) 1 = s ⟨2 * i + 1, by omega⟩ := by
  have := (s ⟨2 * i, by omega⟩).toNat_lt
  have := (s ⟨2 * i + 1, by omega⟩).toNat_lt
  apply UInt8.toNat_inj.mp
  rw [byteOf_toNat, wordAt, dif_pos (by omega)]
  omega

theorem word16_low (mem : Mem) (a : Nat) : byteOf (word16 mem a) 0 = mem a := by
  have := (mem a).toNat_lt
  apply UInt8.toNat_inj.mp
  rw [byteOf_toNat, word16]
  omega

theorem word16_high (mem : Mem) (a : Nat) : byteOf (word16 mem a) 1 = mem (a + 1) := by
  have := (mem a).toNat_lt
  have := (mem (a + 1)).toNat_lt
  apply UInt8.toNat_inj.mp
  rw [byteOf_toNat, word16]
  omega

/-- Memory with the first `n` bytes of a sector at an address. -/
def Mem.fill (mem : Mem) (buf n : Nat) (s : Sector) : Mem := fun k =>
  if h : buf ≤ k ∧ k < buf + n ∧ k - buf < 512 then s ⟨k - buf, h.2.2⟩ else mem k

def Mem.sector (mem : Mem) (buf : Nat) : Sector := fun i => mem (buf + i)

theorem fill_word (mem : Mem) (buf : Nat) {n : Nat} (inside : n < 256) (s : Sector) :
    putWord16 (mem.fill buf (2 * n) s) (buf + 2 * n) (wordAt s n) = mem.fill buf (2 * (n + 1)) s := by
  funext k
  unfold putWord16
  split
  · subst k
    rw [wordAt_low s inside, Mem.fill, dif_pos (by omega)]
    congr 2
    omega
  · split
    · subst k
      rw [wordAt_high s inside, Mem.fill, dif_pos (by omega)]
      congr 2
      omega
    · unfold Mem.fill
      by_cases before : buf ≤ k ∧ k < buf + 2 * n ∧ k - buf < 512
      · rw [dif_pos before, dif_pos (by omega)]
      · rw [dif_neg before, dif_neg (by omega)]

/-- The sector a drive has after the first words of a buffer. -/
def taken (mem : Mem) (buf : Nat) (s : Sector) (n : Nat) : Sector := fun i =>
  if i.val < 2 * n then mem (buf + i) else s i

theorem taken_word (mem : Mem) (buf : Nat) (s : Sector) (n : Nat) :
    putWordAt (taken mem buf s n) n (word16 mem (buf + 2 * n)) = taken mem buf s (n + 1) := by
  funext i
  unfold putWordAt taken
  split
  · rename_i low
    rw [word16_low, if_pos (by omega), low]
  · split
    · rename_i high
      rw [word16_high, if_pos (by omega), high, Nat.add_assoc]
    · exact if_congr (by omega) rfl rfl

theorem taken_all (mem : Mem) (buf : Nat) (s : Sector) : taken mem buf s 256 = mem.sector buf :=
  funext fun i => if_pos (by omega)

theorem Working.inw_word (keeps : o.Keeps) {s : Sector} {n lba : Nat} (working : Working c disks (.sending s n lba 1)) :
    (inw o c).1 = wordAt s n ∧ (inw o c).2.selected = c.selected ∧
      if n < 255 then Working (inw o c).2 disks (.sending s (n + 1) lba 1) else Resting (inw o c).2.drives disks := by
  have now := working.tick_data (o := o) keeps fun d phase f l => by simp [Drive.settle, phase]
  refine ⟨by simp [inw, now.phase], rfl, ?_⟩
  change if n < 255 then Working ((tick o c).setDrive (tick o c).drive.fetched) disks _
    else Resting ((tick o c).setDrive (tick o c).drive.fetched).drives disks
  rw [Drive.fetched, now.phase]
  dsimp only
  split
  · exact now.move
  · rw [if_pos (Nat.le_refl 1)]
    have rests := now.finish (d := { (tick o c).drive with phase := .ready false }) trivial
    rwa [show Drive.view { (tick o c).drive with phase := .ready false } = disks (tick o c).selected from now.media,
      Function.update_eq_self] at rests

theorem Working.outw_word (keeps : o.Keeps) {s : Sector} {n lba : Nat} (working : Working c disks (.receiving s n lba 1))
    (w : Nat) : (outw w o c).2.selected = c.selected ∧
      if n < 255 then Working (outw w o c).2 disks (.receiving (putWordAt s n w) (n + 1) lba 1)
      else Resting (outw w o c).2.drives
        (Function.update disks c.selected (Function.update (disks c.selected) lba (putWordAt s n w))) := by
  have now := working.tick_data (o := o) keeps fun d phase f l => by simp [Drive.settle, phase]
  refine ⟨rfl, ?_⟩
  change if n < 255 then Working ((tick o c).setDrive ((tick o c).drive.given w)) disks _
    else Resting ((tick o c).setDrive ((tick o c).drive.given w)).drives _
  rw [Drive.given, now.phase]
  dsimp only
  split
  · exact now.move
  · have rests := now.finish (d := { (tick o c).drive with phase := .storing (putWordAt s n w) lba 1 }) (Nat.le_refl 1)
    have view : Drive.view { (tick o c).drive with phase := .storing (putWordAt s n w) lba 1 } =
        Function.update (disks c.selected) lba (putWordAt s n w) := by
      change Function.update (tick o c).drive.media lba _ = _
      rw [now.media, tick_selected]
    rwa [view] at rests

/-- All words but the last one have been read. -/
theorem Working.readWords_sending (keeps : o.Keeps) {s : Sector} {lba : Nat} (working : Working c disks (.sending s 0 lba 1))
    (buf : Nat) (mem : Mem) {n : Nat} (inside : n < 256) : (readWords buf mem n o c).1 = mem.fill buf (2 * n) s ∧
      (readWords buf mem n o c).2.selected = c.selected ∧ Working (readWords buf mem n o c).2 disks (.sending s n lba 1) := by
  induction n with
  | zero =>
    refine ⟨funext fun k => ?_, rfl, working⟩
    rw [Mem.fill, dif_neg (by omega)]
    rfl
  | succ n ih =>
    obtain ⟨filled, same, sending⟩ := ih (by omega)
    obtain ⟨word, selected, next⟩ := sending.inw_word keeps
    rw [if_pos (by omega)] at next
    refine ⟨?_, selected.trans same, next⟩
    change putWord16 (readWords buf mem n o c).1 (buf + 2 * n) (inw o (readWords buf mem n o c).2).1 = _
    rw [filled, word, fill_word mem buf (by omega)]

theorem Working.readWords_all (keeps : o.Keeps) {s : Sector} {lba : Nat} (working : Working c disks (.sending s 0 lba 1))
    (buf : Nat) (mem : Mem) : (readWords buf mem 256 o c).1 = mem.fill buf 512 s ∧
      Resting (readWords buf mem 256 o c).2.drives disks := by
  obtain ⟨filled, -, sending⟩ := working.readWords_sending keeps buf mem (n := 255) (by decide)
  obtain ⟨word, -, rests⟩ := sending.inw_word keeps
  refine ⟨?_, rests⟩
  change putWord16 (readWords buf mem 255 o c).1 (buf + 2 * 255) (inw o (readWords buf mem 255 o c).2).1 = _
  rw [filled, word, fill_word mem buf (by decide)]

theorem Working.skipWords_sending (keeps : o.Keeps) {s : Sector} {lba : Nat} (working : Working c disks (.sending s 0 lba 1))
    {n : Nat} (inside : n < 256) : Working (skipWords n o c).2 disks (.sending s n lba 1) := by
  induction n with
  | zero => exact working
  | succ n ih =>
    have next := ((ih (by omega)).inw_word keeps).2.2
    rwa [if_pos (by omega)] at next

theorem Working.skipWords_all (keeps : o.Keeps) {s : Sector} {lba : Nat} (working : Working c disks (.sending s 0 lba 1)) :
    Resting (skipWords 256 o c).2.drives disks :=
  ((working.skipWords_sending keeps (n := 255) (by decide)).inw_word keeps).2.2

theorem Working.writeWords_receiving (keeps : o.Keeps) {s : Sector} {lba : Nat} (working : Working c disks (.receiving s 0 lba 1))
    (buf : Nat) (mem : Mem) {n : Nat} (inside : n < 256) : (writeWords buf mem n o c).2.selected = c.selected ∧
      Working (writeWords buf mem n o c).2 disks (.receiving (taken mem buf s n) n lba 1) := by
  induction n with
  | zero =>
    have none : taken mem buf s 0 = s := funext fun i => if_neg (Nat.not_lt_zero _)
    exact ⟨rfl, none ▸ working⟩
  | succ n ih =>
    obtain ⟨same, receiving⟩ := ih (by omega)
    obtain ⟨selected, next⟩ := receiving.outw_word keeps (word16 mem (buf + 2 * n))
    rw [if_pos (by omega), taken_word] at next
    exact ⟨selected.trans same, next⟩

theorem Working.writeWords_all (keeps : o.Keeps) {s : Sector} {lba : Nat} (working : Working c disks (.receiving s 0 lba 1))
    (buf : Nat) (mem : Mem) : Resting (writeWords buf mem 256 o c).2.drives
      (Function.update disks c.selected (Function.update (disks c.selected) lba (mem.sector buf))) := by
  obtain ⟨same, receiving⟩ := working.writeWords_receiving keeps buf mem (n := 255) (by decide)
  obtain ⟨-, rests⟩ := receiving.outw_word keeps (word16 mem (buf + 2 * 255))
  rw [if_neg (by decide), taken_word, taken_all, same] at rests
  exact rests

/-! ### Whole transfers -/

theorem devsel_fields (d lba : Nat) : (devsel (0xE0 ||| d * 2 ^ 4) lba).toNat % 16 = lba / 2 ^ 24 % 16 ∧
    (devsel (0xE0 ||| d * 2 ^ 4) lba).toNat / 16 % 2 = d % 2 ∧ (devsel (0xE0 ||| d * 2 ^ 4) lba).toNat / 64 % 2 = 1 := by
  have byte : (devsel (0xE0 ||| d * 2 ^ 4) lba).toNat = (0xE0 ||| d * 2 ^ 4 ||| lba / 2 ^ 24 % 16) % 2 ^ 8 :=
    UInt8.toNat_ofNat'
  have low : (0xE0 ||| d * 2 ^ 4 ||| lba / 2 ^ 24 % 16) % 2 ^ 4 = lba / 2 ^ 24 % 16 := by
    rw [Nat.or_mod_two_pow, Nat.or_mod_two_pow, Nat.mul_mod_left]
    simp
  have unit : (0xE0 ||| d * 2 ^ 4 ||| lba / 2 ^ 24 % 16) / 2 ^ 4 % 2 ^ 1 = d % 2 := by
    rw [Nat.or_div_two_pow, Nat.or_div_two_pow, Nat.mul_div_cancel d (by decide),
      Nat.div_eq_of_lt (show lba / 2 ^ 24 % 16 < 2 ^ 4 by omega), Nat.or_mod_two_pow, Nat.or_mod_two_pow]
    simp
  have block : (0xE0 ||| d * 2 ^ 4 ||| lba / 2 ^ 24 % 16) / 2 ^ 6 % 2 ^ 1 = 1 := by
    rw [Nat.or_div_two_pow, Nat.or_div_two_pow, Nat.div_eq_of_lt (show lba / 2 ^ 24 % 16 < 2 ^ 6 by omega),
      Nat.or_mod_two_pow, Nat.or_mod_two_pow]
    rcases Nat.mod_two_eq_zero_or_one (d * 2 ^ 4 / 2 ^ 6) with even | odd
    · rw [Nat.pow_one, even]
      rfl
    · rw [Nat.pow_one, odd]
      rfl
  rw [byte]
  omega

theorem start_selected (c : Channel) (code : UInt8) : (c.start code).selected = c.selected := by
  unfold Channel.start
  dsimp only
  split
  · rfl
  · rfl
  · split <;> rfl
  · rfl

theorem Resting.setDrive (resting : Resting c.drives disks) {d : Drive} (rests : d.Rests) (view : d.view = disks c.selected) :
    Resting (c.setDrive d).drives disks := fun u => by
  by_cases here : u = c.selected
  · subst here
    rw [show (c.setDrive d).drives c.selected = d from Function.update_self ..]
    exact ⟨rests, view⟩
  · rw [setDrive_other c d here]
    exact resting u

theorem Resting.media (resting : Resting c.drives disks) {error : Bool} (ready : c.drive.phase = .ready error) :
    c.drive.media = disks c.selected := by
  rw [← (resting c.selected).2, Drive.view, show (c.drives c.selected).phase = _ from ready]
  rfl

/-- A command starts on a disk that is ready, and changes nothing elsewhere. -/
theorem start_outcome (resting : Resting c.drives disks) {code : UInt8} {command : Command} {count : Nat}
    (known : decode code c = some (command, count)) :
    Resting (c.start code).drives disks ∨ Working (c.start code) disks (.busy command c.block count) ∧
      (c.start code).lbaMid = c.lbaMid ∧ (c.start code).lbaHigh = c.lbaHigh := by
  unfold Channel.start
  dsimp only
  split
  · exact .inl resting
  · rename_i ready
    exact .inl (resting.setDrive (d := { c.drive with phase := .ready true }) trivial (resting.media ready))
  · rename_i error disk ready
    rw [known]
    have working : Working c disks (.ready error) := ⟨disk, ready, resting.media ready, fun u _ => resting u⟩
    exact .inr ⟨working.move, rfl, rfl⟩
  · exact .inl resting

/-- The command is written after five register accesses, in each of which the drives may go on. -/
theorem issue_run (keeps : o.Keeps) (resting : Resting c.drives disks) (base lba : Nat) (code : UInt8) :
    ∃ drives n, (issue base lba code o c).2 =
      Channel.start ⟨1, byteOf lba 0, byteOf lba 1, byteOf lba 2, devsel base lba, drives, n⟩ code ∧ Resting drives disks := by
  refine ⟨_, _, rfl, ?_⟩
  exact (((((resting.settled keeps _).settled keeps _).settled keeps _).settled keeps _).settled keeps _).settled keeps _

theorem issue_outcome (keeps : o.Keeps) (resting : Resting c.drives disks) (d lba : Nat) {code : UInt8} {command : Command}
    (known : code = ataCmdRead ∧ command = .read ∨ code = ataCmdWrite ∧ command = .write) :
    (issue (0xE0 ||| d * 2 ^ 4) lba code o c).2.selected = d % 2 ∧
      (Resting (issue (0xE0 ||| d * 2 ^ 4) lba code o c).2.drives disks ∨
        Working (issue (0xE0 ||| d * 2 ^ 4) lba code o c).2 disks (.busy command (lba28 lba) 1)) := by
  obtain ⟨drives, n, run, still⟩ := issue_run keeps resting (0xE0 ||| d * 2 ^ 4) lba code
  obtain ⟨low, unit, linear⟩ := devsel_fields d lba
  rw [run]
  refine ⟨(start_selected _ _).trans unit, ?_⟩
  have decoded : decode code ⟨1, byteOf lba 0, byteOf lba 1, byteOf lba 2, devsel (0xE0 ||| d * 2 ^ 4) lba, drives, n⟩ =
      some (command, 1) := by
    unfold decode
    rw [linear]
    obtain ⟨rfl, rfl⟩ | ⟨rfl, rfl⟩ := known <;> rfl
  have block : Channel.block ⟨1, byteOf lba 0, byteOf lba 1, byteOf lba 2, devsel (0xE0 ||| d * 2 ^ 4) lba, drives, n⟩ =
      lba28 lba := by
    simp only [Channel.block, byteOf_toNat, low, lba28]
    omega
  exact block ▸ (start_outcome still decoded).imp_right And.left

theorem readSector_run (base lba buf : Nat) (mem : Mem) (o : Oracle) (c : Channel) :
    readSector base lba buf mem o c =
      if (ataWaitBsy o c).1 = true then
        let issued := (issue base lba ataCmdRead o (ataWaitBsy o c).2).2
        if (ataWaitDrq o issued).1 = true then
          ((true, (readWords buf mem 256 o (ataWaitDrq o issued).2).1), (readWords buf mem 256 o (ataWaitDrq o issued).2).2)
        else ((false, mem), (ataWaitDrq o issued).2)
      else ((false, mem), (ataWaitBsy o c).2) := by
  rw [readSector, bind_run]
  cases (ataWaitBsy o c).1 with
  | false => rfl
  | true =>
    simp only [Bool.not_true, Bool.false_eq_true, if_false, if_true, bind_run]
    cases (ataWaitDrq o (issue base lba ataCmdRead o (ataWaitBsy o c).2).2).1 with
    | false => rfl
    | true => rfl

theorem writeSector_run (base lba buf : Nat) (mem : Mem) (o : Oracle) (c : Channel) :
    writeSector base lba buf mem o c =
      if (ataWaitBsy o c).1 = true then
        let issued := (issue base lba ataCmdWrite o (ataWaitBsy o c).2).2
        if (ataWaitDrq o issued).1 = true then (true, (writeWords buf mem 256 o (ataWaitDrq o issued).2).2)
        else (false, (ataWaitDrq o issued).2)
      else (false, (ataWaitBsy o c).2) := by
  rw [writeSector, bind_run]
  cases (ataWaitBsy o c).1 with
  | false => rfl
  | true =>
    simp only [Bool.not_true, Bool.false_eq_true, if_false, if_true, bind_run]
    cases (ataWaitDrq o (issue base lba ataCmdWrite o (ataWaitBsy o c).2).2).1 with
    | false => rfl
    | true => rfl

/-- A read moves the sector, or fails with the drives at rest, or gives up on a busy drive. -/
theorem readSector_outcome (keeps : o.Keeps) (resting : Resting c.drives disks) (d lba buf : Nat) (mem : Mem) :
    let r := readSector (0xE0 ||| d * 2 ^ 4) lba buf mem o c
    (r.1 = (true, mem.fill buf 512 (disks (d % 2) (lba28 lba))) ∧ Resting r.2.drives disks) ∨
      (r.1 = (false, mem) ∧ Resting r.2.drives disks) ∨
      (r.1 = (false, mem) ∧ Working r.2 disks (.busy .read (lba28 lba) 1) ∧ r.2.selected = d % 2 ∧
        ∃ n, ∀ k < ataTimeout, o.settles (d % 2) (n + k) = false) := by
  have waited := ataWaitBsy_resting keeps resting
  obtain ⟨unit, started⟩ := issue_outcome keeps waited d lba (.inl ⟨rfl, rfl⟩)
  rw [readSector_run]
  dsimp only
  split
  · rcases started with still | working
    · obtain ⟨refused, after⟩ := ataWaitDrq_resting keeps still
      rw [if_neg (Bool.eq_false_iff.mp refused)]
      exact .inr (.inl ⟨rfl, after⟩)
    · obtain ⟨same, ⟨ready, sector, sent, asks⟩ | ⟨refused, after⟩ | ⟨gave, busy, waits⟩⟩ := working.ataWaitDrq_busy keeps
      · obtain ⟨filled, after⟩ := asks.readWords_all keeps buf mem
        rw [if_pos ready]
        refine .inl ⟨?_, after⟩
        rw [filled, sent rfl, same, unit]
      · rw [if_neg (Bool.eq_false_iff.mp refused)]
        exact .inr (.inl ⟨rfl, after⟩)
      · rw [if_neg (Bool.eq_false_iff.mp gave)]
        exact .inr (.inr ⟨rfl, busy, same.trans unit, _, unit ▸ waits⟩)
  · exact .inr (.inl ⟨rfl, waited⟩)

theorem writeSector_outcome (keeps : o.Keeps) (resting : Resting c.drives disks) (d lba buf : Nat) (mem : Mem) :
    let r := writeSector (0xE0 ||| d * 2 ^ 4) lba buf mem o c
    (r.1 = true ∧ Resting r.2.drives
        (Function.update disks (d % 2) (Function.update (disks (d % 2)) (lba28 lba) (mem.sector buf)))) ∨
      (r.1 = false ∧ Resting r.2.drives disks) ∨
      (r.1 = false ∧ Working r.2 disks (.busy .write (lba28 lba) 1) ∧ r.2.selected = d % 2 ∧
        ∃ n, ∀ k < ataTimeout, o.settles (d % 2) (n + k) = false) := by
  have waited := ataWaitBsy_resting keeps resting
  obtain ⟨unit, started⟩ := issue_outcome keeps waited d lba (.inr ⟨rfl, rfl⟩)
  rw [writeSector_run]
  dsimp only
  split
  · rcases started with still | working
    · obtain ⟨refused, after⟩ := ataWaitDrq_resting keeps still
      rw [if_neg (Bool.eq_false_iff.mp refused)]
      exact .inr (.inl ⟨rfl, after⟩)
    · obtain ⟨same, ⟨ready, sector, -, asks⟩ | ⟨refused, after⟩ | ⟨gave, busy, waits⟩⟩ := working.ataWaitDrq_busy keeps
      · have after := asks.writeWords_all keeps buf mem
        rw [if_pos ready]
        rw [same, unit] at after
        exact .inl ⟨rfl, after⟩
      · rw [if_neg (Bool.eq_false_iff.mp refused)]
        exact .inr (.inl ⟨rfl, after⟩)
      · rw [if_neg (Bool.eq_false_iff.mp gave)]
        exact .inr (.inr ⟨rfl, busy, same.trans unit, _, unit ▸ waits⟩)
  · exact .inr (.inl ⟨rfl, waited⟩)

end ChrisOS.Drivers.Ata.Ports
