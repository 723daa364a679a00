import ChrisOS.Drivers.Ata

/-! The primary ATA channel below drivers/ata.c: two drives behind one set of registers.

The drives are the environment of the driver. How long a drive is busy, whether a
command fails and whether a sector is lost on its way to the medium is left open. A
busy drive shows BSY and neither DRQ nor ERR, and a drive takes a command only when
no other one is under way.
-/

set_option autoImplicit false

namespace ChrisOS.Drivers.Ata.Ports
open ChrisOS.Lib

/-- The registers at 0x1F1 to 0x1F7 and 0x3F6. The status is read where the command is written. -/
inductive Reg where
  | error | seccount | lbaLow | lbaMid | lbaHigh | hddevsel | command | ctl

/-- What is attached as a unit. Where nothing is, the lines float to 0xFF or are pulled to 0. -/
inductive Kind where
  | missing (floats : Bool)
  | disk
  | packet

inductive Command where
  | read | write | identify

/-- The numbers in a phase are the block address and the sectors still to move. -/
inductive Phase where
  | ready (error : Bool)
  | busy (command : Command) (lba count : Nat)
  /-- DRQ: the word to be fetched next from a sector. -/
  | sending (sector : Sector) (word lba count : Nat)
  /-- DRQ: the word to be taken next. -/
  | receiving (sector : Sector) (word lba count : Nat)
  /-- A sector was taken and is not on the medium yet. -/
  | storing (sector : Sector) (lba count : Nat)

structure Drive where
  kind : Kind
  /-- What IDENTIFY answers. -/
  identity : Sector
  media : Nat → Sector
  phase : Phase

/-- What the driver does not control, by the unit and the number of accesses made before. -/
structure Oracle where
  settles : Nat → Nat → Bool
  fails : Nat → Nat → Bool
  loses : Nat → Nat → Bool

structure Channel where
  seccount : UInt8
  lbaLow : UInt8
  lbaMid : UInt8
  lbaHigh : UInt8
  hddevsel : UInt8
  drives : Nat → Drive
  accesses : Nat

/-- Word `i` of a sector, low byte first. -/
def wordAt (s : Sector) (i : Nat) : Nat :=
  if h : 2 * i + 1 < 512 then (s ⟨2 * i, by omega⟩).toNat + 2 ^ 8 * (s ⟨2 * i + 1, h⟩).toNat else 0

def putWordAt (s : Sector) (i w : Nat) : Sector := fun k =>
  if k.val = 2 * i then byteOf w 0 else if k.val = 2 * i + 1 then byteOf w 1 else s k

/-- A busy drive that is done: it asks for the data of its command, or has none left. -/
def Drive.settle (d : Drive) (fails loses : Bool) : Drive :=
  match d.phase with
  | .busy command lba count =>
    if fails then { d with phase := .ready true }
    else match command with
      | .read => { d with phase := .sending (d.media lba) 0 lba count }
      | .write => { d with phase := .receiving (d.media lba) 0 lba count }
      | .identify => { d with phase := .sending d.identity 0 lba count }
  | .storing sector lba count =>
    if loses then { d with phase := .ready true }
    else { d with
      media := Function.update d.media lba sector
      phase := if count ≤ 1 then .ready false else .busy .write (lba + 1) (count - 1) }
  | _ => d

def settled (o : Oracle) (n : Nat) (drives : Nat → Drive) : Nat → Drive := fun u =>
  if o.settles u n then (drives u).settle (o.fails u n) (o.loses u n) else drives u

/-- Time passes before every access, and each drive may be done. -/
def tick (o : Oracle) (c : Channel) : Channel :=
  { c with drives := settled o c.accesses c.drives, accesses := c.accesses + 1 }

/-- The unit that bit 4 of the device register selects. -/
def Channel.selected (c : Channel) : Nat := c.hddevsel.toNat / 16 % 2

def Channel.drive (c : Channel) : Drive := c.drives c.selected

def Channel.setDrive (c : Channel) (d : Drive) : Channel :=
  { c with drives := Function.update c.drives c.selected d }

def Drive.status (d : Drive) : UInt8 :=
  match d.kind with
  | .missing floats => if floats then 0xFF else 0
  | _ =>
    match d.phase with
    | .ready error => if error then 0x51 else 0x50
    | .busy _ _ _ | .storing _ _ _ => 0x80
    | .sending _ _ _ _ | .receiving _ _ _ _ => 0x58

/-- The block address in the registers, for bit 6 of the device register set. -/
def Channel.block (c : Channel) : Nat :=
  c.lbaLow.toNat + 2 ^ 8 * c.lbaMid.toNat + 2 ^ 16 * c.lbaHigh.toNat + 2 ^ 24 * (c.hddevsel.toNat % 16)

/-- A count of 0 stands for 256. -/
def Channel.count (c : Channel) : Nat := if c.seccount = 0 then 256 else c.seccount.toNat

/-- A command other than the three is aborted, and so is a transfer by cylinder, head and sector. -/
def decode (code : UInt8) (c : Channel) : Option (Command × Nat) :=
  if code = 0xEC then some (.identify, 1)
  else if c.hddevsel.toNat / 64 % 2 = 0 then none
  else if code = 0x20 then some (.read, c.count)
  else if code = 0x30 then some (.write, c.count)
  else none

/-- A command is taken by a drive that is ready. A packet device has none of the three
and leaves its signature in the address registers. -/
def Channel.start (c : Channel) (code : UInt8) : Channel :=
  let d := c.drive
  match d.kind, d.phase with
  | .missing _, _ => c
  | .packet, .ready _ => { c.setDrive { d with phase := .ready true } with lbaMid := 0x14, lbaHigh := 0xEB }
  | .disk, .ready _ =>
    match decode code c with
    | some (command, count) => c.setDrive { d with phase := .busy command c.block count }
    | none => c.setDrive { d with phase := .ready true }
  | _, _ => c

/-- A reset ends what either drive is doing. -/
def Channel.reset (c : Channel) : Channel :=
  { c with drives := fun u => { c.drives u with phase := .ready false } }

/-- Port code: it always has an outcome, and every access is counted. -/
def Pio (A : Type) := Oracle → Channel → A × Channel

instance : Monad Pio where
  pure a := fun _ c => (a, c)
  bind x f := fun o c => f (x o c).1 o (x o c).2

def inb (r : Reg) : Pio UInt8 := fun o c =>
  let c := tick o c
  (match r with
    | .error => if c.drive.phase matches .ready true then 0x04 else 0
    | .seccount => c.seccount
    | .lbaLow => c.lbaLow
    | .lbaMid => c.lbaMid
    | .lbaHigh => c.lbaHigh
    | .hddevsel => c.hddevsel
    | .command | .ctl => c.drive.status, c)

def outb (r : Reg) (v : UInt8) : Pio Unit := fun o c =>
  let c := tick o c
  ((), match r with
    | .error => c
    | .seccount => { c with seccount := v }
    | .lbaLow => { c with lbaLow := v }
    | .lbaMid => { c with lbaMid := v }
    | .lbaHigh => { c with lbaHigh := v }
    | .hddevsel => { c with hddevsel := v }
    | .command => c.start v
    | .ctl => if v.toNat / 4 % 2 = 1 then c.reset else c)

/-- The drive after its data register is read. -/
def Drive.fetched (d : Drive) : Drive :=
  match d.phase with
  | .sending sector word lba count =>
    if word < 255 then { d with phase := .sending sector (word + 1) lba count }
    else if count ≤ 1 then { d with phase := .ready false }
    else { d with phase := .busy .read (lba + 1) (count - 1) }
  | _ => d

/-- The drive after a word is written to its data register. -/
def Drive.given (d : Drive) (w : Nat) : Drive :=
  match d.phase with
  | .receiving sector word lba count =>
    let sector := putWordAt sector word w
    if word < 255 then { d with phase := .receiving sector (word + 1) lba count }
    else { d with phase := .storing sector lba count }
  | _ => d

/-- Nothing drives the data lines outside a transfer to the host. -/
def inw : Pio Nat := fun o c =>
  let c := tick o c
  (match c.drive.phase with
    | .sending sector word _ _ => wordAt sector word
    | _ => 0xFFFF, c.setDrive c.drive.fetched)

def outw (w : Nat) : Pio Unit := fun o c =>
  let c := tick o c
  ((), c.setDrive (c.drive.given w))

end ChrisOS.Drivers.Ata.Ports
