import ChrisOS.Drivers.Ata.Channel

/-! drivers/ata.c by its port accesses. A delay loop only lets time pass. -/

set_option autoImplicit false

namespace ChrisOS.Drivers.Ata.Ports
open ChrisOS.Lib

def ataSrBsy : UInt8 := 0x80
def ataSrDrq : UInt8 := 0x08
def ataSrErr : UInt8 := 0x01
def ataCmdRead : UInt8 := 0x20
def ataCmdWrite : UInt8 := 0x30
def ataCmdIdentify : UInt8 := 0xEC

def ataTimeout : Nat := 100000

/-- The loop of ata_wait_bsy. -/
def pollBsy : Nat → Pio Bool
  | 0 => pure false
  | left + 1 => do
    let s ← inb .command
    if s &&& ataSrBsy = 0 then pure true else pollBsy left

def ataWaitBsy : Pio Bool := pollBsy ataTimeout

/-- The loop of ata_wait_drq. -/
def pollDrq : Nat → Pio Bool
  | 0 => pure false
  | left + 1 => do
    let s ← inb .command
    if s &&& ataSrErr ≠ 0 then pure false
    else if s &&& ataSrDrq ≠ 0 then pure true
    else pollDrq left

def ataWaitDrq : Pio Bool := pollDrq ataTimeout

/-- `for (i = 0; i < n; i++) inw(ATA_PRIMARY_IO)`. -/
def skipWords : Nat → Pio Unit
  | 0 => pure ()
  | n + 1 => do
    skipWords n
    let _ ← inw

/-- Memory by its addresses. -/
abbrev Mem := Nat → UInt8

/-- `((uint16_t*)buf)[i] = w`. -/
def putWord16 (mem : Mem) (a w : Nat) : Mem := fun k =>
  if k = a then byteOf w 0 else if k = a + 1 then byteOf w 1 else mem k

def readWords (buf : Nat) (mem : Mem) : Nat → Pio Mem
  | 0 => pure mem
  | n + 1 => do
    let mem ← readWords buf mem n
    let w ← inw
    pure (putWord16 mem (buf + 2 * n) w)

def writeWords (buf : Nat) (mem : Mem) : Nat → Pio Unit
  | 0 => pure ()
  | n + 1 => do
    writeWords buf mem n
    outw (word16 mem (buf + 2 * n))

/-- ATA_HDDEVSEL with a base for the drive: `base | ((lba >> 24) & 0x0F)`. -/
def devsel (base lba : Nat) : UInt8 := UInt8.ofNat (base ||| lba / 2 ^ 24 % 16)

def issue (base lba : Nat) (command : UInt8) : Pio Unit := do
  outb .hddevsel (devsel base lba)
  outb .seccount 1
  outb .lbaLow (byteOf lba 0)
  outb .lbaMid (byteOf lba 1)
  outb .lbaHigh (byteOf lba 2)
  outb .command command

/-- The status and the memory afterwards. -/
def readSector (base lba buf : Nat) (mem : Mem) : Pio (Bool × Mem) := do
  if !(← ataWaitBsy) then return (false, mem)
  issue base lba ataCmdRead
  if !(← ataWaitDrq) then return (false, mem)
  return (true, ← readWords buf mem 256)

def writeSector (base lba buf : Nat) (mem : Mem) : Pio Bool := do
  if !(← ataWaitBsy) then return false
  issue base lba ataCmdWrite
  if !(← ataWaitDrq) then return false
  writeWords buf mem 256
  return true

def ataReadSector (ataPresent : Bool) (lba buf : Nat) (mem : Mem) : Pio (Bool × Mem) :=
  if !ataPresent then pure (false, mem) else readSector 0xE0 lba buf mem

def ataWriteSector (ataPresent : Bool) (lba buf : Nat) (mem : Mem) : Pio Bool :=
  if !ataPresent then pure false else writeSector 0xE0 lba buf mem

def ataReadSectorEx (drive : UInt8) (lba buf : Nat) (mem : Mem) : Pio (Bool × Mem) :=
  readSector (0xE0 ||| drive.toNat * 2 ^ 4) lba buf mem

def ataWriteSectorEx (drive : UInt8) (lba buf : Nat) (mem : Mem) : Pio Bool :=
  writeSector (0xE0 ||| drive.toNat * 2 ^ 4) lba buf mem

/-- The four address registers are cleared and IDENTIFY is sent. -/
def sendIdentify : Pio Unit := do
  outb .seccount 0
  outb .lbaLow 0
  outb .lbaMid 0
  outb .lbaHigh 0
  outb .command ataCmdIdentify

/-- ata_present afterwards, and the text that is printed. -/
def ataInit : Pio (Bool × String) := do
  outb .ctl 0x04
  outb .ctl 0x00
  outb .hddevsel 0xA0
  let status ← inb .command
  if status = 0xFF then return (false, "No ATA bus\n")
  sendIdentify
  let status ← inb .command
  if status = 0 then return (false, "No ATA drive\n")
  if !(← ataWaitBsy) then return (false, "ATA timeout\n")
  if (← inb .lbaMid) ≠ 0 then return (false, "ATAPI, skipping\n")
  if (← inb .lbaHigh) ≠ 0 then return (false, "ATAPI, skipping\n")
  if !(← ataWaitDrq) then return (false, "ATA no DRQ\n")
  skipWords 256
  return (true, "ATA drive found\n")

def ataDetect (drive : UInt8) : Pio Bool := do
  if drive > 1 then return false
  outb .hddevsel (UInt8.ofNat (0xA0 ||| drive.toNat * 2 ^ 4))
  let status ← inb .command
  if status = 0xFF ∨ status = 0 then return false
  sendIdentify
  let status ← inb .command
  if status = 0 then return false
  if !(← ataWaitBsy) then return false
  if (← inb .lbaMid) ≠ 0 then return false
  if (← inb .lbaHigh) ≠ 0 then return false
  if !(← ataWaitDrq) then return false
  skipWords 256
  return true

end ChrisOS.Drivers.Ata.Ports
