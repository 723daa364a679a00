import ChrisOS.Lib.Bytes
import ChrisOS.Lib.Word

/-! The machine below the file system: the ATA disk of drivers/ata.c and the
kernel services fat32.c calls, with every call recorded.

Waiting and port traffic are not modelled: a transfer either moves one sector or
returns 0 and moves nothing. The drive sees the low 28 bits of a block address.
-/

set_option autoImplicit false

namespace ChrisOS.Drivers.Ata

abbrev Sector := Fin 512 → UInt8

/-- A byte buffer. `filled` is ghost data: for each offset a transfer was asked to
fill since the buffer was allocated, the address of the last successful read into it. -/
structure Buf where
  ptr : Nat
  data : Nat → UInt8
  filled : Nat → Option Nat

inductive Event where
  | kmalloc (size ptr : Nat)
  | kfree (ptr : Nat)
  | read (lba ptr : Nat) (ok : Bool)
  | write (lba ptr : Nat) (data : Sector) (filled : Option Nat) (ok : Bool)
  | terminal (text : String)

/-- The disk by 28-bit block address, and the calls made so far, oldest first. -/
structure Machine where
  disk : Nat → Sector
  log : List Event

/-- What the code does not control, by the number of calls made before: whether a
transfer fails, where the block lies that kmalloc hands out, and its stale bytes. -/
structure Env where
  fails : Nat → Bool
  block : Nat → Nat
  stale : Nat → Nat → UInt8

/-- Kernel code: no outcome when an iteration budget runs out. -/
def Kern (A : Type) := Env → Machine → Option (A × Machine)

instance : Monad Kern where
  pure a := fun _ m => some (a, m)
  bind x f := fun e m => (x e m).bind fun r => f r.1 e r.2

def diverge {A : Type} : Kern A := fun _ _ => none

section
variable {A B : Type}

@[simp] theorem pure_run (a : A) (e : Env) (m : Machine) : (pure a : Kern A) e m = some (a, m) := rfl

theorem bind_run (x : Kern A) (f : A → Kern B) (e : Env) (m : Machine) :
    (x >>= f) e m = (x e m).bind fun r => f r.1 e r.2 := rfl

/-- Continue after a step whose outcome is known. -/
theorem bind_some {x : Kern A} {e : Env} {m m' : Machine} {a : A} (ran : x e m = some (a, m'))
    (f : A → Kern B) : (x >>= f) e m = f a e m' := by
  simp [bind_run, ran]

end

def lba28 (lba : Nat) : Nat := lba % 2 ^ 28

def Machine.record (m : Machine) (event : Event) : Machine := { m with log := m.log ++ [event] }

/-- The sector stored in a buffer from an offset on. -/
def Buf.sector (b : Buf) (off : Nat) : Sector := fun i => b.data (off + i)

/-- Overwrite 512 bytes of a buffer with a sector read from a block address. -/
def Buf.fill (b : Buf) (off lba : Nat) (s : Sector) : Buf where
  ptr := b.ptr
  data := fun k => if h : off ≤ k ∧ k < off + 512 then s ⟨k - off, by omega⟩ else b.data k
  filled := Function.update b.filled off (some lba)

def kmalloc (size : Nat) : Kern Buf := fun e m =>
  let n := m.log.length
  some (⟨e.block n, e.stale n, fun _ => none⟩, m.record (.kmalloc size (e.block n)))

def kfree (b : Buf) : Kern Unit := fun _ m => some ((), m.record (.kfree b.ptr))

def terminalWritestring (text : String) : Kern Unit := fun _ m => some ((), m.record (.terminal text))

def terminalPutchar (c : UInt8) : Kern Unit := terminalWritestring (String.singleton (Char.ofNat c.toNat))

/-- The decimal digits of a C int. The least int has no negation and leaves its sign alone. -/
def itoa (n : Int) : String := if n = -2 ^ 31 then "-" else toString n

/-- The status and the buffer afterwards. A failed read leaves the buffer alone. -/
def ataReadSector (lba : Nat) (b : Buf) (off : Nat) : Kern (Bool × Buf) := fun e m =>
  let ok := !e.fails m.log.length
  some ((ok, if ok then b.fill off lba (m.disk (lba28 lba)) else b), m.record (.read lba (b.ptr + off) ok))

def ataWriteSector (lba : Nat) (b : Buf) (off : Nat) : Kern Bool := fun e m =>
  let ok := !e.fails m.log.length
  let m' := m.record (.write lba (b.ptr + off) (b.sector off) (b.filled off) ok)
  some (ok, if ok then { m' with disk := Function.update m.disk (lba28 lba) (b.sector off) } else m')

end ChrisOS.Drivers.Ata
