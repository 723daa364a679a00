import ChrisOS.Lib.Stack
import Mathlib.Logic.Function.Basic
import Mathlib.Data.List.OfFn

/-! Interrupts from the gate to iret: kernel/idt.c, the tables of kernel/isr.c, kernel/irq.c and
kernel/syscall.c, and the entry stubs of isr.asm, irq.asm and syscall_entry.asm.

Memory holds words. A stub runs without eip being moved; the word that its call
pushes for the return is not looked at.
-/

set_option autoImplicit false

namespace ChrisOS.Kernel.Interrupts
open ChrisOS.Lib ChrisOS.Lib.Stack

theorem neZero_sixteen : NeZero 16 := ⟨by decide⟩

attribute [local instance] neZero_sixteen

/-! ### The gates -/

/-- struct idt_entry. -/
structure Gate where
  baseLow : Nat
  selector : Nat
  zero : Nat
  flags : Nat
  baseHigh : Nat

abbrev Idt := Nat → Gate

def idtSetEntry (idt : Idt) (num base selector flags : Nat) : Idt :=
  Function.update idt num ⟨base % 2 ^ 16, selector, 0, flags, base / 2 ^ 16 % 2 ^ 16⟩

/-- A call of idt_set_entry for each number of a list, with what its entry point is. -/
def setEntries (idt : Idt) (nums : List Nat) (base : Nat → Nat) (selector flags : Nat) : Idt :=
  nums.foldl (fun idt num => idtSetEntry idt num (base num) selector flags) idt

def idtInit (idt : Idt) : Idt := setEntries idt (List.range 256) (fun _ => 0) 0 0

inductive Entry where
  | isr (n : Fin 16)
  | irq (n : Fin 16)
  | syscall
  deriving DecidableEq

/-- Where the linker has put the stubs. -/
structure Symbols where
  address : Entry → Nat
  bounded : ∀ e, address e < 2 ^ 32
  distinct : Function.Injective address

def isrInit (s : Symbols) (idt : Idt) : Idt :=
  setEntries idt (List.range 16) (fun v => s.address (.isr (Fin.ofNat 16 v))) 0x08 0x8E

/-- The gates of irq_init. -/
def irqInitGates (s : Symbols) (idt : Idt) : Idt :=
  setEntries idt (List.range' 32 16) (fun v => s.address (.irq (Fin.ofNat 16 (v - 32)))) 0x08 0x8E

def syscallInit (s : Symbols) (idt : Idt) : Idt := idtSetEntry idt 0x80 (s.address .syscall) 0x08 0xEE

/-- The table when kernel() enables interrupts. -/
def bootIdt (s : Symbols) (idt : Idt) : Idt := syscallInit s (irqInitGates s (isrInit s (idtInit idt)))

/-! ### The processor -/

inductive Reg where
  | edi | esi | ebp | esp | ebx | edx | ecx | eax
  deriving DecidableEq

structure Machine where
  regs : Reg → Nat
  eip : Nat
  cs : Nat
  eflags : Nat
  mem : Nat → Nat

namespace Machine

def esp (m : Machine) : Nat := m.regs .esp

def set (m : Machine) (r : Reg) (v : Nat) : Machine := { m with regs := Function.update m.regs r v }

def push (m : Machine) (v : Nat) : Machine :=
  { m with regs := Function.update m.regs .esp (sub32 m.esp 4), mem := Function.update m.mem (sub32 m.esp 4) v }

/-- The word on top of the stack. -/
def top (m : Machine) : Nat := m.mem m.esp

def drop (m : Machine) : Machine := m.set .esp (add32 m.esp 4)

/-- `pop r`. -/
def pop (m : Machine) (r : Reg) : Machine := m.drop.set r m.top

end Machine

/-- Bit 9 of the flags. -/
def interruptFlag : Nat := 2 ^ 9

def clearInterruptFlag (flags : Nat) : Nat :=
  if flags / interruptFlag % 2 = 1 then flags - interruptFlag else flags

/-- What the processor pushes at the same privilege. -/
def save (m : Machine) (err : Option Nat) : Machine :=
  let m := ((m.push m.eflags).push m.cs).push m.eip
  match err with
  | some code => m.push code
  | none => m

/-- The processor goes through a gate at the same privilege; none when the gate is not present. -/
def deliver (idt : Idt) (v : Nat) (err : Option Nat) (m : Machine) : Option Machine :=
  let g := idt v
  if g.flags / 2 ^ 7 % 2 = 0 then none
  else
    some { save m err with
      eip := g.baseLow + 2 ^ 16 * g.baseHigh
      cs := g.selector
      eflags := if g.flags % 16 = 0xE then clearInterruptFlag m.eflags else m.eflags }

/-! ### The stubs -/

inductive Routine where
  | isrHandler | irqHandler | syscallHandler
  deriving DecidableEq

inductive Instruction where
  /-- `push byte b`: the byte is extended with its sign. -/
  | pushByte (b : Nat)
  | push (r : Reg)
  | pusha
  | popa
  | addEsp (n : Nat)
  | iret

def signExtend (b : Nat) : Nat := if b < 2 ^ 7 then b else b + (2 ^ 32 - 2 ^ 8)

def exec (m : Machine) : Instruction → Machine
  | .pushByte b => m.push (signExtend b)
  | .push r => m.push (m.regs r)
  | .pusha =>
    let all := ((m.push (m.regs .eax)).push (m.regs .ecx)).push (m.regs .edx)
    let all := ((all.push (m.regs .ebx)).push m.esp).push (m.regs .ebp)
    (all.push (m.regs .esi)).push (m.regs .edi)
  -- the saved esp is skipped
  | .popa => ((((((m.pop .edi).pop .esi).pop .ebp).drop.pop .ebx).pop .edx).pop .ecx).pop .eax
  | .addEsp n => m.set .esp (add32 m.esp n)
  | .iret => { m.drop.drop.drop with eip := m.top, cs := m.drop.top, eflags := m.drop.drop.top }

/-- The exceptions for which the processor pushes an error code. -/
def pushesError (n : Nat) : Bool := n = 8 ∨ 10 ≤ n ∧ n ≤ 14

/-- The instructions before the common part. -/
def Entry.head : Entry → List Instruction
  | .isr n => if pushesError n then [.pushByte n] else [.pushByte 0, .pushByte n]
  | .irq n => [.pushByte 0, .pushByte (32 + n)]
  | .syscall => [.pushByte 0, .pushByte 0x80]

def Entry.routine : Entry → Routine
  | .isr _ => .isrHandler
  | .irq _ => .irqHandler
  | .syscall => .syscallHandler

def beforeCall : List Instruction := [.pusha, .push .esp]

def afterCall : List Instruction := [.addEsp 4, .popa, .addEsp 8, .iret]

def run (m : Machine) (code : List Instruction) : Machine := code.foldl exec m

/-- The machine when the called routine begins. -/
def enter (e : Entry) (m : Machine) : Machine :=
  let m := run m (e.head ++ beforeCall)
  m.push m.eip

def leave (m : Machine) : Machine := run m afterCall

/-- struct registers. -/
structure Registers where
  edi : Nat
  esi : Nat
  ebp : Nat
  esp : Nat
  ebx : Nat
  edx : Nat
  ecx : Nat
  eax : Nat
  intNo : Nat
  errCode : Nat
  eip : Nat
  cs : Nat
  eflags : Nat
  useresp : Nat
  ss : Nat

/-- The struct at an address. -/
def registersAt (mem : Nat → Nat) (p : Nat) : Registers where
  edi := mem p
  esi := mem (p + 4)
  ebp := mem (p + 8)
  esp := mem (p + 12)
  ebx := mem (p + 16)
  edx := mem (p + 20)
  ecx := mem (p + 24)
  eax := mem (p + 28)
  intNo := mem (p + 32)
  errCode := mem (p + 36)
  eip := mem (p + 40)
  cs := mem (p + 44)
  eflags := mem (p + 48)
  useresp := mem (p + 52)
  ss := mem (p + 56)

def entries : List Entry := (List.ofFn Entry.isr) ++ (List.ofFn Entry.irq) ++ [.syscall]

/-- The stub at an address. -/
def Symbols.entryAt (s : Symbols) (a : Nat) : Option Entry := entries.find? fun e => s.address e == a

end ChrisOS.Kernel.Interrupts
