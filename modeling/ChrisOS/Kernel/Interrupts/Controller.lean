import ChrisOS.Kernel.Interrupts
import ChrisOS.Lib.Run
import Mathlib.Data.Fin.Basic

/-! The pair of interrupt controllers under irq_init and irq_handler of kernel/irq.c.

A line requests by an edge, and several edges before it is accepted are one request. The
slave's output is the master's line 2. irq_handler acknowledges before it calls the handler
of the line, and interrupts stay off until it returns.
-/

set_option autoImplicit false

namespace ChrisOS.Kernel.Interrupts
open ChrisOS.Lib

theorem neZero_eight : NeZero 8 := ⟨by decide⟩

attribute [local instance] neZero_sixteen neZero_eight

abbrev Lines := Fin 8 → Bool

/-- One controller: requests, lines in service, mask, and what its initialisation words have set. -/
structure Pic where
  irr : Lines
  inService : Lines
  imr : Lines
  base : Nat
  cascade : Nat
  mode : Nat
  /-- The initialisation word that is expected next; 0 outside the sequence. -/
  expects : Nat

def noLines : Lines := fun _ => false

namespace Pic

/-- Ends the service of the line of the highest priority. -/
def endOfInterrupt (p : Pic) : Pic :=
  match Fin.find? p.inService with
  | some i => { p with inService := Function.update p.inService i false }
  | none => p

def writeCommand (p : Pic) (v : Nat) : Pic :=
  if v.testBit 4 then { p with irr := noLines, inService := noLines, imr := noLines, expects := 2 }
  else if v = 0x20 then p.endOfInterrupt
  else p

def writeData (p : Pic) (v : Nat) : Pic :=
  if p.expects = 2 then { p with base := v / 8 * 8, expects := 3 }
  else if p.expects = 3 then { p with cascade := v, expects := 4 }
  else if p.expects = 4 then { p with mode := v, expects := 0 }
  else { p with imr := fun i => v.testBit i }

/-- The request that goes out: the first one that is not masked, if nothing of its priority or a higher one
is in service. -/
def select (p : Pic) (requests : Lines) : Option (Fin 8) :=
  Fin.find? fun i => requests i && !p.imr i && decide (∀ j ≤ i, p.inService j = false)

def acknowledge (p : Pic) (i : Fin 8) : Pic :=
  { p with irr := Function.update p.irr i false, inService := Function.update p.inService i true }

end Pic

inductive Handler where
  | timer | keyboard | mouse | net | schedTick
  deriving DecidableEq

abbrev Handlers := Fin 16 → Option Handler

inductive Stage where
  | running
  /-- In irq_handler, with the port writes before the call that are left. -/
  | serving (intNo : Nat) (writes : List (Nat × Nat))

structure System where
  master : Pic
  slave : Pic
  handlers : Handlers
  stage : Stage

def outb (y : System) (port v : Nat) : System :=
  if port = 0x20 then { y with master := y.master.writeCommand v }
  else if port = 0x21 then { y with master := y.master.writeData v }
  else if port = 0xA0 then { y with slave := y.slave.writeCommand v }
  else if port = 0xA1 then { y with slave := y.slave.writeData v }
  else y

/-- The port writes of irq_init. -/
def irqInitWrites : List (Nat × Nat) :=
  [(0x20, 0x11), (0x21, 0x20), (0x21, 0x04), (0x21, 0x01), (0x21, 0x00),
    (0xA0, 0x11), (0xA1, 0x28), (0xA1, 0x02), (0xA1, 0x01), (0xA1, 0x00)]

def irqInit (y : System) : System := irqInitWrites.foldl (fun y w => outb y w.1 w.2) y

/-- The port writes of irq_handler. -/
def acknowledgement (intNo : Nat) : List (Nat × Nat) :=
  (if 40 ≤ intNo then [(0xA0, 0x20)] else []) ++ [(0x20, 0x20)]

def irqInstallHandler (handlers : Handlers) (irq : Fin 16) (h : Handler) : Handlers :=
  Function.update handlers irq (some h)

/-- The table when kernel() enables interrupts: keyboard_init, mouse_init and sched_init have set theirs,
and kernel() has set line 0 again. -/
def bootHandlers : Handlers :=
  irqInstallHandler (irqInstallHandler (irqInstallHandler (irqInstallHandler (fun _ => none) 1 .keyboard) 12 .mouse)
    0 .schedTick) 0 .timer

/-- The master's requests, with the slave's output as line 2. -/
def requests (y : System) : Lines :=
  Function.update y.master.irr 2 ((y.slave.select y.slave.irr).isSome && y.master.cascade.testBit 2)

theorem slave_lt {n : Fin 16} (high : ¬n.val < 8) : n.val - 8 < 8 := by omega

/-- A device gives an edge. Line 2 is no device's. -/
def raise (y : System) (n : Fin 16) : System :=
  if h : n.val < 8 then
    if n.val = 2 then y else { y with master := { y.master with irr := Function.update y.master.irr ⟨n, h⟩ true } }
  else { y with slave := { y.slave with irr := Function.update y.slave.irr ⟨n - 8, slave_lt h⟩ true } }

/-- The processor accepts, and the controllers give the vector. -/
def accept (y : System) : Option (System × Nat) :=
  match y.master.select (requests y) with
  | none => none
  | some i =>
    if i = 2 then
      match y.slave.select y.slave.irr with
      | some k => some ({ y with master := y.master.acknowledge 2, slave := y.slave.acknowledge k }, y.slave.base + k)
      | none => none
    else some ({ y with master := y.master.acknowledge i }, y.master.base + i)

inductive IrqEvent where
  | raise (n : Fin 16)
  | accept (v : Nat)
  | write (port v : Nat)
  /-- The call of the line's handler, if it has one, and the return. -/
  | handle (intNo : Nat) (called : Option Handler)
  /-- irq_install_handler while interrupts are on. -/
  | install (n : Fin 16) (h : Handler)

/-- `irq_handlers[i]`. -/
def handlerAt (handlers : Handlers) (i : Nat) : Option Handler := if h : i < 16 then handlers ⟨i, h⟩ else none

def IrqStep (y : System) (e : IrqEvent) (y' : System) : Prop :=
  match e with
  | .raise n => y' = raise y n
  | .accept v =>
    match y.stage, accept y with
    | .running, some (next, given) => v = given ∧ y' = { next with stage := .serving v (acknowledgement v) }
    | _, _ => False
  | .write port v =>
    match y.stage with
    | .serving intNo (w :: ws) => (port, v) = w ∧ y' = { outb y port v with stage := .serving intNo ws }
    | _ => False
  | .handle intNo called =>
    match y.stage with
    | .serving given [] => intNo = given ∧ called = handlerAt y.handlers (intNo - 32) ∧ y' = { y with stage := .running }
    | _ => False
  | .install n h => y' = { y with handlers := irqInstallHandler y.handlers n h }

end ChrisOS.Kernel.Interrupts
