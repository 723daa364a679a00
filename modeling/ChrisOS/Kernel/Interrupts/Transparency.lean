import ChrisOS.Kernel.Interrupts.Frames
import ChrisOS.Lib.Run

/-! No program can tell where it was interrupted.

The handlers in C are known by their calling convention only: they come back with the stack as it was
above their argument. isr_handler halts instead.
-/

set_option autoImplicit false

namespace ChrisOS.Kernel.Interrupts
open ChrisOS.Lib ChrisOS.Lib.Stack

attribute [local instance] neZero_sixteen

/-! ### The gates at boot -/

def gateFor (address flags : Nat) : Gate := ⟨address % 2 ^ 16, 0x08, 0, flags, address / 2 ^ 16 % 2 ^ 16⟩

/-- The stub of a vector. -/
def vectorEntry (v : Nat) : Option Entry :=
  if v < 16 then some (.isr (Fin.ofNat 16 v))
  else if 32 ≤ v ∧ v < 48 then some (.irq (Fin.ofNat 16 (v - 32)))
  else if v = 0x80 then some .syscall
  else none

theorem setEntries_apply (idt : Idt) (nums : List Nat) (base : Nat → Nat) (selector flags v : Nat) :
    setEntries idt nums base selector flags v =
      if v ∈ nums then ⟨base v % 2 ^ 16, selector, 0, flags, base v / 2 ^ 16 % 2 ^ 16⟩ else idt v := by
  induction nums generalizing idt with
  | nil => rfl
  | cons n nums ih =>
    have step : setEntries idt (n :: nums) base selector flags =
        setEntries (idtSetEntry idt n (base n) selector flags) nums base selector flags := rfl
    rw [step, ih]
    by_cases later : v ∈ nums
    · rw [if_pos later, if_pos (List.mem_cons_of_mem n later)]
    · by_cases here : v = n
      · subst here
        rw [if_neg later, if_pos List.mem_cons_self, idtSetEntry, Function.update_self]
      · rw [if_neg later, if_neg (by simp [here, later]), idtSetEntry, Function.update_of_ne here]

/-- Every one of the 256 gates is set at boot: to a stub, or not present. -/
theorem bootIdt_apply (s : Symbols) (idt : Idt) {v : Nat} (inside : v < 256) : bootIdt s idt v =
    match vectorEntry v with
    | some e => gateFor (s.address e) (if e = .syscall then 0xEE else 0x8E)
    | none => ⟨0, 0, 0, 0, 0⟩ := by
  unfold bootIdt syscallInit irqInitGates isrInit idtInit idtSetEntry vectorEntry
  by_cases call : v = 0x80
  · subst call
    rw [Function.update_self]
    rfl
  · rw [Function.update_of_ne call, setEntries_apply, setEntries_apply, setEntries_apply]
    simp only [List.mem_range, List.mem_range'_1]
    by_cases low : v < 16
    · rw [if_neg (by omega), if_pos low, if_pos low]
      rfl
    · by_cases line : 32 ≤ v ∧ v < 48
      · rw [if_pos (by omega), if_neg low, if_pos line]
        rfl
      · rw [if_neg (by omega), if_neg low, if_pos inside, if_neg low, if_neg line, if_neg call]
        rfl

theorem gateFor_offset {address : Nat} (bound : address < 2 ^ 32) (flags : Nat) :
    (gateFor address flags).baseLow + 2 ^ 16 * (gateFor address flags).baseHigh = address := by
  simp only [gateFor]
  omega

theorem mem_entries (e : Entry) : e ∈ entries := by
  simp only [entries, List.mem_append, List.mem_singleton]
  cases e with
  | isr n => exact .inl (.inl (List.mem_ofFn.mpr ⟨n, rfl⟩))
  | irq n => exact .inl (.inr (List.mem_ofFn.mpr ⟨n, rfl⟩))
  | syscall => exact .inr rfl

theorem entryAt_address (s : Symbols) (e : Entry) : s.entryAt (s.address e) = some e := by
  unfold Symbols.entryAt
  cases found : entries.find? fun e' => s.address e' == s.address e with
  | none => exact absurd (List.find?_eq_none.mp found e (mem_entries e)) (by simp)
  | some e' =>
    have same : s.address e' = s.address e := by simpa using List.find?_some found
    rw [s.distinct same]

theorem clearInterruptFlag_off (flags : Nat) : clearInterruptFlag flags / 2 ^ 9 % 2 = 0 := by
  unfold clearInterruptFlag interruptFlag
  split
  · omega
  · omega

theorem deliver_boot (s : Symbols) (idt : Idt) {v : Nat} (inside : v < 256) (err : Option Nat) (m : Machine) :
    match vectorEntry v with
    | none => deliver (bootIdt s idt) v err m = none
    | some e => ∃ m₁, deliver (bootIdt s idt) v err m = some m₁ ∧ m₁.eip = s.address e ∧ m₁.eflags / 2 ^ 9 % 2 = 0 := by
  have gate := bootIdt_apply s idt inside
  cases entry : vectorEntry v with
  | none =>
    rw [entry] at gate
    dsimp only at gate ⊢
    rw [deliver, gate]
    exact if_pos rfl
  | some e =>
    rw [entry] at gate
    dsimp only at gate ⊢
    have flags : (bootIdt s idt v).flags / 2 ^ 7 % 2 = 1 ∧ (bootIdt s idt v).flags % 16 = 0xE := by
      rw [gate, gateFor]
      dsimp only
      split <;> decide
    refine ⟨_, by rw [deliver]; dsimp only; rw [if_neg (by omega)], ?_, ?_⟩
    · rw [gate]
      exact gateFor_offset (s.bounded e) _
    · dsimp only
      rw [if_pos flags.2]
      exact clearInterruptFlag_off m.eflags

/-- Every vector but the 33 that have a stub stops at its gate. For these the routine in C begins with interrupts
off and is given the interrupted registers, the number of the vector and the error code. -/
theorem vector_reaches_routine (s : Symbols) (idt : Idt) {v : Nat} (inside : v < 256) {err : Option Nat} {m : Machine}
    (room : 60 ≤ m.esp) (small : m.esp < 2 ^ 32) (fits : ∀ e, vectorEntry v = some e → e.Fits err) :
    match vectorEntry v with
    | none => deliver (bootIdt s idt) v err m = none
    | some e => ∃ m₁, deliver (bootIdt s idt) v err m = some m₁ ∧ s.entryAt m₁.eip = some e ∧
        m₁.eflags / 2 ^ 9 % 2 = 0 ∧
        registersAt (enter e m₁).mem ((enter e m₁).mem ((enter e m₁).esp + 4)) =
          ⟨m.regs .edi, m.regs .esi, m.regs .ebp, m.esp - 20, m.regs .ebx, m.regs .edx, m.regs .ecx, m.regs .eax,
            e.number, err.getD 0, m.eip, m.cs, m.eflags, m.mem m.esp, m.mem (m.esp + 4)⟩ := by
  have reached := deliver_boot s idt inside err m
  cases entry : vectorEntry v with
  | none => rwa [entry] at reached
  | some e =>
    rw [entry] at reached
    obtain ⟨m₁, delivered, eip, off⟩ := reached
    obtain ⟨esp, mem⟩ := enter_frame room small (fits e entry) delivered
    have argument : (enter e m₁).mem ((enter e m₁).esp + 4) = m.esp - 52 := by
      have found : pushWords m.mem m.esp (frameOf e err m m₁.eip) (m.esp - 4 * (13 + 1)) = _ := pushWords_get room (by change 13 < 15; decide)
      rw [esp, mem, show m.esp - 60 + 4 = m.esp - 4 * (13 + 1) by omega, found]
      rfl
    refine ⟨m₁, delivered, eip ▸ entryAt_address s e, off, ?_⟩
    rw [argument, mem]
    exact frame_registers room e err m₁.eip

/-- The stubs in a row of 16 bytes each. -/
def someAddress : Entry → Nat
  | .isr n => 0x10000 + 16 * n
  | .irq n => 0x20000 + 16 * n
  | .syscall => 0x30000

theorem someAddress_lt (e : Entry) : someAddress e < 2 ^ 32 := by
  cases e <;> dsimp only [someAddress] <;> omega

theorem someAddress_injective : Function.Injective someAddress := fun a b same => by
  cases a <;> cases b <;>
    simp only [someAddress, Entry.isr.injEq, Entry.irq.injEq, reduceCtorEq] at same ⊢ <;> omega

def someSymbols : Symbols := ⟨someAddress, someAddress_lt, someAddress_injective⟩

def faulting : Machine := ⟨fun r => if r = .esp then 0x1800 else 7, 0x400, 8, 0x202, fun _ => 0⟩

theorem page_fault_reaches_routine : ∃ m₁, deliver (bootIdt someSymbols fun _ => ⟨0, 0, 0, 0, 0⟩) 14 (some 2) faulting = some m₁ ∧
    someSymbols.entryAt m₁.eip = some (.isr 14) ∧ m₁.eflags / 2 ^ 9 % 2 = 0 ∧
    registersAt (enter (.isr 14) m₁).mem ((enter (.isr 14) m₁).mem ((enter (.isr 14) m₁).esp + 4)) =
      ⟨7, 7, 7, 0x1800 - 20, 7, 7, 7, 7, 14, 2, 0x400, 8, 0x202, 0, 0⟩ :=
  vector_reaches_routine someSymbols (fun _ => ⟨0, 0, 0, 0, 0⟩) (v := 14) (by decide) (by decide) (by decide) fun e entry =>
    Option.some.inj entry ▸ rfl

/-! ### Coming back -/

/-- A routine comes back by the calling convention. It keeps the words of a set, and the struct above its argument;
syscall_handler may store its result as eax. -/
structure Returns (f : Routine) (kept : Nat → Prop) (m m' : Machine) : Prop where
  comesBack : f ≠ .isrHandler
  esp : m'.esp = m.esp + 4
  kept : ∀ a, kept a → m'.mem a = m.mem a
  struct : ∀ a, m.esp + 8 ≤ a → a < m.esp + 60 → (f = .syscallHandler → a ≠ m.esp + 36) → m'.mem a = m.mem a

/-- An interrupt is served: through the gate and the stub to the routine, and back. -/
def Serves (s : Symbols) (idt : Idt) (v : Nat) (err : Option Nat) (kept : Nat → Prop) (m m' : Machine) : Prop :=
  ∃ m₁ e m₂, deliver idt v err m = some m₁ ∧ s.entryAt m₁.eip = some e ∧ Returns e.routine kept (enter e m₁) m₂ ∧
    m' = leave m₂

theorem vectorEntry_syscall {v : Nat} (entry : vectorEntry v = some .syscall) : v = 0x80 := by
  unfold vectorEntry at entry
  split at entry
  · exact absurd entry (by simp)
  · split at entry
    · exact absurd entry (by simp)
    · split at entry
      · assumption
      · exact absurd entry (by simp)

/-- What was interrupted goes on with its registers, but for the eax that a system call returns. -/
theorem Serves.resumes {s : Symbols} {idt : Idt} {v : Nat} (inside : v < 256) {err : Option Nat} {kept : Nat → Prop}
    {m m' : Machine} (room : 60 ≤ m.esp) (small : m.esp < 2 ^ 32) (fits : ∀ e, vectorEntry v = some e → e.Fits err)
    (outside : ∀ a, kept a → a < m.esp - 60 ∨ m.esp ≤ a) (served : Serves s (bootIdt s idt) v err kept m m') :
    16 ≤ v ∧ m'.eip = m.eip ∧ m'.cs = m.cs ∧ m'.eflags = m.eflags ∧
      (∀ r, (r = .eax → v ≠ 0x80) → m'.regs r = m.regs r) ∧ ∀ a, kept a → m'.mem a = m.mem a := by
  obtain ⟨m₁, e, m₂, delivered, entered, returned, rfl⟩ := served
  have reached := deliver_boot s idt inside err m
  cases entry : vectorEntry v with
  | none =>
    rw [entry] at reached
    exact absurd (delivered.symm.trans reached) nofun
  | some e' =>
    rw [entry] at reached
    obtain ⟨m₁', delivered', eip, -⟩ := reached
    obtain rfl : m₁ = m₁' := Option.some.inj (delivered.symm.trans delivered')
    obtain rfl : e = e' := Option.some.inj (entered.symm.trans (eip ▸ entryAt_address s e'))
    have high : 16 ≤ v := by
      by_contra low
      have isr : vectorEntry v = some (.isr (Fin.ofNat 16 v)) := if_pos (Nat.lt_of_not_le low)
      obtain rfl := Option.some.inj (entry.symm.trans isr)
      exact returned.comesBack rfl
    obtain ⟨esp, mem⟩ := enter_frame room small (fits e entry) delivered
    have back : m₂.esp = m.esp - 56 := by
      rw [returned.esp, esp]
      omega
    have word : ∀ i (inside : i < 15), i < 13 → (e.routine = .syscallHandler → i ≠ 5) →
        m₂.mem (m.esp - 4 * (i + 1)) = (frameOf e err m m₁.eip)[i] := by
      intro i inside saved result
      rw [returned.struct _ (by rw [esp]; omega) (by rw [esp]; omega) fun call => by have := result call; rw [esp]; omega, mem]
      exact pushWords_get room inside
    obtain ⟨last, same, eip', cs', eflags', regs'⟩ := leave_eq (m := m₂) (by omega)
    have at_ : ∀ i k, i < 13 → k + 4 * (i + 1) = 56 → m₂.esp + k = m.esp - 4 * (i + 1) := by omega
    refine ⟨high, ?_, ?_, ?_, fun r result => ?_, fun a keeps => ?_⟩
    · rw [eip', at_ 2 44 (by decide) rfl, word 2 (by decide) (by decide) (by simp)]
      rfl
    · rw [cs', at_ 1 48 (by decide) rfl, word 1 (by decide) (by decide) (by simp)]
      rfl
    · rw [eflags', at_ 0 52 (by decide) rfl, word 0 (by decide) (by decide) (by simp)]
      rfl
    · have value : ∀ i (inside : i < 15), i < 13 → (i = 5 → v ≠ 0x80) → 12 = i + r.place → r ≠ .esp →
          (leave m₂).regs r = (frameOf e err m m₁.eip)[i] := by
        intro i inside saved result place other
        have call : e.routine = .syscallHandler → i ≠ 5 := fun routine five => by
          cases e with
          | isr n => exact absurd routine nofun
          | irq n => exact absurd routine nofun
          | syscall => exact result five (vectorEntry_syscall entry)
        rw [regs' r other, Nat.add_assoc, at_ i (4 + 4 * r.place) saved (by omega), word i inside saved call]
      cases r with
      | esp => exact last.trans (by rw [back]; exact Nat.sub_add_cancel (by omega))
      | edi => exact value 12 (by decide) (by decide) nofun rfl nofun
      | esi => exact value 11 (by decide) (by decide) nofun rfl nofun
      | ebp => exact value 10 (by decide) (by decide) nofun rfl nofun
      | ebx => exact value 8 (by decide) (by decide) nofun rfl nofun
      | edx => exact value 7 (by decide) (by decide) nofun rfl nofun
      | ecx => exact value 6 (by decide) (by decide) nofun rfl nofun
      | eax => exact value 5 (by decide) (by decide) (fun _ => result rfl) rfl nofun
    · rw [same, returned.kept a keeps, mem]
      rcases outside a keeps with below | above
      · exact pushWords_below room below
      · exact pushWords_above room above

/-! ### A program and its interrupts -/

/-- What runs between interrupts: a step function, its stack, and its words elsewhere. A step depends on the registers,
on these words and on the stack from the stack pointer up, and on nothing else. -/
structure Program where
  step : Machine → Machine
  stackLow : Nat
  stackTop : Nat
  data : Nat → Prop
  topFits : stackTop < 2 ^ 32
  apart : ∀ a, data a → a < stackLow ∨ stackTop ≤ a

/-- The words that a program can see when its stack pointer has a value. -/
def Program.Visible (P : Program) (esp a : Nat) : Prop := P.data a ∨ esp ≤ a ∧ a < P.stackTop

/-- Two machines that a program cannot tell apart. -/
structure Program.Agree (P : Program) (m m' : Machine) : Prop where
  regs : m.regs = m'.regs
  eip : m.eip = m'.eip
  cs : m.cs = m'.cs
  eflags : m.eflags = m'.eflags
  mem : ∀ a, P.Visible m.esp a → m.mem a = m'.mem a

def Program.Respects (P : Program) : Prop := ∀ m m', P.Agree m m' → P.Agree (P.step m) (P.step m')

inductive Event where
  | step
  | irq (line : Fin 16)
  deriving DecidableEq

/-- A step of the program, or an interrupt on a line while interrupts are on. -/
def Step (s : Symbols) (idt : Idt) (P : Program) (m : Machine) (e : Event) (m' : Machine) : Prop :=
  match e with
  | .step => m' = P.step m
  | .irq n => m.eflags / 2 ^ 9 % 2 = 1 ∧ Serves s (bootIdt s idt) (32 + n) none (P.Visible m.esp) m m'

/-- There is room on the stack for what an interrupt pushes. -/
def Program.Room (P : Program) (m : Machine) : Prop := P.stackLow + 60 ≤ m.esp ∧ m.esp ≤ P.stackTop

theorem vectorEntry_irq (n : Fin 16) : vectorEntry (32 + n) = some (.irq n) := by
  unfold vectorEntry
  rw [if_neg (by omega), if_pos (by omega), Nat.add_sub_cancel_left]
  simp

theorem irq_agrees {s : Symbols} {idt : Idt} {P : Program} {m m' : Machine} {n : Fin 16} (room : P.Room m)
    (served : Serves s (bootIdt s idt) (32 + n) none (P.Visible m.esp) m m') : P.Agree m' m := by
  obtain ⟨low, high⟩ := room
  have fits : ∀ e, vectorEntry (32 + n) = some e → e.Fits none := by
    intro e entry
    obtain rfl := Option.some.inj ((vectorEntry_irq n).symm.trans entry)
    rfl
  have outside : ∀ a, P.Visible m.esp a → a < m.esp - 60 ∨ m.esp ≤ a := by
    rintro a (data | ⟨above, -⟩)
    · rcases P.apart a data with below | top
      · exact .inl (by omega)
      · exact .inr (by omega)
    · exact .inr above
  obtain ⟨-, eip, cs, eflags, regs, mem⟩ := served.resumes (by omega) (by omega) (Nat.lt_of_le_of_lt high P.topFits) fits outside
  have all : m'.regs = m.regs := funext fun r => regs r fun _ => by omega
  refine ⟨all, eip, cs, eflags, fun a seen => mem a ?_⟩
  rwa [Machine.esp, all] at seen

/-- The steps of the program in a run, without the interrupts. -/
def steps (moves : List (Move Machine Event)) : Nat := (moves.filter fun m => m.event == .step).length

theorem Program.Agree.refl (P : Program) (m : Machine) : P.Agree m m := ⟨rfl, rfl, rfl, rfl, fun _ _ => rfl⟩

theorem Program.Agree.trans {P : Program} {m t x : Machine} (left : P.Agree t m) (right : P.Agree m x) : P.Agree t x where
  regs := left.regs.trans right.regs
  eip := left.eip.trans right.eip
  cs := left.cs.trans right.cs
  eflags := left.eflags.trans right.eflags
  mem := fun a seen => by
    have esp : t.esp = m.esp := congrFun left.regs .esp
    rw [left.mem a seen, right.mem a (esp ▸ seen)]

/-- From machines that the program cannot tell apart. -/
theorem run_agrees {s : Symbols} {idt : Idt} {P : Program} (respects : P.Respects) {m m' x : Machine}
    {moves : List (Move Machine Event)} (run : Run (Step s idt P) m moves m')
    (room : ∀ move ∈ moves, move.event ≠ .step → P.Room move.before) (agree : P.Agree m x) :
    P.Agree m' (P.step^[steps moves] x) := by
  induction run generalizing x with
  | nil => exact agree
  | @cons m t u e moves taken _ ih =>
    rw [List.forall_mem_cons] at room
    cases e with
    | step =>
      obtain rfl : t = P.step m := taken
      have rest := ih room.2 (respects m x agree)
      rwa [← Function.iterate_succ_apply] at rest
    | irq n => exact ih room.2 ((irq_agrees (room.1 nofun) taken.2).trans agree)

/-- A run with interrupts ends where the program alone would, as far as the program can see. -/
theorem interrupts_unseen {s : Symbols} {idt : Idt} {P : Program} (respects : P.Respects) {m m' : Machine}
    {moves : List (Move Machine Event)} (run : Run (Step s idt P) m moves m')
    (room : ∀ move ∈ moves, move.event ≠ .step → P.Room move.before) : P.Agree m' (P.step^[steps moves] m) :=
  run_agrees respects run room (.refl P m)

theorem set_esp (m : Machine) (v : Nat) : (m.set .esp v).esp = v := by
  change Function.update m.regs .esp v .esp = v
  exact Function.update_self ..

/-- Some routine comes back. -/
theorem serves_of_room (s : Symbols) (idt : Idt) (n : Fin 16) (kept : Nat → Prop) (m : Machine) :
    ∃ m', Serves s (bootIdt s idt) (32 + n) none kept m m' := by
  have reached := deliver_boot s idt (show 32 + n.val < 256 by omega) none m
  rw [vectorEntry_irq n] at reached
  obtain ⟨m₁, delivered, eip, -⟩ := reached
  refine ⟨_, m₁, .irq n, (enter (.irq n) m₁).set .esp ((enter (.irq n) m₁).esp + 4), delivered,
    eip ▸ entryAt_address s (.irq n), ⟨nofun, set_esp _ _, fun _ _ => rfl, fun _ _ _ _ => rfl⟩, rfl⟩

/-- A counter in eax, and a stack of 4096 bytes. -/
def counting : Program where
  step := fun m => m.set .eax (m.regs .eax + 1)
  stackLow := 0x1000
  stackTop := 0x2000
  data := fun _ => False
  topFits := by decide
  apart := nofun

theorem counting_respects : counting.Respects := fun m m' agree => by
  refine ⟨?_, agree.eip, agree.cs, agree.eflags, agree.mem⟩
  change Function.update m.regs .eax (m.regs .eax + 1) = Function.update m'.regs .eax (m'.regs .eax + 1)
  rw [agree.regs]

theorem counting_interrupted : ∃ m m' moves, Run (Step someSymbols (fun _ => ⟨0, 0, 0, 0, 0⟩) counting) m moves m' ∧
    moves.map Move.event = [.step, .irq 0, .step] ∧ m'.regs .eax = 2 := by
  let m : Machine := ⟨fun r => if r = .esp then 0x1800 else 0, 0, 8, 0x202, fun _ => 0⟩
  obtain ⟨t, served⟩ := serves_of_room someSymbols (fun _ => ⟨0, 0, 0, 0, 0⟩) 0 (counting.Visible 0x1800) (counting.step m)
  have run : Run (Step someSymbols (fun _ => ⟨0, 0, 0, 0, 0⟩) counting) m
      [⟨m, .step, counting.step m⟩, ⟨counting.step m, .irq 0, t⟩, ⟨t, .step, counting.step t⟩] (counting.step t) :=
    .cons rfl (.cons ⟨by decide, served⟩ (.cons rfl (.nil _)))
  have roomy : counting.Room (counting.step m) := ⟨by decide, by decide⟩
  have agree := interrupts_unseen counting_respects run (by
    intro move member other
    simp only [List.mem_cons, List.not_mem_nil, or_false] at member
    rcases member with rfl | rfl | rfl
    · exact absurd rfl other
    · exact roomy
    · exact absurd rfl other)
  exact ⟨_, _, _, run, rfl, congrFun agree.regs .eax⟩

end ChrisOS.Kernel.Interrupts
