import ChrisOS.Kernel.Sched.Runs

/-! The context switches of kernel/sched.asm, instruction by instruction.

A switch is one step: nothing comes between the choice of the next thread and the last
instruction of sched_switch. Memory holds words; the stacks of spawned threads are blocks of
the heap, boot's stack and the thread table lie elsewhere. Between its calls a thread does
anything but store into another thread's stack or into the headers of the heap.
-/

set_option autoImplicit false

namespace ChrisOS.Kernel.Sched.Contexts
open ChrisOS.Lib ChrisOS.Lib.Tiling

structure Cpu where
  eax : Nat
  ebx : Nat
  esi : Nat
  edi : Nat
  ebp : Nat
  esp : Nat
  eflags : Nat
  eip : Nat

inductive Reg where
  | eax | ebx | esi | edi | ebp | esp

namespace Cpu

def get (c : Cpu) : Reg → Nat
  | .eax => c.eax
  | .ebx => c.ebx
  | .esi => c.esi
  | .edi => c.edi
  | .ebp => c.ebp
  | .esp => c.esp

def set (c : Cpu) (v : Nat) : Reg → Cpu
  | .eax => { c with eax := v }
  | .ebx => { c with ebx := v }
  | .esi => { c with esi := v }
  | .edi => { c with edi := v }
  | .ebp => { c with ebp := v }
  | .esp => { c with esp := v }

end Cpu

/-- sizeof(thread_t). The field esp comes first. -/
def threadSize : Nat := 20

/-- Where boot's stack and the array threads lie: apart from each other and from the heap. -/
structure Layout where
  bootLow : Nat
  bootHigh : Nat
  threads : Nat
  bootFits : bootHigh < 2 ^ 32
  bootApart : bootHigh ≤ Mm.heapStart ∨ Mm.heapEnd ≤ bootLow
  threadsFit : threads + threadSize * maxThreads < 2 ^ 32
  threadsApart : threads + threadSize * maxThreads ≤ Mm.heapStart ∨ Mm.heapEnd ≤ threads
  threadsOffBoot : threads + threadSize * maxThreads ≤ bootLow ∨ bootHigh ≤ threads

/-- `&threads[i].esp`. -/
def Layout.espField (L : Layout) (i : Nat) : Nat := L.threads + threadSize * i

/-- What a thread has when it calls sched_switch: where the call returns to, the registers that it
keeps, the stack pointer after the return, and memory. -/
structure Context where
  ret : Nat
  ebx : Nat
  esi : Nat
  edi : Nat
  ebp : Nat
  eflags : Nat
  esp : Nat
  stack : Nat → Nat

structure Machine where
  cpu : Cpu
  table : Table Nat
  heap : Mm.Heap
  /-- Pointers handed out by kmalloc and not yet freed. -/
  live : List Nat
  /-- Ghost data: what a thread had at its last call of sched_switch; none before the first. -/
  saved : Nat → Option Context
  /-- Ghost data: the entry that sched_spawn was given for a thread. -/
  given : Nat → Nat

/-! ### Instructions -/

inductive Instruction where
  | pushf
  | popf
  | push (r : Reg)
  | pop (r : Reg)
  /-- `mov r, [esp + off]`. -/
  | load (r : Reg) (off : Nat)
  /-- `mov [eax], esp`. -/
  | storeEsp
  | ret

namespace Machine

def push (m : Machine) (v : Nat) : Machine :=
  { m with
    cpu := { m.cpu with esp := sub32 m.cpu.esp 4 }
    heap := { m.heap with mem := Function.update m.heap.mem (sub32 m.cpu.esp 4) v } }

/-- The word on top of the stack. -/
def top (m : Machine) : Nat := m.heap.mem m.cpu.esp

def drop (m : Machine) : Machine := { m with cpu := { m.cpu with esp := add32 m.cpu.esp 4 } }

/-- A store of a word: into an esp field of the thread table, or elsewhere. -/
def store (L : Layout) (m : Machine) (a v : Nat) : Machine :=
  let off := a - L.threads
  if L.threads ≤ a ∧ off % threadSize = 0 ∧ off / threadSize < maxThreads then
    { m with table := m.table.setEsp (off / threadSize) v }
  else { m with heap := { m.heap with mem := Function.update m.heap.mem a v } }

def exec (L : Layout) (m : Machine) : Instruction → Machine
  | .pushf => m.push m.cpu.eflags
  | .popf => { m.drop with cpu := { m.drop.cpu with eflags := m.top } }
  | .push r => m.push (m.cpu.get r)
  | .pop r => { m.drop with cpu := m.drop.cpu.set m.top r }
  | .load r off => { m with cpu := m.cpu.set (m.heap.mem (add32 m.cpu.esp off)) r }
  | .storeEsp => m.store L m.cpu.eax m.cpu.esp
  | .ret => { m.drop with cpu := { m.drop.cpu with eip := m.top } }

def run (L : Layout) (m : Machine) (code : List Instruction) : Machine := code.foldl (exec L) m

end Machine

def schedSwitch : List Instruction :=
  [.pushf, .push .ebx, .push .esi, .push .edi, .push .ebp,
    .load .eax 24, .storeEsp, .load .esp 28,
    .pop .ebp, .pop .edi, .pop .esi, .pop .ebx, .popf, .ret]

def schedJump : List Instruction :=
  [.load .esp 4, .pop .ebp, .pop .edi, .pop .esi, .pop .ebx, .popf, .ret]

/-! ### The calls from C -/

/-- The interrupt flag. -/
def ifFlag : Nat := 0x200

namespace Machine

def sti (m : Machine) : Machine := { m with cpu := { m.cpu with eflags := m.cpu.eflags ||| ifFlag } }

def cli (m : Machine) : Machine := { m with cpu := { m.cpu with eflags := m.cpu.eflags &&& not32 ifFlag } }

/-- On entry to sched_switch, with the return address on top of the arguments. -/
def context (m : Machine) : Context :=
  ⟨m.top, m.cpu.ebx, m.cpu.esi, m.cpu.edi, m.cpu.ebp, m.cpu.eflags, add32 m.cpu.esp 4, m.heap.mem⟩

/-- `sched_switch(&threads[prev].esp, newEsp)`, called from the instruction before `ret`. -/
def callSwitch (L : Layout) (m : Machine) (ret prev newEsp : Nat) : Machine :=
  let entry := ((m.push newEsp).push (L.espField prev)).push ret
  { entry.run L schedSwitch with saved := Function.update m.saved prev (some entry.context) }

/-- sched_yield and sched_tick from the choice of the next thread on. -/
def switchAway (L : Layout) (m : Machine) (ret : Nat) : Machine :=
  match nextReady m.table with
  | none => m
  | some next =>
    if next = m.table.current then m
    else
      let m' := { m with table := (m.table.setState m.table.current .ready).handOver next }
      m'.callSwitch L ret m.table.current (m'.table.threads next).esp

def yieldCall (L : Layout) (m : Machine) (ret : Nat) : Machine := m.sti.switchAway L ret

def tickCall (L : Layout) (m : Machine) (ret : Nat) : Machine := m.switchAway L ret

/-- sched_exit, once kfree has given back table `s` and heap `h`: sched_jump is called on the stack
that was freed. -/
def exitCall (L : Layout) (m : Machine) (ret : Nat) (s : Table Nat) (h : Mm.Heap) : Machine :=
  let b := bury s
  let m' := { m.cli with table := b.1, heap := h, live := m.live.erase (m.table.threads m.table.current).stackBase }
  if b.2 then m'.sti
  else ((m'.push (b.1.threads b.1.current).esp).push ret).run L schedJump

/-- `threads[current].entry()` in thread_trampoline. -/
def enterCall (m : Machine) (ret : Nat) : Machine :=
  { m.push ret with cpu := { (m.push ret).cpu with eip := (m.table.threads m.table.current).entry } }

/-- After a call of sched_spawn; a new thread has not called sched_switch. -/
def spawned (m : Machine) (entry : Nat) (t : Table Nat) (h : Mm.Heap) (r : Option Nat) : Machine :=
  { m with
    table := t
    heap := h
    live := obtained t r ++ m.live
    saved := match r with
      | none => m.saved
      | some id => Function.update m.saved id none
    given := match r with
      | none => m.given
      | some id => Function.update m.given id entry }

end Machine

/-! ### Steps -/

section
variable (L : Layout) (t : Table Nat) (k : Nat)

def stackLow : Nat := if k = 0 then L.bootLow else (t.threads k).stackBase

def stackHigh : Nat := if k = 0 then L.bootHigh else (t.threads k).stackBase + stackSize

/-- The word is in the stack of the thread. -/
def OnStack (a : Nat) : Prop := stackLow L t k ≤ a ∧ a < stackHigh L t k

/-- The stack pointer is into the stack, with this many bytes below it. -/
def Room (esp n : Nat) : Prop := stackLow L t k + n ≤ esp ∧ esp ≤ stackHigh L t k

end

/-- What the running thread may store into: its own stack, what is neither heap nor boot's stack, and
blocks of the heap that are handed out and are no stacks. -/
def Writable (L : Layout) (m : Machine) (a : Nat) : Prop :=
  OnStack L m.table m.table.current a ∨
  ((a < Mm.heapStart ∨ Mm.heapEnd ≤ a) ∧ ¬(L.bootLow ≤ a ∧ a < L.bootHigh)) ∨
  ∃ bs, Returns (Mm.blocks m.heap) bs ∧ ∃ b ∈ bs, b.free = 0 ∧
    (∀ i, (m.table.threads i).stackBase ≠ b.addr + Mm.blockHdr) ∧
    b.addr + Mm.blockHdr ≤ a ∧ a < b.addr + Mm.blockHdr + b.size

inductive Event where
  | work
  | yield (ret : Nat)
  | tick (ret : Nat)
  | spawn (entry : Nat)
  | exit (ret : Nat)
  | enter (ret : Nat)
  | kmalloc (size : Nat)
  | kfree (ptr : Nat)

/-- Calls push on the stack of the running thread, and thread 0 does not exit. -/
inductive Step (L : Layout) (trampoline : Nat) : Machine → Event → Machine → Prop where
  | work {m : Machine} {cpu : Cpu} {mem : Nat → Nat} : (∀ a, mem a ≠ m.heap.mem a → Writable L m a) →
      Step L trampoline m .work { m with cpu := cpu, heap := { m.heap with mem := mem } }
  | yield {m : Machine} {ret : Nat} : Room L m.table m.table.current m.cpu.esp 32 →
      Step L trampoline m (.yield ret) (m.yieldCall L ret)
  | tick {m : Machine} {ret : Nat} : Room L m.table m.table.current m.cpu.esp 32 →
      Step L trampoline m (.tick ret) (m.tickCall L ret)
  | spawn {m : Machine} {entry : Nat} {t : Table Nat} {h : Mm.Heap} {r : Option Nat} :
      Returns (schedSpawn trampoline entry m.table m.heap) (t, h, r) →
      Step L trampoline m (.spawn entry) (m.spawned entry t h r)
  | exit {m : Machine} {ret : Nat} {s : Table Nat} {h : Mm.Heap} : m.table.current ≠ 0 →
      Room L m.table m.table.current m.cpu.esp 8 → Returns (freeStack m.table m.heap) (s, h) →
      Step L trampoline m (.exit ret) (m.exitCall L ret s h)
  | enter {m : Machine} {ret : Nat} : m.cpu.eip = trampoline → Room L m.table m.table.current m.cpu.esp 4 →
      Step L trampoline m (.enter ret) (m.enterCall ret)
  | kmalloc {m : Machine} {size : Nat} {h : Mm.Heap} {ptr : Nat} : Returns (Mm.kmalloc m.heap size) (h, ptr) →
      Step L trampoline m (.kmalloc size) { m with heap := h, live := if ptr = 0 then m.live else ptr :: m.live }
  | kfree {m : Machine} {ptr : Nat} {h : Mm.Heap} : ptr ∈ m.live → (∀ i, (m.table.threads i).stackBase ≠ ptr) →
      Returns (Mm.kfree m.heap ptr) h →
      Step L trampoline m (.kfree ptr) { m with heap := h, live := m.live.erase ptr }

/-- After sched_init: boot goes on as thread 0. -/
def boot (cpu : Cpu) (s : Table Nat) (h : Mm.Heap) (live : List Nat) : Machine :=
  ⟨cpu, schedInit s, h, live, fun _ => none, fun _ => 0⟩

/-- The CPU is where the context says, with its registers and with its stack up to the thread's top. -/
structure Continues (L : Layout) (m : Machine) (c : Context) : Prop where
  eip : m.cpu.eip = c.ret
  ebx : m.cpu.ebx = c.ebx
  esi : m.cpu.esi = c.esi
  edi : m.cpu.edi = c.edi
  ebp : m.cpu.ebp = c.ebp
  eflags : m.cpu.eflags = c.eflags
  esp : m.cpu.esp = c.esp
  stack : ∀ a, c.esp ≤ a → a < stackHigh L m.table m.table.current → m.heap.mem a = c.stack a

/-- The CPU enters thread_trampoline on the empty stack of its thread with interrupts enabled. -/
structure Enters (L : Layout) (trampoline : Nat) (m : Machine) : Prop where
  eip : m.cpu.eip = trampoline
  esp : m.cpu.esp = stackHigh L m.table m.table.current
  enabled : m.cpu.eflags &&& ifFlag ≠ 0

/-- A switch goes on with what the next thread has saved, or enters it for the first time; and the
trampoline calls the entry that the thread was spawned with. -/
structure Restores (L : Layout) (trampoline : Nat) (m : Machine) (e : Event) (m' : Machine) : Prop where
  resumed : m'.table.current ≠ m.table.current → ∀ c, m.saved m'.table.current = some c → Continues L m' c
  first : m'.table.current ≠ m.table.current → m.saved m'.table.current = none → Enters L trampoline m'
  entry : ∀ ret, e = .enter ret → m'.cpu.eip = m.given m.table.current

/-! ### What the instructions do -/

section Pushes
variable {h : Mm.Heap} {sp : Nat} {ws : List Nat}

theorem pushWords_head (h : Mm.Heap) (sp : Nat) (ws : List Nat) : (pushWords h sp ws).1.heapHead = h.heapHead := by
  induction ws generalizing h sp with
  | nil => rfl
  | cons w ws ih =>
    rw [pushWords]
    exact ih _ _

theorem pushWords_sp (fits : 4 * ws.length ≤ sp) (word : sp < 2 ^ 32) : (pushWords h sp ws).2 = sp - 4 * ws.length := by
  induction ws generalizing h sp with
  | nil => rfl
  | cons w ws ih =>
    rw [List.length_cons] at fits ⊢
    have down : sub32 sp 4 = sp - 4 := sub32_of_le (by omega) word
    rw [pushWords, down, ih (by omega) (by omega)]
    omega

theorem pushWords_frame (fits : 4 * ws.length ≤ sp) (word : sp < 2 ^ 32) {a : Nat}
    (outside : a < sp - 4 * ws.length ∨ sp ≤ a) : (pushWords h sp ws).1.mem a = h.mem a := by
  induction ws generalizing h sp with
  | nil => rfl
  | cons w ws ih =>
    rw [List.length_cons] at fits outside
    have down : sub32 sp 4 = sp - 4 := sub32_of_le (by omega) word
    have other : a ≠ sp - 4 := by omega
    rw [pushWords, down, ih (by omega) (by omega) (by omega)]
    exact Function.update_of_ne other w h.mem

theorem pushWords_word (fits : 4 * ws.length ≤ sp) (word : sp < 2 ^ 32) {i : Nat} {w : Nat} (there : ws[i]? = some w) :
    (pushWords h sp ws).1.mem (sp - 4 * (i + 1)) = w := by
  induction ws generalizing h sp i with
  | nil => cases there
  | cons v ws ih =>
    rw [List.length_cons] at fits
    have down : sub32 sp 4 = sp - 4 := sub32_of_le (by omega) word
    rw [pushWords, down]
    cases i with
    | zero =>
      rw [List.getElem?_cons_zero, Option.some.injEq] at there
      subst there
      rw [pushWords_frame (by omega) (by omega) (by omega)]
      exact Function.update_self ..
    | succ i =>
      rw [List.getElem?_cons_succ] at there
      have further : sp - 4 * (i + 1 + 1) = sp - 4 - 4 * (i + 1) := by omega
      rw [further]
      exact ih (by omega) (by omega) there

end Pushes

/-- The registers with the frame at this address popped, eax apart. -/
def Cpu.popped (c : Cpu) (mem : Nat → Nat) (e : Nat) : Cpu where
  eax := c.eax
  ebp := mem e
  edi := mem (e + 4)
  esi := mem (e + 8)
  ebx := mem (e + 12)
  eflags := mem (e + 16)
  eip := mem (e + 20)
  esp := e + 24

/-- What a switch ends with: the registers are popped, last pushed first. -/
theorem run_restore (L : Layout) (m : Machine) (fits : m.cpu.esp + 24 < 2 ^ 32) :
    m.run L [.pop .ebp, .pop .edi, .pop .esi, .pop .ebx, .popf, .ret] =
      { m with cpu := m.cpu.popped m.heap.mem m.cpu.esp } := by
  have first : add32 m.cpu.esp 4 = m.cpu.esp + 4 := add32_of_lt (by omega)
  have second : add32 (m.cpu.esp + 4) 4 = m.cpu.esp + 8 := add32_of_lt (by omega)
  have third : add32 (m.cpu.esp + 8) 4 = m.cpu.esp + 12 := add32_of_lt (by omega)
  have fourth : add32 (m.cpu.esp + 12) 4 = m.cpu.esp + 16 := add32_of_lt (by omega)
  have fifth : add32 (m.cpu.esp + 16) 4 = m.cpu.esp + 20 := add32_of_lt (by omega)
  have sixth : add32 (m.cpu.esp + 20) 4 = m.cpu.esp + 24 := add32_of_lt (by omega)
  simp only [Machine.run, List.foldl, Machine.exec, Machine.drop, Machine.top, Cpu.set, Cpu.popped, first, second, third,
    fourth, fifth, sixth]

theorem store_espField (L : Layout) (m : Machine) {i : Nat} (bound : i < maxThreads) (v : Nat) :
    m.store L (L.espField i) v = { m with table := m.table.setEsp i v } := by
  have off : L.espField i - L.threads = threadSize * i := Nat.add_sub_cancel_left ..
  have whole : threadSize * i / threadSize = i := Nat.mul_div_cancel_left i (by decide)
  have here : L.threads ≤ L.espField i ∧ threadSize * i % threadSize = 0 ∧ threadSize * i / threadSize < maxThreads :=
    ⟨Nat.le_add_right .., Nat.mul_mod_right .., whole.symm ▸ bound⟩
  rw [Machine.store]
  dsimp only
  rw [off, if_pos here, whole]

theorem run_append (L : Layout) (m : Machine) (first second : List Instruction) :
    m.run L (first ++ second) = (m.run L first).run L second := List.foldl_append

theorem pushWords_append (h : Mm.Heap) (sp : Nat) (ws vs : List Nat) :
    pushWords h sp (ws ++ vs) = pushWords (pushWords h sp ws).1 (pushWords h sp ws).2 vs := by
  induction ws generalizing h sp with
  | nil => rfl
  | cons w ws ih =>
    rw [List.cons_append, pushWords, pushWords]
    exact ih _ _

/-- The machine after it has pushed these words. -/
def Machine.pushAll (m : Machine) (ws : List Nat) : Machine :=
  { m with
    cpu := { m.cpu with esp := (pushWords m.heap m.cpu.esp ws).2 }
    heap := (pushWords m.heap m.cpu.esp ws).1 }

theorem push_eq (m : Machine) (w : Nat) : m.push w = m.pushAll [w] := rfl

theorem pushAll_push (m : Machine) (ws : List Nat) (w : Nat) : (m.pushAll ws).push w = m.pushAll (ws ++ [w]) := by
  rw [push_eq, Machine.pushAll, Machine.pushAll, Machine.pushAll, pushWords_append]

theorem exec_pushf (L : Layout) (m : Machine) (ws : List Nat) :
    (m.pushAll ws).exec L .pushf = m.pushAll (ws ++ [m.cpu.eflags]) := pushAll_push m ws m.cpu.eflags

theorem exec_push (L : Layout) (m : Machine) (ws : List Nat) (r : Reg) (other : r ≠ .esp) :
    (m.pushAll ws).exec L (.push r) = m.pushAll (ws ++ [m.cpu.get r]) := by
  have same : (m.pushAll ws).cpu.get r = m.cpu.get r := by
    cases r with
    | esp => exact absurd rfl other
    | eax | ebx | esi | edi | ebp => rfl
  rw [Machine.exec, same, pushAll_push]

/-- The words that a call of sched_switch leaves below the stack pointer, highest first. -/
def Machine.frame (L : Layout) (m : Machine) (ret prev newEsp : Nat) : List Nat :=
  [newEsp, L.espField prev, ret, m.cpu.eflags, m.cpu.ebx, m.cpu.esi, m.cpu.edi, m.cpu.ebp]

theorem run_saves (L : Layout) (m : Machine) (ret prev newEsp : Nat) :
    (m.pushAll [newEsp, L.espField prev, ret]).run L [.pushf, .push .ebx, .push .esi, .push .edi, .push .ebp] =
      m.pushAll (m.frame L ret prev newEsp) := by
  rw [Machine.run, List.foldl_cons, exec_pushf, List.foldl_cons, exec_push L m _ .ebx (by simp), List.foldl_cons,
    exec_push L m _ .esi (by simp), List.foldl_cons, exec_push L m _ .edi (by simp), List.foldl_cons,
    exec_push L m _ .ebp (by simp)]
  rfl

/-- With its frame pushed, sched_switch finds its arguments and exchanges the stack pointers. -/
theorem run_exchange (L : Layout) (m : Machine) (ret : Nat) {prev newEsp : Nat} (bound : prev < maxThreads)
    (room : 32 ≤ m.cpu.esp) (word : m.cpu.esp < 2 ^ 32) :
    (m.pushAll (m.frame L ret prev newEsp)).run L [.load .eax 24, .storeEsp, .load .esp 28] =
      { m with
        cpu := { m.cpu with eax := L.espField prev, esp := newEsp }
        table := m.table.setEsp prev (m.cpu.esp - 32)
        heap := (pushWords m.heap m.cpu.esp (m.frame L ret prev newEsp)).1 } := by
  have length : (m.frame L ret prev newEsp).length = 8 := rfl
  have fits : 4 * (m.frame L ret prev newEsp).length ≤ m.cpu.esp := by
    rw [length]
    exact room
  have low : (pushWords m.heap m.cpu.esp (m.frame L ret prev newEsp)).2 = m.cpu.esp - 32 := by
    rw [pushWords_sp fits word, length]
  have first : (pushWords m.heap m.cpu.esp (m.frame L ret prev newEsp)).1.mem (m.cpu.esp - 4) = newEsp :=
    pushWords_word fits word (i := 0) rfl
  have second : (pushWords m.heap m.cpu.esp (m.frame L ret prev newEsp)).1.mem (m.cpu.esp - 8) = L.espField prev :=
    pushWords_word fits word (i := 1) rfl
  have at24 : add32 (m.cpu.esp - 32) 24 = m.cpu.esp - 8 := by
    rw [add32_of_lt (by omega)]
    omega
  have at28 : add32 (m.cpu.esp - 32) 28 = m.cpu.esp - 4 := by
    rw [add32_of_lt (by omega)]
    omega
  rw [Machine.pushAll]
  generalize pushWords m.heap m.cpu.esp (m.frame L ret prev newEsp) = p at first second low ⊢
  obtain ⟨h, sp⟩ := p
  simp only at first second low
  subst low
  simp only [Machine.run, List.foldl, Machine.exec, Cpu.set, at24, second, store_espField L _ bound, at28, first]

/-- What the caller of sched_switch has on entry. -/
def Machine.suspended (L : Layout) (m : Machine) (ret prev newEsp : Nat) : Context where
  ret := ret
  ebx := m.cpu.ebx
  esi := m.cpu.esi
  edi := m.cpu.edi
  ebp := m.cpu.ebp
  eflags := m.cpu.eflags
  esp := m.cpu.esp - 8
  stack := (pushWords m.heap m.cpu.esp [newEsp, L.espField prev, ret]).1.mem

theorem context_eq (L : Layout) (m : Machine) (ret prev newEsp : Nat) (room : 32 ≤ m.cpu.esp)
    (word : m.cpu.esp < 2 ^ 32) :
    (m.pushAll [newEsp, L.espField prev, ret]).context = m.suspended L ret prev newEsp := by
  have length : [newEsp, L.espField prev, ret].length = 3 := rfl
  have fits : 4 * [newEsp, L.espField prev, ret].length ≤ m.cpu.esp := by
    rw [length]
    omega
  have low : (pushWords m.heap m.cpu.esp [newEsp, L.espField prev, ret]).2 = m.cpu.esp - 12 := by
    rw [pushWords_sp fits word, length]
  have third : (pushWords m.heap m.cpu.esp [newEsp, L.espField prev, ret]).1.mem (m.cpu.esp - 12) = ret :=
    pushWords_word fits word (i := 2) rfl
  have back : add32 (m.cpu.esp - 12) 4 = m.cpu.esp - 8 := by
    rw [add32_of_lt (by omega)]
    omega
  rw [Machine.pushAll, Machine.suspended]
  generalize pushWords m.heap m.cpu.esp [newEsp, L.espField prev, ret] = p at low third ⊢
  obtain ⟨h, sp⟩ := p
  simp only at low third
  subst low
  simp only [Machine.context, Machine.top, third, back]

/-- sched_switch stores its frame, notes where the frame lies, and pops the frame at the new stack pointer. -/
theorem callSwitch_eq (L : Layout) (m : Machine) (ret : Nat) {prev newEsp : Nat} (bound : prev < maxThreads)
    (room : 32 ≤ m.cpu.esp) (word : m.cpu.esp < 2 ^ 32) (fits : newEsp + 24 < 2 ^ 32) :
    m.callSwitch L ret prev newEsp =
      { m with
        cpu := { m.cpu with eax := L.espField prev }.popped
          (pushWords m.heap m.cpu.esp (m.frame L ret prev newEsp)).1.mem newEsp
        table := m.table.setEsp prev (m.cpu.esp - 32)
        heap := (pushWords m.heap m.cpu.esp (m.frame L ret prev newEsp)).1
        saved := Function.update m.saved prev (some (m.suspended L ret prev newEsp)) } := by
  have entry : ((m.push newEsp).push (L.espField prev)).push ret = m.pushAll [newEsp, L.espField prev, ret] := by
    rw [push_eq m newEsp, pushAll_push, pushAll_push]
    rfl
  have code : schedSwitch = [.pushf, .push .ebx, .push .esi, .push .edi, .push .ebp] ++
      ([.load .eax 24, .storeEsp, .load .esp 28] ++ [.pop .ebp, .pop .edi, .pop .esi, .pop .ebx, .popf, .ret]) := rfl
  rw [Machine.callSwitch, entry, code, run_append, run_append, run_saves, run_exchange L m ret bound room word,
    context_eq L m ret prev newEsp room word]
  generalize pushWords m.heap m.cpu.esp (m.frame L ret prev newEsp) = p
  rw [run_restore L _ fits]
  rfl

/-- sched_jump pops the frame at its argument. -/
theorem run_schedJump (L : Layout) (m : Machine) (ret : Nat) {newEsp : Nat} (room : 8 ≤ m.cpu.esp)
    (word : m.cpu.esp < 2 ^ 32) (fits : newEsp + 24 < 2 ^ 32) :
    ((m.push newEsp).push ret).run L schedJump =
      { m with
        cpu := m.cpu.popped (pushWords m.heap m.cpu.esp [newEsp, ret]).1.mem newEsp
        heap := (pushWords m.heap m.cpu.esp [newEsp, ret]).1 } := by
  have entry : (m.push newEsp).push ret = m.pushAll [newEsp, ret] := by
    rw [push_eq m newEsp, pushAll_push]
    rfl
  have length : [newEsp, ret].length = 2 := rfl
  have enough : 4 * [newEsp, ret].length ≤ m.cpu.esp := by
    rw [length]
    exact room
  have low : (pushWords m.heap m.cpu.esp [newEsp, ret]).2 = m.cpu.esp - 8 := by
    rw [pushWords_sp enough word, length]
  have first : (pushWords m.heap m.cpu.esp [newEsp, ret]).1.mem (m.cpu.esp - 4) = newEsp :=
    pushWords_word enough word (i := 0) rfl
  have at4 : add32 (m.cpu.esp - 8) 4 = m.cpu.esp - 4 := by
    rw [add32_of_lt (by omega)]
    omega
  have code : schedJump = [.load .esp 4] ++ [.pop .ebp, .pop .edi, .pop .esi, .pop .ebx, .popf, .ret] := rfl
  rw [entry, code, run_append, Machine.pushAll]
  generalize pushWords m.heap m.cpu.esp [newEsp, ret] = p at low first ⊢
  obtain ⟨h, sp⟩ := p
  simp only at low first
  subst low
  have loads : Machine.run L { m with cpu := { m.cpu with esp := m.cpu.esp - 8 }, heap := h } [.load .esp 4] =
      { m with cpu := { m.cpu with esp := newEsp }, heap := h } := by
    simp only [Machine.run, List.foldl, Machine.exec, Cpu.set, at4, first]
  rw [loads, run_restore L _ fits]
  rfl

end ChrisOS.Kernel.Sched.Contexts
