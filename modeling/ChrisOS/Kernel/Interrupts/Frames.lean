import ChrisOS.Kernel.Interrupts

/-! What a stub builds on the stack and what it takes off again. -/

set_option autoImplicit false

namespace ChrisOS.Kernel.Interrupts
open ChrisOS.Lib ChrisOS.Lib.Stack

theorem run_nil (m : Machine) : run m [] = m := rfl

theorem run_cons (m : Machine) (i : Instruction) (code : List Instruction) : run m (i :: code) = run (exec m i) code := rfl

theorem run_append (m : Machine) (first second : List Instruction) : run m (first ++ second) = run (run m first) second :=
  List.foldl_append

theorem exec_push_esp (m : Machine) : exec m (.push .esp) = m.push m.esp := rfl

theorem exec_pushByte (m : Machine) (b : Nat) : exec m (.pushByte b) = m.push (signExtend b) := rfl

/-- The machine after the words of a list are pushed in their order. -/
def Machine.pushes (m : Machine) (ws : List Nat) : Machine :=
  { m with regs := Function.update m.regs .esp (m.esp - 4 * ws.length), mem := pushWords m.mem m.esp ws }

variable {m : Machine} {ws : List Nat}

@[simp] theorem pushes_esp (m : Machine) (ws : List Nat) : (m.pushes ws).esp = m.esp - 4 * ws.length := by
  change Function.update m.regs .esp (m.esp - 4 * ws.length) .esp = _
  exact Function.update_self ..

theorem pushes_reg (m : Machine) (ws : List Nat) {r : Reg} (other : r ≠ .esp) : (m.pushes ws).regs r = m.regs r :=
  Function.update_of_ne other ..

theorem push_eq (room : 4 ≤ m.esp) (small : m.esp < 2 ^ 32) (v : Nat) : m.push v = m.pushes [v] := by
  have down : sub32 m.esp 4 = m.esp - 4 := sub32_of_le room small
  rw [Machine.push, down]
  rfl

theorem pushes_append (m : Machine) (first second : List Nat) : (m.pushes first).pushes second = m.pushes (first ++ second) := by
  have esp : (m.pushes first).esp - 4 * second.length = m.esp - 4 * (first ++ second).length := by
    rw [pushes_esp, List.length_append]
    omega
  have mem : pushWords (m.pushes first).mem (m.pushes first).esp second = pushWords m.mem m.esp (first ++ second) := by
    rw [pushWords_append, pushes_esp]
    rfl
  rw [Machine.pushes, esp, mem]
  simp only [Machine.pushes, Function.update_idem]

theorem pushes_push (room : 4 * ws.length + 4 ≤ m.esp) (small : m.esp < 2 ^ 32) (v : Nat) :
    (m.pushes ws).push v = m.pushes (ws ++ [v]) := by
  rw [push_eq (by rw [pushes_esp]; omega) (by rw [pushes_esp]; omega), pushes_append]

theorem pusha_eq (room : 32 ≤ m.esp) (small : m.esp < 2 ^ 32) : exec m .pusha =
    m.pushes [m.regs .eax, m.regs .ecx, m.regs .edx, m.regs .ebx, m.esp, m.regs .ebp, m.regs .esi, m.regs .edi] := by
  simp only [exec]
  rw [push_eq (by omega) small]
  iterate 7 rw [pushes_push (by simp only [List.length_append, List.length_cons, List.length_nil]; omega) small]
  rfl

/-- The words of a stub before the registers: the error code, unless there is one, and the number. -/
def Entry.words : Entry → List Nat
  | .isr n => if pushesError n then [n.val] else [0, n.val]
  | .irq n => [0, 32 + n.val]
  | .syscall => [0, 0xFFFFFF80]

theorem head_eq (e : Entry) (room : 8 ≤ m.esp) (small : m.esp < 2 ^ 32) : run m e.head = m.pushes e.words := by
  have two : ∀ a b : Nat, b < 256 → run m [.pushByte a, .pushByte b] = m.pushes [signExtend a, signExtend b] := by
    intro a b _
    rw [run_cons, run_cons, run_nil, exec_pushByte, exec_pushByte, push_eq (by omega) small, pushes_push (by simp only [List.length_cons, List.length_nil]; omega) small]
    rfl
  cases e with
  | isr n =>
    have positive : signExtend n = n.val := if_pos (by omega)
    change run m (if pushesError n then [.pushByte n] else [.pushByte 0, .pushByte n]) =
      m.pushes (if pushesError n then [n.val] else [0, n.val])
    split
    · rw [run_cons, run_nil, exec_pushByte, push_eq (by omega) small, positive]
    · rw [two 0 n (by omega), positive]
      rfl
  | irq n =>
    have positive : signExtend (32 + n) = 32 + n.val := if_pos (by omega)
    change run m [.pushByte 0, .pushByte (32 + n)] = _
    rw [two 0 (32 + n) (by omega), positive]
    rfl
  | syscall => exact two 0 0x80 (by decide)

/-- All that a stub pushes after the gate: the struct registers from edi up, its address, and the return. -/
def Entry.frame (e : Entry) (m : Machine) : List Nat :=
  e.words ++ [m.regs .eax, m.regs .ecx, m.regs .edx, m.regs .ebx, m.esp - 4 * e.words.length, m.regs .ebp,
    m.regs .esi, m.regs .edi] ++ [m.esp - 4 * e.words.length - 32] ++ [m.eip]

theorem words_length_le (e : Entry) : e.words.length ≤ 2 := by
  cases e with
  | isr n =>
    change (if pushesError n then [n.val] else [0, n.val]).length ≤ 2
    split
    · exact Nat.le_succ 1
    · exact Nat.le_refl 2
  | irq n => exact Nat.le_refl 2
  | syscall => exact Nat.le_refl 2

theorem enter_eq (e : Entry) (room : 40 + 4 * e.words.length ≤ m.esp) (small : m.esp < 2 ^ 32) : enter e m = m.pushes (e.frame m) := by
  have short := words_length_le e
  have saved : exec (run m e.head) .pusha = m.pushes (e.words ++ [m.regs .eax, m.regs .ecx, m.regs .edx, m.regs .ebx,
      m.esp - 4 * e.words.length, m.regs .ebp, m.regs .esi, m.regs .edi]) := by
    rw [head_eq e (by omega) small, pusha_eq (by rw [pushes_esp]; omega) (by rw [pushes_esp]; omega), pushes_append,
      pushes_esp]
    rfl
  generalize registers : [m.regs .eax, m.regs .ecx, m.regs .edx, m.regs .ebx, m.esp - 4 * e.words.length, m.regs .ebp,
    m.regs .esi, m.regs .edi] = eight at saved
  have eight_length : eight.length = 8 := registers ▸ rfl
  have deep : (m.pushes (e.words ++ eight)).esp = m.esp - 4 * e.words.length - 32 := by
    rw [pushes_esp, List.length_append, eight_length]
    omega
  have entered : enter e m = ((exec (run m e.head) .pusha).push (exec (run m e.head) .pusha).esp).push m.eip := by
    have ran : run m (e.head ++ beforeCall) = (exec (run m e.head) .pusha).push (exec (run m e.head) .pusha).esp := by
      rw [run_append, beforeCall, run_cons, run_cons, run_nil, exec_push_esp]
    have eip : ((exec (run m e.head) .pusha).push (exec (run m e.head) .pusha).esp).eip = m.eip := by
      rw [saved]
      rfl
    rw [enter, ran, eip]
  rw [entered, saved, deep, pushes_push (by rw [List.length_append, eight_length]; omega) small,
    pushes_push (by rw [List.length_append, List.length_append, eight_length, List.length_singleton]; omega) small,
    Entry.frame, registers]

/-! ### What the called routine sees -/

def Entry.number : Entry → Nat
  | .isr n => n
  | .irq n => 32 + n
  | .syscall => 0xFFFFFF80

/-- The processor's error code and the stub's words make two words for every vector. -/
def Entry.Fits (e : Entry) (err : Option Nat) : Prop := e.words.length + err.toList.length = 2

theorem words_of_fits {e : Entry} {err : Option Nat} (fits : e.Fits err) : err.toList ++ e.words = [err.getD 0, e.number] := by
  cases e with
  | isr n =>
    change (if pushesError n then [n.val] else [0, n.val]).length + _ = 2 at fits
    change err.toList ++ (if pushesError n then [n.val] else [0, n.val]) = _
    cases err with
    | none =>
      split at fits
      · exact absurd fits (by simp)
      · rename_i bare
        rw [if_neg bare]
        rfl
    | some code =>
      split at fits
      · rename_i pushed
        rw [if_pos pushed]
        rfl
      · exact absurd fits (by simp)
  | irq n =>
    cases err with
    | none => rfl
    | some code => exact absurd fits (by simp [Entry.Fits, Entry.words])
  | syscall =>
    cases err with
    | none => rfl
    | some code => exact absurd fits (by simp [Entry.Fits, Entry.words])

/-- The fifteen words on the stack of a machine that was interrupted, when the routine begins. -/
def frameOf (e : Entry) (err : Option Nat) (m : Machine) (stub : Nat) : List Nat :=
  [m.eflags, m.cs, m.eip, err.getD 0, e.number, m.regs .eax, m.regs .ecx, m.regs .edx, m.regs .ebx, m.esp - 20,
    m.regs .ebp, m.regs .esi, m.regs .edi, m.esp - 52, stub]

theorem deliver_eq {idt : Idt} {v : Nat} {err : Option Nat} {m₁ : Machine} (room : 60 ≤ m.esp) (small : m.esp < 2 ^ 32)
    (delivered : deliver idt v err m = some m₁) :
    (idt v).flags / 2 ^ 7 % 2 = 1 ∧ m₁ = { m.pushes ([m.eflags, m.cs, m.eip] ++ err.toList) with
      eip := (idt v).baseLow + 2 ^ 16 * (idt v).baseHigh
      cs := (idt v).selector
      eflags := if (idt v).flags % 16 = 0xE then clearInterruptFlag m.eflags else m.eflags } := by
  have three : ((m.push m.eflags).push m.cs).push m.eip = m.pushes [m.eflags, m.cs, m.eip] := by
    rw [push_eq (by omega) small, pushes_push (by rw [List.length_singleton]; omega) small,
      pushes_push (by simp only [List.length_append, List.length_singleton]; omega) small]
    rfl
  have saved : save m err = m.pushes ([m.eflags, m.cs, m.eip] ++ err.toList) := by
    cases err with
    | none => exact three
    | some code =>
      change (((m.push m.eflags).push m.cs).push m.eip).push code = _
      rw [three, pushes_push (by simp only [List.length_cons, List.length_nil]; omega) small]
      rfl
  rw [deliver, saved] at delivered
  dsimp only at delivered
  split at delivered
  · exact absurd delivered nofun
  · rename_i present
    exact ⟨by omega, (Option.some.inj delivered).symm⟩

/-- The gate, the stub and the call leave fifteen words on the stack of the interrupted program. -/
theorem enter_frame {idt : Idt} {v : Nat} {e : Entry} {err : Option Nat} {m₁ : Machine} (room : 60 ≤ m.esp)
    (small : m.esp < 2 ^ 32) (fits : e.Fits err) (delivered : deliver idt v err m = some m₁) :
    (enter e m₁).esp = m.esp - 60 ∧ (enter e m₁).mem = pushWords m.mem m.esp (frameOf e err m m₁.eip) := by
  obtain ⟨-, same⟩ := deliver_eq room small delivered
  have short : err.toList.length + e.words.length = 2 := by
    rw [Nat.add_comm]
    exact fits
  have one : err.toList.length ≤ 1 := by cases err <;> simp
  have esp : m₁.esp = m.esp - 4 * ([m.eflags, m.cs, m.eip] ++ err.toList).length := by
    rw [same]
    exact pushes_esp m _
  have mem : m₁.mem = pushWords m.mem m.esp ([m.eflags, m.cs, m.eip] ++ err.toList) := by
    rw [same]
    rfl
  have reg : ∀ r, r ≠ .esp → m₁.regs r = m.regs r := fun r other => by
    rw [same]
    exact pushes_reg m _ other
  have length : ([m.eflags, m.cs, m.eip] ++ err.toList).length = 3 + err.toList.length := by
    rw [List.length_append]
    rfl
  have words : ([m.eflags, m.cs, m.eip] ++ err.toList) ++ e.frame m₁ = frameOf e err m m₁.eip := by
    have split := words_of_fits fits
    rw [Entry.frame, frameOf, ← List.append_assoc, ← List.append_assoc, ← List.append_assoc, List.append_assoc _ err.toList,
      split, reg _ (by decide), reg _ (by decide), reg _ (by decide), reg _ (by decide), reg _ (by decide),
      reg _ (by decide), reg _ (by decide)]
    have first : m₁.esp - 4 * e.words.length = m.esp - 20 := by omega
    have second : m₁.esp - 4 * e.words.length - 32 = m.esp - 52 := by omega
    rw [second, first]
    rfl
  have count : (e.frame m₁).length = 12 - err.toList.length := by
    have total := congrArg List.length words
    rw [List.length_append, length, frameOf] at total
    simp only [List.length_cons, List.length_nil] at total
    omega
  have deep : m₁.esp = m.esp - 12 - 4 * err.toList.length := by
    rw [esp, length]
    omega
  rw [enter_eq e (by omega) (by omega)]
  constructor
  · rw [pushes_esp, count]
    omega
  · change pushWords m₁.mem m₁.esp (e.frame m₁) = _
    rw [mem, esp, ← pushWords_append, words]

/-- The struct that the routine is given a pointer to. The esp in it is the one before pusha; useresp and ss
are the interrupted program's own words. -/
theorem frame_registers (room : 60 ≤ m.esp) (e : Entry) (err : Option Nat) (stub : Nat) :
    registersAt (pushWords m.mem m.esp (frameOf e err m stub)) (m.esp - 52) =
      ⟨m.regs .edi, m.regs .esi, m.regs .ebp, m.esp - 20, m.regs .ebx, m.regs .edx, m.regs .ecx, m.regs .eax,
        e.number, err.getD 0, m.eip, m.cs, m.eflags, m.mem m.esp, m.mem (m.esp + 4)⟩ := by
  have word : ∀ i (inside : i < 15) (k : Nat), 52 = k + 4 * (i + 1) →
      pushWords m.mem m.esp (frameOf e err m stub) (m.esp - 52 + k) = (frameOf e err m stub)[i] := by
    intro i inside k place
    have found : pushWords m.mem m.esp (frameOf e err m stub) (m.esp - 4 * (i + 1)) = _ := pushWords_get room inside
    rwa [show m.esp - 4 * (i + 1) = m.esp - 52 + k by omega] at found
  have above : ∀ k, 52 ≤ k → pushWords m.mem m.esp (frameOf e err m stub) (m.esp - 52 + k) = m.mem (m.esp + (k - 52)) := by
    intro k high
    rw [pushWords_above room (by omega)]
    congr 1
    omega
  have first := word 12 (by decide) 0 rfl
  rw [Nat.add_zero] at first
  rw [registersAt, first, word 11 (by decide) 4 rfl, word 10 (by decide) 8 rfl, word 9 (by decide) 12 rfl,
    word 8 (by decide) 16 rfl, word 7 (by decide) 20 rfl, word 6 (by decide) 24 rfl, word 5 (by decide) 28 rfl,
    word 4 (by decide) 32 rfl, word 3 (by decide) 36 rfl, word 2 (by decide) 40 rfl, word 1 (by decide) 44 rfl,
    word 0 (by decide) 48 rfl, above 52 (by decide), above 56 (by decide)]
  rfl

/-! ### The way back -/

/-- Words popped into registers, or skipped. -/
def pops (m : Machine) : List (Option Reg) → Machine
  | [] => m
  | some r :: rs => pops (m.pop r) rs
  | none :: rs => pops m.drop rs

theorem drop_esp (fits : m.esp + 4 < 2 ^ 32) : m.drop.esp = m.esp + 4 := by
  have up : add32 m.esp 4 = m.esp + 4 := add32_of_lt fits
  change Function.update m.regs .esp (add32 m.esp 4) .esp = _
  rw [Function.update_self, up]

theorem drop_reg {r : Reg} (other : r ≠ .esp) : m.drop.regs r = m.regs r :=
  Function.update_of_ne other ..

theorem pop_esp (fits : m.esp + 4 < 2 ^ 32) {r : Reg} (other : r ≠ .esp) : (m.pop r).esp = m.esp + 4 := by
  change Function.update m.drop.regs r m.top .esp = _
  rw [Function.update_of_ne other.symm]
  exact drop_esp fits

theorem pops_mem (rs : List (Option Reg)) : (pops m rs).mem = m.mem := by
  induction rs generalizing m with
  | nil => rfl
  | cons r rs ih =>
    cases r with
    | none => exact ih
    | some r => exact ih

theorem pops_esp {rs : List (Option Reg)} (fits : m.esp + 4 * rs.length < 2 ^ 32) (others : some .esp ∉ rs) :
    (pops m rs).esp = m.esp + 4 * rs.length := by
  induction rs generalizing m with
  | nil => rfl
  | cons r rs ih =>
    rw [List.length_cons] at fits ⊢
    rw [List.mem_cons, not_or] at others
    cases r with
    | none =>
      have next := drop_esp (m := m) (by omega)
      rw [pops, ih (by omega) others.2, next]
      omega
    | some r =>
      have next := pop_esp (m := m) (r := r) (by omega) fun same => others.1 (congrArg some same.symm)
      rw [pops, ih (by omega) others.2, next]
      omega

/-- A register that is not popped keeps its value. -/
theorem pops_other {rs : List (Option Reg)} {r : Reg} (other : r ≠ .esp) (apart : some r ∉ rs) : (pops m rs).regs r = m.regs r := by
  induction rs generalizing m with
  | nil => rfl
  | cons q rs ih =>
    rw [List.mem_cons, not_or] at apart
    cases q with
    | none =>
      rw [pops, ih apart.2, drop_reg other]
    | some q =>
      rw [pops, ih apart.2]
      change Function.update m.drop.regs q m.top r = _
      rw [Function.update_of_ne fun same => apart.1 (congrArg some same), drop_reg other]

/-- A register has the word at its place in the list. -/
theorem pops_get (before : List (Option Reg)) {after : List (Option Reg)} {r : Reg} (fits : m.esp + 4 * (before.length + 1) < 2 ^ 32)
    (other : r ≠ .esp) (others : some .esp ∉ before) (apart : some r ∉ after) :
    (pops m (before ++ some r :: after)).regs r = m.mem (m.esp + 4 * before.length) := by
  have split : ∀ (m : Machine) (first second : List (Option Reg)), pops m (first ++ second) = pops (pops m first) second := by
    intro m first second
    induction first generalizing m with
    | nil => rfl
    | cons q first ih =>
      cases q with
      | none => exact ih _
      | some q => exact ih _
  have here : (pops m before).top = m.mem (m.esp + 4 * before.length) := by
    rw [Machine.top, pops_mem, pops_esp (by omega) others]
  rw [split, pops, pops_other other apart]
  change Function.update (pops m before).drop.regs r (pops m before).top r = _
  rw [Function.update_self, here]

theorem addEsp_esp {n : Nat} (fits : m.esp + n < 2 ^ 32) : (exec m (.addEsp n)).esp = m.esp + n := by
  have up : add32 m.esp n = m.esp + n := add32_of_lt fits
  change Function.update m.regs .esp (add32 m.esp n) .esp = _
  rw [Function.update_self, up]

theorem addEsp_reg (n : Nat) {r : Reg} (other : r ≠ .esp) : (exec m (.addEsp n)).regs r = m.regs r :=
  Function.update_of_ne other ..

def popaList : List (Option Reg) :=
  [some .edi, some .esi, some .ebp, none, some .ebx, some .edx, some .ecx, some .eax]

theorem popa_eq (m : Machine) : exec m .popa = pops m popaList := rfl

/-- The registers in the order of their words above the address that was pushed. -/
def Reg.place : Reg → Nat
  | .edi => 0
  | .esi => 1
  | .ebp => 2
  | .esp => 3
  | .ebx => 4
  | .edx => 5
  | .ecx => 6
  | .eax => 7

theorem popa_get (fits : m.esp + 32 < 2 ^ 32) {r : Reg} (other : r ≠ .esp) :
    (exec m .popa).regs r = m.mem (m.esp + 4 * r.place) := by
  rw [popa_eq]
  cases r with
  | edi => exact pops_get [] (by rw [List.length_nil]; omega) other (by decide) (by decide)
  | esi => exact pops_get [some .edi] (by simp only [List.length_cons, List.length_nil]; omega) other (by decide) (by decide)
  | ebp => exact pops_get [some .edi, some .esi] (by simp only [List.length_cons, List.length_nil]; omega) other (by decide) (by decide)
  | esp => exact absurd rfl other
  | ebx =>
    exact pops_get [some .edi, some .esi, some .ebp, none] (by simp only [List.length_cons, List.length_nil]; omega) other (by decide) (by decide)
  | edx =>
    exact pops_get [some .edi, some .esi, some .ebp, none, some .ebx] (by simp only [List.length_cons, List.length_nil]; omega) other (by decide)
      (by decide)
  | ecx =>
    exact pops_get [some .edi, some .esi, some .ebp, none, some .ebx, some .edx] (by simp only [List.length_cons, List.length_nil]; omega) other
      (by decide) (by decide)
  | eax =>
    exact pops_get [some .edi, some .esi, some .ebp, none, some .ebx, some .edx, some .ecx]
      (by simp only [List.length_cons, List.length_nil]; omega) other (by decide) (by decide)

theorem iret_eq (fits : m.esp + 12 < 2 ^ 32) : (exec m .iret).esp = m.esp + 12 ∧ (exec m .iret).eip = m.mem m.esp ∧
    (exec m .iret).cs = m.mem (m.esp + 4) ∧ (exec m .iret).eflags = m.mem (m.esp + 8) := by
  have one : m.drop.esp = m.esp + 4 := drop_esp (by omega)
  have two : m.drop.drop.esp = m.esp + 8 := by rw [drop_esp (by omega), one]
  have three : m.drop.drop.drop.esp = m.esp + 12 := by rw [drop_esp (by omega), two]
  refine ⟨three, rfl, ?_, ?_⟩
  · change m.mem m.drop.esp = _
    rw [one]
  · change m.mem m.drop.drop.esp = _
    rw [two]

theorem iret_reg {r : Reg} (other : r ≠ .esp) : (exec m .iret).regs r = m.regs r := by
  change m.drop.drop.drop.regs r = _
  rw [drop_reg other, drop_reg other, drop_reg other]

/-- What the common end of the stubs makes of the stack. -/
theorem leave_eq (fits : m.esp + 56 < 2 ^ 32) : (leave m).esp = m.esp + 56 ∧ (leave m).mem = m.mem ∧
    (leave m).eip = m.mem (m.esp + 44) ∧ (leave m).cs = m.mem (m.esp + 48) ∧ (leave m).eflags = m.mem (m.esp + 52) ∧
    ∀ r, r ≠ .esp → (leave m).regs r = m.mem (m.esp + 4 + 4 * r.place) := by
  have ran : leave m = exec (exec (exec (exec m (.addEsp 4)) .popa) (.addEsp 8)) .iret := by
    rw [leave, afterCall, run_cons, run_cons, run_cons, run_cons, run_nil]
  obtain ⟨a, first⟩ : ∃ a, exec m (.addEsp 4) = a := ⟨_, rfl⟩
  have aEsp : a.esp = m.esp + 4 := first ▸ addEsp_esp (by omega)
  have aMem : a.mem = m.mem := first ▸ rfl
  obtain ⟨b, second⟩ : ∃ b, exec a .popa = b := ⟨_, rfl⟩
  have bEsp : b.esp = m.esp + 36 := by
    have popped : (pops a popaList).esp = a.esp + 4 * popaList.length :=
      pops_esp (by rw [aEsp]; change m.esp + 4 + 32 < _; omega) (by decide)
    rw [← second, popa_eq, popped, aEsp]
    rfl
  have bMem : b.mem = m.mem := by rw [← second, popa_eq, pops_mem, aMem]
  obtain ⟨d, third⟩ : ∃ d, exec b (.addEsp 8) = d := ⟨_, rfl⟩
  have dEsp : d.esp = m.esp + 44 := by rw [← third, addEsp_esp (by omega), bEsp]
  have dMem : d.mem = m.mem := third ▸ bMem
  obtain ⟨esp, eip, cs, eflags⟩ := iret_eq (m := d) (by omega)
  rw [ran, first, second, third]
  refine ⟨by rw [esp, dEsp], dMem, by rw [eip, dMem, dEsp], by rw [cs, dMem, dEsp], by rw [eflags, dMem, dEsp],
    fun r other => ?_⟩
  rw [iret_reg other, ← third, addEsp_reg 8 other, ← second, popa_get (by omega) other, aMem, aEsp]

end ChrisOS.Kernel.Interrupts
