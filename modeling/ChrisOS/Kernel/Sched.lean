import ChrisOS.Kernel.Mm
import Mathlib.Logic.Function.Basic

/-! The thread table of kernel/sched.c and the routines that edit it.

The table is generic in how a saved stack pointer is represented. The stack
pointer that sched_switch stores is the CPU's, so the routines that switch take
it as an argument. Timer programming is left out.
-/

set_option autoImplicit false

namespace ChrisOS.Kernel.Sched
open ChrisOS.Lib

/-- SCHED_STACK_SIZE. -/
def stackSize : Nat := 8192

/-- SCHED_MAX_THREADS. -/
def maxThreads : Nat := 16

inductive ThreadState where
  | ready | running | dead
  deriving DecidableEq, Repr

structure Thread (Sp : Type) where
  esp : Sp
  stackBase : Nat
  entry : Nat
  state : ThreadState
  id : Nat
  deriving DecidableEq, Repr

/-- The statics threads, current and count. -/
structure Table (Sp : Type) where
  threads : Nat → Thread Sp
  current : Nat
  count : Nat

variable {Sp : Type}

namespace Table

def edit (s : Table Sp) (i : Nat) (f : Thread Sp → Thread Sp) : Table Sp :=
  { s with threads := Function.update s.threads i (f (s.threads i)) }

def setState (s : Table Sp) (i : Nat) (state : ThreadState) : Table Sp := s.edit i fun t => { t with state := state }

def setStackBase (s : Table Sp) (i base : Nat) : Table Sp := s.edit i fun t => { t with stackBase := base }

def setEsp (s : Table Sp) (i : Nat) (esp : Sp) : Table Sp := s.edit i fun t => { t with esp := esp }

/-- `current = next; threads[next].state = THREAD_RUNNING`. -/
def handOver (s : Table Sp) (next : Nat) : Table Sp := { s with current := next }.setState next .running

end Table

def Thread.runnable (t : Thread Sp) : Bool := t.state = .ready || t.state = .running

def nextReadyLoop (s : Table Sp) : Nat → Nat → Option Nat
  | 0, _ => none
  | left + 1, i =>
    -- offsets count from 1, so current itself comes last
    let idx := (s.current + i) % s.count
    if (s.threads idx).runnable then some idx else nextReadyLoop s left (i + 1)

/-- The next thread in turn that can run; none stands for -1. -/
def nextReady (s : Table Sp) : Option Nat := nextReadyLoop s s.count 1

/-- Indices from SCHED_MAX_THREADS on are never used. -/
def schedInit (s : Table Sp) : Table Sp where
  threads := fun i =>
    if i = 0 then { s.threads 0 with state := .running, id := 0, stackBase := 0, entry := 0 }
    else { s.threads i with state := .dead, stackBase := 0, entry := 0 }
  current := 0
  count := 1

/-- `*--sp = word` for each word in turn: memory and the final sp. -/
def pushWords (h : Mm.Heap) (sp : Nat) : List Nat → Mm.Heap × Nat
  | [] => (h, sp)
  | w :: ws => pushWords { h with mem := Function.update h.mem (sub32 sp 4) w } (sub32 sp 4) ws

/-- What sched_switch pops on the first switch: ebp, esi, edi, ebx, eflags, then the return address. -/
def firstFrame (trampoline : Nat) : List Nat := [trampoline, 0x202, 0, 0, 0, 0]

/-- The new table entry, with the stack pointer of its first frame, and `count++`. -/
def enlist (s : Table Sp) (entry : Nat) (esp : Sp) : Table Sp :=
  let s := s.edit s.count fun t => { t with entry := entry, esp := esp, state := .ready, id := s.count }
  { s with count := s.count + 1 }

/-- The rest of sched_spawn once kmalloc has answered with `base`. -/
def spawnOn (trampoline entry : Nat) (s : Table Nat) (h : Mm.Heap) (base : Nat) :
    Table Nat × Mm.Heap × Option Nat :=
  let id := s.count
  -- stack_base is stored before it is checked
  let s := s.setStackBase id base
  if base = 0 then (s, h, none)
  else
    let pushed := pushWords h (add32 base stackSize) (firstFrame trampoline)
    (enlist s entry pushed.2, pushed.1, some id)

/-- The table, memory and the new id; none stands for -1. -/
def schedSpawn (trampoline entry : Nat) (s : Table Nat) (h : Mm.Heap) (budget : Nat) :
    Option (Table Nat × Mm.Heap × Option Nat) :=
  if s.count ≥ maxThreads then some (s, h, none)
  else (Mm.kmalloc h stackSize budget).map fun r => spawnOn trampoline entry s r.1 r.2

/-- The first statement of sched_exit: give the stack back. -/
def freeStack (s : Table Sp) (h : Mm.Heap) (budget : Nat) : Option (Table Sp × Mm.Heap) :=
  let base := (s.threads s.current).stackBase
  if base = 0 then some (s, h)
  -- the thread still runs on the stack that it gives back
  else (Mm.kfree h base budget).map fun h => (s.setStackBase s.current 0, h)

/-- The rest of sched_exit, and whether it ends in the hlt loop. -/
def bury (s : Table Sp) : Table Sp × Bool :=
  let s := s.setState s.current .dead
  match nextReady s with
  | none => (s, true)
  | some next => (s.handOver next, false)

def schedExit (s : Table Sp) (h : Mm.Heap) (budget : Nat) : Option (Table Sp × Mm.Heap × Bool) :=
  (freeStack s h budget).map fun r => ((bury r.1).1, r.2, (bury r.1).2)

/-- The common body of sched_yield and sched_tick; `esp` is what sched_switch stores. -/
def switchAway (esp : Sp) (s : Table Sp) : Table Sp :=
  match nextReady s with
  | none => s
  | some next =>
    if next = s.current then s
    -- current is made ready, whatever it was
    else ((s.setState s.current .ready).handOver next).setEsp s.current esp

def schedYield (esp : Sp) (s : Table Sp) : Table Sp := switchAway esp s

def schedTick (esp : Sp) (s : Table Sp) : Table Sp := switchAway esp s

/-! ### Field lemmas -/

section Fields
variable (s : Table Sp) (i j : Nat) (f : Thread Sp → Thread Sp) (state : ThreadState) (n : Nat) (sp : Sp)

@[simp] theorem edit_current : (s.edit i f).current = s.current := rfl
@[simp] theorem edit_count : (s.edit i f).count = s.count := rfl
@[simp] theorem setState_current : (s.setState i state).current = s.current := rfl
@[simp] theorem setState_count : (s.setState i state).count = s.count := rfl
@[simp] theorem setStackBase_current : (s.setStackBase i n).current = s.current := rfl
@[simp] theorem setStackBase_count : (s.setStackBase i n).count = s.count := rfl
@[simp] theorem setEsp_current : (s.setEsp i sp).current = s.current := rfl
@[simp] theorem setEsp_count : (s.setEsp i sp).count = s.count := rfl
@[simp] theorem handOver_current : (s.handOver i).current = i := rfl
@[simp] theorem handOver_count : (s.handOver i).count = s.count := rfl

theorem edit_threads : (s.edit i f).threads j = if j = i then f (s.threads i) else s.threads j := by
  unfold Table.edit
  by_cases same : j = i
  · subst same; simp
  · simp [same]

@[simp] theorem setState_state :
    ((s.setState i state).threads j).state = if j = i then state else (s.threads j).state := by
  rw [Table.setState, edit_threads]
  split <;> rfl

@[simp] theorem setState_stackBase : ((s.setState i state).threads j).stackBase = (s.threads j).stackBase := by
  rw [Table.setState, edit_threads]
  split <;> simp_all

@[simp] theorem setStackBase_state : ((s.setStackBase i n).threads j).state = (s.threads j).state := by
  rw [Table.setStackBase, edit_threads]
  split <;> simp_all

@[simp] theorem setStackBase_stackBase :
    ((s.setStackBase i n).threads j).stackBase = if j = i then n else (s.threads j).stackBase := by
  rw [Table.setStackBase, edit_threads]
  split <;> rfl

@[simp] theorem setEsp_state : ((s.setEsp i sp).threads j).state = (s.threads j).state := by
  rw [Table.setEsp, edit_threads]
  split <;> simp_all

@[simp] theorem setEsp_stackBase : ((s.setEsp i sp).threads j).stackBase = (s.threads j).stackBase := by
  rw [Table.setEsp, edit_threads]
  split <;> simp_all

@[simp] theorem setState_esp : ((s.setState i state).threads j).esp = (s.threads j).esp := by
  rw [Table.setState, edit_threads]
  split <;> simp_all

@[simp] theorem setStackBase_esp : ((s.setStackBase i n).threads j).esp = (s.threads j).esp := by
  rw [Table.setStackBase, edit_threads]
  split <;> simp_all

@[simp] theorem setEsp_esp : ((s.setEsp i sp).threads j).esp = if j = i then sp else (s.threads j).esp := by
  rw [Table.setEsp, edit_threads]
  split <;> rfl

@[simp] theorem setState_entry : ((s.setState i state).threads j).entry = (s.threads j).entry := by
  rw [Table.setState, edit_threads]
  split <;> simp_all

@[simp] theorem setStackBase_entry : ((s.setStackBase i n).threads j).entry = (s.threads j).entry := by
  rw [Table.setStackBase, edit_threads]
  split <;> simp_all

@[simp] theorem setEsp_entry : ((s.setEsp i sp).threads j).entry = (s.threads j).entry := by
  rw [Table.setEsp, edit_threads]
  split <;> simp_all

@[simp] theorem handOver_entry : ((s.handOver i).threads j).entry = (s.threads j).entry :=
  setState_entry { s with current := i } i j .running

@[simp] theorem handOver_esp : ((s.handOver i).threads j).esp = (s.threads j).esp :=
  setState_esp { s with current := i } i j .running

@[simp] theorem handOver_state :
    ((s.handOver i).threads j).state = if j = i then .running else (s.threads j).state :=
  setState_state { s with current := i } i j .running

@[simp] theorem handOver_stackBase : ((s.handOver i).threads j).stackBase = (s.threads j).stackBase :=
  setState_stackBase { s with current := i } i j .running

@[simp] theorem enlist_current : (enlist s i sp).current = s.current := rfl
@[simp] theorem enlist_count : (enlist s i sp).count = s.count + 1 := rfl

theorem enlist_threads : (enlist s i sp).threads j = if j = s.count then
    { s.threads j with entry := i, esp := sp, state := .ready, id := s.count } else s.threads j := by
  rw [enlist]
  dsimp only
  rw [edit_threads]
  split
  · rename_i here
    rw [here]
  · rfl

end Fields

/-! ### next_ready -/

theorem Thread.runnable_iff (t : Thread Sp) : t.runnable = true ↔ t.state ≠ .dead := by
  unfold Thread.runnable
  cases t.state <;> simp

theorem nextReadyLoop_some {s : Table Sp} {left i idx : Nat} (found : nextReadyLoop s left i = some idx)
    (positive : 0 < s.count) : idx < s.count ∧ (s.threads idx).state ≠ .dead := by
  induction left generalizing i with
  | zero => simp [nextReadyLoop] at found
  | succ left ih =>
    rw [nextReadyLoop] at found
    split at found
    · rename_i able
      cases found
      exact ⟨Nat.mod_lt _ positive, (Thread.runnable_iff _).mp able⟩
    · exact ih found

theorem nextReadyLoop_none {s : Table Sp} {left i : Nat} (missed : nextReadyLoop s left i = none) :
    ∀ k, i ≤ k → k < i + left → (s.threads ((s.current + k) % s.count)).state = .dead := by
  induction left generalizing i with
  | zero => intros; omega
  | succ left ih =>
    rw [nextReadyLoop] at missed
    split at missed
    · cases missed
    · rename_i unable
      intro k lower upper
      rcases Nat.eq_or_lt_of_le lower with rfl | later
      · rw [Thread.runnable_iff, not_not] at unable
        exact unable
      · exact ih missed k later (by omega)

theorem nextReady_some {s : Table Sp} {idx : Nat} (found : nextReady s = some idx) (positive : 0 < s.count) :
    idx < s.count ∧ (s.threads idx).state ≠ .dead := nextReadyLoop_some found positive

/-- Every thread has an offset from current in the range that next_ready scans. -/
theorem exists_offset {s : Table Sp} (inside : s.current < s.count) {i : Nat} (bound : i < s.count) :
    ∃ k, 1 ≤ k ∧ k < 1 + s.count ∧ (s.current + k) % s.count = i := by
  rcases Nat.lt_or_ge s.current i with ahead | behind
  · refine ⟨i - s.current, by omega, by omega, ?_⟩
    rw [Nat.add_sub_cancel' (Nat.le_of_lt ahead), Nat.mod_eq_of_lt bound]
  · refine ⟨i + s.count - s.current, by omega, by omega, ?_⟩
    rw [show s.current + (i + s.count - s.current) = i + s.count by omega, Nat.add_mod_right,
      Nat.mod_eq_of_lt bound]

/-- The search fails only when every thread below count is dead. -/
theorem nextReady_none {s : Table Sp} (missed : nextReady s = none) (inside : s.current < s.count) :
    ∀ i, i < s.count → (s.threads i).state = .dead := by
  intro i bound
  obtain ⟨k, lower, upper, reach⟩ := exists_offset inside bound
  have := nextReadyLoop_none missed k lower upper
  rwa [reach] at this

/-- The search stops at the first offset whose thread can run. -/
theorem nextReadyLoop_first {s : Table Sp} {left i idx : Nat} (found : nextReadyLoop s left i = some idx) :
    ∃ k, i ≤ k ∧ k < i + left ∧ idx = (s.current + k) % s.count ∧
      ∀ j, i ≤ j → j < k → (s.threads ((s.current + j) % s.count)).state = .dead := by
  induction left generalizing i with
  | zero => simp [nextReadyLoop] at found
  | succ left ih =>
    rw [nextReadyLoop] at found
    split at found
    · cases found
      exact ⟨i, Nat.le_refl i, by omega, rfl, fun j lower upper => by omega⟩
    · rename_i unable
      obtain ⟨k, lower, upper, here, before⟩ := ih found
      refine ⟨k, by omega, by omega, here, fun j least less => ?_⟩
      rcases Nat.eq_or_lt_of_le least with rfl | later
      · rw [Thread.runnable_iff, not_not] at unable
        exact unable
      · exact before j later less

/-- Current comes last in the scan: another thread that can run is preferred to it. -/
theorem nextReady_other {s : Table Sp} (inside : s.current < s.count) {i : Nat} (bound : i < s.count)
    (other : i ≠ s.current) (able : (s.threads i).state ≠ .dead) :
    ∃ next, nextReady s = some next ∧ next ≠ s.current := by
  cases found : nextReady s with
  | none => exact absurd (nextReady_none found inside i bound) able
  | some next =>
    refine ⟨next, rfl, fun same => able ?_⟩
    obtain ⟨k, lower, upper, here, before⟩ := nextReadyLoop_first found
    obtain ⟨j, least, most, reach⟩ := exists_offset inside bound
    -- only the last offset leads back to current
    have last : k = s.count := by
      by_contra early
      rcases Nat.lt_or_ge (s.current + k) s.count with low | high
      · rw [Nat.mod_eq_of_lt low] at here
        omega
      · rw [Nat.mod_eq_sub_mod high, Nat.mod_eq_of_lt (by omega)] at here
        omega
    have short : j ≠ s.count := by
      rintro rfl
      rw [Nat.add_mod_right, Nat.mod_eq_of_lt inside] at reach
      exact other reach.symm
    have := before j least (by omega)
    rwa [reach] at this

/-! ### Switching and burying -/

/-- All that a yield or a tick can do to the table. -/
theorem switchAway_cases (esp : Sp) (s : Table Sp) :
    switchAway esp s = s ∨ ∃ next, nextReady s = some next ∧ next ≠ s.current ∧
      switchAway esp s = ((s.setState s.current .ready).handOver next).setEsp s.current esp := by
  unfold switchAway
  cases found : nextReady s with
  | none => exact .inl rfl
  | some next =>
    by_cases same : next = s.current
    · exact .inl (if_pos same)
    · exact .inr ⟨next, rfl, same, if_neg same⟩

/-- The thread that takes over from a dead one is another one. -/
theorem nextReady_buried {s : Table Sp} {next : Nat} (found : nextReady (s.setState s.current .dead) = some next)
    (positive : 0 < s.count) : next < s.count ∧ next ≠ s.current ∧ (s.threads next).state ≠ .dead := by
  obtain ⟨inside, able⟩ := nextReady_some found positive
  rw [setState_state] at able
  have away : next ≠ s.current := by
    rintro rfl
    exact able (if_pos rfl)
  rw [if_neg away] at able
  exact ⟨inside, away, able⟩

/-- All that the end of sched_exit can do to the table. -/
theorem bury_cases (s : Table Sp) :
    (nextReady (s.setState s.current .dead) = none ∧ bury s = (s.setState s.current .dead, true)) ∨
    ∃ next, nextReady (s.setState s.current .dead) = some next ∧
      bury s = ((s.setState s.current .dead).handOver next, false) := by
  cases found : nextReady (s.setState s.current .dead) with
  | none => exact .inl ⟨rfl, by simp [bury, found]⟩
  | some next => exact .inr ⟨next, rfl, by simp [bury, found]⟩

end ChrisOS.Kernel.Sched
