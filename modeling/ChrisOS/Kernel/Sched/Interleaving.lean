import ChrisOS.Kernel.Sched
import ChrisOS.Lib.Run

/-! sched_yield, sched_exit and sched_tick on one CPU, with timer interrupts at
every program point that has them enabled.

What runs between cli and sti, and an interrupt handler, is one step. Saved
contexts lie on the stacks of the threads; a stack pointer says whose stack it
points into and how many contexts lie below it. sched_switch saves the point at
which its caller continues: for the timer, the point that was interrupted.
-/

set_option autoImplicit false

namespace ChrisOS.Kernel.Sched.Interleaving
open ChrisOS.Lib

structure StackPointer where
  stack : Nat
  height : Nat
  deriving DecidableEq, Repr

/-- The program points at which interrupts are enabled. -/
inductive Point where
  | user
  /-- sched_yield, after sti. -/
  | switching (prev next : Nat)
  /-- sched_switch, before esp is stored in threads[prev].esp. -/
  | storing (prev : Nat) (newEsp : StackPointer)
  /-- sched_switch, before the new esp is loaded. -/
  | loading (newEsp : StackPointer)
  /-- sched_switch, before the registers of the new stack are popped. -/
  | restoring
  /-- The hlt loop of sched_exit. -/
  | halted
  deriving DecidableEq, Repr

structure Machine where
  table : Table StackPointer
  esp : StackPointer
  point : Point
  /-- The context saved at each height of each stack. -/
  slots : Nat → Nat → Point

namespace Machine

def push (m : Machine) (p : Point) : Machine :=
  { m with
    slots := Function.update m.slots m.esp.stack (Function.update (m.slots m.esp.stack) m.esp.height p)
    esp := ⟨m.esp.stack, m.esp.height + 1⟩ }

/-- Pop the context on top of the current stack and go on there. -/
def resume (m : Machine) : Machine :=
  { m with
    point := m.slots m.esp.stack (m.esp.height - 1)
    esp := ⟨m.esp.stack, m.esp.height - 1⟩ }

/-- sched_yield up to sti. -/
def yieldCall (m : Machine) : Machine :=
  match nextReady m.table with
  | none => m
  | some next =>
    if next = m.table.current then m
    else
      { m with
        table := (m.table.setState m.table.current .ready).handOver next
        point := .switching m.table.current next }

/-- The rest of sched_yield: the call of sched_switch and its steps. -/
def advance (m : Machine) : Option Machine :=
  match m.point with
  -- threads[next].esp is read here, not when next was chosen
  | .switching prev next => some { m.push .user with point := .storing prev (m.table.threads next).esp }
  | .storing prev newEsp => some { m with table := m.table.setEsp prev m.esp, point := .loading newEsp }
  | .loading newEsp => some { m with esp := newEsp, point := .restoring }
  | .restoring => some m.resume
  | .user | .halted => none

/-- sched_exit, to the hlt loop or through sched_jump. -/
def exitCall (m : Machine) : Machine :=
  let b := bury (m.table.setStackBase m.table.current 0)
  if b.2 then { m with table := b.1, point := .halted }
  -- sched_jump saves no context
  else { m with table := b.1, esp := (b.1.threads b.1.current).esp }.resume

/-- sched_spawn, with the answer of kmalloc: the first context of the new stack is its thread's start. -/
def spawnCall (m : Machine) (entry base : Nat) : Machine :=
  let id := m.table.count
  if id ≥ maxThreads then m
  else if base = 0 then { m with table := m.table.setStackBase id base }
  else
    { m with
      table := enlist (m.table.setStackBase id base) entry ⟨id, 1⟩
      slots := Function.update m.slots id (Function.update (m.slots id) 0 .user) }

/-- A timer interrupt: what it interrupts is saved on the stack in use, and popped again
there unless sched_tick switches. -/
def tick (m : Machine) : Machine :=
  let p := m.push m.point
  let t := schedTick p.esp m.table
  -- no switch: the context goes back to where it came from
  if t.current = m.table.current then { p with esp := m.esp }
  else { p with table := t, esp := (m.table.threads t.current).esp }.resume

end Machine

inductive Event where
  | yield
  | exit
  | spawn (entry base : Nat)
  | advance
  | tick
  deriving DecidableEq, Repr

inductive Step : Machine → Event → Machine → Prop where
  | yield {m : Machine} : m.point = .user → Step m .yield m.yieldCall
  | exit {m : Machine} : m.point = .user → Step m .exit m.exitCall
  | spawn {m : Machine} {entry base : Nat} : Step m (.spawn entry base) (m.spawnCall entry base)
  | advance {m m' : Machine} : m.advance = some m' → Step m .advance m'
  | tick {m : Machine} : Step m .tick m.tick

/-- sched_init: boot goes on as thread 0, on its own stack. -/
def boot (s : Table StackPointer) (slots : Nat → Nat → Point) : Machine := ⟨schedInit s, ⟨0, 0⟩, .user, slots⟩

/-- The thread whose esp field a step of sched_switch stores into, if it stores. -/
def stored (m : Machine) : Event → Option Nat
  | .advance => match m.point with
    | .storing prev _ => some prev
    | _ => none
  | .tick => if (schedTick m.esp m.table).current = m.table.current then none else some m.table.current
  | _ => none

/-- A store goes into the field of the thread whose stack the CPU is on. -/
def StoresOwn (m : Machine) (e : Event) : Prop := ∀ k, stored m e = some k → m.esp.stack = k

/-- The saved pointer of a thread that can run, and is not the one on the CPU's stack, is into its own stack. -/
def Owned (m : Machine) : Prop :=
  ∀ k, k < m.table.count → k ≠ m.esp.stack → (m.table.threads k).state ≠ .dead → (m.table.threads k).esp.stack = k

/-- Between the sti of sched_yield and the load of the new stack pointer. -/
def Point.inWindow : Point → Bool
  | .switching _ _ | .storing _ _ | .loading _ => true
  | .user | .restoring | .halted => false

def WindowTick (m : Machine) (e : Event) : Prop := e = .tick ∧ m.point.inWindow = true

/-! ### The invariant -/

/-- Contexts that a switch outside the window can have saved. -/
def Grounded (slots : Nat → Point) (height : Nat) : Prop :=
  ∀ j, j < height → (slots j).inWindow = false ∧ (slots j = .restoring → 0 < j)

/-- The CPU is on the stack of the thread it gave up, and current is the one to come. -/
structure Crossing (m : Machine) : Prop where
  away : m.esp.stack ≠ m.table.current
  prev : (m.table.threads m.esp.stack).state = .ready
  next : (m.table.threads m.table.current).state ≠ .dead

def Stance (m : Machine) : Prop :=
  match m.point with
  | .user | .halted => m.esp.stack = m.table.current
  | .restoring => m.esp.stack = m.table.current ∧ 0 < m.esp.height
  | .switching prev next => m.esp.stack = prev ∧ next = m.table.current ∧ Crossing m
  | .storing prev newEsp => m.esp.stack = prev ∧ newEsp = (m.table.threads m.table.current).esp ∧
      0 < m.esp.height ∧ Crossing m
  | .loading newEsp => newEsp = (m.table.threads m.table.current).esp ∧
      (m.table.threads m.esp.stack).esp = m.esp ∧ 0 < m.esp.height ∧ Crossing m

/-- The saved context of a thread that is not on the CPU. -/
structure Shelved (m : Machine) (k : Nat) : Prop where
  own : (m.table.threads k).esp.stack = k
  some_frame : 0 < (m.table.threads k).esp.height
  grounded : Grounded (m.slots k) (m.table.threads k).esp.height

structure Inv (m : Machine) : Prop where
  inside : m.table.current < m.table.count
  aboard : m.esp.stack < m.table.count
  shelved : ∀ k, k < m.table.count → k ≠ m.esp.stack → (m.table.threads k).state ≠ .dead → Shelved m k
  below : Grounded (m.slots m.esp.stack) m.esp.height
  stance : Stance m

theorem Inv.owned {m : Machine} (invariant : Inv m) : Owned m :=
  fun k bound other able => (invariant.shelved k bound other able).own

theorem Inv.home {m : Machine} (invariant : Inv m) (outside : m.point.inWindow = false) :
    m.esp.stack = m.table.current := by
  have stance := invariant.stance
  unfold Stance at stance
  cases point : m.point with
  | user | halted => rw [point] at stance; exact stance
  | restoring => rw [point] at stance; exact stance.1
  | switching _ _ | storing _ _ | loading _ => rw [point] at outside; cases outside

theorem Inv.crossing {m : Machine} (invariant : Inv m) (within : m.point.inWindow = true) : Crossing m := by
  have stance := invariant.stance
  unfold Stance at stance
  cases point : m.point with
  | user | halted | restoring => rw [point] at within; cases within
  | switching _ _ => rw [point] at stance; exact stance.2.2
  | storing _ _ => rw [point] at stance; exact stance.2.2.2
  | loading _ => rw [point] at stance; exact stance.2.2.2

theorem Grounded.mono {slots : Nat → Point} {low high : Nat} (grounded : Grounded slots high) (le : low ≤ high) :
    Grounded slots low := fun j bound => grounded j (Nat.lt_of_lt_of_le bound le)

/-- One more context on top. -/
theorem Grounded.push {slots : Nat → Point} {height : Nat} (grounded : Grounded slots height) {p : Point}
    (outside : p.inWindow = false) (top : p = .restoring → 0 < height) :
    Grounded (Function.update slots height p) (height + 1) := by
  intro j bound
  rcases Nat.lt_succ_iff_lt_or_eq.mp bound with less | rfl
  · rw [Function.update_of_ne (Nat.ne_of_lt less)]
    exact grounded j less
  · rw [Function.update_self]
    exact ⟨outside, top⟩

/-- What is written above the top changes no saved context. -/
theorem Grounded.above {slots : Nat → Point} {height : Nat} (grounded : Grounded slots height) (p : Point) :
    Grounded (Function.update slots height p) height := by
  intro j bound
  rw [Function.update_of_ne (Nat.ne_of_lt bound)]
  exact grounded j bound

theorem Shelved.congr {m m' : Machine} {k : Nat} (shelved : Shelved m k)
    (esp : (m'.table.threads k).esp = (m.table.threads k).esp) (slots : m'.slots k = m.slots k) : Shelved m' k := by
  refine ⟨?_, ?_, ?_⟩
  · rw [esp]; exact shelved.own
  · rw [esp]; exact shelved.some_frame
  · rw [esp, slots]; exact shelved.grounded

/-- Arriving on the stack of current with its saved context on top. -/
theorem inv_resume {m : Machine} (inside : m.table.current < m.table.count)
    (home : m.esp.stack = m.table.current) (top : 0 < m.esp.height)
    (below : Grounded (m.slots m.esp.stack) m.esp.height)
    (shelved : ∀ k, k < m.table.count → k ≠ m.esp.stack → (m.table.threads k).state ≠ .dead → Shelved m k) :
    Inv m.resume := by
  -- what is popped was saved outside the window
  obtain ⟨outside, deeper⟩ := below (m.esp.height - 1) (by omega)
  refine ⟨inside, home ▸ inside, fun k bound other able => (shelved k bound other able).congr rfl rfl,
    below.mono (Nat.sub_le _ _), ?_⟩
  unfold Stance
  simp only [Machine.resume]
  cases point : m.slots m.esp.stack (m.esp.height - 1) with
  | user | halted => exact home
  | restoring => exact ⟨home, deeper point⟩
  | switching _ _ | storing _ _ | loading _ => rw [point] at outside; cases outside

theorem inv_boot (s : Table StackPointer) (slots : Nat → Nat → Point) : Inv (boot s slots) := by
  refine ⟨Nat.zero_lt_one, Nat.zero_lt_one, fun k bound other => ?_, fun j bound => absurd bound (Nat.not_lt_zero j), rfl⟩
  exact absurd (Nat.lt_one_iff.mp bound) other

/-! ### Steps -/

theorem yieldCall_cases (m : Machine) : m.yieldCall = m ∨ ∃ next, nextReady m.table = some next ∧
    next ≠ m.table.current ∧ m.yieldCall = { m with
      table := (m.table.setState m.table.current .ready).handOver next
      point := .switching m.table.current next } := by
  cases found : nextReady m.table with
  | none => exact .inl (by simp [Machine.yieldCall, found])
  | some next =>
    by_cases same : next = m.table.current
    · exact .inl (by simp [Machine.yieldCall, found, same])
    · exact .inr ⟨next, rfl, same, by simp [Machine.yieldCall, found, same]⟩

theorem yieldCall_inv {m : Machine} (invariant : Inv m) (point : m.point = .user) : Inv m.yieldCall := by
  have home := invariant.home (by rw [point]; rfl)
  rcases yieldCall_cases m with stays | ⟨next, found, other, goes⟩
  · rw [stays]
    exact invariant
  · obtain ⟨inside, able⟩ := nextReady_some found (Nat.zero_lt_of_lt invariant.inside)
    rw [goes]
    refine ⟨inside, invariant.aboard, fun k bound away alive => ?_, invariant.below, home, rfl, ?_, ?_, ?_⟩
    · -- the CPU stays on the stack of the thread given up
      have gone : k ≠ m.table.current := fun here => away (here.trans home.symm)
      refine (invariant.shelved k bound away ?_).congr (by simp) rfl
      by_cases here : k = next
      · rw [here]
        exact able
      · simpa [here, gone] using alive
    · exact fun here => other (here.symm.trans home)
    · have : m.table.current ≠ next := Ne.symm other
      simp [home, this]
    · simp

theorem advance_inv {m m' : Machine} (invariant : Inv m) (taken : m.advance = some m') : Inv m' := by
  have stance := invariant.stance
  unfold Stance at stance
  unfold Machine.advance at taken
  cases point : m.point with
  | user | halted => rw [point] at taken; cases taken
  | switching prev next =>
    rw [point] at taken stance
    cases taken
    obtain ⟨on, rfl, crossing⟩ := stance
    refine ⟨invariant.inside, invariant.aboard, fun k bound away alive => ?_, ?_, on, rfl, Nat.succ_pos _, ?_⟩
    · exact (invariant.shelved k bound away alive).congr rfl (Function.update_of_ne away _ _)
    · simp only [Machine.push, Function.update_self]
      exact invariant.below.push rfl (by simp)
    · exact ⟨crossing.away, crossing.prev, crossing.next⟩
  | storing prev newEsp =>
    rw [point] at taken stance
    cases taken
    obtain ⟨rfl, rfl, top, crossing⟩ := stance
    refine ⟨invariant.inside, invariant.aboard, fun k bound away alive => ?_, invariant.below, ?_, ?_, top, ?_⟩
    · have gone : k ≠ m.esp.stack := away
      exact (invariant.shelved k bound away (by simpa using alive)).congr (by simp [gone]) rfl
    · simp [crossing.away.symm]
    · simp
    · exact ⟨crossing.away, by simp [crossing.prev], by simp [crossing.next]⟩
  | loading newEsp =>
    rw [point] at taken stance
    cases taken
    obtain ⟨rfl, saved, top, crossing⟩ := stance
    -- the old stack is shelved by the store, the new one comes off the shelf
    obtain ⟨own, tall, grounded⟩ := invariant.shelved _ invariant.inside crossing.away.symm crossing.next
    refine ⟨invariant.inside, ?_, fun k bound away alive => ?_, ?_, own, tall⟩
    · simp only [own]
      exact invariant.inside
    · by_cases here : k = m.esp.stack
      · subst here
        refine ⟨?_, ?_, ?_⟩
        · simp only [saved]
        · simp only [saved]
          exact top
        · simp only [saved]
          exact invariant.below
      · exact (invariant.shelved k bound here alive).congr rfl rfl
    · simp only [own]
      exact grounded
  | restoring =>
    rw [point] at taken stance
    cases taken
    exact inv_resume invariant.inside stance.1 stance.2 invariant.below invariant.shelved

theorem exitCall_inv {m : Machine} (invariant : Inv m) (point : m.point = .user) : Inv m.exitCall := by
  have home := invariant.home (by rw [point]; rfl)
  have shelved (k : Nat) (bound : k < m.table.count) (gone : k ≠ m.table.current)
      (alive : (m.table.threads k).state ≠ .dead) : Shelved m k :=
    invariant.shelved k bound (fun here => gone (here.trans home)) alive
  unfold Machine.exitCall
  rcases bury_cases (m.table.setStackBase m.table.current 0) with ⟨-, same⟩ | ⟨next, found, same⟩
  · simp only [same, ↓reduceIte]
    refine ⟨invariant.inside, invariant.aboard, fun k bound away alive => ?_, invariant.below, home⟩
    have gone : k ≠ m.table.current := fun here => away (here.trans home.symm)
    exact (shelved k bound gone (by simpa [gone] using alive)).congr (by simp) rfl
  · obtain ⟨inside, able⟩ := nextReady_some found (Nat.zero_lt_of_lt invariant.inside)
    have other : next ≠ m.table.current := by
      rintro rfl
      exact able (by simp)
    -- the next thread was on the shelf, with a context to pop
    obtain ⟨own, tall, grounded⟩ := shelved next inside other (by simpa [other] using able)
    simp only [same, Bool.false_eq_true, ↓reduceIte]
    refine inv_resume inside ?_ ?_ ?_ fun k bound away alive => ?_
    · simpa using own
    · simpa using tall
    · simpa [own] using grounded
    · have there : k ≠ next := by simpa [own] using away
      have gone : k ≠ m.table.current := by
        rintro rfl
        simp [there] at alive
      exact (shelved k bound gone (by simpa [there, gone] using alive)).congr (by simp) rfl

theorem Crossing.congr {m m' : Machine} (crossing : Crossing m) (esp : m'.esp = m.esp)
    (current : m'.table.current = m.table.current)
    (there : (m'.table.threads m.table.current).state = (m.table.threads m.table.current).state)
    (here : (m'.table.threads m.esp.stack).state = (m.table.threads m.esp.stack).state) : Crossing m' := by
  refine ⟨?_, ?_, ?_⟩
  · rw [esp, current]; exact crossing.away
  · rw [esp, here]; exact crossing.prev
  · rw [current, there]; exact crossing.next

/-- New threads, with a context on their own stacks, leave the rest as it was. -/
theorem Inv.extend {m : Machine} (invariant : Inv m) {table : Table StackPointer} {slots : Nat → Nat → Point}
    (current : table.current = m.table.current) (count : m.table.count ≤ table.count)
    (old : ∀ k, k < m.table.count → slots k = m.slots k ∧ (table.threads k).esp = (m.table.threads k).esp ∧
      (table.threads k).state = (m.table.threads k).state)
    (new : ∀ k, m.table.count ≤ k → k < table.count → Shelved ⟨table, m.esp, m.point, slots⟩ k) :
    Inv ⟨table, m.esp, m.point, slots⟩ := by
  -- both threads of a switch are old
  have here := old _ invariant.aboard
  have there := old _ invariant.inside
  refine ⟨?_, ?_, fun k bound away alive => ?_, ?_, ?_⟩
  · exact current ▸ Nat.lt_of_lt_of_le invariant.inside count
  · exact Nat.lt_of_lt_of_le invariant.aboard count
  · rcases Nat.lt_or_ge k m.table.count with less | more
    · have same := old k less
      exact (invariant.shelved k less away (same.2.2 ▸ alive)).congr same.2.1 same.1
    · exact new k more bound
  · simp only [here.1]
    exact invariant.below
  · have stance := invariant.stance
    unfold Stance at stance ⊢
    cases point : m.point with
    | user | halted | restoring =>
      simp only [point, current] at stance ⊢
      exact stance
    | switching prev next =>
      simp only [point, current] at stance ⊢
      exact ⟨stance.1, stance.2.1, stance.2.2.congr rfl current there.2.2 here.2.2⟩
    | storing prev newEsp =>
      simp only [point, current, there.2.1] at stance ⊢
      exact ⟨stance.1, stance.2.1, stance.2.2.1, stance.2.2.2.congr rfl current there.2.2 here.2.2⟩
    | loading newEsp =>
      simp only [point, current, here.2.1, there.2.1] at stance ⊢
      exact ⟨stance.1, stance.2.1, stance.2.2.1, stance.2.2.2.congr rfl current there.2.2 here.2.2⟩

theorem spawnCall_inv {m : Machine} (invariant : Inv m) (entry base : Nat) : Inv (m.spawnCall entry base) := by
  unfold Machine.spawnCall
  dsimp only
  by_cases full : m.table.count ≥ maxThreads
  · rw [if_pos full]
    exact invariant
  rw [if_neg full]
  by_cases failed : base = 0
  · rw [if_pos failed]
    refine invariant.extend rfl (Nat.le_refl _) (fun k _ => ⟨rfl, by simp, by simp⟩) fun k more less => ?_
    exact absurd less (Nat.not_lt.mpr more)
  · rw [if_neg failed]
    refine invariant.extend rfl (Nat.le_succ _) (fun k less => ?_) fun k more less => ?_
    · have : k ≠ m.table.count := Nat.ne_of_lt less
      rw [enlist_threads, Function.update_of_ne this, setStackBase_count, if_neg this]
      exact ⟨rfl, by simp, by simp⟩
    · -- the new stack holds the start of its thread and nothing else
      obtain rfl : k = m.table.count := Nat.le_antisymm (Nat.le_of_lt_succ less) more
      have esp : ((enlist (m.table.setStackBase m.table.count base) entry ⟨m.table.count, 1⟩).threads
          m.table.count).esp = ⟨m.table.count, 1⟩ := by
        rw [enlist_threads]
        simp
      refine ⟨?_, ?_, ?_⟩
      · simp only [esp]
      · simp only [esp]
        exact Nat.one_pos
      · simp only [esp, Function.update_self]
        intro j bound
        obtain rfl : j = 0 := Nat.lt_one_iff.mp bound
        rw [Function.update_self]
        exact ⟨rfl, by simp⟩

/-- A tick either goes back where it came from, or stores into current and resumes another thread. -/
theorem tick_cases (m : Machine) :
    (stored m .tick = none ∧ m.tick = { m.push m.point with esp := m.esp }) ∨
    ∃ next, nextReady m.table = some next ∧ next ≠ m.table.current ∧ stored m .tick = some m.table.current ∧
      m.tick = { m.push m.point with
        table := ((m.table.setState m.table.current .ready).handOver next).setEsp m.table.current (m.push m.point).esp
        esp := (m.table.threads next).esp }.resume := by
  have store : stored m .tick =
      if (switchAway m.esp m.table).current = m.table.current then none else some m.table.current := rfl
  have shape : m.tick =
      if (switchAway (m.push m.point).esp m.table).current = m.table.current then { m.push m.point with esp := m.esp }
      else { m.push m.point with
        table := switchAway (m.push m.point).esp m.table
        esp := (m.table.threads (switchAway (m.push m.point).esp m.table).current).esp }.resume := rfl
  cases found : nextReady m.table with
  | none =>
    have stays (esp : StackPointer) : switchAway esp m.table = m.table := by simp [switchAway, found]
    rw [store, shape, stays, stays, if_pos rfl, if_pos rfl]
    exact .inl ⟨rfl, rfl⟩
  | some next =>
    by_cases same : next = m.table.current
    · have stays (esp : StackPointer) : switchAway esp m.table = m.table := by simp [switchAway, found, same]
      rw [store, shape, stays, stays, if_pos rfl, if_pos rfl]
      exact .inl ⟨rfl, rfl⟩
    · have goes (esp : StackPointer) : switchAway esp m.table =
          ((m.table.setState m.table.current .ready).handOver next).setEsp m.table.current esp := by
        simp [switchAway, found, same]
      rw [store, shape, goes, goes]
      simp only [setEsp_current, handOver_current]
      exact .inr ⟨next, rfl, same, if_neg same, if_neg same⟩

theorem tick_inv {m : Machine} (invariant : Inv m) (outside : m.point.inWindow = false) : Inv m.tick := by
  have home := invariant.home outside
  have top : m.point = .restoring → 0 < m.esp.height := by
    intro point
    have stance := invariant.stance
    unfold Stance at stance
    rw [point] at stance
    exact stance.2
  rcases tick_cases m with ⟨-, stays⟩ | ⟨next, found, other, -, goes⟩
  · rw [stays]
    refine ⟨invariant.inside, invariant.aboard, fun k bound away alive => ?_, ?_, ?_⟩
    · exact (invariant.shelved k bound away alive).congr rfl (Function.update_of_ne away _ _)
    · simp only [Machine.push, Function.update_self]
      -- the context popped was above all others
      exact invariant.below.above _
    · have stance := invariant.stance
      unfold Stance at stance ⊢
      cases point : m.point with
      | user | halted | restoring => rw [point] at stance; simpa [Machine.push, point] using stance
      | switching _ _ | storing _ _ | loading _ => rw [point] at outside; cases outside
  · obtain ⟨inside, able⟩ := nextReady_some found (Nat.zero_lt_of_lt invariant.inside)
    have away : next ≠ m.esp.stack := fun here => other (here.trans home)
    obtain ⟨own, tall, grounded⟩ := invariant.shelved next inside away able
    rw [goes]
    refine inv_resume inside own tall ?_ fun k bound gone alive => ?_
    · simp only [own, Machine.push, Function.update_of_ne away]
      exact grounded
    · have there : k ≠ next := by simpa [own] using gone
      by_cases here : k = m.table.current
      · -- the thread that was interrupted, with its point on top
        subst here
        have grown := invariant.below.push outside top
        refine ⟨?_, ?_, ?_⟩
        · simp only [setEsp_esp, ↓reduceIte]
          exact home
        · simp [Machine.push]
        · simp only [setEsp_esp, ↓reduceIte, Machine.push, ← home, Function.update_self]
          exact grown
      · have off : k ≠ m.esp.stack := fun on => here (on.trans home)
        refine (invariant.shelved k bound off (by simpa [there, here] using alive)).congr (by simp [here]) ?_
        exact Function.update_of_ne off _ _

/-! ### Whole runs -/

theorem Step.inv {m m' : Machine} {e : Event} (invariant : Inv m) (calm : ¬ WindowTick m e) (taken : Step m e m') :
    Inv m' := by
  cases taken with
  | yield point => exact yieldCall_inv invariant point
  | exit point => exact exitCall_inv invariant point
  | spawn => exact spawnCall_inv invariant _ _
  | advance moved => exact advance_inv invariant moved
  | tick =>
    refine tick_inv invariant ?_
    by_contra within
    exact calm ⟨rfl, by simpa using within⟩

theorem storesOwn_iff {m m' : Machine} {e : Event} (invariant : Inv m) (taken : Step m e m') :
    StoresOwn m e ↔ ¬ WindowTick m e := by
  constructor
  · rintro own ⟨rfl, within⟩
    have crossing := invariant.crossing within
    -- in the window the thread given up is ready, so the tick has somewhere to go
    obtain ⟨next, found, other⟩ := nextReady_other invariant.inside invariant.aboard crossing.away
      (by rw [crossing.prev]; decide)
    rcases tick_cases m with ⟨none_stored, -⟩ | ⟨-, -, -, store, -⟩
    · have : (switchAway m.esp m.table).current = next := by simp [switchAway, found, other]
      simp [stored, schedTick, this, other] at none_stored
    · exact crossing.away (own _ store)
  · intro calm k store
    cases taken with
    | yield _ | exit _ | spawn => cases store
    | advance moved =>
      have stance := invariant.stance
      unfold Stance at stance
      cases point : m.point with
      | storing prev newEsp =>
        rw [point] at stance
        simp only [stored, point, Option.some.injEq] at store
        exact stance.1.trans store
      | user | halted | restoring | switching _ _ | loading _ => simp [stored, point] at store
    | tick =>
      have outside : m.point.inWindow = false := by
        by_contra within
        exact calm ⟨rfl, by simpa using within⟩
      rcases tick_cases m with ⟨none_stored, -⟩ | ⟨-, -, -, stores, -⟩
      · rw [none_stored] at store
        cases store
      · rw [stores] at store
        cases store
        exact invariant.home outside

/-- Every store of sched_switch in a run goes into the thread whose stack the CPU is on, and every
saved pointer stays in its own stack, exactly when no tick falls between the sti of sched_yield
and the load of the new stack pointer. -/
theorem run_stores_own_iff {s : Table StackPointer} {slots : Nat → Nat → Point} {moves : List (Move Machine Event)}
    {m : Machine} (run : Run Step (boot s slots) moves m) :
    (∀ v ∈ moves, StoresOwn v.before v.event ∧ Owned v.after) ↔ ∀ v ∈ moves, ¬ WindowTick v.before v.event := by
  refine run.good_iff Inv (fun m e => ¬ WindowTick m e) (fun m e m' => StoresOwn m e ∧ Owned m')
    (fun before calm taken => taken.inv before calm) (fun before taken => ?_) (inv_boot s slots)
  constructor
  · exact fun good => (storesOwn_iff before taken).mp good.1
  · exact fun calm => ⟨(storesOwn_iff before taken).mpr calm, (taken.inv before calm).owned⟩

/-- The kernel image: every saved pointer is still zero. -/
def blank : Table StackPointer := ⟨fun _ => ⟨⟨0, 0⟩, 0, 0, .ready, 0⟩, 0, 0⟩

theorem run_stores_own_iff_one_spawn :
    (∀ v ∈ [Move.mk (boot blank fun _ _ => .user) (Event.spawn 0 4096)
        ((boot blank fun _ _ => .user).spawnCall 0 4096)], StoresOwn v.before v.event ∧ Owned v.after) ↔
      ∀ v ∈ [Move.mk (boot blank fun _ _ => .user) (Event.spawn 0 4096)
        ((boot blank fun _ _ => .user).spawnCall 0 4096)], ¬ WindowTick v.before v.event :=
  run_stores_own_iff (.single .spawn)

/-- One thread is spawned, boot yields to it, and a tick falls right after sti: boot's stack
pointer goes into the new thread's field. -/
theorem window_tick_stores_foreign : ∃ moves m, Run Step (boot blank fun _ _ => .user) moves m ∧
    moves.map Move.event = [.spawn 0 4096, .yield, .tick] ∧ (m.table.threads 1).esp = ⟨0, 1⟩ ∧
    ¬ ∀ v ∈ moves, StoresOwn v.before v.event ∧ Owned v.after := by
  let first := (boot blank fun _ _ => .user).spawnCall 0 4096
  refine ⟨_, _, .cons .spawn (.cons (.yield (m := first) rfl) (.single .tick)), rfl, by decide, fun good => ?_⟩
  have own := (good _ (.tail _ (.tail _ (.head _)))).1
  have : first.yieldCall.esp.stack = 1 := own 1 (by decide)
  exact absurd this (by decide)

end ChrisOS.Kernel.Sched.Interleaving
