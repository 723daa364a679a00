import ChrisOS.Kernel.Sched.RoundRobin
import ChrisOS.Kernel.Mm.BlockList

/-! Slots of the thread table over a run.

Each spawn takes the slot behind the last one. An exit leaves its slot dead and
gives back the stack, but no later spawn looks at the slot again.
-/

set_option autoImplicit false

namespace ChrisOS.Kernel.Sched
open ChrisOS.Lib ChrisOS.Lib.Tiling

/-- The number of threads in the table that are not dead. -/
def alive (s : Table Nat) : Nat := (List.range maxThreads).countP fun i => (s.threads i).state ≠ .dead

/-- kmalloc has a block for one more stack. -/
def Supplies (h : Mm.Heap) : Prop := ∃ h' base, Returns (Mm.kmalloc h stackSize) (h', base) ∧ base ≠ 0

/-- sched_spawn returns an id. -/
def Spawns (trampoline entry : Nat) (y : System) : Prop :=
  ∃ t h id, Returns (schedSpawn trampoline entry y.table y.heap) (t, h, some id)

/-- The move is a spawn that obtained a stack. -/
def created (m : Move System Event) : Bool :=
  match m.event with
  | .spawn _ => m.after.live.length ≠ m.before.live.length
  | _ => false

/-! ### What a step does to count -/

theorem switchAway_count (esp : Nat) (s : Table Nat) : (switchAway esp s).count = s.count := by
  rcases switchAway_cases esp s with stays | ⟨next, -, -, goes⟩
  · rw [stays]
  · rw [goes]
    rfl

theorem bury_count (s : Table Nat) : (bury s).1.count = s.count := by
  rcases bury_cases s with ⟨-, same⟩ | ⟨next, -, same⟩
  · rw [same]
    rfl
  · rw [same]
    rfl

theorem schedSpawn_count {trampoline entry : Nat} {s t : Table Nat} {h h' : Mm.Heap} {r : Option Nat}
    (returned : Returns (schedSpawn trampoline entry s h) (t, h', r)) : t.count = s.count + (obtained t r).length := by
  rcases schedSpawn_table returned with ⟨rfl, rfl | rfl⟩ | ⟨-, rfl, -, count, -⟩
  · rfl
  · rfl
  · exact count

/-- Only a spawn that obtains a stack moves count, and nothing moves it back. -/
theorem Step.count {trampoline : Nat} {y y' : System} {e : Event} (taken : Step trampoline y e y') :
    y'.table.count = y.table.count + if created ⟨y, e, y'⟩ then 1 else 0 := by
  cases taken with
  | @spawn _ t h r returned =>
    have counted := schedSpawn_count returned
    dsimp only
    rw [counted]
    cases r with
    | none => simp [created, obtained]
    | some id => simp [created, obtained]
  | @yield esp _ => exact switchAway_count esp y.table
  | @tick esp => exact switchAway_count esp y.table
  | exit _ returned =>
    obtain ⟨t, rfl, -, count, -⟩ := schedExit_buries returned
    exact (bury_count t).trans count
  | kmalloc => rfl
  | kfree => rfl

/-- count tells how many threads were ever created, not how many are left. -/
theorem run_count {trampoline : Nat} {y u : System} {moves : List (Move System Event)}
    (run : Run (Step trampoline) y moves u) : u.table.count = y.table.count + moves.countP created := by
  induction run with
  | nil => rfl
  | cons taken _ ih =>
    rw [ih, taken.count, List.countP_cons]
    omega

/-! ### When a spawn succeeds -/

theorem spawns_iff {trampoline entry : Nat} {y : System} (supplies : Supplies y.heap) :
    Spawns trampoline entry y ↔ y.table.count < maxThreads := by
  constructor
  · rintro ⟨t, h, id, returned⟩
    by_contra full
    have same : Returns (schedSpawn trampoline entry y.table y.heap) (y.table, y.heap, none) :=
      .of_all fun budget => if_pos (Nat.le_of_not_lt full)
    cases returned.unique same
  · intro room
    obtain ⟨h, base, taken, given⟩ := supplies
    rcases spawnOn_cases trampoline entry y.table h base with ⟨null, -⟩ | ⟨-, t, done, -⟩
    · exact absurd null given
    · have spawned := schedSpawn_asks trampoline entry room taken
      rw [done] at spawned
      exact ⟨_, _, _, spawned⟩

/-- A spawn with a thread missing from the table and a stack in the heap succeeds exactly as
long as the run has created fewer threads than there are slots beside that of boot. -/
theorem spawns_iff_few_created (trampoline entry : Nat) {s : Table Nat} {h : Mm.Heap} {live : List Nat}
    {moves : List (Move System Event)} {y : System} (run : Run (Step trampoline) (boot s h live) moves y) :
    (alive y.table < maxThreads → Supplies y.heap → Spawns trampoline entry y) ↔
      moves.countP created < maxThreads - 1 ∨ maxThreads ≤ alive y.table ∨ ¬Supplies y.heap := by
  have counted := run_count run
  have start : (boot s h live).table.count = 1 := rfl
  have most : maxThreads = 16 := rfl
  have few : y.table.count < maxThreads ↔ moves.countP created < maxThreads - 1 := by omega
  rw [← few]
  constructor
  · intro spawns
    by_cases vacant : alive y.table < maxThreads
    · by_cases supplies : Supplies y.heap
      · exact .inl ((spawns_iff supplies).mp (spawns vacant supplies))
      · exact .inr (.inr supplies)
    · exact .inr (.inl (Nat.le_of_not_lt vacant))
  · rintro (room | full | empty) vacant supplies
    · exact (spawns_iff supplies).mpr room
    · omega
    · exact absurd supplies empty

theorem supplies_of_empty {h : Mm.Heap} {cs : List Cell} (tracks : Mm.Tracks h [] cs) : Supplies h := by
  rcases tracks.kmalloc stackSize with ⟨-, missed⟩ | ⟨h', p, ds, -, taken, -⟩
  · have none := missed (by decide)
    rw [tracks.cells_of_nil] at none
    exact absurd none (by decide)
  · exact ⟨h', _, taken, Mm.payload_ne_zero p⟩

theorem spawns_iff_few_created_at_boot : Spawns 0 0 (boot blankTable blankHeap []) := by
  have vacant : alive (boot blankTable blankHeap []).table < maxThreads := by decide
  have supplies : Supplies blankHeap := supplies_of_empty (Mm.tracks_mmInit _)
  exact (spawns_iff_few_created 0 0 (.nil _)).mpr (.inl (by decide)) vacant supplies

/-! ### Programs that come and go -/

/-- Boot runs alone, after `n` others. -/
structure Alone (n : Nat) (y : System) : Prop where
  invariant : Inv y
  empty : y.live = []
  current : y.table.current = 0
  count : y.table.count = n + 1
  awake : y.halted 0 = false
  gone : ∀ i, i ≠ 0 → (y.table.threads i).state = .dead

theorem alone_boot : Alone 0 (boot blankTable blankHeap []) := by
  refine ⟨inv_boot _ (.init _), rfl, rfl, rfl, rfl, fun i other => ?_⟩
  simp [boot, schedInit, other]

theorem Alone.alive {n : Nat} {y : System} (alone : Alone n y) : alive y.table < maxThreads := by
  have one : (List.range maxThreads).countP (fun i => (y.table.threads i).state ≠ .dead) ≤
      (List.range maxThreads).countP fun i => i = 0 := by
    apply List.countP_mono_left
    intro i _ able
    by_contra other
    simp [alone.gone i (by simpa using other)] at able
  have : (List.range maxThreads).countP (fun i => i = 0) = 1 := by decide
  have most : maxThreads = 16 := rfl
  unfold Sched.alive
  omega

theorem Alone.supplies {n : Nat} {y : System} (alone : Alone n y) : Supplies y.heap := by
  obtain ⟨cs, stacked⟩ := alone.invariant.stacked
  have tracks := stacked.tracks
  rw [alone.empty] at tracks
  exact supplies_of_empty tracks

/-- Boot has spawned a thread, which waits for the CPU. -/
structure Host (n : Nat) (y : System) : Prop where
  invariant : Inv y
  stack : y.live = [(y.table.threads (n + 1)).stackBase]
  current : y.table.current = 0
  count : y.table.count = n + 2
  awake : y.halted 0 = false
  ready : (y.table.threads (n + 1)).state = .ready
  gone : ∀ i, i ≠ 0 → i ≠ n + 1 → (y.table.threads i).state = .dead

/-- The thread has the CPU, and boot waits. -/
structure Guest (n : Nat) (y : System) : Prop where
  invariant : Inv y
  stack : y.live = [(y.table.threads (n + 1)).stackBase]
  current : y.table.current = n + 1
  count : y.table.count = n + 2
  awake : y.halted 0 = false
  waits : (y.table.threads 0).state = .ready
  running : (y.table.threads (n + 1)).state = .running
  gone : ∀ i, i ≠ 0 → i ≠ n + 1 → (y.table.threads i).state = .dead

theorem calm {y : System} {e : Event} (other : ∀ esp, e ≠ .tick esp) : ¬IdleTick y e :=
  fun idle => idle.1.elim other

theorem Alone.spawns {n : Nat} {y : System} (alone : Alone n y) (room : n + 1 < maxThreads) :
    ∃ y', Step 0 y (.spawn 0) y' ∧ Host n y' := by
  have count := alone.count
  obtain ⟨h, base, taken, given⟩ := alone.supplies
  rcases spawnOn_cases 0 0 y.table h base with ⟨null, -⟩ | ⟨-, t, done, here, more, state, -⟩
  · exact absurd null given
  have spawned := schedSpawn_asks 0 0 (show y.table.count < maxThreads by omega) taken
  rw [done, count] at spawned
  rw [count] at more state
  have step : Step 0 y (.spawn 0) _ := .spawn spawned
  have invariant := (step.inv alone.invariant (calm (by simp))).1
  refine ⟨_, step, invariant, ?_, here.trans alone.current, more, alone.awake, ?_, fun i other young => ?_⟩
  · simp [obtained, alone.empty]
  · simp [state]
  · simp only [state, if_neg young]
    exact alone.gone i other

theorem Host.yields {n : Nat} {y : System} (host : Host n y) : ∃ y', Step 0 y (.yield 0) y' ∧ Guest n y' := by
  have current := host.current
  have count := host.count
  have able : (y.table.threads (n + 1)).state ≠ .dead := by
    rw [host.ready]
    decide
  obtain ⟨next, found, away⟩ := nextReady_other (show y.table.current < y.table.count by omega)
    (show n + 1 < y.table.count by omega) (by omega) able
  -- no third thread can run
  have here : next = n + 1 := by
    by_contra other
    exact (nextReady_some found (by omega)).2 (host.gone next (current ▸ away) other)
  subst here
  have goes : schedYield 0 y.table = ((y.table.setState 0 .ready).handOver (n + 1)).setEsp 0 0 := by
    simp [schedYield, switchAway, found, current]
  have step : Step 0 y (.yield 0) _ := .yield (current ▸ host.awake)
  have invariant := (step.inv host.invariant (calm (by simp))).1
  rw [goes] at step invariant
  refine ⟨_, step, invariant, ?_, rfl, count, host.awake, ?_, ?_, fun i other young => ?_⟩
  · simp [host.stack]
  · simp
  · simp
  · simp [other, young, host.gone i other young]

theorem Guest.exits {n : Nat} {y : System} (guest : Guest n y) : ∃ y', Step 0 y .exit y' ∧ Alone (n + 1) y' := by
  have current := guest.current
  obtain ⟨cs, stacked⟩ := guest.invariant.stacked
  obtain ⟨t, h, ds, freed, here, count, state, -⟩ := freeStack_returns stacked
  have exited : Returns (schedExit y.table y.heap) ((bury t).1, h, (bury t).2) :=
    freed.map fun r => ((bury r.1).1, r.2, (bury r.1).2)
  have awake : y.halted y.table.current = false := by
    by_contra rests
    have dead := (guest.invariant.seated.halts _ (by simpa using rests)).1
    rw [current, guest.running] at dead
    cases dead
  have step : Step 0 y .exit _ := .exit awake exited
  have invariant := (step.inv guest.invariant (calm (by simp))).1
  have still (i : Nat) : ((t.setState t.current .dead).threads i).state =
      if i = n + 1 then .dead else (y.table.threads i).state := by
    rw [setState_state, here, current, state]
  have size : (t.setState t.current .dead).count = n + 2 := count.trans guest.count
  have inside : (t.setState t.current .dead).current < (t.setState t.current .dead).count := by
    rw [size, setState_current, here, current]
    omega
  rcases bury_cases t with ⟨missed, -⟩ | ⟨next, found, same⟩
  · have dead := nextReady_none missed inside 0 (by omega)
    rw [still, if_neg (by omega), guest.waits] at dead
    cases dead
  · have able := (nextReady_some found (by omega)).2
    -- boot alone can run
    have zero : next = 0 := by
      by_contra other
      rw [still] at able
      split at able
      · exact able rfl
      · rename_i young
        exact able (guest.gone next other young)
    subst zero
    rw [same] at step invariant
    refine ⟨_, step, invariant, ?_, rfl, size, guest.awake, fun i other => ?_⟩
    · simp [guest.stack, current]
    · simp only [handOver_state, if_neg other, still]
      split
      · rfl
      · rename_i young
        exact guest.gone i other young

/-- Boot spawns a thread, which runs and exits: boot runs alone again. -/
theorem Alone.cycle {n : Nat} {y : System} (alone : Alone n y) (room : n + 1 < maxThreads) :
    ∃ moves y', Run (Step 0) y moves y' ∧ moves.map Move.event = [.spawn 0, .yield 0, .exit] ∧ Alone (n + 1) y' := by
  obtain ⟨y₁, spawned, host⟩ := alone.spawns room
  obtain ⟨y₂, yielded, guest⟩ := host.yields
  obtain ⟨y₃, exited, alone'⟩ := guest.exits
  exact ⟨_, y₃, .cons spawned (.cons yielded (.single exited)), rfl, alone'⟩

/-- As many programs as there are slots beside that of boot come and go, one after the other. -/
theorem programs_come_and_go (n : Nat) (room : n < maxThreads) :
    ∃ moves y, Run (Step 0) (boot blankTable blankHeap []) moves y ∧ Alone n y := by
  induction n with
  | zero => exact ⟨[], _, .nil _, alone_boot⟩
  | succ n ih =>
    obtain ⟨before, y, run, alone⟩ := ih (by omega)
    obtain ⟨moves, y', more, -, alone'⟩ := alone.cycle room
    exact ⟨_, y', run.append more, alone'⟩

/-- Fifteen threads that have come and gone leave no slot for another, though boot alone is alive. -/
theorem slots_lost : ¬∀ moves y, Run (Step 0) (boot blankTable blankHeap []) moves y →
    alive y.table < maxThreads → Supplies y.heap → Spawns 0 0 y := by
  intro all
  obtain ⟨moves, y, run, alone⟩ := programs_come_and_go 15 (by decide)
  have spawns := (spawns_iff alone.supplies).mp (all moves y run alone.alive alone.supplies)
  have count := alone.count
  have most : maxThreads = 16 := rfl
  omega

end ChrisOS.Kernel.Sched
