import ChrisOS.Kernel.Sched.Runs
import Mathlib.Data.List.Perm.Subperm
import Mathlib.Data.List.Range

/-! How long a ready thread waits.

The search of next_ready goes around the table, and a new thread enters at its end.
Seen from a thread that waits, the order in which the others can come before it is
therefore the same whatever the count is.
-/

set_option autoImplicit false

namespace ChrisOS.Kernel.Sched
open ChrisOS.Lib

/-- The place of thread k in the order that ends with thread j. -/
def ahead (j k : Nat) : Nat := if k ≤ j then k + maxThreads else k

/-- The steps that look for another thread to run. -/
def Schedules : Event → Prop
  | .yield _ | .tick _ | .exit => True
  | .spawn _ | .kmalloc _ | .kfree _ => False

/-- The thread that a step switches to. -/
def switchedTo (m : Move System Event) : Option Nat :=
  if m.after.table.current = m.before.table.current then none else some m.after.table.current

/-- Thread j is ready before and after every step. -/
def Waits (j : Nat) (moves : List (Move System Event)) : Prop :=
  ∀ m ∈ moves, (m.before.table.threads j).state = .ready ∧ (m.after.table.threads j).state = .ready

/-- What every state of a run has, also where a dead thread was revived. -/
structure Poised (s : Table Nat) : Prop where
  inside : s.current < s.count
  few : s.count ≤ maxThreads
  busy : (s.threads s.current).state ≠ .ready
  unused : ∀ i, s.count ≤ i → (s.threads i).state = .dead

theorem Poised.below {s : Table Nat} (poised : Poised s) {j : Nat} (ready : (s.threads j).state = .ready) :
    j < s.count ∧ j ≠ s.current := by
  constructor
  · by_contra beyond
    have := poised.unused j (Nat.le_of_not_lt beyond)
    rw [ready] at this
    cases this
  · rintro rfl
    exact poised.busy ready

theorem poised_boot (s : Table Nat) : Poised (schedInit s) := by
  refine ⟨Nat.zero_lt_one, Nat.one_le_two_pow (n := 4), ?_, fun i above => ?_⟩
  · show ThreadState.running ≠ .ready
    decide
  · have : i ≠ 0 := Nat.ne_of_gt above
    simp [schedInit, this]

/-! ### The search -/

/-- With thread j able to run, the search finds a thread after current and up to j. -/
theorem nextReady_ahead {s : Table Nat} (inside : s.current < s.count) (few : s.count ≤ maxThreads) {j : Nat}
    (bound : j < s.count) (other : j ≠ s.current) (able : (s.threads j).state ≠ .dead) :
    ∃ next, nextReady s = some next ∧ next < s.count ∧ ahead j s.current < ahead j next := by
  cases found : nextReady s with
  | none => exact absurd (nextReady_none found inside j bound) able
  | some next =>
    obtain ⟨k, lower, -, here, before⟩ := nextReadyLoop_first found
    obtain ⟨i, least, most, reach⟩ := exists_offset inside bound
    have first : k ≤ i := by
      by_contra later
      have := before i least (Nat.lt_of_not_le later)
      rw [reach] at this
      exact able this
    refine ⟨next, rfl, (nextReady_some found (Nat.zero_lt_of_lt inside)).1, ?_⟩
    have turn (n : Nat) (once : n < 2 * s.count) : n % s.count = if n < s.count then n else n - s.count := by
      split
      · rename_i low
        exact Nat.mod_eq_of_lt low
      · rw [Nat.mod_eq_sub_mod (by omega), Nat.mod_eq_of_lt (by omega)]
    rw [turn _ (by omega)] at reach here
    rw [ahead, ahead]
    have : maxThreads = 16 := rfl
    -- going up to the count and going on at 0 both move ahead, and neither passes j
    split at here <;> split at reach <;> split <;> split <;> omega

/-! ### One step -/

theorem Poised.of_table {s t : Table Nat} (poised : Poised s) (current : t.current = s.current)
    (count : t.count = s.count) (state : ∀ i, (t.threads i).state = (s.threads i).state) : Poised t := by
  refine ⟨by rw [current, count]; exact poised.inside, by rw [count]; exact poised.few, ?_, fun i above => ?_⟩
  · rw [current, state]
    exact poised.busy
  · rw [state]
    exact poised.unused i (count ▸ above)

/-- The CPU goes over to another thread of the table, whatever becomes of the one it leaves. -/
theorem Poised.handOver {s t : Table Nat} (poised : Poised s) {next : Nat} (left : ThreadState)
    (inside : next < s.count) (current : t.current = next) (count : t.count = s.count)
    (state : ∀ i, (t.threads i).state =
      if i = next then .running else if i = s.current then left else (s.threads i).state) : Poised t := by
  refine ⟨by rw [current, count]; exact inside, by rw [count]; exact poised.few, ?_, fun i above => ?_⟩
  · rw [current, state, if_pos rfl]
    decide
  · rw [count] at above
    rw [state, if_neg (Nat.ne_of_gt (Nat.lt_of_lt_of_le inside above)),
      if_neg (Nat.ne_of_gt (Nat.lt_of_lt_of_le poised.inside above))]
    exact poised.unused i above

theorem Poised.switchAway {s : Table Nat} (poised : Poised s) (esp : Nat) : Poised (switchAway esp s) := by
  rcases switchAway_cases esp s with stays | ⟨next, found, -, goes⟩
  · rw [stays]
    exact poised
  · have inside := (nextReady_some found (Nat.zero_lt_of_lt poised.inside)).1
    rw [goes]
    exact poised.handOver .ready inside rfl rfl fun i => by simp

theorem Poised.bury {s : Table Nat} (poised : Poised s) : Poised (bury s).1 := by
  rcases bury_cases s with ⟨-, same⟩ | ⟨next, found, same⟩
  · rw [same]
    refine ⟨poised.inside, poised.few, by simp, fun i above => ?_⟩
    rw [setState_state]
    split
    · rfl
    · exact poised.unused i above
  · have inside := (nextReady_some found (Nat.zero_lt_of_lt poised.inside)).1
    rw [same]
    exact poised.handOver .dead inside rfl rfl fun i => by simp

/-- A yield or a tick goes to a thread that is nearer to the one that waits. -/
theorem Poised.switchAway_ahead {s : Table Nat} (poised : Poised s) (esp : Nat) {j : Nat}
    (ready : (s.threads j).state = .ready) :
    ahead j s.current < ahead j (Sched.switchAway esp s).current := by
  obtain ⟨bound, other⟩ := poised.below ready
  obtain ⟨next, found, -, nearer⟩ := nextReady_ahead poised.inside poised.few bound other (by rw [ready]; decide)
  have away : next ≠ s.current := by
    rintro rfl
    exact Nat.lt_irrefl _ nearer
  simpa [Sched.switchAway, found, away] using nearer

/-- So does an exit. -/
theorem Poised.bury_ahead {s : Table Nat} (poised : Poised s) {j : Nat} (ready : (s.threads j).state = .ready) :
    ahead j s.current < ahead j (Sched.bury s).1.current := by
  obtain ⟨bound, other⟩ := poised.below ready
  have able : ((s.setState s.current .dead).threads j).state ≠ .dead := by
    rw [setState_state, if_neg other, ready]
    decide
  obtain ⟨next, found, -, nearer⟩ := nextReady_ahead (s := s.setState s.current .dead) poised.inside poised.few bound
    other able
  simpa [Sched.bury, found] using nearer

/-- Giving the stack back touches nothing that the search looks at. -/
theorem freeStack_table {s t : Table Nat} {h h' : Mm.Heap} {budget : Nat}
    (freed : freeStack s h budget = some (t, h')) :
    t.current = s.current ∧ t.count = s.count ∧ ∀ i, (t.threads i).state = (s.threads i).state := by
  unfold freeStack at freed
  dsimp only at freed
  split at freed
  · cases freed
    exact ⟨rfl, rfl, fun i => rfl⟩
  · simp only [Option.map_eq_some_iff, Prod.mk.injEq] at freed
    obtain ⟨-, -, rfl, -⟩ := freed
    exact ⟨rfl, rfl, fun i => by simp⟩

/-- What an exit that returned has buried: a table with the threads in the states they had. -/
theorem schedExit_buries {s u : Table Nat} {h h' : Mm.Heap} {idles : Bool}
    (returned : Returns (schedExit s h) (u, h', idles)) : ∃ t, (bury t).1 = u ∧
      t.current = s.current ∧ t.count = s.count ∧ ∀ i, (t.threads i).state = (s.threads i).state := by
  obtain ⟨n, exited⟩ := returned
  have exited := exited n (Nat.le_refl n)
  rw [schedExit, Option.map_eq_some_iff] at exited
  obtain ⟨⟨t, h⟩, freed, same⟩ := exited
  cases same
  exact ⟨t, rfl, freeStack_table freed⟩

theorem Poised.spawn {trampoline entry : Nat} {s t : Table Nat} {h h' : Mm.Heap} {r : Option Nat}
    (poised : Poised s) (returned : Returns (schedSpawn trampoline entry s h) (t, h', r)) : Poised t := by
  rcases schedSpawn_table returned with ⟨-, rfl | rfl⟩ | ⟨room, -, current, count, state⟩
  · exact poised
  · exact poised.of_table rfl rfl fun i => by simp
  · have inside := poised.inside
    refine ⟨by omega, by omega, ?_, fun i above => ?_⟩
    · rw [current, state, if_neg (Nat.ne_of_lt inside)]
      exact poised.busy
    · rw [state, if_neg (by omega)]
      exact poised.unused i (by omega)

/-- What one step does for a thread that waits. -/
theorem Step.waiting {trampoline : Nat} {y y' : System} {e : Event} (poised : Poised y.table)
    (taken : Step trampoline y e y') : Poised y'.table ∧ ∀ j, (y.table.threads j).state = .ready →
      (Schedules e → ahead j y.table.current < ahead j y'.table.current) ∧
      (¬ Schedules e → y'.table.current = y.table.current) := by
  cases taken with
  | spawn returned => exact ⟨poised.spawn returned, fun j _ => ⟨False.elim, fun _ => schedSpawn_current returned⟩⟩
  | @yield esp _ =>
    exact ⟨poised.switchAway esp, fun j ready => ⟨fun _ => poised.switchAway_ahead esp ready, absurd trivial⟩⟩
  | @tick esp =>
    exact ⟨poised.switchAway esp, fun j ready => ⟨fun _ => poised.switchAway_ahead esp ready, absurd trivial⟩⟩
  | exit _ returned =>
    obtain ⟨t, rfl, current, count, state⟩ := schedExit_buries returned
    have between := poised.of_table current count state
    refine ⟨between.bury, fun j ready => ⟨fun _ => ?_, absurd trivial⟩⟩
    rw [← current]
    exact between.bury_ahead (by rw [state, ready])
  | kmalloc => exact ⟨poised, fun j _ => ⟨False.elim, fun _ => rfl⟩⟩
  | kfree => exact ⟨poised, fun j _ => ⟨False.elim, fun _ => rfl⟩⟩

/-! ### A stretch of a run -/

/-- Along a stretch in which thread j waits, every switch is nearer to j than those before it. -/
theorem waiting_run {trampoline : Nat} {y u : System} {moves : List (Move System Event)}
    (run : Run (Step trampoline) y moves u) (poised : Poised y.table) {j : Nat} (waits : Waits j moves) :
    (moves.filterMap switchedTo).Pairwise (fun i k => ahead j i < ahead j k) ∧
      (∀ i ∈ moves.filterMap switchedTo, ahead j y.table.current < ahead j i ∧ i < maxThreads ∧ i ≠ j) ∧
      ∀ m ∈ moves, Schedules m.event → (switchedTo m).isSome := by
  induction run with
  | nil => simp
  | @cons y y' u e moves taken rest ih =>
    obtain ⟨⟨ready, still⟩, waits⟩ := List.forall_mem_cons.mp waits
    obtain ⟨kept, turns⟩ := taken.waiting poised
    obtain ⟨moved, stayed⟩ := turns j ready
    obtain ⟨ordered, nearer, switched⟩ := ih kept waits
    by_cases schedules : Schedules e
    · have closer := moved schedules
      have away : y'.table.current ≠ y.table.current := by
        intro same
        rw [same] at closer
        exact Nat.lt_irrefl _ closer
      have here : switchedTo ⟨y, e, y'⟩ = some y'.table.current := if_neg away
      rw [List.filterMap_cons_some here]
      refine ⟨List.pairwise_cons.mpr ⟨fun i member => (nearer i member).1, ordered⟩,
        List.forall_mem_cons.mpr ⟨⟨closer, ?_, ?_⟩, fun i member => ?_⟩,
        List.forall_mem_cons.mpr ⟨fun _ => by rw [here]; rfl, switched⟩⟩
      · exact Nat.lt_of_lt_of_le kept.inside kept.few
      · exact (kept.below still).2.symm
      · obtain ⟨later, inside, other⟩ := nearer i member
        exact ⟨Nat.lt_trans closer later, inside, other⟩
    · have same := stayed schedules
      have here : switchedTo ⟨y, e, y'⟩ = none := if_pos same
      rw [List.filterMap_cons_none here]
      rw [same] at nearer
      exact ⟨ordered, nearer, List.forall_mem_cons.mpr ⟨fun is => absurd is schedules, switched⟩⟩

theorem poised_run {trampoline : Nat} {y u : System} {moves : List (Move System Event)}
    (run : Run (Step trampoline) y moves u) (poised : Poised y.table) : Poised u.table :=
  (run.invariant (fun y => Poised y.table) (fun before taken => (Step.waiting before taken).1) poised).1

/-- A thread that waits is overtaken by no thread twice, and nobody scheduling fails to switch meanwhile. -/
theorem no_overtaking (trampoline : Nat) (s : Table Nat) (h : Mm.Heap) (live : List Nat)
    {moves stretch : List (Move System Event)} {y : System} (run : Run (Step trampoline) (boot s h live) moves y)
    (inside : stretch <:+: moves) {j : Nat} (waits : Waits j stretch) :
    (stretch.filterMap switchedTo).Nodup ∧ (∀ m ∈ stretch, Schedules m.event → (switchedTo m).isSome) ∧
      (stretch.filterMap switchedTo).length ≤ 15 := by
  obtain ⟨before, t, v, first, part⟩ := run.stretch inside
  obtain ⟨ordered, nearer, switched⟩ := waiting_run part (poised_run first (poised_boot s)) waits
  have distinct : (stretch.filterMap switchedTo).Nodup := ordered.imp fun less same => by
    rw [same] at less
    exact Nat.lt_irrefl _ less
  refine ⟨distinct, switched, ?_⟩
  cases held : stretch with
  | nil => exact Nat.zero_le 15
  | cons m rest =>
    -- j is one of the sixteen and is not switched to
    subst held
    obtain ⟨low, other⟩ := (poised_run first (poised_boot s)).below (by
      cases part with
      | cons => exact (waits _ (.head _)).1)
    have all : j :: ((m :: rest).filterMap switchedTo) ⊆ List.range maxThreads := by
      refine List.cons_subset.mpr ⟨List.mem_range.mpr ?_, fun i member => List.mem_range.mpr (nearer i member).2.1⟩
      exact Nat.lt_of_lt_of_le low (poised_run first (poised_boot s)).few
    have fresh : (j :: ((m :: rest).filterMap switchedTo)).Nodup :=
      List.nodup_cons.mpr ⟨fun member => (nearer j member).2.2 rfl, distinct⟩
    have := (List.subperm_of_subset fresh all).length_le
    rw [List.length_cons, List.length_range] at this
    exact Nat.le_of_succ_le_succ this

/-- Boot spawns two threads and yields: the second one waits while the first is switched to. -/
theorem no_overtaking_two_spawned : ∃ moves stretch y, Run (Step 0) (boot blankTable blankHeap []) moves y ∧
    moves.map Move.event = [.spawn 0, .spawn 0, .yield 0] ∧ stretch <:+: moves ∧ Waits 2 stretch ∧
    stretch.filterMap switchedTo = [1] ∧ (stretch.filterMap switchedTo).Nodup ∧
    (∀ m ∈ stretch, Schedules m.event → (switchedTo m).isSome) ∧ (stretch.filterMap switchedTo).length ≤ 15 := by
  -- the heap's only block is split once for each stack
  have first : Returns (schedSpawn 0 0 (schedInit blankTable) blankHeap)
      (spawnOn 0 0 (schedInit blankTable) (Mm.take blankHeap Mm.heapStart stackSize) (Mm.heapStart + Mm.blockHdr)) :=
    .of_succ (.of_all fun budget => rfl)
  obtain ⟨moves, y, z, spawned, events, yielded, ready, still, next⟩ : ∃ moves y z,
      Run (Step 0) (boot blankTable blankHeap []) moves y ∧ moves.map Move.event = [.spawn 0, .spawn 0] ∧
      Step 0 y (.yield 0) z ∧ (y.table.threads 2).state = .ready ∧ (z.table.threads 2).state = .ready ∧
      switchedTo ⟨y, .yield 0, z⟩ = some 1 :=
    ⟨_, _, _, .cons (.spawn first) (.single (.spawn (.of_succ (.of_succ (.of_all fun budget => rfl))))), rfl,
      .yield rfl, rfl, rfl, rfl⟩
  have run := spawned.append (.single yielded)
  have part : [Move.mk y (.yield 0) z] <:+: moves ++ [Move.mk y (.yield 0) z] := (List.suffix_append _ _).isInfix
  have waits : Waits 2 [Move.mk y (.yield 0) z] := List.forall_mem_singleton.mpr ⟨ready, still⟩
  exact ⟨_, _, _, run, by rw [List.map_append, events]; rfl, part, waits,
    by rw [List.filterMap_cons_some next, List.filterMap_nil], no_overtaking 0 blankTable blankHeap [] run part waits⟩

end ChrisOS.Kernel.Sched
