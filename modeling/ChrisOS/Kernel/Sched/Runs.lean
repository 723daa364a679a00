import ChrisOS.Kernel.Sched
import ChrisOS.Kernel.Mm.Runs
import ChrisOS.Lib.Run

/-! Runs of the scheduler together with the heap its stacks come from.

Steps are atomic. Interrupt handlers spawn and tick at any time, also while the
CPU sits in the hlt loop of sched_exit; a thread that is there takes no step of
its own. The rest of the kernel allocates and frees blocks that are no stacks.
-/

set_option autoImplicit false

namespace ChrisOS.Kernel.Sched
open ChrisOS.Lib ChrisOS.Lib.Tiling

structure System where
  table : Table Nat
  heap : Mm.Heap
  /-- Pointers handed out by kmalloc and not yet freed. -/
  live : List Nat
  /-- Threads whose context is the hlt loop of sched_exit. -/
  halted : Nat → Bool

inductive Event where
  | spawn (entry : Nat)
  | yield (esp : Nat)
  | tick (esp : Nat)
  | exit
  | kmalloc (size : Nat)
  | kfree (ptr : Nat)

/-- The stack that a spawn obtained. -/
def obtained (t : Table Nat) (r : Option Nat) : List Nat := (r.map fun id => (t.threads id).stackBase).toList

inductive Step (trampoline : Nat) : System → Event → System → Prop where
  | spawn {y : System} {entry : Nat} {t : Table Nat} {h : Mm.Heap} {r : Option Nat} :
      Returns (schedSpawn trampoline entry y.table y.heap) (t, h, r) →
      Step trampoline y (.spawn entry) { y with table := t, heap := h, live := obtained t r ++ y.live }
  | yield {y : System} {esp : Nat} : y.halted y.table.current = false →
      Step trampoline y (.yield esp) { y with table := schedYield esp y.table }
  | tick {y : System} {esp : Nat} : Step trampoline y (.tick esp) { y with table := schedTick esp y.table }
  | exit {y : System} {t : Table Nat} {h : Mm.Heap} {idles : Bool} : y.halted y.table.current = false →
      Returns (schedExit y.table y.heap) (t, h, idles) →
      Step trampoline y .exit
        { table := t
          heap := h
          live := y.live.erase (y.table.threads y.table.current).stackBase
          halted := if idles then Function.update y.halted y.table.current true else y.halted }
  | kmalloc {y : System} {size : Nat} {h : Mm.Heap} {ptr : Nat} : Returns (Mm.kmalloc y.heap size) (h, ptr) →
      Step trampoline y (.kmalloc size) { y with heap := h, live := if ptr = 0 then y.live else ptr :: y.live }
  | kfree {y : System} {ptr : Nat} {h : Mm.Heap} : ptr ∈ y.live → (∀ i, (y.table.threads i).stackBase ≠ ptr) →
      Returns (Mm.kfree y.heap ptr) h →
      Step trampoline y (.kfree ptr) { y with heap := h, live := y.live.erase ptr }

/-- sched_init on a booted kernel: boot runs on as thread 0. -/
def boot (s : Table Nat) (h : Mm.Heap) (live : List Nat) : System := ⟨schedInit s, h, live, fun _ => false⟩

/-- A block in use in the heap's list, large enough for a stack, with this payload pointer. -/
def StackBlock (h : Mm.Heap) (ptr : Nat) : Prop :=
  ∃ bs, Returns (Mm.blocks h) bs ∧ ∃ b ∈ bs, b.addr + Mm.blockHdr = ptr ∧ b.free = 0 ∧ stackSize ≤ b.size

structure Sound (y : System) : Prop where
  running : ∀ i, (y.table.threads i).state = .running → i = y.table.current
  inRange : ∀ i, (y.table.threads i).state ≠ .dead → i < y.table.count
  ownsStack : ∀ i, i ≠ 0 → (y.table.threads i).state ≠ .dead → StackBlock y.heap (y.table.threads i).stackBase
  unshared : ∀ i, i ≠ 0 → (y.table.threads i).state ≠ .dead →
    ∀ j, j ≠ i → (y.table.threads j).stackBase ≠ (y.table.threads i).stackBase

/-- No thread that was dead has become ready or running. -/
def KeepsDead (y y' : System) : Prop :=
  ∀ i, i < y.table.count → (y.table.threads i).state = .dead → (y'.table.threads i).state = .dead

/-- Every state of the run is sound and no step of it revives a thread. -/
def Disciplined (start : System) (moves : List (Move System Event)) : Prop :=
  Sound start ∧ ∀ m ∈ moves, Sound m.after ∧ KeepsDead m.before m.after

/-- A timer tick in the hlt loop of sched_exit, with a thread ready to run. -/
def IdleTick (y : System) (e : Event) : Prop :=
  (∃ esp, e = .tick esp) ∧ (y.table.threads y.table.current).state = .dead ∧
    ∃ i, i < y.table.count ∧ (y.table.threads i).state = .ready

/-! ### The invariant -/

/-- The states of the threads, with the CPU on thread `current` or in its hlt loop. -/
structure Seated (s : Table Nat) (halted : Nat → Bool) : Prop where
  inside : s.current < s.count
  stance : (s.threads s.current).state = if halted s.current then .dead else .running
  others : ∀ i, i ≠ s.current → (s.threads i).state ≠ .running
  halts : ∀ i, halted i = true → (s.threads i).state = .dead ∧ i < s.count
  unused : ∀ i, s.count ≤ i → (s.threads i).state = .dead

/-- Every thread that can still run, boot's apart, has a live block of its own. -/
structure Stacked (s : Table Nat) (h : Mm.Heap) (live : List Nat) (cs : List Cell) : Prop where
  tracks : Mm.Tracks h live cs
  bare : ∀ i, (s.threads i).state = .dead → (s.threads i).stackBase = 0
  boot : (s.threads 0).stackBase = 0
  apart : ∀ i j, i ≠ j → (s.threads i).stackBase = (s.threads j).stackBase → (s.threads i).stackBase = 0
  blocks : ∀ i, i ≠ 0 → (s.threads i).state ≠ .dead →
    ∃ p n, Live Mm.blockHdr Mm.heapStart cs p n ∧ (s.threads i).stackBase = p + Mm.blockHdr ∧ stackSize ≤ n

structure Inv (y : System) : Prop where
  seated : Seated y.table y.halted
  stacked : ∃ cs, Stacked y.table y.heap y.live cs

theorem inv_boot (s : Table Nat) {h : Mm.Heap} {live : List Nat} (heap : Mm.Reachable h live) : Inv (boot s h live) := by
  obtain ⟨cs, tracks⟩ := heap.tracks
  have state (i : Nat) : ((schedInit s).threads i).state = if i = 0 then .running else .dead := by
    unfold schedInit
    dsimp only
    split <;> rfl
  have base (i : Nat) : ((schedInit s).threads i).stackBase = 0 := by
    unfold schedInit
    dsimp only
    split <;> rfl
  refine ⟨⟨Nat.zero_lt_one, rfl, fun i other => ?_, by simp [boot], fun i above => ?_⟩,
    cs, tracks, fun i _ => base i, base 0, fun i _ _ _ => base i, fun i other able => ?_⟩
  · have : i ≠ 0 := other
    simp [boot, state, this]
  · have : i ≠ 0 := Nat.ne_of_gt above
    simp [boot, state, this]
  · simp [boot, state, other] at able

theorem Stacked.stackBlock {s : Table Nat} {h : Mm.Heap} {live : List Nat} {cs : List Cell}
    (stacked : Stacked s h live cs) {i : Nat} (other : i ≠ 0) (able : (s.threads i).state ≠ .dead) :
    StackBlock h (s.threads i).stackBase := by
  obtain ⟨p, n, there, base, large⟩ := stacked.blocks i other able
  refine ⟨_, Mm.blocks_returns stacked.tracks.represents, _, List.mem_map.mpr ⟨(p, Cell.mk n false), there, rfl⟩, ?_, rfl, large⟩
  exact base.symm

theorem Inv.sound {y : System} (invariant : Inv y) : Sound y := by
  obtain ⟨seated, cs, stacked⟩ := invariant
  refine ⟨fun i is => ?_, fun i able => ?_, fun i other able => stacked.stackBlock other able,
    fun i other able j different same => ?_⟩
  · by_contra away
    exact seated.others i away is
  · by_contra beyond
    exact able (seated.unused i (Nat.le_of_not_lt beyond))
  · obtain ⟨p, n, -, base, -⟩ := stacked.blocks i other able
    -- only the base zero can be shared
    have shared := stacked.apart i j (Ne.symm different) same.symm
    exact Mm.payload_ne_zero p (base.symm.trans shared)

/-! ### Switching -/

theorem switchAway_stackBase (esp : Nat) (s : Table Nat) (i : Nat) :
    ((switchAway esp s).threads i).stackBase = (s.threads i).stackBase := by
  rcases switchAway_cases esp s with stays | ⟨next, -, -, goes⟩
  · rw [stays]
  · rw [goes]
    simp

/-- Work on other fields leaves the seating alone. -/
theorem Seated.of_table {s t : Table Nat} {halted : Nat → Bool} (seated : Seated s halted)
    (current : t.current = s.current) (count : t.count = s.count)
    (state : ∀ i, (t.threads i).state = (s.threads i).state) : Seated t halted := by
  refine ⟨by rw [current, count]; exact seated.inside, ?_, fun i other => ?_, fun i rests => ?_, fun i above => ?_⟩
  · rw [current, state]
    exact seated.stance
  · rw [state]
    exact seated.others i (current ▸ other)
  · rw [state, count]
    exact seated.halts i rests
  · rw [state]
    exact seated.unused i (count ▸ above)

/-- The CPU goes over to a thread that can run; the thread it leaves does not go on running. -/
theorem Seated.handOver {s t : Table Nat} {halted : Nat → Bool} (seated : Seated s halted) {next : Nat}
    {left : ThreadState} (inside : next < s.count) (able : (s.threads next).state ≠ .dead) (current : t.current = next)
    (count : t.count = s.count) (state : ∀ i, (t.threads i).state =
      if i = next then .running else if i = s.current then left else (s.threads i).state)
    (leaves : left ≠ .running) (rested : halted s.current = true → left = .dead) : Seated t halted := by
  -- a thread in the hlt loop is dead
  have awake : halted next = false := by
    by_contra rests
    exact able (seated.halts next (by simpa using rests)).1
  refine ⟨by rw [current, count]; exact inside, ?_, fun i other => ?_, fun i rests => ?_, fun i above => ?_⟩
  · rw [current, state, awake]
    simp
  · rw [current] at other
    rw [state, if_neg other]
    split
    · exact leaves
    · rename_i second
      exact seated.others i second
  · obtain ⟨gone, bound⟩ := seated.halts i rests
    have first : i ≠ next := by
      rintro rfl
      exact able gone
    rw [state, if_neg first, count]
    refine ⟨?_, bound⟩
    split
    · rename_i second
      exact rested (second ▸ rests)
    · exact gone
  · rw [count] at above
    rw [state, if_neg (Nat.ne_of_gt (Nat.lt_of_lt_of_le inside above)),
      if_neg (Nat.ne_of_gt (Nat.lt_of_lt_of_le seated.inside above))]
    exact seated.unused i above

/-- A live CPU that switches away leaves its thread ready and no dead thread alive. -/
theorem Seated.switchAway {s : Table Nat} {halted : Nat → Bool} (seated : Seated s halted) (esp : Nat)
    (live : halted s.current = false) : Seated (switchAway esp s) halted ∧
      ∀ i, ((Sched.switchAway esp s).threads i).state = .dead ↔ (s.threads i).state = .dead := by
  have running : (s.threads s.current).state = .running := by rw [seated.stance, live]; rfl
  rcases switchAway_cases esp s with stays | ⟨next, found, away, goes⟩
  · rw [stays]
    exact ⟨seated, fun i => Iff.rfl⟩
  · obtain ⟨inside, able⟩ := nextReady_some found (Nat.zero_lt_of_lt seated.inside)
    have state (i : Nat) : ((Sched.switchAway esp s).threads i).state =
        if i = next then .running else if i = s.current then .ready else (s.threads i).state := by
      rw [goes]
      simp
    have current : (Sched.switchAway esp s).current = next := by rw [goes]; simp
    have count : (Sched.switchAway esp s).count = s.count := by rw [goes]; simp
    have dead (i : Nat) : ((Sched.switchAway esp s).threads i).state = .dead ↔ (s.threads i).state = .dead := by
      rw [state]
      by_cases first : i = next
      · subst first
        simp [able]
      · by_cases second : i = s.current
        · subst second
          simp [first, running]
        · simp [first, second]
    refine ⟨seated.handOver inside able current count state (by decide) fun rests => ?_, dead⟩
    rw [live] at rests
    cases rests

/-- With no thread ready there is nothing to switch to. -/
theorem Seated.stays {s : Table Nat} {halted : Nat → Bool} (seated : Seated s halted) (esp : Nat)
    (none_ready : ∀ i, i < s.count → (s.threads i).state ≠ .ready) : Sched.switchAway esp s = s := by
  rcases switchAway_cases esp s with stays | ⟨next, found, away, -⟩
  · exact stays
  · obtain ⟨inside, able⟩ := nextReady_some found (Nat.zero_lt_of_lt seated.inside)
    cases state : (s.threads next).state with
    | ready => exact absurd state (none_ready next inside)
    | running => exact absurd state (seated.others next away)
    | dead => exact absurd state able

/-- A tick that finds a ready thread while current is dead makes current ready. -/
theorem idle_tick_revives {s : Table Nat} (esp : Nat) (inside : s.current < s.count)
    (idle : (s.threads s.current).state = .dead) {i : Nat} (bound : i < s.count)
    (ready : (s.threads i).state = .ready) : ((Sched.switchAway esp s).threads s.current).state = .ready := by
  cases found : nextReady s with
  | none =>
    have := nextReady_none found inside i bound
    rw [ready] at this
    cases this
  | some next =>
    have able := (nextReady_some found (Nat.zero_lt_of_lt inside)).2
    have away : next ≠ s.current := by
      rintro rfl
      exact able idle
    simp [Sched.switchAway, found, away, away.symm]

theorem Stacked.of_table {s s' : Table Nat} {h : Mm.Heap} {live : List Nat} {cs : List Cell}
    (stacked : Stacked s h live cs) (base : ∀ i, (s'.threads i).stackBase = (s.threads i).stackBase)
    (dead : ∀ i, (s'.threads i).state = .dead ↔ (s.threads i).state = .dead) : Stacked s' h live cs := by
  refine ⟨stacked.tracks, fun i is => ?_, ?_, fun i j different same => ?_, fun i other able => ?_⟩
  · rw [base]
    exact stacked.bare i ((dead i).mp is)
  · rw [base]
    exact stacked.boot
  · rw [base] at same ⊢
    rw [base] at same
    exact stacked.apart i j different same
  · rw [base]
    exact stacked.blocks i other fun is => able ((dead i).mpr is)

/-! ### Heap steps -/

theorem Stacked.base_mem {s : Table Nat} {h : Mm.Heap} {live : List Nat} {cs : List Cell}
    (stacked : Stacked s h live cs) {i : Nat} (given : (s.threads i).stackBase ≠ 0) :
    (s.threads i).stackBase ∈ live := by
  -- neither dead threads nor boot have a stack
  have able : (s.threads i).state ≠ .dead := fun is => given (stacked.bare i is)
  have other : i ≠ 0 := by
    rintro rfl
    exact given stacked.boot
  obtain ⟨p, n, there, base, -⟩ := stacked.blocks i other able
  exact (stacked.tracks.pointers _).mpr ⟨p, n, there, base⟩

/-- Heap work that keeps the stacks' blocks. -/
theorem Stacked.of_heap {s : Table Nat} {h h' : Mm.Heap} {live live' : List Nat} {cs ds : List Cell}
    (stacked : Stacked s h live cs) (tracks' : Mm.Tracks h' live' ds)
    (kept : ∀ i p n, (s.threads i).stackBase = p + Mm.blockHdr → Live Mm.blockHdr Mm.heapStart cs p n →
      Live Mm.blockHdr Mm.heapStart ds p n) : Stacked s h' live' ds := by
  refine ⟨tracks', stacked.bare, stacked.boot, stacked.apart, fun i other able => ?_⟩
  obtain ⟨p, n, there, base, large⟩ := stacked.blocks i other able
  exact ⟨p, n, kept i p n base there, base, large⟩

theorem Stacked.kmalloc {s : Table Nat} {h h' : Mm.Heap} {live : List Nat} {cs : List Cell}
    (stacked : Stacked s h live cs) {size ptr : Nat} (returned : Returns (Mm.kmalloc h size) (h', ptr)) :
    ∃ ds, Stacked s h' (if ptr = 0 then live else ptr :: live) ds ∧
      (ptr ≠ 0 → ptr ∉ live ∧ ∃ p n, Live Mm.blockHdr Mm.heapStart ds p n ∧ ptr = p + Mm.blockHdr ∧
        Mm.alignUp size ≤ n) := by
  rcases stacked.tracks.kmalloc size with ⟨failed, -⟩ | ⟨h'', p, ds, carved, taken, tracks'⟩
  · cases returned.unique failed
    exact ⟨cs, stacked, fun positive => absurd rfl positive⟩
  · cases returned.unique taken
    obtain ⟨m, large, -, lives, -, -⟩ := carve_live Mm.blockHdr carved
    rw [if_neg (Mm.payload_ne_zero p)]
    refine ⟨ds, stacked.of_heap tracks' fun i q n _ there => (lives q n).mpr (.inr there), fun _ => ⟨?_, ?_⟩⟩
    · exact (List.nodup_cons.mp tracks'.nodup).1
    · exact ⟨p, m, (lives p m).mpr (.inl ⟨rfl, rfl⟩), rfl, large⟩

/-- Freeing a block that is no stack. -/
theorem Stacked.kfree {s : Table Nat} {h h' : Mm.Heap} {live : List Nat} {cs : List Cell}
    (stacked : Stacked s h live cs) {ptr : Nat} (member : ptr ∈ live)
    (foreign : ∀ i, (s.threads i).stackBase ≠ ptr) (returned : Returns (Mm.kfree h ptr) h') :
    ∃ ds, Stacked s h' (live.erase ptr) ds := by
  obtain ⟨h'', p, n, ds, rfl, -, rfl, freed, tracks'⟩ := stacked.tracks.kfree member
  cases returned.unique freed
  refine ⟨_, stacked.of_heap tracks' fun i q k base there => ?_⟩
  rw [coalesce_live, release_live Mm.blockHdr (by decide)]
  exact ⟨there, fun same => foreign i (same ▸ base)⟩

/-! ### sched_spawn -/

theorem pushWords_tracks {live : List Nat} {cs : List Cell} {p n : Nat}
    (there : Live Mm.blockHdr Mm.heapStart cs p n) (ws : List Nat) {h : Mm.Heap} {sp : Nat}
    (tracks : Mm.Tracks h live cs) (lower : p + Mm.blockHdr + 4 * ws.length ≤ sp)
    (upper : sp ≤ p + Mm.blockHdr + n) (word : sp < 2 ^ 32) :
    Mm.Tracks (pushWords h sp ws).1 live cs := by
  induction ws generalizing h sp with
  | nil => exact tracks
  | cons w ws ih =>
    rw [List.length_cons] at lower
    have down : sub32 sp 4 = sp - 4 := sub32_of_le (by omega) word
    rw [pushWords, down]
    exact ih (tracks.store there (by omega) (by omega) w) (by omega) (by omega) (by omega)

/-- All that sched_spawn can do once kmalloc has answered. -/
theorem spawnOn_cases (trampoline entry : Nat) (s : Table Nat) (h : Mm.Heap) (base : Nat) :
    (base = 0 ∧ spawnOn trampoline entry s h base = (s.setStackBase s.count 0, h, none)) ∨
    base ≠ 0 ∧ ∃ t, spawnOn trampoline entry s h base =
        (t, (pushWords h (add32 base stackSize) (firstFrame trampoline)).1, some s.count) ∧
      t.current = s.current ∧ t.count = s.count + 1 ∧
      (∀ j, (t.threads j).state = if j = s.count then .ready else (s.threads j).state) ∧
      (∀ j, (t.threads j).stackBase = if j = s.count then base else (s.threads j).stackBase) ∧
      (∀ j, (t.threads j).entry = if j = s.count then entry else (s.threads j).entry) ∧
      ∀ j, (t.threads j).esp = if j = s.count then
        (pushWords h (add32 base stackSize) (firstFrame trampoline)).2 else (s.threads j).esp := by
  by_cases zero : base = 0
  · subst zero
    exact .inl ⟨rfl, rfl⟩
  · refine .inr ⟨zero, _, if_neg zero, rfl, rfl, fun j => ?_, fun j => ?_, fun j => ?_, fun j => ?_⟩
    · rw [enlist_threads, setStackBase_count]
      split
      · rfl
      · simp
    · rw [enlist_threads, setStackBase_count]
      split
      · simp_all
      · rename_i other
        simp [other]
    · rw [enlist_threads, setStackBase_count]
      split
      · rfl
      · simp
    · rw [enlist_threads, setStackBase_count]
      split
      · rfl
      · simp

theorem Seated.spawn {s t : Table Nat} {halted : Nat → Bool} (seated : Seated s halted)
    (current : t.current = s.current) (count : t.count = s.count + 1)
    (state : ∀ j, (t.threads j).state = if j = s.count then .ready else (s.threads j).state) : Seated t halted := by
  have inside := seated.inside
  refine ⟨by omega, ?_, fun i other => ?_, fun i rests => ?_, fun i above => ?_⟩
  · rw [current, state, if_neg (Nat.ne_of_lt inside)]
    exact seated.stance
  · rw [current] at other
    rw [state]
    split
    · decide
    · exact seated.others i other
  · obtain ⟨dead, bound⟩ := seated.halts i rests
    rw [state, if_neg (Nat.ne_of_lt bound)]
    exact ⟨dead, by omega⟩
  · rw [state, if_neg (by omega)]
    exact seated.unused i (by omega)

theorem Stacked.spawn {s t : Table Nat} {h h' : Mm.Heap} {live : List Nat} {cs : List Cell} {base : Nat}
    (stacked : Stacked s h live cs) (positive : 0 < s.count) (new : ∀ j, (s.threads j).stackBase ≠ base)
    (tracks : Mm.Tracks h' live cs)
    (block : ∃ p n, Live Mm.blockHdr Mm.heapStart cs p n ∧ base = p + Mm.blockHdr ∧ stackSize ≤ n)
    (state : ∀ j, (t.threads j).state = if j = s.count then .ready else (s.threads j).state)
    (bases : ∀ j, (t.threads j).stackBase = if j = s.count then base else (s.threads j).stackBase) :
    Stacked t h' live cs := by
  refine ⟨tracks, fun i is => ?_, ?_, fun i j different same => ?_, fun i other able => ?_⟩
  · rw [state] at is
    rw [bases]
    split at is
    · cases is
    · rename_i old
      rw [if_neg old]
      exact stacked.bare i is
  · rw [bases, if_neg (Nat.ne_of_lt positive)]
    exact stacked.boot
  · rw [bases] at same ⊢
    rw [bases] at same
    split at same <;> split at same
    · omega
    · exact absurd same.symm (new j)
    · exact absurd same (new i)
    · rename_i old _
      rw [if_neg old]
      exact stacked.apart i j different same
  · rw [bases]
    rw [state] at able
    split
    · exact block
    · rename_i old
      rw [if_neg old] at able
      exact stacked.blocks i other able

/-- With a slot behind the last one, sched_spawn goes on with what kmalloc answers. -/
theorem schedSpawn_asks (trampoline entry : Nat) {s : Table Nat} {h h' : Mm.Heap} {base : Nat}
    (room : s.count < maxThreads) (taken : Returns (Mm.kmalloc h stackSize) (h', base)) :
    Returns (schedSpawn trampoline entry s h) (spawnOn trampoline entry s h' base) :=
  (taken.map fun r => spawnOn trampoline entry s r.1 r.2).congr fun _ => (if_neg (Nat.not_le_of_lt room)).symm

/-- sched_spawn leaves a full table as it is, and asks kmalloc for a stack otherwise. -/
theorem schedSpawn_cases {trampoline entry : Nat} {s t : Table Nat} {h₀ h : Mm.Heap} {live : List Nat} {cs : List Cell}
    {r : Option Nat} (stacked : Stacked s h₀ live cs) (returned : Returns (schedSpawn trampoline entry s h₀) (t, h, r)) :
    (maxThreads ≤ s.count ∧ (t, h, r) = (s, h₀, none)) ∨
    (s.count < maxThreads ∧ ∃ h' base, Returns (Mm.kmalloc h₀ stackSize) (h', base) ∧
      (t, h, r) = spawnOn trampoline entry s h' base) := by
  by_cases full : s.count ≥ maxThreads
  · have same : Returns (schedSpawn trampoline entry s h₀) (s, h₀, none) := .of_all fun budget => if_pos full
    exact .inl ⟨full, returned.unique same⟩
  · obtain ⟨h', base, taken⟩ := stacked.tracks.kmalloc_returns stackSize
    have room := Nat.lt_of_not_ge full
    exact .inr ⟨room, h', base, taken, returned.unique (schedSpawn_asks trampoline entry room taken)⟩

/-- The table after a spawn that returned: as it was but for a stack, or with one thread more. -/
theorem schedSpawn_table {trampoline entry : Nat} {s t : Table Nat} {h h' : Mm.Heap} {r : Option Nat}
    (returned : Returns (schedSpawn trampoline entry s h) (t, h', r)) :
    (r = none ∧ (t = s ∨ t = s.setStackBase s.count 0)) ∨
    (s.count < maxThreads ∧ r = some s.count ∧ t.current = s.current ∧ t.count = s.count + 1 ∧
      ∀ j, (t.threads j).state = if j = s.count then .ready else (s.threads j).state) := by
  obtain ⟨n, spawned⟩ := returned
  have spawned := spawned n (Nat.le_refl n)
  unfold schedSpawn at spawned
  split at spawned
  · cases spawned
    exact .inl ⟨rfl, .inl rfl⟩
  · rename_i room
    rw [Option.map_eq_some_iff] at spawned
    obtain ⟨⟨h'', base⟩, -, spawned⟩ := spawned
    rcases spawnOn_cases trampoline entry s h'' base with ⟨-, failed⟩ | ⟨-, t', done, current, count, state, -⟩
    · rw [failed] at spawned
      cases spawned
      exact .inl ⟨rfl, .inr rfl⟩
    · rw [done] at spawned
      cases spawned
      exact .inr ⟨Nat.lt_of_not_le room, rfl, current, count, state⟩

theorem schedSpawn_current {trampoline entry : Nat} {s t : Table Nat} {h h' : Mm.Heap} {r : Option Nat}
    (returned : Returns (schedSpawn trampoline entry s h) (t, h', r)) : t.current = s.current := by
  rcases schedSpawn_table returned with ⟨-, rfl | rfl⟩ | ⟨-, -, current, -⟩
  · rfl
  · rfl
  · exact current

theorem schedSpawn_inv {trampoline entry : Nat} {y : System} {t : Table Nat} {h : Mm.Heap} {r : Option Nat}
    (invariant : Inv y) (returned : Returns (schedSpawn trampoline entry y.table y.heap) (t, h, r)) :
    Inv { y with table := t, heap := h, live := obtained t r ++ y.live } ∧
      ∀ i, i < y.table.count → (t.threads i).state = (y.table.threads i).state := by
  obtain ⟨seated, cs, stacked⟩ := invariant
  rcases schedSpawn_cases stacked returned with ⟨-, same⟩ | ⟨-, h', base, taken, same⟩
  · cases same
    exact ⟨⟨seated, cs, stacked⟩, fun i _ => rfl⟩
  obtain ⟨ds, stacked', handed⟩ := stacked.kmalloc taken
  have dead := seated.unused y.table.count (Nat.le_refl _)
  rcases spawnOn_cases trampoline entry y.table h' base with
    ⟨rfl, failed⟩ | ⟨given, t', done, current, count, state, bases, -⟩
  · rw [failed] at same
    cases same
    rw [if_pos rfl] at stacked'
    have kept (i : Nat) : ((y.table.setStackBase y.table.count 0).threads i).state = (y.table.threads i).state := by simp
    refine ⟨⟨seated.of_table rfl rfl kept, ds, stacked'.of_table (fun i => ?_) fun i => by rw [kept]⟩, fun i _ => kept i⟩
    rw [setStackBase_stackBase]
    split
    · rename_i here
      rw [here, stacked.bare _ dead]
    · rfl
  · rw [done] at same
    cases same
    rw [if_neg given] at stacked'
    obtain ⟨fresh, p, n, there, rfl, large⟩ := handed given
    have end_ := (placed_bounds Mm.blockHdr there).2
    rw [stacked'.tracks.represents.covers] at end_
    have sizes : Mm.heapStart + Mm.heapSize < 2 ^ 31 := by decide
    have rounded : Mm.alignUp stackSize = stackSize := by decide
    have frame : 4 * (firstFrame trampoline).length ≤ stackSize := by simp [firstFrame, stackSize]
    rw [rounded] at large
    have top : add32 (p + Mm.blockHdr) stackSize = p + Mm.blockHdr + stackSize :=
      add32_of_lt (by simp only at end_; omega)
    -- the words of the first frame lie inside the new stack
    have pushed : Mm.Tracks (pushWords h' (p + Mm.blockHdr + stackSize) (firstFrame trampoline)).1
        ((p + Mm.blockHdr) :: y.live) ds :=
      pushWords_tracks there _ stacked'.tracks (by omega) (by omega) (by simp only at end_; omega)
    have got : obtained t (some y.table.count) = [p + Mm.blockHdr] := by simp [obtained, bases]
    rw [top, got]
    refine ⟨⟨seated.spawn current count state, ds, ?_⟩, fun i bound => ?_⟩
    · refine stacked'.spawn (Nat.zero_lt_of_lt seated.inside) (fun j same => ?_) pushed
        ⟨p, n, there, rfl, large⟩ state bases
      -- kmalloc hands out no pointer that is live
      exact fresh (same ▸ stacked.base_mem (same ▸ given))
    · rw [state, if_neg (Nat.ne_of_lt bound)]

/-! ### sched_exit -/

theorem freeStack_returns {s : Table Nat} {h : Mm.Heap} {live : List Nat} {cs : List Cell}
    (stacked : Stacked s h live cs) : ∃ t h' ds, Returns (freeStack s h) (t, h') ∧
      t.current = s.current ∧ t.count = s.count ∧ (∀ i, (t.threads i).state = (s.threads i).state) ∧
      (∀ i, (t.threads i).stackBase = if i = s.current then 0 else (s.threads i).stackBase) ∧
      Mm.Tracks h' (live.erase (s.threads s.current).stackBase) ds ∧
      ∀ i p n, i ≠ s.current → (s.threads i).stackBase = p + Mm.blockHdr →
        Live Mm.blockHdr Mm.heapStart cs p n → Live Mm.blockHdr Mm.heapStart ds p n := by
  by_cases none_held : (s.threads s.current).stackBase = 0
  · have absent : 0 ∉ live := by
      intro member
      obtain ⟨p, n, -, same⟩ := (stacked.tracks.pointers 0).mp member
      exact Mm.payload_ne_zero p same.symm
    refine ⟨s, h, cs, .of_all fun budget => if_pos none_held, rfl, rfl, fun i => rfl, fun i => ?_, ?_,
      fun _ _ _ _ _ there => there⟩
    · split
      · rename_i here
        rw [here, none_held]
      · rfl
    · rw [none_held, List.erase_of_not_mem absent]
      exact stacked.tracks
  · obtain ⟨h', p, n, ds, base, -, rfl, freed, tracks⟩ := stacked.tracks.kfree (stacked.base_mem none_held)
    refine ⟨s.setStackBase s.current 0, h', _, ?_, rfl, rfl, fun i => by simp, fun i => by simp, tracks,
      fun i q k other held there => ?_⟩
    · exact (freed.map fun h => (s.setStackBase s.current 0, h)).congr fun budget => (if_neg none_held).symm
    · rw [coalesce_live, release_live Mm.blockHdr (by decide)]
      refine ⟨there, ?_⟩
      rintro rfl
      -- another thread on the block that was freed would share it
      have shared := stacked.apart i s.current other (held.trans base.symm)
      exact Mm.payload_ne_zero q (held.symm.trans shared)

/-- A thread with a stack of its own gives it back through kfree. -/
theorem freeStack_eq {s t : Table Nat} {h h' : Mm.Heap} {live : List Nat} {cs : List Cell} (stacked : Stacked s h live cs)
    (held : (s.threads s.current).stackBase ≠ 0) (returned : Returns (freeStack s h) (t, h')) :
    t = s.setStackBase s.current 0 ∧ Returns (Mm.kfree h (s.threads s.current).stackBase) h' := by
  obtain ⟨h'', p, n, ds, -, -, -, freed, -⟩ := stacked.tracks.kfree (stacked.base_mem held)
  have same : Returns (freeStack s h) (s.setStackBase s.current 0, h'') :=
    (freed.map fun h => (s.setStackBase s.current 0, h)).congr fun budget => (if_neg held).symm
  cases returned.unique same
  exact ⟨rfl, freed⟩

theorem bury_stackBase (s : Table Nat) (i : Nat) : ((bury s).1.threads i).stackBase = (s.threads i).stackBase := by
  rcases bury_cases s with ⟨-, same⟩ | ⟨next, -, same⟩ <;> rw [same] <;> simp

theorem Seated.bury {s : Table Nat} {halted : Nat → Bool} (seated : Seated s halted) :
    Seated (bury s).1 (if (bury s).2 then Function.update halted s.current true else halted) ∧
      ∀ i, ((Sched.bury s).1.threads i).state = .dead ↔ i = s.current ∨ (s.threads i).state = .dead := by
  rcases bury_cases s with ⟨-, same⟩ | ⟨next, found, same⟩
  · rw [same]
    refine ⟨⟨seated.inside, by simp, fun i other => ?_, fun i rests => ?_, fun i above => ?_⟩, fun i => ?_⟩
    · rw [setState_current] at other
      rw [setState_state, if_neg other]
      exact seated.others i other
    · rw [setState_state, setState_count]
      by_cases here : i = s.current
      · subst here
        exact ⟨if_pos rfl, seated.inside⟩
      · rw [if_neg here]
        exact seated.halts i (by simpa [here] using rests)
    · rw [setState_state]
      split
      · rfl
      · exact seated.unused i above
    · rw [setState_state]
      split
      · rename_i here
        exact ⟨fun _ => .inl here, fun _ => rfl⟩
      · rename_i other
        exact ⟨.inr, fun is => is.resolve_left other⟩
  · obtain ⟨inside, away, able⟩ := nextReady_buried found (Nat.zero_lt_of_lt seated.inside)
    have state (i : Nat) : ((Sched.bury s).1.threads i).state =
        if i = next then .running else if i = s.current then .dead else (s.threads i).state := by
      rw [same]
      simp
    have dead (i : Nat) : ((Sched.bury s).1.threads i).state = .dead ↔ i = s.current ∨ (s.threads i).state = .dead := by
      rw [state]
      by_cases first : i = next
      · subst first
        simp [able, away]
      · rw [if_neg first]
        split
        · rename_i second
          exact ⟨fun _ => .inl second, fun _ => rfl⟩
        · rename_i second
          exact ⟨.inr, fun is => is.resolve_left second⟩
    have current : (Sched.bury s).1.current = next := by rw [same]; rfl
    have count : (Sched.bury s).1.count = s.count := by rw [same]; rfl
    have goes : (Sched.bury s).2 = false := by rw [same]
    rw [goes]
    exact ⟨seated.handOver inside able current count state (by decide) fun _ => rfl, dead⟩

theorem schedExit_inv {y : System} {t : Table Nat} {h : Mm.Heap} {idles : Bool} (invariant : Inv y)
    (returned : Returns (schedExit y.table y.heap) (t, h, idles)) :
    Inv ⟨t, h, y.live.erase (y.table.threads y.table.current).stackBase,
        if idles then Function.update y.halted y.table.current true else y.halted⟩ ∧
      ∀ i, (y.table.threads i).state = .dead → (t.threads i).state = .dead := by
  obtain ⟨seated, cs, stacked⟩ := invariant
  obtain ⟨s, h', ds, freed, current, count, state, bases, tracks, kept⟩ := freeStack_returns stacked
  cases returned.unique (freed.map fun r => ((bury r.1).1, r.2, (bury r.1).2))
  obtain ⟨sits, dead⟩ := (seated.of_table current count state).bury
  simp only [current, state] at sits dead
  refine ⟨⟨sits, ds, tracks, fun i is => ?_, ?_, fun i j different same => ?_, fun i other able => ?_⟩,
    fun i is => (dead i).mpr (.inr is)⟩
  · rw [bury_stackBase, bases]
    rcases (dead i).mp is with here | is
    · exact if_pos here
    · rw [stacked.bare i is, ite_self]
  · rw [bury_stackBase, bases, stacked.boot, ite_self]
  · rw [bury_stackBase, bases] at same ⊢
    rw [bury_stackBase, bases] at same
    split at same
    · rename_i here
      exact if_pos here
    · rename_i here
      rw [if_neg here]
      split at same
      · exact same
      · exact stacked.apart i j different same
  · obtain ⟨away, able⟩ := not_or.mp (mt (dead i).mpr able)
    rw [bury_stackBase, bases, if_neg away]
    -- the block that was freed is not this one
    obtain ⟨p, n, there, base, large⟩ := stacked.blocks i other able
    exact ⟨p, n, kept i p n away base there, base, large⟩

/-! ### Whole runs -/

theorem switchAway_inv {y : System} (invariant : Inv y) (esp : Nat)
    (calm : (y.table.threads y.table.current).state = .dead →
      ∀ i, i < y.table.count → (y.table.threads i).state ≠ .ready) :
    Inv { y with table := switchAway esp y.table } ∧
      ∀ i, (y.table.threads i).state = .dead → ((switchAway esp y.table).threads i).state = .dead := by
  obtain ⟨seated, cs, stacked⟩ := invariant
  cases idle : y.halted y.table.current with
  | false =>
    obtain ⟨sits, dead⟩ := seated.switchAway esp idle
    exact ⟨⟨sits, cs, stacked.of_table (switchAway_stackBase esp y.table) dead⟩, fun i is => (dead i).mpr is⟩
  | true =>
    have gone : (y.table.threads y.table.current).state = .dead := by rw [seated.stance, idle]; rfl
    rw [seated.stays esp (calm gone)]
    exact ⟨⟨seated, cs, stacked⟩, fun i is => is⟩

/-- What one step preserves. -/
theorem Step.inv {trampoline : Nat} {y y' : System} {e : Event} (invariant : Inv y) (calm : ¬ IdleTick y e)
    (taken : Step trampoline y e y') : Inv y' ∧ KeepsDead y y' := by
  cases taken with
  | spawn returned =>
    obtain ⟨next, state⟩ := schedSpawn_inv invariant returned
    exact ⟨next, fun i bound is => (state i bound).trans is⟩
  | @yield esp live =>
    have running : (y.table.threads y.table.current).state = .running := by
      rw [invariant.seated.stance, live]
      rfl
    obtain ⟨next, dead⟩ := switchAway_inv invariant esp fun is => by
      rw [running] at is
      cases is
    exact ⟨next, fun i _ is => dead i is⟩
  | @tick esp =>
    obtain ⟨next, dead⟩ := switchAway_inv invariant esp fun is i bound ready =>
      calm ⟨⟨esp, rfl⟩, is, i, bound, ready⟩
    exact ⟨next, fun i _ is => dead i is⟩
  | exit _ returned =>
    obtain ⟨next, dead⟩ := schedExit_inv invariant returned
    exact ⟨next, fun i _ is => dead i is⟩
  | kmalloc returned =>
    obtain ⟨cs, stacked⟩ := invariant.stacked
    obtain ⟨ds, stacked', -⟩ := stacked.kmalloc returned
    exact ⟨⟨invariant.seated, ds, stacked'⟩, fun i _ is => is⟩
  | kfree member foreign returned =>
    obtain ⟨cs, stacked⟩ := invariant.stacked
    obtain ⟨ds, stacked'⟩ := stacked.kfree member foreign returned
    exact ⟨⟨invariant.seated, ds, stacked'⟩, fun i _ is => is⟩

/-- A step from a state of the invariant goes wrong exactly when it is an idle tick. -/
theorem Step.good_iff {trampoline : Nat} {y y' : System} {e : Event} (invariant : Inv y)
    (taken : Step trampoline y e y') : Sound y' ∧ KeepsDead y y' ↔ ¬ IdleTick y e := by
  constructor
  · rintro ⟨-, keeps⟩ ⟨⟨esp, rfl⟩, idle, i, bound, ready⟩
    cases taken
    -- the thread that exited is ready again
    have dead := keeps y.table.current invariant.seated.inside idle
    have revived := idle_tick_revives esp invariant.seated.inside idle bound ready
    cases dead.symm.trans revived
  · intro calm
    obtain ⟨next, keeps⟩ := taken.inv invariant calm
    exact ⟨next.sound, keeps⟩

/-- The scheduler keeps its discipline over a whole run exactly when no timer tick finds
the CPU in the hlt loop of sched_exit with a thread ready. -/
theorem run_disciplined_iff (trampoline : Nat) {s : Table Nat} {h : Mm.Heap} {live : List Nat}
    (heap : Mm.Reachable h live) {moves : List (Move System Event)} {y : System}
    (run : Run (Step trampoline) (boot s h live) moves y) :
    Disciplined (boot s h live) moves ↔ ∀ m ∈ moves, ¬ IdleTick m.before m.event := by
  have start := inv_boot s heap
  rw [← run.good_iff Inv (fun y e => ¬ IdleTick y e) (fun y _ y' => Sound y' ∧ KeepsDead y y')
    (fun before calm taken => (Step.inv before calm taken).1) (fun before taken => Step.good_iff before taken) start]
  exact and_iff_right start.sound

/-- A table as the kernel image holds it, and a heap straight from mm_init. -/
def blankTable : Table Nat := ⟨fun _ => ⟨0, 0, 0, .ready, 0⟩, 0, 0⟩

def blankHeap : Mm.Heap := Mm.mmInit ⟨fun _ => 0, 0⟩

theorem run_disciplined_iff_one_yield :
    Disciplined (boot blankTable blankHeap [])
        [⟨boot blankTable blankHeap [], .yield 0, boot blankTable blankHeap []⟩] ↔
      ∀ m ∈ [Move.mk (boot blankTable blankHeap []) (Event.yield 0) (boot blankTable blankHeap [])],
        ¬ IdleTick m.before m.event :=
  run_disciplined_iff 0 (.init _) (.single (.yield rfl))

/-- Boot exits with nothing left to run, an interrupt handler spawns, the timer ticks:
the dead thread 0 is ready again. -/
theorem idle_tick_undisciplined : ∃ moves y, Run (Step 0) (boot blankTable blankHeap []) moves y ∧
    moves.map Move.event = [.exit, .spawn 0, .tick 0] ∧ ¬ Disciplined (boot blankTable blankHeap []) moves := by
  have fresh : Mm.Tracks blankHeap [] [⟨Mm.heapSize - Mm.blockHdr, true⟩] := Mm.tracks_mmInit _
  obtain ⟨h, base, given, taken⟩ : ∃ h base, base ≠ 0 ∧ Returns (Mm.kmalloc blankHeap stackSize) (h, base) := by
    rcases fresh.kmalloc stackSize with ⟨-, failed⟩ | ⟨h, p, ds, -, taken, -⟩
    · exact absurd (failed (by decide)) (by decide)
    · exact ⟨h, _, Nat.succ_ne_zero _, taken⟩
  let gone : Table Nat := (bury (schedInit blankTable)).1
  have exited : Returns (schedExit (schedInit blankTable) blankHeap) (gone, blankHeap, true) :=
    .of_all fun _ => rfl
  rcases spawnOn_cases 0 0 gone h base with ⟨zero, -⟩ | ⟨-, t, done, current, count, state, -⟩
  · exact absurd zero given
  have spawned := schedSpawn_asks 0 0 (show gone.count < maxThreads by decide) taken
  rw [done] at spawned
  have inside : t.current < t.count := by rw [current, count]; decide
  have idle : (t.threads t.current).state = .dead := by rw [current, state]; rfl
  have ready : (t.threads 1).state = .ready := by rw [state]; rfl
  refine ⟨_, _, .cons (.exit rfl exited) (.cons (.spawn spawned) (.single .tick)), rfl, fun disciplined => ?_⟩
  obtain ⟨-, keeps⟩ := disciplined.2 _ (.tail _ (.tail _ (.head _)))
  have dead := keeps t.current inside idle
  have revived := idle_tick_revives 0 inside idle (by rw [count]; decide) ready
  cases dead.symm.trans revived

end ChrisOS.Kernel.Sched
