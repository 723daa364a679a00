import ChrisOS.Kernel.Sched.Contexts.Invariant

/-! Whole runs of the context switches.

Every step leaves the frames of the other threads alone, so each switch pops what its
thread has saved.
-/

set_option autoImplicit false

namespace ChrisOS.Kernel.Sched.Contexts
open ChrisOS.Lib ChrisOS.Lib.Tiling

/-! ### Switching -/

theorem switchAway_entry (esp : Nat) (s : Table Nat) (j : Nat) :
    ((Sched.switchAway esp s).threads j).entry = (s.threads j).entry := by
  rcases switchAway_cases esp s with stays | ⟨next, -, -, goes⟩
  · rw [stays]
  · rw [goes, setEsp_entry, handOver_entry, setState_entry]

theorem bury_entry (s : Table Nat) (j : Nat) : ((bury s).1.threads j).entry = (s.threads j).entry := by
  rcases bury_cases s with ⟨-, same⟩ | ⟨next, -, same⟩
  · rw [same, setState_entry]
  · rw [same, handOver_entry, setState_entry]

variable {L : Layout} {trampoline : Nat}

theorem Inv.running {m : Machine} (invariant : Inv L trampoline m) :
    (m.table.threads m.table.current).state = .running := invariant.sched.seated.stance

theorem Inv.able {m : Machine} (invariant : Inv L trampoline m) :
    (m.table.threads m.table.current).state ≠ .dead := by
  rw [invariant.running]
  decide

/-- The thread that calls sched_switch is suspended with what it has. -/
theorem suspended_caller {m m' : Machine} {ret newEsp : Nat}
    (room : Room L m.table m.table.current m.cpu.esp 32) (word : m.cpu.esp < 2 ^ 32)
    (esp : (m'.table.threads m.table.current).esp = m.cpu.esp - 32)
    (base : (m'.table.threads m.table.current).stackBase = (m.table.threads m.table.current).stackBase)
    (saved : m'.saved m.table.current = some (m.suspended L ret m.table.current newEsp))
    (mem : m'.heap = (pushWords m.heap m.cpu.esp (m.frame L ret m.table.current newEsp)).1) :
    Suspended L trampoline m' m.table.current := by
  obtain ⟨lower, upper⟩ := room
  have high := stackHigh_congr (L := L) base
  have context : contextOf L trampoline m' m.table.current = m.suspended L ret m.table.current newEsp := by
    rw [contextOf, saved, Option.getD_some]
  have words : m.frame L ret m.table.current newEsp =
      [newEsp, L.espField m.table.current] ++ (m.suspended L ret m.table.current newEsp).words := rfl
  have two : [newEsp, L.espField m.table.current].length = 2 := rfl
  have framed : Framed (pushWords m.heap m.cpu.esp ([newEsp, L.espField m.table.current] ++
      (m.suspended L ret m.table.current newEsp).words)).1.mem ((m.suspended L ret m.table.current newEsp).esp - 24)
      (m.suspended L ret m.table.current newEsp) := pushWords_framed (by rw [two]; omega) word rfl
  have place : (m.suspended L ret m.table.current newEsp).esp - 24 = m.cpu.esp - 32 := by
    show m.cpu.esp - 8 - 24 = _
    omega
  rw [← words, ← mem, place] at framed
  constructor
  · rw [context, esp]
    exact framed
  · rw [stackLow_congr base, esp]
    omega
  · rw [context, high]
    show m.cpu.esp - 8 ≤ _
    omega
  · intro a above _
    rw [context] at above ⊢
    have above : m.cpu.esp - 8 ≤ a := above
    -- the registers are pushed below the return address
    have split : m.frame L ret m.table.current newEsp = [newEsp, L.espField m.table.current, ret] ++
        [m.cpu.eflags, m.cpu.ebx, m.cpu.esi, m.cpu.edi, m.cpu.ebp] := rfl
    have three : [newEsp, L.espField m.table.current, ret].length = 3 := rfl
    have five : [m.cpu.eflags, m.cpu.ebx, m.cpu.esi, m.cpu.edi, m.cpu.ebp].length = 5 := rfl
    have enough : 4 * [newEsp, L.espField m.table.current, ret].length ≤ m.cpu.esp := by
      rw [three]
      omega
    rw [mem, split, pushWords_append, pushWords_frame, Machine.suspended]
    · rw [pushWords_sp enough word, three, five]
      omega
    · rw [pushWords_sp enough word]
      omega
    · rw [pushWords_sp enough word, three, five]
      omega

theorem frame_table (m : Machine) (t : Table Nat) (ret prev newEsp : Nat) :
    Machine.frame L { m with table := t } ret prev newEsp = m.frame L ret prev newEsp := rfl

theorem suspended_table (m : Machine) (t : Table Nat) (ret prev newEsp : Nat) :
    Machine.suspended L { m with table := t } ret prev newEsp = m.suspended L ret prev newEsp := by
  rw [Machine.suspended, Machine.suspended]

/-- A switch in one piece: the caller's frame is stored, and the next thread's popped. -/
theorem switchAway_eq {m : Machine} {ret next : Nat} (found : nextReady m.table = some next)
    (other : next ≠ m.table.current) (bound : m.table.current < maxThreads) (room : 32 ≤ m.cpu.esp)
    (word : m.cpu.esp < 2 ^ 32) (fits : (m.table.threads next).esp + 24 < 2 ^ 32) :
    m.switchAway L ret =
      { m with
        cpu := { m.cpu with eax := L.espField m.table.current }.popped
          (pushWords m.heap m.cpu.esp (m.frame L ret m.table.current (m.table.threads next).esp)).1.mem
          (m.table.threads next).esp
        table := Sched.switchAway (m.cpu.esp - 32) m.table
        heap := (pushWords m.heap m.cpu.esp (m.frame L ret m.table.current (m.table.threads next).esp)).1
        saved := Function.update m.saved m.table.current
          (some (m.suspended L ret m.table.current (m.table.threads next).esp)) } := by
  have newEsp : (((m.table.setState m.table.current .ready).handOver next).threads next).esp =
      (m.table.threads next).esp := by
    rw [handOver_esp, setState_esp]
  have call := callSwitch_eq L { m with table := (m.table.setState m.table.current .ready).handOver next } ret bound room
    word fits
  rw [frame_table, suspended_table] at call
  rw [Machine.switchAway, Sched.switchAway, found]
  simp only [if_neg other]
  rw [newEsp, call]

/-- What a switch to another thread goes on with. -/
def Switches (L : Layout) (trampoline : Nat) (m m' : Machine) : Prop :=
  m'.table.current ≠ m.table.current →
    (∀ c, m.saved m'.table.current = some c → Continues L m' c) ∧
      (m.saved m'.table.current = none → Enters L trampoline m')

/-- The stack pointer of a suspended thread has its frame above it, below 2^32. -/
theorem Inv.frame_fits {m : Machine} (invariant : Inv L trampoline m) {k : Nat} (other : k ≠ m.table.current)
    (able : (m.table.threads k).state ≠ .dead) : (m.table.threads k).esp + 24 < 2 ^ 32 := by
  obtain ⟨cs, stacked⟩ := invariant.sched.stacked
  have suspended := invariant.suspended k other able
  have below : stackHigh L m.table k < 2 ^ 32 := stackHigh_lt stacked able
  have high := suspended.high
  rw [← suspended.framed.esp] at high
  omega

/-- The CPU goes from the current thread to the next, and the other threads are left alone. -/
structure HandsOver (L : Layout) (m m' : Machine) (next : Nat) : Prop where
  other : next ≠ m.table.current
  able : (m.table.threads next).state ≠ .dead
  current : m'.table.current = next
  count : m'.table.count = m.table.count
  given : m'.given = m.given
  entry : ∀ k, (m'.table.threads k).entry = (m.table.threads k).entry
  dead : ∀ k, k ≠ m.table.current → ((m'.table.threads k).state = .dead ↔ (m.table.threads k).state = .dead)
  esp : ∀ k, k ≠ m.table.current → (m'.table.threads k).esp = (m.table.threads k).esp
  base : ∀ k, k ≠ m.table.current → (m'.table.threads k).stackBase = (m.table.threads k).stackBase
  saved : ∀ k, k ≠ m.table.current → m'.saved k = m.saved k
  mem : ∀ k, k ≠ m.table.current → (m.table.threads k).state ≠ .dead →
    ∀ a, OnStack L m.table k a → m'.heap.mem a = m.heap.mem a
  popped : ∃ cpu : Cpu, m'.cpu = cpu.popped m'.heap.mem (m.table.threads next).esp

theorem HandsOver.switches {m m' : Machine} {next : Nat} (hands : HandsOver L m m' next)
    (invariant : Inv L trampoline m) : Switches L trampoline m m' := by
  intro _
  obtain ⟨cpu, popped⟩ := hands.popped
  rw [hands.current]
  apply (invariant.suspended next hands.other hands.able).restores
  · exact popped
  · exact hands.current
  · exact hands.base next hands.other
  · exact hands.mem next hands.other hands.able

/-- The thread that has been current is dead afterwards, and is not boot's, or is suspended. -/
theorem HandsOver.inv {m m' : Machine} {next : Nat} (hands : HandsOver L m m' next) (invariant : Inv L trampoline m)
    (sched : Sched.Inv ⟨m'.table, m'.heap, m'.live, fun _ => false⟩)
    (caller : (m'.table.threads m.table.current).state = .dead ∧ m.table.current ≠ 0 ∨
      (m'.table.threads m.table.current).state ≠ .dead ∧ Suspended L trampoline m' m.table.current) :
    Inv L trampoline m' := by
  constructor
  · exact sched
  · by_cases boot : m.table.current = 0
    · rcases caller with ⟨-, other⟩ | ⟨able, -⟩
      · exact absurd boot other
      · exact boot ▸ able
    · exact fun is => invariant.boot ((hands.dead 0 (Ne.symm boot)).mp is)
  · rw [hands.count]
    exact invariant.few
  · intro k bound
    rw [hands.entry, hands.given]
    exact invariant.entries k (hands.count ▸ bound)
  · intro k other able
    by_cases here : k = m.table.current
    · subst here
      rcases caller with ⟨gone, -⟩ | ⟨-, suspended⟩
      · exact absurd gone able
      · exact suspended
    · have alive := fun is => able ((hands.dead k here).mpr is)
      apply (invariant.suspended k here alive).congr
      · exact hands.esp k here
      · exact hands.base k here
      · exact hands.saved k here
      · exact hands.mem k here alive

theorem HandsOver.keeps {m m' : Machine} {next : Nat} (hands : HandsOver L m m' next) (invariant : Inv L trampoline m)
    (sched : Sched.Inv ⟨m'.table, m'.heap, m'.live, fun _ => false⟩)
    (caller : (m'.table.threads m.table.current).state = .dead ∧ m.table.current ≠ 0 ∨
      (m'.table.threads m.table.current).state ≠ .dead ∧ Suspended L trampoline m' m.table.current) :
    Inv L trampoline m' ∧ Switches L trampoline m m' := ⟨hands.inv invariant sched caller, hands.switches invariant⟩

theorem Inv.switchAway {m : Machine} (invariant : Inv L trampoline m) (ret : Nat)
    (room : Room L m.table m.table.current m.cpu.esp 32) :
    Inv L trampoline (m.switchAway L ret) ∧ Switches L trampoline m (m.switchAway L ret) := by
  obtain ⟨cs, stacked⟩ := invariant.sched.stacked
  have inside := invariant.sched.seated.inside
  cases found : nextReady m.table with
  | none =>
    have stays : m.switchAway L ret = m := by rw [Machine.switchAway, found]
    rw [stays]
    exact ⟨invariant, fun moved => absurd rfl moved⟩
  | some next =>
    by_cases same : next = m.table.current
    · have stays : m.switchAway L ret = m := by
        rw [Machine.switchAway, found]
        exact if_pos same
      rw [stays]
      exact ⟨invariant, fun moved => absurd rfl moved⟩
    have able := (nextReady_some found (Nat.zero_lt_of_lt inside)).2
    have word : m.cpu.esp < 2 ^ 32 := Nat.lt_of_le_of_lt room.2 (stackHigh_lt stacked invariant.able)
    have eight : 4 * (m.frame L ret m.table.current (m.table.threads next).esp).length ≤ 32 := Nat.le_refl 32
    rw [switchAway_eq found same (Nat.lt_of_lt_of_le inside invariant.few) (Nat.le_trans (Nat.le_add_left ..) room.1) word
      (invariant.frame_fits same able)]
    -- only words of the caller's stack have changed
    have own (a : Nat) (changed : (pushWords m.heap m.cpu.esp
        (m.frame L ret m.table.current (m.table.threads next).esp)).1.mem a ≠ m.heap.mem a) :
        OnStack L m.table m.table.current a := pushed_onStack room eight word changed
    have head := pushWords_head m.heap m.cpu.esp (m.frame L ret m.table.current (m.table.threads next).esp)
    have called : ∀ m' : Machine, m'.heap =
        (pushWords m.heap m.cpu.esp (m.frame L ret m.table.current (m.table.threads next).esp)).1 →
        (m'.table.threads m.table.current).esp = m.cpu.esp - 32 →
        (m'.table.threads m.table.current).stackBase = (m.table.threads m.table.current).stackBase →
        m'.saved m.table.current = some (m.suspended L ret m.table.current (m.table.threads next).esp) →
        Suspended L trampoline m' m.table.current :=
      fun m' heap esp base saved => suspended_caller room word esp base saved heap
    generalize pushWords m.heap m.cpu.esp (m.frame L ret m.table.current (m.table.threads next).esp) = p
      at own head called ⊢
    obtain ⟨⟨mem, _⟩, sp⟩ := p
    simp only at own head called ⊢
    subst head
    obtain ⟨seated, dead⟩ := invariant.sched.seated.switchAway (m.cpu.esp - 32) rfl
    have goes : Sched.switchAway (m.cpu.esp - 32) m.table =
        ((m.table.setState m.table.current .ready).handOver next).setEsp m.table.current (m.cpu.esp - 32) := by
      rw [Sched.switchAway, found]
      exact if_neg same
    have esp (k : Nat) : ((Sched.switchAway (m.cpu.esp - 32) m.table).threads k).esp =
        if k = m.table.current then m.cpu.esp - 32 else (m.table.threads k).esp := by
      rw [goes, setEsp_esp, handOver_esp, setState_esp]
    have base := switchAway_stackBase (m.cpu.esp - 32) m.table
    refine HandsOver.keeps (?_ : HandsOver L m _ next) invariant ⟨seated, cs, ?_⟩ (.inr ⟨?_, ?_⟩)
    · constructor
      · exact same
      · exact able
      · rw [goes]
        rfl
      · rw [goes]
        rfl
      · rfl
      · exact switchAway_entry (m.cpu.esp - 32) m.table
      · exact fun k _ => dead k
      · exact fun k other => (esp k).trans (if_neg other)
      · exact fun k _ => base k
      · exact fun k other => Function.update_of_ne other ..
      · intro k other able' a on
        by_contra changed
        exact stacks_apart stacked (Ne.symm other) invariant.able able' (own a changed) on
      · exact ⟨_, rfl⟩
    · exact stacked_of_mem (stacked.of_table base dead) fun a changed => onStack_noHeader stacked invariant.able (own a changed)
    · exact fun is => invariant.able ((dead _).mp is)
    · apply called
      · rfl
      · exact (esp _).trans (if_pos rfl)
      · exact base _
      · exact Function.update_self ..

/-! ### The other steps -/

/-- A step that runs no switch, and leaves other stacks and their threads alone. -/
theorem Inv.kept {m m' : Machine} (invariant : Inv L trampoline m)
    (sched : Sched.Inv ⟨m'.table, m'.heap, m'.live, fun _ => false⟩) (table : m'.table = m.table)
    (saved : m'.saved = m.saved) (given : m'.given = m.given)
    (mem : ∀ k, k ≠ m.table.current → (m.table.threads k).state ≠ .dead →
      ∀ a, OnStack L m.table k a → m'.heap.mem a = m.heap.mem a) : Inv L trampoline m' := by
  constructor
  · exact sched
  · rw [table]
    exact invariant.boot
  · rw [table]
    exact invariant.few
  · rw [table, given]
    exact invariant.entries
  · intro k other able
    rw [table] at other able
    apply (invariant.suspended k other able).congr
    · rw [table]
    · rw [table]
    · rw [saved]
    · exact mem k other able

/-- The current thread changes words that it may change. -/
theorem Inv.stored {m : Machine} (invariant : Inv L trampoline m) (cpu : Cpu) {mem : Nat → Nat}
    (allowed : ∀ a, mem a ≠ m.heap.mem a → Writable L m a) :
    Inv L trampoline { m with cpu := cpu, heap := { m.heap with mem := mem } } := by
  obtain ⟨seated, cs, stacked⟩ := invariant.sched
  have apart (a : Nat) (changed : mem a ≠ m.heap.mem a) := writable_apart stacked invariant.able (allowed a changed)
  apply invariant.kept
  · exact ⟨seated, cs, stacked_of_mem stacked fun a changed => (apart a changed).1⟩
  · rfl
  · rfl
  · rfl
  · intro k other able a on
    by_contra changed
    exact (apart a changed).2 k other able on

theorem Inv.kmalloc {m : Machine} (invariant : Inv L trampoline m) {size : Nat} {h : Mm.Heap} {ptr : Nat}
    (returned : Returns (Mm.kmalloc m.heap size) (h, ptr)) :
    Inv L trampoline { m with heap := h, live := if ptr = 0 then m.live else ptr :: m.live } := by
  obtain ⟨seated, cs, stacked⟩ := invariant.sched
  obtain ⟨ds, stacked', -⟩ := stacked.kmalloc returned
  apply invariant.kept
  · exact ⟨seated, ds, stacked'⟩
  · rfl
  · rfl
  · rfl
  · intro k _ able a on
    exact stacked.tracks.kmalloc_frame returned (onStack_foreign stacked able on)

theorem Inv.kfree {m : Machine} (invariant : Inv L trampoline m) {ptr : Nat} {h : Mm.Heap} (member : ptr ∈ m.live)
    (foreign : ∀ i, (m.table.threads i).stackBase ≠ ptr) (returned : Returns (Mm.kfree m.heap ptr) h) :
    Inv L trampoline { m with heap := h, live := m.live.erase ptr } := by
  obtain ⟨seated, cs, stacked⟩ := invariant.sched
  obtain ⟨ds, stacked'⟩ := stacked.kfree member foreign returned
  apply invariant.kept
  · exact ⟨seated, ds, stacked'⟩
  · rfl
  · rfl
  · rfl
  · intro k _ able a on
    exact stacked.tracks.kfree_frame member returned (onStack_noHeader stacked able on)

theorem enterCall_table (m : Machine) (ret : Nat) : (m.enterCall ret).table = m.table := by
  unfold Machine.enterCall Machine.push
  -- where the word is pushed does not matter, and is not to be computed
  generalize sub32 m.cpu.esp 4 = sp
  rfl

/-- thread_trampoline pushes a return address and calls the entry of its thread. -/
theorem Inv.enter {m : Machine} (invariant : Inv L trampoline m) (ret : Nat)
    (room : Room L m.table m.table.current m.cpu.esp 4) :
    Inv L trampoline (m.enterCall ret) ∧ (m.enterCall ret).cpu.eip = m.given m.table.current := by
  obtain ⟨cs, stacked⟩ := invariant.sched.stacked
  have word : m.cpu.esp < 2 ^ 32 := Nat.lt_of_le_of_lt room.2 (stackHigh_lt stacked invariant.able)
  obtain ⟨lower, upper⟩ := room
  have down : sub32 m.cpu.esp 4 = m.cpu.esp - 4 := sub32_of_le (by omega) word
  constructor
  · rw [Machine.enterCall, Machine.push, down]
    apply invariant.stored
    intro a changed
    have here : a = m.cpu.esp - 4 := by
      by_contra other
      apply changed
      exact Function.update_of_ne other ret m.heap.mem
    exact .inl ⟨by omega, by omega⟩
  · exact invariant.entries _ invariant.sched.seated.inside

/-! ### sched_spawn -/

/-- A new thread is suspended before its first switch. -/
theorem suspended_fresh {m : Machine} {k top : Nat} {h : Mm.Heap} (other : k ≠ 0) (saved : m.saved k = none)
    (high : stackHigh L m.table k = top) (word : top < 2 ^ 32) (heap : m.heap = (pushWords h top (firstFrame trampoline)).1)
    (esp : (m.table.threads k).esp = (pushWords h top (firstFrame trampoline)).2) : Suspended L trampoline m k := by
  have size : stackHigh L m.table k = stackLow L m.table k + stackSize := by
    rw [stackHigh, stackLow, if_neg other, if_neg other]
  have large : 24 ≤ stackSize := by decide
  have context : contextOf L trampoline m k = fresh trampoline top := by
    rw [contextOf, saved, Option.getD_none, high]
  have length : (firstFrame trampoline).length = 6 := rfl
  have low : (pushWords h top (firstFrame trampoline)).2 = top - 24 := by
    rw [pushWords_sp (by rw [length]; omega) word, length]
  -- sched_spawn pushes what the first switch pops
  have words : firstFrame trampoline = [] ++ (fresh trampoline top).words := rfl
  have framed : Framed (pushWords h top ([] ++ (fresh trampoline top).words)).1.mem (top - 24) (fresh trampoline top) :=
    pushWords_framed (by rw [List.length_nil]; omega) word rfl
  constructor
  · rw [context, esp, low, heap, words]
    exact framed
  · rw [esp, low]
    omega
  · rw [context, high]
    exact Nat.le_refl top
  · intro a lower upper
    rw [context] at lower
    rw [high] at upper
    exact absurd upper (Nat.not_lt.mpr lower)

/-- Without a stack, sched_spawn clears an entry that no thread uses. -/
theorem Inv.spawn_failed {m : Machine} (invariant : Inv L trampoline m) {h : Mm.Heap}
    (sched : Sched.Inv ⟨m.table.setStackBase m.table.count 0, h, m.live, fun _ => false⟩)
    (mem : ∀ k, (m.table.threads k).state ≠ .dead → ∀ a, OnStack L m.table k a → h.mem a = m.heap.mem a) :
    Inv L trampoline { m with table := m.table.setStackBase m.table.count 0, heap := h } := by
  have dead := invariant.sched.seated.unused m.table.count (Nat.le_refl _)
  constructor
  · exact sched
  · rw [setStackBase_state]
    exact invariant.boot
  · exact invariant.few
  · intro k bound
    rw [setStackBase_entry]
    exact invariant.entries k bound
  · intro k other able
    rw [setStackBase_state] at able
    apply (invariant.suspended k other able).congr
    · exact setStackBase_esp ..
    · rw [setStackBase_stackBase, if_neg]
      rintro rfl
      exact able dead
    · rfl
    · exact mem k able

/-- With a stack, sched_spawn lays out the first frame of a new thread and leaves the others alone. -/
theorem Inv.spawn_done {m : Machine} (invariant : Inv L trampoline m) {entry base : Nat} {t : Table Nat} {h : Mm.Heap}
    (done : spawnOn trampoline entry m.table h base =
      (t, (pushWords h (add32 base stackSize) (firstFrame trampoline)).1, some m.table.count)) (given : base ≠ 0)
    (few : m.table.count < maxThreads)
    (sched : Sched.Inv ⟨t, (pushWords h (add32 base stackSize) (firstFrame trampoline)).1,
      obtained t (some m.table.count) ++ m.live, fun _ => false⟩)
    (mem : ∀ k, (m.table.threads k).state ≠ .dead → ∀ a, OnStack L m.table k a → h.mem a = m.heap.mem a) :
    Inv L trampoline (m.spawned entry t (pushWords h (add32 base stackSize) (firstFrame trampoline)).1
      (some m.table.count)) := by
  have dead := invariant.sched.seated.unused m.table.count (Nat.le_refl _)
  rcases spawnOn_cases trampoline entry m.table h base with
    ⟨zero, -⟩ | ⟨-, t', done', current, count, state, bases, entries, esps⟩
  · exact absurd zero given
  cases done.symm.trans done'
  have other : m.table.count ≠ 0 := Nat.ne_of_gt (Nat.zero_lt_of_lt invariant.sched.seated.inside)
  have base' : (t.threads m.table.count).stackBase = base := (bases _).trans (if_pos rfl)
  have high : stackHigh L t m.table.count = base + stackSize := by rw [stackHigh, if_neg other, base']
  have new : (t.threads m.table.count).state ≠ .dead := by
    rw [state, if_pos rfl]
    decide
  obtain ⟨ds, stacked⟩ := sched.stacked
  have word : base + stackSize < 2 ^ 32 := by
    rw [← high]
    exact stackHigh_lt stacked new
  have top : add32 base stackSize = base + stackSize := add32_of_lt word
  rw [top] at sched esps stacked ⊢
  have room : Room L t m.table.count (base + stackSize) 24 := by
    have large : 24 ≤ stackSize := by decide
    rw [Room, high, stackLow, if_neg other, base']
    exact ⟨by omega, Nat.le_refl _⟩
  have six : 4 * (firstFrame trampoline).length ≤ 24 := Nat.le_refl 24
  constructor
  · exact sched
  · show (t.threads 0).state ≠ .dead
    rw [state, if_neg (Ne.symm other)]
    exact invariant.boot
  · show t.count ≤ maxThreads
    rw [count]
    exact few
  · intro k bound
    show (t.threads k).entry = Function.update m.given m.table.count entry k
    have bound : k < m.table.count + 1 := count ▸ bound
    rw [entries]
    by_cases last : k = m.table.count
    · subst last
      rw [if_pos rfl, Function.update_self]
    · rw [if_neg last, Function.update_of_ne last]
      exact invariant.entries k (by omega)
  · intro k away able
    by_cases last : k = m.table.count
    · subst last
      apply suspended_fresh other
      · exact Function.update_self ..
      · exact high
      · exact word
      · rfl
      · exact (esps _).trans (if_pos rfl)
    · have same : (t.threads k).state = (m.table.threads k).state := (state k).trans (if_neg last)
      have kept : (t.threads k).stackBase = (m.table.threads k).stackBase := (bases k).trans (if_neg last)
      have able' : (m.table.threads k).state ≠ .dead := same ▸ able
      apply (invariant.suspended k (current ▸ away) able').congr
      · exact (esps k).trans (if_neg last)
      · exact kept
      · exact Function.update_of_ne last ..
      · intro a on
        have on' : OnStack L t k a := by
          rw [OnStack, stackLow_congr kept, stackHigh_congr kept]
          exact on
        rw [← mem k able' a on]
        -- the first frame lies in the new stack
        by_contra changed
        exact stacks_apart stacked last able new on' (pushed_onStack room six word changed)

theorem Inv.spawn {m : Machine} (invariant : Inv L trampoline m) {entry : Nat} {t : Table Nat} {h : Mm.Heap}
    {r : Option Nat} (returned : Returns (schedSpawn trampoline entry m.table m.heap) (t, h, r)) :
    Inv L trampoline (m.spawned entry t h r) := by
  obtain ⟨sched, -⟩ := schedSpawn_inv invariant.sched returned
  obtain ⟨-, cs, stacked⟩ := invariant.sched
  rcases schedSpawn_cases stacked returned with ⟨-, same⟩ | ⟨few, h', base, taken, same⟩
  · cases same
    apply invariant.kept
    · exact sched
    · rfl
    · rfl
    · rfl
    · exact fun _ _ _ _ _ => rfl
  have apart (k : Nat) (able : (m.table.threads k).state ≠ .dead) (a : Nat) (on : OnStack L m.table k a) :
      h'.mem a = m.heap.mem a := stacked.tracks.kmalloc_frame taken (onStack_foreign stacked able on)
  rcases spawnOn_cases trampoline entry m.table h' base with ⟨rfl, failed⟩ | ⟨given, t', done, -⟩
  · rw [failed] at same
    cases same
    exact invariant.spawn_failed sched apart
  · have outcome := same.trans done
    cases outcome
    exact invariant.spawn_done done given few sched apart

/-! ### sched_exit -/

/-- While boot's thread can run, sched_exit hands the CPU over. -/
theorem bury_next {s : Table Nat} (other : s.current ≠ 0) (inside : s.current < s.count)
    (boot : (s.threads 0).state ≠ .dead) : ∃ next, next ≠ s.current ∧ (s.threads next).state ≠ .dead ∧
      bury s = ((s.setState s.current .dead).handOver next, false) := by
  have first : 0 < s.count := Nat.zero_lt_of_lt inside
  rcases bury_cases s with ⟨missed, -⟩ | ⟨next, found, same⟩
  · have dead := nextReady_none missed inside 0 first
    rw [setState_state, if_neg (Ne.symm other)] at dead
    exact absurd dead boot
  · obtain ⟨-, away, able⟩ := nextReady_buried found first
    exact ⟨next, away, able, same⟩

/-- sched_exit in one piece: the dead thread's last calls, and the next thread's frame popped. -/
theorem exitCall_eq {m : Machine} {ret : Nat} {s : Table Nat} {h : Mm.Heap} (goes : (bury s).2 = false)
    (room : 8 ≤ m.cpu.esp) (word : m.cpu.esp < 2 ^ 32)
    (fits : ((bury s).1.threads (bury s).1.current).esp + 24 < 2 ^ 32) :
    m.exitCall L ret s h =
      { m with
        cpu := m.cli.cpu.popped
          (pushWords h m.cpu.esp [((bury s).1.threads (bury s).1.current).esp, ret]).1.mem
          ((bury s).1.threads (bury s).1.current).esp
        table := (bury s).1
        heap := (pushWords h m.cpu.esp [((bury s).1.threads (bury s).1.current).esp, ret]).1
        live := m.live.erase (m.table.threads m.table.current).stackBase } := by
  have jump := run_schedJump L { m.cli with
    table := (bury s).1
    heap := h
    live := m.live.erase (m.table.threads m.table.current).stackBase } ret room word fits
  rw [Machine.exitCall]
  dsimp only
  rw [goes, if_neg (by decide)]
  exact jump

theorem Inv.exit {m : Machine} (invariant : Inv L trampoline m) (ret : Nat) {s : Table Nat} {h : Mm.Heap}
    (other : m.table.current ≠ 0) (room : Room L m.table m.table.current m.cpu.esp 8)
    (returned : Returns (freeStack m.table m.heap) (s, h)) :
    Inv L trampoline (m.exitCall L ret s h) ∧ Switches L trampoline m (m.exitCall L ret s h) := by
  obtain ⟨sched, dead⟩ := schedExit_inv invariant.sched (returned.map fun r => ((bury r.1).1, r.2, (bury r.1).2))
  obtain ⟨seated, cs, stacked⟩ := invariant.sched
  obtain ⟨p, n, -, base, -⟩ := stacked.blocks m.table.current other invariant.able
  have held : (m.table.threads m.table.current).stackBase ≠ 0 := by
    rw [base]
    exact Mm.payload_ne_zero p
  have member := stacked.base_mem held
  obtain ⟨bare, freed⟩ := freeStack_eq stacked held returned
  have boot : (s.threads 0).state ≠ .dead := by
    rw [bare, setStackBase_state]
    exact invariant.boot
  have current : s.current = m.table.current := by rw [bare]; rfl
  have count : s.count = m.table.count := by rw [bare]; rfl
  obtain ⟨next, away, able, buried⟩ := bury_next (current ▸ other) (by rw [current, count]; exact seated.inside) boot
  rw [current] at away
  rw [bare, setStackBase_state] at able
  have goes : (bury s).2 = false := by rw [buried]
  have target : (bury s).1.current = next := by rw [buried]; rfl
  have count' : (bury s).1.count = m.table.count := by rw [buried, ← count]; rfl
  have esp (k : Nat) : ((bury s).1.threads k).esp = (m.table.threads k).esp := by
    rw [buried, handOver_esp, setState_esp, bare, setStackBase_esp]
  have entry (k : Nat) : ((bury s).1.threads k).entry = (m.table.threads k).entry := by
    rw [bury_entry, bare, setStackBase_entry]
  have bases (k : Nat) (away : k ≠ m.table.current) :
      ((bury s).1.threads k).stackBase = (m.table.threads k).stackBase := by
    rw [bury_stackBase, bare, setStackBase_stackBase, if_neg away]
  have state (k : Nat) : ((bury s).1.threads k).state =
      if k = next then .running else if k = m.table.current then .dead else (m.table.threads k).state := by
    rw [buried, handOver_state, setState_state, current, bare, setStackBase_state]
  have newEsp : ((bury s).1.threads (bury s).1.current).esp = (m.table.threads next).esp := by rw [target, esp]
  have word : m.cpu.esp < 2 ^ 32 := Nat.lt_of_le_of_lt room.2 (stackHigh_lt stacked invariant.able)
  rw [goes, if_neg (by decide)] at sched
  rw [exitCall_eq goes (Nat.le_trans (Nat.le_add_left ..) room.1) word
    (by rw [newEsp]; exact invariant.frame_fits away able), newEsp]
  -- the calls are pushed on the stack that was given back
  have two : 4 * [(m.table.threads next).esp, ret].length ≤ 8 := Nat.le_refl 8
  have own (a : Nat) (changed : (pushWords h m.cpu.esp [(m.table.threads next).esp, ret]).1.mem a ≠ h.mem a) :
      OnStack L m.table m.table.current a := pushed_onStack room two word changed
  have head := pushWords_head h m.cpu.esp [(m.table.threads next).esp, ret]
  generalize pushWords h m.cpu.esp [(m.table.threads next).esp, ret] = q at own head ⊢
  obtain ⟨⟨mem, _⟩, sp⟩ := q
  simp only at own head ⊢
  subst head
  obtain ⟨seated', ds, stacked'⟩ := sched
  refine HandsOver.keeps (?_ : HandsOver L m _ next) invariant ⟨seated', ds, ?_⟩ (.inl ⟨?_, other⟩)
  · constructor
    · exact away
    · exact able
    · exact target
    · exact count'
    · rfl
    · exact entry
    · intro k other'
      show ((bury s).1.threads k).state = .dead ↔ _
      by_cases here : k = next
      · subst here
        rw [state, if_pos rfl]
        exact ⟨fun is => absurd is (by decide), fun is => absurd is able⟩
      · rw [state, if_neg here, if_neg other']
    · exact fun k _ => esp k
    · exact bases
    · exact fun _ _ => rfl
    · intro k other' able' a on
      show mem a = m.heap.mem a
      rw [← stacked.tracks.kfree_frame member freed (onStack_noHeader stacked able' on)]
      by_contra changed
      exact stacks_apart stacked (Ne.symm other') invariant.able able' (own a changed) on
    · exact ⟨_, rfl⟩
  · apply stacked_of_mem stacked'
    intro a changed
    apply stacked.tracks.kfree_noHeader member freed stacked'.tracks.represents
    exact onStack_noHeader stacked invariant.able (own a changed)
  · show ((bury s).1.threads m.table.current).state = .dead
    rw [state, if_neg (Ne.symm away), if_pos rfl]

/-! ### Whole runs -/

theorem Switches.restores {m m' : Machine} {e : Event} (switches : Switches L trampoline m m')
    (calls : ∀ ret, e ≠ .enter ret) : Restores L trampoline m e m' := by
  constructor
  · exact fun moved => (switches moved).1
  · exact fun moved => (switches moved).2
  · exact fun ret is => absurd is (calls ret)

theorem restores_of_current {m m' : Machine} {e : Event} (same : m'.table.current = m.table.current)
    (calls : ∀ ret, e ≠ .enter ret) : Restores L trampoline m e m' := by
  apply Switches.restores
  · exact fun moved => absurd same moved
  · exact calls

theorem Inv.boot_start (L : Layout) (trampoline : Nat) (cpu : Cpu) (s : Table Nat) {h : Mm.Heap} {live : List Nat}
    (heap : Mm.Reachable h live) : Inv L trampoline (Contexts.boot cpu s h live) := by
  constructor
  · exact inv_boot s heap
  · have running : ((schedInit s).threads 0).state = .running := rfl
    show ((schedInit s).threads 0).state ≠ .dead
    rw [running]
    decide
  · show 1 ≤ maxThreads
    decide
  · intro k bound
    have first : k = 0 := Nat.lt_one_iff.mp bound
    subst first
    rfl
  · intro k other able
    have dead : ((schedInit s).threads k).state = .dead := congrArg Thread.state (if_neg other)
    exact absurd dead able

/-- sched_yield enables interrupts before it switches. -/
theorem Inv.yieldCall {m : Machine} (invariant : Inv L trampoline m) (ret : Nat)
    (room : Room L m.table m.table.current m.cpu.esp 32) :
    Inv L trampoline (m.yieldCall L ret) ∧ Switches L trampoline m (m.yieldCall L ret) := by
  have enabled : Inv L trampoline m.sti := by
    apply invariant.kept
    · exact invariant.sched
    · rfl
    · rfl
    · rfl
    · exact fun _ _ _ _ _ => rfl
  exact enabled.switchAway ret room

/-- What one step keeps, and what it goes on with. -/
theorem Step.keeps {m m' : Machine} {e : Event} (invariant : Inv L trampoline m) (taken : Step L trampoline m e m') :
    Inv L trampoline m' ∧ Restores L trampoline m e m' := by
  cases taken with
  | work allowed =>
    exact ⟨invariant.stored _ allowed, restores_of_current rfl fun ret is => by cases is⟩
  | yield room =>
    obtain ⟨next, switches⟩ := invariant.yieldCall _ room
    exact ⟨next, switches.restores fun ret is => by cases is⟩
  | tick room =>
    obtain ⟨next, switches⟩ := invariant.switchAway _ room
    exact ⟨next, switches.restores fun ret is => by cases is⟩
  | spawn returned =>
    have same := schedSpawn_current returned
    exact ⟨invariant.spawn returned, restores_of_current same fun ret is => by cases is⟩
  | exit other room returned =>
    obtain ⟨next, switches⟩ := invariant.exit _ other room returned
    exact ⟨next, switches.restores fun ret is => by cases is⟩
  | @enter ret _ room =>
    obtain ⟨next, calls⟩ := invariant.enter ret room
    have same := congrArg Table.current (enterCall_table m ret)
    refine ⟨next, ?_, ?_, ?_⟩
    · exact fun moved => absurd same moved
    · exact fun moved => absurd same moved
    · exact fun _ _ => calls
  | kmalloc returned =>
    exact ⟨invariant.kmalloc returned, restores_of_current rfl fun ret is => by cases is⟩
  | kfree member foreign returned =>
    exact ⟨invariant.kfree member foreign returned, restores_of_current rfl fun ret is => by cases is⟩

/-- In every run, each switch continues a suspended thread where and as it was, or enters a new
one through the trampoline, and the trampoline calls the entry that the thread was spawned with. -/
theorem run_restores (L : Layout) (trampoline : Nat) (cpu : Cpu) (s : Table Nat) {h : Mm.Heap} {live : List Nat}
    (heap : Mm.Reachable h live) {moves : List (Move Machine Event)} {m : Machine}
    (run : Run (Step L trampoline) (boot cpu s h live) moves m) :
    ∀ move ∈ moves, Restores L trampoline move.before move.event move.after := by
  have start := Inv.boot_start L trampoline cpu s heap
  obtain ⟨-, before⟩ := run.invariant (Inv L trampoline) (fun invariant taken => (Step.keeps invariant taken).1) start
  intro move member
  exact (Step.keeps (before move member).1 (run.steps move member)).2

/-- Boot's stack and the thread table below the first MiB. -/
def lowLayout : Layout where
  bootLow := 0x90000
  bootHigh := 0x9F000
  threads := 0x10000
  bootFits := by decide
  bootApart := .inl (by decide)
  threadsFit := by decide
  threadsApart := .inl (by decide)
  threadsOffBoot := .inl (by decide)

def bootCpu : Cpu := ⟨0, 0, 0, 0, 0, 0x9F000, 0x202, 0⟩

/-- Boot spawns a thread and the timer switches to it. -/
theorem run_restores_spawn_tick : ∃ moves m,
    Run (Step lowLayout 0x1000) (boot bootCpu blankTable blankHeap []) moves m ∧
      moves.map Move.event = [.spawn 0x2000, .tick 0x3000] ∧ m.table.current = 1 ∧
      ∀ move ∈ moves, Restores lowLayout 0x1000 move.before move.event move.after := by
  have tracks : Mm.Tracks blankHeap [] [⟨Mm.heapSize - Mm.blockHdr, true⟩] := Mm.tracks_mmInit _
  obtain ⟨h, base, given, taken⟩ : ∃ h base, base ≠ 0 ∧ Returns (Mm.kmalloc blankHeap stackSize) (h, base) := by
    rcases tracks.kmalloc stackSize with ⟨-, failed⟩ | ⟨h, p, ds, -, taken, -⟩
    · exact absurd (failed (by decide)) (by decide)
    · exact ⟨h, _, Mm.payload_ne_zero p, taken⟩
  have few : ¬ (schedInit blankTable).count ≥ maxThreads := by decide
  rcases spawnOn_cases 0x1000 0x2000 (schedInit blankTable) h base with
    ⟨zero, -⟩ | ⟨-, t, done, current, count, state, -⟩
  · exact absurd zero given
  have spawned := (taken.map fun r => spawnOn 0x1000 0x2000 (schedInit blankTable) r.1 r.2).congr fun budget =>
    (if_neg few : schedSpawn 0x1000 0x2000 (schedInit blankTable) blankHeap budget = _).symm
  simp only [done] at spawned
  have first : Step lowLayout 0x1000 (boot bootCpu blankTable blankHeap []) (.spawn 0x2000) _ := .spawn spawned
  have invariant := (first.keeps (Inv.boot_start lowLayout 0x1000 bootCpu blankTable (.init _))).1
  generalize after : Machine.spawned _ _ _ _ _ = m at first invariant
  have table : m.table = t := by rw [← after]; rfl
  have cpu : m.cpu = bootCpu := by rw [← after]; rfl
  have zero : m.table.current = 0 := by rw [table, current]; rfl
  have two : m.table.count = 2 := by rw [table, count]; rfl
  have ready : (m.table.threads 1).state = .ready := by rw [table, state]; rfl
  have able : (m.table.threads 1).state ≠ .dead := by
    rw [ready]
    decide
  obtain ⟨next, found, other⟩ := nextReady_other (s := m.table) (i := 1) (by omega) (by omega) (by omega) able
  have bounds := nextReady_some found (by omega)
  have room : Room lowLayout m.table m.table.current m.cpu.esp 32 := by
    rw [zero, cpu, Room, stackLow, stackHigh, if_pos rfl, if_pos rfl]
    decide
  refine ⟨_, _, .cons first (.single (.tick room)), rfl, ?_, run_restores lowLayout 0x1000 bootCpu blankTable (.init _)
    (.cons first (.single (.tick room)))⟩
  have fits := invariant.frame_fits other bounds.2
  rw [Machine.tickCall,
    switchAway_eq found other (by rw [zero]; decide) (by rw [cpu]; decide) (by rw [cpu]; decide) fits]
  show (Sched.switchAway (m.cpu.esp - 32) m.table).current = 1
  rw [Sched.switchAway, found]
  simp only [if_neg other, setEsp_current, handOver_current]
  omega

end ChrisOS.Kernel.Sched.Contexts
