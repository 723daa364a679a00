import ChrisOS.Kernel.Sched.Contexts

/-! Suspended threads and their stacks.

A suspended thread has a frame on its stack: the one that sched_switch pushed, or the one
that sched_spawn laid out for the first switch. No two threads share a word of their stacks.
-/

set_option autoImplicit false

namespace ChrisOS.Kernel.Sched.Contexts
open ChrisOS.Lib ChrisOS.Lib.Tiling

/-- The frame of a context lies at this address. -/
structure Framed (mem : Nat → Nat) (e : Nat) (c : Context) : Prop where
  ebp : mem e = c.ebp
  edi : mem (e + 4) = c.edi
  esi : mem (e + 8) = c.esi
  ebx : mem (e + 12) = c.ebx
  eflags : mem (e + 16) = c.eflags
  ret : mem (e + 20) = c.ret
  esp : e + 24 = c.esp

/-- What the first switch to a thread finds, with `top` the upper end of its stack. -/
def fresh (trampoline top : Nat) : Context := ⟨trampoline, 0, 0, 0, 0, 0x202, top, fun _ => 0⟩

def contextOf (L : Layout) (trampoline : Nat) (m : Machine) (k : Nat) : Context :=
  (m.saved k).getD (fresh trampoline (stackHigh L m.table k))

structure Suspended (L : Layout) (trampoline : Nat) (m : Machine) (k : Nat) : Prop where
  framed : Framed m.heap.mem (m.table.threads k).esp (contextOf L trampoline m k)
  low : stackLow L m.table k ≤ (m.table.threads k).esp
  high : (contextOf L trampoline m k).esp ≤ stackHigh L m.table k
  stack : ∀ a, (contextOf L trampoline m k).esp ≤ a → a < stackHigh L m.table k →
    m.heap.mem a = (contextOf L trampoline m k).stack a

structure Inv (L : Layout) (trampoline : Nat) (m : Machine) : Prop where
  sched : Sched.Inv ⟨m.table, m.heap, m.live, fun _ => false⟩
  boot : (m.table.threads 0).state ≠ .dead
  few : m.table.count ≤ maxThreads
  entries : ∀ k, k < m.table.count → (m.table.threads k).entry = m.given k
  suspended : ∀ k, k ≠ m.table.current → (m.table.threads k).state ≠ .dead → Suspended L trampoline m k

/-! ### Frames -/

section Frames
variable {L : Layout} {trampoline : Nat}

theorem stackLow_congr {s t : Table Nat} {k : Nat} (base : (t.threads k).stackBase = (s.threads k).stackBase) :
    stackLow L t k = stackLow L s k := by
  rw [stackLow, stackLow, base]

theorem stackHigh_congr {s t : Table Nat} {k : Nat} (base : (t.threads k).stackBase = (s.threads k).stackBase) :
    stackHigh L t k = stackHigh L s k := by
  rw [stackHigh, stackHigh, base]

theorem Framed.congr {mem mem' : Nat → Nat} {e : Nat} {c : Context} (framed : Framed mem e c)
    (same : ∀ a, e ≤ a → a < c.esp → mem' a = mem a) : Framed mem' e c := by
  have fits := framed.esp
  constructor
  · exact (same e (by omega) (by omega)).trans framed.ebp
  · exact (same (e + 4) (by omega) (by omega)).trans framed.edi
  · exact (same (e + 8) (by omega) (by omega)).trans framed.esi
  · exact (same (e + 12) (by omega) (by omega)).trans framed.ebx
  · exact (same (e + 16) (by omega) (by omega)).trans framed.eflags
  · exact (same (e + 20) (by omega) (by omega)).trans framed.ret
  · exact fits

/-- The words of a frame, in the order in which they are pushed. -/
def Context.words (c : Context) : List Nat := [c.ret, c.eflags, c.ebx, c.esi, c.edi, c.ebp]

/-- Pushing the words of a context leaves its frame below its stack pointer. -/
theorem pushWords_framed {h : Mm.Heap} {sp : Nat} {ws : List Nat} {c : Context} (fits : 4 * ws.length + 24 ≤ sp)
    (word : sp < 2 ^ 32) (esp : c.esp = sp - 4 * ws.length) :
    Framed (pushWords h sp (ws ++ c.words)).1.mem (c.esp - 24) c := by
  have length : c.words.length = 6 := rfl
  have enough : 4 * (ws ++ c.words).length ≤ sp := by
    rw [List.length_append, length]
    omega
  have pushed (i w : Nat) (bound : i < 6) (there : c.words[i]? = some w) :
      (pushWords h sp (ws ++ c.words)).1.mem (c.esp - 24 + 4 * (5 - i)) = w := by
    have further : (ws ++ c.words)[ws.length + i]? = some w := by
      rw [List.getElem?_append_right (Nat.le_add_right ..), Nat.add_sub_cancel_left]
      exact there
    have place : c.esp - 24 + 4 * (5 - i) = sp - 4 * (ws.length + i + 1) := by omega
    rw [place]
    exact pushWords_word enough word further
  constructor
  · exact pushed 5 c.ebp (by decide) rfl
  · exact pushed 4 c.edi (by decide) rfl
  · exact pushed 3 c.esi (by decide) rfl
  · exact pushed 2 c.ebx (by decide) rfl
  · exact pushed 1 c.eflags (by decide) rfl
  · exact pushed 0 c.ret (by decide) rfl
  · omega

/-- A thread stays suspended while its entry, its saved context and its stack are left alone. -/
theorem Suspended.congr {m m' : Machine} {k : Nat} (suspended : Suspended L trampoline m k)
    (esp : (m'.table.threads k).esp = (m.table.threads k).esp)
    (base : (m'.table.threads k).stackBase = (m.table.threads k).stackBase) (saved : m'.saved k = m.saved k)
    (mem : ∀ a, OnStack L m.table k a → m'.heap.mem a = m.heap.mem a) : Suspended L trampoline m' k := by
  have high := stackHigh_congr (L := L) base
  have context : contextOf L trampoline m' k = contextOf L trampoline m k := by
    rw [contextOf, contextOf, saved, high]
  have frame := suspended.framed.esp
  have within := suspended.low
  have below := suspended.high
  constructor
  · rw [context, esp]
    apply suspended.framed.congr
    intro a lower upper
    exact mem a ⟨by omega, by omega⟩
  · rw [stackLow_congr base, esp]
    exact within
  · rw [context, high]
    exact below
  · intro a lower upper
    rw [context] at lower ⊢
    rw [high] at upper
    rw [mem a ⟨by omega, upper⟩]
    exact suspended.stack a lower upper

/-- Popping the frame of a suspended thread puts the CPU where the thread was, or at its start. -/
theorem Suspended.restores {m m' : Machine} {k : Nat} (suspended : Suspended L trampoline m k) {cpu : Cpu}
    (popped : m'.cpu = cpu.popped m'.heap.mem (m.table.threads k).esp) (current : m'.table.current = k)
    (base : (m'.table.threads k).stackBase = (m.table.threads k).stackBase)
    (mem : ∀ a, OnStack L m.table k a → m'.heap.mem a = m.heap.mem a) :
    (∀ c, m.saved k = some c → Continues L m' c) ∧ (m.saved k = none → Enters L trampoline m') := by
  have high := stackHigh_congr (L := L) base
  have frame := suspended.framed.esp
  have within := suspended.low
  have below := suspended.high
  have framed : Framed m'.heap.mem (m.table.threads k).esp (contextOf L trampoline m k) := by
    apply suspended.framed.congr
    intro a lower upper
    exact mem a ⟨by omega, by omega⟩
  constructor
  · intro c saved
    have context : contextOf L trampoline m k = c := by rw [contextOf, saved, Option.getD_some]
    have stack := suspended.stack
    rw [context] at framed stack frame
    constructor
    · rw [popped]
      exact framed.ret
    · rw [popped]
      exact framed.ebx
    · rw [popped]
      exact framed.esi
    · rw [popped]
      exact framed.edi
    · rw [popped]
      exact framed.ebp
    · rw [popped]
      exact framed.eflags
    · rw [popped]
      exact framed.esp
    · intro a lower upper
      rw [current, high] at upper
      rw [mem a ⟨by omega, upper⟩]
      exact stack a lower upper
  · intro saved
    have context : contextOf L trampoline m k = fresh trampoline (stackHigh L m.table k) := by
      rw [contextOf, saved, Option.getD_none]
    rw [context] at framed
    constructor
    · rw [popped]
      exact framed.ret
    · rw [popped, current, high]
      exact framed.esp
    · have flags : m'.cpu.eflags = 0x202 := by
        rw [popped]
        exact framed.eflags
      rw [flags]
      decide

end Frames

/-! ### Stacks -/

section Stacks
variable {L : Layout} {s : Table Nat} {h : Mm.Heap} {live : List Nat} {cs : List Cell}

theorem heapEnd_lt : Mm.heapEnd < 2 ^ 32 := by decide

/-- The stack of a thread that can run is boot's, or lies in a live block that its base names. -/
theorem stack_place (stacked : Stacked s h live cs) {k a : Nat} (able : (s.threads k).state ≠ .dead)
    (on : OnStack L s k a) : (k = 0 ∧ L.bootLow ≤ a ∧ a < L.bootHigh) ∨
      ∃ p n, Live Mm.blockHdr Mm.heapStart cs p n ∧ (s.threads k).stackBase = p + Mm.blockHdr ∧
        p + Mm.blockHdr ≤ a ∧ a < p + Mm.blockHdr + n := by
  obtain ⟨lower, upper⟩ := on
  by_cases boot : k = 0
  · rw [stackLow, if_pos boot] at lower
    rw [stackHigh, if_pos boot] at upper
    exact .inl ⟨boot, lower, upper⟩
  · rw [stackLow, if_neg boot] at lower
    rw [stackHigh, if_neg boot] at upper
    obtain ⟨p, n, there, base, large⟩ := stacked.blocks k boot able
    exact .inr ⟨p, n, there, base, by omega, by omega⟩

theorem onStack_foreign (stacked : Stacked s h live cs) {k a : Nat} (able : (s.threads k).state ≠ .dead)
    (on : OnStack L s k a) : Mm.Foreign cs a := by
  rcases stack_place stacked able on with ⟨-, lower, upper⟩ | ⟨p, n, there, -, lower, upper⟩
  · rcases L.bootApart with below | above
    · exact .inl (by omega)
    · exact .inr (.inl (by omega))
  · exact .inr (.inr ⟨p, n, there, lower, upper⟩)

theorem onStack_noHeader (stacked : Stacked s h live cs) {k a : Nat} (able : (s.threads k).state ≠ .dead)
    (on : OnStack L s k a) : Mm.NoHeader cs a :=
  (onStack_foreign stacked able on).noHeader stacked.tracks.represents.covers

/-- A live block's words are heap words. -/
theorem live_in_heap (stacked : Stacked s h live cs) {p n a : Nat} (there : Live Mm.blockHdr Mm.heapStart cs p n)
    (lower : p + Mm.blockHdr ≤ a) (upper : a < p + Mm.blockHdr + n) : Mm.heapStart ≤ a ∧ a < Mm.heapEnd := by
  have bounds := placed_bounds Mm.blockHdr there
  rw [stacked.tracks.represents.covers] at bounds
  have finish : Mm.heapEnd = Mm.heapStart + Mm.heapSize := rfl
  simp only at bounds
  omega

/-- No word is in the stacks of two threads that can run. -/
theorem stacks_apart (stacked : Stacked s h live cs) {i j a : Nat} (different : i ≠ j) (able : (s.threads i).state ≠ .dead)
    (able' : (s.threads j).state ≠ .dead) (on : OnStack L s i a) : ¬ OnStack L s j a := by
  intro on'
  rcases stack_place stacked able on with ⟨boot, lower, upper⟩ | ⟨p, n, there, base, lower, upper⟩ <;>
    rcases stack_place stacked able' on' with ⟨boot', lower', upper'⟩ | ⟨q, k, there', base', lower', upper'⟩
  · exact different (boot.trans boot'.symm)
  · have inside := live_in_heap stacked there' lower' upper'
    rcases L.bootApart with below | above <;> omega
  · have inside := live_in_heap stacked there lower upper
    rcases L.bootApart with below | above <;> omega
  · rcases placed_apart Mm.blockHdr there there' with ⟨rfl, -⟩ | before | after
    · -- one block is the stack of one thread
      have shared := stacked.apart i j different (base.trans base'.symm)
      exact Mm.payload_ne_zero p (base.symm.trans shared)
    · simp only at before
      omega
    · simp only at after
      omega

theorem stackHigh_lt (stacked : Stacked s h live cs) {k : Nat} (able : (s.threads k).state ≠ .dead) :
    stackHigh L s k < 2 ^ 32 := by
  rw [stackHigh]
  split
  · exact L.bootFits
  · rename_i other
    obtain ⟨p, n, there, base, large⟩ := stacked.blocks k other able
    have bounds := (placed_bounds Mm.blockHdr there).2
    rw [stacked.tracks.represents.covers] at bounds
    have finish : Mm.heapEnd = Mm.heapStart + Mm.heapSize := rfl
    have limit := heapEnd_lt
    simp only at bounds
    omega

/-- A store that is allowed hits no header and no stack of another thread that can run. -/
theorem writable_apart {m : Machine} (stacked : Stacked m.table m.heap m.live cs)
    (able : (m.table.threads m.table.current).state ≠ .dead) {a : Nat} (allowed : Writable L m a) :
    Mm.NoHeader cs a ∧ ∀ k, k ≠ m.table.current → (m.table.threads k).state ≠ .dead → ¬ OnStack L m.table k a := by
  rcases allowed with own | ⟨outside, offBoot⟩ | ⟨bs, listed, b, member, used, noStack, lower, upper⟩
  · exact ⟨onStack_noHeader stacked able own, fun k other able' => stacks_apart stacked (Ne.symm other) able able' own⟩
  · constructor
    · apply Mm.Foreign.noHeader stacked.tracks.represents.covers
      rcases outside with below | above
      · exact .inl below
      · exact .inr (.inl above)
    · intro k _ able' on
      rcases stack_place stacked able' on with ⟨-, inside⟩ | ⟨p, n, there, -, lower, upper⟩
      · exact offBoot inside
      · have inside := live_in_heap stacked there lower upper
        omega
  · cases listed.unique (Mm.blocks_returns stacked.tracks.represents)
    obtain ⟨⟨p, c⟩, there, rfl⟩ := List.mem_map.mp member
    have taken : c.free = false := by simpa [Mm.blockOf] using used
    have there' : Live Mm.blockHdr Mm.heapStart cs p c.size := by
      rw [Live, ← taken]
      exact there
    have lower : p + Mm.blockHdr ≤ a := lower
    have upper : a < p + Mm.blockHdr + c.size := upper
    constructor
    · exact Mm.Foreign.noHeader stacked.tracks.represents.covers (.inr (.inr ⟨p, c.size, there', lower, upper⟩))
    · intro k _ able' on
      rcases stack_place stacked able' on with ⟨-, inside⟩ | ⟨q, n, there'', base, lower', upper'⟩
      · have inside' := live_in_heap stacked there' lower upper
        rcases L.bootApart with below | above <;> omega
      · rcases placed_apart Mm.blockHdr there' there'' with ⟨rfl, -⟩ | before | after
        · exact noStack k base
        · simp only at before
          omega
        · simp only at after
          omega

theorem stacked_of_mem (stacked : Stacked s h live cs) {mem : Nat → Nat}
    (frame : ∀ a, mem a ≠ h.mem a → Mm.NoHeader cs a) : Stacked s { h with mem := mem } live cs :=
  ⟨stacked.tracks.of_mem frame, stacked.bare, stacked.boot, stacked.apart, stacked.blocks⟩

/-- What is pushed with room on a stack changes words of that stack only. -/
theorem pushed_onStack {k sp n : Nat} {ws : List Nat} (room : Room L s k sp n) (length : 4 * ws.length ≤ n)
    (word : sp < 2 ^ 32) {a : Nat} (changed : (pushWords h sp ws).1.mem a ≠ h.mem a) : OnStack L s k a := by
  obtain ⟨lower, upper⟩ := room
  by_contra outside
  apply changed
  apply pushWords_frame (by omega) word
  by_contra inside
  apply outside
  exact ⟨by omega, by omega⟩

end Stacks

end ChrisOS.Kernel.Sched.Contexts
