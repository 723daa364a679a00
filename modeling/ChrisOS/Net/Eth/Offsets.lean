import ChrisOS.Net.Eth.Polling

/-! The two computations of offsets: rx_offset and CAPR in the driver, and where the card
stores frames, over runs in which calls of eth_poll do not nest.
-/

set_option autoImplicit false

namespace ChrisOS.Net.Eth
open ChrisOS.Lib

def readsHeader (s : Machine) : Event → Bool
  | .tick =>
    match s.stack with
    | ⟨_, .header⟩ :: _ => true
    | _ => false
  | _ => false

/-- rx_offset is where the card stored the oldest unread frame, and the last value of CAPR is that offset
less 16 modulo the size of the ring. -/
structure Synced (s : Machine) : Prop where
  unread : s.passed < s.stored.length
  offset : s.rxOffset = s.offset s.passed
  capr : ∀ v, s.nic.capr = some v → v = (s.offset s.passed + ringSize - 16) % ringSize

/-- rx_offset has not reached the end of the ring, and is behind its first 16 bytes once CAPR has been written. -/
def InRing (s : Machine) : Prop := s.rxOffset < ringSize ∧ (s.nic.capr = none ∨ 16 ≤ s.rxOffset)

instance (s : Machine) : Decidable (InRing s) := inferInstanceAs (Decidable (_ ∧ _))

/-- The last move of rx_offset has been followed by a write to CAPR. -/
def Point.released : Point → Bool
  | .handling _ | .advanced | .resynced => false
  | _ => true

theorem readsHeader_iff {s : Machine} {e : Event} :
    readsHeader s e = true ↔ e = .tick ∧ ∃ budget outer, s.stack = ⟨budget, .header⟩ :: outer := by
  constructor
  · intro reads
    cases e with
    | call | receive | raise => cases reads
    | tick =>
      refine ⟨rfl, ?_⟩
      rw [readsHeader] at reads
      split at reads
      · rename_i budget outer top
        exact ⟨budget, outer, top⟩
      · cases reads
  · rintro ⟨rfl, budget, outer, top⟩
    simp only [readsHeader, top]

theorem clear_of_not_reads {s : Machine} {e : Event} (other : ¬ readsHeader s e = true) : clear s e = true := by
  cases e with
  | call | receive | raise => rfl
  | tick =>
    rw [clear]
    split
    · rename_i top
      simp [readsHeader, top] at other
    · rfl

/-- CAPR follows rx_offset. -/
structure InStep (r : Nat) (s : Machine) : Prop where
  inv : Inv r s
  released : (∀ a ∈ s.stack, a.point.released = true) →
    r = s.passed ∧ ∀ v, s.nic.capr = some v → v = (s.rxOffset + 32768 - 16) % 32768

theorem released_cons {a : Activation} {outer : List Activation} (here : a.point.released = true)
    (below : ∀ b ∈ outer, b.point.released = true) : ∀ b ∈ a :: outer, b.point.released = true :=
  List.forall_mem_cons.mpr ⟨here, below⟩

theorem InStep.step {r : Nat} {s t : Machine} {e : Event} (inStep : InStep r s) (admitted : clear s e = true)
    (taken : Step s e t) : InStep (releases r s e) t := by
  have invariant := inStep.inv.step admitted taken
  have released := inStep.released
  cases e with
  | call =>
    cases taken
    refine ⟨invariant, ?_⟩
    split
    · exact fun calm => released fun a member => calm a (.tail _ member)
    · exact released
  | receive p =>
    obtain ⟨-, rfl⟩ := step_receive_cases taken
    exact ⟨invariant, released⟩
  | raise bits =>
    cases taken
    exact ⟨invariant, released⟩
  | tick =>
    obtain ⟨budget, point, outer, top, rfl⟩ := step_tick_cases taken
    refine ⟨invariant, ?_⟩
    rw [top] at released
    rw [releases, top]
    cases point with
    | loop | isrAcked =>
      rw [Machine.turn]
      split
      · exact fun calm => released (released_cons rfl calm)
      · exact fun calm => released (released_cons rfl (List.forall_mem_cons.mp calm).2)
    | isrRead => exact fun calm => released (released_cons rfl (List.forall_mem_cons.mp calm).2)
    | header =>
      rw [Machine.turn]
      split
      · exact fun calm => released (released_cons rfl (List.forall_mem_cons.mp calm).2)
      · exact fun calm => absurd (calm _ (.head _)) Bool.false_ne_true
    -- rx_offset has moved and CAPR is still to follow
    | handling | badPacket => exact fun calm => absurd (calm _ (.head _)) Bool.false_ne_true
    | advanced | resynced => exact fun _ => ⟨rfl, fun v last => (Option.some.inj last).symm⟩

/-- A header read of the outermost activation, in the ring and behind its first 16 bytes, finds driver and card in
step. -/
theorem InStep.synced {r : Nat} {s : Machine} (inStep : InStep r s) {budget : Nat} {outer : List Activation}
    (top : s.stack = ⟨budget, .header⟩ :: outer) (admitted : clear s .tick = true)
    (below : ∀ a ∈ outer, a.point.released = true) (past : s.nic.capr = none ∨ 16 ≤ s.rxOffset) : Synced s := by
  obtain ⟨-, whole, unread, unwrapped⟩ := clear_header top admitted
  have here := inStep.inv.idle whole
  rw [Nat.mod_eq_of_lt unwrapped] at here
  have written := (inStep.released (by rw [top]; exact released_cons rfl below)).2
  refine ⟨unread, here, fun v last => ?_⟩
  rw [last] at past
  have far : 16 ≤ s.rxOffset := past.resolve_left (by simp)
  rw [written v last, ← here]
  rw [ringSize_eq] at unwrapped ⊢
  omega

/-! ### Nested calls that read no header -/

/-- Only the outermost activation may be further than its header read, and it has a frame to read there. -/
def OnlyLast (unread : Prop) : List Activation → Prop
  | [] => True
  | [a] => a.point = .header → unread
  | a :: b :: outer => a.point.waits = true ∧ OnlyLast unread (b :: outer)

theorem OnlyLast.mono {before after : Prop} (weaken : before → after) {stack : List Activation}
    (only : OnlyLast before stack) : OnlyLast after stack := by
  induction stack with
  | nil => trivial
  | cons a outer ih =>
    cases outer with
    | nil => exact fun header => weaken (only header)
    | cons b outer => exact ⟨only.1, ih only.2⟩

/-- What may be on top of other activations, or alone without being at a header. -/
theorem OnlyLast.push {unread : Prop} {a : Activation} {outer : List Activation} (only : OnlyLast unread outer)
    (waits : a.point.waits = true) (other : a.point = .header → unread) : OnlyLast unread (a :: outer) := by
  cases outer with
  | nil => exact other
  | cons b outer => exact ⟨waits, only⟩

theorem OnlyLast.tail {unread : Prop} {a : Activation} {outer : List Activation} (only : OnlyLast unread (a :: outer)) :
    OnlyLast unread outer := by
  cases outer with
  | nil => trivial
  | cons b outer => exact only.2

/-- Only the outermost activation reads headers. -/
def Alone (s : Machine) (e : Event) : Prop := readsHeader s e = true → s.stack.length = 1

structure Solo (r : Nat) (s : Machine) : Prop where
  inStep : InStep r s
  onlyLast : OnlyLast (s.passed < s.stored.length) s.stack

/-- The activation that reads a header is the only one, and its frame is there. -/
theorem Solo.reader {r : Nat} {s : Machine} (solo : Solo r s) {e : Event} (alone : Alone s e)
    (reads : readsHeader s e = true) :
    e = .tick ∧ (∃ budget, s.stack = [⟨budget, .header⟩]) ∧ s.passed < s.stored.length := by
  obtain ⟨tick, budget, outer, top⟩ := readsHeader_iff.mp reads
  have single := alone reads
  have only := solo.onlyLast
  rw [top] at single only
  cases outer with
  | nil => exact ⟨tick, ⟨budget, top⟩, only rfl⟩
  | cons b outer => simp at single

theorem Solo.clear {r : Nat} {s : Machine} (solo : Solo r s) {e : Event} (alone : Alone s e)
    (unwrapped : readsHeader s e = true → s.rxOffset < ringSize) : clear s e = true := by
  by_cases reads : readsHeader s e = true
  · obtain ⟨rfl, ⟨budget, top⟩, unread⟩ := solo.reader alone reads
    simp only [Eth.clear, top, Bool.and_eq_true, decide_eq_true_eq]
    exact ⟨⟨rfl, unread⟩, unwrapped reads⟩
  · exact clear_of_not_reads reads

/-- At a header read, the driver and the card agree exactly while rx_offset has not reached the end of the
ring; the value of CAPR is right from offset 16 on. -/
theorem Solo.synced_iff {r : Nat} {s : Machine} (solo : Solo r s) {e : Event} (alone : Alone s e)
    (reads : readsHeader s e = true) :
    Synced s ↔ InRing s := by
  obtain ⟨rfl, ⟨budget, top⟩, unread⟩ := solo.reader alone reads
  constructor
  · rintro ⟨-, offset, capr⟩
    have bound := offset_lt s s.passed
    rw [← offset] at bound capr
    refine ⟨bound, ?_⟩
    cases last : s.nic.capr with
    | none => exact .inl rfl
    | some v =>
      have expected := capr v last
      have written := (solo.inStep.released (by rw [top]; exact released_cons rfl (List.forall_mem_nil _))).2 v last
      rw [written, ringSize_eq] at expected
      rw [ringSize_eq] at bound
      -- below 16, CAPR wraps at 32768 and not at the ring
      exact .inr (by omega)
  · rintro ⟨unwrapped, past⟩
    exact solo.inStep.synced top (solo.clear alone fun _ => unwrapped) (List.forall_mem_nil _) past

theorem Solo.step {r : Nat} {s t : Machine} {e : Event} (solo : Solo r s) (alone : Alone s e)
    (unwrapped : readsHeader s e = true → s.rxOffset < ringSize) (taken : Step s e t) :
    Solo (releases r s e) t := by
  refine ⟨solo.inStep.step (solo.clear alone unwrapped) taken, ?_⟩
  have only := solo.onlyLast
  cases e with
  | call =>
    cases taken
    split
    · exact only.push rfl fun header => Point.noConfusion header
    · exact only
  | receive p =>
    obtain ⟨-, rfl⟩ := step_receive_cases taken
    refine only.mono fun unread => Nat.lt_of_lt_of_le unread ?_
    simp [Machine.receive]
  | raise bits =>
    cases taken
    exact only
  | tick =>
    obtain ⟨budget, point, outer, top, rfl⟩ := step_tick_cases taken
    rw [top] at only
    cases point with
    | loop =>
      rw [Machine.turn]
      split
      · exact only.tail
      · exact only.tail.push rfl fun header => Point.noConfusion header
    | isrRead => exact only.tail.push rfl fun header => Point.noConfusion header
    | isrAcked =>
      rw [Machine.turn]
      split
      · exact only.tail
      · rename_i waits
        cases outer with
        | nil =>
          intro _
          -- BUFE is clear, so something is not released, hence not passed
          have same := (solo.inStep.released (by rw [top]; exact released_cons rfl (List.forall_mem_nil _))).1
          have bound := solo.inStep.inv.passed
          rw [solo.inStep.inv.layout.bufe_iff] at waits
          show s.passed < s.stored.length
          omega
        | cons b outer => exact ⟨rfl, only.2⟩
    | header =>
      have single := alone (by simp only [readsHeader, top])
      rw [top] at single
      cases outer with
      | nil =>
        rw [Machine.turn]
        split <;> exact fun header => Point.noConfusion header
      | cons b outer => simp at single
    | handling | advanced | badPacket =>
      cases outer with
      | nil => exact fun header => Point.noConfusion header
      | cons b outer => exact absurd only.1 Bool.false_ne_true
    | resynced =>
      cases outer with
      | nil => trivial
      | cons b outer => exact absurd only.1 Bool.false_ne_true

/-! ### Runs -/

theorem ethInit_inStep : InStep 0 ethInit :=
  ⟨ethInit_inv, fun _ => ⟨rfl, fun _ last => nomatch last⟩⟩

/-- However calls nest, header reads find driver and card in step when they are clear, no activation still owes
a write to CAPR, and rx_offset is past the first 16 bytes. -/
theorem synced_of_clear {moves : List (Move Machine Event)} {s : Machine} (run : Run Step ethInit moves s)
    (admitted : ∀ m ∈ moves, readsHeader m.before m.event = true → clear m.before m.event = true ∧
      (∀ a ∈ m.before.stack, a.point.released = true) ∧ InRing m.before) :
    ∀ m ∈ moves, readsHeader m.before m.event = true → Synced m.before := by
  have always : ∀ m ∈ moves, clear m.before m.event = true := by
    intro m member
    by_cases reads : readsHeader m.before m.event = true
    · exact (admitted m member reads).1
    · exact clear_of_not_reads reads
  have kept := run.keeps (fun s => ∃ r, InStep r s) (fun s e => clear s e = true)
    (fun {s e t} before admits taken => by
      obtain ⟨r, inStep⟩ := before
      exact ⟨_, inStep.step admits taken⟩)
    ⟨0, ethInit_inStep⟩ always
  intro m member reads
  obtain ⟨isClear, released, -, past⟩ := admitted m member reads
  obtain ⟨r, inStep⟩ := (kept.2 m member).1
  obtain ⟨tick, budget, outer, top⟩ := readsHeader_iff.mp reads
  rw [top] at released
  rw [tick] at isClear
  exact inStep.synced top isClear (List.forall_mem_cons.mp released).2 past

/-- When only outermost activations read headers, driver and card agree at every header read exactly if rx_offset
is in the ring at each. -/
theorem synced_iff_inRing {moves : List (Move Machine Event)} {s : Machine} (run : Run Step ethInit moves s)
    (alone : ∀ m ∈ moves, Alone m.before m.event) :
    (∀ m ∈ moves, readsHeader m.before m.event = true → Synced m.before) ↔
      ∀ m ∈ moves, readsHeader m.before m.event = true → InRing m.before :=
  (run.restrict alone).good_iff (fun s => ∃ r, Solo r s) (fun s e => readsHeader s e = true → InRing s)
    (fun s e _ => readsHeader s e = true → Synced s)
    (fun before admits taken => by
      obtain ⟨r, solo⟩ := before
      exact ⟨_, solo.step taken.2 (fun reads => (admits reads).1) taken.1⟩)
    (fun before taken => by
      obtain ⟨r, solo⟩ := before
      exact forall_congr' (solo.synced_iff taken.2))
    ⟨0, ethInit_inStep, trivial⟩

/-- Driver and card agree at every header read if each is clear, with rx_offset in the ring and no activation
owing a write to CAPR. As long as nested activations read no headers, they agree exactly if rx_offset is in the
ring at each. -/
theorem header_reads_synced {moves : List (Move Machine Event)} {s : Machine} (run : Run Step ethInit moves s) :
    ((∀ m ∈ moves, readsHeader m.before m.event = true → clear m.before m.event = true ∧
      (∀ a ∈ m.before.stack, a.point.released = true) ∧ InRing m.before) →
        ∀ m ∈ moves, readsHeader m.before m.event = true → Synced m.before) ∧
    ((∀ m ∈ moves, Alone m.before m.event) →
      ((∀ m ∈ moves, readsHeader m.before m.event = true → Synced m.before) ↔
        ∀ m ∈ moves, readsHeader m.before m.event = true → InRing m.before)) :=
  ⟨synced_of_clear run, synced_iff_inRing run⟩

/-- The frames of a full Ethernet payload. -/
def longFrame : Packet := filled 1514 0 (by decide) (by decide)

/-- One frame at a time: it arrives and a call of eth_poll passes it. -/
def oneByOne (n : Nat) : List Event := (List.replicate n ([.receive longFrame, .call] ++ ticks 7)).flatten

/-- Two frames, one at a time: the second header read is in step. -/
theorem second_header_synced : ∃ moves s, Run Step ethInit moves s ∧
    (∃ m ∈ moves, readsHeader m.before m.event = true ∧ m.before.rxOffset = 1520) ∧
    ∀ m ∈ moves, readsHeader m.before m.event = true → Synced m.before := by
  have checked : (trace next ethInit (oneByOne 2)).any (fun r =>
      r.1.any (fun m => readsHeader m.before m.event && m.before.rxOffset == 1520) &&
      r.1.all (fun m => !readsHeader m.before m.event ||
        m.before.stack.length == 1 && decide (InRing m.before))) = true := by
    decide +kernel
  obtain ⟨moves, s, run, holds⟩ := Run.of_trace_any checked
  simp only [Bool.and_eq_true, List.any_eq_true, List.all_eq_true, beq_iff_eq, Bool.or_eq_true, Bool.not_eq_true',
    decide_eq_true_eq] at holds
  have each (m : Move Machine Event) (member : m ∈ moves) (reads : readsHeader m.before m.event = true) :=
    (holds.2 m member).resolve_left (by simp [reads])
  refine ⟨moves, s, run, holds.1, ?_⟩
  exact ((header_reads_synced run).2 fun m member reads => (each m member reads).1).mpr
    fun m member reads => (each m member reads).2

/-- After eleven frames of 1520 bytes the card is at 336 and rx_offset at 16720. -/
theorem twelfth_header_lost : ∃ moves s, Run Step ethInit moves s ∧
    ¬ ∀ m ∈ moves, readsHeader m.before m.event = true → Synced m.before := by
  have checked : (trace next ethInit (oneByOne 11 ++ [.receive longFrame, .call] ++ ticks 4)).any (fun r =>
      r.1.any (fun m => readsHeader m.before m.event && m.before.rxOffset == 16720)) = true := by
    decide +kernel
  obtain ⟨moves, s, run, holds⟩ := Run.of_trace_any checked
  simp only [List.any_eq_true, Bool.and_eq_true, beq_iff_eq] at holds
  obtain ⟨m, member, reads, beyond⟩ := holds
  refine ⟨moves, s, run, fun synced => ?_⟩
  have bound := offset_lt m.before m.before.passed
  rw [← (synced m member reads).offset, beyond, ringSize_eq] at bound
  omega

end ChrisOS.Net.Eth
