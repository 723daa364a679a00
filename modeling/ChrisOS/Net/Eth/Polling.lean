import ChrisOS.Net.Eth.Layout

/-! Calls of eth_poll that interrupt one another: frames in order of arrival, and the
offsets of the driver and the card.
-/

set_option autoImplicit false

namespace ChrisOS.Net.Eth
open ChrisOS.Lib

/-! ### One call, step by step -/

theorem step_tick (s : Machine) (budget : Nat) (point : Point) (outer : List Activation) :
    Step (s.goto budget point outer) .tick (s.turn budget outer point) := by
  have same : (s.goto budget point outer).turn budget outer point = s.turn budget outer point := by
    cases point <;> rfl
  exact congrArg some same

/-- Taken step by step with nothing in between, the loop does what pollLoop says. -/
theorem pollLoop_run (outer : List Activation) (budget : Nat) (s : Machine) :
    ∃ moves, Run Step (s.goto budget .loop outer) moves ((s.pollLoop budget).leave outer) := by
  induction budget generalizing s with
  | zero => exact ⟨_, .single (step_tick s 0 .loop outer)⟩
  | succ budget ih =>
    have first := step_tick s (budget + 1) .loop outer
    rw [Machine.turn] at first
    rw [Machine.pollLoop]
    by_cases quiet : s.nic.isr &&& (isrRok ||| isrRer) = 0
    · rw [if_pos (.inr quiet)] at first
      rw [if_pos quiet]
      exact ⟨_, .single first⟩
    · rw [if_neg (by simp [quiet])] at first
      rw [if_neg quiet]
      -- the frame, if there is one, is handled with ROK already cleared
      have acked := Run.cons first (.single (step_tick s budget (.isrRead s.nic.isr) outer))
      have checked := step_tick (s.ackIsr s.nic.isr) budget .isrAcked outer
      rw [Machine.turn] at checked
      simp only
      split
      · rename_i empty
        rw [if_pos empty] at checked
        exact ⟨_, acked.append (.single checked)⟩
      · rename_i waits
        rw [if_neg waits] at checked
        have read := step_tick (s.ackIsr s.nic.isr) budget .header outer
        rw [Machine.turn] at read
        split
        · rename_i isBad
          rw [if_pos isBad] at read
          exact ⟨_, acked.append (.cons checked (.cons read (.cons (step_tick _ budget .badPacket outer)
            (.single (step_tick _ budget .resynced outer)))))⟩
        · rename_i good
          rw [if_neg good] at read
          obtain ⟨moves, rest⟩ := ih (((s.ackIsr s.nic.isr).deliver.advance (s.ackIsr s.nic.isr).pktLen).writeCapr)
          exact ⟨_, acked.append (.cons checked (.cons read (.cons (step_tick _ budget (.handling _) outer)
            (.cons (step_tick _ budget .advanced outer) rest))))⟩

/-- So does a whole call. -/
theorem ethPoll_run {s : Machine} (idle : s.stack = []) :
    ∃ moves, Run Step s moves (s.ethPoll.leave []) := by
  have called : Step s .call (if s.nicOk then s.goto 32 .loop s.stack else s) := by
    simp [Step, next, idle]
  rw [Machine.ethPoll]
  split at called
  · rename_i ready
    rw [if_pos ready]
    rw [idle] at called
    obtain ⟨moves, run⟩ := pollLoop_run [] 32 s
    exact ⟨_, .cons called run⟩
  · rename_i off
    rw [if_neg off]
    have same : s.leave [] = s := by rw [Machine.leave, ← idle]
    rw [same]
    exact ⟨_, .nil s⟩

/-! ### The activations -/

/-- Before the header is read. -/
def Point.waits : Point → Bool
  | .loop | .isrRead _ | .isrAcked | .header => true
  | _ => false

/-- From the call of netstack_rx until rx_offset is moved. -/
def Point.inHandler : Point → Bool
  | .handling _ => true
  | _ => false

def Point.writesCapr : Point → Bool
  | .advanced | .resynced => true
  | _ => false

def quiet (stack : List Activation) : Bool := stack.all fun a => !a.point.inHandler

/-- What is called from within netstack_rx has not read a header. -/
def Nested (stack : List Activation) : Prop :=
  stack.Pairwise fun above below => below.point.inHandler = true → above.point.waits = true

/-- The frames numbered by arrival, as netstack_rx is owed them. -/
def owed (frames : List Packet) : List (Nat × List UInt8) :=
  frames.zipIdx.filterMap fun x => if x.1.fine then some (x.2, x.1.frame) else none

/-- netstack_rx has been called for each acceptable frame that eth_poll has passed: once, and in order of
arrival. -/
def InOrder (s : Machine) : Prop := s.delivered = owed (s.stored.take s.passed)

/-- The header that is read is that of an unread frame, outside of netstack_rx, and the frames passed since
the last resync have not reached the end of the ring. -/
def clear (s : Machine) : Event → Bool
  | .tick =>
    match s.stack with
    | ⟨_, .header⟩ :: outer => quiet outer && decide (s.passed < s.stored.length) && decide (s.rxOffset < ringSize)
    | _ => true
  | _ => true

/-- A resync finds no acceptable frame in the ring. -/
def spares (s : Machine) : Event → Bool
  | .tick =>
    match s.stack with
    | ⟨_, .badPacket⟩ :: _ => (s.stored.drop s.passed).all fun p => !p.fine
    | _ => true
  | _ => true

/-- How many frames are released after a step: a write to CAPR releases those that have been passed. -/
def releases (r : Nat) (s : Machine) : Event → Nat
  | .tick =>
    match s.stack with
    | ⟨_, point⟩ :: _ => if point.writesCapr then s.passed else r
    | [] => r
  | _ => r

/-- What holds with r frames released. -/
structure Inv (r : Nat) (s : Machine) : Prop where
  layout : Layout s r
  reached : r ≤ s.passed
  passed : s.passed ≤ s.stored.length
  nested : Nested s.stack
  range : s.rxOffset < 32768
  idle : quiet s.stack = true → s.rxOffset % ringSize = s.offset s.passed
  busy : ∀ a ∈ s.stack, ∀ len, a.point = .handling len → ∃ i p, s.passed = i + 1 ∧ r ≤ i ∧ s.stored[i]? = some p ∧
    p.length = len ∧ p.fine = true ∧ s.rxOffset = s.offset i

theorem quiet_iff {stack : List Activation} : quiet stack = true ↔ ∀ a ∈ stack, a.point.inHandler = false := by
  simp [quiet]

theorem quiet_cons {a : Activation} {outer : List Activation} (silent : a.point.inHandler = false)
    (still : quiet outer = true) : quiet (a :: outer) = true := by
  rw [quiet, List.all_cons, silent]
  exact still

theorem clear_header {s : Machine} {budget : Nat} {outer : List Activation}
    (top : s.stack = ⟨budget, .header⟩ :: outer) (admitted : clear s .tick = true) :
    quiet outer = true ∧ quiet s.stack = true ∧ s.passed < s.stored.length ∧ s.rxOffset < ringSize := by
  simp only [clear, top, Bool.and_eq_true, decide_eq_true_eq] at admitted
  obtain ⟨⟨still, unread⟩, unwrapped⟩ := admitted
  refine ⟨still, ?_, unread, unwrapped⟩
  rw [top]
  exact quiet_cons rfl still

/-- Below an activation that has read a header, nothing is in netstack_rx. -/
theorem Nested.quiet_below {a : Activation} {outer : List Activation} (nested : Nested (a :: outer))
    (read : a.point.waits = false) : quiet outer = true := by
  rw [quiet_iff]
  intro b below
  by_contra handles
  rw [Bool.not_eq_false] at handles
  rw [(List.pairwise_cons.mp nested).1 b below handles] at read
  cases read

theorem Nested.of_quiet {a : Activation} {outer : List Activation} (nested : Nested outer)
    (still : quiet outer = true) : Nested (a :: outer) := by
  refine List.pairwise_cons.mpr ⟨fun b below handles => ?_, nested⟩
  rw [quiet_iff.mp still b below] at handles
  cases handles

/-- An activation that waits may begin, go on or end without regard to the others. -/
theorem Inv.restack {r : Nat} {s : Machine} (invariant : Inv r s) {stack : List Activation} (nested : Nested stack)
    (same : ∀ a, a.point.inHandler = true → (a ∈ stack ↔ a ∈ s.stack)) : Inv r { s with stack := stack } := by
  refine ⟨invariant.layout.of_same rfl rfl rfl rfl rfl, invariant.reached, invariant.passed, nested, invariant.range,
    fun still => invariant.idle ?_, fun a member len handling => invariant.busy a ?_ len handling⟩
  · rw [quiet_iff] at still ⊢
    intro a member
    by_contra handles
    rw [Bool.not_eq_false] at handles
    rw [still a ((same a handles).mpr member)] at handles
    cases handles
  · exact (same a (by rw [handling]; rfl)).mp member

theorem Inv.withIsr {r : Nat} {s : Machine} (invariant : Inv r s) (isr : UInt16) :
    Inv r { s with nic := { s.nic with isr := isr } } :=
  ⟨invariant.layout.of_same rfl rfl rfl rfl rfl, invariant.reached, invariant.passed, invariant.nested, invariant.range,
    invariant.idle, invariant.busy⟩

theorem Inv.receive {r : Nat} {s : Machine} (invariant : Inv r s) {p : Packet} (room : s.nic.room p = true) :
    Inv r (s.receive p) := by
  have length : (s.receive p).stored.length = s.stored.length + 1 := by simp [Machine.receive]
  refine ⟨invariant.layout.receive room, invariant.reached, ?_, invariant.nested, invariant.range, fun still => ?_,
    fun a member len handling => ?_⟩
  · rw [length]
    exact Nat.le_succ_of_le invariant.passed
  · exact (invariant.idle still).trans (offset_receive p invariant.passed).symm
  · obtain ⟨i, q, passed, unreleased, at_i, facts, fine, here⟩ := invariant.busy a member len handling
    have inside := (List.getElem?_eq_some_iff.mp at_i).1
    refine ⟨i, q, passed, unreleased, ?_, facts, fine, here.trans (offset_receive p (Nat.le_of_lt inside)).symm⟩
    rw [Machine.receive, List.getElem?_append_left inside]
    exact at_i

theorem Inv.of_quiet {r : Nat} {s : Machine} (layout : Layout s r) (reached : r ≤ s.passed)
    (passed : s.passed ≤ s.stored.length) (nested : Nested s.stack) (range : s.rxOffset < 32768)
    (still : quiet s.stack = true) (here : s.rxOffset % ringSize = s.offset s.passed) : Inv r s := by
  refine ⟨layout, reached, passed, nested, range, fun _ => here, fun a member len handling => ?_⟩
  have other := quiet_iff.mp still a member
  rw [handling] at other
  cases other

theorem offset_congr {s t : Machine} (stored : t.stored = s.stored) (i : Nat) : t.offset i = s.offset i := by
  rw [Machine.offset, stored, Machine.offset]

theorem waits_not_inHandler {point : Point} (waits : point.waits = true) : point.inHandler = false := by
  cases point <;> first | rfl | cases waits

section Turn
variable {r : Nat} {s : Machine} {budget : Nat} {point : Point} {outer : List Activation}

theorem Inv.leave (invariant : Inv r s) (top : s.stack = ⟨budget, point⟩ :: outer) (waits : point.waits = true) :
    Inv r (s.leave outer) := by
  have nested := invariant.nested
  rw [top] at nested
  refine invariant.restack (List.pairwise_cons.mp nested).2 fun a handles => ?_
  rw [top, List.mem_cons]
  refine ⟨.inr, ?_⟩
  rintro (rfl | member)
  · rw [waits_not_inHandler waits] at handles
    cases handles
  · exact member

theorem Inv.goto (invariant : Inv r s) (top : s.stack = ⟨budget, point⟩ :: outer) (waits : point.waits = true)
    {budget' : Nat} {point' : Point} (nested : Nested (⟨budget', point'⟩ :: outer)) (silent : point'.inHandler = false) :
    Inv r (s.goto budget' point' outer) := by
  refine invariant.restack nested fun a handles => ?_
  rw [top, List.mem_cons, List.mem_cons]
  have here : a ≠ ⟨budget, point⟩ := by
    rintro rfl
    rw [waits_not_inHandler waits] at handles
    cases handles
  have there : a ≠ ⟨budget', point'⟩ := by
    rintro rfl
    rw [silent] at handles
    cases handles
  simp only [here, there, false_or]

/-- From one place before the header read to another. -/
theorem Inv.wait (invariant : Inv r s) (top : s.stack = ⟨budget, point⟩ :: outer) (waits : point.waits = true)
    {budget' : Nat} {point' : Point} (waits' : point'.waits = true) : Inv r (s.goto budget' point' outer) := by
  have nested := invariant.nested
  rw [top] at nested
  refine invariant.goto top waits ?_ (waits_not_inHandler waits')
  exact List.pairwise_cons.mpr ⟨fun _ _ _ => waits', (List.pairwise_cons.mp nested).2⟩

/-- The frame that an unread header belongs to. -/
theorem Inv.next_frame (invariant : Inv r s) (still : quiet s.stack = true) (unread : s.passed < s.stored.length)
    (unwrapped : s.rxOffset < ringSize) :
    s.stored[s.passed]? = some s.stored[s.passed] ∧ s.rxOffset = s.offset s.passed ∧
      bad s.pktStatus s.pktLen = (!s.stored[s.passed].fine) ∧ s.pktLen = s.stored[s.passed].length := by
  have here := invariant.idle still
  rw [Nat.mod_eq_of_lt unwrapped] at here
  have at_passed := List.getElem?_eq_getElem unread
  exact ⟨at_passed, here, invariant.layout.bad_eq invariant.reached at_passed here,
    (invariant.layout.header invariant.reached at_passed here).2⟩

/-- The header of an acceptable frame: netstack_rx is called. -/
theorem Inv.deliver (invariant : Inv r s) (top : s.stack = ⟨budget, .header⟩ :: outer) (still : quiet outer = true)
    (unread : s.passed < s.stored.length) (unwrapped : s.rxOffset < ringSize)
    (good : bad s.pktStatus s.pktLen = false) : Inv r (s.deliver.goto budget (.handling s.pktLen) outer) := by
  have whole : quiet s.stack = true := by
    rw [top]
    exact quiet_cons rfl still
  obtain ⟨at_passed, here, judged, len⟩ := invariant.next_frame whole unread unwrapped
  have nested := invariant.nested
  rw [top] at nested
  -- the frame counts as passed from here on, while rx_offset is still at it
  refine ⟨invariant.layout.of_same rfl rfl rfl rfl rfl, Nat.le_succ_of_le invariant.reached, unread,
    .of_quiet (List.pairwise_cons.mp nested).2 still, invariant.range, fun calm => ?_, fun a member n handling => ?_⟩
  · cases quiet_iff.mp calm _ (.head _)
  · rcases List.mem_cons.mp member with rfl | below
    · cases handling
      refine ⟨s.passed, _, rfl, invariant.reached, at_passed, len.symm, ?_, here⟩
      rw [judged] at good
      exact Bool.not_eq_eq_eq_not.mp good
    · have silent := quiet_iff.mp still a below
      rw [handling] at silent
      cases silent

/-- netstack_rx returns and rx_offset moves behind the frame. -/
theorem Inv.advance (invariant : Inv r s) {len : Nat} (top : s.stack = ⟨budget, .handling len⟩ :: outer) :
    Inv r ((s.advance len).goto budget .advanced outer) := by
  have nested := invariant.nested
  rw [top] at nested
  have still := nested.quiet_below rfl
  obtain ⟨i, p, passed, unreleased, at_i, rfl, fine, here⟩ :=
    invariant.busy ⟨budget, .handling len⟩ (by rw [top]; exact .head _) len rfl
  obtain ⟨-, range, moved⟩ := advance_rxOffset at_i here (Packet.fine_length fine)
  refine .of_quiet (invariant.layout.of_same rfl rfl rfl rfl rfl) invariant.reached invariant.passed
    (.of_quiet (List.pairwise_cons.mp nested).2 still) range ?_ ?_
  · exact quiet_cons rfl still
  · rw [← passed] at moved
    exact moved.trans (offset_congr rfl _).symm

/-- A write to CAPR releases every frame that has been passed. -/
theorem Inv.writeCapr (invariant : Inv r s) (still : quiet s.stack = true) {stack : List Activation}
    (nested : Nested stack) (still' : quiet stack = true) : Inv s.passed { s.writeCapr with stack := stack } := by
  have layout := invariant.layout.writeCapr invariant.reached invariant.passed invariant.range (invariant.idle still)
  refine .of_quiet (layout.of_same rfl rfl rfl rfl rfl) le_rfl invariant.passed nested invariant.range still' ?_
  exact (invariant.idle still).trans (offset_congr rfl _).symm

theorem Inv.resync (invariant : Inv r s) (top : s.stack = ⟨budget, .badPacket⟩ :: outer) :
    Inv r (s.resync.goto budget .resynced outer) := by
  have nested := invariant.nested
  rw [top] at nested
  have still := nested.quiet_below rfl
  have cbr : s.nic.cbr < 32768 := by
    have bound := offset_lt s s.stored.length
    rw [invariant.layout.cbr]
    rw [ringSize_eq] at bound
    omega
  refine .of_quiet (invariant.layout.of_same rfl rfl rfl rfl rfl) (invariant.reached.trans invariant.passed) le_rfl
    (.of_quiet (List.pairwise_cons.mp nested).2 still) (Nat.mod_lt _ (by decide)) ?_ ?_
  · exact quiet_cons rfl still
  · have here : s.nic.cbr % 32768 % ringSize = s.offset s.stored.length := by
      rw [Nat.mod_eq_of_lt cbr, invariant.layout.cbr]
      exact Nat.mod_eq_of_lt (offset_lt s _)
    exact here.trans (offset_congr rfl _).symm

end Turn

/-- What a clear step keeps. -/
theorem Inv.step {r : Nat} {s t : Machine} {e : Event} (invariant : Inv r s) (admitted : clear s e = true)
    (taken : Step s e t) : Inv (releases r s e) t := by
  cases e with
  | call =>
    cases taken
    split
    · refine invariant.restack ?_ fun a handles => ?_
      · exact List.pairwise_cons.mpr ⟨fun _ _ _ => rfl, invariant.nested⟩
      · rw [List.mem_cons, or_iff_right]
        rintro rfl
        cases handles
    · exact invariant
  | receive p =>
    obtain ⟨room, rfl⟩ := step_receive_cases taken
    exact invariant.receive room
  | raise bits =>
    cases taken
    exact invariant.withIsr _
  | tick =>
    obtain ⟨budget, point, outer, top, rfl⟩ := step_tick_cases taken
    rw [releases, top]
    have nested := invariant.nested
    rw [top] at nested
    cases point with
    | loop =>
      rw [Machine.turn]
      change Inv r _
      split
      · exact invariant.leave top rfl
      · exact invariant.wait top rfl rfl
    | isrRead isr => exact (invariant.withIsr (s.nic.isr &&& ~~~isr)).wait top rfl rfl
    | isrAcked =>
      rw [Machine.turn]
      change Inv r _
      split
      · exact invariant.leave top rfl
      · exact invariant.wait top rfl rfl
    | header =>
      obtain ⟨still, -, unread, unwrapped⟩ := clear_header top admitted
      rw [Machine.turn]
      change Inv r _
      split
      · exact invariant.goto top rfl (.of_quiet (List.pairwise_cons.mp nested).2 still) rfl
      · rename_i good
        exact invariant.deliver top still unread unwrapped (Bool.eq_false_iff.mpr good)
    | handling len => exact invariant.advance top
    | advanced =>
      have still := nested.quiet_below rfl
      have whole : quiet s.stack = true := by
        rw [top]
        exact quiet_cons rfl still
      exact invariant.writeCapr whole (.of_quiet (List.pairwise_cons.mp nested).2 still) still
    | badPacket => exact invariant.resync top
    | resynced =>
      have still := nested.quiet_below rfl
      have whole : quiet s.stack = true := by
        rw [top]
        exact quiet_cons rfl still
      exact invariant.writeCapr whole (List.pairwise_cons.mp nested).2 still

/-! ### Frames in order of arrival -/

theorem owed_take_succ {frames : List Packet} {i : Nat} {p : Packet} (at_i : frames[i]? = some p) :
    owed (frames.take (i + 1)) = owed (frames.take i) ++ if p.fine then [(i, p.frame)] else [] := by
  have length : (frames.take i).length = i :=
    List.length_take_of_le (Nat.le_of_lt (List.getElem?_eq_some_iff.mp at_i).1)
  rw [List.take_add_one, at_i, owed, owed, List.zipIdx_append, List.filterMap_append, length]
  congr 1
  by_cases fine : p.fine = true
  · simp [fine]
  · simp [fine]

theorem owed_take_step (frames : List Packet) (i : Nat) :
    ∃ rest, owed (frames.take (i + 1)) = owed (frames.take i) ++ rest ∧ ∀ x ∈ rest, x.1 = i := by
  cases at_i : frames[i]? with
  | none =>
    have short := List.getElem?_eq_none_iff.mp at_i
    refine ⟨[], ?_, fun _ member => nomatch member⟩
    rw [List.take_of_length_le short, List.take_of_length_le (Nat.le_succ_of_le short), List.append_nil]
  | some p =>
    refine ⟨_, owed_take_succ at_i, fun x member => ?_⟩
    split at member
    · rw [List.mem_singleton.mp member]
    · cases member

/-- Frames that are not acceptable are owed nothing. -/
theorem owed_of_drop {frames : List Packet} {i : Nat} (refused : ∀ p ∈ frames.drop i, p.fine = false) :
    owed frames = owed (frames.take i) := by
  conv_lhs => rw [← List.take_append_drop i frames]
  rw [owed, owed, List.zipIdx_append, List.filterMap_append, List.append_right_eq_self]
  rw [List.filterMap_eq_nil_iff]
  intro x member
  rw [refused x.1 (List.fst_mem_of_mem_zipIdx member)]
  rfl

/-- Whatever netstack_rx has been called with so far, the rest of what it is owed can still come. -/
theorem InOrder.is_prefix {s : Machine} (inOrder : InOrder s) : s.delivered <+: owed s.stored := by
  rw [inOrder]
  conv_rhs => rw [← List.take_append_drop s.passed s.stored]
  rw [owed, owed, List.zipIdx_append, List.filterMap_append]
  exact List.prefix_append _ _

/-- Only the call of netstack_rx and the resync touch the history. -/
theorem InOrder.step {r : Nat} {s t : Machine} {e : Event} (inOrder : InOrder s)
    (invariant : Inv r s) (admitted : clear s e = true) (spared : spares s e = true) (taken : Step s e t) :
    InOrder t := by
  cases e with
  | call =>
    cases taken
    split <;> exact inOrder
  | receive p =>
    obtain ⟨-, rfl⟩ := step_receive_cases taken
    have before : (s.receive p).stored.take s.passed = s.stored.take s.passed :=
      List.take_append_of_le_length invariant.passed
    exact inOrder.trans (congrArg owed before.symm)
  | raise bits =>
    cases taken
    exact inOrder
  | tick =>
    obtain ⟨budget, point, outer, top, rfl⟩ := step_tick_cases taken
    cases point with
    | loop =>
      rw [Machine.turn]
      split <;> exact inOrder
    | isrAcked =>
      rw [Machine.turn]
      split <;> exact inOrder
    | isrRead | handling | advanced | resynced => exact inOrder
    | header =>
      obtain ⟨-, whole, unread, unwrapped⟩ := clear_header top admitted
      obtain ⟨at_passed, here, judged, -⟩ := invariant.next_frame whole unread unwrapped
      rw [Machine.turn]
      split
      · exact inOrder
      · rename_i good
        have fine : s.stored[s.passed].fine = true := by
          rw [judged] at good
          exact Bool.not_eq_eq_eq_not.mp (Bool.eq_false_iff.mpr good)
        have number := invariant.layout.numbers s.passed invariant.reached unread
        show s.delivered ++ [(s.numberAt s.rxOffset, s.rxFrame)] = owed (s.stored.take (s.passed + 1))
        rw [owed_take_succ at_passed, if_pos fine, ← inOrder, here, number,
          invariant.layout.rxFrame invariant.reached at_passed here]
    | badPacket =>
      simp only [spares, top, List.all_eq_true, Bool.not_eq_true'] at spared
      show s.delivered = owed (s.stored.take s.stored.length)
      rw [List.take_length, owed_of_drop spared]
      exact inOrder

/-- A header read from within netstack_rx finds the frame in hand once more. -/
theorem InOrder.reentered {r : Nat} {s t : Machine} (inOrder : InOrder s) (invariant : Inv r s)
    {budget : Nat} {outer : List Activation} (top : s.stack = ⟨budget, .header⟩ :: outer) (busy : quiet outer = false)
    (taken : Step s .tick t) : ¬ InOrder t := by
  obtain ⟨a, below, handles⟩ : ∃ a ∈ outer, a.point.inHandler = true := by
    simpa [quiet] using busy
  obtain ⟨len, handling⟩ : ∃ len, a.point = .handling len := by
    cases point : a.point with
    | handling len => exact ⟨len, rfl⟩
    | loop | isrRead | isrAcked | header | advanced | badPacket | resynced =>
      rw [point] at handles
      cases handles
  obtain ⟨i, p, passed, unreleased, at_i, rfl, fine, here⟩ :=
    invariant.busy a (by rw [top]; exact .tail _ below) len handling
  have inside := (List.getElem?_eq_some_iff.mp at_i).1
  have good : bad s.pktStatus s.pktLen = false := by
    rw [invariant.layout.bad_eq unreleased at_i here, fine]
    rfl
  simp only [Step, next, top, Machine.turn, good, Bool.false_eq_true, ↓reduceIte, Option.some.injEq] at taken
  subst taken
  intro again
  have number := invariant.layout.numbers i unreleased inside
  -- rx_offset has not moved: it is frame i again
  have both : s.delivered ++ [(i, p.frame)] = owed (s.stored.take (s.passed + 1)) := by
    rw [← number, ← here, ← invariant.layout.rxFrame unreleased at_i here]
    exact again
  -- what is owed next has a later number
  obtain ⟨rest, due, numbered⟩ := owed_take_step s.stored (i + 1)
  rw [inOrder, passed, due, owed_take_succ at_i, if_pos fine] at both
  have repeated : (i, p.frame) ∈ rest := by
    rw [← List.append_cancel_left both]
    exact .head _
  exact absurd (numbered _ repeated) (Nat.ne_of_lt (Nat.lt_succ_self i))

theorem ethInit_inv : Inv 0 ethInit :=
  ⟨ethInit_layout, le_rfl, le_rfl, .nil, by decide, fun _ => rfl, fun _ member => nomatch member⟩

def ticks (n : Nat) : List Event := List.replicate n .tick

end ChrisOS.Net.Eth
