import ChrisOS.Net.Eth

/-! Where the frames are in the receive ring, what eth_poll reads there, and what one
uninterrupted call of eth_poll leaves behind.
-/

set_option autoImplicit false

namespace ChrisOS.Net.Eth
open ChrisOS.Lib

/-- Where the card stored frame i; behind the last one, where it will store the next. -/
def Machine.offset (s : Machine) (i : Nat) : Nat := extent Packet.size (s.stored.take i) % ringSize

def Holds (mem : Nat → UInt8) (off : Nat) (p : Packet) : Prop :=
  ∀ k, k < p.image.length → mem (off + k) = p.image.getD k 0

/-- The frames from number r on lie in the ring, which CAPR has released up to r. -/
structure Layout (s : Machine) (r : Nat) : Prop where
  released : r ≤ s.stored.length
  cbr : s.nic.cbr = s.offset s.stored.length
  readPtr : s.nic.readPtr = s.offset r
  turn : extent Packet.size s.stored < extent Packet.size (s.stored.take r) + ringSize
  holds : ∀ i p, r ≤ i → s.stored[i]? = some p → Holds s.nic.mem (s.offset i) p
  numbers : ∀ i, r ≤ i → i < s.stored.length → s.numberAt (s.offset i) = i

theorem ringSize_pos : 0 < ringSize := by
  rw [ringSize_eq]
  decide

theorem offset_lt (s : Machine) (i : Nat) : s.offset i < ringSize := Nat.mod_lt _ ringSize_pos

theorem offset_length (s : Machine) : s.offset s.stored.length = extent Packet.size s.stored % ringSize := by
  rw [Machine.offset, List.take_length]

/-- A frame ends where the next one starts. -/
theorem offset_succ {s : Machine} {i : Nat} {p : Packet} (at_i : s.stored[i]? = some p) :
    s.offset (i + 1) = (s.offset i + p.size) % ringSize := by
  unfold Machine.offset
  rw [extent_take_succ at_i, Nat.mod_add_mod]

/-! ### Arrivals -/

theorem offset_receive {s : Machine} (p : Packet) {i : Nat} (old : i ≤ s.stored.length) :
    (s.receive p).offset i = s.offset i := by
  unfold Machine.offset Machine.receive
  rw [List.take_append_of_le_length old]

theorem Layout.unread {s : Machine} {r : Nat} (layout : Layout s r) :
    s.nic.unread = extent Packet.size s.stored - extent Packet.size (s.stored.take r) := by
  rw [Nic.unread, layout.cbr, layout.readPtr, offset_length]
  exact distance_in_ring (extent_take_le_extent _ _) layout.turn

theorem store_mem_other (n : Nic) (p : Packet) {a : Nat} (outside : a < n.cbr ∨ n.cbr + p.image.length ≤ a) :
    (n.store p).mem a = n.mem a := by
  unfold Nic.store
  exact if_neg (by omega)

theorem store_holds (n : Nic) (p : Packet) : Holds (n.store p).mem n.cbr p := by
  intro k inside
  unfold Nic.store
  simp only [Nat.le_add_right, true_and, Nat.add_lt_add_iff_left, inside, ↓reduceIte, Nat.add_sub_cancel_left]

/-- The place of a new frame is apart from the frames that are not released. -/
theorem Layout.apart {s : Machine} {r : Nat} (layout : Layout s r) {p : Packet} (room : s.nic.room p = true)
    {i : Nat} {q : Packet} (unreleased : r ≤ i) (at_i : s.stored[i]? = some q) :
    s.offset i + q.size ≤ s.nic.cbr ∨ s.nic.cbr + p.size ≤ s.offset i := by
  have fits := of_decide_eq_true room
  rw [layout.unread] at fits
  have ordered : extent Packet.size (s.stored.take i) + q.size ≤ extent Packet.size s.stored := by
    conv_rhs => rw [← List.take_length (l := s.stored)]
    exact extent_take_add_le at_i (List.getElem?_eq_some_iff.mp at_i).1
  have behind : extent Packet.size (s.stored.take r) ≤ extent Packet.size (s.stored.take i) :=
    extent_take_le s.stored unreleased
  rw [layout.cbr, offset_length]
  exact apart_in_ring ringSize_pos ordered (by omega)

theorem Layout.receive {s : Machine} {r : Nat} (layout : Layout s r) {p : Packet} (room : s.nic.room p = true) :
    Layout (s.receive p) r := by
  have fits := of_decide_eq_true room
  rw [layout.unread] at fits
  have length : (s.receive p).stored.length = s.stored.length + 1 := by simp [Machine.receive]
  have last : (s.receive p).stored[s.stored.length]? = some p := by simp [Machine.receive]
  have place : (s.receive p).offset s.stored.length = s.nic.cbr := by
    rw [offset_receive p le_rfl, layout.cbr]
  refine ⟨?_, ?_, ?_, ?_, fun i q unreleased at_i => ?_, fun i unreleased small => ?_⟩
  · rw [length]
    exact Nat.le_succ_of_le layout.released
  · rw [length, offset_succ last, place]
    rfl
  · rw [offset_receive p layout.released]
    exact layout.readPtr
  · have total : extent Packet.size (s.receive p).stored = extent Packet.size s.stored + p.size := by
      simp [Machine.receive]
    have before : (s.receive p).stored.take r = s.stored.take r :=
      List.take_append_of_le_length layout.released
    rw [total, before]
    omega
  · rcases Nat.lt_or_ge i s.stored.length with old | new
    · have at_old : s.stored[i]? = some q := by rwa [Machine.receive, List.getElem?_append_left old] at at_i
      rw [offset_receive p (Nat.le_of_lt old)]
      intro k inside
      rw [← layout.holds i q unreleased at_old k inside]
      apply store_mem_other
      -- the new frame lies beside the old ones
      have apart := layout.apart room unreleased at_old
      have := p.image_le_size
      have := q.image_le_size
      omega
    · have same : i = s.stored.length := by
        have := (List.getElem?_eq_some_iff.mp at_i).1
        omega
      subst same
      rw [last] at at_i
      cases at_i
      rw [place]
      exact store_holds s.nic p
  · rcases Nat.lt_or_ge i s.stored.length with old | new
    · rw [offset_receive p (Nat.le_of_lt old)]
      refine (Function.update_of_ne ?_ _ _).trans (layout.numbers i unreleased old)
      have apart := layout.apart room unreleased (List.getElem?_eq_getElem old)
      have := p.size_pos
      have := (s.stored[i]).size_pos
      omega
    · have same : i = s.stored.length := by omega
      rw [same, place, Machine.receive]
      exact Function.update_self ..

/-! ### What the driver reads -/

theorem holds_word {mem : Nat → UInt8} {off : Nat} {p : Packet} (held : Holds mem off p) :
    word16 mem off = p.status.toNat ∧ word16 mem (off + 2) = p.length := by
  have length := p.length_image
  refine ⟨word16_of_bytes p.status.toNat_lt fun k small => ?_, word16_of_bytes p.short fun k small => ?_⟩
  · rw [held k (by omega)]
    rcases (show k = 0 ∨ k = 1 by omega) with rfl | rfl <;> rfl
  · rw [Nat.add_assoc, held (2 + k) (by omega)]
    rcases (show k = 0 ∨ k = 1 by omega) with rfl | rfl <;> rfl

theorem Layout.header {s : Machine} {r : Nat} (layout : Layout s r) {i : Nat} {p : Packet} (unreleased : r ≤ i)
    (at_i : s.stored[i]? = some p) (here : s.rxOffset = s.offset i) :
    s.pktStatus = p.status.toNat ∧ s.pktLen = p.length := by
  rw [Machine.pktStatus, Machine.pktLen, here]
  exact holds_word (layout.holds i p unreleased at_i)

theorem Layout.bad_eq {s : Machine} {r : Nat} (layout : Layout s r) {i : Nat} {p : Packet} (unreleased : r ≤ i)
    (at_i : s.stored[i]? = some p) (here : s.rxOffset = s.offset i) : bad s.pktStatus s.pktLen = !p.fine := by
  obtain ⟨status, len⟩ := layout.header unreleased at_i here
  rw [status, len, Packet.fine, Bool.not_not]

/-- Where a frame lies at rx_offset, netstack_rx gets that frame without its CRC. -/
theorem holds_rxFrame {s : Machine} {p : Packet} (held : Holds s.nic.mem s.rxOffset p) : s.rxFrame = p.frame := by
  have crc := p.crc
  have short := p.short
  have length : (p.length + (2 ^ 16 - 4)) % 2 ^ 16 = p.length - 4 := by
    unfold Packet.length
    omega
  have field : s.pktLen = p.length := (holds_word held).2
  rw [Machine.rxFrame, field, length]
  apply List.ext_getElem
  · simp [Packet.frame, Packet.length]
  · intro k left right
    simp only [List.length_map, List.length_range] at left
    have bound := p.length_image
    have inside : k < p.bytes.length := by
      unfold Packet.length at left
      omega
    simp only [List.getElem_map, List.getElem_range, Packet.frame, List.getElem_take]
    rw [Nat.add_assoc, held (4 + k) (by omega), Nat.add_comm 4 k]
    show p.bytes.getD k 0 = _
    exact List.getD_eq_getElem p.bytes 0 inside

theorem Layout.rxFrame {s : Machine} {r : Nat} (layout : Layout s r) {i : Nat} {p : Packet} (unreleased : r ≤ i)
    (at_i : s.stored[i]? = some p) (here : s.rxOffset = s.offset i) : s.rxFrame = p.frame := by
  apply holds_rxFrame
  rw [here]
  exact layout.holds i p unreleased at_i

theorem writeCapr_offset (s : Machine) (i : Nat) : s.writeCapr.offset i = s.offset i := rfl

theorem writeCapr_readPtr (s : Machine) :
    s.writeCapr.nic.readPtr = ((s.rxOffset + 32768 - 16) % 32768 + 16) % ringSize := by
  rw [Nic.readPtr]
  rfl

/-- Writing CAPR releases the frames in front of rx_offset. -/
theorem Layout.writeCapr {s : Machine} {r j : Nat} (layout : Layout s r) (forward : r ≤ j)
    (bound : j ≤ s.stored.length) (range : s.rxOffset < 32768) (here : s.rxOffset % ringSize = s.offset j) :
    Layout s.writeCapr j := by
  refine ⟨bound, layout.cbr, ?_, ?_, fun i p unreleased => layout.holds i p (forward.trans unreleased),
    fun i unreleased => layout.numbers i (forward.trans unreleased)⟩
  · rw [writeCapr_readPtr, writeCapr_offset, ← here, ringSize_eq]
    omega
  · have further : extent Packet.size (s.stored.take r) ≤ extent Packet.size (s.stored.take j) :=
      extent_take_le s.stored forward
    exact Nat.lt_of_lt_of_le layout.turn (Nat.add_le_add_right further _)

/-- The layout does not depend on ISR, nor on the statics of the driver. -/
theorem Layout.of_same {s t : Machine} {r : Nat} (layout : Layout s r) (stored : t.stored = s.stored)
    (mem : t.nic.mem = s.nic.mem) (cbr : t.nic.cbr = s.nic.cbr) (capr : t.nic.capr = s.nic.capr)
    (numberAt : t.numberAt = s.numberAt) : Layout t r := by
  have offset (i : Nat) : t.offset i = s.offset i := by rw [Machine.offset, stored, Machine.offset]
  constructor
  · rw [stored]
    exact layout.released
  · rw [cbr, stored, offset]
    exact layout.cbr
  · rw [Nic.readPtr, capr, offset]
    exact layout.readPtr
  · rw [stored]
    exact layout.turn
  · intro i p unreleased at_i
    rw [mem, offset]
    exact layout.holds i p unreleased (stored ▸ at_i)
  · intro i unreleased small
    rw [numberAt, offset]
    exact layout.numbers i unreleased (stored ▸ small)

/-- BUFE is set exactly when every frame is released. -/
theorem Layout.bufe_iff {s : Machine} {r : Nat} (layout : Layout s r) : s.nic.bufe = true ↔ r = s.stored.length := by
  rw [Nic.bufe, decide_eq_true_eq, layout.readPtr, layout.cbr]
  refine ⟨fun same => ?_, fun same => by rw [same]⟩
  by_contra other
  have inside : r < s.stored.length := Nat.lt_of_le_of_ne layout.released other
  have ordered : extent Packet.size (s.stored.take r) + s.stored[r].size ≤ extent Packet.size s.stored := by
    conv_rhs => rw [← List.take_length (l := s.stored)]
    exact extent_take_add_le (List.getElem?_eq_getElem inside) inside
  have positive := s.stored[r].size_pos
  have distance := distance_in_ring (Nat.le_of_add_right_le ordered) layout.turn
  rw [← offset_length, ← Machine.offset, same, Nat.add_sub_cancel_left, Nat.mod_self] at distance
  omega

theorem four_dvd_offset (s : Machine) (i : Nat) : 4 ∣ s.offset i := by
  have ring : 4 ∣ ringSize := by
    rw [ringSize_eq]
    decide
  apply (Nat.dvd_mod_iff ring).mpr
  exact dvd_extent (fun p => Nat.dvd_mul_left 4 _) _

/-- From the offset of a frame, rx_offset moves to the next one; it is not wrapped where the card wraps. -/
theorem advance_rxOffset {s : Machine} {i : Nat} {p : Packet} (at_i : s.stored[i]? = some p)
    (here : s.rxOffset = s.offset i) (short : p.length ≤ 1514) :
    (s.advance p.length).rxOffset = s.offset i + p.size ∧
      (s.advance p.length).rxOffset < 32768 ∧ (s.advance p.length).rxOffset % ringSize = s.offset (i + 1) := by
  obtain ⟨k, aligned⟩ := four_dvd_offset s i
  have bound := offset_lt s i
  have moved : (s.advance p.length).rxOffset = s.offset i + p.size := by
    simp only [Machine.advance, here, Packet.size]
    rw [ringSize_eq] at bound
    omega
  refine ⟨moved, Nat.mod_lt _ (by decide), ?_⟩
  rw [moved, offset_succ at_i]

/-! ### One call that nothing interrupts -/

/-- The frames that wait in the ring, with rx_offset at the first of them. -/
structure Waiting (s : Machine) (queue : List Packet) : Prop where
  layout : Layout s s.passed
  queue : s.stored.drop s.passed = queue
  here : s.rxOffset = s.offset s.passed

theorem writeIsr_self (n : Nic) : (n.writeIsr n.isr).isr = 0 := by
  simp [Nic.writeIsr]

theorem pollLoop_quiet {s : Machine} (quiet : s.nic.isr &&& (isrRok ||| isrRer) = 0) (budget : Nat) :
    s.pollLoop budget = s := by
  cases budget with
  | zero => rfl
  | succ budget => rw [Machine.pollLoop, if_pos quiet]

/-- Writing ISR back also acknowledges the frames that are still in the ring. -/
theorem pollLoop_single {s : Machine} {budget : Nat} (busy : s.nic.isr &&& (isrRok ||| isrRer) ≠ 0)
    (stored : s.nic.bufe = false) (fine : bad s.pktStatus s.pktLen = false) :
    s.pollLoop (budget + 1) = ((s.ackIsr s.nic.isr).deliver.advance s.pktLen).writeCapr := by
  have again : (((s.ackIsr s.nic.isr).deliver.advance s.pktLen).writeCapr).nic.isr = 0 := writeIsr_self s.nic
  have bufe : (s.ackIsr s.nic.isr).nic.bufe = false := stored
  have header : bad (s.ackIsr s.nic.isr).pktStatus s.pktLen = false := fine
  have len : (s.ackIsr s.nic.isr).pktLen = s.pktLen := rfl
  rw [Machine.pollLoop, if_neg busy]
  simp only [bufe, len, header, Bool.false_eq_true, ↓reduceIte]
  apply pollLoop_quiet
  rw [again]
  rfl

/-- What a call makes of frames that wait: it passes the first one, and only that one. -/
theorem ethPoll_first {s : Machine} {p : Packet} {rest : List Packet} (ready : s.nicOk = true)
    (waiting : Waiting s (p :: rest)) (fine : p.fine = true)
    (busy : s.nic.isr &&& (isrRok ||| isrRer) ≠ 0) :
    s.ethPoll.delivered = s.delivered ++ [(s.passed, p.frame)] ∧ Layout s.ethPoll (s.passed + 1) ∧
      s.ethPoll.stored = s.stored := by
  obtain ⟨layout, queue, here⟩ := waiting
  have at_first : s.stored[s.passed]? = some p := by
    have := congrArg List.head? queue
    rwa [List.head?_drop] at this
  have inside := (List.getElem?_eq_some_iff.mp at_first).1
  have len := (layout.header le_rfl at_first here).2
  have good : bad s.pktStatus s.pktLen = false := by
    rw [layout.bad_eq le_rfl at_first here, fine]
    rfl
  have waits : s.nic.bufe = false := by
    rw [Bool.eq_false_iff]
    intro empty
    exact Nat.ne_of_lt inside (layout.bufe_iff.mp empty)
  have whole : s.ethPoll = ((s.ackIsr s.nic.isr).deliver.advance p.length).writeCapr := by
    rw [Machine.ethPoll, if_pos ready, pollLoop_single busy waits good, len]
  obtain ⟨-, range, moved⟩ := advance_rxOffset (s := (s.ackIsr s.nic.isr).deliver) at_first here (Packet.fine_length fine)
  rw [whole]
  refine ⟨?_, ?_, rfl⟩
  · have number := layout.numbers s.passed le_rfl inside
    show s.delivered ++ [(s.numberAt s.rxOffset, s.rxFrame)] = _
    rw [layout.rxFrame le_rfl at_first here, here, number]
  · refine Layout.writeCapr ?_ (Nat.le_succ _) inside range moved
    exact layout.of_same rfl rfl rfl rfl rfl

/-- When a call returns before its budget is spent, the ring is empty exactly if there was nothing in it,
or a single frame whose ROK was still set. -/
theorem ethPoll_empties_iff {s : Machine} {queue : List Packet} (ready : s.nicOk = true) (waiting : Waiting s queue)
    (fine : ∀ p ∈ queue, p.fine = true) :
    (s.ethPoll.delivered.length < s.delivered.length + 32 → s.ethPoll.nic.bufe = true) ↔
      queue = [] ∨ (s.nic.isr &&& (isrRok ||| isrRer) ≠ 0 ∧ queue.length = 1) := by
  have left := congrArg List.length waiting.queue
  rw [List.length_drop] at left
  by_cases quiet : s.nic.isr &&& (isrRok ||| isrRer) = 0
  · have same : s.ethPoll = s := by
      rw [Machine.ethPoll, if_pos ready, pollLoop_quiet quiet]
    rw [same, waiting.layout.bufe_iff, ← List.length_eq_zero_iff]
    have := waiting.layout.released
    simp only [quiet, ne_eq, not_true_eq_false, false_and, or_false]
    omega
  · cases queue with
    | nil =>
      -- nothing waits, and ROK alone changes nothing
      have empty : s.nic.bufe = true := by
        have := waiting.layout.released
        rw [List.length_nil] at left
        exact waiting.layout.bufe_iff.mpr (by omega)
      have stops : s.ethPoll = s.ackIsr s.nic.isr := by
        have bufe : (s.ackIsr s.nic.isr).nic.bufe = true := empty
        rw [Machine.ethPoll, if_pos ready, Machine.pollLoop, if_neg quiet]
        simp only [bufe, ↓reduceIte]
      rw [stops]
      exact ⟨fun _ => .inl rfl, fun _ _ => empty⟩
    | cons p rest =>
      -- the first frame is passed, so only a single one leaves the ring empty
      obtain ⟨delivered, layout, stored⟩ := ethPoll_first ready waiting (fine p (.head _)) quiet
      rw [delivered, layout.bufe_iff, stored]
      rw [List.length_cons] at left
      simp only [List.length_append, List.length_nil, reduceCtorEq, List.length_cons, false_or]
      constructor
      · intro emptied
        exact ⟨quiet, by have := emptied (by omega); omega⟩
      · rintro ⟨-, single⟩ -
        omega

theorem ethInit_layout : Layout ethInit 0 where
  released := Nat.le_refl 0
  cbr := (Nat.zero_mod ringSize).symm
  readPtr := (Nat.zero_mod ringSize).symm
  turn := Nat.lt_of_lt_of_eq ringSize_pos (Nat.zero_add ringSize).symm
  holds := fun _ _ _ at_i => nomatch at_i
  numbers := fun _ _ small => absurd small (Nat.not_lt_zero _)

/-- A frame with one byte throughout. -/
def filled (n : Nat) (b : UInt8) (crc : 4 ≤ n) (short : n < 2 ^ 16) : Packet :=
  ⟨1, List.replicate n b, by rwa [List.length_replicate], by rwa [List.length_replicate]⟩

def leastFrame (b : UInt8) : Packet := filled 64 b (by decide) (by decide)

/-- One frame, and the ROK that it raised. -/
theorem one_frame_empties :
    (ethInit.receive (leastFrame 1)).ethPoll.delivered.length = 1 ∧
      (ethInit.receive (leastFrame 1)).ethPoll.nic.bufe = true := by
  have room : ethInit.nic.room (leastFrame 1) = true := by decide +kernel
  have waiting : Waiting (ethInit.receive (leastFrame 1)) [leastFrame 1] := ⟨ethInit_layout.receive room, rfl, rfl⟩
  have fine : ∀ p ∈ [leastFrame 1], p.fine = true := by
    simp only [List.mem_singleton, forall_eq]
    decide +kernel
  have first : (ethInit.receive (leastFrame 1)).ethPoll.delivered.length = 1 := by
    rw [(ethPoll_first rfl waiting (fine _ (.head _)) (by decide)).1]
    rfl
  refine ⟨first, (ethPoll_empties_iff rfl waiting fine).mpr (.inr ⟨by decide, rfl⟩) ?_⟩
  rw [first]
  decide

/-- Two frames that share one ROK: the call passes one and returns. -/
theorem second_frame_stays : ¬ ∀ (s : Machine) (queue : List Packet), s.nicOk = true → Waiting s queue →
    (∀ p ∈ queue, p.fine = true) → s.ethPoll.delivered.length < s.delivered.length + 32 →
    s.ethPoll.nic.bufe = true := by
  intro all
  have room : ethInit.nic.room (leastFrame 1) = true := by decide +kernel
  have room' : (ethInit.receive (leastFrame 1)).nic.room (leastFrame 2) = true := by decide +kernel
  have waiting : Waiting ((ethInit.receive (leastFrame 1)).receive (leastFrame 2)) [leastFrame 1, leastFrame 2] :=
    ⟨(ethInit_layout.receive room).receive room', rfl, rfl⟩
  have fine : ∀ p ∈ [leastFrame 1, leastFrame 2], p.fine = true := by
    simp only [List.mem_cons, List.not_mem_nil, or_false, forall_eq_or_imp, forall_eq]
    decide +kernel
  obtain ⟨delivered, layout, stored⟩ := ethPoll_first rfl waiting (fine _ (.head _)) (by decide)
  have empty := all _ _ rfl waiting fine (by rw [delivered]; decide)
  rw [layout.bufe_iff, stored] at empty
  exact absurd empty (by decide)

end ChrisOS.Net.Eth
