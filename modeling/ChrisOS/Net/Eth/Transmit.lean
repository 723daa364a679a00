import ChrisOS.Net.Types
import ChrisOS.Lib.Run
import Mathlib.Logic.Function.Basic

/-! The send side of net/eth.c, and the card that reads the four buffers.

eth_send stores a frame byte by byte and then writes TSD, which gives the buffer to the
card. The card reads a buffer when it completes its descriptor, at any later time and
also while the next call is storing.
-/

set_option autoImplicit false

namespace ChrisOS.Net.Eth.Transmit
open ChrisOS.Lib

/-- TX_BUF_COUNT. -/
def txBufCount : Nat := 4

/-- A call of eth_send under way: its frame, and how many bytes of it are stored. -/
structure Sending where
  frame : List UInt8
  done : Nat

structure Nic where
  ok : Bool
  mac : MacAddr
  /-- tx_buf, one buffer after the other, and what lies behind it. -/
  mem : Nat → UInt8
  txCur : Nat
  /-- Descriptors that were handed over and are not yet completed. -/
  owned : Nat → Bool
  /-- The lengths last written to TSD. -/
  size : Nat → Nat
  /-- The descriptor that the card completes next. -/
  dev : Nat
  sending : Option Sending
  /-- The frames of the calls that were not refused, in order. -/
  queued : List (List UInt8)
  /-- What the card has put on the wire. -/
  sent : List (List UInt8)

/-- The address of a buffer, from tx_buf on. -/
def base (d : Nat) : Nat := d * txBufSize

def frameOf (mac dest : MacAddr) (type : UInt16) (payload : List UInt8) : List UInt8 :=
  dest.toList ++ mac.toList ++ bytes16 type ++ payload

/-- The 16-bit variable frame_len, for a frame of this length. -/
def frameLen (n : Nat) : Nat := n % 2 ^ 16

inductive Event where
  | call (dest : MacAddr) (type : UInt16) (payload : List UInt8)
  | store
  | handOver
  | complete

namespace Nic

/-- The bytes the card reads for a descriptor. -/
def frameAt (n : Nic) (d : Nat) : List UInt8 := (List.range (n.size d)).map fun i => n.mem (base d + i)

/-- eth_send up to its first store. -/
def call (n : Nic) (dest : MacAddr) (type : UInt16) (payload : List UInt8) : Nic :=
  let frame := frameOf n.mac dest type payload
  -- refused
  if !n.ok || frameLen frame.length > txBufSize then n
  -- nothing asks whether the card is done with the buffer
  else { n with sending := some ⟨frame, 0⟩ }

def store (n : Nic) (w : Sending) (b : UInt8) : Nic :=
  { n with
    mem := Function.update n.mem (base n.txCur + w.done) b
    sending := some { w with done := w.done + 1 } }

/-- The write to TSD, and the next buffer's turn. -/
def handOver (n : Nic) (w : Sending) : Nic :=
  { n with
    owned := Function.update n.owned n.txCur true
    size := Function.update n.size n.txCur (frameLen w.frame.length)
    txCur := (n.txCur + 1) % txBufCount
    sending := none
    queued := n.queued ++ [w.frame] }

/-- The card reads its next buffer, sends it and gives the descriptor back. -/
def complete (n : Nic) : Nic :=
  { n with
    owned := Function.update n.owned n.dev false
    dev := (n.dev + 1) % txBufCount
    sent := n.sent ++ [n.frameAt n.dev] }

/-- The card completes what it owns, for this many descriptors at most. -/
def drain : Nat → Nic → Nic
  | 0, n => n
  | left + 1, n => if n.owned n.dev then drain left n.complete else n

end Nic

/-- The state after an event, if it can happen: calls follow one another, and len has 16 bits. -/
def next (n : Nic) : Event → Option Nic
  | .call dest type payload =>
    if n.sending.isNone ∧ payload.length < 2 ^ 16 then some (n.call dest type payload) else none
  | .store =>
    match n.sending with
    | none => none
    | some w => w.frame[w.done]?.map (n.store w)
  | .handOver =>
    match n.sending with
    | none => none
    | some w => if w.done = w.frame.length then some (n.handOver w) else none
  | .complete => if n.owned n.dev then some n.complete else none

abbrev Step (n : Nic) (e : Event) (n' : Nic) : Prop := next n e = some n'

/-- After eth_init. -/
def start (ok : Bool) (mac : MacAddr) (mem : Nat → UInt8) : Nic :=
  ⟨ok, mac, mem, 0, fun _ => false, fun _ => 0, 0, none, [], []⟩

/-- What was sent is what was queued first, and once the card has completed everything it is all
that was queued: each frame once, with its own bytes and length. -/
def Faithful (n : Nic) : Prop := n.sent <+: n.queued ∧ (n.drain txBufCount).sent = n.queued

/-- The store changes a byte of a frame that the card has yet to read. -/
def Overwrites (n : Nic) (w : Sending) : Prop :=
  ∃ d < txBufCount, n.owned d = true ∧ base d ≤ base n.txCur + w.done ∧
    base n.txCur + w.done < base d + n.size d ∧ w.frame[w.done]? ≠ some (n.mem (base n.txCur + w.done))

/-- A store into a buffer in use, a descriptor handed over before the card gave it back, or a
frame whose length does not fit in 16 bits. -/
def Clobbers (n : Nic) (e : Event) : Prop :=
  match e with
  | .store => ∃ w, n.sending = some w ∧ Overwrites n w
  | .handOver => n.owned n.txCur = true ∨ ∃ w, n.sending = some w ∧ 2 ^ 16 ≤ w.frame.length
  | .call .. | .complete => False

/-! ### The ring of descriptors -/

/-- The descriptors that are owned are the `k` from `dev` on. -/
structure Ring (n : Nic) (k : Nat) : Prop where
  few : k ≤ txBufCount
  dev : n.dev < txBufCount
  owns : ∀ i < txBufCount, n.owned ((n.dev + i) % txBufCount) = decide (i < k)

/-- The frames the card has yet to read, first one first. -/
def pending (n : Nic) (k : Nat) : List (List UInt8) :=
  (List.range k).map fun i => n.frameAt ((n.dev + i) % txBufCount)

theorem Ring.owned_dev {n : Nic} {k : Nat} (ring : Ring n k) : n.owned n.dev = decide (0 < k) := by
  have := ring.owns 0 (by decide)
  rwa [Nat.add_zero, Nat.mod_eq_of_lt ring.dev] at this

/-- The descriptor that follows the owned ones is owned only if all are. -/
theorem Ring.owned_cur {n : Nic} {k : Nat} (ring : Ring n k) (cur : n.txCur = (n.dev + k) % txBufCount) :
    n.owned n.txCur = decide (k = txBufCount) := by
  rcases Nat.lt_or_eq_of_le ring.few with room | rfl
  · rw [cur, ring.owns k room]
    simp [Nat.ne_of_lt room]
  · rw [cur, Nat.add_mod_right, Nat.mod_eq_of_lt ring.dev, ring.owned_dev]
    rfl

theorem Ring.owned_iff {n : Nic} {k : Nat} (ring : Ring n k) {d : Nat} (small : d < txBufCount) :
    n.owned d = true ↔ ∃ i < k, d = (n.dev + i) % txBufCount := by
  obtain ⟨few, dev, owns⟩ := ring
  simp only [txBufCount] at few dev owns small ⊢
  constructor
  · intro owned
    -- every descriptor is some number of places after dev
    have place : (n.dev + (d + 4 - n.dev) % 4) % 4 = d := by omega
    have := owns ((d + 4 - n.dev) % 4) (Nat.mod_lt _ (by decide))
    rw [place, owned] at this
    exact ⟨_, of_decide_eq_true this.symm, place.symm⟩
  · rintro ⟨i, lower, rfl⟩
    rw [owns i (by omega), decide_eq_true lower]

theorem Ring.complete {n : Nic} {k : Nat} (ring : Ring n (k + 1)) : Ring n.complete k := by
  obtain ⟨few, dev, owns⟩ := ring
  simp only [txBufCount] at few dev owns
  refine ⟨Nat.le_of_succ_le few, Nat.mod_lt _ (by decide), fun i small => ?_⟩
  show Function.update n.owned n.dev false (((n.dev + 1) % 4 + i) % 4) = decide (i < k)
  have small : i < 4 := small
  by_cases last : i = 3
  · -- the descriptor given back is now the last in turn
    have here : ((n.dev + 1) % 4 + i) % 4 = n.dev := by omega
    have beyond : ¬ i < k := by omega
    rw [here, Function.update_self, decide_eq_false beyond]
  · have there : ((n.dev + 1) % 4 + i) % 4 = (n.dev + (i + 1)) % 4 := by omega
    have other : (n.dev + (i + 1)) % 4 ≠ n.dev := by omega
    rw [there, Function.update_of_ne other, owns (i + 1) (by omega)]
    exact decide_eq_decide.mpr Nat.succ_lt_succ_iff

theorem Ring.handOver {n : Nic} {k : Nat} (ring : Ring n k) (cur : n.txCur = (n.dev + k) % txBufCount) (w : Sending)
    (room : k < txBufCount) : Ring (n.handOver w) (k + 1) := by
  obtain ⟨few, dev, owns⟩ := ring
  simp only [txBufCount] at few dev cur owns room
  refine ⟨room, dev, fun i small => ?_⟩
  show Function.update n.owned n.txCur true ((n.dev + i) % 4) = decide (i < k + 1)
  have small : i < 4 := small
  by_cases last : i = k
  · subst last
    rw [cur, Function.update_self, decide_eq_true (Nat.lt_succ_self i)]
  · have other : (n.dev + i) % 4 ≠ n.txCur := by omega
    rw [Function.update_of_ne other, owns i small]
    exact decide_eq_decide.mpr (by omega)

/-- With every descriptor owned, handing one over again changes no ownership. -/
theorem Ring.handOver_full {n : Nic} (ring : Ring n txBufCount) (cur : n.txCur = (n.dev + txBufCount) % txBufCount)
    (w : Sending) : Ring (n.handOver w) txBufCount := by
  have owned := ring.owned_cur cur
  rw [decide_eq_true rfl] at owned
  have same : (n.handOver w).owned = n.owned := by
    show Function.update n.owned n.txCur true = n.owned
    rw [← owned, Function.update_eq_self]
  refine ⟨ring.few, ring.dev, ?_⟩
  rw [same]
  exact ring.owns

theorem pending_succ (n : Nic) (k : Nat) (dev : n.dev < txBufCount) :
    pending n (k + 1) = n.frameAt n.dev :: pending n.complete k := by
  unfold pending
  rw [List.range_succ_eq_map, List.map_cons, List.map_map, Nat.add_zero, Nat.mod_eq_of_lt dev]
  refine congrArg (_ :: ·) (List.map_congr_left fun i _ => ?_)
  show n.frameAt ((n.dev + (i + 1)) % txBufCount) = n.frameAt (((n.dev + 1) % txBufCount + i) % txBufCount)
  rw [Nat.mod_add_mod, Nat.add_assoc, Nat.add_comm 1 i]

/-- Draining sends all that is pending. -/
theorem Ring.drain {n : Nic} {k left : Nat} (ring : Ring n k) (enough : k ≤ left) :
    (n.drain left).sent = n.sent ++ pending n k := by
  induction left generalizing n k with
  | zero =>
    have : k = 0 := by omega
    subst this
    exact (List.append_nil _).symm
  | succ left ih =>
    rw [Nic.drain, ring.owned_dev]
    cases k with
    | zero => exact (List.append_nil _).symm
    | succ k =>
      have rest := ih ring.complete (Nat.le_of_succ_le_succ enough)
      rw [pending_succ n k ring.dev, if_pos (decide_eq_true (Nat.succ_pos k)), rest, Nic.complete,
        List.append_assoc, List.singleton_append]

theorem Ring.faithful_iff {n : Nic} {k : Nat} (ring : Ring n k) :
    Faithful n ↔ n.queued = n.sent ++ pending n k := by
  unfold Faithful
  rw [ring.drain ring.few]
  constructor
  · rintro ⟨-, all⟩
    exact all.symm
  · intro all
    rw [all]
    exact ⟨List.prefix_append _ _, rfl⟩

/-! ### What one step preserves -/

structure Inv (n : Nic) (k : Nat) : Prop where
  ring : Ring n k
  cur : n.txCur = (n.dev + k) % txBufCount
  frames : n.queued = n.sent ++ pending n k
  /-- The bytes stored so far are in the buffer. -/
  stored : ∀ w, n.sending = some w → ∀ i < w.done, w.frame[i]? = some (n.mem (base n.txCur + i))

theorem Inv.faithful {n : Nic} {k : Nat} (invariant : Inv n k) : Faithful n :=
  invariant.ring.faithful_iff.mpr invariant.frames

theorem inv_start (ok : Bool) (mac : MacAddr) (mem : Nat → UInt8) : Inv (start ok mac mem) 0 := by
  refine ⟨⟨Nat.zero_le _, Nat.zero_lt_succ _, fun i _ => rfl⟩, rfl, rfl, fun w under_way => ?_⟩
  cases under_way

theorem Inv.call {n : Nic} {k : Nat} (invariant : Inv n k) (dest : MacAddr) (type : UInt16) (payload : List UInt8) :
    Inv (n.call dest type payload) k := by
  unfold Nic.call
  dsimp only
  split
  · exact invariant
  · obtain ⟨⟨few, dev, owns⟩, cur, frames, -⟩ := invariant
    refine ⟨⟨few, dev, owns⟩, cur, frames, fun w begun i before => ?_⟩
    cases begun
    exact absurd before (Nat.not_lt_zero i)

theorem Inv.complete {n : Nic} {k : Nat} (invariant : Inv n k) (owned : n.owned n.dev = true) :
    ∃ k', Inv n.complete k' := by
  obtain ⟨ring, cur, frames, stored⟩ := invariant
  rw [ring.owned_dev, decide_eq_true_eq] at owned
  obtain ⟨k', rfl⟩ := Nat.exists_eq_succ_of_ne_zero (Nat.ne_of_gt owned)
  refine ⟨k', ring.complete, ?_, ?_, stored⟩
  · show n.txCur = ((n.dev + 1) % txBufCount + k') % txBufCount
    rw [cur, Nat.mod_add_mod, Nat.succ_eq_one_add, Nat.add_assoc]
  · show n.queued = (n.sent ++ [n.frameAt n.dev]) ++ pending n.complete k'
    rw [frames, pending_succ n k' ring.dev, List.append_assoc, List.singleton_append]

/-- A store leaves the frame of a descriptor alone unless it changes one of its bytes. -/
theorem frameAt_store_iff (n : Nic) (w : Sending) (b : UInt8) (d : Nat) :
    (n.store w b).frameAt d = n.frameAt d ↔ (base d ≤ base n.txCur + w.done →
      base n.txCur + w.done < base d + n.size d → n.mem (base n.txCur + w.done) = b) := by
  show (List.range (n.size d)).map (fun i => Function.update n.mem (base n.txCur + w.done) b (base d + i)) =
    (List.range (n.size d)).map (fun i => n.mem (base d + i)) ↔ _
  generalize base n.txCur + w.done = a
  rw [List.map_inj_left]
  constructor
  · intro same lower upper
    have here : base d + (a - base d) = a := by omega
    have := same (a - base d) (List.mem_range.mpr (by omega))
    rw [here, Function.update_self] at this
    exact this.symm
  · intro same i member
    have inside := List.mem_range.mp member
    by_cases here : base d + i = a
    · rw [here, Function.update_self, same (by omega) (by omega)]
    · exact Function.update_of_ne here b n.mem

theorem pending_store_iff {n : Nic} {k : Nat} (ring : Ring n k) {w : Sending} {b : UInt8}
    (byte : w.frame[w.done]? = some b) : pending (n.store w b) k = pending n k ↔ ¬ Overwrites n w := by
  show (List.range k).map (fun i => (n.store w b).frameAt ((n.dev + i) % txBufCount)) = _ ↔ _
  rw [pending, List.map_inj_left]
  constructor
  · rintro same ⟨d, small, owned, lower, upper, changed⟩
    obtain ⟨i, inside, rfl⟩ := (ring.owned_iff small).mp owned
    have := (frameAt_store_iff n w b _).mp (same i (List.mem_range.mpr inside)) lower upper
    rw [byte, this] at changed
    exact changed rfl
  · intro kept i member
    refine (frameAt_store_iff n w b _).mpr fun lower upper => ?_
    by_contra other
    have small : (n.dev + i) % txBufCount < txBufCount := Nat.mod_lt _ (by decide)
    refine kept ⟨_, small, (ring.owned_iff small).mpr ⟨i, List.mem_range.mp member, rfl⟩, lower, upper, ?_⟩
    rw [byte]
    exact fun same => other (Option.some.inj same).symm

theorem Ring.store {n : Nic} {k : Nat} (ring : Ring n k) (w : Sending) (b : UInt8) : Ring (n.store w b) k :=
  ⟨ring.few, ring.dev, ring.owns⟩

theorem Inv.store {n : Nic} {k : Nat} (invariant : Inv n k) {w : Sending} (under_way : n.sending = some w) {b : UInt8}
    (byte : w.frame[w.done]? = some b) (kept : ¬ Overwrites n w) : Inv (n.store w b) k := by
  obtain ⟨ring, cur, frames, stored⟩ := invariant
  refine ⟨ring.store w b, cur, ?_, fun w' same i before => ?_⟩
  · rw [(pending_store_iff ring byte).mpr kept]
    exact frames
  · have mem : (n.store w b).mem = Function.update n.mem (base n.txCur + w.done) b := rfl
    have same_cur : (n.store w b).txCur = n.txCur := rfl
    cases same
    rw [mem, same_cur]
    rcases Nat.lt_succ_iff_lt_or_eq.mp before with earlier | rfl
    · rw [Function.update_of_ne (by omega)]
      exact stored w under_way i earlier
    · rw [Function.update_self]
      exact byte

/-- Handing over a free descriptor makes its buffer the last one pending. -/
theorem pending_handOver {n : Nic} {k : Nat} (ring : Ring n k) (cur : n.txCur = (n.dev + k) % txBufCount) (w : Sending)
    (room : k < txBufCount) : pending (n.handOver w) (k + 1) =
      pending n k ++ [(List.range (frameLen w.frame.length)).map fun i => n.mem (base n.txCur + i)] := by
  have last : (n.handOver w).frameAt n.txCur =
      (List.range (frameLen w.frame.length)).map fun i => n.mem (base n.txCur + i) := by
    show (List.range (Function.update n.size n.txCur (frameLen w.frame.length) n.txCur)).map _ = _
    rw [Function.update_self]
    rfl
  show (List.range (k + 1)).map (fun i => (n.handOver w).frameAt ((n.dev + i) % txBufCount)) = _
  rw [List.range_succ, List.map_append, List.map_singleton, ← cur, last, pending]
  refine congrArg (· ++ _) (List.map_congr_left fun i member => ?_)
  -- the other descriptors keep their lengths
  have inside := List.mem_range.mp member
  have other : (n.dev + i) % txBufCount ≠ n.txCur := by
    have dev := ring.dev
    simp only [txBufCount] at dev room cur ⊢
    omega
  show (List.range (Function.update n.size n.txCur _ ((n.dev + i) % txBufCount))).map _ = _
  rw [Function.update_of_ne other]
  rfl

/-- What a hand-over makes of the last frame, when it is all stored. -/
theorem handed_over_iff {n : Nic} {w : Sending} (done : w.done = w.frame.length)
    (stored : ∀ i < w.done, w.frame[i]? = some (n.mem (base n.txCur + i))) :
    w.frame = ((List.range (frameLen w.frame.length)).map fun i => n.mem (base n.txCur + i)) ↔
      w.frame.length < 2 ^ 16 := by
  constructor
  · intro same
    have := congrArg List.length same
    rw [List.length_map, List.length_range] at this
    exact this ▸ Nat.mod_lt _ (Nat.two_pow_pos 16)
  · intro short
    rw [frameLen, Nat.mod_eq_of_lt short]
    apply List.ext_getElem
    · simp
    · intro i lower upper
      have := stored i (done ▸ lower)
      rw [List.getElem?_eq_getElem lower] at this
      simpa using this

theorem Inv.faithful_handOver_iff {n : Nic} {k : Nat} (invariant : Inv n k) {w : Sending} (under_way : n.sending = some w)
    (done : w.done = w.frame.length) : Faithful (n.handOver w) ↔ ¬ Clobbers n .handOver := by
  obtain ⟨ring, cur, frames, stored⟩ := invariant
  have owned := ring.owned_cur cur
  have judged : Clobbers n .handOver ↔ k = txBufCount ∨ 2 ^ 16 ≤ w.frame.length := by
    simp [Clobbers, owned, under_way]
  rw [judged]
  by_cases full : k = txBufCount
  · subst full
    -- one more frame is queued, and no more are pending
    refine ⟨fun faithful => ?_, fun fine => absurd (.inl rfl) fine⟩
    have := congrArg List.length ((ring.handOver_full cur w).faithful_iff.mp faithful)
    rw [show (n.handOver w).queued = n.queued ++ [w.frame] from rfl, show (n.handOver w).sent = n.sent from rfl,
      frames] at this
    simp [pending] at this
  · have room : k < txBufCount := Nat.lt_of_le_of_ne ring.few full
    rw [(ring.handOver cur w room).faithful_iff, pending_handOver ring cur w room]
    show n.queued ++ [w.frame] = n.sent ++ (pending n k ++ _) ↔ _
    rw [frames, List.append_assoc, List.append_cancel_left_eq, List.append_cancel_left_eq, List.singleton_inj,
      handed_over_iff done (stored w under_way)]
    simp [full]

theorem Inv.handOver {n : Nic} {k : Nat} (invariant : Inv n k) {w : Sending} (under_way : n.sending = some w)
    (done : w.done = w.frame.length) (fine : ¬ Clobbers n .handOver) : ∃ k', Inv (n.handOver w) k' := by
  have faithful := (invariant.faithful_handOver_iff under_way done).mpr fine
  obtain ⟨ring, cur, frames, stored⟩ := invariant
  have room : k < txBufCount := by
    refine Nat.lt_of_le_of_ne ring.few fun full => fine (.inl ?_)
    rw [ring.owned_cur cur, decide_eq_true full]
  have next := ring.handOver cur w room
  refine ⟨k + 1, next, ?_, next.faithful_iff.mp faithful, fun w' begun => ?_⟩
  · show (n.txCur + 1) % txBufCount = (n.dev + (k + 1)) % txBufCount
    rw [cur, Nat.mod_add_mod, Nat.add_assoc]
  · cases begun

/-! ### Whole runs -/

/-- What one step does: calls and completions keep the card faithful, a store or a hand-over
does exactly if it clobbers nothing. -/
theorem Step.judged {n n' : Nic} {e : Event} {k : Nat} (invariant : Inv n k) (taken : Step n e n') :
    (Faithful n' ↔ ¬ Clobbers n e) ∧ (¬ Clobbers n e → ∃ k', Inv n' k') := by
  cases e with
  | call dest type payload =>
    rw [Step, next] at taken
    split at taken
    · cases taken
      have after := invariant.call dest type payload
      exact ⟨⟨fun _ => id, fun _ => after.faithful⟩, fun _ => ⟨k, after⟩⟩
    · cases taken
  | store =>
    rw [Step, next] at taken
    cases under_way : n.sending with
    | none => rw [under_way] at taken; cases taken
    | some w =>
      rw [under_way] at taken
      simp only [Option.map_eq_some_iff] at taken
      obtain ⟨b, byte, rfl⟩ := taken
      have judged : Clobbers n .store ↔ Overwrites n w := by simp [Clobbers, under_way]
      rw [judged, (invariant.ring.store w b).faithful_iff]
      refine ⟨?_, fun kept => ⟨k, invariant.store under_way byte kept⟩⟩
      rw [← pending_store_iff invariant.ring byte]
      show n.queued = n.sent ++ _ ↔ _
      rw [invariant.frames, List.append_cancel_left_eq, eq_comm]
  | handOver =>
    rw [Step, next] at taken
    cases under_way : n.sending with
    | none => rw [under_way] at taken; cases taken
    | some w =>
      rw [under_way] at taken
      simp only at taken
      split at taken
      · rename_i done
        cases taken
        exact ⟨invariant.faithful_handOver_iff under_way done, invariant.handOver under_way done⟩
      · cases taken
  | complete =>
    rw [Step, next] at taken
    split at taken
    · rename_i owned
      cases taken
      obtain ⟨k', after⟩ := invariant.complete owned
      exact ⟨⟨fun _ => id, fun _ => after.faithful⟩, fun _ => ⟨k', after⟩⟩
    · cases taken

/-- In a run from eth_init on, every state is faithful exactly if no step clobbers. -/
theorem run_faithful_iff (ok : Bool) (mac : MacAddr) (mem : Nat → UInt8) {moves : List (Move Nic Event)} {n : Nic}
    (run : Run Step (start ok mac mem) moves n) :
    (Faithful (start ok mac mem) ∧ ∀ m ∈ moves, Faithful m.after) ↔ ∀ m ∈ moves, ¬ Clobbers m.before m.event := by
  have fresh := inv_start ok mac mem
  rw [and_iff_right fresh.faithful]
  exact run.good_iff (fun n => ∃ k, Inv n k) (fun n e => ¬ Clobbers n e) (fun _ _ n' => Faithful n')
    (fun ⟨_, before⟩ fine taken => (Step.judged before taken).2 fine)
    (fun ⟨_, before⟩ taken => (Step.judged before taken).1) ⟨0, fresh⟩

/-- The events of this many calls in a row, with no payload and no completion in between. -/
def burst (calls : Nat) : List Event :=
  (List.range calls).flatMap fun i =>
    .call ⟨fun _ => UInt8.ofNat i⟩ ethTypeIpv4 [] :: (List.replicate ethHeaderLen .store ++ [.handOver])

/-- One frame is queued, completed and sent. -/
theorem run_faithful_iff_one_frame : ∃ moves n, Run Step (start true macBroadcast fun _ => 0) moves n ∧
    n.sent.length = 1 ∧
    ((Faithful (start true macBroadcast fun _ => 0) ∧ ∀ m ∈ moves, Faithful m.after) ↔
      ∀ m ∈ moves, ¬ Clobbers m.before m.event) := by
  have traced : (trace next (start true macBroadcast fun _ => 0) (burst 1 ++ [.complete])).any
      (fun r => r.2.sent.length = 1) = true := by decide +kernel
  obtain ⟨moves, n, run, one⟩ := Run.of_trace_any traced
  exact ⟨moves, n, run, of_decide_eq_true one, run_faithful_iff true macBroadcast (fun _ => 0) run⟩

/-- Five calls before the card completes any: the first frame is overwritten, and one is never sent. -/
theorem fifth_frame_overwrites : ∃ moves n, Run Step (start true macBroadcast fun _ => 0) moves n ∧
    ¬ (Faithful (start true macBroadcast fun _ => 0) ∧ ∀ m ∈ moves, Faithful m.after) := by
  have traced : (trace next (start true macBroadcast fun _ => 0) (burst 5)).any
      (fun r => (r.1.drop 79).any fun m => (m.after.drain txBufCount).sent ≠ m.after.queued) = true := by
    decide +kernel
  obtain ⟨moves, n, run, lost⟩ := Run.of_trace_any traced
  refine ⟨moves, n, run, fun ⟨_, all⟩ => ?_⟩
  obtain ⟨m, member, differs⟩ := List.any_eq_true.mp lost
  exact of_decide_eq_true differs (all m (List.mem_of_mem_drop member)).2

end ChrisOS.Net.Eth.Transmit
