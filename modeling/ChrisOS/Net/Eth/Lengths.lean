import ChrisOS.Net.Eth.Layout
import ChrisOS.Net.Types

/-! The length field of a header, and the frames that one iteration of eth_poll passes on.

The card counts the CRC in the length field, ETH_MAX_FRAME does not.
-/

set_option autoImplicit false

namespace ChrisOS.Net.Eth
open ChrisOS.Lib

def ethMaxFrame : Nat := 1514

/-- RX_BUF_SIZE. -/
def rxBufSize : Nat := 32768 + 16 + 1500

/-- The header of a good frame of a legal length. -/
def Legal (status len : Nat) : Prop :=
  status &&& rxStatRok ≠ 0 ∧ ethHeaderLen + 4 ≤ len ∧ len ≤ ethMaxFrame + 4

/-- An iteration passes on the frame at rx_offset, if it is a good one, and nothing else. -/
structure Handles (s : Machine) : Prop where
  passes : ∀ p, Holds s.nic.mem s.rxOffset p → p.status.toNat &&& rxStatRok ≠ 0 → ethHeaderLen ≤ p.frame.length →
    p.frame.length ≤ ethMaxFrame → (s.pollLoop 1).delivered = s.delivered ++ [(s.numberAt s.rxOffset, p.frame)] ∧
      (s.pollLoop 1).rxOffset = (s.rxOffset + p.size) % 32768
  drops : ¬Legal s.pktStatus s.pktLen → (s.pollLoop 1).delivered = s.delivered
  bounded : ∀ call, (s.pollLoop 1).delivered = s.delivered ++ [call] →
    call.2.length ≤ s.pktLen ∧ s.rxOffset + 4 + call.2.length ≤ rxBufSize

theorem Packet.length_frame (p : Packet) : p.frame.length + 4 = p.length := by
  have crc := p.crc
  rw [Packet.frame, List.length_take]
  unfold Packet.length
  omega

section
variable {mem : Nat → UInt8} {off : Nat}

theorem byteOf_word16 : byteOf (word16 mem off) 0 = mem off ∧ byteOf (word16 mem off) 1 = mem (off + 1) := by
  have low := (mem off).toNat_lt
  have high := (mem (off + 1)).toNat_lt
  constructor
  all_goals
    apply UInt8.toNat_inj.mp
    rw [byteOf_toNat, word16]
    omega

/-- Every ring content holds a frame, the one that its length field says. -/
theorem holds_exists (crc : 4 ≤ word16 mem (off + 2)) :
    ∃ p, Holds mem off p ∧ p.status.toNat = word16 mem off ∧ p.length = word16 mem (off + 2) := by
  have status : (UInt16.ofNat (word16 mem off)).toNat = word16 mem off := UInt16.toNat_ofNat_of_lt' (word16_lt mem off)
  have length : ((List.range (word16 mem (off + 2))).map fun k => mem (off + 4 + k)).length = word16 mem (off + 2) := by
    rw [List.length_map, List.length_range]
  refine ⟨⟨UInt16.ofNat (word16 mem off), _, le_of_le_of_eq crc length.symm, lt_of_eq_of_lt length (word16_lt _ _)⟩,
    ?_, status, length⟩
  intro k inside
  rw [Packet.length_image] at inside
  simp only [Packet.image, Packet.length, status, length] at inside ⊢
  by_cases header : k < 4
  · rcases (show k = 0 ∨ k = 1 ∨ k = 2 ∨ k = 3 by omega) with rfl | rfl | rfl | rfl
    · exact byteOf_word16.1.symm
    · exact byteOf_word16.2.symm
    · exact byteOf_word16.1.symm
    · exact byteOf_word16.2.symm
  · obtain ⟨j, rfl⟩ := Nat.exists_eq_add_of_le (Nat.le_of_not_lt header)
    rw [List.getD_append_right _ _ _ _ (by simp), List.getD_eq_getElem _ _ (by simp; omega)]
    simp [Nat.add_assoc]

end

theorem bad_iff (status len : Nat) : bad status len = true ↔ status &&& rxStatRok = 0 ∨ len = 0 ∨ 1514 < len := by
  simp [bad, or_assoc]

theorem not_legal_iff (status len : Nat) : ¬Legal status len ↔ status &&& rxStatRok = 0 ∨ len < 18 ∨ 1518 < len := by
  have smallest : ethHeaderLen + 4 = 18 := rfl
  have largest : ethMaxFrame + 4 = 1518 := rfl
  rw [Legal, smallest, largest]
  by_cases rok : status &&& rxStatRok = 0
  · simp [rok]
  · simp only [rok, ne_eq, not_false_eq_true, true_and, false_or]
    omega

section
variable {s : Machine} (busy : s.nic.isr &&& (isrRok ||| isrRer) ≠ 0) (stored : s.nic.bufe = false)
include busy stored

theorem pollLoop_bad (refused : bad s.pktStatus s.pktLen = true) (budget : Nat) :
    s.pollLoop (budget + 1) = (s.ackIsr s.nic.isr).resync.writeCapr := by
  have bufe : (s.ackIsr s.nic.isr).nic.bufe = false := stored
  have header : bad (s.ackIsr s.nic.isr).pktStatus (s.ackIsr s.nic.isr).pktLen = true := refused
  rw [Machine.pollLoop, if_neg busy]
  simp only [bufe, header, Bool.false_eq_true, ↓reduceIte]

theorem refused_delivered (refused : bad s.pktStatus s.pktLen = true) : (s.pollLoop 1).delivered = s.delivered := by
  rw [pollLoop_bad busy stored refused]
  rfl

theorem fine_delivered (fine : bad s.pktStatus s.pktLen = false) :
    (s.pollLoop 1).delivered = s.delivered ++ [(s.numberAt s.rxOffset, s.rxFrame)] ∧
      (s.pollLoop 1).rxOffset = (s.rxOffset + s.pktLen + 4 + 3) / 4 * 4 % 2 ^ 16 % 32768 := by
  rw [pollLoop_single busy stored fine]
  exact ⟨rfl, rfl⟩

/-- The test of eth_poll refuses the longest legal frames. -/
theorem handles_not_long (handles : Handles s) (rok : s.pktStatus &&& rxStatRok ≠ 0) (long : 1514 < s.pktLen) :
    1518 < s.pktLen := by
  by_contra legal
  have refused : bad s.pktStatus s.pktLen = true := (bad_iff _ _).mpr (.inr (.inr long))
  have crc : 4 ≤ word16 s.nic.mem (s.rxOffset + 2) := by
    change 4 ≤ s.pktLen
    omega
  obtain ⟨p, held, status, length⟩ := holds_exists crc
  change p.length = s.pktLen at length
  have frame := p.length_frame
  have smallest : ethHeaderLen = 14 := rfl
  have largest : ethMaxFrame = 1514 := rfl
  have passed := (handles.passes p held (by rw [status]; exact rok) (by omega) (by omega)).1
  rw [refused_delivered busy stored refused] at passed
  simp at passed

/-- It lets frames pass that are too short. -/
theorem handles_not_short (handles : Handles s) (fine : bad s.pktStatus s.pktLen = false) : 18 ≤ s.pktLen := by
  by_contra short
  have dropped := handles.drops ((not_legal_iff _ _).mpr (.inr (.inl (Nat.lt_of_not_le short))))
  rw [(fine_delivered busy stored fine).1] at dropped
  simp at dropped

theorem handles_refused (refused : bad s.pktStatus s.pktLen = true)
    (header : s.pktStatus &&& rxStatRok = 0 ∨ s.pktLen = 0 ∨ 1518 < s.pktLen) : Handles s := by
  have same := refused_delivered busy stored refused
  refine ⟨?_, fun _ => same, ?_⟩
  · intro p held rok smallest largest
    obtain ⟨status, length⟩ := holds_word held
    change s.pktStatus = p.status.toNat at status
    change s.pktLen = p.length at length
    have frame := p.length_frame
    have least : ethHeaderLen = 14 := rfl
    have most : ethMaxFrame = 1514 := rfl
    rw [← status] at rok
    omega
  · intro call passed
    rw [same] at passed
    simp at passed

theorem handles_fine (fine : bad s.pktStatus s.pktLen = false) (low : 18 ≤ s.pktLen) (high : s.pktLen ≤ 1514)
    (inside : s.rxOffset < 32768) (aligned : s.rxOffset % 4 = 0) : Handles s := by
  obtain ⟨delivered, moved⟩ := fine_delivered busy stored fine
  refine ⟨?_, ?_, ?_⟩
  · intro p held _ _ _
    have length : s.pktLen = p.length := (holds_word held).2
    rw [delivered, moved, holds_rxFrame held, Packet.size, ← length]
    exact ⟨rfl, by omega⟩
  · intro other
    rw [Bool.eq_false_iff, ne_eq, bad_iff] at fine
    rw [not_legal_iff] at other
    omega
  · intro call passed
    rw [delivered, List.append_cancel_left_eq, List.singleton_inj] at passed
    have size : rxBufSize = 34284 := rfl
    have room : s.rxFrame.length = (s.pktLen + (2 ^ 16 - 4)) % 2 ^ 16 := by
      rw [Machine.rxFrame, List.length_map, List.length_range]
    rw [← passed]
    dsimp only
    generalize s.rxFrame.length = n at room ⊢
    omega

end

/-- One iteration does what it should for every header but two kinds: those of frames of 1511 to 1514
bytes, which it drops, and those with too small a length, which it passes on. -/
theorem handles_iff {s : Machine} (busy : s.nic.isr &&& (isrRok ||| isrRer) ≠ 0) (stored : s.nic.bufe = false)
    (inside : s.rxOffset < 32768) (aligned : s.rxOffset % 4 = 0) :
    Handles s ↔ s.pktStatus &&& rxStatRok = 0 ∨ s.pktLen = 0 ∨ 18 ≤ s.pktLen ∧ s.pktLen ≤ 1514 ∨ 1518 < s.pktLen := by
  by_cases refused : bad s.pktStatus s.pktLen = true
  · have test := (bad_iff _ _).mp refused
    constructor
    · intro handles
      by_cases rok : s.pktStatus &&& rxStatRok = 0
      · exact .inl rok
      · rcases test with bad | zero | long
        · exact .inl bad
        · exact .inr (.inl zero)
        · exact .inr (.inr (.inr (handles_not_long busy stored handles rok long)))
    · intro header
      apply handles_refused busy stored refused
      omega
  · have fine := Bool.eq_false_iff.mpr refused
    rw [bad_iff] at refused
    constructor
    · intro handles
      have low := handles_not_short busy stored handles fine
      omega
    · intro header
      exact handles_fine busy stored fine (by omega) (by omega) inside aligned

/-! ### One frame in the ring -/

/-- The card has stored one frame, with its CRC of this length. -/
def oneStored (n : Nat) (crc : 4 ≤ n) (short : n < 2 ^ 16) : Machine := ethInit.receive (filled n 0 crc short)

theorem oneStored_header (n : Nat) (crc : 4 ≤ n) (short : n < 2 ^ 16) :
    (oneStored n crc short).pktStatus = 1 ∧ (oneStored n crc short).pktLen = n := by
  obtain ⟨status, length⟩ := holds_word (store_holds ethInit.nic (filled n 0 crc short))
  exact ⟨status, length.trans List.length_replicate⟩

theorem oneStored_busy (n : Nat) (crc : 4 ≤ n) (short : n < 2 ^ 16) :
    (oneStored n crc short).nic.isr &&& (isrRok ||| isrRer) ≠ 0 := by
  change (ethInit.nic.isr ||| isrRok) &&& (isrRok ||| isrRer) ≠ 0
  decide

theorem handles_iff_least : Handles (oneStored 64 (by decide) (by decide)) := by
  obtain ⟨status, length⟩ := oneStored_header 64 (by decide) (by decide)
  refine (handles_iff (oneStored_busy _ _ _) (by decide +kernel) (by decide) (by decide)).mpr ?_
  exact .inr (.inr (.inl (by rw [length]; decide)))

/-- A frame of 1514 bytes is dropped. -/
theorem handles_fails : ¬∀ s : Machine, s.nic.isr &&& (isrRok ||| isrRer) ≠ 0 → s.nic.bufe = false →
    s.rxOffset < 32768 → s.rxOffset % 4 = 0 → Handles s := by
  intro all
  have busy := oneStored_busy 1518 (by decide) (by decide)
  have stored : (oneStored 1518 (by decide) (by decide)).nic.bufe = false := by decide +kernel
  obtain ⟨status, length⟩ := oneStored_header 1518 (by decide) (by decide)
  have rok : (oneStored 1518 (by decide) (by decide)).pktStatus &&& rxStatRok ≠ 0 := by
    rw [status]
    decide
  have passed := handles_not_long busy stored (all _ busy stored (by decide) (by decide)) rok
  rw [length] at passed
  exact absurd (passed (by decide)) (by decide)

end ChrisOS.Net.Eth
