import ChrisOS.Lib.Loop
import Mathlib.Algebra.Group.Nat.Defs
import Mathlib.Data.List.Basic

/-! The search for the network card at boot (pci_find_rtl8139 of net/eth.c).

Bus and device are counted in eight bits. The loop over the devices ends at 32; the
loop over the buses compares its counter with 256.
-/

set_option autoImplicit false

namespace ChrisOS.Net.Eth
open ChrisOS.Lib

/-- What the data port reads as, by the word in the address port. -/
abbrev ConfigSpace := UInt32 → UInt32

def pciAddress (bus dev fn reg : UInt8) : UInt32 :=
  (1 : UInt32) <<< 31 ||| bus.toUInt32 <<< 16 ||| dev.toUInt32 <<< 11 ||| fn.toUInt32 <<< 8 ||| (reg &&& 0xFC).toUInt32

def pciRead (space : ConfigSpace) (bus dev fn reg : UInt8) : UInt32 := space (pciAddress bus dev fn reg)

/-- The address of the identification word of a slot. -/
theorem pciAddress_toNat (bus : UInt8) {dev : UInt8} (small : dev.toNat < 32) :
    (pciAddress bus dev 0 0).toNat = 2 ^ 31 + (bus.toNat * 2 ^ 16 + dev.toNat * 2 ^ 11) := by
  have bound := bus.toNat_lt
  have busBits : (bus.toUInt32 <<< 16).toNat = 2 ^ 16 * bus.toNat := by
    rw [UInt32.toNat_shiftLeft, UInt8.toNat_toUInt32, Nat.shiftLeft_eq, Nat.mul_comm]
    exact Nat.mod_eq_of_lt (show 2 ^ 16 * bus.toNat < 2 ^ 32 by omega)
  have devBits : (dev.toUInt32 <<< 11).toNat = 2 ^ 11 * dev.toNat := by
    rw [UInt32.toNat_shiftLeft, UInt8.toNat_toUInt32, Nat.shiftLeft_eq, Nat.mul_comm]
    exact Nat.mod_eq_of_lt (show 2 ^ 11 * dev.toNat < 2 ^ 32 by omega)
  have shape : pciAddress bus dev 0 0 = (1 : UInt32) <<< 31 ||| (bus.toUInt32 <<< 16 ||| dev.toUInt32 <<< 11) := by
    show (1 : UInt32) <<< 31 ||| bus.toUInt32 <<< 16 ||| dev.toUInt32 <<< 11 ||| 0 ||| 0 = _
    rw [UInt32.or_zero, UInt32.or_zero, UInt32.or_assoc]
  -- the three parts share no bits
  rw [shape, UInt32.toNat_or, UInt32.toNat_or, busBits, devBits, ← Nat.two_pow_add_eq_or_of_lt (by omega)]
  show 2 ^ 31 * 1 ||| _ = _
  rw [← Nat.two_pow_add_eq_or_of_lt (by omega)]
  omega

/-- Every assignment of identification words to the slots is one of a configuration space. -/
theorem exists_space (ids : UInt8 → UInt8 → UInt32) :
    ∃ space : ConfigSpace, ∀ bus dev : UInt8, dev.toNat < 32 → pciRead space bus dev 0 0 = ids bus dev := by
  refine ⟨fun a => ids (UInt8.ofNat (a.toNat / 2 ^ 16)) (UInt8.ofNat (a.toNat / 2 ^ 11 % 32)), fun bus dev small => ?_⟩
  have bound := bus.toNat_lt
  rw [pciRead, pciAddress_toNat bus small]
  congr 1
  · apply UInt8.toNat_inj.mp
    rw [UInt8.toNat_ofNat']
    omega
  · apply UInt8.toNat_inj.mp
    rw [UInt8.toNat_ofNat']
    omega

def rtl8139Vendor : UInt16 := 0x10EC
def rtl8139Device : UInt16 := 0x8139

def isRtl8139 (id : UInt32) : Bool := (id &&& 0xFFFF).toUInt16 = rtl8139Vendor && (id >>> 16).toUInt16 = rtl8139Device

/-- A bus and a device on it. -/
abbrev Slot := UInt8 × UInt8

def hasCard (space : ConfigSpace) (slot : Slot) : Bool := isRtl8139 (pciRead space slot.1 slot.2 0 0)

/-- The devices of a bus; 32 rounds are enough. -/
def devLoop (space : ConfigSpace) (bus : UInt8) : Nat → UInt8 → Option Slot
  | 0, _ => none
  | rounds + 1, dev =>
    if dev.toNat < 32 then
      if hasCard space (bus, dev) then some (bus, dev) else devLoop space bus rounds (dev + 1)
    else none

/-- The loop over the buses: no value when the budget runs out, else what the function returns. -/
def busLoop (space : ConfigSpace) : Nat → UInt8 → Option (Option Slot)
  | 0, _ => none
  | budget + 1, bus =>
    -- the comparison is made in int, where the counter is at most 255
    if bus.toNat < 256 then
      match devLoop space bus 32 0 with
      | some slot => some (some slot)
      | none => busLoop space budget (bus + 1)
    else some none

def pciFindRtl8139 (space : ConfigSpace) (budget : Nat) : Option (Option Slot) := busLoop space budget 0

/-! ### The slots in scan order -/

def slotsFrom (bus : UInt8) (dev rounds : Nat) : List Slot := (List.range' dev rounds).map fun n => (bus, UInt8.ofNat n)

def busesFrom (bus rounds : Nat) : List Slot := (List.range' bus rounds).flatMap fun n => slotsFrom (UInt8.ofNat n) 0 32

def slots : List Slot := busesFrom 0 256

theorem mem_slots {slot : Slot} : slot ∈ slots ↔ slot.2.toNat < 32 := by
  obtain ⟨bus, dev⟩ := slot
  simp only [slots, busesFrom, slotsFrom, List.mem_flatMap, List.mem_map, List.mem_range'_1, Prod.mk.injEq]
  constructor
  · rintro ⟨n, -, m, inside, -, rfl⟩
    rw [UInt8.toNat_ofNat']
    omega
  · intro inside
    have bound := bus.toNat_lt
    refine ⟨bus.toNat, by omega, dev.toNat, by omega, UInt8.ofNat_toNat, UInt8.ofNat_toNat⟩

theorem counter_succ (n : Nat) : UInt8.ofNat n + 1 = UInt8.ofNat (n + 1) := (UInt8.ofNat_add n 1).symm

theorem devLoop_eq (space : ConfigSpace) (bus : UInt8) {rounds dev : Nat} (bound : dev + rounds = 32) :
    devLoop space bus rounds (UInt8.ofNat dev) = (slotsFrom bus dev rounds).find? (hasCard space) := by
  induction rounds generalizing dev with
  | zero => rfl
  | succ rounds ih =>
    have small : (UInt8.ofNat dev).toNat < 32 := by
      rw [UInt8.toNat_ofNat']
      omega
    rw [devLoop, if_pos small, slotsFrom, List.range'_succ, List.map_cons, List.find?_cons, counter_succ,
      ih (by omega)]
    cases hasCard space (bus, UInt8.ofNat dev) <;> rfl

theorem busLoop_succ (space : ConfigSpace) (budget bus : Nat) :
    busLoop space (budget + 1) (UInt8.ofNat bus) =
      match (slotsFrom (UInt8.ofNat bus) 0 32).find? (hasCard space) with
      | some slot => some (some slot)
      | none => busLoop space budget (UInt8.ofNat (bus + 1)) := by
  have bound : (UInt8.ofNat bus).toNat < 256 := (UInt8.ofNat bus).toNat_lt
  rw [busLoop, if_pos bound, ← counter_succ, ← devLoop_eq space _ rfl]
  rfl

/-- With a card on a bus that is still to come, the loop returns the first one. -/
theorem busLoop_returns (space : ConfigSpace) {rounds bus : Nat}
    (present : ∃ slot ∈ busesFrom bus rounds, hasCard space slot = true) :
    Returns (fun budget => busLoop space budget (UInt8.ofNat bus)) ((busesFrom bus rounds).find? (hasCard space)) := by
  induction rounds generalizing bus with
  | zero =>
    obtain ⟨slot, member, -⟩ := present
    cases member
  | succ rounds ih =>
    have split : busesFrom bus (rounds + 1) = slotsFrom (UInt8.ofNat bus) 0 32 ++ busesFrom (bus + 1) rounds := by
      rw [busesFrom, List.range'_succ, List.flatMap_cons]
      rfl
    rw [split] at present ⊢
    rw [List.find?_append]
    refine .of_succ (.congr (fun budget => (busLoop_succ space budget bus).symm) ?_)
    cases here : (slotsFrom (UInt8.ofNat bus) 0 32).find? (hasCard space) with
    | some slot => exact .of_all fun _ => rfl
    | none =>
      refine ih ?_
      obtain ⟨slot, member, card⟩ := present
      refine ⟨slot, (List.mem_append.mp member).resolve_left fun inside => ?_, card⟩
      exact List.find?_eq_none.mp here slot inside card

/-- Without a card the loop over the buses goes round for ever. -/
theorem busLoop_none {space : ConfigSpace} (absent : ∀ slot ∈ slots, hasCard space slot = false) (budget bus : Nat) :
    busLoop space budget (UInt8.ofNat bus) = none := by
  induction budget generalizing bus with
  | zero => rfl
  | succ budget ih =>
    have none : (slotsFrom (UInt8.ofNat bus) 0 32).find? (hasCard space) = none := by
      refine List.find?_eq_none.mpr fun slot member card => ?_
      have inside : slot ∈ slots := by
        simp only [slotsFrom, List.mem_map, List.mem_range'_1] at member
        obtain ⟨n, bound, rfl⟩ := member
        refine mem_slots.mpr ?_
        rw [UInt8.toNat_ofNat']
        omega
      rw [absent slot inside] at card
      cases card
    rw [busLoop_succ, none]
    exact ih (bus + 1)

/-- The search returns the first slot with the card, and 0 if there is none, exactly when there is one. -/
theorem pciFindRtl8139_iff (space : ConfigSpace) :
    Returns (pciFindRtl8139 space) (slots.find? (hasCard space)) ↔ ∃ slot ∈ slots, hasCard space slot = true := by
  refine ⟨fun returns => ?_, fun present => busLoop_returns space present⟩
  by_contra absent
  obtain ⟨enough, ends⟩ := returns
  have without : ∀ slot ∈ slots, hasCard space slot = false := fun slot member =>
    Bool.eq_false_iff.mpr fun card => absent ⟨slot, member, card⟩
  have never := busLoop_none without enough 0
  exact absurd ((ends enough (Nat.le_refl _)).symm.trans never) (Option.some_ne_none _)

/-- A machine with empty slots only: the search returns neither 1 nor 0. -/
theorem no_card_never_returns : (∀ slot ∈ slots, hasCard (fun _ => 0xFFFFFFFF) slot = false) ∧
    (∀ budget, pciFindRtl8139 (fun _ => 0xFFFFFFFF) budget = none) ∧
    ¬ ∀ space, Returns (pciFindRtl8139 space) (slots.find? (hasCard space)) := by
  have absent : ∀ slot ∈ slots, hasCard (fun _ => 0xFFFFFFFF) slot = false := fun _ _ =>
    show isRtl8139 0xFFFFFFFF = false by decide
  have never (budget : Nat) : pciFindRtl8139 (fun _ => 0xFFFFFFFF) budget = none := busLoop_none absent budget 0
  refine ⟨absent, never, fun all => ?_⟩
  obtain ⟨enough, ends⟩ := all fun _ => 0xFFFFFFFF
  exact absurd ((ends enough (Nat.le_refl _)).symm.trans (never enough)) (Option.some_ne_none _)

end ChrisOS.Net.Eth
