import Mathlib.Data.Fintype.Pi
import Mathlib.Tactic.FinCases

/-! Addresses, network byte order and Ethernet framing (net/net_types.h, net/eth.c,
net/netstack.c). A packet is the list of its bytes, first byte first.
-/

set_option autoImplicit false

namespace ChrisOS.Net

structure MacAddr where
  bytes : Fin 6 → UInt8
  deriving DecidableEq

structure Ipv4Addr where
  bytes : Fin 4 → UInt8
  deriving DecidableEq

def ipEq (a b : Ipv4Addr) : Bool :=
  a.bytes 0 == b.bytes 0 && a.bytes 1 == b.bytes 1 && a.bytes 2 == b.bytes 2 && a.bytes 3 == b.bytes 3

theorem ipEq_iff {a b : Ipv4Addr} : ipEq a b = true ↔ a = b := by
  constructor
  · intro same
    simp only [ipEq, Bool.and_eq_true, beq_iff_eq] at same
    obtain ⟨⟨⟨first, second⟩, third⟩, fourth⟩ := same
    cases a
    cases b
    congr
    funext i
    fin_cases i <;> assumption
  · rintro rfl
    simp [ipEq]

def macBroadcast : MacAddr := ⟨fun _ => 0xFF⟩

/-- The byte at an offset; offsets past the end do not occur in checked reads. -/
def byteAt (p : List UInt8) (i : Nat) : UInt8 := p.getD i 0

def MacAddr.toList (m : MacAddr) : List UInt8 :=
  [m.bytes 0, m.bytes 1, m.bytes 2, m.bytes 3, m.bytes 4, m.bytes 5]

/-- `bytes[0]`. -/
def Ipv4Addr.first (a : Ipv4Addr) : UInt8 := a.bytes 0

def Ipv4Addr.toList (a : Ipv4Addr) : List UInt8 := [a.bytes 0, a.bytes 1, a.bytes 2, a.bytes 3]

def macAt (p : List UInt8) (i : Nat) : MacAddr := ⟨fun k => byteAt p (i + k)⟩

theorem macAt_eq {p : List UInt8} {i : Nat} {m : MacAddr} (same : ∀ k : Fin 6, byteAt p (i + k) = m.bytes k) :
    macAt p i = m := congrArg MacAddr.mk (funext same)

theorem macAt_toList (m : MacAddr) (rest : List UInt8) : macAt (m.toList ++ rest) 0 = m := by
  apply macAt_eq
  intro k
  fin_cases k <;> rfl

def ipAt (p : List UInt8) (i : Nat) : Ipv4Addr := ⟨fun k => byteAt p (i + k)⟩

theorem ipAt_eq {p : List UInt8} {i : Nat} {a : Ipv4Addr} (same : ∀ k : Fin 4, byteAt p (i + k) = a.bytes k) :
    ipAt p i = a := congrArg Ipv4Addr.mk (funext same)

/-! ### Network byte order -/

/-- ntohs on two bytes of a packet. -/
def be16 (hi lo : UInt8) : UInt16 := UInt16.ofNat (hi.toNat * 256 + lo.toNat)

/-- htons, as the bytes it puts into a packet. -/
def bytes16 (v : UInt16) : List UInt8 := [UInt8.ofNat (v.toNat / 256), UInt8.ofNat (v.toNat % 256)]

def be32 (a b c d : UInt8) : UInt32 :=
  UInt32.ofNat (a.toNat * 2 ^ 24 + b.toNat * 2 ^ 16 + c.toNat * 2 ^ 8 + d.toNat)

def bytes32 (v : UInt32) : List UInt8 :=
  [UInt8.ofNat (v.toNat / 2 ^ 24), UInt8.ofNat (v.toNat / 2 ^ 16 % 256), UInt8.ofNat (v.toNat / 2 ^ 8 % 256),
    UInt8.ofNat (v.toNat % 256)]

theorem be16_bytes16 (v : UInt16) :
    be16 (UInt8.ofNat (v.toNat / 256)) (UInt8.ofNat (v.toNat % 256)) = v := by
  have bound := v.toNat_lt
  apply UInt16.toNat_inj.mp
  simp only [be16, UInt8.toNat_ofNat', UInt16.toNat_ofNat']
  omega

theorem be32_bytes32 (v : UInt32) :
    be32 (UInt8.ofNat (v.toNat / 2 ^ 24)) (UInt8.ofNat (v.toNat / 2 ^ 16 % 256))
      (UInt8.ofNat (v.toNat / 2 ^ 8 % 256)) (UInt8.ofNat (v.toNat % 256)) = v := by
  have bound := v.toNat_lt
  apply UInt32.toNat_inj.mp
  simp only [be32, UInt8.toNat_ofNat', UInt32.toNat_ofNat']
  omega

def word16At (p : List UInt8) (i : Nat) : UInt16 := be16 (byteAt p i) (byteAt p (i + 1))

def word32At (p : List UInt8) (i : Nat) : UInt32 :=
  be32 (byteAt p i) (byteAt p (i + 1)) (byteAt p (i + 2)) (byteAt p (i + 3))

/-! ### Frames -/

def ethTypeIpv4 : UInt16 := 0x0800
def ethTypeArp : UInt16 := 0x0806
def ethHeaderLen : Nat := 14
def txBufSize : Nat := 1536

/-- The frame that eth_send hands to the NIC, if it hands one over. -/
def ethSend (myMac dest : MacAddr) (type : UInt16) (payload : List UInt8) : List (List UInt8) :=
  if (ethHeaderLen + payload.length) % 2 ^ 16 > txBufSize then []
  else [dest.toList ++ myMac.toList ++ bytes16 type ++ payload]

/-- Where netstack_rx sends a frame. -/
inductive Received where
  | arp (payload : List UInt8)
  | ipv4 (payload : List UInt8)
  | ignored
  deriving DecidableEq

def netstackRx (frame : List UInt8) : Received :=
  if frame.length < ethHeaderLen then .ignored
  else
    let type := word16At frame 12
    let payload := frame.drop ethHeaderLen
    if type = ethTypeArp then .arp payload
    else if type = ethTypeIpv4 then .ipv4 payload
    else .ignored

/-- netstack_rx recovers the payload of an ARP frame; bytes that follow it, such as the
padding of short frames, stay with it. -/
theorem netstackRx_frame (dest src : MacAddr) (payload : List UInt8) :
    netstackRx (dest.toList ++ src.toList ++ bytes16 ethTypeArp ++ payload) = .arp payload := by
  have long : ¬ (dest.toList ++ src.toList ++ bytes16 ethTypeArp ++ payload).length < ethHeaderLen := by
    simp [MacAddr.toList, bytes16, ethHeaderLen]
  have type : word16At (dest.toList ++ src.toList ++ bytes16 ethTypeArp ++ payload) 12 = ethTypeArp :=
    be16_bytes16 ethTypeArp
  have rest : (dest.toList ++ src.toList ++ bytes16 ethTypeArp ++ payload).drop ethHeaderLen = payload := rfl
  simp only [netstackRx, long, type, rest, ↓reduceIte]

end ChrisOS.Net
