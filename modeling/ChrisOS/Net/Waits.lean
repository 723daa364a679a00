import ChrisOS.Lib.Deadline
import ChrisOS.Net.Tcp
import ChrisOS.Net.Dns
import ChrisOS.Net.Dhcp

/-! The polling waits of the network code.

Each sets a deadline some ticks ahead and polls the card until its condition holds. What
a poll brings about, and how long it takes, is up to the network.
-/

set_option autoImplicit false

namespace ChrisOS.Net
open ChrisOS.Lib ChrisOS.Lib.Deadline

/-- What a wait finds at each of its checks: the ticks that passed and the statics it looks at. -/
structure Schedule (S : Type) where
  elapsed : Nat → Nat
  mono : Monotone elapsed
  state : Nat → S

def Schedule.checks {S : Type} (s : Schedule S) (met : S → Bool) : Checks := ⟨s.elapsed, fun k => met (s.state k), s.mono⟩

/-! ### The waits -/

def icmpPingWait (start : UInt32) (s : Schedule Bool) (budget : Nat) : Option Nat :=
  waitLoop start 180 (s.checks id) budget 0

def tcpConnectWait (start : UInt32) (s : Schedule Tcp.Socket) (budget : Nat) : Option Nat :=
  waitLoop start 36 (s.checks fun x => x.state ≠ .synSent) budget 0

def tcpRecvWait (start : UInt32) (s : Schedule Tcp.Socket) (budget : Nat) : Option Nat :=
  waitLoop start 36 (s.checks fun x => x.rxHead ≠ x.rxTail) budget 0

def dnsLookupWait (start : UInt32) (s : Schedule Dns.Resolver) (budget : Nat) : Option Nat :=
  waitLoop start 72 (s.checks Dns.Resolver.done) budget 0

/-- The two waits of dhcp_request. -/
def dhcpOfferWait (start : UInt32) (s : Schedule Dhcp.Client) (budget : Nat) : Option Nat :=
  waitLoop start 90 (s.checks Dhcp.Client.gotOffer) budget 0

def dhcpAckWait (start : UInt32) (s : Schedule Dhcp.Client) (budget : Nat) : Option Nat :=
  waitLoop start 90 (s.checks Dhcp.Client.gotAck) budget 0

/-- arp_lookup looks into the cache behind each poll and not in the test of its loop. -/
def arpLookupWait (start : UInt32) (resolveIp : Ipv4Addr) (s : Schedule Arp.Cache) : Nat → Nat → Option Nat
  | 0, _ => none
  | budget + 1, k =>
    if counter start (s.elapsed k) < start + 180 then
      if (Arp.cacheFind (s.state (k + 1)) resolveIp).isSome then some (k + 1)
      else arpLookupWait start resolveIp s budget (k + 1)
    else some k

/-- The checks of arp_lookup: nothing is found before the first poll. -/
def arpChecks (resolveIp : Ipv4Addr) (s : Schedule Arp.Cache) : Checks where
  elapsed := s.elapsed
  done k := decide (k ≠ 0) && (Arp.cacheFind (s.state k) resolveIp).isSome
  mono := s.mono

theorem arpChecks_done_succ (resolveIp : Ipv4Addr) (s : Schedule Arp.Cache) (k : Nat) :
    (arpChecks resolveIp s).done (k + 1) = (Arp.cacheFind (s.state (k + 1)) resolveIp).isSome := by
  simp only [arpChecks, ne_eq, Nat.succ_ne_zero, not_false_eq_true, decide_true, Bool.true_and]

section
variable {start : UInt32} {resolveIp : Ipv4Addr} {s : Schedule Arp.Cache}

/-- A check that finds the address ends the loop. -/
theorem arpChecks_ends {i : Nat} (found : (Arp.cacheFind (s.state (i + 1)) resolveIp).isSome = true) :
    Ends start 180 (arpChecks resolveIp s) (i + 1) := by
  rw [Ends, arpChecks_done_succ, found]
  exact fun goes => Bool.noConfusion goes.2

/-- Looking behind the poll is looking at the next check. -/
theorem waitLoop_of_arpLookupWait {budget i k : Nat} (misses : (arpChecks resolveIp s).done i = false)
    (ended : arpLookupWait start resolveIp s budget i = some k) :
    waitLoop start 180 (arpChecks resolveIp s) (budget + 1) i = some k := by
  induction budget generalizing i with
  | zero => cases ended
  | succ budget ih =>
    rw [arpLookupWait] at ended
    rw [waitLoop]
    by_cases early : counter start (s.elapsed i) < start + 180
    · rw [if_pos early] at ended
      rw [if_pos ⟨early, misses⟩]
      by_cases found : (Arp.cacheFind (s.state (i + 1)) resolveIp).isSome = true
      · rw [if_pos found] at ended
        rw [waitLoop, if_neg (arpChecks_ends found)]
        exact ended
      · rw [if_neg found] at ended
        refine ih ?_ ended
        rw [arpChecks_done_succ]
        exact Bool.eq_false_iff.mpr found
    · rw [if_neg early] at ended
      rw [if_neg fun goes => early goes.1]
      exact ended

theorem arpLookupWait_of_waitLoop {budget i k : Nat} (misses : (arpChecks resolveIp s).done i = false)
    (ended : waitLoop start 180 (arpChecks resolveIp s) budget i = some k) :
    arpLookupWait start resolveIp s budget i = some k := by
  induction budget generalizing i with
  | zero => cases ended
  | succ budget ih =>
    rw [waitLoop] at ended
    rw [arpLookupWait]
    by_cases early : counter start (s.elapsed i) < start + 180
    · rw [if_pos ⟨early, misses⟩] at ended
      rw [if_pos early]
      by_cases found : (Arp.cacheFind (s.state (i + 1)) resolveIp).isSome = true
      · rw [if_pos found]
        cases budget with
        | zero => cases ended
        | succ budget =>
          rw [waitLoop, if_neg (arpChecks_ends found)] at ended
          exact ended
      · rw [if_neg found]
        refine ih ?_ ended
        rw [arpChecks_done_succ]
        exact Bool.eq_false_iff.mpr found
    · rw [if_neg fun goes => early goes.1] at ended
      rw [if_neg early]
      exact ended

theorem arpLookupWait_returns_iff {k : Nat} : Returns (fun budget => arpLookupWait start resolveIp s budget 0) k ↔
    Returns (fun budget => waitLoop start 180 (arpChecks resolveIp s) budget 0) k := by
  constructor
  · rintro ⟨enough, ended⟩
    exact .of_succ ⟨enough, fun budget le => waitLoop_of_arpLookupWait rfl (ended budget le)⟩
  · rintro ⟨enough, ended⟩
    exact ⟨enough, fun budget le => arpLookupWait_of_waitLoop rfl (ended budget le)⟩

end

/-! ### All of them -/

inductive Wait where
  | arpLookup (resolveIp : Ipv4Addr)
  | icmpPing
  | tcpConnect
  | tcpRecv
  | dnsLookup
  | dhcpOffer
  | dhcpAck

namespace Wait

/-- The statics that the wait looks at. -/
def State : Wait → Type
  | arpLookup _ => Arp.Cache
  | icmpPing => Bool
  | tcpConnect | tcpRecv => Tcp.Socket
  | dnsLookup => Dns.Resolver
  | dhcpOffer | dhcpAck => Dhcp.Client

def ticks : Wait → UInt32
  | arpLookup _ | icmpPing => 180
  | tcpConnect | tcpRecv => 36
  | dnsLookup => 72
  | dhcpOffer | dhcpAck => 90

/-- The ticks and the condition at each check. -/
def checks : (w : Wait) → Schedule w.State → Checks
  | arpLookup resolveIp, s => arpChecks resolveIp s
  | icmpPing, s => s.checks id
  | tcpConnect, s => s.checks fun x : Tcp.Socket => x.state ≠ .synSent
  | tcpRecv, s => s.checks fun x : Tcp.Socket => x.rxHead ≠ x.rxTail
  | dnsLookup, s => s.checks Dns.Resolver.done
  | dhcpOffer, s => s.checks Dhcp.Client.gotOffer
  | dhcpAck, s => s.checks Dhcp.Client.gotAck

def loop : (w : Wait) → UInt32 → Schedule w.State → Nat → Option Nat
  | arpLookup resolveIp, start, s, budget => arpLookupWait start resolveIp s budget 0
  | icmpPing, start, s, budget => icmpPingWait start s budget
  | tcpConnect, start, s, budget => tcpConnectWait start s budget
  | tcpRecv, start, s, budget => tcpRecvWait start s budget
  | dnsLookup, start, s, budget => dnsLookupWait start s budget
  | dhcpOffer, start, s, budget => dhcpOfferWait start s budget
  | dhcpAck, start, s, budget => dhcpAckWait start s budget

theorem loop_returns_iff (w : Wait) (start : UInt32) (s : Schedule w.State) (k : Nat) :
    Returns (w.loop start s) k ↔ Returns (fun budget => waitLoop start w.ticks (w.checks s) budget 0) k := by
  cases w with
  | arpLookup resolveIp => exact arpLookupWait_returns_iff
  | icmpPing | tcpConnect | tcpRecv | dnsLookup | dhcpOffer | dhcpAck => exact Iff.rfl

theorem ticks_pos (w : Wait) : 0 < w.ticks.toNat := by
  cases w with
  | arpLookup _ | icmpPing => exact (by decide : 0 < (180 : UInt32).toNat)
  | tcpConnect | tcpRecv => exact (by decide : 0 < (36 : UInt32).toNat)
  | dnsLookup => exact (by decide : 0 < (72 : UInt32).toNat)
  | dhcpOffer | dhcpAck => exact (by decide : 0 < (90 : UInt32).toNat)

/-- Statics for which nothing has come in yet. -/
def quiet : (w : Wait) → w.State
  | arpLookup _ => fun _ => ⟨⟨fun _ => 0⟩, ⟨fun _ => 0⟩, false⟩
  | icmpPing => false
  | tcpConnect | tcpRecv => ⟨⟨fun _ => 0⟩, 0, 0, 0, 0, .synSent, fun _ => 0, 0, 0⟩
  | dnsLookup => Dns.blank
  | dhcpOffer | dhcpAck => Dhcp.noOffer

theorem checks_quiet (w : Wait) (elapsed : Nat → Nat) (mono : Monotone elapsed) (k : Nat) :
    (w.checks ⟨elapsed, mono, fun _ => w.quiet⟩).done k = false := by
  cases w with
  | arpLookup resolveIp => exact Bool.and_false _
  | icmpPing | tcpConnect | tcpRecv | dnsLookup | dhcpOffer | dhcpAck => rfl

theorem checks_eq (w : Wait) (s : Schedule w.State) : w.checks s = ⟨s.elapsed, (w.checks s).done, s.mono⟩ := by
  cases w <;> rfl

/-- What timeliness says of a wait in which nothing arrives. -/
theorem timely_quiet (w : Wait) (start : UInt32) {gap : Nat} (c : Checks) (within : c.Within gap)
    (same : c.done = (w.checks ⟨c.elapsed, c.mono, fun _ => w.quiet⟩).done)
    (all : ∀ s : Schedule w.State, (w.checks s).Within gap → Timely w.ticks (w.checks s) (w.loop start s)) :
    Timely w.ticks c fun budget => waitLoop start w.ticks c budget 0 := by
  have view : w.checks ⟨c.elapsed, c.mono, fun _ => w.quiet⟩ = c := by
    rw [checks_eq, ← same]
  have timely := all ⟨c.elapsed, c.mono, fun _ => w.quiet⟩ (by rw [view]; exact within)
  rw [view] at timely
  refine timely.congr fun k => ?_
  rw [loop_returns_iff, view]

/-- A wait is timely, however the network behaves while no more than `gap` ticks pass between two
checks, exactly when it starts early enough for the deadline and the next check to come before the
counter wraps. -/
theorem timely_iff (w : Wait) (start : UInt32) {gap : Nat} (ticking : 0 < gap) :
    (∀ s : Schedule w.State, (w.checks s).Within gap → Timely w.ticks (w.checks s) (w.loop start s)) ↔
      start.toNat + w.ticks.toNat + gap ≤ 2 ^ 32 := by
  constructor
  · intro all
    by_contra wraps
    have quiet (elapsed : Nat → Nat) (mono : Monotone elapsed) := w.checks_quiet elapsed mono
    by_cases fits : start.toNat + w.ticks.toNat < 2 ^ 32
    · let c := overWrap start w.ticks (fun _ => false) fits
      refine not_timely_overWrap (fun _ => rfl) w.ticks_pos fits (timely_quiet w start c ?_ ?_ all)
      · exact within_overWrap w.ticks_pos ticking fits (by omega)
      · exact funext fun k => (quiet _ _ k).symm
    · let c := atOnce fun _ => false
      refine not_timely_atOnce (fun _ => rfl) w.ticks_pos (by omega) (timely_quiet w start c ?_ ?_ all)
      · exact within_atOnce _
      · exact funext fun k => (quiet _ _ k).symm
  · intro fits s within
    exact (timely_of_fits fits w.ticks_pos ticking within).congr fun k => (w.loop_returns_iff start s k).symm

/-- A wait for a name that starts at tick 0. -/
theorem timely_after_boot : dnsLookup.ticks = 72 ∧ ∀ s : Schedule dnsLookup.State, (dnsLookup.checks s).Within 1 →
    Timely dnsLookup.ticks (dnsLookup.checks s) (dnsLookup.loop 0 s) :=
  ⟨rfl, (timely_iff dnsLookup 0 Nat.one_pos).mpr (by decide)⟩

/-- One tick before the counter wraps, dns_lookup gives up at its first check. -/
theorem untimely_before_wrap : dnsLookupWait 0xFFFFFFFF ⟨fun _ => 0, monotone_const, fun _ => Dns.blank⟩ 1 = some 0 ∧
    ¬ ∀ (w : Wait) (start : UInt32) (s : Schedule w.State), (w.checks s).Within 1 →
      Timely w.ticks (w.checks s) (w.loop start s) := by
  refine ⟨rfl, fun all => ?_⟩
  have timely : Timely 72 (atOnce fun _ => false) fun budget => waitLoop 0xFFFFFFFF 72 (atOnce fun _ => false) budget 0 :=
    timely_quiet dnsLookup 0xFFFFFFFF _ (within_atOnce _) rfl (all dnsLookup 0xFFFFFFFF)
  exact not_timely_atOnce (fun _ => rfl) (by decide) (by decide) timely

end Wait

end ChrisOS.Net
