import ChrisOS.Net.Emission
import ChrisOS.Net.Waits

/-! Where ipv4_send sends a packet whose next hop has to be looked up, whatever arrives
in the meantime.

The lookup polls until the cache holds the next hop or its wait is over; both ways it
returns a hardware address.
-/

set_option autoImplicit false

namespace ChrisOS.Net.Resolution
open ChrisOS.Net.Arp ChrisOS.Net.Ipv4

def macZero : MacAddr := ⟨fun _ => 0⟩

/-- The cache after frames that came in. -/
def learn (n : Node) (c : Cache) (frames : List (List UInt8)) : Cache :=
  frames.foldl (fun c frame => (receive n.mac n.ip c frame).1) c

/-- The loop of arp_lookup, with the frames that come in at each poll before the deadline: the cache
it leaves and the address it returns. -/
def lookupLoop (n : Node) (target : Ipv4Addr) : Cache → List (List (List UInt8)) → Cache × MacAddr
  | c, [] => (c, macZero)
  | c, batch :: polls =>
    match cacheFind (learn n c batch) target with
    | some mac => (learn n c batch, mac)
    | none => lookupLoop n target (learn n c batch) polls

/-- The cache when the lookup returns, and what its loop ends with. -/
def resolved (n : Node) (dest : Ipv4Addr) (polls : List (List (List UInt8))) : Cache × MacAddr :=
  match cacheFind n.cache (resolveIp n dest) with
  | some mac => (n.cache, mac)
  | none => lookupLoop n (resolveIp n dest) n.cache polls

/-- The cache holds the next hop at the start, or after one of the polls. -/
def Resolves (n : Node) (dest : Ipv4Addr) (polls : List (List (List UInt8))) : Prop :=
  ∃ seen, seen <+: polls ∧ (cacheFind (learn n n.cache seen.flatten) (resolveIp n dest)).isSome = true

/-- The frame that carries the packet is handed over, to this hardware address. -/
def CarriedTo (h : Host) (polls : List (List (List UInt8))) (dest : Ipv4Addr) (proto : UInt8) (payload : List UInt8)
    (mac : MacAddr) : Prop :=
  Udp.frameTo mac h dest proto payload ∈ (ipv4Send h (resolved h.node dest polls).2 dest proto payload).2

/-- The packet goes only to what the cache holds for the next hop, and nowhere if that is not found. -/
structure SentResolved (h : Host) (polls : List (List (List UInt8))) (dest : Ipv4Addr) (proto : UInt8)
    (payload : List UInt8) : Prop where
  held : ∀ mac, CarriedTo h polls dest proto payload mac →
    cacheFind (resolved h.node dest polls).1 (resolveIp h.node dest) = some mac
  unsent : ¬ Resolves h.node dest polls → ∀ mac, ¬ CarriedTo h polls dest proto payload mac

theorem learn_append (n : Node) (c : Cache) (first second : List (List UInt8)) :
    learn n c (first ++ second) = learn n (learn n c first) second := List.foldl_append

/-- The loop returns what the cache holds for the target, or it found nothing and returns zero. -/
theorem lookupLoop_cases (n : Node) (target : Ipv4Addr) (c : Cache) (polls : List (List (List UInt8)))
    (missed : cacheFind c target = none) :
    (∃ seen, seen <+: polls ∧ cacheFind (learn n c seen.flatten) target = some (lookupLoop n target c polls).2 ∧
      (lookupLoop n target c polls).1 = learn n c seen.flatten) ∨
    (∀ seen, seen <+: polls → cacheFind (learn n c seen.flatten) target = none) ∧
      cacheFind (lookupLoop n target c polls).1 target = none ∧ (lookupLoop n target c polls).2 = macZero := by
  induction polls generalizing c with
  | nil =>
    refine .inr ⟨fun seen isPrefix => ?_, missed, rfl⟩
    rw [List.prefix_nil.mp isPrefix]
    exact missed
  | cons batch polls ih =>
    rw [lookupLoop]
    cases found : cacheFind (learn n c batch) target with
    | some mac =>
      refine .inl ⟨[batch], List.cons_prefix_cons.mpr ⟨rfl, List.nil_prefix⟩, ?_, ?_⟩
      · rw [List.flatten_singleton]
        exact found
      · rw [List.flatten_singleton]
    | none =>
      rcases ih (learn n c batch) found with ⟨seen, isPrefix, held, cache⟩ | ⟨never, absent, zero⟩
      · refine .inl ⟨batch :: seen, List.cons_prefix_cons.mpr ⟨rfl, isPrefix⟩, ?_, ?_⟩
        · rw [List.flatten_cons, learn_append]
          exact held
        · rw [List.flatten_cons, learn_append]
          exact cache
      · refine .inr ⟨fun seen isPrefix => ?_, absent, zero⟩
        rcases List.prefix_cons_iff.mp isPrefix with rfl | ⟨seen, rfl, rest⟩
        · exact missed
        · rw [List.flatten_cons, learn_append]
          exact never seen rest

theorem le_of_arpLookupWait {start : UInt32} {target : Ipv4Addr} {s : Schedule Cache} {budget i k : Nat}
    (ended : arpLookupWait start target s budget i = some k) : i ≤ k := by
  induction budget generalizing i with
  | zero => cases ended
  | succ budget ih =>
    rw [arpLookupWait] at ended
    split at ended
    · split at ended
      · exact Option.some.inj ended ▸ Nat.le_succ i
      · exact Nat.le_of_succ_le (ih ended)
    · exact (Option.some.inj ended).le

/-- The polls of the loop are those that the wait admits before it ends. -/
theorem lookupLoop_of_wait {n : Node} {start : UInt32} {target : Ipv4Addr} {s : Schedule Cache}
    {arriving : Nat → List (List UInt8)} (polled : ∀ j, s.state (j + 1) = learn n (s.state j) (arriving j))
    {budget i k : Nat} (missed : cacheFind (s.state i) target = none)
    (ended : arpLookupWait start target s budget i = some k) :
    lookupLoop n target (s.state i) ((List.range' i (k - i)).map arriving) =
      (s.state k, (cacheFind (s.state k) target).getD macZero) := by
  induction budget generalizing i with
  | zero => cases ended
  | succ budget ih =>
    have upTo := le_of_arpLookupWait ended
    rw [arpLookupWait] at ended
    split at ended
    · cases found : cacheFind (s.state (i + 1)) target with
      | some mac =>
        rw [found] at ended
        cases ended
        rw [Nat.add_sub_cancel_left, List.range'_one, List.map_singleton, lookupLoop, ← polled, found]
        rfl
      | none =>
        rw [found] at ended
        have later : i + 1 ≤ k := le_of_arpLookupWait ended
        rw [show k - i = k - (i + 1) + 1 by omega, List.range'_succ, List.map_cons, lookupLoop, ← polled, found]
        exact ih found ended
    · cases ended
      rw [Nat.sub_self, missed]
      rfl

/-- A lookup that resolves returns what the cache holds then; any other returns zero. -/
theorem resolved_cases (n : Node) (dest : Ipv4Addr) (polls : List (List (List UInt8))) :
    Resolves n dest polls ∧ cacheFind (resolved n dest polls).1 (resolveIp n dest) = some (resolved n dest polls).2 ∨
      ¬ Resolves n dest polls ∧ cacheFind (resolved n dest polls).1 (resolveIp n dest) = none := by
  rw [resolved]
  cases known : cacheFind n.cache (resolveIp n dest) with
  | some mac => exact .inl ⟨⟨[], List.nil_prefix, Option.isSome_iff_exists.mpr ⟨mac, known⟩⟩, known⟩
  | none =>
    rcases lookupLoop_cases n (resolveIp n dest) n.cache polls known with ⟨seen, isPrefix, held, cache⟩ | ⟨never, absent, -⟩
    · exact .inl ⟨⟨seen, isPrefix, Option.isSome_iff_exists.mpr ⟨_, held⟩⟩, by rw [cache]; exact held⟩
    · refine .inr ⟨?_, absent⟩
      rintro ⟨seen, isPrefix, found⟩
      rw [never seen isPrefix] at found
      cases found

theorem arpLookup_resolved (n : Node) (dest : Ipv4Addr) (polls : List (List (List UInt8))) :
    (arpLookup n (resolved n dest polls).2 dest).2 = (resolved n dest polls).2 := by
  unfold arpLookup resolved
  cases cacheFind n.cache (resolveIp n dest) <;> rfl

section
variable {h : Host} {polls : List (List (List UInt8))} {dest : Ipv4Addr} {proto : UInt8} {payload : List UInt8}

omit polls in
theorem frameTo_type (mac : MacAddr) : word16At (Udp.frameTo mac h dest proto payload) 12 = ethTypeIpv4 :=
  be16_bytes16 ethTypeIpv4

omit polls in
theorem frameTo_injective {mac other : MacAddr}
    (same : Udp.frameTo mac h dest proto payload = Udp.frameTo other h dest proto payload) : mac = other := by
  have field (m : MacAddr) : macAt (Udp.frameTo m h dest proto payload) 0 = m := by
    rw [Udp.frameTo, List.append_assoc, List.append_assoc]
    exact macAt_toList m _
  rw [← field mac, same, field]

/-- A packet that fits is handed over, to the address that the lookup returns and to no other. -/
theorem carriedTo_iff (looks : skipsArp dest = false) {mac : MacAddr} :
    CarriedTo h polls dest proto payload mac ↔ payload.length + hdrLen ≤ bufSize ∧ mac = (resolved h.node dest polls).2 := by
  rw [CarriedTo]
  constructor
  · intro sent
    have fits := (Emission.ipv4Send_frame sent (frameTo_type mac)).1
    rw [Udp.ipv4Send_fits h _ dest proto fits, looks, List.mem_append] at sent
    refine ⟨fits, ?_⟩
    rcases sent with request | packet
    · have arp := Emission.mem_arpLookup request
      rw [frameTo_type] at arp
      exact absurd arp (by decide)
    · rw [frameTo_injective (List.mem_singleton.mp packet)]
      exact arpLookup_resolved h.node dest polls
  · rintro ⟨fits, rfl⟩
    rw [Udp.ipv4Send_fits h _ dest proto fits, looks]
    refine List.mem_append_right _ (List.mem_singleton.mpr ?_)
    exact congrArg (Udp.frameTo · h dest proto payload) (arpLookup_resolved h.node dest polls).symm

/-- ipv4_send hands a packet for one host only to what the cache holds for the next hop exactly when
the next hop is resolved, or the packet is too long to be sent at all. -/
theorem sentResolved_iff (looks : skipsArp dest = false) :
    SentResolved h polls dest proto payload ↔ bufSize < payload.length + hdrLen ∨ Resolves h.node dest polls := by
  constructor
  · intro sent
    by_contra neither
    obtain ⟨fits, unresolved⟩ := not_or.mp neither
    exact sent.unsent unresolved _ ((carriedTo_iff looks).mpr ⟨Nat.le_of_not_lt fits, rfl⟩)
  · rintro (long | resolves)
    · have unsent (mac : MacAddr) : ¬ CarriedTo h polls dest proto payload mac := fun carried =>
        absurd ((carriedTo_iff looks).mp carried).1 (Nat.not_le.mpr long)
      exact ⟨fun mac carried => absurd carried (unsent mac), fun _ => unsent⟩
    · refine ⟨fun mac carried => ?_, fun unresolved => absurd resolves unresolved⟩
      rw [((carriedTo_iff looks).mp carried).2]
      rcases resolved_cases h.node dest polls with ⟨-, held⟩ | ⟨unresolved, -⟩
      · exact held
      · exact absurd resolves unresolved

end

/-- A host whose cache is empty, as the kernel sets it up. -/
def freshHost : Host where
  node :=
    { mac := ⟨![0x52, 0x54, 0, 0x12, 0x34, 0x56]⟩
      ip := ⟨![10, 0, 2, 15]⟩
      cache := fun _ => ⟨⟨fun _ => 0⟩, ⟨fun _ => 0⟩, false⟩
      gateway := ⟨![10, 0, 2, 2]⟩
      subnet := ⟨![255, 255, 255, 0]⟩ }
  ipId := 0

/-- The reply of the gateway arrives in the second poll. -/
theorem sentResolved_after_reply : SentResolved freshHost
    [[], [macBroadcast.toList ++ macBroadcast.toList ++ bytes16 ethTypeArp ++
      (replyPacket ⟨![2, 2, 2, 2, 2, 2]⟩ ⟨![10, 0, 2, 2]⟩ (requestPacket freshHost.node.mac freshHost.node.ip ⟨![10, 0, 2, 2]⟩)).encode]]
    ⟨![93, 184, 216, 34]⟩ protoUdp [1, 2, 3] := by
  refine (sentResolved_iff (by decide)).mpr (.inr ⟨_, List.prefix_refl _, ?_⟩)
  decide

/-- Nobody answers for a host of the local network, and the packet for it goes to the address zero. -/
theorem sent_to_zero : CarriedTo freshHost [[], []] ⟨![10, 0, 2, 99]⟩ protoUdp [1, 2, 3] macZero ∧
    ¬ ∀ (h : Host) polls dest proto payload, skipsArp dest = false → SentResolved h polls dest proto payload := by
  have carried : CarriedTo freshHost [[], []] ⟨![10, 0, 2, 99]⟩ protoUdp [1, 2, 3] macZero :=
    (carriedTo_iff (by decide)).mpr ⟨by decide, by decide⟩
  refine ⟨carried, fun all => ?_⟩
  have held := (all freshHost [[], []] ⟨![10, 0, 2, 99]⟩ protoUdp [1, 2, 3] (by decide)).held macZero carried
  exact absurd held (by decide)

end ChrisOS.Net.Resolution
