import ChrisOS.Net.Arp
import ChrisOS.Lib.Cache

/-! The ARP cache as a map, over any history of the packets that arp_handle accepts. -/

set_option autoImplicit false

namespace ChrisOS.Net.Arp
open ChrisOS.Lib

/-- The pairs in the valid entries. -/
def view (c : Cache) : Cache.Slots Ipv4Addr MacAddr := fun i => if (c i).valid then some ((c i).ip, (c i).mac) else none

theorem view_arpInit (c : Cache) : view (arpInit c) = Cache.empty := rfl

theorem view_eq_some_iff {c : Cache} {i : Nat} {ip : Ipv4Addr} {mac : MacAddr} :
    view c i = some (ip, mac) ↔ c i = ⟨ip, mac, true⟩ := by
  unfold view
  cases is : c i with
  | mk ip' mac' valid => cases valid <;> simp

theorem view_eq_none_iff {c : Cache} {i : Nat} : view c i = none ↔ (c i).valid = false := by
  simp [view]

theorem view_update (c : Cache) (i : Nat) (ip : Ipv4Addr) (mac : MacAddr) :
    view (Function.update c i ⟨ip, mac, true⟩) = Function.update (view c) i (some (ip, mac)) := by
  funext j
  by_cases here : j = i
  · subst here
    simp [view]
  · simp [view, here]

/-- The test of cache_store. -/
theorem takes_view (c : Cache) (i : Nat) (ip : Ipv4Addr) :
    Cache.takes (view c i) ip = (!(c i).valid || ipEq (c i).ip ip) := by
  rw [Bool.eq_iff_iff, Bool.or_eq_true, ipEq_iff]
  cases valid : (c i).valid <;> simp [view, valid, Cache.takes]

/-- The test of cache_find, with what it returns. -/
theorem answer_view (c : Cache) (i : Nat) (ip : Ipv4Addr) :
    Cache.answer (view c i) ip = if (c i).valid && ipEq (c i).ip ip then some (c i).mac else none := by
  by_cases same : (c i).ip = ip
  · cases valid : (c i).valid <;> simp [view, valid, Cache.answer, same, ipEq_iff]
  · have other : ipEq (c i).ip ip = false := by rwa [← Bool.not_eq_true, ipEq_iff]
    cases valid : (c i).valid <;> simp [view, valid, Cache.answer, same, other]

/-- The loop of cache_store from entry i on. -/
theorem cacheStoreLoop_eq (ip : Ipv4Addr) (mac : MacAddr) (c : Cache) (left i : Nat) :
    cacheStoreLoop ip mac c left i =
      Function.update c (((List.range' i left).find? fun j => Cache.takes (view c j) ip).getD 0) ⟨ip, mac, true⟩ := by
  induction left generalizing i with
  | zero => rfl
  | succ left ih =>
    rw [cacheStoreLoop, List.range'_succ, List.find?_cons, takes_view]
    cases hit : !(c i).valid || ipEq (c i).ip ip with
    | true => rfl
    | false => exact ih (i + 1)

theorem cacheFindLoop_eq (c : Cache) (ip : Ipv4Addr) (left i : Nat) :
    cacheFindLoop c ip left i = (List.range' i left).findSome? fun j => Cache.answer (view c j) ip := by
  induction left generalizing i with
  | zero => rfl
  | succ left ih =>
    rw [cacheFindLoop, List.range'_succ, List.findSome?_cons, answer_view]
    cases hit : (c i).valid && ipEq (c i).ip ip with
    | true => rfl
    | false => exact ih (i + 1)

theorem view_cacheStore (c : Cache) (ip : Ipv4Addr) (mac : MacAddr) :
    view (cacheStore c ip mac) = Cache.store cacheSize (view c) ip mac := by
  rw [cacheStore, cacheStoreLoop_eq, view_update, ← List.range_eq_range']
  rfl

theorem cacheFind_view (c : Cache) (ip : Ipv4Addr) : cacheFind c ip = Cache.find cacheSize (view c) ip := by
  rw [cacheFind, cacheFindLoop_eq, ← List.range_eq_range']
  rfl

/-! ### Histories -/

/-- The cache after arp_init and these cache_store calls. -/
def cacheAfter (c : Cache) (history : List (Ipv4Addr × MacAddr)) : Cache :=
  history.foldl (fun c e => cacheStore c e.1 e.2) (arpInit c)

/-- The cache_store call that arp_handle makes for a packet it accepts. -/
def accepted (payload : List UInt8) : Option (Ipv4Addr × MacAddr) :=
  if payload.length < packetLen then none
  else some ((Packet.decode payload).senderIp, (Packet.decode payload).senderMac)

theorem arpHandle_cache (myMac : MacAddr) (myIp : Ipv4Addr) (c : Cache) (payload : List UInt8) :
    (arpHandle myMac myIp c payload).1 = (accepted payload).elim c fun e => cacheStore c e.1 e.2 := by
  unfold arpHandle accepted
  split
  · rfl
  · dsimp only
    split <;> rfl

/-- Whatever packets come in, the cache is that of one store for each of them that is accepted. -/
theorem arpHandle_foldl (myMac : MacAddr) (myIp : Ipv4Addr) (c : Cache) (payloads : List (List UInt8)) :
    payloads.foldl (fun c payload => (arpHandle myMac myIp c payload).1) (arpInit c) =
      cacheAfter c (payloads.filterMap accepted) := by
  unfold cacheAfter
  generalize arpInit c = first
  induction payloads generalizing first with
  | nil => rfl
  | cons payload payloads ih =>
    rw [List.foldl_cons, ih, arpHandle_cache, List.filterMap_cons]
    cases accepted payload <;> rfl

theorem view_cacheAfter (c : Cache) (history : List (Ipv4Addr × MacAddr)) :
    view (cacheAfter c history) = Cache.storeAll cacheSize history := by
  unfold cacheAfter Cache.storeAll
  rw [← view_arpInit c]
  generalize arpInit c = first
  induction history generalizing first with
  | nil => rfl
  | cons e history ih =>
    rw [List.foldl_cons, List.foldl_cons, ih, view_cacheStore]

/-- A store of ip makes a lookup of another address miss that hit before. -/
def Loses (c : Cache) (ip : Ipv4Addr) (mac : MacAddr) (other : Ipv4Addr) : Prop :=
  other ≠ ip ∧ cacheFind c other ≠ none ∧ cacheFind (cacheStore c ip mac) other = none

/-- The cache is a map with one entry for each address, and answers with what was stored last. -/
structure SoundMap (history : List (Ipv4Addr × MacAddr)) (c : Cache) : Prop where
  distinct : ∀ i j, i < cacheSize → j < cacheSize → (c i).valid = true → (c j).valid = true → (c i).ip = (c j).ip → i = j
  latest : ∀ ip, cacheFind c ip = none ∨ cacheFind c ip = Cache.lastStore history ip
  hits : ∀ ip mac, cacheFind (cacheStore c ip mac) ip = some mac
  loses_one : ∀ ip mac other another, Loses c ip mac other → Loses c ip mac another → other = another
  loses_full : ∀ ip mac other, Loses c ip mac other →
    ∀ i, i < cacheSize → (c i).valid = true ∧ (c i).ip ≠ ip

theorem Loses.cases {c : Cache} (sound : Cache.Sound cacheSize (view c)) {ip other : Ipv4Addr} {mac : MacAddr}
    (loses : Loses c ip mac other) : Cache.Full cacheSize (view c) ∧ Cache.Absent cacheSize (view c) ip ∧ (c 0).ip = other := by
  obtain ⟨different, hit, misses⟩ := loses
  rw [cacheFind_view] at hit misses
  rw [view_cacheStore] at misses
  rcases sound.find_store_other (by decide) mac different with kept | ⟨-, full, absent, w, first⟩
  · rw [kept] at misses
    exact absurd misses hit
  · refine ⟨full, absent, ?_⟩
    rw [view_eq_some_iff.mp first]

theorem soundMap_of_view {history : List (Ipv4Addr × MacAddr)} {c : Cache}
    (same : view c = Cache.storeAll cacheSize history) : SoundMap history c := by
  have sound : Cache.Sound cacheSize (view c) := by
    rw [same]
    exact Cache.sound_storeAll (by decide) history
  constructor
  · intro i j inside inside' valid valid' ip
    exact sound.distinct i j ((c i).ip, (c i).mac) ((c j).ip, (c j).mac) inside inside' (if_pos valid) (if_pos valid') ip
  · intro ip
    rw [cacheFind_view, same]
    exact Cache.find_storeAll (by decide) history ip
  · intro ip mac
    rw [cacheFind_view, view_cacheStore]
    exact sound.find_store_self (by decide) ip mac
  · intro ip mac other another loses loses'
    exact (loses.cases sound).2.2.symm.trans (loses'.cases sound).2.2
  · intro ip mac other loses i inside
    obtain ⟨full, absent, -⟩ := loses.cases sound
    have valid : (c i).valid = true := by
      rw [← Bool.not_eq_false, ← view_eq_none_iff]
      exact full i inside
    refine ⟨valid, fun is => absent i inside (c i).mac ?_⟩
    rw [view, if_pos valid, is]

/-- After any history of stores from arp_init the cache is a sound map, and the packets that arp_handle
receives make such a history: one store for each that is long enough, request or reply. -/
theorem cache_sound (c : Cache) : (∀ history, SoundMap history (cacheAfter c history)) ∧
    ∀ myMac myIp (payloads : List (List UInt8)),
      payloads.foldl (fun c payload => (arpHandle myMac myIp c payload).1) (arpInit c) =
        cacheAfter c (payloads.filterMap accepted) :=
  ⟨fun history => soundMap_of_view (view_cacheAfter c history), fun myMac myIp payloads =>
    arpHandle_foldl myMac myIp c payloads⟩

end ChrisOS.Net.Arp
