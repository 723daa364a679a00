import ChrisOS.Net.Dns
import ChrisOS.Lib.Cache

/-! The DNS cache as a map, over any history of stores.

A store compares whole names and keeps the first 63 bytes, so a longer name is never found again.
-/

set_option autoImplicit false

namespace ChrisOS.Net.Dns
open ChrisOS.Lib

/-- The pairs in the valid entries. -/
def view (c : Cache) : Cache.Slots CString Ipv4Addr := fun i => if (c i).valid then some ((c i).name, (c i).ip) else none

theorem view_eq_some_iff {c : Cache} {i : Nat} {name : CString} {ip : Ipv4Addr} :
    view c i = some (name, ip) ↔ c i = ⟨ip, name, true⟩ := by
  unfold view
  cases is : c i with
  | mk ip' name' valid => cases valid <;> simp [and_comm]

theorem view_update (c : Cache) (i : Nat) (ip : Ipv4Addr) (name : CString) :
    view (Function.update c i ⟨ip, name, true⟩) = Function.update (view c) i (some (name, ip)) := by
  funext j
  by_cases here : j = i
  · subst here
    simp [view]
  · simp [view, here]

/-- The test of dns_cache_store. -/
theorem takes_view (c : Cache) (i : Nat) (name : CString) :
    Cache.takes (view c i) name = (!(c i).valid || kstrcmp (c i).name name = 0) := by
  rw [Bool.eq_iff_iff, Bool.or_eq_true, decide_eq_true_iff, kstrcmp_eq_zero_iff]
  cases valid : (c i).valid <;> simp [view, valid, Cache.takes]

/-- The test of dns_cache_lookup, with what it returns. -/
theorem answer_view (c : Cache) (i : Nat) (name : CString) :
    Cache.answer (view c i) name = if (c i).valid && kstrcmp (c i).name name = 0 then some (c i).ip else none := by
  by_cases same : (c i).name = name
  · cases valid : (c i).valid <;> simp [view, valid, Cache.answer, same, kstrcmp_eq_zero_iff]
  · cases valid : (c i).valid <;> simp [view, valid, Cache.answer, same, kstrcmp_eq_zero_iff]

/-- The loop of dns_cache_store from entry i on. -/
theorem cacheStoreLoop_eq (name : CString) (ip : Ipv4Addr) (c : Cache) (left i : Nat) :
    cacheStoreLoop name ip c left i =
      Function.update c (((List.range' i left).find? fun j => Cache.takes (view c j) name).getD 0)
        ⟨ip, kstrncpy name nameSize, true⟩ := by
  induction left generalizing i with
  | zero => rfl
  | succ left ih =>
    rw [cacheStoreLoop, List.range'_succ, List.find?_cons, takes_view]
    cases hit : !(c i).valid || kstrcmp (c i).name name = 0 with
    | true => rfl
    | false => exact ih (i + 1)

theorem cacheLookupLoop_eq (c : Cache) (name : CString) (left i : Nat) :
    cacheLookupLoop c name left i = (List.range' i left).findSome? fun j => Cache.answer (view c j) name := by
  induction left generalizing i with
  | zero => rfl
  | succ left ih =>
    rw [cacheLookupLoop, List.range'_succ, List.findSome?_cons, answer_view]
    cases hit : (c i).valid && kstrcmp (c i).name name = 0 with
    | true => rfl
    | false => exact ih (i + 1)

theorem dnsCacheLookup_view (c : Cache) (name : CString) : dnsCacheLookup c name = Cache.find cacheSize (view c) name := by
  rw [dnsCacheLookup, cacheLookupLoop_eq, ← List.range_eq_range']
  rfl

/-- A store goes where a first-fit cache puts the name, and leaves a cut name there. -/
theorem view_dnsCacheStore (c : Cache) (name : CString) (ip : Ipv4Addr) : view (dnsCacheStore c name ip) =
    Function.update (view c) (Cache.slotFor cacheSize (view c) name) (some (kstrncpy name nameSize, ip)) := by
  rw [dnsCacheStore, cacheStoreLoop_eq, view_update, ← List.range_eq_range']
  rfl

/-- The name fits an entry with its NUL. -/
def Short (name : CString) : Prop := name.bytes.length < nameSize

instance (name : CString) : Decidable (Short name) := Nat.decLt name.bytes.length nameSize

theorem kstrncpy_short {name : CString} (short : Short name) : kstrncpy name nameSize = name := by
  cases name with
  | mk bytes nonzero =>
    rw [kstrncpy, CString.mk.injEq]
    exact List.take_of_length_le (Nat.le_sub_one_of_lt short)

theorem short_kstrncpy (name : CString) : Short (kstrncpy name nameSize) :=
  Nat.lt_of_le_of_lt (List.length_take_le _ _) (by decide)

/-! ### Histories -/

/-- The cache after dns_init and these stores. -/
def cacheAfter (y : Resolver) (history : List (CString × Ipv4Addr)) : Cache :=
  history.foldl (fun c e => dnsCacheStore c e.1 e.2) (dnsInit y).cache

theorem cacheAfter_concat (y : Resolver) (history : List (CString × Ipv4Addr)) (e : CString × Ipv4Addr) :
    cacheAfter y (history ++ [e]) = dnsCacheStore (cacheAfter y history) e.1 e.2 := List.foldl_append

/-- The cache is a map with one entry for each hostname, and answers with what was stored last. -/
structure SoundMap (history : List (CString × Ipv4Addr)) (c : Cache) : Prop where
  latest : ∀ h, dnsCacheLookup c h = none ∨ dnsCacheLookup c h = Cache.lastStore history h
  hits : ∀ earlier h ip, history = earlier ++ [(h, ip)] → dnsCacheLookup c h = some ip
  distinct : ∀ i j, i < cacheSize → j < cacheSize → (c i).valid = true → (c j).valid = true →
    (c i).name = (c j).name → i = j

/-- With short names the cache is a first-fit cache. -/
theorem view_cacheAfter (y : Resolver) {history : List (CString × Ipv4Addr)} (short : ∀ e ∈ history, Short e.1) :
    view (cacheAfter y history) = Cache.storeAll cacheSize history := by
  induction history using List.reverseRecOn with
  | nil => rfl
  | append_singleton history e ih =>
    rw [List.forall_mem_append] at short
    have last := short.2 e (List.mem_singleton_self e)
    rw [cacheAfter_concat, Cache.storeAll_concat, view_dnsCacheStore, ih short.1, kstrncpy_short last]
    rfl

theorem soundMap_of_short (y : Resolver) {history : List (CString × Ipv4Addr)} (short : ∀ e ∈ history, Short e.1) :
    SoundMap history (cacheAfter y history) := by
  have same := view_cacheAfter y short
  have sound : Cache.Sound cacheSize (view (cacheAfter y history)) := by
    rw [same]
    exact Cache.sound_storeAll (by decide) history
  constructor
  · intro h
    rw [dnsCacheLookup_view, same]
    exact Cache.find_storeAll (by decide) history h
  · rintro earlier h ip rfl
    rw [dnsCacheLookup_view, same, Cache.storeAll_concat]
    exact (Cache.sound_storeAll (by decide) earlier).find_store_self (by decide) h ip
  · intro i j inside inside' valid valid' name
    exact sound.distinct i j ((cacheAfter y history i).name, _) ((cacheAfter y history j).name, _) inside inside'
      (if_pos valid) (if_pos valid') name

/-- Every name in the cache is short. -/
theorem names_short (y : Resolver) (history : List (CString × Ipv4Addr)) {i : Nat} {name : CString} {ip : Ipv4Addr}
    (is : view (cacheAfter y history) i = some (name, ip)) : Short name := by
  induction history using List.reverseRecOn generalizing name ip with
  | nil => cases is
  | append_singleton history e ih =>
    rw [cacheAfter_concat, view_dnsCacheStore] at is
    by_cases here : i = Cache.slotFor cacheSize (view (cacheAfter y history)) e.1
    · rw [here, Function.update_self] at is
      cases is
      exact short_kstrncpy e.1
    · rw [Function.update_of_ne here] at is
      exact ih is

theorem lookup_long (y : Resolver) (history : List (CString × Ipv4Addr)) {h : CString} (long : ¬ Short h) :
    dnsCacheLookup (cacheAfter y history) h = none := by
  rw [dnsCacheLookup_view, Cache.find_eq_none_iff]
  intro i _ ip is
  exact long (names_short y history is)

/-- The cache is sound throughout a history exactly when every name stored has at most 63 bytes. -/
theorem cache_sound_iff (y : Resolver) (history : List (CString × Ipv4Addr)) :
    (∀ past, past <+: history → SoundMap past (cacheAfter y past)) ↔ ∀ e ∈ history, Short e.1 := by
  constructor
  · intro sound e member
    obtain ⟨earlier, later, rfl⟩ := List.append_of_mem member
    have past : earlier ++ [e] <+: earlier ++ e :: later := ⟨later, by rw [List.append_assoc, List.singleton_append]⟩
    have hit := (sound _ past).hits earlier e.1 e.2 rfl
    by_contra long
    rw [lookup_long y _ long] at hit
    cases hit
  · intro short past isPrefix
    exact soundMap_of_short y fun e member => short e (isPrefix.subset member)

/-- A name of 64 letters. -/
def longName : CString := ⟨List.replicate 64 0x61, by decide⟩

/-- It is not found right after it was stored. -/
theorem cache_sound_fails : ¬ ∀ y history past, past <+: history → SoundMap past (cacheAfter y past) := by
  intro sound
  have hit := (sound blank [(longName, ipZero)] _ (List.prefix_refl _)).hits [] longName ipZero rfl
  rw [lookup_long blank _ (show ¬ Short longName by decide)] at hit
  cases hit

end ChrisOS.Net.Dns
