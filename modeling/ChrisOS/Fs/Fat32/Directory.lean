import ChrisOS.Fs.Fat32

/-! The entries of a directory: what the scan of find_dir_entry finds, and what
storing one 32-byte entry leaves of the others.
-/

set_option autoImplicit false

namespace ChrisOS.Fs.Fat32
open ChrisOS.Lib ChrisOS.Drivers.Ata

/-- The offset of an entry. -/
def Slot (size off : Nat) : Prop := off % 32 = 0 ∧ off < size

/-- An entry that a new file may take: never used or deleted. -/
def Unused (f : Nat → UInt8) (off : Nat) : Prop := f off = 0x00 ∨ f off = 0xE5

/-- An entry of a file, as opposed to an unused one or a piece of a long name. -/
structure Live (f : Nat → UInt8) (size off : Nat) : Prop where
  slot : Slot size off
  used : ¬Unused f off
  short : f (off + 11) ≠ 0x0F

/-- Behind the first entry that was never used there is nothing. -/
def Ended (f : Nat → UInt8) (size : Nat) : Prop :=
  ∀ off, Slot size off → f off = 0x00 → ∀ k, off + 32 ≤ k → k < size → f k = 0x00

/-- The first entry that a new file may take. -/
structure FirstUnused (f : Nat → UInt8) (size off : Nat) : Prop where
  slot : Slot size off
  unused : Unused f off
  first : ∀ o, o < off → Slot size o → ¬Unused f o

theorem FirstUnused.unique {f : Nat → UInt8} {size off off' : Nat} (left : FirstUnused f size off)
    (right : FirstUnused f size off') : off = off' := by
  rcases Nat.lt_trichotomy off off' with before | same | after
  · exact absurd left.unused (right.first off before left.slot)
  · exact same
  · exact absurd right.unused (left.first off' after right.slot)

/-- A live entry with no unused-for-ever entry before it: one that a scan can reach. -/
structure Listed (f : Nat → UInt8) (size off : Nat) : Prop where
  live : Live f size off
  reached : ∀ o, o < off → Slot size o → f o ≠ 0x00

/-- The outcomes of a search for a name in any directory. -/
inductive Search (f : Nat → UInt8) (size : Nat) (fatname : FatName) : Option Nat × Option Nat → Prop where
  | hit {off : Nat} {free : Option Nat} : Listed f size off → nameAt f off = fatname →
      (∀ o, o < off → Listed f size o → nameAt f o ≠ fatname) → Search f size fatname (some off, free)
  | room {off : Nat} : (∀ o, Listed f size o → nameAt f o ≠ fatname) → FirstUnused f size off →
      Search f size fatname (none, some off)
  | full : (∀ o, Listed f size o → nameAt f o ≠ fatname) → (∀ o, Slot size o → ¬Unused f o) →
      Search f size fatname (none, none)

/-- The outcomes of a search in a directory with nothing behind its end. -/
inductive Found (f : Nat → UInt8) (size : Nat) (fatname : FatName) : Option Nat × Option Nat → Prop where
  | hit {off : Nat} {free : Option Nat} : Live f size off → nameAt f off = fatname →
      Found f size fatname (some off, free)
  | room {off : Nat} : (∀ o, Live f size o → nameAt f o ≠ fatname) → FirstUnused f size off →
      Found f size fatname (none, some off)
  | full : (∀ o, Live f size o → nameAt f o ≠ fatname) → (∀ o, Slot size o → ¬Unused f o) →
      Found f size fatname (none, none)

section
variable {f : Nat → UInt8} {size : Nat} {fatname : FatName}

theorem Ended.not_live (ended : Ended f size) {off o : Nat} (slot : Slot size off) (zero : f off = 0x00)
    (after : off ≤ o) : ¬Live f size o := by
  intro live
  have aligned := live.slot
  unfold Slot at slot aligned
  by_cases same : o = off
  · exact live.used (.inl (same ▸ zero))
  · exact live.used (.inl (ended off slot zero o (by omega) aligned.2))

/-- The scan from an offset on, when it has passed no end, the entries before the offset are
known not to match and the free entry noted so far is known to be the first. -/
theorem scanEntries_search (rounds off : Nat) (free : Option Nat) (here : off % 32 = 0 ∧ off + rounds * 32 = size)
    (going : ∀ o, o < off → Slot size o → f o ≠ 0x00)
    (passed : ∀ o, o < off → Listed f size o → nameAt f o ≠ fatname)
    (noted : ∀ o, free = some o → FirstUnused f size o)
    (unnoted : free = none → ∀ o, o < off → Slot size o → ¬Unused f o) :
    Search f size fatname (scanEntries f fatname rounds off free) := by
  induction rounds generalizing off free with
  | zero =>
    have all (o : Nat) (slot : Slot size o) : o < off := by
      have := slot.2
      omega
    cases free with
    | none =>
      exact .full (fun o listed => passed o (all o listed.live.slot) listed) fun o slot => unnoted rfl o (all o slot) slot
    | some o => exact .room (fun o listed => passed o (all o listed.live.slot) listed) (noted o rfl)
  | succ rounds ih =>
    have slot : Slot size off := ⟨here.1, by omega⟩
    -- the first entry not yet seen when the scan moves on
    have beyond {o : Nat} (before : o < off + 32) (aligned : o % 32 = 0) : o < off ∨ o = off := by omega
    have skip (dead : ¬Live f size off ∨ nameAt f off ≠ fatname) :
        ∀ o, o < off + 32 → Listed f size o → nameAt f o ≠ fatname := by
      intro o before listed
      rcases beyond before listed.live.slot.1 with earlier | rfl
      · exact passed o earlier listed
      · exact dead.resolve_left fun dead => dead listed.live
    rw [scanEntries]
    by_cases zero : f off = 0x00
    · rw [if_pos zero]
      have absent (o : Nat) (listed : Listed f size o) : nameAt f o ≠ fatname := by
        by_cases before : o < off
        · exact passed o before listed
        · by_cases same : o = off
          · exact absurd (.inl (same ▸ zero)) listed.live.used
          · exact absurd zero (listed.reached off (by omega) slot)
      cases free with
      | none => exact .room absent ⟨slot, .inl zero, unnoted rfl⟩
      | some o => exact .room absent (noted o rfl)
    · rw [if_neg zero]
      have further : ∀ o, o < off + 32 → Slot size o → f o ≠ 0x00 := by
        intro o before aligned
        rcases beyond before aligned.1 with earlier | rfl
        · exact going o earlier aligned
        · exact zero
      by_cases deleted : f off = 0xE5
      · rw [if_pos deleted]
        refine ih (off + 32) _ (by omega) further (skip (.inl fun live => live.used (.inr deleted))) ?_ ?_
        · intro o found
          cases free with
          | none =>
            cases found
            exact ⟨slot, .inr deleted, unnoted rfl⟩
          | some first =>
            cases found
            exact noted o rfl
        · intro none
          cases free <;> cases none
      · rw [if_neg deleted]
        have taken : ¬Unused f off := fun unused => unused.elim zero deleted
        have still : free = none → ∀ o, o < off + 32 → Slot size o → ¬Unused f o := by
          intro none o before aligned
          rcases beyond before aligned.1 with earlier | rfl
          · exact unnoted none o earlier aligned
          · exact taken
        by_cases long : f (off + 11) = 0x0F
        · rw [if_pos long]
          exact ih (off + 32) free (by omega) further (skip (.inl fun live => live.short long)) noted still
        · rw [if_neg long]
          by_cases named : ∀ i : Fin 11, fatname i = nameAt f off i
          · rw [if_pos named]
            exact .hit ⟨⟨slot, taken, long⟩, going⟩ (funext fun i => (named i).symm) passed
          · rw [if_neg named]
            refine ih (off + 32) free (by omega) further (skip (.inr fun same => named fun i => ?_)) noted still
            rw [same]

theorem findDirEntry_search (fatname : FatName) (whole : size % 32 = 0) :
    Search f size fatname (findDirEntry f size fatname) := by
  refine scanEntries_search _ 0 none (by omega) ?_ ?_ ?_ ?_
  · exact fun o before => absurd before (Nat.not_lt_zero o)
  · exact fun o before => absurd before (Nat.not_lt_zero o)
  · exact fun o none => nomatch none
  · exact fun _ o before => absurd before (Nat.not_lt_zero o)

theorem findDirEntry_hit (whole : size % 32 = 0) {o : Nat} {free : Option Nat}
    (found : findDirEntry f size fatname = (some o, free)) : Listed f size o ∧ nameAt f o = fatname := by
  have search := findDirEntry_search (f := f) fatname whole
  rw [found] at search
  cases search with
  | hit listed named _ => exact ⟨listed, named⟩

theorem findDirEntry_room (whole : size % 32 = 0) {o : Nat} (found : findDirEntry f size fatname = (none, some o)) :
    FirstUnused f size o := by
  have search := findDirEntry_search (f := f) fatname whole
  rw [found] at search
  cases search with
  | room _ first => exact first

/-- With nothing behind the end, a scan can reach every live entry. -/
theorem Ended.listed (ended : Ended f size) {o : Nat} (live : Live f size o) : Listed f size o := by
  refine ⟨live, fun off before slot zero => ?_⟩
  exact ended.not_live slot zero (Nat.le_of_lt before) live

theorem findDirEntry_found (fatname : FatName) (ended : Ended f size) (whole : size % 32 = 0) :
    Found f size fatname (findDirEntry f size fatname) := by
  have search := findDirEntry_search (f := f) fatname whole
  generalize findDirEntry f size fatname = outcome at search
  cases search with
  | hit listed named _ => exact .hit listed.live named
  | room absent first => exact .room (fun o live => absent o (ended.listed live)) first
  | full absent full => exact .full (fun o live => absent o (ended.listed live)) full

theorem scanEntries_congr {h : Nat → UInt8} (same : ∀ k, k < size → f k = h k) (rounds off : Nat)
    (free : Option Nat) (inside : off + rounds * 32 ≤ size) :
    scanEntries f fatname rounds off free = scanEntries h fatname rounds off free := by
  induction rounds generalizing off free with
  | zero => rfl
  | succ rounds ih =>
    have name : nameAt f off = nameAt h off := funext fun i => same _ (by omega)
    simp only [scanEntries, same off (by omega), same (off + 11) (by omega), name,
      ih (off + 32) _ (show off + 32 + rounds * 32 ≤ size by omega)]

theorem findDirEntry_congr {h : Nat → UInt8} (same : ∀ k, k < size → f k = h k) :
    findDirEntry f size fatname = findDirEntry h size fatname :=
  scanEntries_congr same _ 0 none (by omega)

end

/-! ### Storing an entry -/

/-- A directory with a 32-byte entry stored at an offset. -/
def entryAt (f : Nat → UInt8) (off : Nat) (fatname : FatName) (cluster size : Nat) : Nat → UInt8 := fun k =>
  if off ≤ k ∧ k < off + 32 then entryBytes fatname cluster size (k - off) else f k

/-- Two directories agree on the entry at an offset. -/
def SameEntry (f h : Nat → UInt8) (off : Nat) : Prop := ∀ k, k < 32 → f (off + k) = h (off + k)

section
variable {f h : Nat → UInt8} {off : Nat} (same : SameEntry f h off)
include same

theorem SameEntry.first : f off = h off := same 0 (by decide)

theorem SameEntry.live (size : Nat) : Live f size off ↔ Live h size off := by
  have attributes := same 11 (by decide)
  constructor
  · rintro ⟨slot, used, short⟩
    exact ⟨slot, by rwa [Unused, ← same.first], by rwa [← attributes]⟩
  · rintro ⟨slot, used, short⟩
    exact ⟨slot, by rwa [Unused, same.first], by rwa [attributes]⟩

theorem SameEntry.nameAt : nameAt f off = nameAt h off := funext fun i => same i (by omega)

theorem SameEntry.entryCluster : entryCluster f off = entryCluster h off := by
  have high : word16 f (off + 20) = word16 h (off + 20) := word16_congr fun k _ => by
    simpa only [Nat.add_assoc] using same (20 + k) (by omega)
  have low : word16 f (off + 26) = word16 h (off + 26) := word16_congr fun k _ => by
    simpa only [Nat.add_assoc] using same (26 + k) (by omega)
  rw [Fat32.entryCluster, Fat32.entryCluster, high, low]

theorem SameEntry.entrySize : entrySize f off = entrySize h off :=
  word32_congr fun k _ => by simpa only [Nat.add_assoc] using same (28 + k) (by omega)

end

section
variable (f : Nat → UInt8) (off : Nat) (fatname : FatName)

theorem entryAt_inside (cluster size : Nat) {k : Nat} (small : k < 32) :
    entryAt f off fatname cluster size (off + k) = entryBytes fatname cluster size k := by
  rw [entryAt, if_pos (by omega), Nat.add_sub_cancel_left]

theorem entryAt_outside (cluster size : Nat) {k : Nat} (outside : k < off ∨ off + 32 ≤ k) :
    entryAt f off fatname cluster size k = f k := by
  rw [entryAt, if_neg (by omega)]

theorem entryAt_first (cluster size : Nat) : entryAt f off fatname cluster size off = fatname 0 := by
  have := entryAt_inside f off fatname cluster size (k := 0) (by decide)
  simpa [entryBytes] using this

theorem entryAt_attributes (cluster size : Nat) : entryAt f off fatname cluster size (off + 11) = 0x20 := by
  rw [entryAt_inside _ _ _ _ _ (by decide)]
  rfl

theorem nameAt_entryAt (cluster size : Nat) : nameAt (entryAt f off fatname cluster size) off = fatname := by
  funext i
  rw [nameAt, entryAt_inside _ _ _ _ _ (by omega), entryBytes, dif_pos i.isLt]

theorem entryCluster_entryAt {cluster : Nat} (bound : cluster < 2 ^ 32) (size : Nat) :
    entryCluster (entryAt f off fatname cluster size) off = cluster := by
  have high : word16 (entryAt f off fatname cluster size) (off + 20) = cluster / 2 ^ 16 % 2 ^ 16 := by
    refine word16_of_bytes (Nat.mod_lt _ (by decide)) fun k small => ?_
    rw [Nat.add_assoc, entryAt_inside _ _ _ _ _ (by omega), entryBytes, dif_neg (by omega), if_neg (by omega),
      if_neg (by omega), if_pos (by omega), Nat.add_sub_cancel_left]
  have low : word16 (entryAt f off fatname cluster size) (off + 26) = cluster % 2 ^ 16 := by
    refine word16_of_bytes (Nat.mod_lt _ (by decide)) fun k small => ?_
    rw [Nat.add_assoc, entryAt_inside _ _ _ _ _ (by omega), entryBytes, dif_neg (by omega), if_neg (by omega),
      if_neg (by omega), if_neg (by omega), if_neg (by omega), if_pos (by omega), Nat.add_sub_cancel_left]
  rw [entryCluster, high, low]
  omega

theorem entrySize_entryAt (cluster : Nat) {size : Nat} (bound : size < 2 ^ 32) :
    entrySize (entryAt f off fatname cluster size) off = size := by
  refine word32_of_bytes bound fun k small => ?_
  rw [Nat.add_assoc, entryAt_inside _ _ _ _ _ (by omega), entryBytes, dif_neg (by omega), if_neg (by omega),
    if_neg (by omega), if_neg (by omega), if_neg (by omega), if_neg (by omega), Nat.add_sub_cancel_left]

end

/-! ### Names -/

theorem upper_capital {c : UInt8} (letter : 'a'.toNat ≤ c.toNat ∧ c.toNat ≤ 'z'.toNat) :
    (upper c).toNat = c.toNat - 32 := by
  have low : (97 : Nat) ≤ c.toNat := letter.1
  have high : c.toNat < 256 := c.toNat_lt
  rw [upper, if_pos letter, UInt8.toNat_sub]
  simp
  omega

/-- Only capital letters come from other characters. -/
theorem upper_eq_iff {c d : UInt8} (other : d.toNat < 65 ∨ 90 < d.toNat ∧ d.toNat < 97 ∨ 122 < d.toNat) :
    upper c = d ↔ c = d := by
  by_cases letter : 'a'.toNat ≤ c.toNat ∧ c.toNat ≤ 'z'.toNat
  · have low : (97 : Nat) ≤ c.toNat := letter.1
    have high : c.toNat ≤ (122 : Nat) := letter.2
    have value := upper_capital letter
    constructor
    · rintro rfl
      omega
    · rintro rfl
      omega
  · rw [upper, if_neg letter]

theorem upper_eq_zero {c : UInt8} (zero : upper c = 0) : c = 0 := (upper_eq_iff (by decide)).mp zero

theorem upper_eq_deleted {c : UInt8} (deleted : upper c = 0xE5) : c = 0xE5 := (upper_eq_iff (by decide)).mp deleted

theorem copyBase_before (p : List UInt8) {i j : Nat} (before : i < j) (f : Nat → UInt8) : (copyBase p j f).1 i = f i := by
  induction p generalizing j f with
  | nil => rfl
  | cons c p ih =>
    rw [copyBase]
    split
    · rw [ih (by omega), Function.update_of_ne (by omega)]
    · rfl

theorem copyExtension_before (p : List UInt8) {i j : Nat} (before : i < j) (f : Nat → UInt8) :
    copyExtension p j f i = f i := by
  induction p generalizing j f with
  | nil => rfl
  | cons c p ih =>
    rw [copyExtension]
    split
    · rw [ih (by omega), Function.update_of_ne (by omega)]
    · rfl

/-- A name's first byte is a space or comes from the string's first byte. -/
theorem nameToFat83_first (name : List UInt8) :
    nameToFat83 name 0 = 0x20 ∨ ∃ c, name.head? = some c ∧ c ≠ 0 ∧ nameToFat83 name 0 = upper c := by
  have field : nameToFat83 name 0 = (copyBase name 0 fun _ => 0x20).1 0 := by
    simp only [nameToFat83]
    split
    · split
      · exact copyExtension_before _ (by decide) _
      · rfl
    · rfl
  rw [field]
  cases name with
  | nil => exact .inl rfl
  | cons c p =>
    rw [copyBase]
    split
    · rename_i copied
      exact .inr ⟨c, rfl, copied.1, by rw [copyBase_before p (by decide), Function.update_self]⟩
    · exact .inl rfl

/-- A name that a file may have: its entry is not taken for an unused one. -/
def Proper (fatname : FatName) : Prop := fatname 0 ≠ 0x00 ∧ fatname 0 ≠ 0xE5

theorem nameToFat83_proper {name : List UInt8} (first : name.head? ≠ some 0xE5) : Proper (nameToFat83 name) := by
  rcases nameToFat83_first name with space | ⟨c, head, nonzero, letter⟩
  · rw [Proper, space]
    decide
  · refine ⟨fun zero => nonzero (upper_eq_zero (letter.symm.trans zero)), fun deleted => first ?_⟩
    rw [head, upper_eq_deleted (letter.symm.trans deleted)]

end ChrisOS.Fs.Fat32
