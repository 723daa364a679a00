import ChrisOS.Fs.Fat32.Stages
import ChrisOS.Fs.Fat32.Termination
import Mathlib.Data.Nat.Find

/-! The FAT as an array of words: what a store and an allocation change, on any disk.

The links of FAT32 have 28 bits. fat_get and fat_set take a number modulo 2^30, because four
times the number is a word, and fat_alloc_cluster takes the numbers of entries modulo 2^32.
-/

set_option autoImplicit false

namespace ChrisOS.Fs.Fat32
open ChrisOS.Lib ChrisOS.Drivers.Ata

section
variable (g : Statics)

/-- The FATs follow each other and end where the addresses of the drive do. -/
structure Placed : Prop where
  copies : g.bpb.fatCount.toNat = 1 ∨ g.bpb.fatCount.toNat = 2
  fits : fatBase g + g.bpb.fatCount.toNat * g.spf ≤ 2 ^ 28

/-- The word of a cluster in the first FAT. -/
def fatWord (d : Disk) (c : Nat) : Nat := word32 (bytes (d (fatBase g + c / 128))) (c % 128 * 4)

/-- Its 28-bit value. -/
def fatValue (d : Disk) (c : Nat) : Nat := fatWord g d c % 2 ^ 28

/-- One entry is stored in every FAT, below the top four bits of its word, and nothing else. -/
structure Updated (d d' : Disk) (c v : Nat) : Prop where
  word : fatWord g d' c = fatWord g d c / 2 ^ 28 * 2 ^ 28 + v % 2 ^ 28
  others : ∀ k, k < 128 * g.spf → k ≠ c → fatWord g d' k = fatWord g d k
  outside : ∀ a, a < fatBase g ∨ fatBase g + g.bpb.fatCount.toNat * g.spf ≤ a → d' a = d a
  copies : Mirrored g d'

/-- The cluster that an allocation returns and the disk behind it. -/
inductive Allocated (d : Disk) : Nat → Disk → Prop where
  | taken {c : Nat} {d' : Disk} (real : 2 ≤ c) (inside : c < 128 * g.spf) (free : fatValue g d c = 0)
      (least : ∀ k, 2 ≤ k → k < c → fatValue g d k ≠ 0) (updated : Updated g d d' c 0x0FFFFFFF) : Allocated d c d'
  | full (used : ∀ k, 2 ≤ k → k < 128 * g.spf → fatValue g d k ≠ 0) : Allocated d 0 d

/-- The laws of fat_set and fat_get for one store. -/
structure StoreLaws (e : Env) (m : Machine) (c v : Nat) (m' : Machine) : Prop where
  updated : Updated g m.disk m'.disk (c % 2 ^ 30) v
  get : ∃ t, fatGet g c e m' = some (v % 2 ^ 28, t) ∧ t.disk = m'.disk
  others : ∀ k, k < 128 * g.spf → k % 2 ^ 30 ≠ c % 2 ^ 30 →
    ∃ x t t', fatGet g k e m = some (x, t) ∧ fatGet g k e m' = some (x, t') ∧ t.disk = m.disk ∧ t'.disk = m'.disk

end

/-! ### Words -/

theorem entryWord_eq {existing : Nat} (word : existing < 2 ^ 32) (value : Nat) :
    entryWord existing value = existing / 2 ^ 28 * 2 ^ 28 + value % 2 ^ 28 := by
  have top : existing &&& 0xF0000000 = existing / 2 ^ 28 * 2 ^ 28 := and_not_low 28 (by decide) word
  have low : value &&& 0x0FFFFFFF = value % 2 ^ 28 := Nat.and_two_pow_sub_one_eq_mod value 28
  rw [entryWord, top, low, Nat.mul_comm, ← Nat.two_pow_add_eq_or_of_lt (Nat.mod_lt _ (by decide))]

theorem fatValue_eq (g : Statics) (d : Disk) (c : Nat) : fatValue g d c = fatWord g d c &&& 0x0FFFFFFF :=
  (Nat.and_two_pow_sub_one_eq_mod (fatWord g d c) 28).symm

theorem Updated.value {g : Statics} {d d' : Disk} {c v : Nat} (updated : Updated g d d' c v) :
    fatValue g d' c = v % 2 ^ 28 := by
  rw [fatValue, updated.word, Nat.mul_add_mod_self_right, Nat.mod_mod]

/-! ### Places -/

theorem fatSector_mod (g : Statics) (c : Nat) : fatSector g c = add32 g.fatStart (c % 2 ^ 30 / 128) := by
  unfold fatSector mul32
  refine congrArg (add32 g.fatStart) ?_
  omega

theorem fatOffset_mod (c : Nat) : fatOffset c = c % 2 ^ 30 % 128 * 4 := by
  rw [fatOffset_eq]
  omega

section
variable {g : Statics} (placed : Placed g)
include placed

theorem Placed.first {s : Nat} (inside : s < g.spf) : sectorAddr (add32 g.fatStart s) = fatBase g + s := by
  have fits := placed.fits
  have fats : g.spf ≤ g.bpb.fatCount.toNat * g.spf := by
    rcases placed.copies with one | two
    · rw [one]
      omega
    · rw [two]
      omega
  unfold fatBase at *
  unfold sectorAddr lba28 add32
  omega

theorem Placed.second {s : Nat} (two : g.bpb.fatCount.toNat > 1) (inside : s < g.spf) :
    sectorAddr (add32 (add32 g.fatStart s) g.spf) = fatBase g + g.spf + s ∧
      sectorAddr (add32 (add32 g.fatStart g.spf) s) = fatBase g + g.spf + s := by
  have fits := placed.fits
  have count : g.bpb.fatCount.toNat = 2 := by
    rcases placed.copies with one | two
    · omega
    · exact two
  rw [count] at fits
  unfold fatBase at *
  unfold sectorAddr lba28 add32
  omega

/-- A FAT sector is written to every FAT with one entry replaced. -/
theorem Placed.updated {d : Disk} (copies : Mirrored g d) {s i : Nat} (inside : s < g.spf) (small : i < 128) {lba copy : Nat}
    (first : sectorAddr lba = fatBase g + s)
    (second : g.bpb.fatCount.toNat > 1 → sectorAddr copy = fatBase g + g.spf + s) (v : Nat) :
    Updated g d (land (mirrored g lba copy (patch (d (fatBase g + s)) (i * 4)
      (entryWord (word32 (bytes (d (fatBase g + s))) (i * 4)) v))) d) (s * 128 + i) v := by
  have lands : ∀ a, land (mirrored g lba copy (patch (d (fatBase g + s)) (i * 4)
      (entryWord (word32 (bytes (d (fatBase g + s))) (i * 4)) v))) d a =
      if a = fatBase g + s ∨ (g.bpb.fatCount.toNat > 1 ∧ a = fatBase g + g.spf + s) then
        patch (d (fatBase g + s)) (i * 4) (entryWord (word32 (bytes (d (fatBase g + s))) (i * 4)) v) else d a := by
    intro a
    rw [land_mirrored, first]
    by_cases two : g.bpb.fatCount.toNat > 1
    · rw [second two]
    · simp only [two, false_and]
  have place : (s * 128 + i) / 128 = s ∧ (s * 128 + i) % 128 = i := by omega
  constructor
  · rw [fatWord, fatWord, place.1, place.2, lands, if_pos (.inl rfl), word32_patch _ (by omega) (entryWord_lt _ _),
      entryWord_eq (word32_lt _ _)]
  · intro k below other
    rw [fatWord, fatWord, lands]
    by_cases same : k / 128 = s
    · rw [if_pos (.inl (by rw [same])), same, word32_patch_other _ _ (by omega) (by omega)]
    · rw [if_neg (by omega)]
  · intro a away
    rw [lands, if_neg]
    rcases placed.copies with one | two
    · rw [one] at away ⊢
      omega
    · rw [two] at away
      omega
  · intro two t within
    rw [lands, lands]
    by_cases same : t = s
    · rw [if_pos (.inr ⟨two, by rw [same]⟩), if_pos (.inl (by rw [same]))]
    · rw [if_neg (by omega), if_neg (by omega), copies two t within]

/-! ### The three routines -/

theorem Placed.rawEntry_eq (d : Disk) {c : Nat} (inside : c < 128 * g.spf) : rawEntry g d c = fatValue g d (c % 2 ^ 30) := by
  rw [rawEntry, fatSector_mod, placed.first (by omega), fatOffset_mod, fatValue_eq, fatWord]

theorem Placed.set_updated {d : Disk} (copies : Mirrored g d) {c : Nat} (inside : c < 128 * g.spf) (v : Nat) :
    Updated g d (land (setWrites g d c v) d) (c % 2 ^ 30) v := by
  have within : c % 2 ^ 30 / 128 < g.spf := by omega
  have updated := placed.updated copies within (Nat.mod_lt (c % 2 ^ 30) (by decide)) (placed.first within)
    (fun two => (placed.second two within).1) v
  rw [Nat.div_add_mod'] at updated
  rw [setWrites, fatSector_mod, placed.first within, fatOffset_mod]
  exact updated

theorem Placed.entries (d : Disk) {s i : Nat} (inside : s < g.spf) (small : i < 128) :
    word32 (bytes (d (sectorAddr (add32 g.fatStart s)))) (i * 4) &&& 0x0FFFFFFF = fatValue g d (s * 128 + i) := by
  rw [placed.first inside, fatValue_eq, fatWord]
  congr <;> omega

theorem Placed.allocated {d : Disk} (copies : Mirrored g d)
    (reached : ∀ k, 2 ^ 32 ≤ k → k < 128 * g.spf → fatValue g d k = 0 → ∃ c, 2 ≤ c ∧ c < 2 ^ 32 ∧ fatValue g d c = 0) :
    Allocated g d (allocResult (searchFat g d g.spf 0)) (land (allocWrites g d (searchFat g d g.spf 0)) d) := by
  by_cases some : ∃ c, 2 ≤ c ∧ c < 128 * g.spf ∧ fatValue g d c = 0
  · classical
    obtain ⟨real, inside, free⟩ := Nat.find_spec some
    have least : ∀ k, 2 ≤ k → k < Nat.find some → fatValue g d k ≠ 0 :=
      fun k low less zero => Nat.find_min some less ⟨low, Nat.lt_trans less inside, zero⟩
    generalize Nat.find some = c at real inside free least
    have word : c < 2 ^ 32 := by
      refine Nat.lt_of_not_le fun large => ?_
      obtain ⟨k, low, below, zero⟩ := reached c large inside free
      exact least k low (Nat.lt_of_lt_of_le below large) zero
    have within : c / 128 < g.spf := by omega
    rw [searchFat_finds (placed.entries d) real word free least (by omega) (by omega), allocResult_eq word]
    have updated := placed.updated copies within (Nat.mod_lt c (by decide)) (placed.first within)
      (fun two => (placed.second two within).2) 0x0FFFFFFF
    rw [Nat.div_add_mod'] at updated
    rw [allocWrites, placed.first within]
    exact .taken real inside free least updated
  · have used : ∀ k, 2 ≤ k → k < 128 * g.spf → fatValue g d k ≠ 0 := fun k low high zero => some ⟨k, low, high, zero⟩
    rw [searchFat_none (placed.entries d) used (by omega)]
    exact .full used

end

/-- Code without loops that has an outcome has it at once. -/
theorem Does.ran {A : Type} {e : Env} {m : Machine} {x : Kern A} {ws : SectorWrites} {post : A → Prop}
    (done : Does e m (fun _ => x) ws post) : ∃ a m', x e m = some (a, m') ∧ m'.disk = land ws m.disk ∧ post a := by
  obtain ⟨a, m', ⟨enough, ran⟩, effect, holds⟩ := done
  exact ⟨a, m', ran enough (Nat.le_refl enough), effect.disk, holds⟩

section
variable {g : Statics} (placed : Placed g) {e : Env} (reliable : Reliable e)
include placed reliable

theorem Placed.get (m : Machine) {c : Nat} (inside : c < 128 * g.spf) :
    ∃ t, fatGet g c e m = some (fatValue g m.disk (c % 2 ^ 30), t) ∧ t.disk = m.disk := by
  obtain ⟨x, t, ran, same, rfl⟩ := (fatGet_does g reliable (m := m) c).ran
  rw [placed.rawEntry_eq m.disk inside] at ran
  exact ⟨t, ran, same⟩

theorem Placed.set (m : Machine) (copies : Mirrored g m.disk) {c : Nat} (inside : c < 128 * g.spf) (v : Nat) :
    ∃ m', fatSet g c v e m = some ((), m') ∧ StoreLaws g e m c v m' := by
  obtain ⟨⟨⟩, m', ran, lands, -⟩ := (fatSet_does g reliable (m := m) c v).ran
  have updated := placed.set_updated copies inside v
  rw [← lands] at updated
  refine ⟨m', ran, updated, ?_, fun k below other => ?_⟩
  · obtain ⟨t, got, same⟩ := placed.get reliable m' inside
    rw [updated.value] at got
    exact ⟨t, got, same⟩
  · obtain ⟨t, before, same⟩ := placed.get reliable m below
    obtain ⟨t', after, same'⟩ := placed.get reliable m' below
    rw [fatValue, updated.others _ (by omega) other] at after
    exact ⟨_, t, t', before, after, same, same'⟩

end

/-- A store changes the one entry that its number stands for, and an allocation takes the
lowest free one, unless that is the 2^32nd or a later one. -/
theorem fat_laws (g : Statics) (placed : Placed g) {e : Env} (reliable : Reliable e) (m : Machine)
    (copies : Mirrored g m.disk) :
    (∀ c v, c < 128 * g.spf → ∃ m', fatSet g c v e m = some ((), m') ∧ StoreLaws g e m c v m') ∧
      ((∀ k, 2 ^ 32 ≤ k → k < 128 * g.spf → fatValue g m.disk k = 0 →
        ∃ c, 2 ≤ c ∧ c < 2 ^ 32 ∧ fatValue g m.disk c = 0) →
      ∃ c m', fatAllocCluster g e m = some (c, m') ∧ Allocated g m.disk c m'.disk) := by
  constructor
  · intro c v inside
    exact placed.set reliable m copies inside v
  · intro reached
    obtain ⟨c, m', ran, lands, rfl⟩ := (fatAllocCluster_does g reliable (m := m)).ran
    refine ⟨_, m', ran, ?_⟩
    rw [lands]
    exact placed.allocated copies reached

/-! ### FATs of more than 2^30 entries -/

/-- The search goes on behind sectors without a free entry. -/
theorem searchFat_append {g : Statics} {d : Disk} {rounds s : Nat} (none : searchFat g d rounds s = none) (more : Nat) :
    searchFat g d (rounds + more) s = searchFat g d more (s + rounds) := by
  induction rounds generalizing s with
  | zero => rw [Nat.zero_add, Nat.add_zero]
  | succ rounds ih =>
    rw [searchFat] at none
    rw [Nat.succ_add, searchFat]
    split at none
    · cases none
    · rw [ih none]
      congr 1
      omega

/-- A volume with one FAT. -/
def largeFat (spf : UInt32) : Statics := ⟨⟨1, 32, 1, 0, spf, 2, 0x29⟩, 32, 0, 2⟩

theorem largeFat_placed (spf : UInt32) (most : spf ≤ 33554433) : Placed (largeFat spf) := by
  refine ⟨.inl rfl, ?_⟩
  have least : spf.toNat ≤ 33554433 := UInt32.le_iff_toNat_le.mp most
  show 20480 + 32 + 1 * spf.toNat ≤ 2 ^ 28
  omega

/-- All entries are used up to those of FAT sector 2^25. -/
def usedUp : Disk := fun a => if a = 20480 + 32 + 2 ^ 25 then fun _ => 0 else fun _ => 1

theorem usedUp_used {k : Nat} (below : k < 2 ^ 32) : fatValue (largeFat 33554433) usedUp k ≠ 0 := by
  have sector : usedUp (fatBase (largeFat 33554433) + k / 128) = fun _ => 1 := by
    refine if_neg ?_
    show ¬ 20480 + 32 + k / 128 = 20480 + 32 + 2 ^ 25
    omega
  have ones {off : Nat} (inside : off < 512) : bytes (fun _ => 1) off = 1 := dif_pos inside
  rw [fatValue, fatWord, sector, word32, ones (by omega), ones (by omega), ones (by omega), ones (by omega)]
  decide

/-- Behind the used entries the numbers start again from 0. -/
theorem searchFat_usedUp : searchFat (largeFat 33554433) usedUp (largeFat 33554433).spf 0 = some (2 ^ 25, 2) := by
  have placed := largeFat_placed 33554433 (by decide)
  have sectors : (largeFat 33554433).spf = 2 ^ 25 + 1 := rfl
  have full : searchFat (largeFat 33554433) usedUp (2 ^ 25) 0 = none :=
    searchFat_none (n := 2 ^ 25) (fun inside small => placed.entries usedUp (by omega) small)
      (fun k _ high => usedUp_used (by omega)) (by omega)
  have last : usedUp (fatBase (largeFat 33554433) + 2 ^ 25) = fun _ => 0 := if_pos rfl
  have found : findFree (bytes fun _ => 0) (2 ^ 25) 128 0 = some 2 := by decide
  rw [sectors, searchFat_append full 1, Nat.zero_add, searchFat, placed.first (by omega), last, found]

/-- With more entries than numbers there are stores that change the entry of another number,
and allocations that return the number of an entry in use. -/
theorem fat_laws_large : ¬ (∀ (g : Statics), Placed g → ∀ e, Reliable e → ∀ m : Machine, Mirrored g m.disk →
      ∀ c v k m', c < 128 * g.spf → k < 128 * g.spf → k ≠ c → fatSet g c v e m = some ((), m') →
        ∀ x t, fatGet g k e m = some (x, t) → ∃ t', fatGet g k e m' = some (x, t')) ∧
    ¬ (∀ (g : Statics), Placed g → ∀ e, Reliable e → ∀ m : Machine, Mirrored g m.disk →
      ∀ c m', fatAllocCluster g e m = some (c, m') → Allocated g m.disk c m'.disk) := by
  have single (spf : UInt32) (d : Disk) : Mirrored (largeFat spf) d := fun two => absurd two (Nat.lt_irrefl 1)
  constructor
  · intro all
    have placed := largeFat_placed 8388609 (by decide)
    have inside : 2 ^ 30 < 128 * (largeFat 8388609).spf := by decide
    obtain ⟨m', ran, laws⟩ := placed.set steadyEnv_reliable ⟨fun _ _ => 0, []⟩ (single _ _) inside 1
    obtain ⟨t, before, -⟩ := placed.get steadyEnv_reliable ⟨fun _ _ => 0, []⟩ (c := 0) (by decide)
    obtain ⟨t', after, -⟩ := placed.get steadyEnv_reliable m' (c := 0) (by decide)
    obtain ⟨u, same⟩ := all _ placed steadyEnv steadyEnv_reliable _ (single _ _) _ 1 0 m' inside (by decide) (by decide) ran
      _ t before
    have one : fatValue (largeFat 8388609) m'.disk (2 ^ 30 % 2 ^ 30) = 1 :=
      laws.updated.value.trans (Nat.mod_eq_of_lt (by decide))
    have zero : fatValue (largeFat 8388609) (fun _ _ => 0) (0 % 2 ^ 30) = 0 := by decide +kernel
    have values := congrArg (Option.map Prod.fst) (after.symm.trans same)
    rw [Option.map_some, Option.map_some, zero] at values
    exact Nat.one_ne_zero (one.symm.trans (Option.some.inj values))
  · intro all
    have placed := largeFat_placed 33554433 (by decide)
    obtain ⟨c, m', ran, -, result⟩ := (fatAllocCluster_does (largeFat 33554433) steadyEnv_reliable (m := ⟨usedUp, []⟩)).ran
    have allocated := all _ placed steadyEnv steadyEnv_reliable _ (single _ _) c m' ran
    have two : c = 2 := by
      rw [result, searchFat_usedUp]
      decide
    generalize m'.disk = d' at allocated
    cases allocated with
    | taken _ _ free => exact usedUp_used (by omega) free
    | full => exact absurd two (by decide)

/-- A volume with two equal FATs of one sector. -/
def smallFat : Statics := ⟨⟨1, 32, 2, 0, 1, 2, 0x29⟩, 32, 34, 2⟩

theorem fat_laws_small : (∀ c v, c < 128 * smallFat.spf → ∃ m', fatSet smallFat c v steadyEnv ⟨fun _ _ => 0, []⟩ = some ((), m') ∧
      StoreLaws smallFat steadyEnv ⟨fun _ _ => 0, []⟩ c v m') ∧
    ∃ c m', fatAllocCluster smallFat steadyEnv ⟨fun _ _ => 0, []⟩ = some (c, m') ∧
      Allocated smallFat (fun _ _ => 0) c m'.disk := by
  have laws := fat_laws smallFat ⟨.inr rfl, by decide⟩ steadyEnv_reliable ⟨fun _ _ => 0, []⟩ fun _ _ _ => rfl
  have entries : 128 * smallFat.spf = 128 := rfl
  exact ⟨laws.1, laws.2 fun k large below _ => by omega⟩

end ChrisOS.Fs.Fat32
