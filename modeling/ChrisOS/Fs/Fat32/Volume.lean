import ChrisOS.Fs.Fat32.Effects

/-! The volume on a disk: what the FAT and the clusters hold when the geometry
keeps them apart and below the drive's 28-bit limit, and what one sector write
does to it.
-/

set_option autoImplicit false

namespace ChrisOS.Fs.Fat32
open ChrisOS.Lib ChrisOS.Drivers.Ata

/-- The placement of a mounted volume whose cluster numbers lie below `limit`. -/
structure Geometry (g : Statics) (limit : Nat) : Prop where
  mounted : g = mount g.bpb
  accepted : g.bpb.accepted = true
  copies : g.bpb.fatCount.toNat = 1 ∨ g.bpb.fatCount.toNat = 2
  positive : 1 ≤ g.spc
  covered : limit ≤ 128 * g.spf
  root : 2 ≤ g.rootCluster ∧ g.rootCluster < limit
  fits : fat32StartLba + g.fatStart + g.bpb.fatCount.toNat * g.spf + (limit - 2) * g.spc ≤ 2 ^ 28

/-- What a volume holds: the value of each FAT entry and the bytes of each cluster. -/
@[ext] structure View where
  fat : Nat → Nat
  data : Nat → Nat → UInt8

namespace View

def setFat (v : View) (cluster value : Nat) : View := { v with fat := Function.update v.fat cluster value }

def setData (v : View) (cluster : Nat) (f : Nat → UInt8) : View :=
  { v with data := Function.update v.data cluster f }

@[simp] theorem setFat_fat (v : View) (c x : Nat) : (v.setFat c x).fat = Function.update v.fat c x := rfl

@[simp] theorem setFat_data (v : View) (c x : Nat) : (v.setFat c x).data = v.data := rfl

@[simp] theorem setData_fat (v : View) (c : Nat) (f : Nat → UInt8) : (v.setData c f).fat = v.fat := rfl

@[simp] theorem setData_data (v : View) (c : Nat) (f : Nat → UInt8) :
    (v.setData c f).data = Function.update v.data c f := rfl

end View

section
variable (g : Statics)

/-- The block address of sector `i` of a cluster. -/
def clusterAddr (cluster i : Nat) : Nat := fat32StartLba + g.dataStart + (cluster - 2) * g.spc + i

def view (limit : Nat) (d : Disk) : View where
  fat c := if c < 128 * g.spf then slot (d (fatBase g + c / 128)) (c % 128) else 0
  data c k :=
    if 2 ≤ c ∧ c < limit ∧ k < g.clusterSize then bytes (d (clusterAddr g c (k / 512))) (k % 512) else 0

/-- The block address behind the last cluster. -/
def volumeEnd (limit : Nat) : Nat := fat32StartLba + g.dataStart + (limit - 2) * g.spc

/-- Sector `lba` of the volume sits in block `a`, inside the volume. -/
structure Sits (limit lba a : Nat) : Prop where
  raw : add32 fat32StartLba lba = a
  low : fat32StartLba ≤ a
  high : a < volumeEnd g limit

theorem view_fat (limit : Nat) (d : Disk) (c : Nat) : (view g limit d).fat c =
    if c < 128 * g.spf then slot (d (fatBase g + c / 128)) (c % 128) else 0 := rfl

theorem view_data (limit : Nat) (d : Disk) (c k : Nat) : (view g limit d).data c k =
    if 2 ≤ c ∧ c < limit ∧ k < g.clusterSize then bytes (d (clusterAddr g c (k / 512))) (k % 512) else 0 := rfl

/-- The FAT copies are equal. -/
def Mirrored (d : Disk) : Prop :=
  g.bpb.fatCount.toNat > 1 → ∀ s, s < g.spf → d (fatBase g + g.spf + s) = d (fatBase g + s)

end

/-! ### Addresses -/

/-- The sectors of a cluster end before the next cluster starts. -/
theorem cluster_fits {c limit : Nat} (spc : Nat) (low : 2 ≤ c) (high : c < limit) :
    (c - 2) * spc + spc ≤ (limit - 2) * spc := by
  rw [← Nat.succ_mul]
  exact Nat.mul_le_mul_right _ (by omega)

theorem clusterAddr_inj {g : Statics} {c c' i i' : Nat} (low : 2 ≤ c) (low' : 2 ≤ c') (inside : i < g.spc)
    (inside' : i' < g.spc) (same : clusterAddr g c i = clusterAddr g c' i') : c = c' ∧ i = i' := by
  have offsets : (c - 2) * g.spc + i = (c' - 2) * g.spc + i' := by
    unfold clusterAddr at same
    omega
  have positive : 0 < g.spc := Nat.zero_lt_of_lt inside
  have quotient := congrArg (· / g.spc) offsets
  simp only [Nat.mul_comm _ g.spc, Nat.mul_add_div positive, Nat.div_eq_of_lt inside,
    Nat.div_eq_of_lt inside'] at quotient
  have numbers : c - 2 = c' - 2 := by omega
  rw [numbers] at offsets
  omega

theorem Sits.within {g : Statics} {limit lba a : Nat} (sits : Sits g limit lba a) :
    fat32StartLba ≤ add32 fat32StartLba lba ∧ add32 fat32StartLba lba < volumeEnd g limit := by
  rw [sits.raw]
  exact ⟨sits.low, sits.high⟩

namespace Geometry
variable {g : Statics} {limit : Nat} (geo : Geometry g limit)
include geo

theorem fats_fit : g.spf ≤ g.bpb.fatCount.toNat * g.spf ∧
    (g.bpb.fatCount.toNat > 1 → g.bpb.fatCount.toNat * g.spf = g.spf + g.spf) := by
  rcases geo.copies with one | two
  · simp [one]
  · rw [two]
    omega

theorem fatStart_lt : g.fatStart < 2 ^ 16 := by
  have reserved := congrArg Statics.fatStart geo.mounted
  simp only [mount, geo.accepted, ↓reduceIte] at reserved
  rw [reserved]
  exact g.bpb.reservedSectors.toNat_lt

theorem dataStart_eq : g.dataStart = g.fatStart + g.bpb.fatCount.toNat * g.spf := by
  have small := geo.fits
  have start : fat32StartLba = 20480 := rfl
  have at_ := congrArg Statics.dataStart geo.mounted
  have reserved := congrArg Statics.fatStart geo.mounted
  simp only [mount, geo.accepted, ↓reduceIte] at at_ reserved
  rw [at_, ← reserved]
  change add32 g.fatStart (mul32 g.bpb.fatCount.toNat g.spf) = _
  rw [mul32_of_lt (by omega), add32_of_lt (by omega)]

theorem limit_le : limit + 20478 ≤ 2 ^ 28 := by
  have small := geo.fits
  have start : fat32StartLba = 20480 := rfl
  have := geo.root
  have : (limit - 2) * 1 ≤ (limit - 2) * g.spc := Nat.mul_le_mul_left _ geo.positive
  omega

theorem volumeEnd_le : volumeEnd g limit ≤ 2 ^ 28 := by
  have small := geo.fits
  have data := geo.dataStart_eq
  unfold volumeEnd
  omega

theorem sectorAddr_eq {lba a : Nat} (sits : Sits g limit lba a) : sectorAddr lba = a := by
  have small := geo.volumeEnd_le
  have high := sits.high
  rw [sectorAddr, sits.raw, lba28, Nat.mod_eq_of_lt (by omega)]

theorem sits_fat {s : Nat} (inside : s < g.spf) : Sits g limit (add32 g.fatStart s) (fatBase g + s) := by
  have small := geo.volumeEnd_le
  have data := geo.dataStart_eq
  have := geo.fats_fit.1
  unfold volumeEnd at small
  constructor <;> (try unfold add32) <;> (try unfold volumeEnd) <;> unfold fatBase <;> omega

theorem sits_copy {s : Nat} (two : g.bpb.fatCount.toNat > 1) (inside : s < g.spf) :
    Sits g limit (add32 (add32 g.fatStart s) g.spf) (fatBase g + g.spf + s) := by
  have small := geo.volumeEnd_le
  have data := geo.dataStart_eq
  have := geo.fats_fit.2 two
  unfold volumeEnd at small
  constructor <;> (try unfold add32) <;> (try unfold volumeEnd) <;> unfold fatBase <;> omega

theorem sits_copy' {s : Nat} (two : g.bpb.fatCount.toNat > 1) (inside : s < g.spf) :
    Sits g limit (add32 (add32 g.fatStart g.spf) s) (fatBase g + g.spf + s) := by
  have same : add32 (add32 g.fatStart g.spf) s = add32 (add32 g.fatStart s) g.spf := by
    unfold add32
    omega
  exact same ▸ geo.sits_copy two inside

theorem fatSector_eq {c : Nat} (high : c < limit) : fatSector g c = add32 g.fatStart (c / 128) ∧ c / 128 < g.spf := by
  have := geo.limit_le
  have := geo.covered
  unfold fatSector mul32
  refine ⟨congrArg (add32 g.fatStart) ?_, ?_⟩ <;> omega

theorem sits_cluster {c i : Nat} (low : 2 ≤ c) (high : c < limit) (inside : i < g.spc) :
    Sits g limit (add32 (clusterLba g c) i) (clusterAddr g c i) := by
  have small := geo.volumeEnd_le
  have fit := cluster_fits g.spc low high
  have bound := geo.limit_le
  unfold volumeEnd at small
  have place : clusterLba g c = g.dataStart + (c - 2) * g.spc := by
    unfold clusterLba
    rw [sub32_of_le low (by omega), mul32_of_lt (by omega), add32_of_lt (by omega)]
  rw [place]
  constructor <;> (try unfold add32) <;> (try unfold volumeEnd) <;> unfold clusterAddr <;> omega

/-- Data sectors lie behind the FATs. -/
theorem clusterAddr_le (c i : Nat) : fatBase g + g.bpb.fatCount.toNat * g.spf ≤ clusterAddr g c i := by
  have data := geo.dataStart_eq
  unfold fatBase clusterAddr
  omega

end Geometry

/-! ### One sector write -/

section
variable {g : Statics} {limit : Nat} (geo : Geometry g limit) (d : Disk)
include geo

/-- A FAT sector with one entry replaced. -/
theorem view_write_fat {s i : Nat} (inside : s < g.spf) (small : i < 128) (existing value : Nat) :
    view g limit (Function.update d (fatBase g + s)
      (patch (d (fatBase g + s)) (i * 4) (entryWord existing value))) =
    (view g limit d).setFat (s * 128 + i) (value &&& 0x0FFFFFFF) := by
  have fats := geo.fats_fit.1
  have fat : (view g limit (Function.update d (fatBase g + s)
      (patch (d (fatBase g + s)) (i * 4) (entryWord existing value)))).fat =
      Function.update (view g limit d).fat (s * 128 + i) (value &&& 0x0FFFFFFF) := by
    funext c
    by_cases here : c = s * 128 + i
    · have split : c / 128 = s ∧ c % 128 = i := by omega
      subst here
      rw [Function.update_self, view_fat, if_pos (by omega), split.1, split.2, Function.update_self,
        slot_patch _ small]
    · rw [Function.update_of_ne here]
      simp only [view]
      by_cases entry : c < 128 * g.spf
      · rw [if_pos entry, if_pos entry]
        by_cases sector : c / 128 = s
        · rw [sector, Function.update_self, slot_patch_other _ (Nat.mod_lt _ (by decide)) (by omega)]
        · rw [Function.update_of_ne (by omega)]
      · rw [if_neg entry, if_neg entry]
  have data : (view g limit (Function.update d (fatBase g + s)
      (patch (d (fatBase g + s)) (i * 4) (entryWord existing value)))).data = (view g limit d).data := by
    funext c k
    have behind := geo.clusterAddr_le c (k / 512)
    simp only [view]
    rw [Function.update_of_ne (by omega)]
  exact View.ext fat data

theorem view_write_copy {s : Nat} (two : g.bpb.fatCount.toNat > 1) (inside : s < g.spf) (x : Sector) :
    view g limit (Function.update d (fatBase g + g.spf + s) x) = view g limit d := by
  have fats := geo.fats_fit.2 two
  refine View.ext ?_ ?_
  · funext c
    simp only [view]
    split
    · rw [Function.update_of_ne (by omega)]
    · rfl
  · funext c k
    have behind := geo.clusterAddr_le c (k / 512)
    simp only [view]
    rw [Function.update_of_ne (by omega)]

/-- One sector of a cluster. -/
theorem view_write_data {c i : Nat} (low : 2 ≤ c) (high : c < limit) (inside : i < g.spc) (x : Sector) :
    view g limit (Function.update d (clusterAddr g c i) x) =
      (view g limit d).setData c fun k =>
        if k / 512 = i then bytes x (k % 512) else (view g limit d).data c k := by
  have fats := geo.fats_fit.1
  refine View.ext ?_ ?_
  · funext c'
    have behind := geo.clusterAddr_le c i
    simp only [view, View.setData_fat]
    split
    · rw [Function.update_of_ne (by omega)]
    · rfl
  · funext c' k
    simp only [View.setData_data, Function.update_apply, view]
    have size : g.clusterSize = g.spc * 512 := rfl
    by_cases valid : 2 ≤ c' ∧ c' < limit ∧ k < g.clusterSize
    · rw [if_pos valid]
      by_cases here : clusterAddr g c' (k / 512) = clusterAddr g c i
      · obtain ⟨rfl, sector⟩ := clusterAddr_inj valid.1 low (by omega) inside here
        rw [if_pos here, if_pos rfl, if_pos sector]
      · rw [if_neg here]
        by_cases same : c' = c
        · subst same
          have sector : k / 512 ≠ i := fun sector => here (by rw [sector])
          rw [if_pos rfl, if_neg sector, if_pos valid]
        · rw [if_neg same, if_pos valid]
    · rw [if_neg valid]
      by_cases same : c' = c
      · subst same
        rw [if_pos rfl, if_neg valid, if_neg (by omega)]
      · rw [if_neg same, if_neg valid]

theorem Mirrored.write_data (mirrored : Mirrored g d) {c i : Nat} (x : Sector) :
    Mirrored g (Function.update d (clusterAddr g c i) x) := by
  intro two s inside
  have behind := geo.clusterAddr_le c i
  have fats := geo.fats_fit.2 two
  rw [Function.update_of_ne (by omega), Function.update_of_ne (by omega)]
  exact mirrored two s inside

end

end ChrisOS.Fs.Fat32
