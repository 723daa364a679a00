import ChrisOS.Fs.Fat32.Effects
import Mathlib.Data.DFinsupp.WellFounded
import Mathlib.Data.Finset.Card
import Mathlib.Tactic.Common

/-! Termination on every disk, whatever its BPB, FAT and directory hold.

Freeing follows links it is zeroing. Clearing an entry lowers the number of
nonzero entries in one FAT sector and copies the sector a fixed stride away,
where entries may be visited later. The stride has one direction, so the row of
counts descends lexicographically, read from one end or from the other.
-/

set_option autoImplicit false

namespace ChrisOS.Fs.Fat32
open ChrisOS.Lib ChrisOS.Drivers.Ata

/-- Enough iterations reach an outcome, the same one for every larger budget. -/
def Terminates {A : Type} (e : Env) (m : Machine) (x : Nat → Kern A) : Prop :=
  ∃ outcome, Returns (fun budget => x budget e m) outcome

section
variable {A B : Type} {e : Env} {m : Machine}

theorem Does.terminates {x : Nat → Kern A} {ws : SectorWrites} {post : A → Prop} (done : Does e m x ws post) :
    Terminates e m x := by
  obtain ⟨a, m', ran, -, -⟩ := done
  exact ⟨_, ran⟩

/-- Code that terminates after code whose writes are known. -/
theorem Does.ends {x : Nat → Kern A} {f : Nat → A → Kern B} {ws : SectorWrites} {post : A → Prop}
    (first : Does e m x ws post)
    (second : ∀ a m', m'.disk = land ws m.disk → post a → Terminates e m' fun n => f n a) :
    Terminates e m fun n => x n >>= f n := by
  obtain ⟨a, m', ran, effect, holds⟩ := first
  obtain ⟨outcome, ends⟩ := second a m' effect.disk holds
  exact ⟨outcome, Returns.bind ran ends⟩

theorem Terminates.bind {x : Nat → Kern A} {f : Nat → A → Kern B} (first : Terminates e m x)
    (second : ∀ a m', Terminates e m' fun n => f n a) : Terminates e m fun n => x n >>= f n := by
  obtain ⟨⟨a, m'⟩, ran⟩ := first
  obtain ⟨outcome, ends⟩ := second a m'
  exact ⟨outcome, Returns.bind ran ends⟩

theorem Terminates.of_succ {x : Nat → Kern A} (later : Terminates e m fun n => x (n + 1)) :
    Terminates e m x := by
  obtain ⟨outcome, ends⟩ := later
  exact ⟨outcome, .of_succ ends⟩

end

/-! ### The row of counts -/

def inUse (s : Sector) : Finset Nat := (Finset.range 128).filter fun i => slot s i ≠ 0

theorem inUse_clear (s : Sector) {i : Nat} (inside : i < 128) (used : slot s i ≠ 0) (existing : Nat) :
    (inUse (patch s (i * 4) (entryWord existing 0))).card < (inUse s).card := by
  refine Finset.card_lt_card (Finset.ssubset_iff_subset_ne.mpr ⟨fun j => ?_, fun same => ?_⟩)
  · simp only [inUse, Finset.mem_filter, Finset.mem_range]
    rintro ⟨small, nonzero⟩
    have other : j ≠ i := by
      rintro rfl
      exact nonzero (by rw [slot_patch s inside, Nat.zero_and])
    exact ⟨small, by rwa [slot_patch_other s small other] at nonzero⟩
  · have member : i ∈ inUse s := by simp [inUse, inside, used]
    rw [← same, inUse, Finset.mem_filter, slot_patch s inside, Nat.zero_and] at member
    exact member.2 rfl

/-- The FAT sectors that links below 0x0FFFFFF8 fall into. -/
def reach : Nat := 2 ^ 21

section
variable (g : Statics)

/-- For each FAT sector a link can fall into, the number of its nonzero entries. -/
def row (d : Disk) (k : Fin reach) : Nat := (inUse (d (fatBase g + k))).card

/-- How far a FAT sector's copy lies behind it, in block addresses modulo 2^28. -/
def stride : Nat := g.spf % 2 ^ 28

end

theorem fatSector_of_link {g : Statics} (low : g.fatStart < 2 ^ 16) {cluster : Nat} (link : isLink cluster) :
    fatSector g cluster = g.fatStart + cluster / 128 ∧ cluster / 128 < reach := by
  unfold isLink at link
  unfold fatSector add32 mul32 reach
  omega

section
variable {g : Statics} (low : g.fatStart < 2 ^ 16)
include low

theorem sectorAddr_of_link {cluster : Nat} (link : isLink cluster) :
    sectorAddr (fatSector g cluster) = fatBase g + cluster / 128 := by
  obtain ⟨here, small⟩ := fatSector_of_link low link
  unfold reach at small
  rw [here]
  unfold sectorAddr lba28 add32 fatBase fat32StartLba
  omega

theorem rawEntry_of_link (d : Disk) {cluster : Nat} (link : isLink cluster) :
    rawEntry g d cluster = slot (d (fatBase g + cluster / 128)) (cluster % 128) := by
  rw [rawEntry, sectorAddr_of_link low link, fatOffset_eq, slot]

/-- Clearing an entry that holds a nonzero number lowers its sector's count. -/
theorem row_clear_lt (d : Disk) {cluster : Nat} (link : isLink cluster) (used : rawEntry g d cluster ≠ 0) :
    (inUse (land (setWrites g d cluster 0) d (fatBase g + cluster / 128))).card <
      (inUse (d (fatBase g + cluster / 128))).card := by
  rw [setWrites, land_mirrored, sectorAddr_of_link low link, if_pos (.inl rfl), fatOffset_eq]
  rw [rawEntry_of_link low d link] at used
  exact inUse_clear _ (Nat.mod_lt _ (by decide)) used _

/-- Beside the sector and its copy a stride away nothing changes. -/
theorem row_clear_other (d : Disk) {cluster k : Nat} (link : isLink cluster) (inside : k < reach)
    (other : k ≠ cluster / 128) (away : k ≠ (cluster / 128 + stride g) % 2 ^ 28) :
    land (setWrites g d cluster 0) d (fatBase g + k) = d (fatBase g + k) := by
  obtain ⟨here, small⟩ := fatSector_of_link low link
  rw [setWrites, land_mirrored, sectorAddr_of_link low link, if_neg]
  rintro (same | ⟨-, same⟩)
  · omega
  · rw [here] at same
    unfold reach at inside small
    unfold stride at away
    unfold sectorAddr lba28 add32 fatBase fat32StartLba at same
    omega

/-- A copy that never lands before its original: read the row from the start. -/
theorem row_descends_upward (up : stride g < 2 ^ 28 - reach) (d : Disk) {cluster : Nat} (link : isLink cluster)
    (used : rawEntry g d cluster ≠ 0) :
    Pi.Lex (· < ·) (· < ·) (row g (land (setWrites g d cluster 0) d)) (row g d) := by
  obtain ⟨-, small⟩ := fatSector_of_link low link
  refine ⟨⟨cluster / 128, small⟩, fun k before => ?_, row_clear_lt low d link used⟩
  have earlier : k.val < cluster / 128 := before
  have room : reach < 2 ^ 28 := by decide
  rw [row, row, row_clear_other low d link k.isLt (by omega) (by omega)]

/-- Otherwise a copy inside the row lands before its original: read it from the end. -/
theorem row_descends_downward (down : ¬stride g < 2 ^ 28 - reach) (d : Disk) {cluster : Nat} (link : isLink cluster)
    (used : rawEntry g d cluster ≠ 0) :
    Pi.Lex (· > ·) (· < ·) (row g (land (setWrites g d cluster 0) d)) (row g d) := by
  obtain ⟨-, small⟩ := fatSector_of_link low link
  refine ⟨⟨cluster / 128, small⟩, fun k after => ?_, row_clear_lt low d link used⟩
  have later : cluster / 128 < k.val := after
  have inside := k.isLt
  have size : reach = 2 ^ 21 := rfl
  have wrapped : stride g < 2 ^ 28 := Nat.mod_lt _ (by decide)
  rw [row, row, row_clear_other low d link inside (by omega) (by omega)]

end

/-! ### Freeing a chain -/

/-- The walk ends when clearing an entry with a link in it descends a well-founded measure. -/
theorem FreeWalk.of_descent {M : Type} {less : M → M → Prop} (wf : WellFounded less) (measure : Disk → M) {g : Statics}
    (descends : ∀ d cluster, isLink cluster → rawEntry g d cluster ≠ 0 →
      less (measure (land (setWrites g d cluster 0) d)) (measure d))
    (d : Disk) (cluster : Nat) : ∃ ws, FreeWalk g d cluster ws := by
  induction bound : measure d using wf.induction generalizing d cluster with
  | _ rank ih =>
    by_cases link : isLink cluster
    swap
    · exact ⟨[], .stop link⟩
    by_cases further : isLink (rawEntry g d cluster)
    · have used : rawEntry g d cluster ≠ 0 := Nat.ne_of_gt (Nat.lt_of_lt_of_le (by decide) further.1)
      obtain ⟨ws, rest⟩ := ih _ (bound ▸ descends d cluster link used) (land (setWrites g d cluster 0) d)
        (rawEntry g d cluster) rfl
      exact ⟨_, .link link rest⟩
    · exact ⟨_, .link link (.stop further)⟩

theorem mount_fatStart_lt (bpb : Bpb) : (mount bpb).fatStart < 2 ^ 16 := by
  unfold mount
  split
  · exact bpb.reservedSectors.toNat_lt
  · exact Nat.two_pow_pos 16

/-- Every walk ends. -/
theorem freeWalk_ends (bpb : Bpb) (d : Disk) (cluster : Nat) : ∃ ws, FreeWalk (mount bpb) d cluster ws := by
  have low := mount_fatStart_lt bpb
  by_cases up : stride (mount bpb) < 2 ^ 28 - reach
  · exact FreeWalk.of_descent (Pi.Lex.wellFounded (· < ·) fun _ => wellFounded_lt) (row (mount bpb))
      (fun d _ => row_descends_upward low up d) d cluster
  · exact FreeWalk.of_descent (Pi.Lex.wellFounded (· > ·) fun _ => wellFounded_lt) (row (mount bpb))
      (fun d _ => row_descends_downward low up d) d cluster

theorem fatFreeChain_terminates (bpb : Bpb) {e : Env} (reliable : Reliable e) (m : Machine) (cluster : Nat) :
    Terminates e m fun n => fatFreeChain (mount bpb) n cluster := by
  obtain ⟨ws, walk⟩ := freeWalk_ends bpb m.disk cluster
  exact (fatFreeChain_walks _ reliable walk rfl).terminates

/-! ### The operations -/

section
variable {g : Statics} {e : Env} (reliable : Reliable e)
include reliable

/-- Every round of the read loop consumes part of what remains. -/
theorem readFileLoop_terminates (positive : 0 < g.clusterSize) (m : Machine) (cluster remaining : Nat) (buf : Buf)
    (off : Nat) : Terminates e m fun n => readFileLoop g n cluster remaining buf off := by
  induction remaining using Nat.strong_induction_on generalizing m cluster buf off with
  | _ remaining ih =>
    refine Terminates.of_succ ?_
    by_cases more : isLink cluster ∧ remaining > 0
    · simp only [readFileLoop, if_pos more]
      refine (readCluster_does g reliable cluster buf off).ends fun b m₁ _ _ => ?_
      refine (fatGet_does g reliable cluster).ends fun next m₂ _ _ => ?_
      refine ih _ ?_ m₂ next b _
      have := more.2
      split <;> omega
    · simp only [readFileLoop, if_neg more]
      exact (Does.pure trivial : Does e m _ [] fun _ => True).terminates

end

/-- An entry was found, so the directory has at least one. -/
theorem findDirEntry_some {f : Nat → UInt8} {clusterSize off : Nat} {fatname : FatName}
    (found : (findDirEntry f clusterSize fatname).1 = some off) : 0 < clusterSize := by
  refine Nat.pos_of_ne_zero fun zero => ?_
  subst zero
  cases found

section
variable {bpb : Bpb} {e : Env} (reliable : Reliable e)
include reliable

theorem freeOld_terminates (m : Machine) (cluster : Nat) :
    Terminates e m fun n => freeOld (mount bpb) n cluster := by
  unfold freeOld
  split
  · exact fatFreeChain_terminates bpb reliable m cluster
  · exact (Does.pure trivial : Does e m _ [] fun _ => True).terminates

theorem writeEntry_terminates (m : Machine) (fatname : FatName) (dirbuf : Buf) (off dataCluster size : Nat) :
    Terminates e m fun _ => writeEntry (mount bpb) fatname dirbuf off dataCluster size := by
  refine (flushDirSector_does _ reliable _ _).ends fun _ _ _ _ => ?_
  refine (kfree_does _).ends fun _ m' _ _ => ?_
  exact (Does.pure trivial : Does e m' _ [] fun _ => True).terminates

theorem writeBody_terminates (m : Machine) (fatname : FatName) (data : Nat → UInt8) (size : Nat) (dirbuf : Buf)
    (off : Nat) : Terminates e m fun _ => writeBody (mount bpb) fatname data size dirbuf off := by
  unfold writeBody
  split
  · refine (fatAllocCluster_does _ reliable).ends fun dataCluster _ _ _ => ?_
    split
    · refine (terminalWritestring_does _).ends fun _ _ _ _ => ?_
      refine (kfree_does _).ends fun _ m' _ _ => ?_
      exact (Does.pure trivial : Does e m' _ [] fun _ => True).terminates
    · refine (kmalloc_does _).ends fun cbuf _ _ _ => ?_
      refine (writeCluster_does _ reliable _ _).ends fun _ _ _ _ => ?_
      refine (kfree_does _).ends fun _ _ _ _ => ?_
      exact writeEntry_terminates reliable _ _ _ _ _ _
  · exact writeEntry_terminates reliable _ _ _ _ _ _

theorem fat32ReadFile_terminates (m : Machine) (name : List UInt8) (buf : Buf) :
    Terminates e m fun n => fat32ReadFile (mount bpb) n name buf := by
  refine (kmalloc_does _).ends fun dbuf _ _ _ => ?_
  refine (readCluster_does _ reliable _ dbuf 0).ends fun dbuf m₂ _ _ => ?_
  cases found : (findDirEntry dbuf.data (mount bpb).clusterSize (nameToFat83 name)).1 with
  | none =>
    refine (kfree_does _).ends fun _ m' _ _ => ?_
    exact (Does.pure trivial : Does e m' _ [] fun _ => True).terminates
  | some off =>
    refine (kfree_does _).ends fun _ m₃ _ _ => ?_
    refine (readFileLoop_terminates reliable (findDirEntry_some found) m₃ _ _ _ _).bind fun _ m' => ?_
    exact (Does.pure trivial : Does e m' _ [] fun _ => True).terminates

theorem fat32WriteFile_terminates (m : Machine) (name : List UInt8) (data : Nat → UInt8) (size : Nat) :
    Terminates e m fun n => fat32WriteFile (mount bpb) n name data size := by
  unfold fat32WriteFile
  simp only
  split
  · refine (terminalWritestring_does _).ends fun _ m' _ _ => ?_
    exact (Does.pure trivial : Does e m' _ [] fun _ => True).terminates
  · refine (kmalloc_does _).ends fun dirbuf _ _ _ => ?_
    refine (readCluster_does _ reliable _ dirbuf 0).ends fun dirbuf m₂ _ _ => ?_
    cases findDirEntry dirbuf.data (mount bpb).clusterSize (nameToFat83 name) with
    | mk found free =>
      cases found with
      | some off => exact (freeOld_terminates reliable m₂ _).bind fun _ _ => writeBody_terminates reliable _ _ _ _ _ _
      | none =>
        cases free with
        | some off => exact writeBody_terminates reliable _ _ _ _ _ _
        | none =>
          refine (terminalWritestring_does _).ends fun _ _ _ _ => ?_
          refine (kfree_does _).ends fun _ m' _ _ => ?_
          exact (Does.pure trivial : Does e m' _ [] fun _ => True).terminates

theorem fat32DeleteFile_terminates (m : Machine) (name : List UInt8) :
    Terminates e m fun n => fat32DeleteFile (mount bpb) n name := by
  refine (kmalloc_does _).ends fun dirbuf _ _ _ => ?_
  refine (readCluster_does _ reliable _ dirbuf 0).ends fun dirbuf m₂ _ _ => ?_
  cases (findDirEntry dirbuf.data (mount bpb).clusterSize (nameToFat83 name)).1 with
  | none =>
    refine (kfree_does _).ends fun _ m' _ _ => ?_
    exact (Does.pure trivial : Does e m' _ [] fun _ => True).terminates
  | some off =>
    refine (freeOld_terminates reliable m₂ _).bind fun _ _ => ?_
    refine (flushDirSector_does _ reliable _ _).ends fun _ _ _ _ => ?_
    refine (kfree_does _).ends fun _ m' _ _ => ?_
    exact (Does.pure trivial : Does e m' _ [] fun _ => True).terminates

end

/-- Whatever the BPB said at mount time and whatever is on the disk now, freeing
a chain terminates, and so does every operation that follows one. -/
theorem every_disk_terminates (bpb : Bpb) {e : Env} (reliable : Reliable e) (m : Machine) :
    (∀ cluster, cluster < 2 ^ 32 → Terminates e m fun n => fatFreeChain (mount bpb) n cluster) ∧
    ∀ name, (∀ buf, Terminates e m fun n => fat32ReadFile (mount bpb) n name buf) ∧
      (∀ data size, Terminates e m fun n => fat32WriteFile (mount bpb) n name data size) ∧
      Terminates e m fun n => fat32DeleteFile (mount bpb) n name :=
  ⟨fun cluster _ => fatFreeChain_terminates bpb reliable m cluster, fun name =>
    ⟨fat32ReadFile_terminates reliable m name, fat32WriteFile_terminates reliable m name,
      fat32DeleteFile_terminates reliable m name⟩⟩

/-- Nothing fails, and blocks come zeroed. -/
def steadyEnv : Env := ⟨fun _ => false, fun _ => 0, fun _ _ => 0⟩

theorem steadyEnv_reliable : Reliable steadyEnv := fun _ => rfl

/-- Every entry of every sector links to cluster 2, cluster 2 included. -/
def loopedDisk : Disk := fun _ i => if i.val % 4 = 0 then 2 else 0

/-- One sector a cluster, two FATs of one sector, the root directory in cluster 2. -/
def sampleBpb (total : UInt32) : Bpb := ⟨1, 32, 2, total, 1, 2, 0x29⟩

theorem every_disk_terminates_looped :
    (∀ cluster, cluster < 2 ^ 32 → Terminates steadyEnv ⟨loopedDisk, []⟩ fun n => fatFreeChain (mount (sampleBpb 160)) n cluster) ∧
    ∀ name, (∀ buf, Terminates steadyEnv ⟨loopedDisk, []⟩ fun n => fat32ReadFile (mount (sampleBpb 160)) n name buf) ∧
      (∀ data size, Terminates steadyEnv ⟨loopedDisk, []⟩ fun n => fat32WriteFile (mount (sampleBpb 160)) n name data size) ∧
      Terminates steadyEnv ⟨loopedDisk, []⟩ fun n => fat32DeleteFile (mount (sampleBpb 160)) n name :=
  every_disk_terminates (sampleBpb 160) steadyEnv_reliable _

end ChrisOS.Fs.Fat32
