import ChrisOS.Fs.Fat32.Runs

/-! Where the driver writes on a volume whose FAT has entries behind its last cluster.

The allocator scans every entry of the FAT and never looks at total_sectors_32, so
once every cluster of the volume is used it hands out the first padding entry.
-/

set_option autoImplicit false

namespace ChrisOS.Fs.Fat32
open ChrisOS.Lib ChrisOS.Lib.Chains ChrisOS.Drivers.Ata

section
variable (g : Statics) (limit : Nat)

/-- The block address behind the volume by its own count of sectors. -/
def totalEnd : Nat := fat32StartLba + g.bpb.totalSectors32.toNat

/-- A well-formed volume of the clusters its sector count leaves room for, with a
FAT that may be longer and holds zeros behind the last cluster's entry. -/
structure Padded (d : Disk) : Prop where
  volume : Volume g limit d
  area : g.dataStart ≤ g.bpb.totalSectors32.toNat
  clusters : limit = (g.bpb.totalSectors32.toNat - g.dataStart) / g.spc + 2
  onDrive : totalEnd g ≤ 2 ^ 28
  padding : ∀ c, limit ≤ c → c < 128 * g.spf → (view g limit d).fat c = 0

/-- What is asked of a call: it writes inside the volume only, and a write that finds
no cluster for its data returns 0. -/
def Within (v : View) (call : Call) (r : Nat) (ws : SectorWrites) : Prop :=
  (∀ w ∈ ws, fat32StartLba ≤ w.1 ∧ w.1 < totalEnd g) ∧
  ∀ name data, call = .write name data → data ≠ [] → DiskFull limit v →
    (∀ off ks, Owns g limit v off ks → nameAt (v.dir g) off = nameToFat83 name → ks = []) → r = 0

/-- The call reaches the allocator with every cluster used and padding left in the FAT. -/
def Overruns (v : View) (call : Call) : Prop := Starved g limit v call ∧ limit < 128 * g.spf

end

section
variable {g : Statics} {limit : Nat} {d : Disk}

theorem Padded.volumeEnd_le (padded : Padded g limit d) : volumeEnd g limit ≤ totalEnd g := by
  have area := padded.area
  have whole := Nat.div_mul_le_self (g.bpb.totalSectors32.toNat - g.dataStart) g.spc
  have count : limit - 2 = (g.bpb.totalSectors32.toNat - g.dataStart) / g.spc := by
    rw [padded.clusters, Nat.add_sub_cancel]
  unfold volumeEnd totalEnd
  rw [count]
  omega

/-- The last sector of the first padding cluster lies behind the volume. -/
theorem Padded.next_cluster_outside (padded : Padded g limit d) :
    totalEnd g ≤ volumeEnd g limit + (g.spc - 1) := by
  have area := padded.area
  have positive := padded.volume.geometry.positive
  have rest := Nat.lt_div_mul_add positive (a := g.bpb.totalSectors32.toNat - g.dataStart)
  have count : limit - 2 = (g.bpb.totalSectors32.toNat - g.dataStart) / g.spc := by
    rw [padded.clusters, Nat.add_sub_cancel]
  unfold volumeEnd totalEnd
  rw [count]
  omega

/-- A call that does not overrun finds a cluster, or the end of the FAT. -/
theorem Padded.supply (padded : Padded g limit d) {call : Call} (fed : ¬Overruns g limit (view g limit d) call) :
    limit = 128 * g.spf ∨ ¬Starved g limit (view g limit d) call := by
  by_cases whole : limit = 128 * g.spf
  · exact .inl whole
  · have covered := padded.volume.geometry.covered
    exact .inr fun starved => fed ⟨starved, by omega⟩

theorem Outcome.within (padded : Padded g limit d) {call : Call} {r : Nat} {ws : SectorWrites}
    (outcome : Outcome g limit d call r ws) : Within g limit (view g limit d) call r ws := by
  have inside := padded.volumeEnd_le
  cases outcome with
  | refused _ => exact ⟨fun _ member => absurd member List.not_mem_nil, fun _ _ _ _ _ _ => rfl⟩
  | @served v' off old new _ step stage =>
    refine ⟨fun w member => ?_, ?_⟩
    · have := stage.inside w member
      omega
    · rintro name data rfl nonempty full bare
      obtain ⟨-, -, -, room⟩ := step.stored data rfl
      obtain ⟨c, ks, rfl⟩ : ∃ c ks, new = c :: ks := by
        refine List.exists_cons_of_ne_nil fun none => nonempty ?_
        rw [none] at room
        exact List.length_eq_zero_iff.mp (by simpa using room)
      obtain ⟨valid, free⟩ := step.rewrites.fresh c (List.mem_cons_self ..)
      have freed : c ∈ old := free.resolve_left (full c valid)
      have none : old = [] := by
        cases step.place with
        | own owns named => exact bare off old owns named
        | free => rfl
      rw [none] at freed
      exact absurd freed List.not_mem_nil

theorem Outcome.padded (padded : Padded g limit d) {call : Call} {r : Nat} {ws : SectorWrites}
    (outcome : Outcome g limit d call r ws) : Padded g limit (land ws d) where
  volume := outcome.volume padded.volume
  area := padded.area
  clusters := padded.clusters
  onDrive := padded.onDrive
  padding c behind entry := by
    cases outcome with
    | refused _ => exact padded.padding c behind entry
    | @served v' off old new _ step stage =>
      have notNew : c ∉ new := fun taken => absurd (step.rewrites.fresh c taken).1.2 (Nat.not_lt.mpr behind)
      rw [stage.lands, step.rewrites.fat, if_neg notNew]
      split
      · rfl
      · exact padded.padding c behind entry

end

/-! ### A call that overruns the volume -/

section
variable {g : Statics} {limit : Nat} {e : Env} (reliable : Reliable e) {m : Machine}
  (padded : Padded g limit m.disk)
include reliable padded

omit reliable in
/-- With every cluster used the allocator finds the first padding entry. -/
theorem searchFat_padding (full : DiskFull limit (view g limit m.disk)) (longer : limit < 128 * g.spf) :
    searchFat g m.disk g.spf 0 = some (limit / 128, limit % 128) := by
  have geo := padded.volume.geometry
  have bound := geo.limit_le
  have root := geo.root
  refine searchFat_finds (slot_eq geo m.disk) (by omega) (by omega) (padded.padding limit (Nat.le_refl _) longer)
    (fun k low less => full k ⟨low, less⟩) ?_ (by omega)
  omega

theorem overrun_writes_outside {call : Call} (overruns : Overruns g limit (view g limit m.disk) call) :
    ∃ ws, Does e m (fun n => call.run g n) ws (fun r => r = 1) ∧ ∃ w ∈ ws, totalEnd g ≤ w.1 := by
  have geo := padded.volume.geometry
  have wf := padded.volume.wellFormed
  have bound := geo.limit_le
  have root := geo.root
  have positive := geo.positive
  obtain ⟨⟨full, name, data, rfl, nonempty, fits, room, bare⟩, longer⟩ := overruns
  obtain ⟨off, old, place⟩ := (wf.place_or_full (nameToFat83 name)).resolve_right room
  have none : old = [] := by
    cases place with
    | own owns named => exact bare off old owns named
    | free => rfl
  subst none
  have found := searchFat_padding padded full longer
  have stores : Stores g m.disk m.disk (nameToFat83 name) data off 1 _ := .filled nonempty found
  rw [allocResult_eq (by omega)] at stores
  refine ⟨_, call_does reliable (.writes fits (place.places geo wf) stores), (add32 fat32StartLba (add32 (clusterLba g limit) (g.spc - 1)),
    piece (Call.memory data) ((g.spc - 1) * 512)), ?_, ?_⟩
  · refine List.mem_append_right _ (List.mem_append_right _ (List.mem_append_left _ ?_))
    exact List.mem_map.mpr ⟨g.spc - 1, List.mem_range.mpr (by omega), rfl⟩
  · have small := geo.volumeEnd_le
    have byte : g.spc < 2 ^ 8 := g.bpb.sectorsPerCluster.toNat_lt
    have outside := padded.next_cluster_outside
    unfold volumeEnd at small outside
    have lba : clusterLba g limit = g.dataStart + (limit - 2) * g.spc := by
      unfold clusterLba
      rw [sub32_of_le (by omega) (by omega), mul32_of_lt (by omega), add32_of_lt (by omega)]
    rw [lba, add32_of_lt (a := g.dataStart + (limit - 2) * g.spc) (by omega), add32_of_lt (by omega)]
    simp only
    omega

end

/-! ### Runs -/

/-- Runs of calls none of which overruns the volume. -/
inductive FedRun (g : Statics) (limit : Nat) (e : Env) : Machine → List Call → List Nat → Machine → Prop where
  | nil {m : Machine} : FedRun g limit e m [] [] m
  | cons {m m' m'' : Machine} {call : Call} {calls : List Call} {r : Nat} {rs : List Nat} :
      call.Allowed → ¬Overruns g limit (view g limit m.disk) call → Returns (fun n => call.run g n e m) (r, m') →
      FedRun g limit e m' calls rs m'' → FedRun g limit e m (call :: calls) (r :: rs) m''

section
variable {g : Statics} {limit : Nat} {e : Env} (reliable : Reliable e)
include reliable

/-- A call that does not overrun keeps the volume padded and stays within it. -/
theorem step_within {m m' : Machine} (padded : Padded g limit m.disk) {call : Call} (allowed : call.Allowed)
    (fed : ¬Overruns g limit (view g limit m.disk) call) {r : Nat}
    (ran : Returns (fun n => call.run g n e m) (r, m')) :
    Padded g limit m'.disk ∧
      ∃ ws, writesOf m'.log = writesOf m.log ++ ws ∧ Within g limit (view g limit m.disk) call r ws := by
  obtain ⟨x, ws, outcome, ⟨y, m₁, ran', effect, rfl⟩⟩ :=
    call_outcome reliable padded.volume allowed (padded.supply fed)
  cases ran.unique ran'
  exact ⟨effect.disk ▸ outcome.padded padded, ws, effect.log, outcome.within padded⟩

theorem FedRun.padded {m m' : Machine} {calls : List Call} {rs : List Nat} (run : FedRun g limit e m calls rs m')
    (padded : Padded g limit m.disk) :
    Padded g limit m'.disk ∧ ∃ ws, writesOf m'.log = writesOf m.log ++ ws ∧
      ∀ w ∈ ws, fat32StartLba ≤ w.1 ∧ w.1 < totalEnd g := by
  induction run with
  | nil => exact ⟨padded, [], (List.append_nil _).symm, fun _ member => absurd member List.not_mem_nil⟩
  | cons allowed fed ran _ ih =>
    obtain ⟨padded', ws, log, within⟩ := step_within reliable padded allowed fed ran
    obtain ⟨padded'', vs, log', inside⟩ := ih padded'
    refine ⟨padded'', ws ++ vs, by rw [log', log, List.append_assoc], fun w member => ?_⟩
    exact (List.mem_append.mp member).elim (within.1 w) (inside w)

/-- From a padded volume, after any run of calls none of which overran it: every
sector written so far lies inside the volume, and the next call stays within the
volume exactly if it does not overrun it. -/
theorem within_iff_not_overrun {m₀ m : Machine} (padded : Padded g limit m₀.disk) {calls : List Call} {rs : List Nat}
    (run : FedRun g limit e m₀ calls rs m) {call : Call} (allowed : call.Allowed) :
    (∃ ws, writesOf m.log = writesOf m₀.log ++ ws ∧ ∀ w ∈ ws, fat32StartLba ≤ w.1 ∧ w.1 < totalEnd g) ∧
    ∃ r m' ws, Returns (fun n => call.run g n e m) (r, m') ∧ writesOf m'.log = writesOf m.log ++ ws ∧
      (Within g limit (view g limit m.disk) call r ws ↔ ¬Overruns g limit (view g limit m.disk) call) := by
  obtain ⟨now, written⟩ := run.padded reliable padded
  refine ⟨written, ?_⟩
  by_cases overruns : Overruns g limit (view g limit m.disk) call
  · obtain ⟨ws, ⟨r, m', ran, effect, -⟩, w, member, outside⟩ := overrun_writes_outside reliable now overruns
    refine ⟨r, m', ws, ran, effect.log, fun within => ?_, fun fed => absurd overruns fed⟩
    exact absurd (within.1 w member).2 (Nat.not_lt.mpr outside)
  · obtain ⟨r, ws, outcome, ⟨x, m', ran, effect, rfl⟩⟩ :=
      call_outcome reliable now.volume allowed (now.supply overruns)
    exact ⟨x, m', ws, ran, effect.log, fun _ => overruns, fun _ => outcome.within now⟩

end

/-! ### A volume of one cluster -/

/-- The formatted volume cut to one data cluster, the root directory's. -/
theorem sample_padded : Padded (sampleOf 35) 3 sampleDisk where
  volume := sample_volume 35 (Nat.le_refl 3) (by decide)
  area := by decide
  clusters := by decide
  onDrive := by decide
  padding c behind entry := by
    have spf := sampleOf_spf 35
    by_contra used
    have := sample_fat 35 (by omega) used
    omega

theorem sample_overruns : Overruns (sampleOf 35) 3 (view (sampleOf 35) 3 sampleDisk) (.write [0x61] [1]) := by
  refine ⟨⟨fun c valid => ?_, [0x61], [1], rfl, by decide, by decide, fun full => ?_, fun off ks owns => ?_⟩, by decide⟩
  · obtain ⟨low, high⟩ := valid
    obtain rfl : c = 2 := by omega
    exact (sample_volume 35 (Nat.le_refl 3) (by decide)).wellFormed.root_used
  · exact full.2 0 ⟨rfl, by decide⟩ (.inl (sample_dir 35 (Nat.le_refl 3) (by decide) 0))
  · exact absurd owns.live (sample_empty 35 (Nat.le_refl 3) (by decide) off)

/-- Writing one byte to a full volume of one cluster reports success and writes a
sector behind the volume. -/
theorem full_volume_overrun : Padded (sampleOf 35) 3 sampleDisk ∧ (Call.write [0x61] [1]).Allowed ∧
    ∃ m' ws, Returns (fun n => (Call.write [0x61] [1]).run (sampleOf 35) n steadyEnv ⟨sampleDisk, []⟩) (1, m') ∧
      writesOf m'.log = ws ∧ ∃ w ∈ ws, totalEnd (sampleOf 35) ≤ w.1 := by
  obtain ⟨ws, ⟨r, m', ran, effect, rfl⟩, outside⟩ :=
    overrun_writes_outside (m := ⟨sampleDisk, []⟩) steadyEnv_reliable sample_padded sample_overruns
  exact ⟨sample_padded, by simp [Call.Allowed], m', ws, ran, effect.log, outside⟩

theorem within_iff_not_overrun_sample :
    (∃ ws, writesOf [] = writesOf [] ++ ws ∧ ∀ w ∈ ws, fat32StartLba ≤ w.1 ∧ w.1 < totalEnd (sampleOf 35)) ∧
    ∃ r m' ws, Returns (fun n => (Call.write [0x61] [1]).run (sampleOf 35) n steadyEnv ⟨sampleDisk, []⟩) (r, m') ∧
      writesOf m'.log = writesOf [] ++ ws ∧
      (Within (sampleOf 35) 3 (view (sampleOf 35) 3 sampleDisk) (.write [0x61] [1]) r ws ↔
        ¬Overruns (sampleOf 35) 3 (view (sampleOf 35) 3 sampleDisk) (.write [0x61] [1])) :=
  within_iff_not_overrun (m := ⟨sampleDisk, []⟩) steadyEnv_reliable sample_padded .nil (by simp [Call.Allowed])

end ChrisOS.Fs.Fat32
