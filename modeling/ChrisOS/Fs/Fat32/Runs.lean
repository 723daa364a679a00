import ChrisOS.Fs.Fat32.Operations
import ChrisOS.Fs.Fat32.Termination

/-! Sequences of calls on a well-formed volume, and the invariant they keep: no
cluster is shared, none is lost.
-/

set_option autoImplicit false

namespace ChrisOS.Fs.Fat32
open ChrisOS.Lib ChrisOS.Lib.Chains ChrisOS.Drivers.Ata

/-- A sequence of calls, with the values they return. -/
def runCalls (g : Statics) (budget : Nat) : List Call → Kern (List Nat)
  | [] => pure []
  | call :: calls => do
    let r ← call.run g budget
    let rs ← runCalls g budget calls
    pure (r :: rs)

section
variable {g : Statics} {limit : Nat} {d : Disk}

theorem Outcome.volume (vol : Volume g limit d) {call : Call} {r : Nat} {ws : SectorWrites}
    (outcome : Outcome g limit d call r ws) : Volume g limit (land ws d) := by
  cases outcome with
  | refused _ => exact vol
  | served step stage =>
    refine ⟨vol.geometry, stage.mirrored vol.mirrored, ?_⟩
    rw [stage.lands]
    exact step.rewrites.wellFormed vol.wellFormed vol.geometry.valid_apart

theorem Outcome.noLost (vol : Volume g limit d) (kept : NoLost g limit (view g limit d)) {call : Call} {r : Nat}
    {ws : SectorWrites} (outcome : Outcome g limit d call r ws) : NoLost g limit (view g limit (land ws d)) := by
  cases outcome with
  | refused _ => exact kept
  | served step stage =>
    rw [stage.lands]
    exact step.rewrites.noLost vol.wellFormed vol.geometry.valid_apart kept

/-- The entry of the root directory's cluster never changes. -/
theorem Outcome.root_entry (vol : Volume g limit d) {call : Call} {r : Nat} {ws : SectorWrites}
    (outcome : Outcome g limit d call r ws) :
    (view g limit (land ws d)).fat g.rootCluster = (view g limit d).fat g.rootCluster := by
  cases outcome with
  | refused _ => rfl
  | served step stage =>
    have root := step.rewrites.replaces.root_not_new vol.wellFormed.orderly
    rw [stage.lands, step.rewrites.fat, if_neg root.2, if_neg root.1]

end

/-- What a sequence of calls returns and writes. -/
inductive Trace (g : Statics) (limit : Nat) : Disk → List Call → List Nat → SectorWrites → Prop where
  | nil {d : Disk} : Trace g limit d [] [] []
  | cons {d : Disk} {call : Call} {calls : List Call} {r : Nat} {rs : List Nat} {ws vs : SectorWrites} :
      Outcome g limit d call r ws → Trace g limit (land ws d) calls rs vs →
      Trace g limit d (call :: calls) (r :: rs) (ws ++ vs)

section
variable {g : Statics} {limit : Nat}

theorem Trace.volume {d : Disk} {calls : List Call} {rs : List Nat} {ws : SectorWrites}
    (trace : Trace g limit d calls rs ws) (vol : Volume g limit d) : Volume g limit (land ws d) := by
  induction trace with
  | nil => exact vol
  | cons outcome _ ih =>
    rw [land_append]
    exact ih (outcome.volume vol)

theorem Trace.noLost {d : Disk} {calls : List Call} {rs : List Nat} {ws : SectorWrites}
    (trace : Trace g limit d calls rs ws) (vol : Volume g limit d) (kept : NoLost g limit (view g limit d)) :
    NoLost g limit (view g limit (land ws d)) := by
  induction trace with
  | nil => exact kept
  | cons outcome _ ih =>
    rw [land_append]
    exact ih (outcome.volume vol) (outcome.noLost vol kept)

theorem Trace.root_entry {d : Disk} {calls : List Call} {rs : List Nat} {ws : SectorWrites}
    (trace : Trace g limit d calls rs ws) (vol : Volume g limit d) :
    (view g limit (land ws d)).fat g.rootCluster = (view g limit d).fat g.rootCluster := by
  induction trace with
  | nil => rfl
  | cons outcome _ ih => rw [land_append, ih (outcome.volume vol), outcome.root_entry vol]

theorem runCalls_trace (whole : limit = 128 * g.spf) {e : Env} (reliable : Reliable e) {calls : List Call}
    (allowed : ∀ call ∈ calls, call.Allowed) {m : Machine} (vol : Volume g limit m.disk) :
    ∃ rs ws, Trace g limit m.disk calls rs ws ∧ Does e m (fun n => runCalls g n calls) ws fun x => x = rs := by
  induction calls generalizing m with
  | nil => exact ⟨[], [], .nil, Does.pure rfl⟩
  | cons call calls ih =>
    obtain ⟨here, later⟩ := List.forall_mem_cons.mp allowed
    obtain ⟨r, ws, outcome, does⟩ := call_outcome reliable vol here (.inl whole)
    obtain ⟨x, m', ran, effect, rfl⟩ := does
    obtain ⟨rs, vs, trace, ⟨y, m'', ran', effect', rfl⟩⟩ := ih later (m := m') (effect.disk ▸ outcome.volume vol)
    refine ⟨x :: y, ws ++ vs, .cons outcome (effect.disk ▸ trace), x :: y, m'', ?_, effect.trans effect', rfl⟩
    exact Returns.bind ran (Returns.bind ran' (.of_all fun _ => rfl))

/-- On a well-formed volume with no lost cluster every sequence of calls ends, and
leaves a well-formed volume with no lost cluster and the same root directory chain. -/
theorem calls_lose_no_cluster {e : Env} (reliable : Reliable e) {m : Machine} (vol : Volume g (128 * g.spf) m.disk)
    (kept : NoLost g (128 * g.spf) (view g (128 * g.spf) m.disk)) {calls : List Call}
    (allowed : ∀ call ∈ calls, call.Allowed) :
    ∃ rs m', Returns (fun n => runCalls g n calls e m) (rs, m') ∧ Volume g (128 * g.spf) m'.disk ∧
      NoLost g (128 * g.spf) (view g (128 * g.spf) m'.disk) ∧
      (view g (128 * g.spf) m'.disk).fat g.rootCluster = (view g (128 * g.spf) m.disk).fat g.rootCluster := by
  obtain ⟨rs, ws, trace, ⟨x, m', ran, effect, rfl⟩⟩ := runCalls_trace rfl reliable allowed vol
  exact ⟨x, m', ran, effect.disk ▸ trace.volume vol, effect.disk ▸ trace.noLost vol kept,
    effect.disk ▸ trace.root_entry vol⟩

end

/-! ### A freshly formatted volume -/

/-- A FAT sector in which only the root directory's cluster 2 is used. -/
def sampleFat : Sector := fun i => if i.val < 8 ∨ 12 ≤ i.val then 0x00 else if i.val = 11 then 0x0F else 0xFF

def sampleDisk : Disk := fun a => if a = 20512 ∨ a = 20513 then sampleFat else fun _ => 0x00

def sampleOf (total : UInt32) : Statics := mount (sampleBpb total)

section
variable (total : UInt32) {limit : Nat} (low : 3 ≤ limit) (high : limit ≤ 128)

theorem sampleOf_spf : (sampleOf total).spf = 1 := rfl

include low high in
theorem sample_geometry : Geometry (sampleOf total) limit where
  mounted := rfl
  accepted := rfl
  copies := .inr rfl
  positive := Nat.le_refl 1
  covered := high
  root := ⟨Nat.le_refl 2, low⟩
  fits := by
    have base : fat32StartLba + (sampleOf total).fatStart = 20512 := rfl
    have copies : (sampleOf total).bpb.fatCount.toNat * (sampleOf total).spf = 2 := rfl
    have one : (sampleOf total).spc = 1 := rfl
    rw [base, copies, one]
    omega

theorem sample_fat {c : Nat} (inside : c < 128) (used : (view (sampleOf total) limit sampleDisk).fat c ≠ 0) :
    c = 2 := by
  by_contra other
  refine used ?_
  have entry : c / 128 = 0 ∧ c % 128 = c := by omega
  have zero : word32 (bytes sampleFat) (c * 4) = 0 := by
    refine word32_of_bytes (by decide) fun k small => ?_
    rw [bytes, dif_pos (by omega), sampleFat, if_pos (by simp only; omega)]
    simp [byteOf]
  have sector : sampleDisk (fatBase (sampleOf total) + 0) = sampleFat := rfl
  rw [view_fat, if_pos (by rw [sampleOf_spf]; omega), entry.1, entry.2, sector, slot, zero, Nat.zero_and]

include low high in
theorem sample_dir (k : Nat) : (view (sampleOf total) limit sampleDisk).dir (sampleOf total) k = 0x00 := by
  rw [View.dir, view_data]
  split
  · have behind := (sample_geometry total low high).clusterAddr_le (sampleOf total).rootCluster (k / 512)
    have base : fatBase (sampleOf total) = 20512 := rfl
    have copies : (sampleOf total).bpb.fatCount.toNat * (sampleOf total).spf = 2 := rfl
    rw [copies, base] at behind
    rw [sampleDisk, if_neg (by omega), bytes]
    split <;> rfl
  · rfl

include low high in
theorem sample_empty (off : Nat) :
    ¬Live ((view (sampleOf total) limit sampleDisk).dir (sampleOf total)) (sampleOf total).clusterSize off :=
  fun live => live.used (.inl (sample_dir total low high off))

include low high in
theorem sample_volume : Volume (sampleOf total) limit sampleDisk where
  geometry := sample_geometry total low high
  mirrored := by
    intro _ s inside
    have one := sampleOf_spf total
    obtain rfl : s = 0 := by omega
    rfl
  wellFormed := {
    root_used := by
      have sector : sampleDisk (fatBase (sampleOf total) + 0) = sampleFat := rfl
      have root : (sampleOf total).rootCluster = 2 := rfl
      rw [view_fat, root, if_pos (by rw [sampleOf_spf]; decide), Nat.div_eq_of_lt (by decide), sector]
      decide
    ended := fun _ _ _ k _ _ => sample_dir total low high k
    chained := fun off live => absurd live (sample_empty total low high off)
    distinct := fun off _ live => absurd live (sample_empty total low high off)
    disjoint := fun off _ _ _ owns => absurd owns.live (sample_empty total low high off)
    apart := fun off _ owns => absurd owns.live (sample_empty total low high off) }

include low high in
theorem sample_sized : Sized (sampleOf total) limit (view (sampleOf total) limit sampleDisk) :=
  fun off _ owns => absurd owns.live (sample_empty total low high off)

include high in
theorem sample_noLost : NoLost (sampleOf total) limit (view (sampleOf total) limit sampleDisk) :=
  fun _ valid used => .inl (sample_fat total (Nat.lt_of_lt_of_le valid.2 high) used)

end

/-- The volume of 126 clusters. -/
def sample : Statics := sampleOf 160

theorem sample_limit : 3 ≤ 128 * sample.spf ∧ 128 * sample.spf ≤ 128 := by decide

/-- Creating, writing and deleting a file called A. -/
def sampleCalls : List Call := [.create [0x61], .write [0x61] [1, 2, 3], .delete [0x61]]

theorem sampleCalls_allowed : ∀ call ∈ sampleCalls, call.Allowed := by
  simp [sampleCalls, Call.Allowed]

theorem calls_lose_no_cluster_sample : ∃ rs m',
    Returns (fun n => runCalls sample n sampleCalls steadyEnv ⟨sampleDisk, []⟩) (rs, m') ∧
      Volume sample (128 * sample.spf) m'.disk ∧
      NoLost sample (128 * sample.spf) (view sample (128 * sample.spf) m'.disk) ∧
      (view sample (128 * sample.spf) m'.disk).fat sample.rootCluster =
        (view sample (128 * sample.spf) sampleDisk).fat sample.rootCluster :=
  calls_lose_no_cluster (g := sample) (m := ⟨sampleDisk, []⟩) steadyEnv_reliable
    (sample_volume 160 sample_limit.1 sample_limit.2) (sample_noLost 160 sample_limit.2) sampleCalls_allowed

end ChrisOS.Fs.Fat32
