import ChrisOS.Fs.Fat32.Runs

/-! Calls that are refused, on volumes where only the files that a scan can reach
are in order: names may repeat, and anything may lie behind the end of the directory.
-/

set_option autoImplicit false

namespace ChrisOS.Fs.Fat32
open ChrisOS.Lib ChrisOS.Lib.Chains ChrisOS.Drivers.Ata

/-- The entry of a file that a scan of the root directory reaches, with the file's clusters. -/
structure Holds (g : Statics) (limit : Nat) (v : View) (off : Nat) (ks : List Nat) : Prop where
  listed : Listed (v.dir g) g.clusterSize off
  chain : FileChain limit v.fat (entryCluster (v.dir g) off) ks

/-- A volume whose files own finite chains in range, apart from each other and from
the one cluster of the root directory. -/
structure Sound (g : Statics) (limit : Nat) (d : Disk) : Prop where
  geometry : Geometry g limit
  mirrored : Mirrored g d
  single : Final ((view g limit d).fat g.rootCluster)
  chained : ∀ off, Listed ((view g limit d).dir g) g.clusterSize off → ∃ ks, Holds g limit (view g limit d) off ks
  disjoint : ∀ off off' ks ks', Holds g limit (view g limit d) off ks → Holds g limit (view g limit d) off' ks' →
    off ≠ off' → ks.Disjoint ks'
  apart : ∀ off ks, Holds g limit (view g limit d) off ks → g.rootCluster ∉ ks

theorem FreeWalk.unique {g : Statics} {d : Disk} {cluster : Nat} {ws vs : SectorWrites} (left : FreeWalk g d cluster ws)
    (right : FreeWalk g d cluster vs) : ws = vs := by
  induction left generalizing vs with
  | stop last =>
    cases right with
    | stop _ => rfl
    | link link _ => exact absurd link last
  | link link _ ih =>
    cases right with
    | stop last => exact absurd link last
    | link _ rest => rw [ih rest]

/-- The search through the root directory ends at an entry of a file. -/
theorem lookup_listed {g : Statics} {limit : Nat} (geo : Geometry g limit) {d : Disk} {fatname : FatName} {off : Nat}
    {free : Option Nat} (found : lookup g d fatname = (some off, free)) :
    Listed ((view g limit d).dir g) g.clusterSize off ∧ nameAt ((view g limit d).dir g) off = fatname := by
  rw [lookup_eq geo] at found
  exact findDirEntry_hit (clusterSize_whole g) found

section
variable {g : Statics} {limit : Nat} {d : Disk} (vol : Sound g limit d)
include vol

/-- An allocation after freeing the clusters of a file fails only if there were none. -/
theorem Sound.starved {fatname : FatName} {off : Nat} {ws : SectorWrites} (place : Places g d fatname off ws)
    (none : searchFat g (land ws d) g.spf 0 = none) : ws = [] := by
  have geo := vol.geometry
  cases place with
  | free _ => rfl
  | own found walk =>
    have listed := (lookup_listed geo found).1
    obtain ⟨ks, holds⟩ := vol.chained off listed
    rw [(rootBytes_entry geo d listed.live.slot).entryCluster] at walk
    obtain rfl := walk.unique (holds.chain.walk geo d)
    cases ks with
    | nil => rfl
    | cons c ks =>
      -- the first cluster of the file is free now
      have freed := (stage_free geo holds.chain.members d).lands
      have zero : (view g limit (land (freeWrites g d (c :: ks)) d)).fat c = 0 := by
        rw [freed, View.freed_eq_zero]
        exact .inr (.head ks)
      obtain ⟨taken, -, -, some⟩ := searchFat_takes geo _ ⟨c, holds.chain.members c (.head ks), zero⟩
      cases none.symm.trans some

theorem Sound.refused {call : Call} {ws : SectorWrites} (acts : Acts g d call 0 ws) : ws = [] := by
  cases acts with
  | taken _ => rfl
  | noRoom _ => rfl
  | missing _ => rfl
  | large _ => rfl
  | noPlace _ _ => rfl
  | writes _ place stores =>
    cases stores with
    | full _ none => rw [vol.starved place none, List.append_nil]

end

/-- A call that returns 0 writes nothing. -/
theorem refused_call_leaves_disk {g : Statics} {limit : Nat} {e : Env} (reliable : Reliable e) {m : Machine}
    (vol : Sound g limit m.disk) (call : Call) :
    ∃ r m', Returns (fun n => call.run g n e m) (r, m') ∧
      (r = 0 → m'.disk = m.disk ∧ writesOf m'.log = writesOf m.log) := by
  have mounted := vol.geometry.mounted
  obtain ⟨r, ws, acts⟩ := acts_exists g.bpb m.disk call
  rw [← mounted] at acts
  obtain ⟨x, m', ran, effect, rfl⟩ := call_does reliable acts
  refine ⟨x, m', ran, fun zero => ?_⟩
  subst zero
  obtain rfl := vol.refused acts
  exact ⟨effect.disk, by rw [effect.log, List.append_nil]⟩

theorem sample_sound : Sound sample (128 * sample.spf) sampleDisk where
  geometry := sample_geometry 160 sample_limit.1 sample_limit.2
  mirrored := (sample_volume 160 sample_limit.1 sample_limit.2).mirrored
  single := by
    have sector : sampleDisk (fatBase sample + 0) = sampleFat := rfl
    have root : sample.rootCluster = 2 := rfl
    rw [view_fat, root, if_pos (by decide), Nat.div_eq_of_lt (by decide), sector]
    exact (by decide : (0x0FFFFFF8 : Nat) ≤ slot sampleFat (2 % 128))
  chained off listed := absurd listed.live (sample_empty 160 sample_limit.1 sample_limit.2 off)
  disjoint off _ _ _ holds := absurd holds.listed.live (sample_empty 160 sample_limit.1 sample_limit.2 off)
  apart off _ holds := absurd holds.listed.live (sample_empty 160 sample_limit.1 sample_limit.2 off)

theorem refused_call_leaves_disk_sample :
    ∃ r m', Returns (fun n => (Call.delete [0x61]).run sample n steadyEnv ⟨sampleDisk, []⟩) (r, m') ∧
      (r = 0 → m'.disk = sampleDisk ∧ writesOf m'.log = writesOf []) :=
  refused_call_leaves_disk (m := ⟨sampleDisk, []⟩) steadyEnv_reliable sample_sound (.delete [0x61])

end ChrisOS.Fs.Fat32
