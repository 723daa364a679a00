import ChrisOS.Fs.Fat32.Files

/-! The volumes that a stop in the middle of a call leaves on disk.

The driver frees a file's chain before it rewrites the file's entry, so the named
file can be left with an entry that leads to a free cluster. No other file can.
-/

set_option autoImplicit false

namespace ChrisOS.Fs.Fat32
open ChrisOS.Lib ChrisOS.Lib.Chains ChrisOS.Drivers.Ata

/-- The entry at an offset is live and its chain reaches a cluster marked free. -/
def Exposed (g : Statics) (limit : Nat) (v : View) (off : Nat) : Prop :=
  Live (v.dir g) g.clusterSize off ∧
    ∃ c, Reaches (Valid limit) v.fat (entryCluster (v.dir g) off) c ∧ v.fat c = 0

theorem FileChain.reaches_iff {limit start target : Nat} {fat : Nat → Nat} {ks : List Nat}
    (apart : ∀ c, Valid limit c → ¬Final c) (chain : FileChain limit fat start ks) :
    Reaches (Valid limit) fat start target ↔ target ∈ ks := by
  cases chain with
  | empty =>
    refine ⟨fun reached => ?_, fun member => absurd member List.not_mem_nil⟩
    cases reached with
    | here valid => exact absurd valid.1 (by decide)
    | step valid _ => exact absurd valid.1 (by decide)
  | chain _ chain => exact chain.reaches_iff apart

section
variable {g : Statics} {limit : Nat} {v : View}

/-- A file whose entry and links are intact leads to no free cluster. -/
theorem Owns.not_exposed (apart : ∀ c, Valid limit c → ¬Final c) {off : Nat} {ks : List Nat}
    (owns : Owns g limit v off ks) : ¬Exposed g limit v off := by
  rintro ⟨-, c, reached, free⟩
  exact owns.chain.used c ((owns.chain.reaches_iff apart).mp reached) free

theorem WellFormed.not_exposed (wf : WellFormed g limit v) (apart : ∀ c, Valid limit c → ¬Final c) (off : Nat) :
    ¬Exposed g limit v off := by
  intro exposed
  obtain ⟨ks, owns⟩ := wf.chained off exposed.1
  exact owns.not_exposed apart exposed

/-- A volume between two writes exposes nothing but the entry being rewritten, and
that only if the entry owned a cluster. -/
theorem Served.exposed_between {v' u : View} {call : Call} {off : Nat} {old new : List Nat}
    (step : Served g limit v v' call off old new) (wf : WellFormed g limit v) (apart : ∀ c, Valid limit c → ¬Final c)
    (between : Between g v v' old new u) {o : Nat} (exposed : Exposed g limit u o) :
    o = off ∧ old ≠ [] ∧ Owns g limit v off old := by
  rcases between with rfl | ⟨dir, fat⟩
  · exact absurd exposed ((step.rewrites.wellFormed wf apart).not_exposed apart o)
  have live : Live (v.dir g) g.clusterSize o := dir ▸ exposed.1
  obtain ⟨ks, owns⟩ := wf.chained o live
  -- a chain whose links are all as before
  have intact (same : ∀ c ∈ ks, u.fat c = v.fat c) : Owns g limit u o ks :=
    ⟨exposed.1, by rw [dir]; exact owns.chain.congr same⟩
  have here : o = off := by
    by_contra other
    refine (intact fun c member => ?_).not_exposed apart exposed
    obtain ⟨notNew, notOld⟩ := step.rewrites.replaces.untouched wf.orderly owns other c member
    exact fat c notOld notNew
  subst here
  have held : Owns g limit v o old := step.rewrites.held.resolve_right fun unused => live.used unused.1
  refine ⟨rfl, fun empty => ?_, held⟩
  have none : ks = [] := (owns.chain.unique apart held.chain).trans empty
  subst none
  exact (intact fun c member => absurd member List.not_mem_nil).not_exposed apart exposed

end

/-- A stop after any of the writes of a call exposes at most the file the call names,
and that only if the call writes or deletes a file that owned a cluster, and stops
after the first and before the last of its writes. -/
theorem stop_exposes_named_file {g : Statics} {e : Env} (reliable : Reliable e) {m : Machine}
    (vol : Volume g (128 * g.spf) m.disk) {call : Call} (allowed : call.Allowed) :
    ∃ r m' ws, Returns (fun n => call.run g n e m) (r, m') ∧ writesOf m'.log = writesOf m.log ++ ws ∧
      m'.disk = land ws m.disk ∧
      ∀ done, done <+: ws → ∀ off, Exposed g (128 * g.spf) (view g (128 * g.spf) (land done m.disk)) off →
        (∃ c ks, Owns g (128 * g.spf) (view g (128 * g.spf) m.disk) off (c :: ks)) ∧
        nameAt ((view g (128 * g.spf) m.disk).dir g) off = call.fatname ∧
        (∀ name, call ≠ .create name) ∧ done ≠ [] ∧ done ≠ ws := by
  have apart := vol.geometry.valid_apart
  have wf := vol.wellFormed
  obtain ⟨r, ws, outcome, ⟨x, m', ran, effect, rfl⟩⟩ := call_outcome reliable vol allowed (.inl rfl)
  refine ⟨x, m', ws, ran, effect.log, effect.disk, fun done isPrefix off exposed => ?_⟩
  have ends : done ≠ [] ∧ done ≠ ws := by
    constructor
    · rintro rfl
      exact wf.not_exposed apart off exposed
    · rintro rfl
      exact (outcome.volume vol).wellFormed.not_exposed apart off exposed
  cases outcome with
  | refused _ => exact absurd (List.prefix_nil.mp isPrefix) ends.1
  | @served v' o old new _ step stage =>
    obtain ⟨rfl, owned, held⟩ := step.exposed_between wf apart (stage.along.stop isPrefix) exposed
    obtain ⟨c, ks, rfl⟩ := List.exists_cons_of_ne_nil owned
    have named : nameAt ((view g (128 * g.spf) m.disk).dir g) off = call.fatname :=
      (step.named_before wf ⟨held, rfl, rfl⟩).mp rfl
    refine ⟨⟨c, ks, held⟩, named, ?_, ends⟩
    rintro name rfl
    exact step.created name rfl off held.live named

/-! ### A volume with a file -/

/-- A write of one byte to the formatted volume is served. -/
theorem sample_file : ∃ d off c ks, Volume sample (128 * sample.spf) d ∧
    Sized sample (128 * sample.spf) (view sample (128 * sample.spf) d) ∧
    Owns sample (128 * sample.spf) (view sample (128 * sample.spf) d) off (c :: ks) ∧
    nameAt ((view sample (128 * sample.spf) d).dir sample) off = nameToFat83 [0x61] := by
  have allowed : (Call.write [0x61] [1]).Allowed := by simp [Call.Allowed]
  have formatted : Volume sample (128 * sample.spf) sampleDisk := sample_volume 160 sample_limit.1 sample_limit.2
  obtain ⟨r, ws, outcome, -⟩ := call_outcome (m := ⟨sampleDisk, []⟩) steadyEnv_reliable formatted allowed (.inl rfl)
  have vol := outcome.volume formatted
  have fits := outcome.sized formatted (sample_sized 160 sample_limit.1 sample_limit.2)
  cases outcome with
  | refused reason =>
    exfalso
    rcases reason with large | ⟨-, full⟩ | ⟨-, full, -⟩
    · exact absurd large (by decide)
    · exact full 0 ⟨rfl, by decide⟩ (.inl (sample_dir 160 sample_limit.1 sample_limit.2 0))
    · have valid : Valid (128 * sample.spf) 3 := ⟨by decide, by decide⟩
      refine full 3 valid ?_
      by_contra used
      exact absurd (sample_fat 160 (by decide) used) (by decide)
  | @served v' off old new ws step stage =>
    obtain ⟨file, -, -, room⟩ := step.stored [1] rfl
    obtain ⟨c, ks, rfl⟩ : ∃ c ks, new = c :: ks := by
      refine List.exists_cons_of_ne_nil fun none => ?_
      rw [none] at room
      exact absurd room (by decide)
    rw [← stage.lands] at file
    exact ⟨land ws sampleDisk, off, c, ks, vol, fits, file.owns, file.named⟩

theorem FileChain.head {limit start c : Nat} {fat : Nat → Nat} {ks : List Nat}
    (chain : FileChain limit fat start (c :: ks)) : start = c := by
  cases chain with
  | chain _ chain =>
    cases chain with
    | link => rfl

/-- Deleting a file that owns a cluster exposes it once its first entry is cleared. -/
theorem delete_exposes {g : Statics} {limit : Nat} {d : Disk} (geo : Geometry g limit) {off c : Nat} {ks : List Nat}
    (owns : Owns g limit (view g limit d) off (c :: ks)) :
    setWrites g d c 0 <+: freeWrites g d (c :: ks) ∧
      Exposed g limit (view g limit (land (setWrites g d c 0) d)) off := by
  have valid := owns.chain.members c (List.mem_cons_self ..)
  have cleared := (stage_set geo d valid.2 0).lands
  rw [Nat.zero_and] at cleared
  refine ⟨List.prefix_append _ _, ?_⟩
  rw [cleared]
  refine ⟨owns.live, c, ?_, Function.update_self _ _ _⟩
  have start : entryCluster (((view g limit d).setFat c 0).dir g) off = c := owns.chain.head
  rw [start]
  exact .here valid

/-- Not every stop leaves a volume without exposed files. -/
theorem not_every_stop_safe : ¬∀ (g : Statics) (e : Env) (m m' : Machine) (call : Call) (r : Nat)
    (ws done : SectorWrites), Reliable e → Volume g (128 * g.spf) m.disk →
    Sized g (128 * g.spf) (view g (128 * g.spf) m.disk) → call.Allowed →
    Returns (fun n => call.run g n e m) (r, m') → writesOf m'.log = writesOf m.log ++ ws → done <+: ws →
    ∀ off, ¬Exposed g (128 * g.spf) (view g (128 * g.spf) (land done m.disk)) off := by
  intro safe
  obtain ⟨d, off, c, ks, vol, fits, owns, named⟩ := sample_file
  obtain ⟨r, m', ran, effect, -⟩ := call_does (m := ⟨d, []⟩) steadyEnv_reliable (delete_found vol owns named)
  obtain ⟨isPrefix, exposed⟩ := delete_exposes vol.geometry owns
  exact safe sample steadyEnv ⟨d, []⟩ m' (.delete [0x61]) r _ _ steadyEnv_reliable vol fits
    (by simp [Call.Allowed]) ran effect.log (isPrefix.trans (List.prefix_append _ _)) off exposed

theorem stop_exposes_named_file_sample : ∃ r m' ws,
    Returns (fun n => (Call.create [0x61]).run sample n steadyEnv ⟨sampleDisk, []⟩) (r, m') ∧
      writesOf m'.log = writesOf [] ++ ws ∧ m'.disk = land ws sampleDisk ∧
      ∀ done, done <+: ws → ∀ off,
        Exposed sample (128 * sample.spf) (view sample (128 * sample.spf) (land done sampleDisk)) off →
        (∃ c ks, Owns sample (128 * sample.spf) (view sample (128 * sample.spf) sampleDisk) off (c :: ks)) ∧
        nameAt ((view sample (128 * sample.spf) sampleDisk).dir sample) off = nameToFat83 [0x61] ∧
        (∀ name, Call.create [0x61] ≠ .create name) ∧ done ≠ [] ∧ done ≠ ws :=
  stop_exposes_named_file (g := sample) (m := ⟨sampleDisk, []⟩) steadyEnv_reliable
    (sample_volume 160 sample_limit.1 sample_limit.2) (sampleCalls_allowed _ (by simp [sampleCalls]))

end ChrisOS.Fs.Fat32
