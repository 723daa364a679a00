import ChrisOS.Fs.Fat32.Runs

/-! The files of a volume as a map from names to bytes, and the driver as a
refinement of operations on that map.
-/

set_option autoImplicit false

namespace ChrisOS.Fs.Fat32
open ChrisOS.Lib ChrisOS.Lib.Chains ChrisOS.Drivers.Ata

abbrev Files := FatName → Option (List UInt8)

section
variable {g : Statics} {limit : Nat} {v : View}

theorem FileAt.unique (wf : WellFormed g limit v) (apart : ∀ c, Valid limit c → ¬Final c) {off off' : Nat}
    {ks ks' : List Nat} {fatname : FatName} {bytes bytes' : List UInt8} (left : FileAt g limit v off ks fatname bytes)
    (right : FileAt g limit v off' ks' fatname bytes') : off = off' ∧ ks = ks' ∧ bytes = bytes' := by
  have here : off = off' := wf.distinct off off' left.owns.live right.owns.live (left.named.trans right.named.symm)
  subst here
  have chains : ks = ks' := left.owns.chain.unique apart right.owns.chain
  subst chains
  exact ⟨rfl, rfl, left.holds.trans right.holds.symm⟩

open Classical in
/-- What each name stands for. -/
noncomputable def filesOf (g : Statics) (limit : Nat) (v : View) : Files := fun fatname =>
  if file : ∃ bytes off ks, FileAt g limit v off ks fatname bytes then some file.choose else none

theorem filesOf_eq_some (wf : WellFormed g limit v) (apart : ∀ c, Valid limit c → ¬Final c) {fatname : FatName}
    {bytes : List UInt8} :
    filesOf g limit v fatname = some bytes ↔ ∃ off ks, FileAt g limit v off ks fatname bytes := by
  unfold filesOf
  constructor
  · intro found
    split at found
    · rename_i file
      cases found
      exact file.choose_spec
    · cases found
  · rintro ⟨off, ks, file⟩
    have some : ∃ bytes off ks, FileAt g limit v off ks fatname bytes := ⟨bytes, off, ks, file⟩
    rw [dif_pos some]
    obtain ⟨off', ks', chosen⟩ := some.choose_spec
    rw [(chosen.unique wf apart file).2.2]

theorem filesOf_eq_none (wf : WellFormed g limit v) {fatname : FatName} :
    filesOf g limit v fatname = none ↔ Absent g v fatname := by
  unfold filesOf
  constructor
  · intro missing off live named
    split at missing
    · cases missing
    · rename_i none
      obtain ⟨ks, owns⟩ := wf.chained off live
      exact none ⟨_, off, ks, owns, named, rfl⟩
  · intro absent
    rw [dif_neg]
    rintro ⟨bytes, off, ks, file⟩
    exact absent off file.owns.live file.named

end

/-! ### Served calls update the map -/

section
variable {g : Statics} {limit : Nat} (geo : Geometry g limit) {v v' : View} {call : Call} {off : Nat}
  {old new : List Nat} (step : Served g limit v v' call off old new) (wf : WellFormed g limit v)
include geo step wf

/-- The bytes of the other files stay where they were. -/
theorem Served.contents_other {o : Nat} {ks : List Nat} (owns : Owns g limit v o ks) (other : o ≠ off) (size : Nat) :
    contents g v' ks size = contents g v ks size := by
  have kept : ∀ c, c ∈ ks ∨ c = 0 → v'.data c = v.data c := by
    rintro c (member | rfl)
    · exact step.rewrites.replaces.data_other wf.orderly owns other c member
    · refine step.rewrites.data 0 (fun member => absurd (step.rewrites.fresh 0 member).1.1 (by decide)) ?_
      have := geo.root.1
      omega
  refine List.map_congr_left fun i _ => ?_
  rw [kept]
  by_cases inside : i / g.clusterSize < ks.length
  · rw [List.getD_eq_getElem _ _ inside]
    exact .inl (List.getElem_mem inside)
  · exact .inr (List.getD_eq_default _ _ (by omega))

theorem Served.fileAt_other {o : Nat} (other : o ≠ off) (fatname : FatName) (ks : List Nat) (bytes : List UInt8) :
    FileAt g limit v' o ks fatname bytes ↔ FileAt g limit v o ks fatname bytes := by
  have owner := step.rewrites.replaces.owns_other wf.orderly geo.valid_apart other ks
  constructor
  · rintro ⟨owns, named, holds⟩
    have same := step.rewrites.replaces.sameEntry owns.live.slot other
    refine ⟨owner.mp owns, by rwa [← same.nameAt], ?_⟩
    rw [holds, same.entrySize, step.contents_other geo wf (owner.mp owns) other]
  · rintro ⟨owns, named, holds⟩
    have same := step.rewrites.replaces.sameEntry owns.live.slot other
    refine ⟨owner.mpr owns, by rwa [same.nameAt], ?_⟩
    rw [holds, same.entrySize, step.contents_other geo wf owns other]

omit geo in
/-- Before the call, only the entry it rewrote could bear its name. -/
theorem Served.named_before {o : Nat} {ks : List Nat} {fatname : FatName} {bytes : List UInt8}
    (file : FileAt g limit v o ks fatname bytes) : o = off ↔ fatname = call.fatname := by
  constructor
  · rintro rfl
    have place := step.place
    generalize call.fatname = wanted at place
    cases place with
    | own _ named => exact file.named.symm.trans named
    | free first _ => exact absurd first.unused file.owns.live.used
  · intro same
    by_contra other
    exact step.place.others wf o other file.owns.live (file.named.trans same)

/-- After the call, only the entry it rewrote can bear its name. -/
theorem Served.named_after {o : Nat} {ks : List Nat} {fatname : FatName} {bytes : List UInt8}
    (file : FileAt g limit v' o ks fatname bytes) : o = off ↔ fatname = call.fatname := by
  constructor
  · rintro rfl
    cases content : call.content with
    | none => exact absurd (.inr (step.removed content).1) file.owns.live.used
    | some stored => exact file.named.symm.trans (step.stored stored content).1.named
  · intro same
    by_contra other
    exact other ((step.named_before wf ((step.fileAt_other geo wf other fatname ks bytes).mp file)).mpr same)

theorem Served.filesOf_eq :
    filesOf g limit v' = Function.update (filesOf g limit v) call.fatname call.content := by
  have apart := geo.valid_apart
  have wf' := step.rewrites.wellFormed wf apart
  funext fatname
  refine Option.ext fun bytes => ?_
  rw [filesOf_eq_some wf' apart]
  by_cases here : fatname = call.fatname
  · subst here
    rw [Function.update_self]
    constructor
    · rintro ⟨o, ks, file⟩
      obtain rfl := (step.named_after geo wf file).mpr rfl
      cases content : call.content with
      | none => exact absurd (.inr (step.removed content).1) file.owns.live.used
      | some stored => rw [(file.unique wf' apart (step.stored stored content).1).2.2]
    · intro content
      exact ⟨off, new, (step.stored bytes content).1⟩
  · rw [Function.update_of_ne here, filesOf_eq_some wf apart]
    constructor
    · rintro ⟨o, ks, file⟩
      have other : o ≠ off := fun same => here ((step.named_after geo wf file).mp same)
      exact ⟨o, ks, (step.fileAt_other geo wf other fatname ks bytes).mp file⟩
    · rintro ⟨o, ks, file⟩
      have other : o ≠ off := fun same => here ((step.named_before wf file).mp same)
      exact ⟨o, ks, (step.fileAt_other geo wf other fatname ks bytes).mpr file⟩

theorem Served.sized (fits : Sized g limit v) : Sized g limit v' := by
  refine step.rewrites.sized wf geo.valid_apart fits fun live => ?_
  cases content : call.content with
  | none => exact absurd (.inr (step.removed content).1) live.used
  | some stored =>
    obtain ⟨-, size, small, room⟩ := step.stored stored content
    rw [size]
    exact ⟨Nat.lt_of_le_of_lt small (clusterSize_lt g), room⟩

end

/-! ### Reading -/

section
variable {g : Statics} {limit : Nat} (geo : Geometry g limit) {e : Env} (reliable : Reliable e)
include geo reliable

omit geo reliable in
theorem readFileLoop_stop {m : Machine} {cluster remaining : Nat} {buf : Buf} {off : Nat} {post : Buf → Prop}
    (last : ¬(isLink cluster ∧ remaining > 0)) (holds : post buf) :
    Does e m (fun n => readFileLoop g n cluster remaining buf off) [] post := by
  refine Does.of_succ ?_
  simp only [readFileLoop, if_neg last]
  exact Does.pure holds

/-- The read loop copies the chain's clusters one behind the other. -/
theorem readFileLoop_does {fat : Nat → Nat} {cluster : Nat} {ks : List Nat}
    (chain : Chain (Valid limit) Final fat cluster ks) {m : Machine} (same : (view g limit m.disk).fat = fat)
    {remaining : Nat} (enough : remaining ≤ ks.length * g.clusterSize) (buf : Buf) (off : Nat) :
    Does e m (fun n => readFileLoop g n cluster remaining buf off) [] fun b =>
      (∀ i, i < remaining →
        b.data (off + i) = (view g limit m.disk).data (ks.getD (i / g.clusterSize) 0) (i % g.clusterSize)) ∧
      ∀ k, k < off → b.data k = buf.data k := by
  have positive : 0 < g.clusterSize := Nat.mul_pos geo.positive (by decide)
  induction chain generalizing m remaining buf off with
  | stop final =>
    refine readFileLoop_stop (fun more => not_isLink_of_final final more.1) ⟨fun i small => ?_, fun _ _ => rfl⟩
    simp only [List.length_nil, Nat.zero_mul] at enough
    omega
  | @link c ks valid _ ih =>
    by_cases more : remaining > 0
    swap
    · exact readFileLoop_stop (fun link => more link.2) ⟨fun i small => by omega, fun _ _ => rfl⟩
    refine Does.of_succ ?_
    simp only [readFileLoop, if_pos (And.intro (geo.valid_isLink valid) more)]
    refine Does.after (readCluster_does g reliable c buf off) fun b m₁ same₁ filled => ?_
    refine Does.after (fatGet_does g reliable c) fun next m₂ same₂ value => ?_
    rw [value, same₁, rawEntry_eq geo m.disk valid.2, same]
    simp only [List.length_cons, Nat.succ_mul] at enough
    generalize chunked : (if remaining > g.clusterSize then g.clusterSize else remaining) = chunk
    have disk : m₂.disk = m.disk := same₂.trans same₁
    have rest := ih (m := m₂) (by rw [disk, same]) (show remaining - chunk ≤ ks.length * g.clusterSize by
      split at chunked <;> omega) b (off + chunk)
    refine rest.mono fun b' copied => ?_
    obtain ⟨later, earlier⟩ := copied
    refine ⟨fun i small => ?_, fun k before => ?_⟩
    · by_cases first : i < g.clusterSize
      · have inChunk : i < chunk := by
          split at chunked <;> omega
        rw [earlier _ (by omega), filled _, if_pos (by omega), Nat.add_sub_cancel_left, Nat.div_eq_of_lt first,
          Nat.mod_eq_of_lt first, List.getD_cons_zero, clusterByte_eq geo m.disk valid first]
      · have full : chunk = g.clusterSize := by
          split at chunked <;> omega
        obtain ⟨j, rfl⟩ := Nat.exists_eq_add_of_le (Nat.not_lt.mp first)
        have shifted := later j (by omega)
        rw [disk, full, Nat.add_assoc] at shifted
        rw [shifted, Nat.add_div_left j positive, Nat.add_mod_left, List.getD_cons_succ]
    · rw [earlier _ (by omega), filled _, if_neg (by omega)]

theorem readFile_chain_does {start : Nat} {ks : List Nat} {d : Disk}
    (chain : FileChain limit (view g limit d).fat start ks) {size : Nat} (enough : size ≤ ks.length * g.clusterSize)
    (buf : Buf) {m : Machine} (same : m.disk = d) :
    Does e m (fun n => readFileLoop g n start size buf 0) [] fun b => ∀ i, i < size →
      b.data i = (view g limit d).data (ks.getD (i / g.clusterSize) 0) (i % g.clusterSize) := by
  subst same
  cases chain with
  | empty =>
    simp only [List.length_nil, Nat.zero_mul] at enough
    exact readFileLoop_stop (fun more => by omega) fun i small => by omega
  | chain _ chain =>
    refine (readFileLoop_does geo reliable chain rfl enough buf 0).mono fun b copied i small => ?_
    rw [← copied.1 i small, Nat.zero_add]

end

section
variable {g : Statics} {limit : Nat} {e : Env} (reliable : Reliable e) {m : Machine} (vol : Volume g limit m.disk)
  (fits : Sized g limit (view g limit m.disk))
include reliable vol fits

/-- fat32_read_file returns the size of the file and puts its bytes in the caller's
buffer; for a name without a file it returns 0 and leaves the buffer alone. -/
theorem fat32ReadFile_does (name : List UInt8) (buf : Buf) :
    Does e m (fun n => fat32ReadFile g n name buf) [] fun r =>
      match filesOf g limit (view g limit m.disk) (nameToFat83 name) with
      | none => r.1 = 0 ∧ r.2.data = buf.data
      | some content => r.1 = content.length ∧ ∀ i (inside : i < content.length), r.2.data i = content[i] := by
  have geo := vol.geometry
  have wf := vol.wellFormed
  have found := findDirEntry_found (nameToFat83 name) wf.ended (clusterSize_whole g)
  rw [← lookup_eq geo] at found
  cases search : lookup g m.disk (nameToFat83 name) with
  | mk hit free =>
    rw [search] at found
    cases hit with
    | none =>
      have absent : Absent g (view g limit m.disk) (nameToFat83 name) := by
        cases found with
        | room absent _ => exact absent
        | full absent _ => exact absent
      rw [(filesOf_eq_none wf).mpr absent]
      refine (readFile_missing reliable (congrArg Prod.fst search) buf).mono fun r same => ?_
      subst same
      exact ⟨rfl, rfl⟩
    | some off =>
      cases found with
      | hit live named =>
        obtain ⟨ks, owns⟩ := wf.chained off live
        obtain ⟨short, room⟩ := fits off ks owns
        rw [(filesOf_eq_some wf geo.valid_apart).mpr ⟨off, ks, owns, named, rfl⟩]
        have entry := rootBytes_entry geo m.disk live.slot
        have read := readFile_found reliable (congrArg Prod.fst search) buf fun m₁ disk => by
          rw [entry.entryCluster, entry.entrySize]
          exact readFile_chain_does geo reliable owns.chain room buf disk
        refine read.mono fun r ⟨returned, copied⟩ => ⟨?_, fun i inside => ?_⟩
        · simp only [returned, entry.entrySize, contents, List.length_map, List.length_range, asInt, if_pos short]
        · simp only [contents, List.length_map, List.length_range] at inside
          simp only [contents, List.getElem_map, List.getElem_range]
          exact copied i inside

end

/-! ### The driver refines the map -/

/-- A call on a map of files, with what it returns. `largest` is the largest size a
write takes; a call fails only for want of a file, a directory entry or a cluster. -/
inductive MapStep (largest : Nat) (dirFull diskFull : Prop) (files : Files) : Call → Nat → Files → Prop where
  | created {name : List UInt8} : files (nameToFat83 name) = none →
      MapStep largest dirFull diskFull files (.create name) 1 (Function.update files (nameToFat83 name) (some []))
  | notCreated {name : List UInt8} : files (nameToFat83 name) ≠ none ∨ dirFull →
      MapStep largest dirFull diskFull files (.create name) 0 files
  | written {name data : List UInt8} : data.length ≤ largest →
      MapStep largest dirFull diskFull files (.write name data) 1 (Function.update files (nameToFat83 name) (some data))
  | notWritten {name data : List UInt8} :
      largest < data.length ∨ (files (nameToFat83 name) = none ∧ dirFull) ∨ (data ≠ [] ∧ diskFull) →
      MapStep largest dirFull diskFull files (.write name data) 0 files
  | deleted {name : List UInt8} : files (nameToFat83 name) ≠ none →
      MapStep largest dirFull diskFull files (.delete name) 1 (Function.update files (nameToFat83 name) none)
  | notDeleted {name : List UInt8} : files (nameToFat83 name) = none →
      MapStep largest dirFull diskFull files (.delete name) 0 files

/-- Calls on the maps that successive disks stand for. -/
inductive MapRun (g : Statics) (limit : Nat) : Disk → List Call → List Nat → Disk → Prop where
  | nil {d : Disk} : MapRun g limit d [] [] d
  | cons {d d' d'' : Disk} {call : Call} {calls : List Call} {r : Nat} {rs : List Nat} :
      MapStep g.clusterSize (DirFull g (view g limit d)) (DiskFull limit (view g limit d))
        (filesOf g limit (view g limit d)) call r (filesOf g limit (view g limit d')) →
      MapRun g limit d' calls rs d'' → MapRun g limit d (call :: calls) (r :: rs) d''

section
variable {g : Statics} {limit : Nat} {d : Disk}

theorem Outcome.sized (vol : Volume g limit d) (fits : Sized g limit (view g limit d)) {call : Call} {r : Nat}
    {ws : SectorWrites} (outcome : Outcome g limit d call r ws) : Sized g limit (view g limit (land ws d)) := by
  cases outcome with
  | refused _ => exact fits
  | served step stage =>
    rw [stage.lands]
    exact step.sized vol.geometry vol.wellFormed fits

theorem Outcome.mapStep (vol : Volume g limit d) {call : Call} {r : Nat} {ws : SectorWrites}
    (outcome : Outcome g limit d call r ws) :
    MapStep g.clusterSize (DirFull g (view g limit d)) (DiskFull limit (view g limit d))
      (filesOf g limit (view g limit d)) call r (filesOf g limit (view g limit (land ws d))) := by
  have wf := vol.wellFormed
  cases outcome with
  | refused reason =>
    cases call with
    | create name =>
      refine .notCreated (reason.imp_left fun present missing => present ?_)
      exact (filesOf_eq_none wf).mp missing
    | write name data =>
      refine .notWritten (reason.imp_right fun cause => cause.imp ?_ ?_)
      · exact fun ⟨absent, full⟩ => ⟨(filesOf_eq_none wf).mpr absent, full⟩
      · exact fun ⟨nonempty, full, _⟩ => ⟨nonempty, full⟩
    | delete name => exact .notDeleted ((filesOf_eq_none wf).mpr reason)
  | @served v' off old new _ step stage =>
    rw [stage.lands, step.filesOf_eq vol.geometry wf]
    cases call with
    | create name => exact .created ((filesOf_eq_none wf).mpr (step.created name rfl))
    | write name data =>
      obtain ⟨-, -, small, -⟩ := step.stored data rfl
      exact .written small
    | delete name =>
      obtain ⟨-, owns, named⟩ := step.removed rfl
      exact .deleted fun missing => (filesOf_eq_none wf).mp missing off owns.live named

theorem Trace.sized {calls : List Call} {rs : List Nat} {ws : SectorWrites} (trace : Trace g limit d calls rs ws)
    (vol : Volume g limit d) (fits : Sized g limit (view g limit d)) : Sized g limit (view g limit (land ws d)) := by
  induction trace with
  | nil => exact fits
  | cons outcome _ ih =>
    rw [land_append]
    exact ih (outcome.volume vol) (outcome.sized vol fits)

theorem Trace.mapRun {calls : List Call} {rs : List Nat} {ws : SectorWrites} (trace : Trace g limit d calls rs ws)
    (vol : Volume g limit d) : MapRun g limit d calls rs (land ws d) := by
  induction trace with
  | nil => exact .nil
  | cons outcome _ ih =>
    rw [land_append]
    exact .cons (outcome.mapStep vol) (ih (outcome.volume vol))

end

/-- Reading a name returns the size of its file and puts its bytes in the caller's
buffer, or returns 0 and leaves the buffer alone; the disk keeps every byte. -/
def ReadsBack (g : Statics) (limit : Nat) (e : Env) (m : Machine) (name : List UInt8) (buf : Buf) : Prop :=
  ∃ size buf' m', Returns (fun n => fat32ReadFile g n name buf e m) ((size, buf'), m') ∧ m'.disk = m.disk ∧
    match filesOf g limit (view g limit m.disk) (nameToFat83 name) with
    | none => size = 0 ∧ buf'.data = buf.data
    | some content => size = content.length ∧ ∀ i (inside : i < content.length), buf'.data i = content[i]

/-- On a well-formed volume every sequence of calls ends, acts on the map of files
as the operations on the map do, and leaves a well-formed volume on which reading
any name gives what the map has under it. -/
theorem calls_refine_map {g : Statics} {e : Env} (reliable : Reliable e) {m : Machine}
    (vol : Volume g (128 * g.spf) m.disk) (fits : Sized g (128 * g.spf) (view g (128 * g.spf) m.disk))
    {calls : List Call} (allowed : ∀ call ∈ calls, call.Allowed) :
    ∃ rs m', Returns (fun n => runCalls g n calls e m) (rs, m') ∧ MapRun g (128 * g.spf) m.disk calls rs m'.disk ∧
      Volume g (128 * g.spf) m'.disk ∧ Sized g (128 * g.spf) (view g (128 * g.spf) m'.disk) ∧
      ∀ name buf, ReadsBack g (128 * g.spf) e m' name buf := by
  obtain ⟨rs, ws, trace, ⟨x, m', ran, effect, rfl⟩⟩ := runCalls_trace rfl reliable allowed vol
  have vol' : Volume g (128 * g.spf) m'.disk := effect.disk ▸ trace.volume vol
  have fits' : Sized g (128 * g.spf) (view g (128 * g.spf) m'.disk) := effect.disk ▸ trace.sized vol fits
  refine ⟨x, m', ran, effect.disk ▸ trace.mapRun vol, vol', fits', fun name buf => ?_⟩
  obtain ⟨⟨size, buf'⟩, m'', read, quiet, copied⟩ := fat32ReadFile_does reliable vol' fits' name buf
  exact ⟨size, buf', m'', read, quiet.disk, copied⟩

theorem calls_refine_map_sample : ∃ rs m',
    Returns (fun n => runCalls sample n sampleCalls steadyEnv ⟨sampleDisk, []⟩) (rs, m') ∧
      MapRun sample (128 * sample.spf) sampleDisk sampleCalls rs m'.disk ∧ Volume sample (128 * sample.spf) m'.disk ∧
      Sized sample (128 * sample.spf) (view sample (128 * sample.spf) m'.disk) ∧
      ∀ name buf, ReadsBack sample (128 * sample.spf) steadyEnv m' name buf :=
  calls_refine_map (g := sample) (m := ⟨sampleDisk, []⟩) steadyEnv_reliable
    (sample_volume 160 sample_limit.1 sample_limit.2) (sample_sized 160 sample_limit.1 sample_limit.2)
    sampleCalls_allowed

end ChrisOS.Fs.Fat32
