import ChrisOS.Fs.Fat32.Orderly
import ChrisOS.Fs.Fat32.Reads
import ChrisOS.Fs.Fat32.Unmounted

/-! Entries of directories and volume labels among the files of the root directory. The
search by name passes over the pieces of long names only, so a call that names a
directory or a label treats it as a file.
-/

set_option autoImplicit false

namespace ChrisOS.Fs.Fat32
open ChrisOS.Lib ChrisOS.Lib.Chains ChrisOS.Drivers.Ata

def IsDirectory (f : Nat → UInt8) (off : Nat) : Prop := f (off + 11) &&& 0x10 ≠ 0

def IsLabel (f : Nat → UInt8) (off : Nat) : Prop := f (off + 11) &&& 0x08 ≠ 0

/-- The entry of a directory or of the volume's label. -/
structure NonFile (f : Nat → UInt8) (size off : Nat) : Prop where
  live : Live f size off
  kind : IsDirectory f off ∨ IsLabel f off

/-- The entry at an offset and the clusters it has are as they were. -/
structure Intact (g : Statics) (v v' : View) (off : Nat) (ks : List Nat) : Prop where
  entry : SameEntry (v'.dir g) (v.dir g) off
  chain : ∀ c ∈ ks, v'.fat c = v.fat c
  contents : ∀ c ∈ ks, v'.data c = v.data c

section
variable (g : Statics) (limit : Nat)

/-- Every directory and label is as it was. -/
def Kept (v v' : View) : Prop :=
  ∀ off ks, NonFile (v.dir g) g.clusterSize off → Owns g limit v off ks → Intact g v v' off ks

/-- The call does not name a directory or label, as the driver searches, or the driver
declines it anyway. -/
def Spares (d : Disk) (call : Call) : Prop :=
  ∀ off, (lookup g d call.fatname).1 = some off → NonFile ((view g limit d).dir g) g.clusterSize off → Declined g d call

/-- No sector of a directory was read into the buffer. -/
def Discreet (d : Disk) (b : Buf) : Prop :=
  ∀ off ks, IsDirectory ((view g limit d).dir g) off → Owns g limit (view g limit d) off ks →
    ∀ c ∈ ks, ∀ i, i < g.spc → ∀ k lba, b.filled k = some lba → lba28 lba ≠ clusterAddr g c i

/-- If the name is a directory's, as the driver searches, its entry has size 0 or no cluster. -/
def Withheld (d : Disk) (fatname : FatName) : Prop :=
  ∀ off, (lookup g d fatname).1 = some off → IsDirectory ((view g limit d).dir g) off →
    entrySize ((view g limit d).dir g) off = 0 ∨ entryCluster ((view g limit d).dir g) off = 0

end

/-- A sequence of calls leaves the machine so. -/
def Leaves (g : Statics) (e : Env) (m : Machine) (calls : List Call) (m' : Machine) : Prop :=
  ∃ rs, Returns (fun n => runCalls g n calls e m) (rs, m')

/-! ### One call -/

theorem not_nonFile_of_file {f : Nat → UInt8} {off : Nat} (file : f (off + 11) = 0x20) : ¬(IsDirectory f off ∨ IsLabel f off) := by
  rw [IsDirectory, IsLabel, file]
  decide

theorem SameEntry.kind {f h : Nat → UInt8} {off : Nat} (same : SameEntry f h off) :
    (IsDirectory f off ∨ IsLabel f off) ↔ IsDirectory h off ∨ IsLabel h off := by
  rw [IsDirectory, IsLabel, IsDirectory, IsLabel, same 11 (by decide)]

theorem SameEntry.nonFile {f h : Nat → UInt8} {off : Nat} (same : SameEntry f h off) (size : Nat) :
    NonFile f size off ↔ NonFile h size off := by
  constructor
  · exact fun ⟨live, kind⟩ => ⟨(same.live size).mp live, same.kind.mp kind⟩
  · exact fun ⟨live, kind⟩ => ⟨(same.live size).mpr live, same.kind.mpr kind⟩

theorem Intact.owns {g : Statics} {limit : Nat} {v v' : View} {off : Nat} {ks : List Nat} (intact : Intact g v v' off ks)
    (owns : Owns g limit v off ks) : Owns g limit v' off ks := by
  refine ⟨(intact.entry.live _).mpr owns.live, ?_⟩
  rw [intact.entry.entryCluster]
  exact owns.chain.congr intact.chain

theorem Kept.refl (g : Statics) (limit : Nat) (v : View) : Kept g limit v v :=
  fun _ _ _ _ => ⟨fun _ _ => rfl, fun _ _ => rfl, fun _ _ => rfl⟩

theorem Kept.trans {g : Statics} {limit : Nat} {v v' v'' : View} (first : Kept g limit v v')
    (second : Kept g limit v' v'') : Kept g limit v v'' := by
  intro off ks nonFile owns
  have intact := first off ks nonFile owns
  have intact' := second off ks ((intact.entry.nonFile _).mpr nonFile) (intact.owns owns)
  constructor
  case entry => exact fun k small => (intact'.entry k small).trans (intact.entry k small)
  case chain => exact fun c member => (intact'.chain c member).trans (intact.chain c member)
  case contents => exact fun c member => (intact'.contents c member).trans (intact.contents c member)

section
variable {g : Statics} (geo : Geometry g (128 * g.spf)) {d : Disk}
  (wf : Orderly g (128 * g.spf) (view g (128 * g.spf) d)) {call : Call} {r : Nat} {ws : SectorWrites}
include geo

omit geo in
/-- The entry a call altered is neither a directory's nor a label's afterwards. -/
theorem Alters.not_nonFile {limit off : Nat} {old new : List Nat} (alters : Alters g limit d call ws off old new) :
    ¬NonFile ((view g limit (land ws d)).dir g) g.clusterSize off := by
  intro nonFile
  by_cases marked : call.content = none
  · exact nonFile.live.used (.inr (alters.removed marked))
  · exact not_nonFile_of_file (alters.stored marked).2 nonFile.kind

include wf

omit geo in
theorem Alters.kept {off : Nat} {old new : List Nat} (alters : Alters g (128 * g.spf) d call ws off old new)
    (other : ¬NonFile ((view g (128 * g.spf) d).dir g) g.clusterSize off) :
    Kept g (128 * g.spf) (view g (128 * g.spf) d) (view g (128 * g.spf) (land ws d)) := by
  intro o ks nonFile owns
  have apart : o ≠ off := fun same => other (same ▸ nonFile)
  exact ⟨alters.replaces.sameEntry owns.live.slot apart, alters.replaces.fat_other wf owns apart,
    alters.replaces.data_other wf owns apart⟩

/-- The step: a call keeps the directories and labels exactly if it spares them. -/
theorem Acts.kept_iff (acts : Acts g d call r ws) :
    Kept g (128 * g.spf) (view g (128 * g.spf) d) (view g (128 * g.spf) (land ws d)) ↔ Spares g (128 * g.spf) d call := by
  rcases acts.alters geo wf with idle | ⟨one, off, old, new, alters⟩
  · have declined := acts.idle_iff.mp idle
    obtain ⟨-, rfl⟩ := idle
    exact iff_of_true (Kept.refl g _ _) fun _ _ _ => declined
  · have acted : ¬Declined g d call := fun declined => by
      have zero := (acts.idle_iff.mpr declined).1
      omega
    constructor
    · intro kept o hit nonFile
      exfalso
      obtain rfl : off = o := by
        rcases alters.found with found | found
        · exact Option.some.inj (found.symm.trans hit)
        · rw [found] at hit
          cases hit
      obtain ⟨ks, owns⟩ := wf.chained off nonFile.live
      have intact := kept off ks nonFile owns
      exact alters.not_nonFile ((intact.entry.nonFile _).mpr nonFile)
    · intro spares
      refine alters.kept wf fun nonFile => ?_
      rcases alters.found with found | found
      · exact acted (spares off found nonFile)
      · rw [lookup_eq geo] at found
        exact nonFile.live.used (findDirEntry_room (clusterSize_whole g) found).unused

/-- No call makes a directory or label, or gives one clusters. -/
theorem Acts.nonFile_back (acts : Acts g d call r ws) {off : Nat}
    (nonFile : NonFile ((view g (128 * g.spf) (land ws d)).dir g) g.clusterSize off) :
    NonFile ((view g (128 * g.spf) d).dir g) g.clusterSize off ∧ ∀ ks,
      Owns g (128 * g.spf) (view g (128 * g.spf) (land ws d)) off ks → Owns g (128 * g.spf) (view g (128 * g.spf) d) off ks := by
  rcases acts.alters geo wf with ⟨-, rfl⟩ | ⟨-, o, old, new, alters⟩
  · exact ⟨nonFile, fun _ owns => owns⟩
  · have other : off ≠ o := by
      rintro rfl
      exact alters.not_nonFile nonFile
    have same := alters.replaces.sameEntry nonFile.live.slot other
    exact ⟨(same.nonFile _).mp nonFile, fun ks owns => (alters.replaces.owns_other wf geo.valid_apart other ks).mp owns⟩

/-- Of a run that keeps the directories and labels, the rest keeps them too. -/
theorem Acts.kept_rest (acts : Acts g d call r ws)
    (first : Kept g (128 * g.spf) (view g (128 * g.spf) d) (view g (128 * g.spf) (land ws d))) {v : View} :
    Kept g (128 * g.spf) (view g (128 * g.spf) d) v ↔ Kept g (128 * g.spf) (view g (128 * g.spf) (land ws d)) v := by
  refine ⟨fun whole off ks nonFile owns => ?_, first.trans⟩
  obtain ⟨before, held⟩ := acts.nonFile_back geo wf nonFile
  have intact := first off ks before (held ks owns)
  have intact' := whole off ks before (held ks owns)
  constructor
  case entry => exact fun k small => (intact'.entry k small).trans (intact.entry k small).symm
  case chain => exact fun c member => (intact'.chain c member).trans (intact.chain c member).symm
  case contents => exact fun c member => (intact'.contents c member).trans (intact.contents c member).symm

end

/-! ### Runs -/

section
variable {g : Statics} {limit : Nat} (geo : Geometry g limit) {e : Env} (reliable : Reliable e)
include geo reliable

theorem call_acts (m : Machine) (call : Call) : ∃ r ws m', Acts g m.disk call r ws ∧
    Returns (fun n => call.run g n e m) (r, m') ∧ m'.disk = land ws m.disk := by
  obtain ⟨r, ws, acts⟩ := acts_exists g.bpb m.disk call
  rw [← geo.mounted] at acts
  obtain ⟨x, m', ran, effect, rfl⟩ := call_does reliable acts
  exact ⟨x, ws, m', acts, ran, effect.disk⟩

theorem calls_leave (calls : List Call) (m : Machine) : ∃ m', Leaves g e m calls m' := by
  induction calls generalizing m with
  | nil => exact ⟨m, [], .of_all fun _ => rfl⟩
  | cons call calls ih =>
    obtain ⟨r, ws, m₁, -, ran, -⟩ := call_acts geo reliable m call
    obtain ⟨m', rs, rest⟩ := ih m₁
    exact ⟨m', r :: rs, Returns.bind ran (Returns.bind rest (.of_all fun _ => rfl))⟩

omit geo reliable in
theorem leaves_nil {m m' : Machine} : Leaves g e m [] m' ↔ m' = m := by
  have done : Returns (fun n => runCalls g n [] e m) ([], m) := .of_all fun _ => rfl
  constructor
  · rintro ⟨rs, ran⟩
    exact congrArg Prod.snd (ran.unique done)
  · rintro rfl
    exact ⟨[], done⟩

theorem leaves_cons {call : Call} {calls : List Call} {r : Nat} {m m₁ m' : Machine}
    (ran : Returns (fun n => call.run g n e m) (r, m₁)) : Leaves g e m (call :: calls) m' ↔ Leaves g e m₁ calls m' := by
  obtain ⟨m₂, rs, rest⟩ := calls_leave geo reliable calls m₁
  have whole : Returns (fun n => runCalls g n (call :: calls) e m) (r :: rs, m₂) :=
    Returns.bind ran (Returns.bind rest (.of_all fun _ => rfl))
  constructor
  · rintro ⟨rs', ran'⟩
    cases ran'.unique whole
    exact ⟨rs, rest⟩
  · rintro ⟨rs', rest'⟩
    cases rest'.unique rest
    exact ⟨r :: rs, whole⟩

end

section
variable {g : Statics} (geo : Geometry g (128 * g.spf)) {e : Env} (reliable : Reliable e)
include geo reliable

theorem Leaves.orderly {calls : List Call} {m m' : Machine} (leaves : Leaves g e m calls m')
    (wf : Orderly g (128 * g.spf) (view g (128 * g.spf) m.disk)) :
    Orderly g (128 * g.spf) (view g (128 * g.spf) m'.disk) := by
  induction calls generalizing m with
  | nil =>
    rw [leaves_nil] at leaves
    exact leaves ▸ wf
  | cons call calls ih =>
    obtain ⟨r, ws, m₁, acts, ran, disk⟩ := call_acts geo reliable m call
    refine ih ((leaves_cons geo reliable ran).mp leaves) ?_
    rw [disk]
    exact acts.orderly geo wf

/-- The run: every state reached has its directories and labels intact exactly if every
call on the way spares them. -/
theorem runs_kept_iff (calls : List Call) {m : Machine} (wf : Orderly g (128 * g.spf) (view g (128 * g.spf) m.disk)) :
    (∀ done m', done <+: calls → Leaves g e m done m' →
      Kept g (128 * g.spf) (view g (128 * g.spf) m.disk) (view g (128 * g.spf) m'.disk)) ↔
    ∀ done call m', done ++ [call] <+: calls → Leaves g e m done m' → Spares g (128 * g.spf) m'.disk call := by
  induction calls generalizing m with
  | nil =>
    constructor
    · intro _ done call m' isPrefix
      exact absurd (List.prefix_nil.mp isPrefix) (by simp)
    · intro _ done m' isPrefix leaves
      obtain rfl := List.prefix_nil.mp isPrefix
      rw [leaves_nil] at leaves
      exact leaves ▸ Kept.refl g _ _
  | cons call calls ih =>
    obtain ⟨r, ws, m₁, acts, ran, disk⟩ := call_acts geo reliable m call
    have step := acts.kept_iff geo wf
    have rest := acts.kept_rest geo wf
    have wf₁ := acts.orderly geo wf
    rw [← disk] at step rest wf₁
    have later := ih wf₁
    have cons {done : List Call} {m' : Machine} : Leaves g e m (call :: done) m' ↔ Leaves g e m₁ done m' :=
      leaves_cons geo reliable ran
    constructor
    · intro kept
      have first : Kept g (128 * g.spf) (view g (128 * g.spf) m.disk) (view g (128 * g.spf) m₁.disk) :=
        kept [call] m₁ (by simp) (cons.mpr (leaves_nil.mpr rfl))
      have spares := later.mp fun done m' isPrefix leaves =>
        (rest first).mp (kept (call :: done) m' ((List.prefix_cons_inj call).mpr isPrefix) (cons.mpr leaves))
      intro done call' m' isPrefix leaves
      cases done with
      | nil =>
        obtain rfl : call' = call := by simpa using isPrefix
        rw [leaves_nil] at leaves
        exact leaves ▸ step.mp first
      | cons call₀ done =>
        obtain ⟨rfl, shorter⟩ := List.cons_prefix_cons.mp isPrefix
        exact spares done call' m' shorter (cons.mp leaves)
    · intro spares
      have first := step.mpr (spares [] call m (by simp) (leaves_nil.mpr rfl))
      have kept := later.mpr fun done call' m' isPrefix leaves =>
        spares (call :: done) call' m' (List.cons_prefix_cons.mpr ⟨rfl, isPrefix⟩) (cons.mpr leaves)
      intro done m' isPrefix leaves
      cases done with
      | nil =>
        rw [leaves_nil] at leaves
        exact leaves ▸ Kept.refl g _ _
      | cons call₀ done =>
        obtain ⟨rfl, shorter⟩ := List.cons_prefix_cons.mp isPrefix
        exact (rest first).mpr (kept done m' shorter (cons.mp leaves))

end

/-! ### Reading -/

section
variable {g : Statics} {e : Env} (reliable : Reliable e) {m : Machine}
include reliable

theorem readSectors_sources (lba off n : Nat) (buf : Buf) :
    Does e m (fun _ => readSectors lba off n buf) [] fun b => ∀ k s, b.filled k = some s →
      buf.filled k = some s ∨ ∃ i, i < n ∧ s = add32 fat32StartLba (add32 lba i) := by
  induction n with
  | zero => exact Does.pure fun k s filled => .inl filled
  | succ n ih =>
    simp only [readSectors]
    refine Does.after ih fun b m' _ sources => ?_
    refine ⟨b.fill (off + n * 512) (add32 fat32StartLba (add32 lba n)) (m'.disk (sectorAddr (add32 lba n))), _,
      .of_all fun _ => by simp [readSector, bind_run, ataReadSector, reliable m'.log.length, sectorAddr]; rfl,
      .silent m' rfl, fun k s filled => ?_⟩
    simp only [Buf.fill, Function.update_apply] at filled
    split at filled
    · cases filled
      exact .inr ⟨n, Nat.lt_succ_self n, rfl⟩
    · rcases sources k s filled with earlier | ⟨i, inside, same⟩
      · exact .inl earlier
      · exact .inr ⟨i, Nat.lt_succ_of_lt inside, same⟩

/-- The sectors that the loop reads belong to the clusters it follows. -/
theorem readFileLoop_sources {d : Disk} {cluster remaining n : Nat} (followed : Followed g d cluster remaining n)
    (same : m.disk = d) (buf : Buf) (off : Nat) :
    Does e m (fun n => readFileLoop g n cluster remaining buf off) [] fun b => ∀ k s, b.filled k = some s →
      buf.filled k = some s ∨ ∃ j i, j < n ∧ i < g.spc ∧
        s = add32 fat32StartLba (add32 (clusterLba g (linkAt g d cluster j)) i) := by
  induction n generalizing m cluster remaining buf off with
  | zero =>
    refine Does.of_succ ?_
    simp only [readFileLoop, if_neg followed.stops]
    exact Does.pure fun k s filled => .inl filled
  | succ n ih =>
    refine Does.of_succ ?_
    simp only [readFileLoop, if_pos followed.goes_on]
    refine Does.after (readSectors_sources reliable _ off g.spc buf) fun b m₁ same₁ first => ?_
    refine Does.after (fatGet_does g reliable cluster) fun next m₂ same₂ value => ?_
    rw [same₁, same] at value
    subst value
    refine (ih followed.tail (same₂.trans (same₁.trans same)) b (off + chunkOf g remaining)).mono fun b' rest k s filled => ?_
    rcases rest k s filled with earlier | ⟨j, i, before, inside, source⟩
    · rcases first k s earlier with before | ⟨i, inside, source⟩
      · exact .inl before
      · exact .inr ⟨0, i, Nat.succ_pos n, inside, source⟩
    · rw [← linkAt_succ] at source
      exact .inr ⟨j + 1, i, Nat.succ_lt_succ before, inside, source⟩

end

section
variable {g : Statics} {limit : Nat} (geo : Geometry g limit) {d : Disk}
include geo

theorem linkAt_mem {c : Nat} {ks : List Nat} (chain : Chain (Valid limit) Final (view g limit d).fat c ks) {i : Nat}
    (inside : i < ks.length) : linkAt g d c i ∈ ks := by
  induction chain generalizing i with
  | stop final => exact absurd inside (Nat.not_lt_zero i)
  | @link c ks valid _ ih =>
    cases i with
    | zero => exact .head ks
    | succ i =>
      rw [linkAt_succ, rawEntry_eq geo d valid.2]
      exact .tail c (ih (Nat.lt_of_succ_lt_succ inside))

theorem FileChain.linkAt_mem {start : Nat} {ks : List Nat} (chain : FileChain limit (view g limit d).fat start ks) {i : Nat}
    (inside : i < ks.length) : linkAt g d start i ∈ ks := by
  cases chain with
  | empty => exact absurd inside (Nat.not_lt_zero i)
  | chain _ chain => exact Fat32.linkAt_mem geo chain inside

omit geo in
theorem FileChain.eq_nil_iff (apart : ∀ c, Valid limit c → ¬Final c) {fat : Nat → Nat} {start : Nat} {ks : List Nat}
    (chain : FileChain limit fat start ks) : ks = [] ↔ start = 0 := by
  cases chain with
  | empty => exact iff_of_true rfl rfl
  | chain valid chain =>
    have nonzero : start ≠ 0 := by
      have := valid.1
      omega
    refine iff_of_false ?_ nonzero
    rintro rfl
    cases chain with
    | stop final => exact apart start valid final

/-- The loop reads nothing exactly if the entry has no size or no cluster. -/
theorem clustersRead_eq_zero (positive : 0 < g.clusterSize) {fat : Nat → Nat} {start : Nat} {ks : List Nat}
    (chain : FileChain limit fat start ks) (size : Nat) :
    min ((size + g.clusterSize - 1) / g.clusterSize) ks.length = 0 ↔ size = 0 ∨ start = 0 := by
  rw [← chain.eq_nil_iff geo.valid_apart, ← List.length_eq_zero_iff, Nat.min_eq_zero_iff, Nat.div_eq_zero_iff]
  omega

/-- Reading leaves the sectors of the directories out of a fresh buffer exactly if the name
is not that of a directory whose entry has a size and clusters. -/
theorem readFile_discreet_iff {e : Env} (reliable : Reliable e) {m : Machine} (wf : Orderly g limit (view g limit m.disk))
    (name : List UInt8) {buf : Buf} (unread : Unread buf) :
    Does e m (fun n => fat32ReadFile g n name buf) [] fun r =>
      Discreet g limit m.disk r.2 ↔ Withheld g limit m.disk (nameToFat83 name) := by
  cases found : (lookup g m.disk (nameToFat83 name)).1 with
  | none =>
    refine (readFile_missing reliable found buf).mono fun r same => ?_
    subst same
    refine iff_of_true (fun off ks _ _ c _ i _ k lba filled => ?_) fun off hit => ?_
    · rw [unread] at filled
      cases filled
    · cases found.symm.trans hit
  | some off =>
    have positive := findDirEntry_some found
    have live := (lookup_listed geo (Prod.ext found rfl)).1.live
    obtain ⟨ks, owns⟩ := wf.chained off live
    have entry := rootBytes_entry geo m.disk live.slot
    have followed := owns.chain.followed geo positive (entrySize ((view g limit m.disk).dir g) off)
    have nothing := clustersRead_eq_zero geo positive owns.chain (entrySize ((view g limit m.disk).dir g) off)
    have enough := Nat.min_le_right ((entrySize ((view g limit m.disk).dir g) off + g.clusterSize - 1) / g.clusterSize) ks.length
    generalize min ((entrySize ((view g limit m.disk).dir g) off + g.clusterSize - 1) / g.clusterSize) ks.length = n
      at followed nothing enough
    have chain := owns.chain
    rw [← entry.entryCluster, ← entry.entrySize] at followed
    rw [← entry.entryCluster] at chain
    have read := readFile_found reliable found buf fun m₁ same =>
      (readFileLoop_reads reliable positive followed same buf 0).and (readFileLoop_sources reliable followed same buf 0)
    refine read.mono fun r ⟨_, copied, sources⟩ => ?_
    have source {k s : Nat} (filled : r.2.filled k = some s) : ∃ c i, c ∈ ks ∧ 0 < n ∧ i < g.spc ∧
        lba28 s = clusterAddr g c i := by
      rcases sources k s filled with before | ⟨j, i, before, inside, rfl⟩
      · rw [unread] at before
        cases before
      · have member := chain.linkAt_mem geo (show j < ks.length by omega)
        have valid := owns.chain.members _ member
        exact ⟨_, i, member, by omega, inside, geo.sectorAddr_eq (geo.sits_cluster valid.1 valid.2 inside)⟩
    constructor
    · intro discreet o hit directory
      cases found.symm.trans hit
      rw [← nothing]
      by_contra more
      -- the first sector of the buffer would be one of the directory's
      have filled : (r.2.filled 0).isSome := by
        have := Nat.mul_pos (Nat.pos_of_ne_zero more) positive
        rw [copied.filled]
        omega
      obtain ⟨s, filled⟩ := Option.isSome_iff_exists.mp filled
      obtain ⟨c, i, member, -, inside, same⟩ := source filled
      exact discreet off ks directory owns c member i inside 0 s filled same
    · intro withheld o js directory other c member i inside k s filled same
      obtain ⟨c', i', member', some, inside', same'⟩ := source filled
      have valid := other.chain.members c member
      have valid' := owns.chain.members c' member'
      obtain ⟨rfl, -⟩ := clusterAddr_inj valid.1 valid'.1 inside inside' (same.symm.trans same')
      have here : off = o := by
        by_contra apart
        exact wf.disjoint off o ks js owns other apart member' member
      subst here
      have none := nothing.mpr (withheld off found directory)
      omega

end

/-- Over every sequence of calls, the directories and labels keep their entries, chains and
contents in every state reached exactly if each call spares them on the way; in the state
it leaves, reading a name puts a sector of a directory in the caller's buffer exactly if
the name is that of a directory whose entry has a size and clusters. -/
theorem nonfiles_kept_iff {g : Statics} (geo : Geometry g (128 * g.spf)) {e : Env} (reliable : Reliable e) {m : Machine}
    (wf : Orderly g (128 * g.spf) (view g (128 * g.spf) m.disk)) (calls : List Call) :
    ((∀ done m', done <+: calls → Leaves g e m done m' →
        Kept g (128 * g.spf) (view g (128 * g.spf) m.disk) (view g (128 * g.spf) m'.disk)) ↔
      ∀ done call m', done ++ [call] <+: calls → Leaves g e m done m' → Spares g (128 * g.spf) m'.disk call) ∧
    ∃ m', Leaves g e m calls m' ∧ ∀ name buf, Unread buf →
      ∃ r m'', Returns (fun n => fat32ReadFile g n name buf e m') (r, m'') ∧
        (Discreet g (128 * g.spf) m'.disk r.2 ↔ Withheld g (128 * g.spf) m'.disk (nameToFat83 name)) := by
  refine ⟨runs_kept_iff geo reliable calls wf, ?_⟩
  obtain ⟨m', leaves⟩ := calls_leave geo reliable calls m
  refine ⟨m', leaves, fun name buf unread => ?_⟩
  have wf' := leaves.orderly geo reliable wf
  obtain ⟨r, m'', ran, -, discreet⟩ := readFile_discreet_iff geo reliable wf' name unread
  exact ⟨r, m'', ran, discreet⟩

/-! ### A volume with a directory -/

/-- The directory A on cluster 3. -/
def folderDir : Nat → UInt8 := Function.update (entryAt (fun _ => 0x00) 0 (nameToFat83 [0x61]) 3 0) 11 0x10

def folderDisk : Disk := fun a =>
  if a = 20512 ∨ a = 20513 then wideFat else if a = 20514 then piece folderDir 0 else fun _ => 0x00

theorem folder_past {k : Nat} (past : 32 ≤ k) : folderDir k = 0x00 := by
  rw [folderDir, Function.update_of_ne (by omega), entryAt_outside _ _ _ _ _ (.inr (by omega))]

theorem folder_dir : (view sample (128 * sample.spf) folderDisk).dir sample = folderDir := by
  have size : sample.clusterSize = 512 := rfl
  have root : sample.rootCluster = 2 := rfl
  funext k
  by_cases inside : k < 512
  · have first : k / 512 = 0 ∧ k % 512 = k := by omega
    have block : folderDisk (clusterAddr sample 2 0) = piece folderDir 0 := by
      have addr : clusterAddr sample 2 0 = 20514 := by decide
      rw [addr]
      rfl
    rw [View.dir, view_data, root, if_pos ⟨by decide, by decide, by omega⟩, first.1, first.2, block, bytes, dif_pos inside,
      piece, Nat.zero_add]
  · rw [View.dir, view_data, if_neg (by omega), folder_past (by omega)]

theorem folder_live {size off : Nat} (live : Live folderDir size off) : off = 0 := by
  by_contra other
  have aligned := live.slot.1
  exact live.used (.inl (folder_past (by omega)))

theorem folder_fat {c : Nat} (inside : c < 128) : (view sample (128 * sample.spf) folderDisk).fat c = slot wideFat c := by
  have one : sample.spf = 1 := rfl
  have sector : folderDisk (fatBase sample + 0) = wideFat := rfl
  rw [view_fat, one, if_pos inside, Nat.div_eq_of_lt inside, Nat.mod_eq_of_lt inside, sector]

theorem folder_chain : FileChain (128 * sample.spf) (view sample (128 * sample.spf) folderDisk).fat 3 [3] := by
  have valid : Valid (128 * sample.spf) 3 := ⟨by decide, by decide⟩
  refine .chain valid (.link valid (.stop ?_))
  rw [folder_fat (by decide)]
  exact (by decide : (0x0FFFFFF8 : Nat) ≤ slot wideFat 3)

theorem folder_geometry : Geometry sample (128 * sample.spf) := sample_geometry 160 sample_limit.1 sample_limit.2

theorem folder_owns {off : Nat} {ks : List Nat}
    (owns : Owns sample (128 * sample.spf) (view sample (128 * sample.spf) folderDisk) off ks) : off = 0 ∧ ks = [3] := by
  have chain := owns.chain
  have live := owns.live
  rw [folder_dir] at live chain
  obtain rfl := folder_live live
  have start : entryCluster folderDir 0 = 3 := by decide
  rw [start] at chain
  exact ⟨rfl, chain.unique folder_geometry.valid_apart folder_chain⟩

theorem folder_orderly : Orderly sample (128 * sample.spf) (view sample (128 * sample.spf) folderDisk) where
  root_used := by
    have root : sample.rootCluster = 2 := rfl
    rw [root, folder_fat (by decide)]
    decide
  ended off slot zero k after inside := by
    rw [folder_dir, folder_past (by omega)]
  chained off live := by
    refine ⟨[3], live, ?_⟩
    rw [folder_dir] at live ⊢
    obtain rfl := folder_live live
    exact folder_chain
  disjoint off off' ks ks' owns owns' other := absurd ((folder_owns owns).1.trans (folder_owns owns').1.symm) other
  apart off ks owns := by
    rw [(folder_owns owns).2]
    decide

theorem folder_lookup : lookup sample folderDisk (nameToFat83 [0x61]) = (some 0, none) := by decide

theorem folder_nonFile : NonFile ((view sample (128 * sample.spf) folderDisk).dir sample) sample.clusterSize 0 := by
  rw [folder_dir]
  refine ⟨⟨⟨rfl, by decide⟩, ?_, by decide⟩, .inl ?_⟩
  · rw [Unused]
    decide
  · rw [IsDirectory]
    decide

/-- Deleting the name of a directory removes its entry and frees its clusters. -/
theorem delete_removes_directory : ¬∀ (g : Statics) (e : Env) (m m' : Machine) (calls : List Call),
    Geometry g (128 * g.spf) → Reliable e → Orderly g (128 * g.spf) (view g (128 * g.spf) m.disk) → Leaves g e m calls m' →
    Kept g (128 * g.spf) (view g (128 * g.spf) m.disk) (view g (128 * g.spf) m'.disk) := by
  intro all
  obtain ⟨r, ws, m', acts, ran, disk⟩ := call_acts folder_geometry steadyEnv_reliable ⟨folderDisk, []⟩ (.delete [0x61])
  have leaves : Leaves sample steadyEnv ⟨folderDisk, []⟩ [.delete [0x61]] m' :=
    (leaves_cons folder_geometry steadyEnv_reliable ran).mpr (leaves_nil.mpr rfl)
  have kept := all sample steadyEnv ⟨folderDisk, []⟩ m' _ folder_geometry steadyEnv_reliable folder_orderly leaves
  rw [disk] at kept
  have declined := (acts.kept_iff folder_geometry folder_orderly).mp kept 0 (congrArg Prod.fst folder_lookup) folder_nonFile
  cases (congrArg Prod.fst folder_lookup).symm.trans declined

theorem nonfiles_kept_iff_folder :
    ((∀ done m', done <+: sampleCalls → Leaves sample steadyEnv ⟨folderDisk, []⟩ done m' →
        Kept sample (128 * sample.spf) (view sample (128 * sample.spf) folderDisk)
          (view sample (128 * sample.spf) m'.disk)) ↔
      ∀ done call m', done ++ [call] <+: sampleCalls → Leaves sample steadyEnv ⟨folderDisk, []⟩ done m' →
        Spares sample (128 * sample.spf) m'.disk call) ∧
    ∃ m', Leaves sample steadyEnv ⟨folderDisk, []⟩ sampleCalls m' ∧ ∀ name buf, Unread buf →
      ∃ r m'', Returns (fun n => fat32ReadFile sample n name buf steadyEnv m') (r, m'') ∧
        (Discreet sample (128 * sample.spf) m'.disk r.2 ↔ Withheld sample (128 * sample.spf) m'.disk (nameToFat83 name)) :=
  nonfiles_kept_iff folder_geometry steadyEnv_reliable (m := ⟨folderDisk, []⟩) folder_orderly sampleCalls

end ChrisOS.Fs.Fat32
