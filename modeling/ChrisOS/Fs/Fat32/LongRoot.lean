import ChrisOS.Fs.Fat32.Directories
import ChrisOS.Fs.Fat32.Files

/-! Volumes whose root directory is a chain of several clusters. The driver knows the
first cluster of that chain only: it searches there, and it stores new entries there.
-/

set_option autoImplicit false

namespace ChrisOS.Fs.Fat32
open ChrisOS.Lib ChrisOS.Lib.Chains ChrisOS.Drivers.Ata

/-- The bytes of the root directory along its chain, `rest` being the clusters behind
the first. -/
def View.longDir (g : Statics) (v : View) (rest : List Nat) (k : Nat) : UInt8 :=
  v.data ((g.rootCluster :: rest).getD (k / g.clusterSize) 0) (k % g.clusterSize)

def longSize (g : Statics) (rest : List Nat) : Nat := (rest.length + 1) * g.clusterSize

section
variable (g : Statics) (limit : Nat)

/-- The file with its entry at a position of the chain holds exactly these clusters. -/
structure OwnsAt (v : View) (rest : List Nat) (p : Nat) (ks : List Nat) : Prop where
  live : Live (v.longDir g rest) (longSize g rest) p
  chain : FileChain limit v.fat (entryCluster (v.longDir g rest) p) ks

/-- The entry at a position of the chain is a file's and bears the name. -/
structure NamedAt (v : View) (rest : List Nat) (fatname : FatName) (p : Nat) : Prop where
  live : Live (v.longDir g rest) (longSize g rest) p
  named : nameAt (v.longDir g rest) p = fatname

/-- No two entries of the chain bear the same name. -/
def Unrepeated (v : View) (rest : List Nat) : Prop :=
  ∀ p p' fatname, NamedAt g v rest fatname p → NamedAt g v rest fatname p' → p = p'

/-- A disk whose volume is well formed, with a root directory along a chain. -/
structure LongVolume (d : Disk) (rest : List Nat) : Prop where
  geometry : Geometry g limit
  mirrored : Mirrored g d
  chain : Chain (Valid limit) Final (view g limit d).fat g.rootCluster (g.rootCluster :: rest)
  ended : Ended ((view g limit d).longDir g rest) (longSize g rest)
  chained : ∀ p, Live ((view g limit d).longDir g rest) (longSize g rest) p → ∃ ks, OwnsAt g limit (view g limit d) rest p ks
  distinct : Unrepeated g (view g limit d) rest
  disjoint : ∀ p p' ks ks', OwnsAt g limit (view g limit d) rest p ks → OwnsAt g limit (view g limit d) rest p' ks' →
    p ≠ p' → ks.Disjoint ks'
  apart : ∀ p ks, OwnsAt g limit (view g limit d) rest p ks → ks.Disjoint (g.rootCluster :: rest)
  sized : ∀ p ks, OwnsAt g limit (view g limit d) rest p ks →
    entrySize ((view g limit d).longDir g rest) p < 2 ^ 31 ∧
      entrySize ((view g limit d).longDir g rest) p ≤ ks.length * g.clusterSize

/-- An entry behind the first cluster bears the name. -/
def Late (v : View) (rest : List Nat) (fatname : FatName) : Prop := ∃ p, g.clusterSize ≤ p ∧ NamedAt g v rest fatname p

variable (e : Env) (m : Machine) (rest : List Nat)

/-- Reading the name of the file at a position returns its size and its bytes. -/
def ReadsAt (p : Nat) : Prop := ∀ ks name buf, OwnsAt g limit (view g limit m.disk) rest p ks →
  nameAt ((view g limit m.disk).longDir g rest) p = nameToFat83 name →
  ∃ size buf' m', Returns (fun n => fat32ReadFile g n name buf e m) ((size, buf'), m') ∧
    size = (contents g (view g limit m.disk) ks (entrySize ((view g limit m.disk).longDir g rest) p)).length ∧
    ∀ i (inside : i < (contents g (view g limit m.disk) ks (entrySize ((view g limit m.disk).longDir g rest) p)).length),
      buf'.data i = (contents g (view g limit m.disk) ks (entrySize ((view g limit m.disk).longDir g rest) p))[i]

/-- Deleting the name of the file at a position returns 1 and leaves no file of that name. -/
def RemovesAt (p : Nat) : Prop := ∀ name, NamedAt g (view g limit m.disk) rest (nameToFat83 name) p →
  ∃ m', Returns (fun n => fat32DeleteFile g n name e m) (1, m') ∧
    ∀ q, ¬NamedAt g (view g limit m'.disk) rest (nameToFat83 name) q

/-- The call leaves no two entries of one name. -/
def StaysUnrepeated (call : Call) : Prop :=
  ∃ r m', Returns (fun n => call.run g n e m) (r, m') ∧ Unrepeated g (view g limit m'.disk) rest

end

/-! ### The first cluster -/

section
variable {g : Statics} (v : View) (rest : List Nat)

theorem longDir_first {k : Nat} (inside : k < g.clusterSize) : v.longDir g rest k = v.dir g k := by
  rw [View.longDir, Nat.div_eq_of_lt inside, Nat.mod_eq_of_lt inside, List.getD_cons_zero, View.dir]

theorem first_le (g : Statics) : g.clusterSize ≤ longSize g rest := Nat.le_mul_of_pos_left _ (Nat.succ_pos _)

theorem longSize_whole (g : Statics) : longSize g rest % 32 = 0 := by
  have whole := clusterSize_whole g
  rw [longSize, Nat.mul_mod, whole, Nat.mul_zero]

theorem longDir_entry {off : Nat} (slot : Slot g.clusterSize off) : SameEntry (v.longDir g rest) (v.dir g) off := by
  intro k small
  have whole := clusterSize_whole g
  obtain ⟨aligned, inside⟩ := slot
  exact longDir_first v rest (by omega)

theorem live_first {off : Nat} : Live (v.dir g) g.clusterSize off ↔
    Live (v.longDir g rest) (longSize g rest) off ∧ off < g.clusterSize := by
  have longer := first_le rest g
  constructor
  · rintro ⟨slot, used, short⟩
    have entry := longDir_entry v rest slot
    refine ⟨⟨⟨slot.1, Nat.lt_of_lt_of_le slot.2 longer⟩, ?_, ?_⟩, slot.2⟩
    · rwa [Unused, entry.first]
    · rwa [entry 11 (by decide)]
  · rintro ⟨⟨slot, used, short⟩, inside⟩
    have entry := longDir_entry v rest (show Slot g.clusterSize off from ⟨slot.1, inside⟩)
    refine ⟨⟨slot.1, inside⟩, ?_, ?_⟩
    · rwa [Unused, ← entry.first]
    · rwa [← entry 11 (by decide)]

variable {limit : Nat}

theorem owns_first {off : Nat} {ks : List Nat} : Owns g limit v off ks ↔
    OwnsAt g limit v rest off ks ∧ off < g.clusterSize := by
  constructor
  · intro owns
    obtain ⟨live, inside⟩ := (live_first v rest).mp owns.live
    refine ⟨⟨live, ?_⟩, inside⟩
    rw [(longDir_entry v rest owns.live.slot).entryCluster]
    exact owns.chain
  · rintro ⟨owns, inside⟩
    have live := (live_first v rest).mpr ⟨owns.live, inside⟩
    refine ⟨live, ?_⟩
    rw [← (longDir_entry v rest live.slot).entryCluster]
    exact owns.chain

theorem named_first {off : Nat} {fatname : FatName} :
    (Live (v.dir g) g.clusterSize off ∧ nameAt (v.dir g) off = fatname) ↔
      NamedAt g v rest fatname off ∧ off < g.clusterSize := by
  constructor
  · rintro ⟨live, named⟩
    obtain ⟨long, inside⟩ := (live_first v rest).mp live
    exact ⟨⟨long, by rw [(longDir_entry v rest live.slot).nameAt, named]⟩, inside⟩
  · rintro ⟨⟨long, named⟩, inside⟩
    have live := (live_first v rest).mpr ⟨long, inside⟩
    exact ⟨live, by rw [← (longDir_entry v rest live.slot).nameAt, named]⟩

end

section
variable {g : Statics} {limit : Nat} {d : Disk} {rest : List Nat} (long : LongVolume g limit d rest)
include long

/-- What the driver sees of the volume is a well-formed volume. -/
theorem LongVolume.volume : Volume g limit d where
  geometry := long.geometry
  mirrored := long.mirrored
  wellFormed := {
    root_used := Chain.used long.chain _ (.head rest)
    ended := by
      intro off slot zero k after inside
      have longer := first_le rest g
      rw [← longDir_first (view g limit d) rest inside]
      refine long.ended off ⟨slot.1, by have := slot.2; omega⟩ ?_ k after (by omega)
      rw [longDir_first _ rest slot.2, zero]
    chained := by
      intro off live
      obtain ⟨long', inside⟩ := (live_first _ rest).mp live
      obtain ⟨ks, owns⟩ := long.chained off long'
      exact ⟨ks, (owns_first _ rest).mpr ⟨owns, inside⟩⟩
    distinct := by
      intro off off' live live' same
      exact long.distinct off off' _ ((named_first _ rest).mp ⟨live, same⟩).1 ((named_first _ rest).mp ⟨live', rfl⟩).1
    disjoint := by
      intro off off' ks ks' owns owns' other
      exact long.disjoint off off' ks ks' ((owns_first _ rest).mp owns).1 ((owns_first _ rest).mp owns').1 other
    apart := by
      intro off ks owns member
      exact long.apart off ks ((owns_first _ rest).mp owns).1 member (.head rest) }

theorem LongVolume.fits : Sized g limit (view g limit d) := by
  intro off ks owns
  rw [← (longDir_entry _ rest owns.live.slot).entrySize]
  exact long.sized off ks ((owns_first _ rest).mp owns).1

end

/-! ### The search -/

section
variable {g : Statics} {limit : Nat} {d : Disk} {rest : List Nat} (long : LongVolume g limit d rest) {fatname : FatName}
include long

theorem LongVolume.hit {off : Nat} (found : (lookup g d fatname).1 = some off) :
    NamedAt g (view g limit d) rest fatname off ∧ off < g.clusterSize := by
  obtain ⟨listed, named⟩ := lookup_listed long.geometry (Prod.ext found rfl)
  exact (named_first _ rest).mp ⟨listed.live, named⟩

theorem LongVolume.miss (none : (lookup g d fatname).1 = none) {p : Nat}
    (named : NamedAt g (view g limit d) rest fatname p) : g.clusterSize ≤ p := by
  by_contra early
  obtain ⟨live, same⟩ := (named_first _ rest).mpr ⟨named, Nat.not_le.mp early⟩
  have found := findDirEntry_found fatname long.volume.wellFormed.ended (clusterSize_whole g)
  rw [← lookup_eq long.geometry] at found
  generalize lookup g d fatname = search at found none
  cases found with
  | hit _ _ => cases none
  | room absent _ => exact absent p live same
  | full absent _ => exact absent p live same

end

/-! ### One call -/

theorem longDir_late {g : Statics} {v v' : View} {rest : List Nat} (positive : 0 < g.clusterSize)
    (same : ∀ c ∈ rest, v'.data c = v.data c) {k : Nat} (late : g.clusterSize ≤ k) (inside : k < longSize g rest) :
    v'.longDir g rest k = v.longDir g rest k := by
  have before : k / g.clusterSize < rest.length + 1 := (Nat.div_lt_iff_lt_mul positive).mpr inside
  obtain ⟨n, behind⟩ : ∃ n, k / g.clusterSize = n + 1 := Nat.exists_eq_succ_of_ne_zero (Nat.div_pos late positive).ne'
  have within : n < rest.length := by omega
  rw [View.longDir, View.longDir, behind, List.getD_cons_succ, List.getD_eq_getElem _ _ within,
    same _ (List.getElem_mem within)]

section
variable {g : Statics} {limit : Nat} {d : Disk} {rest : List Nat} (long : LongVolume g limit d rest) {call : Call}
  {ws : SectorWrites} {off : Nat} {old new : List Nat} (alters : Alters g limit d call ws off old new)
include long alters

/-- The clusters of the directory are neither freed nor taken. -/
theorem Alters.roots_apart : ∀ c ∈ g.rootCluster :: rest, c ∉ new ∧ c ∉ old := by
  intro c member
  have kept : c ∉ old := by
    rcases alters.replaces.held with owns | ⟨-, rfl⟩
    · exact fun freed => long.apart off old ((owns_first _ rest).mp owns).1 freed member
    · exact List.not_mem_nil
  refine ⟨fun taken => ?_, kept⟩
  rcases (alters.replaces.fresh c taken).2 with free | freed
  · exact Chain.used long.chain c member free
  · exact kept freed

theorem Alters.roots_linked : Chain (Valid limit) Final (view g limit (land ws d)).fat g.rootCluster (g.rootCluster :: rest) := by
  refine long.chain.congr fun c member => ?_
  obtain ⟨notNew, notOld⟩ := alters.roots_apart long c member
  rw [alters.replaces.fat, if_neg notNew, if_neg notOld]

theorem Alters.rest_kept : ∀ c ∈ rest, (view g limit (land ws d)).data c = (view g limit d).data c := by
  intro c member
  refine alters.replaces.data c (alters.roots_apart long c (.tail _ member)).1 ?_
  rintro rfl
  exact (List.nodup_cons.mp (long.chain.nodup long.geometry.valid_apart)).1 member

theorem Alters.longDir_other {p : Nat} (slot : Slot (longSize g rest) p) (other : p ≠ off) :
    SameEntry ((view g limit (land ws d)).longDir g rest) ((view g limit d).longDir g rest) p := by
  have positive : 0 < g.clusterSize := Nat.mul_pos long.geometry.positive (by decide)
  obtain ⟨aligned, inside⟩ := slot
  intro k small
  by_cases early : p < g.clusterSize
  · have here : Slot g.clusterSize p := ⟨aligned, early⟩
    rw [longDir_entry _ rest here k small, longDir_entry _ rest here k small, alters.replaces.sameEntry here other k small]
  · have whole := longSize_whole rest g
    exact longDir_late positive (alters.rest_kept long) (by omega) (by omega)

theorem Alters.named_other {fatname : FatName} {p : Nat} (other : p ≠ off) :
    NamedAt g (view g limit (land ws d)) rest fatname p ↔ NamedAt g (view g limit d) rest fatname p := by
  constructor
  · rintro ⟨live, named⟩
    have same := alters.longDir_other long live.slot other
    exact ⟨(same.live _).mp live, by rw [← same.nameAt, named]⟩
  · rintro ⟨live, named⟩
    have same := alters.longDir_other long live.slot other
    exact ⟨(same.live _).mpr live, by rw [same.nameAt, named]⟩

omit long in
/-- The entry stored bears the name of the call, if that is a name that an entry can bear. -/
theorem Alters.named_here (stores : call.content ≠ none) {fatname : FatName} :
    NamedAt g (view g limit (land ws d)) rest fatname off ↔ fatname = call.fatname ∧ call.fatname 0 ≠ 0xE5 := by
  obtain ⟨named, -⟩ := alters.stored stores
  have slot := alters.replaces.slot
  have first : (view g limit (land ws d)).dir g off = call.fatname 0 := by rw [← named]; rfl
  constructor
  · intro there
    obtain ⟨live, same⟩ := (named_first _ rest).mpr ⟨there, slot.2⟩
    exact ⟨same.symm.trans named, fun deleted => live.used (.inr (first.trans deleted))⟩
  · rintro ⟨rfl, used⟩
    refine ((named_first _ rest).mp ⟨?_, named⟩).1
    rcases alters.replaces.entry with deleted | owns
    · exact absurd (first.symm.trans deleted) used
    · exact owns.live

/-- A stored entry repeats a name exactly if an entry behind the first cluster bears it. -/
theorem Alters.unrepeated_iff (stores : call.content ≠ none) :
    Unrepeated g (view g limit (land ws d)) rest ↔ ¬Late g (view g limit d) rest call.fatname := by
  have inside := alters.replaces.slot.2
  constructor
  · rintro unrepeated ⟨p, late, named⟩
    have other : p ≠ off := by omega
    have proper : call.fatname 0 ≠ 0xE5 := by
      rw [← named.named]
      exact fun deleted => named.live.used (.inr deleted)
    have here : NamedAt g (view g limit (land ws d)) rest call.fatname off := (alters.named_here stores).mpr ⟨rfl, proper⟩
    exact other (unrepeated p off _ ((alters.named_other long other).mpr named) here)
  · intro early
    -- an entry of the first cluster that bears the name is the one that was replaced
    have clash {p : Nat} (other : p ≠ off) (named : NamedAt g (view g limit d) rest call.fatname p) : False := by
      rcases alters.found with found | found
      · exact other (long.distinct p off _ named (long.hit found).1)
      · exact early ⟨p, long.miss (congrArg Prod.fst found) named, named⟩
    intro p p' fatname named named'
    by_cases here : p = off
    · subst here
      obtain ⟨rfl, -⟩ := (alters.named_here stores).mp named
      by_contra other
      exact clash (Ne.symm other) ((alters.named_other long (Ne.symm other)).mp named')
    · by_cases here' : p' = off
      · subst here'
        obtain ⟨rfl, -⟩ := (alters.named_here stores).mp named'
        exact (clash here ((alters.named_other long here).mp named)).elim
      · exact long.distinct p p' fatname ((alters.named_other long here).mp named) ((alters.named_other long here').mp named')

end

section
variable {g : Statics} {e : Env} (reliable : Reliable e) {m : Machine} {rest : List Nat}
  (long : LongVolume g (128 * g.spf) m.disk rest)
include reliable long

theorem call_alters (call : Call) : ∃ r ws m', Returns (fun n => call.run g n e m) (r, m') ∧ m'.disk = land ws m.disk ∧
    ((r = 0 ∧ ws = []) ↔ Declined g m.disk call) ∧
    ((r = 0 ∧ ws = []) ∨ (r = 1 ∧ ∃ off old new, Alters g (128 * g.spf) m.disk call ws off old new)) := by
  obtain ⟨r, ws, m', acts, ran, disk⟩ := call_acts long.geometry reliable m call
  exact ⟨r, ws, m', ran, disk, acts.idle_iff, acts.alters long.geometry long.volume.wellFormed.orderly⟩

theorem reads_first {p : Nat} (early : p < g.clusterSize) : ReadsAt g (128 * g.spf) e m rest p := by
  intro ks name buf owns named
  have geo := long.geometry
  have wf := long.volume.wellFormed
  have here := (owns_first _ rest).mpr ⟨owns, early⟩
  have entry := longDir_entry (view g (128 * g.spf) m.disk) rest here.live.slot
  rw [entry.nameAt] at named
  have content := (filesOf_eq_some wf geo.valid_apart).mpr ⟨p, ks, here, named, rfl⟩
  obtain ⟨⟨size, buf'⟩, m', ran, -, copied⟩ := fat32ReadFile_does reliable long.volume long.fits name buf
  rw [content] at copied
  rw [entry.entrySize]
  exact ⟨size, buf', m', ran, copied⟩

theorem removes_first {p : Nat} (early : p < g.clusterSize) : RemovesAt g (128 * g.spf) e m rest p := by
  intro name named
  obtain ⟨r, ws, m', ran, disk, idle, acted⟩ := call_alters reliable long (.delete name)
  have missing {q : Nat} (there : NamedAt g (view g (128 * g.spf) m.disk) rest (nameToFat83 name) q) : q = p :=
    long.distinct q p _ there named
  rcases acted with nothing | ⟨rfl, off, old, new, alters⟩
  · have late := long.miss (idle.mp nothing) named
    omega
  · refine ⟨m', ran, fun q there => ?_⟩
    rw [disk] at there
    have here : off = p := by
      rcases alters.found with found | found
      · exact missing (long.hit found).1
      · have late := long.miss (congrArg Prod.fst found) named
        omega
    by_cases other : q = off
    · subst other
      exact ((named_first _ rest).mpr ⟨there, alters.replaces.slot.2⟩).1.used (.inr (alters.removed rfl))
    · exact other ((missing ((alters.named_other long other).mp there)).trans here.symm)

theorem staysUnrepeated_iff {call : Call} (stores : call.content ≠ none) :
    StaysUnrepeated g (128 * g.spf) e m rest call ↔
      (Late g (view g (128 * g.spf) m.disk) rest call.fatname → Declined g m.disk call) := by
  obtain ⟨r, ws, m', ran, disk, idle, acted⟩ := call_alters reliable long call
  have outcome : StaysUnrepeated g (128 * g.spf) e m rest call ↔ Unrepeated g (view g (128 * g.spf) (land ws m.disk)) rest := by
    rw [← disk]
    constructor
    · rintro ⟨r', m'', ran', unrepeated⟩
      cases ran.unique ran'
      exact unrepeated
    · exact fun unrepeated => ⟨r, m', ran, unrepeated⟩
  rw [outcome]
  rcases acted with nothing | ⟨one, off, old, new, alters⟩
  · have declined := idle.mp nothing
    obtain ⟨-, rfl⟩ := nothing
    exact iff_of_true long.distinct fun _ => declined
  · have served : ¬Declined g m.disk call := fun declined => by
      have zero := (idle.mpr declined).1
      omega
    rw [alters.unrepeated_iff long stores]
    exact ⟨fun early late => absurd late early, fun all late => served (all late)⟩

omit reliable in
theorem absent_first {name : List UInt8}
    (behind : ∀ p, NamedAt g (view g (128 * g.spf) m.disk) rest (nameToFat83 name) p → g.clusterSize ≤ p) :
    (lookup g m.disk (nameToFat83 name)).1 = none := by
  cases found : (lookup g m.disk (nameToFat83 name)).1 with
  | none => rfl
  | some off =>
    obtain ⟨named, inside⟩ := long.hit found
    have late := behind off named
    omega

end

/-- On a volume with a root directory of any number of clusters, the driver reads and removes
the files with entries in the first cluster. Create and write leave two entries of one name
exactly if they are served for a name of an entry further on. For a name that only entries
further on bear, read and delete return 0 and change nothing. No call changes the chain or
the clusters behind the first. -/
theorem first_cluster_only {g : Statics} {e : Env} (reliable : Reliable e) {m : Machine} {rest : List Nat}
    (long : LongVolume g (128 * g.spf) m.disk rest) :
    (∀ p, p < g.clusterSize → ReadsAt g (128 * g.spf) e m rest p ∧ RemovesAt g (128 * g.spf) e m rest p) ∧
    (∀ call : Call, call.content ≠ none → (StaysUnrepeated g (128 * g.spf) e m rest call ↔
      (Late g (view g (128 * g.spf) m.disk) rest call.fatname → Declined g m.disk call))) ∧
    (∀ name, (∀ p, NamedAt g (view g (128 * g.spf) m.disk) rest (nameToFat83 name) p → g.clusterSize ≤ p) →
      (∀ buf, ∃ m', Returns (fun n => fat32ReadFile g n name buf e m) ((0, buf), m')) ∧
      ∃ m', Returns (fun n => fat32DeleteFile g n name e m) (0, m') ∧ m'.disk = m.disk) ∧
    ∀ call : Call, ∃ r m', Returns (fun n => call.run g n e m) (r, m') ∧
      Chain (Valid (128 * g.spf)) Final (view g (128 * g.spf) m'.disk).fat g.rootCluster (g.rootCluster :: rest) ∧
      ∀ c ∈ rest, (view g (128 * g.spf) m'.disk).data c = (view g (128 * g.spf) m.disk).data c := by
  refine ⟨fun p early => ⟨reads_first reliable long early, removes_first reliable long early⟩,
    fun call stores => staysUnrepeated_iff reliable long stores, fun name behind => ?_, fun call => ?_⟩
  · have missing := absent_first long behind
    constructor
    · intro buf
      obtain ⟨r, m', ran, -, rfl⟩ := readFile_missing reliable missing buf
      exact ⟨m', ran⟩
    · obtain ⟨r, ws, m', ran, disk, idle, -⟩ := call_alters reliable long (.delete name)
      obtain ⟨rfl, rfl⟩ := idle.mpr missing
      exact ⟨m', ran, disk⟩
  · obtain ⟨r, ws, m', ran, disk, -, acted⟩ := call_alters reliable long call
    refine ⟨r, m', ran, ?_⟩
    rw [disk]
    rcases acted with ⟨-, rfl⟩ | ⟨-, off, old, new, alters⟩
    · exact ⟨long.chain, fun _ _ => rfl⟩
    · exact ⟨alters.roots_linked long, alters.rest_kept long⟩

/-! ### A root directory of two clusters -/

/-- Cluster 2 is followed by cluster 3; clusters 3 and 4 end their chains. -/
def longFat : Sector := fun i =>
  if i.val = 8 then 3 else if i.val < 12 ∨ 20 ≤ i.val then 0x00 else if i.val % 4 = 3 then 0x0F else 0xFF

/-- The file A of one byte on cluster 4. -/
def lateDir : Nat → UInt8 := entryAt (fun _ => 0x00) 0 (nameToFat83 [0x61]) 4 1

/-- In the directory's first cluster every entry is deleted. -/
def longDisk : Disk := fun a =>
  if a = 20512 ∨ a = 20513 then longFat else if a = 20514 then fun _ => 0xE5
  else if a = 20515 then piece lateDir 0 else fun _ => 0x00

theorem late_past {k : Nat} (past : 32 ≤ k) : lateDir k = 0x00 := by
  rw [lateDir, entryAt_outside _ _ _ _ _ (.inr (by omega))]

theorem long_data {c k : Nat} (low : 2 ≤ c) (high : c < 128) (inside : k < 512) :
    (view sample (128 * sample.spf) longDisk).data c k = bytes (longDisk (20514 + (c - 2))) k := by
  have size : sample.clusterSize = 512 := rfl
  have one : sample.spc = 1 := rfl
  have base : fat32StartLba + sample.dataStart = 20514 := by decide
  rw [view_data, if_pos ⟨low, high, by omega⟩, clusterAddr, one, base, Nat.div_eq_of_lt inside, Nat.mod_eq_of_lt inside,
    Nat.mul_one, Nat.add_zero]

theorem long_dir {k : Nat} (inside : k < 1024) :
    (view sample (128 * sample.spf) longDisk).longDir sample [3] k = if k < 512 then 0xE5 else lateDir (k - 512) := by
  have size : sample.clusterSize = 512 := rfl
  have root : sample.rootCluster = 2 := rfl
  rw [View.longDir, size, root]
  by_cases first : k < 512
  · rw [if_pos first, Nat.div_eq_of_lt first, Nat.mod_eq_of_lt first, List.getD_cons_zero,
      long_data (by decide) (by decide) first, bytes, dif_pos first]
    rfl
  · have second : k / 512 = 0 + 1 ∧ k % 512 = k - 512 := by omega
    rw [if_neg first, second.1, second.2, List.getD_cons_succ, List.getD_cons_zero,
      long_data (by decide) (by decide) (by omega), bytes, dif_pos (by omega)]
    simp [longDisk, piece]

theorem long_size : longSize sample [3] = 1024 := rfl

theorem long_live {p : Nat} (live : Live ((view sample (128 * sample.spf) longDisk).longDir sample [3]) (longSize sample [3]) p) :
    p = 512 := by
  have aligned := live.slot.1
  have inside := live.slot.2
  rw [long_size] at inside
  have first := long_dir inside
  by_cases early : p < 512
  · rw [if_pos early] at first
    exact absurd (.inr first) live.used
  · by_contra other
    rw [if_neg early, late_past (by omega)] at first
    exact live.used (.inl first)

theorem long_entry : SameEntry ((view sample (128 * sample.spf) longDisk).longDir sample [3]) (fun k => lateDir (k - 512)) 512 := by
  intro k small
  rw [long_dir (by omega), if_neg (by omega)]

theorem long_fat {c : Nat} (inside : c < 128) : (view sample (128 * sample.spf) longDisk).fat c = slot longFat c := by
  have one : sample.spf = 1 := rfl
  have sector : longDisk (fatBase sample + 0) = longFat := rfl
  rw [view_fat, one, if_pos inside, Nat.div_eq_of_lt inside, Nat.mod_eq_of_lt inside, sector]

theorem long_file : FileChain (128 * sample.spf) (view sample (128 * sample.spf) longDisk).fat 4 [4] := by
  have valid : Valid (128 * sample.spf) 4 := ⟨by decide, by decide⟩
  refine .chain valid (.link valid (.stop ?_))
  rw [long_fat (by decide)]
  exact (by decide : (0x0FFFFFF8 : Nat) ≤ slot longFat 4)

theorem long_chain : Chain (Valid (128 * sample.spf)) Final (view sample (128 * sample.spf) longDisk).fat 2 [2, 3] := by
  have next : (view sample (128 * sample.spf) longDisk).fat 2 = 3 := by
    rw [long_fat (by decide)]
    decide
  have final : Final ((view sample (128 * sample.spf) longDisk).fat 3) := by
    rw [long_fat (by decide)]
    exact (by decide : (0x0FFFFFF8 : Nat) ≤ slot longFat 3)
  refine .link ⟨by decide, by decide⟩ ?_
  rw [next]
  exact .link ⟨by decide, by decide⟩ (.stop final)

theorem long_start : entryCluster ((view sample (128 * sample.spf) longDisk).longDir sample [3]) 512 = 4 := by
  rw [long_entry.entryCluster]
  decide

theorem long_owns {p : Nat} {ks : List Nat}
    (owns : OwnsAt sample (128 * sample.spf) (view sample (128 * sample.spf) longDisk) [3] p ks) : p = 512 ∧ ks = [4] := by
  have chain := owns.chain
  obtain rfl := long_live owns.live
  rw [long_start] at chain
  exact ⟨rfl, chain.unique folder_geometry.valid_apart long_file⟩

theorem long_volume : LongVolume sample (128 * sample.spf) longDisk [3] where
  geometry := folder_geometry
  mirrored := by
    intro _ s inside
    have one : sample.spf = 1 := rfl
    obtain rfl : s = 0 := by omega
    rfl
  chain := long_chain
  ended p slot zero k after inside := by
    have within := slot.2
    rw [long_size] at within inside
    rw [long_dir within] at zero
    split at zero
    · cases zero
    · rw [long_dir inside, if_neg (by omega), late_past (by omega)]
  chained p live := by
    obtain rfl := long_live live
    exact ⟨[4], live, by rw [long_start]; exact long_file⟩
  distinct p p' _ named named' := (long_live named.live).trans (long_live named'.live).symm
  disjoint p p' ks ks' owns owns' other := absurd ((long_owns owns).1.trans (long_owns owns').1.symm) other
  apart p ks owns := by
    rw [(long_owns owns).2, List.singleton_disjoint]
    decide
  sized p ks owns := by
    obtain ⟨rfl, rfl⟩ := long_owns owns
    rw [long_entry.entrySize]
    decide

theorem long_named : NamedAt sample (view sample (128 * sample.spf) longDisk) [3] (nameToFat83 [0x61]) 512 := by
  constructor
  case live =>
    rw [long_entry.live]
    refine ⟨⟨rfl, by decide⟩, ?_, by decide⟩
    rw [Unused]
    decide
  case named =>
    rw [long_entry.nameAt]
    decide

theorem long_lookup : lookup sample longDisk (nameToFat83 [0x61]) = (none, some 0) := by decide

/-- A file behind the first cluster is neither read nor removed, and creating its name
leaves two entries of the name. -/
theorem late_file_overlooked :
    (¬∀ (g : Statics) (e : Env) (m : Machine) (rest : List Nat), Reliable e → LongVolume g (128 * g.spf) m.disk rest →
      ∀ p, ReadsAt g (128 * g.spf) e m rest p) ∧
    (¬∀ (g : Statics) (e : Env) (m : Machine) (rest : List Nat), Reliable e → LongVolume g (128 * g.spf) m.disk rest →
      ∀ p, RemovesAt g (128 * g.spf) e m rest p) ∧
    ¬∀ (g : Statics) (e : Env) (m : Machine) (rest : List Nat), Reliable e → LongVolume g (128 * g.spf) m.disk rest →
      ∀ call : Call, call.content ≠ none → StaysUnrepeated g (128 * g.spf) e m rest call := by
  have missing : (lookup sample longDisk (nameToFat83 [0x61])).1 = none := congrArg Prod.fst long_lookup
  refine ⟨fun all => ?_, fun all => ?_, fun all => ?_⟩
  · have owns : OwnsAt sample (128 * sample.spf) (view sample (128 * sample.spf) longDisk) [3] 512 [4] :=
      ⟨long_named.live, by rw [long_start]; exact long_file⟩
    obtain ⟨size, buf', m', ran, same, -⟩ := all sample steadyEnv ⟨longDisk, []⟩ [3] steadyEnv_reliable long_volume 512
      [4] [0x61] freshBuf owns long_named.named
    obtain ⟨r, m'', ran', -, returned⟩ := readFile_missing (m := ⟨longDisk, []⟩) steadyEnv_reliable missing freshBuf
    cases ran.unique ran'
    have one : entrySize ((view sample (128 * sample.spf) longDisk).longDir sample [3]) 512 = 1 := by
      rw [long_entry.entrySize]
      decide
    rw [one] at same
    have zero : size = 0 := congrArg Prod.fst returned
    rw [zero] at same
    cases same
  · obtain ⟨m', ran, -⟩ := all sample steadyEnv ⟨longDisk, []⟩ [3] steadyEnv_reliable long_volume 512 [0x61] long_named
    obtain ⟨r, ws, m'', ran', -, idle, -⟩ := call_alters (m := ⟨longDisk, []⟩) steadyEnv_reliable long_volume (.delete [0x61])
    cases ran.unique ran'
    cases (idle.mpr missing).1
  · have stores : (Call.create [0x61]).content ≠ none := by decide
    have stays := all sample steadyEnv ⟨longDisk, []⟩ [3] steadyEnv_reliable long_volume (.create [0x61]) stores
    have declined := (staysUnrepeated_iff steadyEnv_reliable long_volume stores).mp stays ⟨512, by decide, long_named⟩
    simp [Declined, long_lookup] at declined

theorem first_cluster_only_long :
    (∀ p, p < sample.clusterSize → ReadsAt sample (128 * sample.spf) steadyEnv ⟨longDisk, []⟩ [3] p ∧
      RemovesAt sample (128 * sample.spf) steadyEnv ⟨longDisk, []⟩ [3] p) ∧
    (∀ call : Call, call.content ≠ none → (StaysUnrepeated sample (128 * sample.spf) steadyEnv ⟨longDisk, []⟩ [3] call ↔
      (Late sample (view sample (128 * sample.spf) longDisk) [3] call.fatname → Declined sample longDisk call))) ∧
    (∀ name, (∀ p, NamedAt sample (view sample (128 * sample.spf) longDisk) [3] (nameToFat83 name) p →
        sample.clusterSize ≤ p) →
      (∀ buf, ∃ m', Returns (fun n => fat32ReadFile sample n name buf steadyEnv ⟨longDisk, []⟩) ((0, buf), m')) ∧
      ∃ m', Returns (fun n => fat32DeleteFile sample n name steadyEnv ⟨longDisk, []⟩) (0, m') ∧ m'.disk = longDisk) ∧
    ∀ call : Call, ∃ r m', Returns (fun n => call.run sample n steadyEnv ⟨longDisk, []⟩) (r, m') ∧
      Chain (Valid (128 * sample.spf)) Final (view sample (128 * sample.spf) m'.disk).fat sample.rootCluster
        (sample.rootCluster :: [3]) ∧
      ∀ c ∈ [3], (view sample (128 * sample.spf) m'.disk).data c = (view sample (128 * sample.spf) longDisk).data c :=
  first_cluster_only (m := ⟨longDisk, []⟩) steadyEnv_reliable long_volume

end ChrisOS.Fs.Fat32
