import ChrisOS.Fs.Fat32.Calls
import ChrisOS.Fs.Fat32.WellFormed
import Mathlib.Data.Nat.Find
import Mathlib.Tactic.Common

/-! Create, write and delete on a well-formed volume: each call either is refused
and writes nothing, or rewrites one directory entry together with its chain.
-/

set_option autoImplicit false

namespace ChrisOS.Fs.Fat32
open ChrisOS.Lib ChrisOS.Lib.Chains ChrisOS.Drivers.Ata

section
variable (g : Statics) (limit : Nat)

/-- The bytes of a file of this size on these clusters. -/
def contents (v : View) (ks : List Nat) (size : Nat) : List UInt8 :=
  (List.range size).map fun i => v.data (ks.getD (i / g.clusterSize) 0) (i % g.clusterSize)

/-- The entry at an offset is that of a file with this name and these bytes. -/
structure FileAt (v : View) (off : Nat) (ks : List Nat) (fatname : FatName) (bytes : List UInt8) : Prop where
  owns : Owns g limit v off ks
  named : nameAt (v.dir g) off = fatname
  holds : bytes = contents g v ks (entrySize (v.dir g) off)

/-- No file has the name. -/
def Absent (v : View) (fatname : FatName) : Prop :=
  ∀ off, Live (v.dir g) g.clusterSize off → nameAt (v.dir g) off ≠ fatname

/-- Every entry of the directory is taken. -/
def DirFull (v : View) : Prop := ∀ off, Slot g.clusterSize off → ¬Unused (v.dir g) off

/-- Every cluster is marked used. -/
def DiskFull (v : View) : Prop := ∀ c, Valid limit c → v.fat c ≠ 0

/-- The reasons to refuse a call. -/
def Refused (v : View) : Call → Prop
  | .create name => ¬Absent g v (nameToFat83 name) ∨ DirFull g v
  | .write name data => g.clusterSize < data.length ∨ (Absent g v (nameToFat83 name) ∧ DirFull g v) ∨
      (data ≠ [] ∧ DiskFull limit v ∧ ∀ off ks, Owns g limit v off ks → nameAt (v.dir g) off = nameToFat83 name → ks = [])
  | .delete name => Absent g v (nameToFat83 name)

/-- Where a call stores the entry of a name, and the clusters the entry had. -/
inductive Place (v : View) (fatname : FatName) : Nat → List Nat → Prop where
  | own {off : Nat} {old : List Nat} : Owns g limit v off old → nameAt (v.dir g) off = fatname → Place v fatname off old
  | free {off : Nat} : FirstUnused (v.dir g) g.clusterSize off → Absent g v fatname → Place v fatname off []

/-- A served call rewrote the entry of the file it names. -/
structure Served (v v' : View) (call : Call) (off : Nat) (old new : List Nat) : Prop where
  rewrites : Rewrites g limit v v' off old new
  place : Place g limit v call.fatname off old
  created : ∀ name, call = .create name → Absent g v call.fatname
  removed : call.content = none → v'.dir g off = 0xE5 ∧ Owns g limit v off old ∧
    nameAt (v.dir g) off = call.fatname
  stored : ∀ bytes, call.content = some bytes → FileAt g limit v' off new call.fatname bytes ∧
    entrySize (v'.dir g) off = bytes.length ∧ bytes.length ≤ g.clusterSize ∧
    bytes.length ≤ new.length * g.clusterSize

/-- The volumes a stop during a served call can leave. -/
def Between (v v' : View) (old new : List Nat) (u : View) : Prop :=
  u = v' ∨ (u.dir g = v.dir g ∧ ∀ c, c ∉ old → c ∉ new → u.fat c = v.fat c)

/-- What a call returns and writes. -/
inductive Outcome (d : Disk) (call : Call) : Nat → SectorWrites → Prop where
  | refused : Refused g limit (view g limit d) call → Outcome d call 0 []
  | served {v' : View} {off : Nat} {old new : List Nat} {ws : SectorWrites} :
      Served g limit (view g limit d) v' call off old new →
      Stage g limit d ws v' (Between g (view g limit d) v' old new) → Outcome d call 1 ws

/-- A disk that holds a well-formed volume. -/
structure Volume (d : Disk) : Prop where
  geometry : Geometry g limit
  mirrored : Mirrored g d
  wellFormed : WellFormed g limit (view g limit d)

end

/-! ### Loading and flushing the directory -/

section
variable {g : Statics} {limit : Nat} (geo : Geometry g limit)
include geo

theorem clusterByte_eq (d : Disk) {c k : Nat} (valid : Valid limit c) (inside : k < g.clusterSize) :
    clusterByte g d c k = (view g limit d).data c k := by
  have size : g.clusterSize = g.spc * 512 := rfl
  rw [clusterByte, runByte, geo.sectorAddr_eq (geo.sits_cluster valid.1 valid.2 (by omega)), view_data,
    if_pos ⟨valid.1, valid.2, inside⟩]

theorem rootBytes_eq (d : Disk) {k : Nat} (inside : k < g.clusterSize) : rootBytes g d k = (view g limit d).dir g k :=
  clusterByte_eq geo d geo.root inside

theorem rootBytes_entry (d : Disk) {off : Nat} (slot : Slot g.clusterSize off) :
    SameEntry (rootBytes g d) ((view g limit d).dir g) off :=
  sameEntry_of_loaded slot fun _ inside => rootBytes_eq geo d inside

theorem lookup_eq (d : Disk) (fatname : FatName) :
    lookup g d fatname = findDirEntry ((view g limit d).dir g) g.clusterSize fatname :=
  findDirEntry_congr fun _ inside => rootBytes_eq geo d inside

theorem storeWrites_eq (d : Disk) {off : Nat} (slot : Slot g.clusterSize off) (fatname : FatName) (start size : Nat) :
    storeWrites g d off fatname start size = dirWrites g off (entryAt ((view g limit d).dir g) off fatname start size) :=
  dirWrites_congr slot fun k inside => by simp only [entryAt, rootBytes_eq geo d inside]

theorem markWrites_eq (d : Disk) {off : Nat} (slot : Slot g.clusterSize off) :
    markWrites g d off = dirWrites g off (Function.update ((view g limit d).dir g) off 0xE5) :=
  dirWrites_congr slot fun k inside => by simp only [Function.update_apply, rootBytes_eq geo d inside]

/-- Flushing a directory that differs from the one on disk in one entry. -/
theorem stage_dir {d : Disk} {f h : Nat → UInt8} {off : Nat} (slot : Slot g.clusterSize off)
    (onDisk : (view g limit d).dir g = f) (past : ∀ k, g.clusterSize ≤ k → h k = 0)
    (others : ∀ k, k < off ∨ off + 32 ≤ k → h k = f k) :
    Stage g limit d (dirWrites g off h) ((view g limit d).setData g.rootCluster h)
      fun u => u = view g limit d ∨ u = (view g limit d).setData g.rootCluster h := by
  have aligned := slot.1
  have filled : (fun k => if k < g.clusterSize then h k else 0) = h := by
    funext k
    split
    · rfl
    · exact (past k (by omega)).symm
  have stage := stage_flush geo d slot.2 h fun k inside sector => by
    rw [others k (by omega), ← onDisk]
    rfl
  rwa [filled] at stage

end

theorem view_past (g : Statics) (limit : Nat) (d : Disk) {k : Nat} (past : g.clusterSize ≤ k) :
    (view g limit d).dir g k = 0 := by
  rw [View.dir, view_data, if_neg (by omega)]

/-! ### Taking a cluster and freeing the old ones -/

section
variable {g : Statics} {limit : Nat} (geo : Geometry g limit)
include geo

/-- The allocator takes the lowest free cluster when the volume has one. -/
theorem searchFat_takes (d : Disk) (free : ∃ c, Valid limit c ∧ (view g limit d).fat c = 0) :
    ∃ c, Valid limit c ∧ (view g limit d).fat c = 0 ∧ searchFat g d g.spf 0 = some (c / 128, c % 128) := by
  classical
  obtain ⟨valid, zero⟩ := Nat.find_spec free
  have before : ∀ k, 2 ≤ k → k < Nat.find free → (view g limit d).fat k ≠ 0 :=
    fun k low less zero => Nat.find_min free less ⟨⟨low, Nat.lt_trans less valid.2⟩, zero⟩
  generalize Nat.find free = c at valid zero before
  have bound := geo.limit_le
  have covered := geo.covered
  have high := valid.2
  refine ⟨c, valid, zero, searchFat_finds (slot_eq geo d) valid.1 (by omega) zero before ?_ (by omega)⟩
  omega

/-- It finds nothing when every entry of the FAT is used. -/
theorem searchFat_full (whole : limit = 128 * g.spf) (d : Disk) (full : DiskFull limit (view g limit d)) :
    searchFat g d g.spf 0 = none := by
  exact searchFat_none (slot_eq geo d) (fun k low high => full k ⟨low, by omega⟩) (show 0 + g.spf ≤ g.spf by omega)

theorem FileChain.walk (d : Disk) {start : Nat} {ks : List Nat} (chain : FileChain limit (view g limit d).fat start ks) :
    FreeWalk g d start (freeWrites g d ks) := by
  cases chain with
  | empty => exact .stop (by decide)
  | chain valid chain => exact FreeWalk.of_chain geo chain (chain.nodup geo.valid_apart) d fun _ _ => rfl

/-- The place of a write as the driver finds it. -/
theorem Place.places {d : Disk} (wf : WellFormed g limit (view g limit d)) {fatname : FatName} {off : Nat}
    {old : List Nat} (place : Place g limit (view g limit d) fatname off old) :
    Places g d fatname off (freeWrites g d old) := by
  have found := findDirEntry_found fatname wf.ended (clusterSize_whole g)
  rw [← lookup_eq geo] at found
  cases search : lookup g d fatname with
  | mk hit free =>
    rw [search] at found
    cases place with
    | own owns named =>
      cases found with
      | room absent _ => exact absurd named (absent off owns.live)
      | full absent _ => exact absurd named (absent off owns.live)
      | hit live here =>
        obtain rfl := wf.distinct _ off live owns.live (here.trans named.symm)
        refine .own search ?_
        rw [(rootBytes_entry geo d live.slot).entryCluster]
        exact owns.chain.walk geo d
    | free first missing =>
      cases found with
      | hit live here => exact absurd here (missing _ live)
      | full _ full => exact absurd first.unused (full off first.slot)
      | room _ other =>
        obtain rfl := other.unique first
        exact .free search

end

/-! ### The volume a served call leaves -/

/-- The volume with another directory, the old clusters freed and the new ones taken. -/
def View.rewrite (g : Statics) (v : View) (dir : Nat → UInt8) (old new : List Nat) (fill : Nat → UInt8) : View where
  fat c := if c ∈ new then 0x0FFFFFFF else if c ∈ old then 0 else v.fat c
  data c := if c = g.rootCluster then dir else if c ∈ new then fill else v.data c

@[simp] theorem View.rewrite_dir (g : Statics) (v : View) (dir : Nat → UInt8) (old new : List Nat)
    (fill : Nat → UInt8) : (v.rewrite g dir old new fill).dir g = dir := if_pos rfl

section
variable (g : Statics) (limit : Nat)

/-- The start cluster and the clusters of a file that is stored anew. -/
inductive Taken (limit : Nat) (v : View) (old : List Nat) : Nat → List Nat → Prop where
  | none : Taken limit v old 0 []
  | one {c : Nat} : Valid limit c → v.fat c = 0 ∨ c ∈ old → Taken limit v old c [c]

end

section
variable {g : Statics} {limit : Nat} {v : View} {fatname : FatName} {off : Nat} {old new : List Nat}

theorem Place.slot (place : Place g limit v fatname off old) : Slot g.clusterSize off := by
  cases place with
  | own owns _ => exact owns.live.slot
  | free first _ => exact first.slot

theorem Place.before (wf : WellFormed g limit v) (place : Place g limit v fatname off old) :
    ∀ o, o < off → Slot g.clusterSize o → v.dir g o ≠ 0 := by
  intro o earlier slot zero
  cases place with
  | own owns _ => exact wf.ended.not_live slot zero (Nat.le_of_lt earlier) owns.live
  | free first _ => exact first.first o earlier slot (.inl zero)

theorem Place.held (place : Place g limit v fatname off old) :
    Owns g limit v off old ∨ (Unused (v.dir g) off ∧ old = []) := by
  cases place with
  | own owns _ => exact .inl owns
  | free first _ => exact .inr ⟨first.unused, rfl⟩

theorem Place.others (wf : WellFormed g limit v) (place : Place g limit v fatname off old) :
    ∀ o, o ≠ off → Live (v.dir g) g.clusterSize o → nameAt (v.dir g) o ≠ fatname := by
  intro o other live same
  cases place with
  | own owns named => exact other (wf.distinct o off live owns.live (same.trans named.symm))
  | free _ absent => exact absent o live same

/-- A write finds a place for the name unless the directory is full. -/
theorem WellFormed.place_or_full (wf : WellFormed g limit v) (fatname : FatName) :
    (∃ off old, Place g limit v fatname off old) ∨ (Absent g v fatname ∧ DirFull g v) := by
  have found := findDirEntry_found fatname wf.ended (clusterSize_whole g)
  generalize findDirEntry (v.dir g) g.clusterSize fatname = search at found
  cases found with
  | @hit off _ live named =>
    obtain ⟨old, owns⟩ := wf.chained off live
    exact .inl ⟨off, old, .own owns named⟩
  | @room off absent first => exact .inl ⟨off, [], .free first absent⟩
  | full absent full => exact .inr ⟨absent, full⟩

theorem Place.root_kept (wf : WellFormed g limit v) (place : Place g limit v fatname off old) :
    g.rootCluster ∉ old := by
  rcases place.held with owns | ⟨-, rfl⟩
  · exact wf.apart off old owns
  · exact List.not_mem_nil

theorem Taken.fresh {start : Nat} (taken : Taken limit v old start new) :
    ∀ c ∈ new, Valid limit c ∧ (v.fat c = 0 ∨ c ∈ old) := by
  cases taken with
  | none => exact fun _ member => absurd member List.not_mem_nil
  | one valid free =>
    intro c member
    cases List.mem_singleton.mp member
    exact ⟨valid, free⟩

theorem Taken.start_lt (geo : Geometry g limit) {start : Nat} (taken : Taken limit v old start new) : start < 2 ^ 32 := by
  cases taken with
  | none => exact Nat.two_pow_pos 32
  | one valid _ =>
    have := geo.limit_le
    have := valid.2
    omega

theorem Taken.chain {start : Nat} (taken : Taken limit v old start new) (dir fill : Nat → UInt8) :
    FileChain limit (v.rewrite g dir old new fill).fat start new := by
  cases taken with
  | none => exact .empty
  | one valid _ =>
    refine .chain valid (.link valid (.stop ?_))
    simp only [View.rewrite, List.mem_singleton, ↓reduceIte]
    exact (by decide : (0x0FFFFFF8 : Nat) ≤ 0x0FFFFFFF)

/-- What the rewritten volume has in common with any other of the same entry. -/
theorem rewrites_of_place (wf : WellFormed g limit v) (place : Place g limit v fatname off old) {dir fill : Nat → UInt8}
    (outside : ∀ k, k < off ∨ off + 32 ≤ k → dir k = v.dir g k)
    (fresh : ∀ c ∈ new, Valid limit c ∧ (v.fat c = 0 ∨ c ∈ old))
    (entry : (dir off = 0xE5 ∧ new = []) ∨ (Owns g limit (v.rewrite g dir old new fill) off new ∧
      nameAt dir off = fatname)) :
    Rewrites g limit v (v.rewrite g dir old new fill) off old new where
  slot := place.slot
  before := place.before wf
  held := place.held
  fat _ := rfl
  fresh := fresh
  data c notNew notRoot := by simp only [View.rewrite, notRoot, notNew, ↓reduceIte]
  dir k out := by rw [View.rewrite_dir, outside k out]
  entry := by
    rw [View.rewrite_dir]
    refine entry.imp_right fun ⟨owns, named⟩ => ⟨owns, fun o other live => ?_⟩
    rw [named]
    exact place.others wf o other live

theorem contents_one (c : Nat) (u : View) {data : List UInt8}
    (fits : data.length ≤ g.clusterSize) (stored : u.data c = Call.memory data) :
    data = contents g u [c] data.length := by
  refine List.ext_getElem (by simp [contents]) fun i inside inside' => ?_
  have positive : i < g.clusterSize := by omega
  simp only [contents, List.getElem_map, List.getElem_range, Nat.div_eq_of_lt positive, Nat.mod_eq_of_lt positive,
    List.getD_cons_zero, stored, Call.memory]
  exact (List.getD_eq_getElem data 0 inside).symm

/-- A file stored anew: its entry rewritten, its data on at most one cluster. -/
theorem served_stored (call : Call) (geo : Geometry g limit) (wf : WellFormed g limit v) {data : List UInt8}
    (content : call.content = some data) (proper : Proper call.fatname) (place : Place g limit v call.fatname off old)
    {start : Nat} (taken : Taken limit v old start new) (fits : data.length ≤ g.clusterSize)
    (needed : new = [] → data = []) (created : ∀ name, call = .create name → Absent g v call.fatname) :
    Served g limit v (v.rewrite g (entryAt (v.dir g) off call.fatname start data.length) old new (Call.memory data))
      call off old new := by
  have short := clusterSize_lt g
  have owns : Owns g limit (v.rewrite g (entryAt (v.dir g) off call.fatname start data.length) old new (Call.memory data))
      off new := by
    refine ⟨?_, ?_⟩
    · rw [View.rewrite_dir]
      refine ⟨place.slot, ?_, ?_⟩
      · rw [Unused, entryAt_first]
        exact not_or.mpr proper
      · rw [entryAt_attributes]
        decide
    · rw [View.rewrite_dir, entryCluster_entryAt _ _ _ (taken.start_lt geo)]
      exact taken.chain _ _
  constructor
  case rewrites =>
    exact rewrites_of_place wf place (fun k => entryAt_outside _ _ _ _ _) taken.fresh
      (.inr ⟨owns, nameAt_entryAt _ _ _ _ _⟩)
  case place => exact place
  case created => exact created
  case removed =>
    intro none
    rw [content] at none
    cases none
  case stored =>
    intro bytes same
    obtain rfl := Option.some.inj (content.symm.trans same)
    have size : entrySize ((v.rewrite g (entryAt (v.dir g) off call.fatname start data.length) old new
        (Call.memory data)).dir g) off = data.length := by
      rw [View.rewrite_dir, entrySize_entryAt _ _ _ _ (by omega)]
    have room : data.length ≤ new.length * g.clusterSize := by
      cases taken with
      | none => simp [needed rfl]
      | one _ _ => simpa using fits
    refine ⟨⟨owns, by rw [View.rewrite_dir, nameAt_entryAt], ?_⟩, size, fits, room⟩
    rw [size]
    cases taken with
    | none =>
      rw [needed rfl]
      rfl
    | one valid free =>
      have notRoot : start ≠ g.rootCluster := by
        rintro rfl
        exact free.elim wf.root_used (place.root_kept wf)
      refine contents_one start _ fits ?_
      simp only [View.rewrite, notRoot, List.mem_singleton, ↓reduceIte]

/-- A file deleted: its entry marked, its clusters freed. -/
theorem served_deleted (wf : WellFormed g limit v) (name : List UInt8) (owns : Owns g limit v off old)
    (named : nameAt (v.dir g) off = nameToFat83 name) :
    Served g limit v (v.rewrite g (Function.update (v.dir g) off 0xE5) old [] fun _ => 0) (.delete name) off old [] := by
  constructor
  case rewrites =>
    refine rewrites_of_place wf (.own owns named) (fun k outside => Function.update_of_ne (by omega) _ _)
      (fun _ member => absurd member List.not_mem_nil) (.inl ⟨Function.update_self _ _ _, rfl⟩)
  case place => exact .own owns named
  case created => exact fun _ same => nomatch same
  case removed =>
    intro _
    rw [View.rewrite_dir]
    exact ⟨Function.update_self _ _ _, owns, named⟩
  case stored => exact fun _ same => nomatch same

end

/-! ### What a call does -/

/-- A stop before the directory is flushed leaves the old directory and touches
only the clusters of the named file. -/
theorem between_of_stop {g : Statics} {v v' u : View} {old new : List Nat} (dir : u.dir g = v.dir g)
    (fat : ∀ c, c ∉ old → c ∉ new → u.fat c = v.fat c) : Between g v v' old new u := .inr ⟨dir, fat⟩

theorem freed_other (v : View) {old : List Nat} {c : Nat} (other : c ∉ old) : (v.freed old).fat c = v.fat c :=
  clear_of_not_mem _ _ other

theorem PartlyFreed.between {g : Statics} {v v' u : View} {old : List Nat} (new : List Nat)
    (partly : PartlyFreed v old u) : Between g v v' old new u := by
  obtain ⟨done, rest, rfl, rfl⟩ := partly
  exact between_of_stop rfl fun c other _ => freed_other v fun member => other (List.mem_append_left rest member)

section
variable {g : Statics} {limit : Nat} (geo : Geometry g limit) {v : View} {off : Nat} {old : List Nat}
  (slot : Slot g.clusterSize off)
include geo slot

/-- The last write of a served call stores the directory. -/
theorem stage_last (d : Disk) (old new : List Nat) (fill : Nat → UInt8) {dir : Nat → UInt8} (past : ∀ k, g.clusterSize ≤ k → dir k = 0)
    (outside : ∀ k, k < off ∨ off + 32 ≤ k → dir k = v.dir g k) (fat : (view g limit d).fat = (v.rewrite g dir old new fill).fat)
    (data : ∀ c, c ≠ g.rootCluster → (view g limit d).data c = (v.rewrite g dir old new fill).data c)
    (onDisk : (view g limit d).dir g = v.dir g) :
    Stage g limit d (dirWrites g off dir) (v.rewrite g dir old new fill)
      (Between g v (v.rewrite g dir old new fill) old new) := by
  have stage := stage_dir geo slot onDisk past outside
  have result : (view g limit d).setData g.rootCluster dir = v.rewrite g dir old new fill := by
    refine View.ext fat ?_
    funext c
    by_cases root : c = g.rootCluster
    · subst root
      rw [View.setData_data, Function.update_self]
      exact (v.rewrite_dir g dir old new fill).symm
    · rw [View.setData_data, Function.update_of_ne root, data c root]
  rw [result] at stage
  refine stage.mono fun u => ?_
  rintro (rfl | rfl)
  · refine between_of_stop onDisk fun c notOld notNew => ?_
    simp only [fat, View.rewrite, notOld, notNew, ↓reduceIte]
  · exact .inl rfl

omit geo in
/-- The entry stored by create and write leaves nothing behind the directory. -/
theorem entryAt_past (past : ∀ k, g.clusterSize ≤ k → v.dir g k = 0) (fatname : FatName) (start size : Nat) :
    ∀ k, g.clusterSize ≤ k → entryAt (v.dir g) off fatname start size k = 0 := by
  intro k beyond
  obtain ⟨whole, inside⟩ := slot
  have aligned := clusterSize_whole g
  rw [entryAt_outside _ _ _ _ _ (by omega), past k beyond]

/-- Storing an empty file, from the point where its old clusters are free. -/
theorem stage_bare {d : Disk} (past : ∀ k, g.clusterSize ≤ k → v.dir g k = 0) (fatname : FatName)
    (freed : view g limit d = v.freed old) :
    Stage g limit d (dirWrites g off (entryAt (v.dir g) off fatname 0 0))
      (v.rewrite g (entryAt (v.dir g) off fatname 0 0) old [] (Call.memory []))
      (Between g v (v.rewrite g (entryAt (v.dir g) off fatname 0 0) old [] (Call.memory [])) old []) := by
  refine stage_last geo slot d old [] (Call.memory []) (entryAt_past slot past fatname 0 0) (fun k => entryAt_outside _ _ _ _ _) ?_ ?_ ?_
  · rw [freed]
    funext c
    simp only [View.rewrite, View.freed, clear, List.not_mem_nil, ↓reduceIte]
  · intro c notRoot
    simp only [freed, View.rewrite, View.freed_data, notRoot, List.not_mem_nil, ↓reduceIte]
  · rw [freed]
    rfl

/-- Storing data on the cluster the allocator finds. -/
theorem stage_filled {d : Disk} (past : ∀ k, g.clusterSize ≤ k → v.dir g k = 0) (fatname : FatName)
    (freed : view g limit d = v.freed old) {data : List UInt8} (fits : data.length ≤ g.clusterSize) {c : Nat}
    (valid : Valid limit c) (notRoot : c ≠ g.rootCluster) :
    Stage g limit d (allocWrites g d (some (c / 128, c % 128)) ++ (runWrites (clusterLba g c) (Call.memory data) g.spc ++
        dirWrites g off (entryAt (v.dir g) off fatname c data.length)))
      (v.rewrite g (entryAt (v.dir g) off fatname c data.length) old [c] (Call.memory data))
      (Between g v (v.rewrite g (entryAt (v.dir g) off fatname c data.length) old [c] (Call.memory data)) old [c]) := by
  have alloc := stage_alloc geo d valid.2
  generalize allocWrites g d (some (c / 128, c % 128)) = allocated at alloc ⊢
  have zeros : (fun k => if k < g.clusterSize then Call.memory data k else 0) = Call.memory data := by
    funext k
    split
    · rfl
    · exact (List.getD_eq_default _ _ (by omega)).symm
  have store := stage_cluster geo (land allocated d) valid (Call.memory data)
  rw [zeros, alloc.lands, freed] at store
  have last := stage_last geo slot (land (runWrites (clusterLba g c) (Call.memory data) g.spc) (land allocated d))
    old [c] (Call.memory data) (entryAt_past slot past fatname c data.length)
    (fun k => entryAt_outside _ _ _ _ _)
    (by
      rw [store.lands]
      funext k
      simp only [View.setData_fat, View.setFat_fat, View.rewrite, View.freed, clear, Function.update_apply,
        List.mem_singleton])
    (by
      intro k other
      rw [store.lands]
      simp only [View.setData_data, View.setFat_data, View.freed_data, View.rewrite, Function.update_apply, other,
        List.mem_singleton, ↓reduceIte])
    (by
      rw [store.lands, View.dir, View.setData_data, Function.update_of_ne (Ne.symm notRoot)]
      rfl)
  refine Stage.append (alloc.mono fun u => ?_) (Stage.append (store.mono fun u => ?_) last)
  · rw [freed]
    rintro (rfl | rfl)
    · exact between_of_stop rfl fun k notOld _ => freed_other v notOld
    · refine between_of_stop rfl fun k notOld notNew => ?_
      rw [View.setFat_fat, Function.update_of_ne fun same => notNew (List.mem_singleton.mpr same), freed_other v notOld]
  · rintro ⟨fat, others⟩
    refine between_of_stop ?_ fun k notOld notNew => ?_
    · rw [View.dir, others _ (Ne.symm notRoot)]
      rfl
    · rw [fat, View.setFat_fat, Function.update_of_ne fun same => notNew (List.mem_singleton.mpr same),
        freed_other v notOld]

/-- Freeing the clusters of a file and marking its entry deleted. -/
theorem stage_marked (d : Disk) (valid : ∀ c ∈ old, Valid limit c) :
    Stage g limit d (freeWrites g d old ++ dirWrites g off (Function.update ((view g limit d).dir g) off 0xE5))
      ((view g limit d).rewrite g (Function.update ((view g limit d).dir g) off 0xE5) old [] fun _ => 0)
      (Between g (view g limit d) ((view g limit d).rewrite g (Function.update ((view g limit d).dir g) off 0xE5) old []
        fun _ => 0) old []) := by
  have freed := stage_free geo valid d
  have past : ∀ k, g.clusterSize ≤ k → Function.update ((view g limit d).dir g) off 0xE5 k = 0 := by
    intro k beyond
    have inside := slot.2
    rw [Function.update_of_ne (by omega), view_past g limit d beyond]
  have last := stage_last geo slot (land (freeWrites g d old) d) old [] (fun _ => 0)
    past (fun k outside => Function.update_of_ne (by omega) _ _)
    (by
      rw [freed.lands]
      funext c
      simp only [View.rewrite, View.freed, clear, List.not_mem_nil, ↓reduceIte])
    (by
      intro c notRoot
      simp only [freed.lands, View.rewrite, View.freed_data, notRoot, List.not_mem_nil, ↓reduceIte])
    (by
      rw [freed.lands]
      rfl)
  exact Stage.append (freed.mono fun u partly => partly.between []) last

end

/-- A write that needs a cluster when there is none to be had. -/
def Starved (g : Statics) (limit : Nat) (v : View) (call : Call) : Prop :=
  DiskFull limit v ∧ ∃ name data, call = .write name data ∧ data ≠ [] ∧ data.length ≤ g.clusterSize ∧
    ¬(Absent g v (nameToFat83 name) ∧ DirFull g v) ∧
    ∀ off ks, Owns g limit v off ks → nameAt (v.dir g) off = nameToFat83 name → ks = []

section
variable {g : Statics} {limit : Nat} {d : Disk} (vol : Volume g limit d)
include vol

theorem create_outcome {name : List UInt8} (allowed : (Call.create name).Allowed) :
    ∃ r ws, Outcome g limit d (.create name) r ws ∧ Acts g d (.create name) r ws := by
  have geo := vol.geometry
  have found := findDirEntry_found (nameToFat83 name) vol.wellFormed.ended (clusterSize_whole g)
  rw [← lookup_eq geo] at found
  cases search : lookup g d (nameToFat83 name) with
  | mk hit free =>
    rw [search] at found
    cases found with
    | @hit off _ live named => exact ⟨0, [], .refused (.inl fun absent => absent off live named), .taken search⟩
    | full absent full => exact ⟨0, [], .refused (.inr full), .noRoom search⟩
    | @room off absent first =>
      have place : Place g limit (view g limit d) (nameToFat83 name) off [] := .free first absent
      have stage := stage_bare geo first.slot (d := d) (fun k => view_past g limit d) (nameToFat83 name) (View.freed_nil _).symm
      rw [← storeWrites_eq geo d first.slot] at stage
      exact ⟨1, _, .served (served_stored (.create name) geo vol.wellFormed rfl allowed.proper place .none
        (Nat.zero_le _) (fun _ => rfl) fun _ _ => absent) stage, .creates search⟩

/-- Deleting a file frees its clusters one by one and then marks its entry. -/
theorem delete_found {name : List UInt8} {off : Nat} {old : List Nat} (owns : Owns g limit (view g limit d) off old)
    (named : nameAt ((view g limit d).dir g) off = nameToFat83 name) :
    Acts g d (.delete name) 1
      (freeWrites g d old ++ dirWrites g off (Function.update ((view g limit d).dir g) off 0xE5)) := by
  have geo := vol.geometry
  have place : Place g limit (view g limit d) (nameToFat83 name) off old := .own owns named
  rw [← markWrites_eq geo d owns.live.slot]
  have places := place.places geo vol.wellFormed
  generalize freeWrites g d old = ws at places ⊢
  cases places with
  | own found walk => exact .deletes (congrArg Prod.fst found) walk
  | free found =>
    rw [lookup_eq geo] at found
    exact absurd (findDirEntry_room (clusterSize_whole g) found).unused owns.live.used

theorem delete_outcome (name : List UInt8) :
    ∃ r ws, Outcome g limit d (.delete name) r ws ∧ Acts g d (.delete name) r ws := by
  have geo := vol.geometry
  have wf := vol.wellFormed
  have found := findDirEntry_found (nameToFat83 name) wf.ended (clusterSize_whole g)
  rw [← lookup_eq geo] at found
  cases search : lookup g d (nameToFat83 name) with
  | mk hit free =>
    rw [search] at found
    cases found with
    | room absent _ => exact ⟨0, [], .refused absent, .missing (congrArg Prod.fst search)⟩
    | full absent _ => exact ⟨0, [], .refused absent, .missing (congrArg Prod.fst search)⟩
    | @hit off _ live named =>
      obtain ⟨old, owns⟩ := wf.chained off live
      exact ⟨1, _, .served (served_deleted wf name owns named) (stage_marked geo live.slot d owns.chain.members),
        delete_found vol owns named⟩

/-- The rest of a write once its place is known and its old clusters are free. -/
theorem stores_outcome {name data : List UInt8} (allowed : (Call.write name data).Allowed)
    (fits : data.length ≤ g.clusterSize)
    (supply : limit = 128 * g.spf ∨ ¬Starved g limit (view g limit d) (.write name data))
    {off : Nat} {old : List Nat} (place : Place g limit (view g limit d) (nameToFat83 name) off old) :
    ∃ r ws, Outcome g limit d (.write name data) r (freeWrites g d old ++ ws) ∧
      Stores g d (land (freeWrites g d old) d) (nameToFat83 name) data off r ws := by
  have geo := vol.geometry
  have wf := vol.wellFormed
  have past := fun k => view_past g limit d (k := k)
  have valid : ∀ c ∈ old, Valid limit c := by
    rcases place.held with owns | ⟨-, rfl⟩
    · exact owns.chain.members
    · exact fun _ member => absurd member List.not_mem_nil
  have freed := stage_free geo valid d
  have partly {v' : View} {new : List Nat} : Stage g limit d (freeWrites g d old) _
      (Between g (view g limit d) v' old new) := freed.mono fun _ partly => partly.between new
  by_cases empty : data = []
  · subst empty
    have stage := stage_bare geo place.slot past (nameToFat83 name) freed.lands
    refine ⟨1, _, .served (served_stored (.write name []) geo wf rfl allowed.proper place .none (Nat.zero_le _)
      (fun _ => rfl) fun _ same => nomatch same) (partly.append stage), ?_⟩
    rw [← storeWrites_eq geo d place.slot]
    exact .bare rfl
  by_cases available : ∃ c, Valid limit c ∧ ((view g limit d).fat c = 0 ∨ c ∈ old)
  · have supplied : ∃ c, Valid limit c ∧ (view g limit (land (freeWrites g d old) d)).fat c = 0 := by
      obtain ⟨c, inside, free⟩ := available
      exact ⟨c, inside, by rwa [freed.lands, View.freed_eq_zero]⟩
    obtain ⟨c, inside, zero, found⟩ := searchFat_takes geo _ supplied
    rw [freed.lands, View.freed_eq_zero] at zero
    have notRoot : c ≠ g.rootCluster := by
      rintro rfl
      exact zero.elim wf.root_used (place.root_kept wf)
    have stage := stage_filled geo place.slot past (nameToFat83 name) freed.lands fits inside notRoot
    have result := allocResult_eq (show c < 2 ^ 32 by
      have := geo.limit_le
      have := inside.2
      omega)
    refine ⟨1, _, .served (served_stored (.write name data) geo wf rfl allowed.proper place (.one inside zero)
      fits (fun none => nomatch none) fun _ same => nomatch same) (partly.append stage), ?_⟩
    have stores : Stores g d (land (freeWrites g d old) d) (nameToFat83 name) data off 1 _ := .filled empty found
    rwa [result, storeWrites_eq geo d place.slot] at stores
  · -- the old file owned no cluster, or it would be free now
    have none : old = [] := by
      refine List.eq_nil_iff_forall_not_mem.mpr fun c member => available ⟨c, valid c member, .inr member⟩
    subst none
    have full : DiskFull limit (view g limit d) := fun c inside zero => available ⟨c, inside, .inl zero⟩
    have bare : ∀ o ks, Owns g limit (view g limit d) o ks →
        nameAt ((view g limit d).dir g) o = nameToFat83 name → ks = [] := by
      intro o ks owns named
      by_cases here : o = off
      · subst here
        rcases place.held with held | ⟨unused, -⟩
        · exact owns.chain.unique geo.valid_apart held.chain
        · exact absurd unused owns.live.used
      · exact absurd named (place.others wf o here owns.live)
    have room : ¬(Absent g (view g limit d) (nameToFat83 name) ∧ DirFull g (view g limit d)) := by
      rintro ⟨absent, taken⟩
      cases place with
      | own owns named => exact absent off owns.live named
      | free first _ => exact taken off first.slot first.unused
    have whole : limit = 128 * g.spf :=
      supply.resolve_right fun fed => fed ⟨full, name, data, rfl, empty, fits, room, bare⟩
    exact ⟨0, [], .refused (.inr (.inr ⟨empty, full, bare⟩)), .full empty (searchFat_full geo whole d full)⟩

theorem write_outcome {name data : List UInt8} (allowed : (Call.write name data).Allowed)
    (supply : limit = 128 * g.spf ∨ ¬Starved g limit (view g limit d) (.write name data)) :
    ∃ r ws, Outcome g limit d (.write name data) r ws ∧ Acts g d (.write name data) r ws := by
  have geo := vol.geometry
  by_cases fits : data.length ≤ g.clusterSize
  swap
  · exact ⟨0, [], .refused (.inl (Nat.not_le.mp fits)), .large (Nat.not_le.mp fits)⟩
  rcases vol.wellFormed.place_or_full (nameToFat83 name) with ⟨off, old, place⟩ | ⟨absent, full⟩
  · obtain ⟨r, ws, outcome, stores⟩ := stores_outcome vol allowed fits supply place
    exact ⟨r, _, outcome, .writes fits (place.places geo vol.wellFormed) stores⟩
  · refine ⟨0, [], .refused (.inr (.inl ⟨absent, full⟩)), .noPlace fits ?_⟩
    have found := findDirEntry_found (nameToFat83 name) vol.wellFormed.ended (clusterSize_whole g)
    rw [← lookup_eq geo] at found
    generalize lookup g d (nameToFat83 name) = search at found
    cases found with
    | hit live here => exact absurd here (absent _ live)
    | room _ first => exact absurd first.unused (full _ first.slot)
    | full _ _ => rfl

end

/-- Every call is refused, and writes nothing, or rewrites the entry of the file it
names. Clusters may run out only where the FAT has no entries behind the volume. -/
theorem call_outcome {g : Statics} {limit : Nat} {e : Env} (reliable : Reliable e) {m : Machine}
    (vol : Volume g limit m.disk) {call : Call} (allowed : call.Allowed)
    (supply : limit = 128 * g.spf ∨ ¬Starved g limit (view g limit m.disk) call) :
    ∃ r ws, Outcome g limit m.disk call r ws ∧ Does e m (fun n => call.run g n) ws fun x => x = r := by
  have acts : ∃ r ws, Outcome g limit m.disk call r ws ∧ Acts g m.disk call r ws := by
    cases call with
    | create name => exact create_outcome vol allowed
    | write name data => exact write_outcome vol allowed supply
    | delete name => exact delete_outcome vol name
  obtain ⟨r, ws, outcome, acts⟩ := acts
  exact ⟨r, ws, outcome, call_does reliable acts⟩

end ChrisOS.Fs.Fat32
