import ChrisOS.Fs.Fat32.Directory
import ChrisOS.Fs.Fat32.Termination

/-! Create, write and delete on any disk: which way a call goes by what it finds
in the directory, what it returns and which sectors it writes. Nothing is asked
of the volume.
-/

set_option autoImplicit false

namespace ChrisOS.Fs.Fat32
open ChrisOS.Lib ChrisOS.Drivers.Ata

/-- The calls that change the volume. -/
inductive Call where
  | create (name : List UInt8)
  | write (name data : List UInt8)
  | delete (name : List UInt8)
  deriving DecidableEq, Repr

namespace Call

def fatname : Call → FatName
  | create name => nameToFat83 name
  | write name _ => nameToFat83 name
  | delete name => nameToFat83 name

/-- What the named file holds after a call that is served. -/
def content : Call → Option (List UInt8)
  | create _ => some []
  | write _ data => some data
  | delete _ => none

/-- A list of bytes as the memory a pointer to it sees. -/
def memory (data : List UInt8) (k : Nat) : UInt8 := data.getD k 0

def run (g : Statics) (budget : Nat) : Call → Kern Nat
  | create name => fat32CreateFile g name
  | write name data => fat32WriteFile g budget name (memory data) data.length
  | delete name => fat32DeleteFile g budget name

/-- The name does not start with the byte that marks deleted entries. -/
def Allowed : Call → Prop
  | create name => name.head? ≠ some 0xE5
  | write name _ => name.head? ≠ some 0xE5
  | delete name => name.head? ≠ some 0xE5

theorem Allowed.proper {call : Call} (allowed : call.Allowed) : Proper call.fatname := by
  cases call <;> exact nameToFat83_proper allowed

end Call

/-! ### The directory buffer -/

theorem clusterSize_whole (g : Statics) : g.clusterSize % 32 = 0 := by
  unfold Statics.clusterSize
  omega

theorem clusterSize_lt (g : Statics) : g.clusterSize < 2 ^ 31 := by
  have small : g.spc < 2 ^ 8 := g.bpb.sectorsPerCluster.toNat_lt
  have size : g.clusterSize = g.spc * 512 := rfl
  omega

theorem sameEntry_of_loaded {g : Statics} {f h : Nat → UInt8} {off : Nat} (slot : Slot g.clusterSize off)
    (held : ∀ k, k < g.clusterSize → f k = h k) : SameEntry f h off := by
  intro k small
  obtain ⟨whole, inside⟩ := slot
  have aligned := clusterSize_whole g
  exact held _ (by omega)

theorem dirWrites_congr {g : Statics} {off : Nat} {f h : Nat → UInt8} (slot : Slot g.clusterSize off)
    (same : ∀ k, k < g.clusterSize → f k = h k) : dirWrites g off f = dirWrites g off h := by
  have size : g.clusterSize = g.spc * 512 := rfl
  have inside := slot.2
  rw [dirWrites, piece_congr fun k _ => same _ (by omega), dirWrites]

section
variable (g : Statics) (d : Disk)

/-- The root directory's bytes where the driver reads them. -/
def rootBytes (k : Nat) : UInt8 := clusterByte g d g.rootCluster k

/-- What find_dir_entry finds for a name: its entry and the first unused one. -/
def lookup (fatname : FatName) : Option Nat × Option Nat := findDirEntry (rootBytes g d) g.clusterSize fatname

/-- The entry that create and write store in the directory. -/
def storeWrites (off : Nat) (fatname : FatName) (start size : Nat) : SectorWrites :=
  dirWrites g off (entryAt (rootBytes g d) off fatname start size)

/-- The first byte of an entry replaced by the mark of deleted ones. -/
def markWrites (off : Nat) : SectorWrites := dirWrites g off (Function.update (rootBytes g d) off 0xE5)

/-- Where a write finds its entry, and the writes that free the clusters it had. -/
inductive Places (fatname : FatName) : Nat → SectorWrites → Prop where
  | own {off : Nat} {free : Option Nat} {ws : SectorWrites} : lookup g d fatname = (some off, free) →
      FreeWalk g d (entryCluster (rootBytes g d) off) ws → Places fatname off ws
  | free {off : Nat} : lookup g d fatname = (none, some off) → Places fatname off []

/-- The rest of a write on a disk `d'` where the old clusters are free: the cluster
taken for the data, the data, the entry. -/
inductive Stores (d' : Disk) (fatname : FatName) (data : List UInt8) (off : Nat) : Nat → SectorWrites → Prop where
  | bare : data = [] → Stores d' fatname data off 1 (storeWrites g d off fatname 0 0)
  | full : data ≠ [] → searchFat g d' g.spf 0 = none → Stores d' fatname data off 0 []
  | filled {s i : Nat} : data ≠ [] → searchFat g d' g.spf 0 = some (s, i) →
      Stores d' fatname data off 1 (allocWrites g d' (some (s, i)) ++
        (runWrites (clusterLba g (allocResult (some (s, i)))) (Call.memory data) g.spc ++
          storeWrites g d off fatname (allocResult (some (s, i))) data.length))

/-- What a call returns and the writes it issues. -/
inductive Acts : Call → Nat → SectorWrites → Prop where
  | taken {name : List UInt8} {off : Nat} {free : Option Nat} : lookup g d (nameToFat83 name) = (some off, free) →
      Acts (.create name) 0 []
  | noRoom {name : List UInt8} : lookup g d (nameToFat83 name) = (none, none) → Acts (.create name) 0 []
  | creates {name : List UInt8} {off : Nat} : lookup g d (nameToFat83 name) = (none, some off) →
      Acts (.create name) 1 (storeWrites g d off (nameToFat83 name) 0 0)
  | missing {name : List UInt8} : (lookup g d (nameToFat83 name)).1 = none → Acts (.delete name) 0 []
  | deletes {name : List UInt8} {off : Nat} {ws : SectorWrites} : (lookup g d (nameToFat83 name)).1 = some off →
      FreeWalk g d (entryCluster (rootBytes g d) off) ws → Acts (.delete name) 1 (ws ++ markWrites g d off)
  | large {name data : List UInt8} : g.clusterSize < data.length → Acts (.write name data) 0 []
  | noPlace {name data : List UInt8} : data.length ≤ g.clusterSize → lookup g d (nameToFat83 name) = (none, none) →
      Acts (.write name data) 0 []
  | writes {name data : List UInt8} {off r : Nat} {ws vs : SectorWrites} : data.length ≤ g.clusterSize →
      Places g d (nameToFat83 name) off ws → Stores g d (land ws d) (nameToFat83 name) data off r vs →
      Acts (.write name data) r (ws ++ vs)

end

/-! ### The routines -/

theorem allocResult_ne_zero {g : Statics} {d : Disk} {rounds s t i : Nat} (found : searchFat g d rounds s = some (t, i)) :
    allocResult (some (t, i)) ≠ 0 := by
  induction rounds generalizing s with
  | zero => cases found
  | succ rounds ih =>
    rw [searchFat] at found
    split at found
    · rename_i free
      cases found
      have real := (findFree_free free).1
      intro zero
      exact real (lt_of_eq_of_lt zero (by decide))
    · exact ih found

theorem Places.slot {g : Statics} {d : Disk} {fatname : FatName} {off : Nat} {ws : SectorWrites}
    (place : Places g d fatname off ws) : Slot g.clusterSize off := by
  cases place with
  | own found _ => exact (findDirEntry_hit (clusterSize_whole g) found).1.live.slot
  | free found => exact (findDirEntry_room (clusterSize_whole g) found).slot

section
variable {g : Statics} {e : Env} (reliable : Reliable e) {m : Machine}
include reliable

/-- A fresh block filled with the directory. -/
theorem loadRoot_reads {A : Type} {f : Nat → Buf → Kern A} {ws : SectorWrites} {post : A → Prop}
    (next : ∀ b m', m'.disk = m.disk → (∀ k, k < g.clusterSize → b.data k = rootBytes g m.disk k) →
      Does e m' (fun n => f n b) ws post) :
    Does e m (fun n => do
      let buf ← kmalloc g.clusterSize
      let buf ← readCluster g g.rootCluster buf 0
      f n buf) ws post := by
  refine Does.after (kmalloc_does _) fun buf m₁ same₁ _ => ?_
  refine Does.after (readCluster_does g reliable _ buf 0) fun b m₂ same₂ filled => ?_
  refine next b m₂ (same₂.trans same₁) fun k inside => ?_
  rw [filled k, if_pos (by omega), same₁, Nat.sub_zero, rootBytes]

/-- The end of fat32_write_file, from a buffer that holds the directory. -/
theorem writeEntry_does {dirbuf : Buf} {f : Nat → UInt8} {off : Nat} (slot : Slot g.clusterSize off)
    (held : ∀ k, k < g.clusterSize → dirbuf.data k = f k) (fatname : FatName) (start size : Nat) :
    Does e m (fun _ => writeEntry g fatname dirbuf off start size)
      (dirWrites g off (entryAt f off fatname start size)) fun r => r = 1 := by
  have flush := flushDirSector_does g reliable (m := m) (putEntry dirbuf off fatname start size) off
  rw [dirWrites_congr (h := entryAt f off fatname start size) slot fun k inside => by
    simp only [putEntry, entryAt, held k inside]] at flush
  exact Does.bind flush fun _ _ _ _ => Does.after (kfree_does _) fun _ _ _ _ => Does.pure rfl

/-- The data as a cluster image, written to a cluster. -/
theorem writeData_does {data : List UInt8} (cbuf : Buf) (cluster : Nat) :
    Does e m (fun _ => writeCluster g cluster (fillData cbuf g.clusterSize (Call.memory data) data.length))
      (runWrites (clusterLba g cluster) (Call.memory data) g.spc) fun _ => True := by
  have fill := writeCluster_does g reliable (m := m) cluster (fillData cbuf g.clusterSize (Call.memory data) data.length)
  rwa [runWrites_congr (h := Call.memory data) _ fun k inside => by
    have size : g.clusterSize = g.spc * 512 := rfl
    simp only [fillData]
    split
    · rfl
    · rw [if_pos (by omega)]
      exact (List.getD_eq_default _ _ (by omega)).symm] at fill

theorem Stores.does {d : Disk} {fatname : FatName} {data : List UInt8} {off r : Nat} {ws : SectorWrites}
    (stores : Stores g d m.disk fatname data off r ws) (slot : Slot g.clusterSize off) {dirbuf : Buf}
    (held : ∀ k, k < g.clusterSize → dirbuf.data k = rootBytes g d k) :
    Does e m (fun _ => writeBody g fatname (Call.memory data) data.length dirbuf off) ws fun x => x = r := by
  unfold writeBody
  cases stores with
  | bare empty =>
    subst empty
    exact writeEntry_does reliable slot held fatname 0 0
  | full nonempty none =>
    have positive : data.length > 0 := List.length_pos_iff.mpr nonempty
    rw [if_pos positive]
    have alloc := fatAllocCluster_does g reliable (m := m)
    rw [none] at alloc
    refine Does.after alloc fun x m₁ _ zero => ?_
    rw [if_pos (show x = 0 from zero)]
    refine Does.after (terminalWritestring_does _) fun _ _ _ _ => ?_
    exact Does.after (kfree_does _) fun _ _ _ _ => Does.pure rfl
  | filled nonempty found =>
    have positive : data.length > 0 := List.length_pos_iff.mpr nonempty
    rw [if_pos positive]
    have nonzero := allocResult_ne_zero found
    have alloc := fatAllocCluster_does g reliable (m := m)
    rw [found] at alloc
    refine Does.bind alloc fun x m₁ _ returned => ?_
    subst returned
    rw [if_neg nonzero]
    refine Does.after (kmalloc_does _) fun cbuf m₂ _ _ => ?_
    refine Does.bind (writeData_does reliable cbuf _) fun _ m₃ _ _ => Does.after (kfree_does _) fun _ m₄ _ _ => ?_
    exact writeEntry_does reliable slot held fatname _ data.length

theorem create_acts {name : List UInt8} {r : Nat} {ws : SectorWrites} (acts : Acts g m.disk (.create name) r ws) :
    Does e m (fun _ => fat32CreateFile g name) ws fun x => x = r := by
  cases acts with
  | taken found =>
    refine loadRoot_reads reliable fun b m' _ held => ?_
    simp only [findDirEntry_congr held, show findDirEntry _ _ _ = _ from found]
    refine Does.after (terminalWritestring_does _) fun _ _ _ _ => ?_
    exact Does.after (kfree_does _) fun _ _ _ _ => Does.pure rfl
  | noRoom found =>
    refine loadRoot_reads reliable fun b m' _ held => ?_
    simp only [findDirEntry_congr held, show findDirEntry _ _ _ = _ from found]
    refine Does.after (terminalWritestring_does _) fun _ _ _ _ => ?_
    exact Does.after (kfree_does _) fun _ _ _ _ => Does.pure rfl
  | creates found =>
    refine loadRoot_reads reliable fun b m' _ held => ?_
    simp only [findDirEntry_congr held, show findDirEntry _ _ _ = _ from found]
    exact writeEntry_does reliable (findDirEntry_room (clusterSize_whole g) found).slot held _ 0 0

theorem delete_acts {name : List UInt8} {r : Nat} {ws : SectorWrites} (acts : Acts g m.disk (.delete name) r ws) :
    Does e m (fun n => fat32DeleteFile g n name) ws fun x => x = r := by
  cases acts with
  | missing found =>
    refine loadRoot_reads reliable fun b m' _ held => ?_
    simp only [findDirEntry_congr held, show (findDirEntry _ _ _).1 = _ from found]
    exact Does.after (kfree_does _) fun _ _ _ _ => Does.pure rfl
  | @deletes name off ws found walk =>
    have live := (findDirEntry_hit (clusterSize_whole g) (Prod.ext found rfl)).1.live
    refine loadRoot_reads reliable fun b m' same held => ?_
    have entry := sameEntry_of_loaded live.slot held
    simp only [findDirEntry_congr held, show (findDirEntry _ _ _).1 = _ from found, entry.entryCluster]
    refine Does.bind (freeOld_walks g reliable (same ▸ walk)) fun _ m₁ _ _ => ?_
    have flush := flushDirSector_does g reliable (m := m₁) (putByte b off 0xE5) off
    rw [dirWrites_congr (h := Function.update (rootBytes g m.disk) off 0xE5) live.slot fun k inside => by
      simp only [putByte, Function.update_apply, held k inside]] at flush
    exact Does.bind flush fun _ _ _ _ => Does.after (kfree_does _) fun _ _ _ _ => Does.pure rfl

theorem write_acts {name data : List UInt8} {r : Nat} {ws : SectorWrites} (acts : Acts g m.disk (.write name data) r ws) :
    Does e m (fun n => fat32WriteFile g n name (Call.memory data) data.length) ws fun x => x = r := by
  unfold fat32WriteFile
  cases acts with
  | large oversize =>
    have large : data.length > g.clusterSize := oversize
    simp only [large, ↓reduceIte]
    exact Does.after (terminalWritestring_does _) fun _ _ _ _ => Does.pure rfl
  | noPlace fits found =>
    have small : ¬data.length > g.clusterSize := Nat.not_lt.mpr fits
    simp only [small, ↓reduceIte]
    refine loadRoot_reads reliable fun b m' _ held => ?_
    simp only [findDirEntry_congr held, show findDirEntry _ _ _ = _ from found]
    refine Does.after (terminalWritestring_does _) fun _ _ _ _ => ?_
    exact Does.after (kfree_does _) fun _ _ _ _ => Does.pure rfl
  | writes fits place stores =>
    have small : ¬data.length > g.clusterSize := Nat.not_lt.mpr fits
    simp only [small, ↓reduceIte]
    have slot := place.slot
    refine loadRoot_reads reliable fun b m' same held => ?_
    cases place with
    | own found walk =>
      have entry := sameEntry_of_loaded slot held
      simp only [findDirEntry_congr held, show findDirEntry _ _ _ = _ from found, entry.entryCluster]
      refine Does.bind (freeOld_walks g reliable (same ▸ walk)) fun _ m₁ effect _ => ?_
      have disk := effect.disk
      rw [same] at disk
      exact Stores.does reliable (disk ▸ stores) slot held
    | free found =>
      simp only [findDirEntry_congr held, show findDirEntry _ _ _ = _ from found]
      refine Stores.does reliable (d := m.disk) ?_ slot held
      rw [same]
      exact stores

theorem readFile_missing {name : List UInt8} (found : (lookup g m.disk (nameToFat83 name)).1 = none) (buf : Buf) :
    Does e m (fun n => fat32ReadFile g n name buf) [] fun r => r = (0, buf) := by
  refine loadRoot_reads reliable fun b m' _ held => ?_
  simp only [findDirEntry_congr held, show (findDirEntry _ _ _).1 = _ from found]
  exact Does.after (kfree_does _) fun _ _ _ _ => Does.pure rfl

theorem readFile_found {name : List UInt8} {off : Nat} (found : (lookup g m.disk (nameToFat83 name)).1 = some off)
    (buf : Buf) {post : Buf → Prop}
    (loop : ∀ m', m'.disk = m.disk → Does e m' (fun n => readFileLoop g n (entryCluster (rootBytes g m.disk) off)
      (entrySize (rootBytes g m.disk) off) buf 0) [] post) :
    Does e m (fun n => fat32ReadFile g n name buf) [] fun r =>
      r.1 = asInt (entrySize (rootBytes g m.disk) off) ∧ post r.2 := by
  have slot := (findDirEntry_hit (clusterSize_whole g) (Prod.ext found rfl)).1.live.slot
  refine loadRoot_reads reliable fun b m' same held => ?_
  have entry := sameEntry_of_loaded slot held
  simp only [findDirEntry_congr held, show (findDirEntry _ _ _).1 = _ from found, entry.entryCluster, entry.entrySize]
  refine Does.after (kfree_does _) fun _ m₁ same₁ _ => ?_
  exact Does.after (loop m₁ (same₁.trans same)) fun b' _ _ holds => Does.pure ⟨rfl, holds⟩

/-- A call does what the directory, the FAT and the geometry say. -/
theorem call_does {call : Call} {r : Nat} {ws : SectorWrites} (acts : Acts g m.disk call r ws) :
    Does e m (fun n => call.run g n) ws fun x => x = r := by
  cases call with
  | create name => exact create_acts reliable acts
  | write name data => exact write_acts reliable acts
  | delete name => exact delete_acts reliable acts

end

/-! ### Every call acts -/

theorem stores_exists (g : Statics) (d d' : Disk) (fatname : FatName) (data : List UInt8) (off : Nat) :
    ∃ r ws, Stores g d d' fatname data off r ws := by
  by_cases empty : data = []
  · exact ⟨1, _, .bare empty⟩
  · cases found : searchFat g d' g.spf 0 with
    | none => exact ⟨0, _, .full empty found⟩
    | some place => exact ⟨1, _, .filled (s := place.1) (i := place.2) empty found⟩

/-- Whatever is on the disk, a call on a mounted volume returns. -/
theorem acts_exists (bpb : Bpb) (d : Disk) (call : Call) : ∃ r ws, Acts (mount bpb) d call r ws := by
  cases call with
  | create name =>
    cases found : lookup (mount bpb) d (nameToFat83 name) with
    | mk hit free =>
      cases hit with
      | some off => exact ⟨0, _, .taken found⟩
      | none =>
        cases free with
        | none => exact ⟨0, _, .noRoom found⟩
        | some off => exact ⟨1, _, .creates found⟩
  | delete name =>
    cases found : (lookup (mount bpb) d (nameToFat83 name)).1 with
    | none => exact ⟨0, _, .missing found⟩
    | some off =>
      obtain ⟨ws, walk⟩ := freeWalk_ends bpb d (entryCluster (rootBytes (mount bpb) d) off)
      exact ⟨1, _, .deletes found walk⟩
  | write name data =>
    by_cases fits : data.length ≤ (mount bpb).clusterSize
    swap
    · exact ⟨0, _, .large (Nat.not_le.mp fits)⟩
    have placed {off : Nat} {ws : SectorWrites} (place : Places (mount bpb) d (nameToFat83 name) off ws) :
        ∃ r ws, Acts (mount bpb) d (.write name data) r ws := by
      obtain ⟨r, vs, stores⟩ := stores_exists (mount bpb) d (land ws d) (nameToFat83 name) data off
      exact ⟨r, _, .writes fits place stores⟩
    cases found : lookup (mount bpb) d (nameToFat83 name) with
    | mk hit free =>
      cases hit with
      | some off =>
        obtain ⟨ws, walk⟩ := freeWalk_ends bpb d (entryCluster (rootBytes (mount bpb) d) off)
        exact placed (.own found walk)
      | none =>
        cases free with
        | none => exact ⟨0, _, .noPlace fits found⟩
        | some off => exact placed (.free found)

/-- The one outcome of a call. -/
theorem call_returns {bpb : Bpb} {e : Env} (reliable : Reliable e) {m m' : Machine} {call : Call} {r : Nat}
    (ran : Returns (fun n => call.run (mount bpb) n e m) (r, m')) :
    ∃ ws, Acts (mount bpb) m.disk call r ws ∧ Effect m m' ws := by
  obtain ⟨r', ws, acts⟩ := acts_exists bpb m.disk call
  obtain ⟨x, m₁, ran', effect, rfl⟩ := call_does reliable acts
  cases ran.unique ran'
  exact ⟨ws, acts, effect⟩

end ChrisOS.Fs.Fat32
