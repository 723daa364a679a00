import ChrisOS.Fs.Fat32.Faults
import ChrisOS.Fs.Fat32.Runs

/-! What the volume suffers from transfers that fail.

A read that fails leaves stale bytes in the buffer, and the driver writes the buffer
back all the same; a write that fails is reported as done. The operations keep whole
sectors and report honestly exactly as far as the transfers they rest on are served.
-/

set_option autoImplicit false

namespace ChrisOS.Fs.Fat32
open ChrisOS.Lib ChrisOS.Lib.Chains ChrisOS.Drivers.Ata

/-- Where a call stores the entry of the file it names, given the directory it sees. -/
def Call.slot (g : Statics) (f : Nat → UInt8) : Call → Option Nat
  | .create name => match findDirEntry f g.clusterSize (nameToFat83 name) with
    | (some _, _) => none
    | (none, free) => free
  | .write name data => if data.length > g.clusterSize then none
    else match findDirEntry f g.clusterSize (nameToFat83 name) with
      | (some off, _) => some off
      | (none, free) => free
  | .delete name => (findDirEntry f g.clusterSize (nameToFat83 name)).1

/-- The directory as a call sees it: stale bytes where the read of a sector failed. -/
def loadedDir (g : Statics) (e : Env) (m : Machine) (k : Nat) : UInt8 :=
  if k < g.clusterSize ∧ e.fails (m.log.length + 1 + k / 512) = false then clusterByte g m.disk g.rootCluster k
  else e.stale m.log.length k

section
variable (g : Statics) (limit : Nat)

/-- No FAT or directory sector was written from a buffer that was not read from it, and
a call that returned 1 had all its writes served. -/
structure Guarded (r : Nat) (evs : List Event) : Prop where
  grounded : ∀ ev ∈ evs, Grounded g ev
  reported : r = 1 → ∀ ev ∈ evs, ¬LostWrite ev

/-- The directory sector in which the call stores its entry was read without failure. -/
def SlotServed (e : Env) (m : Machine) (call : Call) : Prop :=
  ∀ off, call.slot g (loadedDir g e m) = some off → e.fails (m.log.length + 1 + off / 512) = false

/-- A write of data finds every cluster used and fails to free any. -/
structure Unfed (d : Disk) (call : Call) (evs : List Event) : Prop where
  full : DiskFull limit (view g limit d)
  data : ∃ name data, call = .write name data ∧ data ≠ []
  unwritten : ∀ ev ∈ evs, ¬FatWritten g ev

end

/-! ### The directory -/

/-- The buffer that holds the directory as the call sees it. -/
structure Loaded (g : Statics) (e : Env) (m : Machine) (b : Buf) : Prop where
  data : b.data = loadedDir g e m
  filled : ∀ j, j < g.spc → b.filled (j * 512) = if e.fails (m.log.length + 1 + j) = false then
    some (add32 fat32StartLba (add32 (clusterLba g g.rootCluster) j)) else none

section
variable {g : Statics} {e : Env} {m : Machine}

theorem loadRoot_leads {A : Type} {f : Buf → Kern A} {post : A → Machine → List Event → Prop}
    (next : ∀ b m' evs, m'.disk = m.disk → Quiet evs → Loaded g e m b →
      Leads e m' (f b) fun a m'' evs' => post a m'' (evs ++ evs')) :
    Leads e m (do
      let buf ← kmalloc g.clusterSize
      let buf ← readCluster g g.rootCluster buf 0
      f buf) post := by
  refine Leads.bind (kmalloc_leads _) fun buf m₁ evs₁ fresh => ?_
  obtain ⟨same₁, count, quiet₁, stale, empty⟩ := fresh
  refine Leads.bind (readSectors_leads _ g.spc buf) fun b m₂ evs₂ read => ?_
  obtain ⟨same₂, -, quiet₂, gathered⟩ := read
  have loaded : Loaded g e m b := by
    refine ⟨funext fun k => ?_, fun j inside => ?_⟩
    · rw [gathered.data, count, same₁, stale]
      rfl
    · rw [gathered.filled, count, empty]
      simp only [inside, true_and]
  refine (next b m₂ _ (same₂.trans same₁) (quiet₁.append quiet₂) loaded).mono fun a m' evs holds => ?_
  rwa [← List.append_assoc]

variable {limit : Nat} (geo : Geometry g limit)
include geo

theorem flush_address {off : Nat} (slot : Slot g.clusterSize off) :
    sectorAddr (add32 (clusterLba g g.rootCluster) (off / 512)) = clusterAddr g g.rootCluster (off / 512) ∧
      off / 512 < g.spc := by
  have size : g.clusterSize = g.spc * 512 := rfl
  have inside := slot.2
  have sector : off / 512 < g.spc := by omega
  exact ⟨geo.sectorAddr_eq (geo.sits_cluster geo.root.1 geo.root.2 sector), sector⟩

/-- The flush of a directory sector stores what was read from it, if the read was served. -/
theorem flush_grounded {off : Nat} (slot : Slot g.clusterSize off) {b dirbuf : Buf} (loaded : Loaded g e m b)
    (kept : dirbuf.filled = b.filled) (ok : Bool) :
    Grounded g (wrote dirbuf (off / 512 * 512) (add32 (clusterLba g g.rootCluster) (off / 512)) ok) ↔
      e.fails (m.log.length + 1 + off / 512) = false := by
  obtain ⟨address, sector⟩ := flush_address geo slot
  rw [wrote_grounded, kept, loaded.filled _ sector, address]
  refine ⟨fun read => ?_, fun served _ => ?_⟩
  · obtain ⟨lba, filled, -⟩ := read (.inr ⟨_, sector, rfl⟩)
    by_contra lost
    rw [if_neg lost] at filled
    cases filled
  · rw [if_pos served]
    exact ⟨_, rfl, .inl address⟩

/-- A cluster of the volume other than the directory's holds no metadata. -/
theorem data_grounded {c i : Nat} (valid : Valid limit c) (other : c ≠ g.rootCluster) (inside : i < g.spc) (b : Buf)
    (ok : Bool) : Grounded g (wrote b (i * 512) (add32 (clusterLba g c) i) ok) := by
  rw [wrote_grounded, geo.sectorAddr_eq (geo.sits_cluster valid.1 valid.2 inside)]
  have behind := geo.clusterAddr_le c i
  rintro (⟨-, low⟩ | ⟨j, inside', same⟩)
  · omega
  · exact absurd (clusterAddr_inj valid.1 geo.root.1 inside inside' same).1 other

end

/-! ### The pieces of a call -/

/-- The last events of a call: its directory sector is written, from a buffer with
these reads behind it. -/
def Flushed (g : Statics) (off : Nat) (filled : Nat → Option Nat) (evs : List Event) : Prop :=
  ∃ dirbuf ok rest, dirbuf.filled = filled ∧ Quiet rest ∧
    evs = wrote dirbuf (off / 512 * 512) (add32 (clusterLba g g.rootCluster) (off / 512)) ok :: rest

section
variable {g : Statics} {e : Env} {m : Machine}

theorem flush_leads (dirbuf : Buf) (off : Nat) :
    Leads e m (do flushDirSector g dirbuf off; kfree dirbuf; pure 1) fun r _ evs =>
      r = 1 ∧ Flushed g off dirbuf.filled evs := by
  refine Leads.bind (writeSector_leads _ _ _) fun _ m₁ evs₁ written => ?_
  obtain ⟨ok, rfl, -⟩ := written
  refine Leads.bind (kfree_leads _) fun _ m₂ evs₂ freed => Leads.pure ?_
  exact ⟨rfl, dirbuf, ok, evs₂ ++ [], rfl, freed.2.append .nil, rfl⟩

theorem Flushed.grounded {limit : Nat} (geo : Geometry g limit) {off : Nat} (slot : Slot g.clusterSize off) {b : Buf}
    (loaded : Loaded g e m b) {evs : List Event} (flushed : Flushed g off b.filled evs) :
    (∀ ev ∈ evs, Grounded g ev) ↔ e.fails (m.log.length + 1 + off / 512) = false := by
  obtain ⟨dirbuf, ok, rest, kept, quiet, rfl⟩ := flushed
  rw [List.forall_mem_cons, flush_grounded geo slot loaded kept]
  exact ⟨And.left, fun served => ⟨served, quiet.grounded⟩⟩

/-- The entry of a sector that was read is the one on disk. -/
theorem loaded_entry {limit : Nat} (geo : Geometry g limit) {off : Nat} (slot : Slot g.clusterSize off)
    (served : e.fails (m.log.length + 1 + off / 512) = false) :
    SameEntry (loadedDir g e m) ((view g limit m.disk).dir g) off := by
  intro k small
  have whole := clusterSize_whole g
  obtain ⟨aligned, high⟩ := slot
  have inside : off + k < g.clusterSize := by omega
  have sector : (off + k) / 512 = off / 512 := by omega
  rw [loadedDir, sector, if_pos ⟨inside, served⟩, clusterByte_eq geo m.disk geo.root inside]
  rfl

end

section
variable {g : Statics} {limit : Nat} {e : Env} {m : Machine} (vol : Volume g limit m.disk)
include vol

/-- Freeing the clusters of the entry a call found. -/
theorem freeOld_leads {m₁ : Machine} (same : m₁.disk = m.disk) {off : Nat}
    (live : Live (loadedDir g e m) g.clusterSize off) (budget : Nat) :
    Leads e m₁ (freeOld g budget (entryCluster (loadedDir g e m) off)) fun _ m' evs => FatServed g evs →
      (e.fails (m.log.length + 1 + off / 512) = false → ∃ ks, g.rootCluster ∉ ks ∧ (∀ c ∈ ks, Valid limit c) ∧
        Freeing g limit m.disk m'.disk ks evs) ∧
      ∀ c, (view g limit m.disk).fat c = 0 → (view g limit m'.disk).fat c = 0 := by
  have geo := vol.geometry
  by_cases served : e.fails (m.log.length + 1 + off / 512) = false
  · have entry := loaded_entry geo live.slot served
    obtain ⟨ks, owns⟩ := vol.wellFormed.chained off ((entry.live _).mp live)
    rw [entry.entryCluster]
    refine (freeOld_frees geo owns.chain budget (by rw [same])).mono fun _ m' evs freeing all => ?_
    rw [same] at freeing
    exact ⟨fun _ => ⟨ks, vol.wellFormed.apart off ks owns, owns.chain.members, freeing all⟩,
      fun c => (freeing all).keeps⟩
  · refine (freeOld_keeps geo budget _).mono fun _ m' evs keeps all => ?_
    rw [same] at keeps
    exact ⟨fun read => absurd read served, keeps all⟩

end

/-- A write from the point where the entry's place is known. -/
theorem writeBody_leads {g : Statics} {limit : Nat} (geo : Geometry g limit) (whole : limit = 128 * g.spf) {e : Env}
    {m : Machine} (fatname : FatName) (data : Nat → UInt8) (size : Nat) (dirbuf : Buf) (off : Nat) :
    Leads e m (writeBody g fatname data size dirbuf off) fun r _ evs => FatServed g evs →
      (r = 0 ∧ size > 0 ∧ Quiet evs ∧ DiskFull limit (view g limit m.disk)) ∨
      (r = 1 ∧ (size > 0 → ∃ c, Valid limit c ∧ (view g limit m.disk).fat c = 0) ∧
        ∃ before flush, evs = before ++ flush ∧ Flushed g off dirbuf.filled flush ∧
          ((view g limit m.disk).fat g.rootCluster ≠ 0 → ∀ ev ∈ before, Grounded g ev)) := by
  have store (m : Machine) (cluster : Nat) : Leads e m (writeEntry g fatname dirbuf off cluster size) fun r _ evs =>
      r = 1 ∧ Flushed g off dirbuf.filled evs := flush_leads (putEntry dirbuf off fatname cluster size) off
  unfold writeBody
  split
  case isTrue nonempty =>
    refine Leads.bind (fatAllocCluster_leads geo whole) fun c m₁ evs₁ took => ?_
    split
    case isTrue zero =>
      refine (refusal_leads _ _ _).mono fun r m₂ evs₂ done all => .inl ?_
      obtain ⟨returned, told⟩ := done
      rcases took all.left with ⟨-, quiet, full⟩ | ⟨valid, -, -⟩
      · exact ⟨returned, nonempty, quiet.append told, full⟩
      · exact absurd valid.1 (by omega)
    case isFalse taken =>
      refine Leads.bind (kmalloc_leads _) fun cbuf m₂ evs₂ fresh => ?_
      refine Leads.bind (writeSectors_leads _ _ _) fun _ m₃ evs₃ stored => ?_
      refine Leads.bind (kfree_leads _) fun _ m₄ evs₄ freed => ?_
      refine (store m₄ c).mono fun r m₅ evs₅ done all => .inr ?_
      obtain ⟨rfl, flushed⟩ := done
      obtain ⟨valid, free, grounded⟩ := (took all.left).resolve_left fun none => taken none.1
      refine ⟨rfl, fun _ => ⟨c, valid, free⟩, evs₁ ++ (evs₂ ++ (evs₃ ++ evs₄)), evs₅, ?_, flushed, fun used ev member => ?_⟩
      · simp only [List.append_assoc]
      · rcases List.mem_append.mp member with member | member
        · exact grounded ev member
        · rcases List.mem_append.mp member with member | member
          · exact fresh.2.2.1.grounded ev member
          · rcases List.mem_append.mp member with member | member
            · obtain ⟨i, ok, inside, rfl⟩ := stored ev member
              exact data_grounded geo valid (fun root => used (root ▸ free)) inside _ ok
            · exact freed.2.grounded ev member
  case isFalse empty =>
    refine (store m 0).mono fun r m₁ evs done _ => .inr ?_
    obtain ⟨rfl, flushed⟩ := done
    exact ⟨rfl, fun nonempty => absurd nonempty empty, [], evs, rfl, flushed,
      fun _ _ member => absurd member List.not_mem_nil⟩

/-! ### Calls -/

/-- How a call conducts itself when its FAT reads are served. -/
structure Conduct (g : Statics) (limit : Nat) (e : Env) (m : Machine) (call : Call) (r : Nat) (evs : List Event) : Prop where
  grounded : SlotServed g e m call → ∀ ev ∈ evs, Grounded g ev
  refused : SlotServed g e m call → r ≠ 1 → Quiet evs ∨ Unfed g limit m.disk call evs
  fed : SlotServed g e m call → r = 1 → ¬Unfed g limit m.disk call evs
  spoiled : ¬SlotServed g e m call → ¬DiskFull limit (view g limit m.disk) → ∃ ev ∈ evs, ¬Grounded g ev

section
variable {g : Statics} {limit : Nat} {e : Env} {m : Machine} {call : Call} {evs : List Event}

theorem slotServed_iff {off : Nat} (slot : call.slot g (loadedDir g e m) = some off) :
    SlotServed g e m call ↔ e.fails (m.log.length + 1 + off / 512) = false := by
  refine ⟨fun served => served off slot, fun served o other => ?_⟩
  obtain rfl := Option.some.inj (slot.symm.trans other)
  exact served

theorem Conduct.idle (none : call.slot g (loadedDir g e m) = none) (quiet : Quiet evs) :
    Conduct g limit e m call 0 evs where
  grounded _ := quiet.grounded
  refused _ _ := .inl quiet
  fed _ one := nomatch one
  spoiled lost := absurd (fun _ slot => nomatch none.symm.trans slot) lost

/-- A call that ends by storing its entry, and is not a write. -/
theorem Conduct.of_flush (geo : Geometry g limit) {off : Nat} (slot : Slot g.clusterSize off)
    (here : call.slot g (loadedDir g e m) = some off) (short : ∀ name data, call ≠ .write name data) {b : Buf}
    (loaded : Loaded g e m b) {before flush : List Event} (flushed : Flushed g off b.filled flush)
    (grounded : SlotServed g e m call → ∀ ev ∈ before, Grounded g ev) :
    Conduct g limit e m call 1 (before ++ flush) where
  grounded served ev member :=
    (List.mem_append.mp member).elim (grounded served ev)
      ((flushed.grounded geo slot loaded).mpr ((slotServed_iff here).mp served) ev)
  refused _ other := absurd rfl other
  fed _ _ unfed := by
    obtain ⟨name, data, same, -⟩ := unfed.data
    exact short name data same
  spoiled lost _ := by
    rw [slotServed_iff here, ← flushed.grounded geo slot loaded] at lost
    obtain ⟨ev, member, bad⟩ := not_forall₂.mp lost
    exact ⟨ev, List.mem_append_right _ member, bad⟩

/-- The statuses decide, as far as they are those of the reads and writes named. -/
theorem Conduct.guarded_iff {r : Nat} (conduct : Conduct g limit e m call r evs)
    (known : SlotServed g e m call ∨ ¬DiskFull limit (view g limit m.disk)) :
    Guarded g r evs ↔
      SlotServed g e m call ∧ ((∀ ev ∈ evs, ¬LostWrite ev) ∨ Unfed g limit m.disk call evs) := by
  constructor
  · intro guarded
    have served : SlotServed g e m call := by
      by_contra lost
      obtain ⟨ev, member, bad⟩ := conduct.spoiled lost (known.resolve_left lost)
      exact bad (guarded.grounded ev member)
    refine ⟨served, ?_⟩
    by_cases one : r = 1
    · exact .inl (guarded.reported one)
    · exact (conduct.refused served one).imp_left Quiet.not_lost
  · rintro ⟨served, written⟩
    refine ⟨conduct.grounded served, fun one => ?_⟩
    exact written.resolve_right (conduct.fed served one)

end

section
variable {g : Statics} {limit : Nat} {e : Env} {m : Machine} (vol : Volume g limit m.disk)
include vol

theorem create_conduct (name : List UInt8) (budget : Nat) : Leads e m ((Call.create name).run g budget) fun r _ evs =>
    FatServed g evs → Conduct g limit e m (.create name) r evs := by
  refine loadRoot_leads fun b m₁ evs₁ _ quiet loaded => ?_
  have slot : (Call.create name).slot g (loadedDir g e m) =
      match findDirEntry b.data g.clusterSize (nameToFat83 name) with
      | (some _, _) => none
      | (none, free) => free := by rw [← loaded.data]; rfl
  cases found : findDirEntry b.data g.clusterSize (nameToFat83 name) with
  | mk hit free =>
    rw [found] at slot
    cases hit with
    | some off =>
      refine (refusal_leads _ _ _).mono fun r m₂ evs₂ done _ => ?_
      obtain ⟨rfl, told⟩ := done
      exact .idle slot (quiet.append told)
    | none =>
      cases free with
      | none =>
        refine (refusal_leads _ _ _).mono fun r m₂ evs₂ done _ => ?_
        obtain ⟨rfl, told⟩ := done
        exact .idle slot (quiet.append told)
      | some off =>
        refine (flush_leads (putEntry b off (nameToFat83 name) 0 0) off).mono fun r m₂ evs₂ done _ => ?_
        obtain ⟨rfl, flushed⟩ := done
        exact .of_flush vol.geometry (findDirEntry_room (clusterSize_whole g) found).slot slot (fun _ _ same => nomatch same) loaded flushed
          fun _ => quiet.grounded

theorem delete_conduct (name : List UInt8) (budget : Nat) : Leads e m ((Call.delete name).run g budget) fun r _ evs =>
    FatServed g evs → Conduct g limit e m (.delete name) r evs := by
  refine loadRoot_leads fun b m₁ evs₁ same quiet loaded => ?_
  have slot : (Call.delete name).slot g (loadedDir g e m) =
      (findDirEntry b.data g.clusterSize (nameToFat83 name)).1 := by rw [← loaded.data]; rfl
  cases found : findDirEntry b.data g.clusterSize (nameToFat83 name) with
  | mk hit free =>
    rw [found] at slot
    cases hit with
    | none =>
      refine Leads.bind (kfree_leads _) fun _ m₂ evs₂ freed => Leads.pure fun _ => ?_
      exact .idle slot (quiet.append (freed.2.append .nil))
    | some off =>
      have live := (findDirEntry_hit (clusterSize_whole g) found).1.live
      simp only [loaded.data] at live ⊢
      refine Leads.bind (freeOld_leads vol same live budget) fun _ m₂ evs₂ freed => ?_
      refine (flush_leads (putByte b off 0xE5) off).mono fun r m₃ evs₃ done all => ?_
      obtain ⟨rfl, flushed⟩ := done
      have before (served : SlotServed g e m (.delete name)) : ∀ ev ∈ evs₁ ++ evs₂, Grounded g ev := by
        obtain ⟨ks, -, -, freeing⟩ := (freed all.right.left).1 ((slotServed_iff slot).mp served)
        exact fun ev member => (List.mem_append.mp member).elim (quiet.grounded ev) (freeing.grounded ev)
      rw [← List.append_assoc]
      exact .of_flush vol.geometry live.slot slot (fun _ _ same => nomatch same) loaded flushed before

/-- A write from the point where its old clusters are free. -/
theorem writeBody_conduct (whole : limit = 128 * g.spf) {name data : List UInt8} {off : Nat} (slot : Slot g.clusterSize off)
    (here : (Call.write name data).slot g (loadedDir g e m) = some off) {b : Buf} (loaded : Loaded g e m b)
    {evs : List Event} (quiet : Quiet evs) (evs₁ : List Event) {m₁ : Machine}
    (freed : FatServed g evs₁ →
      (e.fails (m.log.length + 1 + off / 512) = false → ∃ ks, g.rootCluster ∉ ks ∧ (∀ c ∈ ks, Valid limit c) ∧
        Freeing g limit m.disk m₁.disk ks evs₁) ∧
      ∀ c, (view g limit m.disk).fat c = 0 → (view g limit m₁.disk).fat c = 0) :
    Leads e m₁ (writeBody g (nameToFat83 name) (Call.memory data) data.length b off) fun r _ evs₂ =>
      FatServed g (evs ++ (evs₁ ++ evs₂)) → Conduct g limit e m (.write name data) r (evs ++ (evs₁ ++ evs₂)) := by
  have geo := vol.geometry
  refine (writeBody_leads geo whole _ _ _ b off).mono fun r m₂ evs₂ done all => ?_
  obtain ⟨genuine, keeps⟩ := freed all.right.left
  -- a volume that is full now was full before
  have filled (full : DiskFull limit (view g limit m₁.disk)) : DiskFull limit (view g limit m.disk) :=
    fun c valid free => full c valid (keeps c free)
  rcases done all.right.right with ⟨rfl, nonempty, quiet₂, full⟩ | ⟨rfl, room, before, flush, rfl, flushed, grounded⟩
  · constructor
    case grounded =>
      intro served ev member
      obtain ⟨ks, -, -, freeing⟩ := genuine ((slotServed_iff here).mp served)
      rcases List.mem_append.mp member with member | member
      · exact quiet.grounded ev member
      · exact (List.mem_append.mp member).elim (freeing.grounded ev) (quiet₂.grounded ev)
    case refused =>
      intro served _
      obtain ⟨ks, -, valid, freeing⟩ := genuine ((slotServed_iff here).mp served)
      refine .inr ⟨filled full, ⟨name, data, rfl, List.length_pos_iff.mp nonempty⟩, fun ev member written => ?_⟩
      rcases List.mem_append.mp member with member | member
      · exact quiet.not_written ev member written
      · rcases List.mem_append.mp member with member | member
        · obtain ⟨c, member, free⟩ := freeing.written ⟨ev, member, written⟩
          exact full c (valid c member) free
        · exact quiet₂.not_written ev member written
    case fed => exact fun _ one => nomatch one
    case spoiled => exact fun _ notFull => absurd (filled full) notFull
  · constructor
    case grounded =>
      intro served ev member
      have read := (slotServed_iff here).mp served
      obtain ⟨ks, apart, -, freeing⟩ := genuine read
      rcases List.mem_append.mp member with member | member
      · exact quiet.grounded ev member
      · rcases List.mem_append.mp member with member | member
        · exact freeing.grounded ev member
        · rcases List.mem_append.mp member with member | member
          · refine grounded (fun free => ?_) ev member
            -- the directory's cluster is used and not among those freed
            rcases freeing.fat g.rootCluster with same | ⟨taken, -⟩
            · exact vol.wellFormed.root_used (same ▸ free)
            · exact apart taken
          · exact (flushed.grounded geo slot loaded).mpr read ev member
    case refused => exact fun _ other => absurd rfl other
    case fed =>
      intro served _ unfed
      obtain ⟨ks, -, -, freeing⟩ := genuine ((slotServed_iff here).mp served)
      obtain ⟨name', data', same, nonempty⟩ := unfed.data
      cases same
      obtain ⟨c, valid, free⟩ := room (List.length_pos_iff.mpr nonempty)
      rw [freeing.unwritten fun ev member => unfed.unwritten ev (by simp [member])] at free
      exact unfed.full c valid free
    case spoiled =>
      intro lost _
      rw [slotServed_iff here, ← flushed.grounded geo slot loaded] at lost
      obtain ⟨ev, member, bad⟩ := not_forall₂.mp lost
      exact ⟨ev, by simp [member], bad⟩

theorem write_conduct (whole : limit = 128 * g.spf) (name data : List UInt8) (budget : Nat) :
    Leads e m ((Call.write name data).run g budget) fun r _ evs =>
      FatServed g evs → Conduct g limit e m (.write name data) r evs := by
  simp only [Call.run, fat32WriteFile]
  split
  case isTrue large =>
    have slot : (Call.write name data).slot g (loadedDir g e m) = none := by simp only [Call.slot, large, ↓reduceIte]
    refine Leads.bind (terminalWritestring_leads _) fun _ m₁ evs₁ told => Leads.pure fun _ => ?_
    exact .idle slot (told.2.append .nil)
  case isFalse fits =>
    refine loadRoot_leads fun b m₁ evs₁ same quiet loaded => ?_
    have slot : (Call.write name data).slot g (loadedDir g e m) =
        match findDirEntry b.data g.clusterSize (nameToFat83 name) with
        | (some off, _) => some off
        | (none, free) => free := by
      rw [← loaded.data]
      simp only [Call.slot, fits, ↓reduceIte]
    cases found : findDirEntry b.data g.clusterSize (nameToFat83 name) with
    | mk hit free =>
      rw [found] at slot
      cases hit with
      | some off =>
        have live := (findDirEntry_hit (clusterSize_whole g) found).1.live
        simp only [loaded.data] at live ⊢
        refine Leads.bind (freeOld_leads vol same live budget) fun _ m₂ evs₂ freed => ?_
        exact writeBody_conduct vol whole live.slot slot loaded quiet evs₂ freed
      | none =>
        cases free with
        | some off =>
          refine writeBody_conduct vol whole (findDirEntry_room (clusterSize_whole g) found).slot slot loaded quiet [] fun _ => ?_
          exact ⟨fun _ => ⟨[], List.not_mem_nil, fun _ member => absurd member List.not_mem_nil, .none same .nil⟩,
            fun c free => same ▸ free⟩
        | none =>
          refine (refusal_leads _ _ _).mono fun r m₂ evs₂ done _ => ?_
          obtain ⟨rfl, told⟩ := done
          exact .idle slot (quiet.append told)

end

theorem call_conduct {g : Statics} {e : Env} {m : Machine} (vol : Volume g (128 * g.spf) m.disk) (call : Call)
    (budget : Nat) : Leads e m (call.run g budget) fun r _ evs =>
      FatServed g evs → Conduct g (128 * g.spf) e m call r evs := by
  cases call with
  | create name => exact create_conduct vol name budget
  | write name data => exact write_conduct vol rfl name data budget
  | delete name => exact delete_conduct vol name budget

/-! ### Operations that only read -/

section
variable (g : Statics) {e : Env} {m : Machine}

theorem readSector_quiet (lba : Nat) (buf : Buf) (off : Nat) :
    Leads e m (readSector lba buf off) fun _ _ evs => Quiet evs := by
  refine (readSector_leads lba buf off).mono fun _ _ evs read => ?_
  obtain ⟨-, -, rfl, -⟩ := read
  simp [Quiet, Event.asWrite]

theorem readSectors_quiet (lba off n : Nat) (buf : Buf) :
    Leads e m (readSectors lba off n buf) fun _ _ evs => Quiet evs := by
  induction n with
  | zero => exact Leads.pure .nil
  | succ n ih =>
    refine Leads.bind ih fun b m₁ evs₁ quiet => ?_
    exact (readSector_quiet _ _ _).mono fun _ _ _ quiet₂ => quiet.append quiet₂

theorem fat32Init_quiet : Leads e m fat32Init fun _ _ evs => Quiet evs := by
  refine Leads.bind (kmalloc_leads _) fun buf m₁ evs₁ fresh => ?_
  refine Leads.bind (readSector_quiet 0 buf 0) fun b m₂ evs₂ quiet => ?_
  refine Leads.bind (kfree_leads b) fun _ m₃ evs₃ freed => ?_
  have printed (text : String) (s : Statics) : Leads e m₃ (do terminalWritestring text; pure s) fun _ _ evs => Quiet evs :=
    Leads.bind (terminalWritestring_leads _) fun _ _ _ told => Leads.pure (told.2.append .nil)
  split
  · exact (printed _ _).mono fun _ _ _ told => fresh.2.2.1.append (quiet.append (freed.2.append told))
  · exact (printed _ _).mono fun _ _ _ told => fresh.2.2.1.append (quiet.append (freed.2.append told))

theorem fatGet_quiet (cluster : Nat) : Leads e m (fatGet g cluster) fun _ _ evs => Quiet evs := by
  refine loadSector_leads (g := g) _ fun b _ m₁ evs₁ _ quiet _ _ => ?_
  exact Leads.bind (kfree_leads b) fun _ _ _ freed => Leads.pure (quiet.append (freed.2.append .nil))

theorem readFileLoop_quiet (budget cluster remaining : Nat) (buf : Buf) (off : Nat) :
    Leads e m (readFileLoop g budget cluster remaining buf off) fun _ _ evs => Quiet evs := by
  induction budget generalizing cluster remaining buf off m with
  | zero => exact fun _ _ ran => nomatch ran
  | succ budget ih =>
    rw [readFileLoop]
    split
    · refine Leads.bind (readSectors_quiet _ off _ buf) fun b m₁ evs₁ quiet => ?_
      refine Leads.bind (fatGet_quiet g cluster) fun next m₂ evs₂ quiet₂ => ?_
      exact (ih _ _ _ _).mono fun _ _ _ quiet₃ => quiet.append (quiet₂.append quiet₃)
    · exact Leads.pure .nil

theorem fat32ReadFile_quiet (budget : Nat) (name : List UInt8) (buf : Buf) :
    Leads e m (fat32ReadFile g budget name buf) fun _ _ evs => Quiet evs := by
  refine loadRoot_leads fun dbuf m₁ evs₁ _ quiet _ => ?_
  cases (findDirEntry dbuf.data g.clusterSize (nameToFat83 name)).1 with
  | none =>
    refine Leads.bind (kfree_leads _) fun _ m₂ evs₂ freed => Leads.pure ?_
    exact quiet.append (freed.2.append .nil)
  | some off =>
    refine Leads.bind (kfree_leads _) fun _ m₂ evs₂ freed => ?_
    refine Leads.bind (readFileLoop_quiet g budget _ _ _ _) fun _ m₃ evs₃ quiet₃ => Leads.pure ?_
    exact quiet.append (freed.2.append (quiet₃.append .nil))

theorem printField_quiet (f : Nat → UInt8) (rounds off : Nat) :
    Leads e m (printField f rounds off) fun _ _ evs => Quiet evs := by
  induction rounds generalizing off m with
  | zero => exact Leads.pure .nil
  | succ rounds ih =>
    rw [printField]
    split
    · exact Leads.pure .nil
    · refine Leads.bind (terminalWritestring_leads _) fun _ m₁ evs₁ told => ?_
      exact (ih (off + 1)).mono fun _ _ _ quiet => told.2.append quiet

theorem printExtension_quiet (f : Nat → UInt8) (off : Nat) :
    Leads e m (printExtension f off) fun _ _ evs => Quiet evs := by
  unfold printExtension
  split
  · refine Leads.bind (terminalWritestring_leads _) fun _ m₁ evs₁ told => ?_
    exact (printField_quiet f 3 (off + 8)).mono fun _ _ _ quiet => told.2.append quiet
  · exact Leads.pure .nil

theorem listEntries_quiet (f : Nat → UInt8) (rounds off count : Nat) :
    Leads e m (listEntries f rounds off count) fun _ _ evs => Quiet evs := by
  induction rounds generalizing off count m with
  | zero => exact Leads.pure .nil
  | succ rounds ih =>
    rw [listEntries]
    split
    · exact Leads.pure .nil
    · split
      · exact ih _ _
      · split
        · exact ih _ _
        · refine Leads.bind (printField_quiet f 8 off) fun _ m₁ evs₁ base => ?_
          refine Leads.bind (printExtension_quiet f off) fun _ m₂ evs₂ quiet₂ => ?_
          refine Leads.bind (terminalWritestring_leads _) fun _ m₃ evs₃ told₃ => ?_
          refine Leads.bind (terminalWritestring_leads _) fun _ m₄ evs₄ told₄ => ?_
          refine Leads.bind (terminalWritestring_leads _) fun _ m₅ evs₅ told₅ => ?_
          refine (ih _ _).mono fun _ _ _ quiet₆ => ?_
          exact base.append (quiet₂.append (told₃.2.append (told₄.2.append (told₅.2.append quiet₆))))

theorem fat32Ls_quiet : Leads e m (fat32Ls g) fun _ _ evs => Quiet evs := by
  refine loadRoot_leads fun buf m₁ evs₁ _ quiet _ => ?_
  refine Leads.bind (listEntries_quiet _ _ _ _) fun count m₂ evs₂ quiet₂ => ?_
  split
  · refine Leads.bind (terminalWritestring_leads _) fun _ m₃ evs₃ told => (kfree_leads _).mono fun _ _ _ freed => ?_
    exact quiet.append (quiet₂.append (told.2.append freed.2))
  · exact (kfree_leads _).mono fun _ _ _ freed => quiet.append (quiet₂.append freed.2)

end

/-- On a drive that may fail any transfer, for every outcome of a call whose FAT reads
were served: it keeps sectors whole and reports honestly exactly if the directory sector
of its entry was read, and no write failed or no cluster was to be had. The one case
left out is a full volume on which the entry's sector was not read. The other operations
write nothing, whatever fails. -/
theorem guarded_iff_served {g : Statics} (e : Env) {m : Machine} (vol : Volume g (128 * g.spf) m.disk) :
    (∀ (call : Call) (budget r : Nat) (m' : Machine), call.run g budget e m = some (r, m') →
      ∃ evs, m'.log = m.log ++ evs ∧ (FatServed g evs →
        SlotServed g e m call ∨ ¬DiskFull (128 * g.spf) (view g (128 * g.spf) m.disk) →
        (Guarded g r evs ↔
          SlotServed g e m call ∧ ((∀ ev ∈ evs, ¬LostWrite ev) ∨ Unfed g (128 * g.spf) m.disk call evs)))) ∧
    (∀ s m', fat32Init e m = some (s, m') → ∃ evs, m'.log = m.log ++ evs ∧ Quiet evs) ∧
    (∀ m', fat32Ls g e m = some ((), m') → ∃ evs, m'.log = m.log ++ evs ∧ Quiet evs) ∧
    ∀ budget name buf result m', fat32ReadFile g budget name buf e m = some (result, m') →
      ∃ evs, m'.log = m.log ++ evs ∧ Quiet evs := by
  refine ⟨fun call budget r m' ran => ?_, fun s m' => fat32Init_quiet s m', fun m' => fat32Ls_quiet g () m',
    fun budget name buf result m' => fat32ReadFile_quiet g budget name buf result m'⟩
  obtain ⟨evs, log, conduct⟩ := call_conduct vol call budget r m' ran
  exact ⟨evs, log, fun served known => (conduct served).guarded_iff known⟩

/-! ### A drive that fails -/

/-- Every transfer fails, and blocks come zeroed. -/
def deadEnv : Env := ⟨fun _ => true, fun _ => 0, fun _ _ => 0⟩

/-- Creating a file on a dead drive returns 1, having sent to the directory sector a
buffer that was never read, in a write that failed. -/
theorem create_on_dead_drive : Volume sample (128 * sample.spf) sampleDisk ∧
    ∃ m' ev, (Call.create [0x61]).run sample 0 deadEnv ⟨sampleDisk, []⟩ = some (1, m') ∧
      ev ∈ m'.log ∧ LostWrite ev ∧ ¬Grounded sample ev := by
  have vol : Volume sample (128 * sample.spf) sampleDisk := sample_volume 160 sample_limit.1 sample_limit.2
  have slot : Slot sample.clusterSize 0 := ⟨rfl, by decide⟩
  have address := flush_address vol.geometry slot
  refine ⟨vol, _, wrote (putEntry ⟨0, fun _ => 0, fun _ => none⟩ 0 (nameToFat83 [0x61]) 0 0) 0
    (add32 (clusterLba sample sample.rootCluster) (0 / 512)) false, rfl, .tail _ (.tail _ (.head _)), rfl, ?_⟩
  intro grounded
  rw [wrote_grounded, address.1] at grounded
  obtain ⟨lba, filled, -⟩ := grounded (.inr ⟨0 / 512, address.2, rfl⟩)
  cases filled

theorem guarded_iff_served_sample :
    (∀ (call : Call) (budget r : Nat) (m' : Machine), call.run sample budget deadEnv ⟨sampleDisk, []⟩ = some (r, m') →
      ∃ evs, m'.log = [] ++ evs ∧ (FatServed sample evs →
        SlotServed sample deadEnv ⟨sampleDisk, []⟩ call ∨
          ¬DiskFull (128 * sample.spf) (view sample (128 * sample.spf) sampleDisk) →
        (Guarded sample r evs ↔ SlotServed sample deadEnv ⟨sampleDisk, []⟩ call ∧
          ((∀ ev ∈ evs, ¬LostWrite ev) ∨ Unfed sample (128 * sample.spf) sampleDisk call evs)))) ∧
    (∀ s m', fat32Init deadEnv ⟨sampleDisk, []⟩ = some (s, m') → ∃ evs, m'.log = [] ++ evs ∧ Quiet evs) ∧
    (∀ m', fat32Ls sample deadEnv ⟨sampleDisk, []⟩ = some ((), m') → ∃ evs, m'.log = [] ++ evs ∧ Quiet evs) ∧
    ∀ budget name buf result m', fat32ReadFile sample budget name buf deadEnv ⟨sampleDisk, []⟩ = some (result, m') →
      ∃ evs, m'.log = [] ++ evs ∧ Quiet evs :=
  guarded_iff_served (g := sample) (m := ⟨sampleDisk, []⟩) deadEnv (sample_volume 160 sample_limit.1 sample_limit.2)

end ChrisOS.Fs.Fat32
