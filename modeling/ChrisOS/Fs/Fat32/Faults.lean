import ChrisOS.Fs.Fat32.Operations

/-! What each routine does on a drive that may fail any transfer: the events of every
outcome the routine can have, and what they leave of the FAT.

The driver drops the status of every transfer, so it goes on with whatever bytes the
buffer held before a read that failed.
-/

set_option autoImplicit false

namespace ChrisOS.Fs.Fat32
open ChrisOS.Lib ChrisOS.Lib.Chains ChrisOS.Drivers.Ata

section
variable {A B : Type} {e : Env} {m : Machine}

/-- Every outcome of the code appends events, and is of the kind stated. -/
def Leads (e : Env) (m : Machine) (x : Kern A) (post : A → Machine → List Event → Prop) : Prop :=
  ∀ a m', x e m = some (a, m') → ∃ evs, m'.log = m.log ++ evs ∧ post a m' evs

theorem Leads.pure {a : A} {post : A → Machine → List Event → Prop} (holds : post a m []) :
    Leads e m (pure a) post := by
  intro a' m' ran
  obtain ⟨rfl, rfl⟩ := Prod.mk.inj (Option.some.inj ran)
  exact ⟨[], (List.append_nil _).symm, holds⟩

theorem Leads.bind {x : Kern A} {f : A → Kern B} {post : A → Machine → List Event → Prop}
    {post' : B → Machine → List Event → Prop} (first : Leads e m x post)
    (second : ∀ a m' evs, post a m' evs → Leads e m' (f a) fun b m'' evs' => post' b m'' (evs ++ evs')) :
    Leads e m (x >>= f) post' := by
  intro b m'' ran
  rw [bind_run] at ran
  obtain ⟨⟨a, m'⟩, ran, ran'⟩ := Option.bind_eq_some_iff.mp ran
  obtain ⟨evs, log, holds⟩ := first a m' ran
  obtain ⟨evs', log', holds'⟩ := second a m' evs holds b m'' ran'
  exact ⟨evs ++ evs', by rw [log', log, List.append_assoc], holds'⟩

theorem Leads.mono {x : Kern A} {post post' : A → Machine → List Event → Prop} (leads : Leads e m x post)
    (weaker : ∀ a m' evs, post a m' evs → post' a m' evs) : Leads e m x post' := by
  intro a m' ran
  obtain ⟨evs, log, holds⟩ := leads a m' ran
  exact ⟨evs, log, weaker a m' evs holds⟩

/-- Two facts about each outcome. -/
theorem Leads.and {x : Kern A} {post post' : A → Machine → List Event → Prop} (left : Leads e m x post)
    (right : Leads e m x post') : Leads e m x fun a m' evs => post a m' evs ∧ post' a m' evs := by
  intro a m' ran
  obtain ⟨evs, log, holds⟩ := left a m' ran
  obtain ⟨evs', log', holds'⟩ := right a m' ran
  cases List.append_cancel_left (log.symm.trans log')
  exact ⟨evs, log, holds, holds'⟩

/-- A step whose only outcome is known. -/
theorem Leads.of_run {x : Kern A} {a : A} {m' : Machine} {evs : List Event}
    {post : A → Machine → List Event → Prop} (ran : x e m = some (a, m')) (log : m'.log = m.log ++ evs)
    (holds : post a m' evs) : Leads e m x post := by
  intro b m'' ran'
  obtain ⟨rfl, rfl⟩ := Prod.mk.inj (Option.some.inj (ran.symm.trans ran'))
  exact ⟨evs, log, holds⟩

end

/-! ### Events -/

section
variable (g : Statics)

/-- The block addresses of the first FAT. -/
def FirstFat (a : Nat) : Prop := fatBase g ≤ a ∧ a < fatBase g + g.spf

/-- The block addresses of the FATs and of the root directory. -/
def Metadata (a : Nat) : Prop :=
  (fatBase g ≤ a ∧ a < fatBase g + g.bpb.fatCount.toNat * g.spf) ∨ ∃ i, i < g.spc ∧ a = clusterAddr g g.rootCluster i

/-- A buffer for a block was read from that block; one for a sector of the second
FAT may have been read from the same sector of the first. -/
def ReadFrom (a : Nat) (filled : Option Nat) : Prop :=
  ∃ lba, filled = some lba ∧
    (lba28 lba = a ∨ (g.bpb.fatCount.toNat > 1 ∧ FirstFat g (lba28 lba) ∧ a = lba28 lba + g.spf))

/-- A write to a FAT or directory sector stores a buffer read from that sector. -/
def Grounded : Event → Prop
  | .write lba _ _ filled _ => Metadata g (lba28 lba) → ReadFrom g (lba28 lba) filled
  | _ => True

/-- A read of a FAT sector that failed. -/
def LostFatRead : Event → Prop
  | .read lba _ ok => ok = false ∧ FirstFat g (lba28 lba)
  | _ => False

/-- A write that failed. -/
def LostWrite : Event → Prop
  | .write _ _ _ _ ok => ok = false
  | _ => False

/-- A write to the first FAT that succeeded. -/
def FatWritten : Event → Prop
  | .write lba _ _ _ ok => ok = true ∧ FirstFat g (lba28 lba)
  | _ => False

end

/-- No writes. -/
def Quiet (evs : List Event) : Prop := ∀ ev ∈ evs, Event.asWrite ev = none

/-- No read of a FAT sector failed. -/
def FatServed (g : Statics) (evs : List Event) : Prop := ∀ ev ∈ evs, ¬LostFatRead g ev

section
variable {g : Statics} {evs evs' : List Event}

theorem Quiet.nil : Quiet [] := fun _ member => absurd member List.not_mem_nil

theorem Quiet.append (first : Quiet evs) (second : Quiet evs') : Quiet (evs ++ evs') :=
  fun ev member => (List.mem_append.mp member).elim (first ev) (second ev)

theorem Quiet.grounded (quiet : Quiet evs) : ∀ ev ∈ evs, Grounded g ev := by
  intro ev member
  cases ev with
  | write => exact nomatch quiet _ member
  | _ => exact trivial

theorem Quiet.not_lost (quiet : Quiet evs) : ∀ ev ∈ evs, ¬LostWrite ev := by
  intro ev member
  cases ev with
  | write => exact nomatch quiet _ member
  | _ => exact id

theorem Quiet.not_written (quiet : Quiet evs) : ∀ ev ∈ evs, ¬FatWritten g ev := by
  intro ev member
  cases ev with
  | write => exact nomatch quiet _ member
  | _ => exact id

theorem FatServed.left (served : FatServed g (evs ++ evs')) : FatServed g evs :=
  fun ev member => served ev (List.mem_append_left _ member)

theorem FatServed.right (served : FatServed g (evs ++ evs')) : FatServed g evs' :=
  fun ev member => served ev (List.mem_append_right _ member)

end

/-! ### Single steps -/

section
variable {e : Env} {m : Machine}

theorem kmalloc_leads (size : Nat) : Leads e m (kmalloc size) fun b m' evs =>
    m'.disk = m.disk ∧ m'.log.length = m.log.length + 1 ∧ Quiet evs ∧ b.data = e.stale m.log.length ∧
      b.filled = fun _ => none := by
  refine Leads.of_run rfl rfl ⟨rfl, ?_, ?_, rfl, rfl⟩
  · simp [Machine.record]
  · simp [Quiet, Event.asWrite]

theorem kfree_leads (b : Buf) : Leads e m (kfree b) fun _ m' evs => m'.disk = m.disk ∧ Quiet evs :=
  Leads.of_run rfl rfl ⟨rfl, by simp [Quiet, Event.asWrite]⟩

theorem terminalWritestring_leads (text : String) :
    Leads e m (terminalWritestring text) fun _ m' evs => m'.disk = m.disk ∧ Quiet evs :=
  Leads.of_run rfl rfl ⟨rfl, by simp [Quiet, Event.asWrite]⟩

/-- A call that only says why it ends. -/
theorem refusal_leads (text : String) (b : Buf) (r : Nat) : Leads e m (do
      terminalWritestring text
      kfree b
      pure r) fun r' _ evs => r' = r ∧ Quiet evs := by
  refine Leads.bind (terminalWritestring_leads text) fun _ m₁ evs₁ told => ?_
  refine Leads.bind (kfree_leads b) fun _ m₂ evs₂ freed => Leads.pure ⟨rfl, ?_⟩
  exact told.2.append (freed.2.append .nil)

/-- A read that succeeds fills its part of the buffer; one that fails changes nothing. -/
structure Fetched (d : Disk) (ok : Bool) (lba off : Nat) (before after : Buf) : Prop where
  data : ∀ k, after.data k = if ok = true ∧ off ≤ k ∧ k < off + 512 then bytes (d (sectorAddr lba)) (k - off)
    else before.data k
  filled : after.filled = if ok = true then Function.update before.filled off (some (add32 fat32StartLba lba))
    else before.filled

theorem readSector_leads (lba : Nat) (buf : Buf) (off : Nat) :
    Leads e m (readSector lba buf off) fun b m' evs =>
      m'.disk = m.disk ∧ m'.log.length = m.log.length + 1 ∧
      evs = [.read (add32 fat32StartLba lba) (buf.ptr + off) !e.fails m.log.length] ∧
      Fetched m.disk (!e.fails m.log.length) lba off buf b := by
  have ran : readSector lba buf off e m = some (_, _) := rfl
  refine Leads.of_run ran rfl ⟨rfl, ?_, rfl, ⟨fun k => ?_, ?_⟩⟩
  · simp [Machine.record]
  · by_cases inside : off ≤ k ∧ k < off + 512
    · have small : k - off < 512 := by omega
      cases e.fails m.log.length <;> simp [Buf.fill, inside, bytes, small, sectorAddr]
    · cases e.fails m.log.length <;> simp [Buf.fill, inside]
  · cases e.fails m.log.length <;> simp [Buf.fill]

/-- The disk after a sector write that may have failed. -/
def put (b : Buf) (off lba : Nat) (ok : Bool) (d : Disk) : Disk :=
  if ok = true then Function.update d (sectorAddr lba) (b.sector off) else d

/-- The event of a sector write. -/
def wrote (b : Buf) (off lba : Nat) (ok : Bool) : Event :=
  .write (add32 fat32StartLba lba) (b.ptr + off) (b.sector off) (b.filled off) ok

theorem writeSector_leads (lba : Nat) (buf : Buf) (off : Nat) :
    Leads e m (writeSector lba buf off) fun _ m' evs =>
      ∃ ok, evs = [wrote buf off lba ok] ∧ m'.disk = put buf off lba ok m.disk := by
  refine Leads.of_run (bind_some rfl _) ?_ ⟨!e.fails m.log.length, rfl, ?_⟩
  · cases e.fails m.log.length <;> rfl
  · cases e.fails m.log.length <;> rfl

end

/-! ### The FAT -/

/-- A fresh block after a read of one sector into it. -/
structure Tried (d : Disk) (lba : Nat) (b : Buf) (ok : Bool) : Prop where
  data : ok = true → ∀ k, k < 512 → b.data k = bytes (d (sectorAddr lba)) k
  filled : ok = true → b.filled 0 = some (add32 fat32StartLba lba)

section
variable (g : Statics) (lba copy : Nat) (b : Buf) (d : Disk)

/-- One sector stored in the first FAT and, if there is one, in the second. -/
inductive Stored : Disk → List Event → Prop where
  | one (ok : Bool) : ¬g.bpb.fatCount.toNat > 1 → Stored (put b 0 lba ok d) [wrote b 0 lba ok]
  | two (ok ok' : Bool) : g.bpb.fatCount.toNat > 1 →
      Stored (put b 0 copy ok' (put b 0 lba ok d)) [wrote b 0 lba ok, wrote b 0 copy ok']

end

section
variable {g : Statics} {e : Env} {m : Machine} {A : Type} {post : A → Machine → List Event → Prop}

theorem loadSector_leads (lba : Nat) {f : Buf → Kern A}
    (next : ∀ b ok m' evs, m'.disk = m.disk → Quiet evs → Tried m.disk lba b ok →
      (FatServed g evs → FirstFat g (sectorAddr lba) → ok = true) →
      Leads e m' (f b) fun a m'' evs' => post a m'' (evs ++ evs')) :
    Leads e m (do let buf ← kmalloc 512; let buf ← readSector lba buf 0; f buf) post := by
  refine Leads.bind (kmalloc_leads 512) fun buf m₁ evs₁ fresh => ?_
  obtain ⟨same₁, -, quiet₁, -, empty⟩ := fresh
  refine Leads.bind (readSector_leads lba buf 0) fun b m₂ evs₂ read => ?_
  obtain ⟨same₂, -, rfl, fetched⟩ := read
  generalize e.fails m₁.log.length = lost at fetched ⊢
  rw [same₁] at fetched
  have quiet : Quiet (evs₁ ++ [.read (add32 fat32StartLba lba) (buf.ptr + 0) !lost]) :=
    quiet₁.append (by simp [Quiet, Event.asWrite])
  have tried : Tried m.disk lba b !lost := by
    constructor
    · intro ok k small
      rw [fetched.data, if_pos ⟨ok, Nat.zero_le k, by omega⟩, Nat.sub_zero]
    · intro ok
      rw [fetched.filled, if_pos ok, Function.update_self]
  refine (next b (!lost) m₂ _ (same₂.trans same₁) quiet tried fun served first => ?_).mono fun a m'' evs' holds => ?_
  · by_contra failed
    exact served.right _ (List.mem_singleton_self _) ⟨Bool.eq_false_of_not_eq_true failed, first⟩
  · rwa [← List.append_assoc]

theorem store_leads (lba copy : Nat) (b : Buf) {f : Kern A}
    (next : ∀ m' evs, Stored g lba copy b m.disk m'.disk evs →
      Leads e m' f fun a m'' evs' => post a m'' (evs ++ evs')) :
    Leads e m (do writeSector lba b 0; writeMirror g copy b; f) post := by
  refine Leads.bind (writeSector_leads lba b 0) fun _ m₁ evs₁ first => ?_
  obtain ⟨ok, rfl, disk₁⟩ := first
  unfold writeMirror
  split
  · rename_i two
    refine Leads.bind (writeSector_leads copy b 0) fun _ m₂ evs₂ second => ?_
    obtain ⟨ok', rfl, disk₂⟩ := second
    have stored : Stored g lba copy b m.disk m₂.disk [wrote b 0 lba ok, wrote b 0 copy ok'] := by
      rw [disk₂, disk₁]
      exact .two ok ok' two
    exact next m₂ _ stored
  · rename_i one
    change Leads e m₁ f _
    have stored : Stored g lba copy b m.disk m₁.disk [wrote b 0 lba ok] := by
      rw [disk₁]
      exact .one ok one
    exact next m₁ _ stored

end

/-! ### What is left of the FAT -/

theorem wrote_grounded {g : Statics} {b : Buf} {off lba : Nat} (ok : Bool) :
    Grounded g (wrote b off lba ok) ↔ (Metadata g (sectorAddr lba) → ReadFrom g (sectorAddr lba) (b.filled off)) :=
  Iff.rfl

theorem wrote_fatWritten {g : Statics} {b : Buf} {off lba : Nat} (ok : Bool) :
    FatWritten g (wrote b off lba ok) ↔ ok = true ∧ FirstFat g (sectorAddr lba) := Iff.rfl

/-- An entry of the FAT was set if the write to the first FAT succeeded, and else the
FAT is as before. -/
structure EntryStored (g : Statics) (limit : Nat) (d d' : Disk) (c value : Nat) (evs : List Event) : Prop where
  grounded : ∀ ev ∈ evs, Grounded g ev
  fat : ((∃ ev ∈ evs, FatWritten g ev) ∧ (view g limit d').fat = Function.update (view g limit d).fat c value) ∨
    ((∀ ev ∈ evs, ¬FatWritten g ev) ∧ (view g limit d').fat = (view g limit d).fat)

section
variable {g : Statics} {limit c value : Nat} {d d' : Disk} {evs before after : List Event}

/-- Steps around a store that write nothing. -/
theorem EntryStored.surround (entry : EntryStored g limit d d' c value evs) (quiet : Quiet before)
    (quiet' : Quiet after) : EntryStored g limit d d' c value (before ++ (evs ++ after)) where
  grounded ev member := by
    rcases List.mem_append.mp member with member | member
    · exact quiet.grounded ev member
    · exact (List.mem_append.mp member).elim (entry.grounded ev) (quiet'.grounded ev)
  fat := by
    refine entry.fat.imp ?_ ?_
    · rintro ⟨⟨ev, member, written⟩, fat⟩
      exact ⟨⟨ev, List.mem_append_right _ (List.mem_append_left _ member), written⟩, fat⟩
    · rintro ⟨none, fat⟩
      refine ⟨fun ev member => ?_, fat⟩
      rcases List.mem_append.mp member with member | member
      · exact quiet.not_written ev member
      · exact (List.mem_append.mp member).elim (none ev) (quiet'.not_written ev)

/-- Clearing an entry keeps the free ones free. -/
theorem EntryStored.keeps (entry : EntryStored g limit d d' c 0 evs) {k : Nat} (free : (view g limit d).fat k = 0) :
    (view g limit d').fat k = 0 := by
  rcases entry.fat with ⟨-, fat⟩ | ⟨-, fat⟩
  · rw [fat, Function.update_apply]
    split
    · rfl
    · exact free
  · rw [fat, free]

end

theorem firstFat {g : Statics} {s : Nat} (inside : s < g.spf) : FirstFat g (fatBase g + s) :=
  ⟨Nat.le_add_right _ _, by omega⟩

theorem not_firstFat {g : Statics} {a : Nat} (behind : fatBase g + g.spf ≤ a) : ¬FirstFat g a :=
  fun first => absurd first.2 (Nat.not_lt.mpr behind)

theorem view_write_outside {g : Statics} {limit a : Nat} (d : Disk) (outside : ¬FirstFat g a) (x : Sector) :
    (view g limit (Function.update d a x)).fat = (view g limit d).fat := by
  funext c
  rw [view_fat, view_fat]
  split
  · rw [Function.update_of_ne]
    rintro rfl
    exact outside (firstFat (by omega))
  · rfl

theorem put_outside {g : Statics} {limit lba : Nat} (b : Buf) (d : Disk) (outside : ¬FirstFat g (sectorAddr lba)) (ok : Bool) :
    (view g limit (put b 0 lba ok d)).fat = (view g limit d).fat := by
  unfold put
  split
  · exact view_write_outside d outside _
  · rfl

section
variable {g : Statics} {limit : Nat} (geo : Geometry g limit)
include geo

theorem Stored.entry {s i lba copy : Nat} (inside : s < g.spf) (small : i < 128)
    (here : sectorAddr lba = fatBase g + s) (there : g.bpb.fatCount.toNat > 1 → sectorAddr copy = fatBase g + g.spf + s)
    {existing value : Nat} {b : Buf} {d d' : Disk} (held : b.sector 0 = patch (d (fatBase g + s)) (i * 4) (entryWord existing value))
    (source : b.filled 0 = some (add32 fat32StartLba lba)) {evs : List Event} (stored : Stored g lba copy b d d' evs) :
    EntryStored g limit d d' (s * 128 + i) (value &&& 0x0FFFFFFF) evs := by
  have first : FirstFat g (sectorAddr lba) := here ▸ firstFat inside
  have read : ReadFrom g (sectorAddr lba) (b.filled 0) := ⟨_, source, .inl rfl⟩
  -- the write to the first FAT alone decides what the entries are
  have set (ok : Bool) : (ok = true ∧ (view g limit (put b 0 lba ok d)).fat =
        Function.update (view g limit d).fat (s * 128 + i) (value &&& 0x0FFFFFFF)) ∨
      (ok = false ∧ (view g limit (put b 0 lba ok d)).fat = (view g limit d).fat) := by
    cases ok with
    | false => exact .inr ⟨rfl, rfl⟩
    | true =>
      have stored := congrArg View.fat (view_write_fat geo d inside small existing value)
      rw [← held, ← here] at stored
      exact .inl ⟨rfl, stored⟩
  cases stored with
  | one ok single =>
    refine ⟨?_, (set ok).imp ?_ ?_⟩
    · simp only [List.mem_singleton, forall_eq, wrote_grounded]
      exact fun _ => read
    · rintro ⟨rfl, fat⟩
      exact ⟨⟨_, List.mem_singleton_self _, rfl, first⟩, fat⟩
    · rintro ⟨rfl, fat⟩
      refine ⟨?_, fat⟩
      simp [wrote_fatWritten]
  | two ok ok' double =>
    have outside : ¬FirstFat g (sectorAddr copy) := there double ▸ not_firstFat (Nat.le_add_right _ _)
    have fat : (view g limit (put b 0 copy ok' (put b 0 lba ok d))).fat = (view g limit (put b 0 lba ok d)).fat :=
      put_outside b _ outside ok'
    refine ⟨?_, (set ok).imp ?_ ?_⟩
    · simp only [List.mem_cons, List.not_mem_nil, or_false, forall_eq_or_imp, forall_eq, wrote_grounded]
      refine ⟨fun _ => read, fun _ => ⟨_, source, .inr ⟨double, first, ?_⟩⟩⟩
      have behind := there double
      change _ = sectorAddr lba + g.spf
      omega
    · rintro ⟨rfl, kept⟩
      exact ⟨⟨_, List.mem_cons_self .., rfl, first⟩, fat.trans kept⟩
    · rintro ⟨rfl, kept⟩
      refine ⟨?_, fat.trans kept⟩
      simp [wrote_fatWritten, outside]

omit geo in
/-- A store of a sector outside the first FAT. -/
theorem Stored.outside {lba copy : Nat} {b : Buf} {d d' : Disk} {evs : List Event}
    (stored : Stored g lba copy b d d' evs) (away : ¬FirstFat g (sectorAddr lba))
    (away' : g.bpb.fatCount.toNat > 1 → ¬FirstFat g (sectorAddr copy)) :
    (view g limit d').fat = (view g limit d).fat := by
  cases stored with
  | one ok _ => exact put_outside b d away ok
  | two ok ok' double => rw [put_outside b _ (away' double), put_outside b d away]

/-- The sectors that hold the entry of any 28-bit number, which may lie behind the FATs. -/
theorem Geometry.entry_address {c : Nat} (small : c < 2 ^ 28) : sectorAddr (fatSector g c) = fatBase g + c / 128 ∧
    (g.bpb.fatCount.toNat > 1 → sectorAddr (add32 (fatSector g c) g.spf) = fatBase g + g.spf + c / 128) := by
  have low := geo.fatStart_lt
  have fits := geo.fits
  have start : fat32StartLba = 20480 := rfl
  have sector : fatSector g c = g.fatStart + c / 128 := by
    unfold fatSector mul32
    rw [add32_of_lt (by omega)]
    omega
  rw [sector]
  refine ⟨?_, fun two => ?_⟩
  · unfold sectorAddr lba28 fatBase
    rw [add32_of_lt (by omega)]
    omega
  · have := geo.fats_fit.2 two
    unfold sectorAddr lba28 fatBase
    rw [add32_of_lt (a := g.fatStart + c / 128) (by omega), add32_of_lt (by omega)]
    omega

end

/-! ### Reading and setting entries -/

section
variable {g : Statics} {limit : Nat} (geo : Geometry g limit) {e : Env} {m : Machine}
include geo

theorem fatGet_leads (cluster : Nat) : Leads e m (fatGet g cluster) fun v m' evs =>
    m'.disk = m.disk ∧ Quiet evs ∧
      (FatServed g evs → cluster < limit → v = (view g limit m.disk).fat cluster) := by
  refine loadSector_leads (g := g) _ fun b ok m₁ evs₁ same quiet tried served => ?_
  refine Leads.bind (kfree_leads b) fun _ m₂ evs₂ freed => Leads.pure ?_
  obtain ⟨same₂, quiet₂⟩ := freed
  refine ⟨same₂.trans same, quiet.append (quiet₂.append .nil), fun all high => ?_⟩
  obtain ⟨sector, inside⟩ := geo.fatSector_eq high
  have first : FirstFat g (sectorAddr (fatSector g cluster)) := by
    rw [sector, geo.sectorAddr_eq (geo.sits_fat inside)]
    exact firstFat inside
  have read := tried.data (served all.left first)
  have bound := fatOffset_le cluster
  rw [← rawEntry_eq geo m.disk high, rawEntry, word32_congr fun k _ => read (fatOffset cluster + k) (by omega)]

/-- Clearing the entry of a 28-bit number. A number behind the volume may make it write
anywhere behind the first FAT. -/
theorem fatSet_leads {cluster : Nat} (small : cluster < 2 ^ 28) : Leads e m (fatSet g cluster 0) fun _ m' evs =>
    FatServed g evs → (∀ c, (view g limit m.disk).fat c = 0 → (view g limit m'.disk).fat c = 0) ∧
      (cluster < limit → EntryStored g limit m.disk m'.disk cluster 0 evs) := by
  refine loadSector_leads (g := g) _ fun b ok m₁ evs₁ same quiet tried served => ?_
  refine store_leads _ _ _ fun m₂ evs₂ stored => ?_
  refine (kfree_leads _).mono fun _ m₃ evs₃ freed all => ?_
  obtain ⟨same₃, quiet₃⟩ := freed
  obtain ⟨here, away⟩ := geo.entry_address small
  have bound := fatOffset_le cluster
  rw [same₃]
  rw [same] at stored
  by_cases inside : cluster / 128 < g.spf
  · have ok := served all.left (here ▸ firstFat inside)
    have held : (putWord b (fatOffset cluster) (entryWord (word32 b.data (fatOffset cluster)) 0)).sector 0 =
        patch (m.disk (fatBase g + cluster / 128)) (cluster % 128 * 4) (entryWord (word32 b.data (fatOffset cluster)) 0) := by
      rw [sector_putWord (tried.data ok), here, fatOffset_eq]
    have entry := stored.entry geo inside (Nat.mod_lt cluster (by decide)) here away held (tried.filled ok)
    rw [Nat.div_add_mod', Nat.zero_and] at entry
    exact ⟨fun c free => entry.keeps free, fun _ => entry.surround quiet quiet₃⟩
  · refine ⟨fun c free => ?_, fun high => absurd (geo.fatSector_eq high).2 inside⟩
    have behind := Nat.not_lt.mp inside
    rw [stored.outside (here ▸ not_firstFat (by omega)) fun two => away two ▸ not_firstFat (by omega)]
    exact free

theorem fatFreeChain_keeps (budget cluster : Nat) : Leads e m (fatFreeChain g budget cluster) fun _ m' evs =>
    FatServed g evs → ∀ c, (view g limit m.disk).fat c = 0 → (view g limit m'.disk).fat c = 0 := by
  induction budget generalizing cluster m with
  | zero => exact fun _ _ ran => nomatch ran
  | succ budget ih =>
    rw [fatFreeChain]
    split
    · rename_i link
      refine Leads.bind (fatGet_leads geo cluster) fun next m₁ evs₁ got => ?_
      refine Leads.bind (fatSet_leads geo (Nat.lt_trans link.2 (by decide))) fun _ m₂ evs₂ set => ?_
      refine (ih next).mono fun _ m₃ evs₃ rest all c free => ?_
      refine rest all.right.right c ((set all.right.left).1 c ?_)
      rwa [got.1]
    · exact Leads.pure fun _ _ free => free

end

/-- Freeing these clusters wrote whole FAT sectors only; an entry was cleared if some
write to the first FAT succeeded, and else none was. -/
structure Freeing (g : Statics) (limit : Nat) (d d' : Disk) (ks : List Nat) (evs : List Event) : Prop where
  grounded : ∀ ev ∈ evs, Grounded g ev
  fat : ∀ c, (view g limit d').fat c = (view g limit d).fat c ∨ (c ∈ ks ∧ (view g limit d').fat c = 0)
  written : (∃ ev ∈ evs, FatWritten g ev) → ∃ c ∈ ks, (view g limit d').fat c = 0
  unwritten : (∀ ev ∈ evs, ¬FatWritten g ev) → (view g limit d').fat = (view g limit d).fat

section
variable {g : Statics} {limit : Nat}

theorem Freeing.none {d d' : Disk} (same : d' = d) {evs : List Event} (quiet : Quiet evs) :
    Freeing g limit d d' [] evs where
  grounded := quiet.grounded
  fat _ := .inl (same ▸ rfl)
  written := fun ⟨ev, member, written⟩ => absurd written (quiet.not_written ev member)
  unwritten _ := same ▸ rfl

/-- Freeing keeps the free entries free. -/
theorem Freeing.keeps {d d' : Disk} {ks : List Nat} {evs : List Event} (freeing : Freeing g limit d d' ks evs) {c : Nat}
    (free : (view g limit d).fat c = 0) : (view g limit d').fat c = 0 :=
  (freeing.fat c).elim (fun same => same.trans free) fun freed => freed.2

/-- One entry more, cleared before the others. -/
theorem Freeing.cons {d d₁ d' : Disk} {c : Nat} {ks : List Nat} {before evs after : List Event} (quiet : Quiet before)
    (entry : EntryStored g limit d d₁ c 0 evs) (rest : Freeing g limit d₁ d' ks after) :
    Freeing g limit d d' (c :: ks) (before ++ (evs ++ after)) where
  grounded ev member := by
    rcases List.mem_append.mp member with member | member
    · exact quiet.grounded ev member
    · exact (List.mem_append.mp member).elim (entry.grounded ev) (rest.grounded ev)
  fat k := by
    rcases rest.fat k with same | ⟨member, zero⟩
    · rcases entry.fat with ⟨-, fat⟩ | ⟨-, fat⟩
      · by_cases here : k = c
        · subst here
          exact .inr ⟨List.mem_cons_self .., by rw [same, fat, Function.update_self]⟩
        · exact .inl (by rw [same, fat, Function.update_of_ne here])
      · exact .inl (by rw [same, fat])
    · exact .inr ⟨List.mem_cons_of_mem _ member, zero⟩
  written := by
    rintro ⟨ev, member, written⟩
    rcases entry.fat with ⟨-, fat⟩ | ⟨unwritten, -⟩
    · refine ⟨c, List.mem_cons_self .., rest.keeps ?_⟩
      rw [fat, Function.update_self]
    · rcases List.mem_append.mp member with member | member
      · exact absurd written (quiet.not_written ev member)
      · rcases List.mem_append.mp member with member | member
        · exact absurd written (unwritten ev member)
        · obtain ⟨k, member, zero⟩ := rest.written ⟨ev, member, written⟩
          exact ⟨k, List.mem_cons_of_mem _ member, zero⟩
  unwritten none := by
    have later := rest.unwritten fun ev member => none ev (by simp [member])
    rcases entry.fat with ⟨⟨ev, member, written⟩, -⟩ | ⟨-, fat⟩
    · exact absurd written (none ev (by simp [member]))
    · rw [later, fat]

end

section
variable {g : Statics} {limit : Nat} (geo : Geometry g limit) {e : Env} {m : Machine}
include geo

/-- With every FAT read served the walk follows the chain it was given, whichever of
its writes fail: an entry is read before it is cleared, and never again. -/
theorem fatFreeChain_frees {fat : Nat → Nat} {c : Nat} {ks : List Nat}
    (chain : Chain (Valid limit) Final fat c ks) (nodup : ks.Nodup) (budget : Nat)
    (same : ∀ k ∈ ks, (view g limit m.disk).fat k = fat k) :
    Leads e m (fatFreeChain g budget c) fun _ m' evs => FatServed g evs → Freeing g limit m.disk m'.disk ks evs := by
  induction chain generalizing m budget with
  | stop final =>
    cases budget with
    | zero => exact fun _ _ ran => nomatch ran
    | succ budget =>
      rw [fatFreeChain, if_neg (not_isLink_of_final final)]
      exact Leads.pure fun _ => .none rfl .nil
  | @link c ks valid _ ih =>
    obtain ⟨fresh, nodup⟩ := List.nodup_cons.mp nodup
    obtain ⟨here, later⟩ := List.forall_mem_cons.mp same
    cases budget with
    | zero => exact fun _ _ ran => nomatch ran
    | succ budget =>
      have link := geo.valid_isLink valid
      rw [fatFreeChain, if_pos link]
      refine Leads.bind (fatGet_leads geo c) fun next m₁ evs₁ got => ?_
      refine Leads.bind (fatSet_leads geo (Nat.lt_trans link.2 (by decide))) fun _ m₂ evs₂ set => ?_
      obtain ⟨disk, quiet, value⟩ := got
      by_cases served : FatServed g evs₁ ∧ FatServed g evs₂
      · rw [value served.1 valid.2, here]
        have entry := (set served.2).2 valid.2
        rw [disk] at entry
        have kept (k : Nat) (member : k ∈ ks) : (view g limit m₂.disk).fat k = fat k := by
          have other : k ≠ c := fun same => fresh (same ▸ member)
          rcases entry.fat with ⟨-, fat⟩ | ⟨-, fat⟩
          · rw [fat, Function.update_of_ne other, later k member]
          · rw [fat, later k member]
        exact (ih nodup budget kept).mono fun _ m₃ evs₃ rest all => .cons quiet entry (rest all.right.right)
      · exact (fatFreeChain_keeps geo budget next).mono fun _ _ _ _ all =>
          absurd ⟨all.left, all.right.left⟩ served

theorem freeOld_frees {fat : Nat → Nat} {start : Nat} {ks : List Nat} (chain : FileChain limit fat start ks) (budget : Nat)
    (same : (view g limit m.disk).fat = fat) :
    Leads e m (freeOld g budget start) fun _ m' evs => FatServed g evs → Freeing g limit m.disk m'.disk ks evs := by
  unfold freeOld
  cases chain with
  | empty => exact Leads.pure fun _ => .none rfl .nil
  | chain valid chain =>
    rw [if_pos valid.1]
    exact fatFreeChain_frees geo chain (chain.nodup geo.valid_apart) budget fun k _ => same ▸ rfl

theorem freeOld_keeps (budget start : Nat) : Leads e m (freeOld g budget start) fun _ m' evs =>
    FatServed g evs → ∀ c, (view g limit m.disk).fat c = 0 → (view g limit m'.disk).fat c = 0 := by
  unfold freeOld
  split
  · exact fatFreeChain_keeps geo budget start
  · exact Leads.pure fun _ _ free => free

end

/-! ### Taking a cluster -/

section
variable {g : Statics} {limit : Nat} (geo : Geometry g limit) (whole : limit = 128 * g.spf) {e : Env} {m : Machine}
include geo whole

/-- With every FAT read served the search finds a free entry, or there is none. -/
theorem fatAllocLoop_leads (rounds s : Nat) (last : s + rounds ≤ g.spf) :
    Leads e m (fatAllocLoop g rounds s) fun r _ evs => FatServed g evs →
      (r = 0 ∧ Quiet evs ∧ ∀ c, s * 128 ≤ c → c < (s + rounds) * 128 → 2 ≤ c → (view g limit m.disk).fat c ≠ 0) ∨
      (Valid limit r ∧ (view g limit m.disk).fat r = 0 ∧ ∀ ev ∈ evs, Grounded g ev) := by
  induction rounds generalizing s m with
  | zero => exact Leads.pure fun _ => .inl ⟨rfl, .nil, fun _ low high => by omega⟩
  | succ rounds ih =>
    have bound := geo.limit_le
    have inside : s < g.spf := by omega
    have address := geo.sectorAddr_eq (geo.sits_fat inside)
    have number (i : Nat) (small : i < 128) : add32 (mul32 s 128) i = s * 128 + i := by
      unfold add32 mul32
      omega
    refine loadSector_leads (g := g) _ fun b ok m₁ evs₁ same quiet tried served => ?_
    have entry (all : FatServed g evs₁) (i : Nat) (small : i < 128) :
        word32 b.data (i * 4) &&& 0x0FFFFFFF = (view g limit m.disk).fat (s * 128 + i) := by
      have read := tried.data (served all (address ▸ firstFat inside))
      rw [word32_congr fun k _ => read (i * 4 + k) (by omega), slot_eq geo m.disk inside small]
    cases found : findFree b.data s 128 0 with
    | none =>
      refine Leads.bind (kfree_leads b) fun _ m₂ evs₂ freed => ?_
      obtain ⟨same₂, quiet₂⟩ := freed
      refine (ih (s + 1) (by omega)).mono fun r m₃ evs₃ rest all => ?_
      rw [same₂, same] at rest
      refine (rest all.right.right).imp ?_ ?_
      · rintro ⟨zero, quiet₃, used⟩
        refine ⟨zero, quiet.append (quiet₂.append quiet₃), fun c low high real => ?_⟩
        by_cases later : (s + 1) * 128 ≤ c
        · exact used c later (by omega) real
        · have split : s * 128 + (c - s * 128) = c := by omega
          have taken := findFree_used found (k := c - s * 128) (by omega) (by rw [number _ (by omega)]; omega)
          rwa [entry all.left _ (by omega), split] at taken
      · rintro ⟨valid, free, grounded⟩
        refine ⟨valid, free, fun ev member => ?_⟩
        rcases List.mem_append.mp member with member | member
        · exact quiet.grounded ev member
        · exact (List.mem_append.mp member).elim (quiet₂.grounded ev) (grounded ev)
    | some i =>
      have range := findFree_lt found
      obtain ⟨real, free⟩ := findFree_free found
      refine store_leads _ _ _ fun m₂ evs₂ stored => ?_
      refine Leads.bind (kfree_leads _) fun _ m₃ evs₃ freed => Leads.pure fun all => .inr ?_
      have ok := served all.left (address ▸ firstFat inside)
      rw [number i (by omega)] at real ⊢
      rw [entry all.left i (by omega)] at free
      have held := sector_putWord (tried.data ok) (i * 4) (entryWord (word32 b.data (i * 4)) 0x0FFFFFFF)
      rw [address] at held
      rw [same] at stored
      have marked := stored.entry geo inside (by omega) address (fun two => geo.sectorAddr_eq (geo.sits_copy' two inside))
        held (tried.filled ok)
      exact ⟨⟨by omega, by omega⟩, free, (marked.surround quiet (freed.2.append .nil)).grounded⟩

theorem fatAllocCluster_leads : Leads e m (fatAllocCluster g) fun r _ evs => FatServed g evs →
    (r = 0 ∧ Quiet evs ∧ DiskFull limit (view g limit m.disk)) ∨
    (Valid limit r ∧ (view g limit m.disk).fat r = 0 ∧ ∀ ev ∈ evs, Grounded g ev) := by
  refine (fatAllocLoop_leads geo whole g.spf 0 (by omega)).mono fun r m' evs found all => (found all).imp_left ?_
  rintro ⟨zero, quiet, used⟩
  exact ⟨zero, quiet, fun c valid => used c (by omega) (by have := valid.2; omega) valid.1⟩

end

/-! ### Runs of sectors -/

section
variable {e : Env} {m : Machine}

theorem writeSectors_leads (lba : Nat) (buf : Buf) (n : Nat) : Leads e m (writeSectors lba buf n) fun _ _ evs =>
    ∀ ev ∈ evs, ∃ i ok, i < n ∧ ev = wrote buf (i * 512) (add32 lba i) ok := by
  induction n with
  | zero => exact Leads.pure fun _ member => absurd member List.not_mem_nil
  | succ n ih =>
    refine Leads.bind ih fun _ m₁ evs₁ before => ?_
    refine (writeSector_leads _ _ _).mono fun _ m₂ evs₂ last ev member => ?_
    obtain ⟨ok, rfl, -⟩ := last
    rcases List.mem_append.mp member with member | member
    · obtain ⟨i, ok, inside, rfl⟩ := before ev member
      exact ⟨i, ok, by omega, rfl⟩
    · obtain rfl := List.mem_singleton.mp member
      exact ⟨n, ok, by omega, rfl⟩

/-- Sectors read in turn into a buffer, those whose read failed left out. -/
structure Gathered (e : Env) (m : Machine) (lba n : Nat) (before after : Buf) : Prop where
  data : ∀ k, after.data k = if k < n * 512 ∧ e.fails (m.log.length + k / 512) = false then runByte m.disk lba k
    else before.data k
  filled : ∀ j, after.filled (j * 512) =
    if j < n ∧ e.fails (m.log.length + j) = false then some (add32 fat32StartLba (add32 lba j)) else before.filled (j * 512)

theorem readSectors_leads (lba n : Nat) (buf : Buf) : Leads e m (readSectors lba 0 n buf) fun b m' evs =>
    m'.disk = m.disk ∧ m'.log.length = m.log.length + n ∧ Quiet evs ∧ Gathered e m lba n buf b := by
  induction n with
  | zero => exact Leads.pure ⟨rfl, rfl, .nil, ⟨fun k => by rw [if_neg (by omega)], fun j => by rw [if_neg (by omega)]⟩⟩
  | succ n ih =>
    refine Leads.bind ih fun b m₁ evs₁ gathered => ?_
    obtain ⟨same₁, count, quiet₁, gathered⟩ := gathered
    refine (readSector_leads _ _ _).mono fun b' m₂ evs₂ read => ?_
    obtain ⟨same₂, next, rfl, fetched⟩ := read
    rw [count, same₁] at fetched
    refine ⟨same₂.trans same₁, by omega, quiet₁.append (by simp [Quiet, Event.asWrite]), fun k => ?_, fun j => ?_⟩
    · rw [fetched.data, gathered.data]
      by_cases tail : 0 + n * 512 ≤ k ∧ k < 0 + n * 512 + 512
      · have here : k / 512 = n ∧ k % 512 = k - (0 + n * 512) := by omega
        have inside : k < (n + 1) * 512 ∧ ¬k < n * 512 := by omega
        simp only [tail, inside, here, runByte, false_and, and_true, true_and, ↓reduceIte]
        cases e.fails (m.log.length + n) <;> rfl
      · have same : k < (n + 1) * 512 ↔ k < n * 512 := by omega
        simp only [tail, and_false, ↓reduceIte, same]
    · rw [fetched.filled]
      by_cases here : j = n
      · subst here
        cases lost : e.fails (m.log.length + j) <;> simp [lost, gathered.filled]
      · have same : j < n + 1 ↔ j < n := by omega
        have apart : j * 512 ≠ 0 + n * 512 := by omega
        simp only [same, ← gathered.filled]
        split
        · rw [Function.update_of_ne apart]
        · rfl

end

end ChrisOS.Fs.Fat32
