import ChrisOS.Shell
import ChrisOS.Fs.Neutrality

/-! What becomes of an operation when kmalloc has no block for it.

Stores through a pointer from kmalloc are the transfers of sectors and, in http_get and
wget, the stores listed with the report.
-/

set_option autoImplicit false

namespace ChrisOS.Shell
open ChrisOS.Drivers.Ata ChrisOS.Fs.Fat32 ChrisOS.Lib
open ChrisOS.Kernel.Mm (Heap HeapCall Reachable Serves)
open ChrisOS.Fs (callsBetween blankHeap)

/-! ### http_get and wget -/

/-- sizeof(http_req_t). -/
def httpReqSize : Nat := 12

/-- http_get: its request, and the addresses it stores to. `connected` says that the name was
resolved, a socket was free and the connection came about. -/
def httpGet (connected : Bool) : Kern (Option Buf × List Nat) :=
  if connected then do
    let req ← kmalloc httpReqSize
    -- the fields sock, status and headers_done; req is not looked at before
    pure (if req.ptr = 0 then none else some req, [req.ptr, req.ptr + 4, req.ptr + 8])
  else pure (none, [])

/-- The loop of wget over what http_read puts into its buffer, call by call. -/
def printChunks : List (List UInt8) → Kern Unit
  | [] => pure ()
  | chunk :: chunks => do
    printBytes (fun i => chunk.getD i 0) chunk.length 0
    printChunks chunks

/-- Whether an operation reports failure, and the addresses it stores to. -/
structure Report where
  failed : Prop
  stores : List Nat

def wget (nic connected : Bool) (url : List UInt8) (chunks : List (List UInt8)) : Kern Report :=
  if nic = false then do
    terminalWritestring "wget: no NIC\n"
    pure ⟨True, []⟩
  else do
    terminalWritestring "fetching "
    printBytes (fun i => url.getD i 0) url.length 0
    terminalPutchar 0x0A
    let r ← httpGet connected
    match r.1 with
    | none => do
      terminalWritestring "wget: failed\n"
      pure ⟨True, r.2⟩
    | some req => do
      let buf ← kmalloc 512
      printChunks chunks
      kfree buf
      -- http_close
      kfree req
      terminalPutchar 0x0A
      terminalWritestring (itoa (asInt (u32 (chunks.map List.length).sum)))
      terminalWritestring " bytes received\n"
      pure ⟨False, r.2 ++ chunks.flatMap fun chunk => (List.range chunk.length).map (buf.ptr + ·)⟩

/-! ### Operations -/

inductive Command where
  | init
  | ls (g : Statics)
  | readFile (g : Statics) (name : List UInt8) (buf : Buf)
  | createFile (g : Statics) (name : List UInt8)
  | writeFile (g : Statics) (name : List UInt8) (data : Nat → UInt8) (size : Nat)
  | deleteFile (g : Statics) (name : List UInt8)
  | httpGet (connected : Bool)
  | cat (g : Statics) (name : List UInt8)
  | wget (nic connected : Bool) (url : List UInt8) (chunks : List (List UInt8))

def eventsBetween (m m' : Machine) : List Event := m'.log.drop m.log.length

/-- cat ends with its message, and with giving its buffer back. -/
def NotFound (evs : List Event) : Prop := ∃ before ptr, evs = before ++ [.terminal "file not found\n", .kfree ptr]

/-- A run of an operation that returns, with its report. None is asked of fat32_init and fat32_ls,
which return nothing. -/
inductive Ran (e : Env) (m : Machine) : Command → Report → Machine → Prop where
  | init {g : Statics} {m' : Machine} : fat32Init e m = some (g, m') → Ran e m .init ⟨True, []⟩ m'
  | ls {g : Statics} {m' : Machine} : fat32Ls g e m = some ((), m') → Ran e m (.ls g) ⟨True, []⟩ m'
  | readFile {g : Statics} {name : List UInt8} {buf : Buf} {budget : Nat} {r : Int × Buf} {m' : Machine} :
      fat32ReadFile g budget name buf e m = some (r, m') → Ran e m (.readFile g name buf) ⟨r.1 = 0, []⟩ m'
  | createFile {g : Statics} {name : List UInt8} {r : Nat} {m' : Machine} :
      fat32CreateFile g name e m = some (r, m') → Ran e m (.createFile g name) ⟨r = 0, []⟩ m'
  | writeFile {g : Statics} {name : List UInt8} {data : Nat → UInt8} {size budget r : Nat} {m' : Machine} :
      fat32WriteFile g budget name data size e m = some (r, m') →
      Ran e m (.writeFile g name data size) ⟨r = 0, []⟩ m'
  | deleteFile {g : Statics} {name : List UInt8} {budget r : Nat} {m' : Machine} :
      fat32DeleteFile g budget name e m = some (r, m') → Ran e m (.deleteFile g name) ⟨r = 0, []⟩ m'
  | httpGet {connected : Bool} {r : Option Buf × List Nat} {m' : Machine} :
      Shell.httpGet connected e m = some (r, m') → Ran e m (.httpGet connected) ⟨r.1.isNone, r.2⟩ m'
  | cat {g : Statics} {name : List UInt8} {budget : Nat} {b : Buf} {m' : Machine} :
      Shell.cat g budget name e m = some (b, m') → Ran e m (.cat g name) ⟨NotFound (eventsBetween m m'), []⟩ m'
  | wget {nic connected : Bool} {url : List UInt8} {chunks : List (List UInt8)} {report : Report} {m' : Machine} :
      Shell.wget nic connected url chunks e m = some (report, m') → Ran e m (.wget nic connected url chunks) report m'

/-- The operation reports failure, keeps off the null pointer and leaves the disk alone. -/
structure Withstands (report : Report) (m m' : Machine) : Prop where
  failed : report.failed
  transfers : ¬Strayed (eventsBetween m m')
  stores : 0 ∉ report.stores
  disk : m'.disk = m.disk

/-- The directory as an operation reads it into the block of its `n`-th call: what the
block held before shows where a read failed. -/
def directoryRead (g : Statics) (e : Env) (d : Disk) (n : Nat) : Nat → UInt8 := fun k =>
  if k < g.spc * 512 ∧ e.fails (n + 1 + k / 512) = false then runByte d (clusterLba g g.rootCluster) k else e.stale n k

/-- The size that the directory gives for a name, 0 if it is not listed. -/
def listedSize (g : Statics) (dir : Nat → UInt8) (name : List UInt8) : Nat :=
  match (findDirEntry dir g.clusterSize (nameToFat83 name)).1 with
  | none => 0
  | some off => entrySize dir off

/-- The requests for memory that an operation can do without. -/
def Spares (e : Env) (m : Machine) : Command → Prop
  | .init | .httpGet _ | .wget .. => False
  -- a cluster of no bytes: the request is for nothing
  | .ls g | .readFile g .. | .createFile g _ | .writeFile g .. | .deleteFile g _ => g.spc = 0
  | .cat g name =>
    listedSize g (directoryRead g e m.disk (m.log.length + 1)) name = 0 ∧ (g.spc = 0 ∨ e.block (m.log.length + 1) ≠ 0)

/-! ### Steps without a transfer -/

section
variable {A : Type} {g : Statics} {e : Env} {m : Machine} {xs ys : List Event}

theorem not_strayed_append (first : ¬Strayed xs) (second : ¬Strayed ys) : ¬Strayed (xs ++ ys) := by
  rintro ⟨ev, member, strays⟩
  rcases List.mem_append.mp member with member | member
  · exact first ⟨ev, member, strays⟩
  · exact second ⟨ev, member, strays⟩

theorem not_strayed_single {ev : Event} (quiet : ¬Fs.Fat32.Event.Strays ev) : ¬Strayed [ev] := by
  rintro ⟨_, member, strays⟩
  obtain rfl := List.mem_singleton.mp member
  exact quiet strays

/-- A step that leaves the disk alone and uses no null pointer. -/
abbrev Calm (m : Machine) (m' : Machine) (evs : List Event) : Prop := m'.disk = m.disk ∧ ¬Strayed evs

theorem Calm.refl (m : Machine) : Calm m m [] := ⟨rfl, fun ⟨_, member, _⟩ => absurd member List.not_mem_nil⟩

theorem Calm.trans {m' m'' : Machine} (first : Calm m m' xs) (second : Calm m' m'' ys) : Calm m m'' (xs ++ ys) :=
  ⟨second.1.trans first.1, not_strayed_append first.2 second.2⟩

theorem kmalloc_calm (size : Nat) : Leads e m (kmalloc size) fun _ m' evs => Calm m m' evs :=
  .of_run rfl rfl ⟨rfl, not_strayed_single id⟩

theorem kfree_calm (b : Buf) : Leads e m (kfree b) fun _ m' evs => Calm m m' evs :=
  .of_run rfl rfl ⟨rfl, not_strayed_single id⟩

theorem terminalWritestring_calm (text : String) : Leads e m (terminalWritestring text) fun _ m' evs => Calm m m' evs :=
  .of_run rfl rfl ⟨rfl, not_strayed_single id⟩

theorem terminalWritestring_tells (text : String) : Leads e m (terminalWritestring text) fun _ m' evs =>
    evs = [.terminal text] ∧ Calm m m' [.terminal text] :=
  .of_run rfl rfl ⟨rfl, rfl, not_strayed_single id⟩

theorem printBytes_calm (f : Nat → UInt8) (rounds i : Nat) : Leads e m (printBytes f rounds i) fun _ m' evs =>
    Calm m m' evs ∧ Idle evs := by
  induction rounds generalizing i m with
  | zero => exact .pure ⟨.refl m, rfl⟩
  | succ rounds ih =>
    refine .bind ((terminalWritestring_calm _).and (terminalWritestring_idle _)) fun _ m₁ evs first => ?_
    exact (ih (i + 1)).mono fun _ _ _ rest => ⟨first.1.trans rest.1, first.2.append rest.2⟩

theorem printChunks_idle (chunks : List (List UInt8)) : Leads e m (printChunks chunks) fun _ _ evs => Idle evs := by
  induction chunks generalizing m with
  | nil => exact .pure rfl
  | cons chunk chunks ih =>
    refine .bind (printBytes_calm _ _ _) fun _ m₁ evs first => ?_
    exact ih.mono fun _ _ _ rest => first.2.append rest

/-! ### Clusters of no bytes -/

theorem readCluster_none (none : g.spc = 0) (cluster : Nat) (b : Buf) (off : Nat) : readCluster g cluster b off = pure b := by
  rw [readCluster, none]
  rfl

theorem findDirEntry_none (none : g.spc = 0) (f : Nat → UInt8) (fatname : FatName) :
    findDirEntry f g.clusterSize fatname = (Option.none, Option.none) := by
  rw [Statics.clusterSize, none]
  rfl

/-- The beginning of an operation on a directory of no bytes. -/
theorem Leads.bare {size : Nat} {f : Buf → Kern A} {post : A → Prop} (none : g.spc = 0)
    (rest : ∀ b m', Leads e m' (f b) fun a m'' evs => Calm m' m'' evs ∧ post a) :
    Leads e m (do let b ← kmalloc size; let b ← readCluster g g.rootCluster b 0; f b)
      fun a m' evs => Calm m m' evs ∧ post a := by
  refine .bind (kmalloc_calm size) fun b m₁ evs₁ first => ?_
  rw [readCluster_none none]
  exact (rest b m₁).mono fun a m₂ evs₂ second => ⟨first.trans second.1, second.2⟩

theorem told_calm (text : String) (b : Buf) {a : A} {post : A → Prop} (holds : post a) :
    Leads e m (do terminalWritestring text; kfree b; pure a) fun a m' evs => Calm m m' evs ∧ post a := by
  refine .bind (terminalWritestring_calm text) fun _ m₁ evs₁ told => ?_
  refine .bind (kfree_calm b) fun _ m₂ evs₂ freed => .pure ⟨?_, holds⟩
  rw [List.append_nil]
  exact told.trans freed

theorem fat32Ls_bare (none : g.spc = 0) : Leads e m (fat32Ls g) fun _ m' evs => Calm m m' evs ∧ True := by
  refine Leads.bare none fun b m' => ?_
  have empty : g.clusterSize / 32 = 0 := by simp [Statics.clusterSize, none]
  have listed : Leads e m' (listEntries b.data (g.clusterSize / 32) 0 0) fun count m'' evs => count = 0 ∧ Calm m' m'' evs := by
    rw [empty]
    exact .pure ⟨rfl, .refl m'⟩
  refine .bind listed fun count m₁ evs₁ shown => ?_
  rw [if_pos shown.1]
  refine .bind (terminalWritestring_calm _) fun _ m₂ evs₂ told => ?_
  exact (kfree_calm b).mono fun _ _ _ freed => ⟨shown.2.trans (told.trans freed), trivial⟩

theorem fat32CreateFile_bare (none : g.spc = 0) (name : List UInt8) :
    Leads e m (fat32CreateFile g name) fun r m' evs => Calm m m' evs ∧ r = 0 := by
  refine Leads.bare none fun b m' => ?_
  rw [findDirEntry_none none]
  exact told_calm _ b rfl

theorem fat32DeleteFile_bare (none : g.spc = 0) (budget : Nat) (name : List UInt8) :
    Leads e m (fat32DeleteFile g budget name) fun r m' evs => Calm m m' evs ∧ r = 0 := by
  refine Leads.bare none fun b m' => ?_
  rw [findDirEntry_none none]
  refine .bind (kfree_calm b) fun _ m₁ evs₁ freed => .pure ⟨?_, rfl⟩
  rwa [List.append_nil]

theorem fat32WriteFile_bare (none : g.spc = 0) (budget : Nat) (name : List UInt8) (data : Nat → UInt8) (size : Nat) :
    Leads e m (fat32WriteFile g budget name data size) fun r m' evs => Calm m m' evs ∧ r = 0 := by
  unfold fat32WriteFile
  dsimp only
  split
  · refine .bind (terminalWritestring_calm _) fun _ m₁ evs₁ told => .pure ⟨?_, rfl⟩
    rwa [List.append_nil]
  · refine Leads.bare none fun b m' => ?_
    rw [findDirEntry_none none]
    exact told_calm _ b rfl

/-! ### Reading -/

theorem listedSize_none (none : g.spc = 0) (dir : Nat → UInt8) (name : List UInt8) : listedSize g dir name = 0 := by
  rw [listedSize, findDirEntry_none none]

theorem listedSize_lt (dir : Nat → UInt8) (name : List UInt8) : listedSize g dir name < 2 ^ 32 := by
  unfold listedSize
  split
  · decide
  · exact entrySize_lt dir _

theorem readSectors_strays (lba n : Nat) (buf : Buf) (off : Nat) : Leads e m (readSectors lba off n buf) fun _ _ evs =>
    Strayed evs → 0 < n ∧ buf.ptr = 0 := by
  induction n with
  | zero => exact .pure fun strayed => absurd strayed (Calm.refl m).2
  | succ n ih =>
    refine .bind (ih.and (readSectors_idle lba n buf off)) fun b m₁ evs₁ before => ?_
    refine (readSector_leads _ _ _).mono fun _ m₂ evs₂ read strayed => ⟨Nat.succ_pos n, ?_⟩
    obtain ⟨-, -, rfl, -⟩ := read
    obtain ⟨ev, member, strays⟩ := strayed
    rcases List.mem_append.mp member with member | member
    · exact (before.1 ⟨ev, member, strays⟩).2
    · obtain rfl := List.mem_singleton.mp member
      have null : b.ptr + (off + n * 512) = 0 := strays
      rw [before.2.1] at null
      omega

theorem readFileLoop_none (budget cluster remaining : Nat) (buf : Buf) (off : Nat) :
    Leads e m (readFileLoop g budget cluster remaining buf off) fun _ m' evs => remaining = 0 → Calm m m' evs := by
  by_cases zero : remaining = 0
  · cases budget with
    | zero => exact fun _ _ ran => nomatch ran
    | succ budget =>
      rw [readFileLoop, if_neg fun more => absurd zero (Nat.ne_of_gt more.2)]
      exact .pure fun _ => .refl m
  · exact (readFileLoop_tidy budget cluster remaining buf off).mono fun _ _ _ _ none => absurd none zero

/-- The directory in its buffer. -/
structure Listed (g : Statics) (e : Env) (m m' : Machine) (dbuf : Buf) (evs : List Event) : Prop where
  data : dbuf.data = directoryRead g e m.disk m.log.length
  disk : m'.disk = m.disk
  strayed : Strayed evs ↔ 0 < g.spc ∧ e.block m.log.length = 0

theorem loadDirectory_listed {f : Buf → Kern A} {post : A → Machine → List Event → Prop}
    (rest : ∀ b m' evs, Listed g e m m' b evs → Leads e m' (f b) fun a m'' evs' => post a m'' (evs ++ evs')) :
    Leads e m (do let b ← kmalloc g.clusterSize; let b ← readCluster g g.rootCluster b 0; f b) post := by
  let block : Buf := ⟨e.block m.log.length, e.stale m.log.length, fun _ => none⟩
  let m₁ := m.record (.kmalloc g.clusterSize block.ptr)
  have count : m₁.log.length = m.log.length + 1 := by simp [m₁, Machine.record]
  have takes : Leads e m (kmalloc g.clusterSize) fun b m' evs => b = block ∧ m' = m₁ ∧ ¬Strayed evs :=
    .of_run rfl rfl ⟨rfl, rfl, not_strayed_single id⟩
  refine .bind takes fun b m' evs₁ taken => ?_
  obtain ⟨rfl, rfl, calm⟩ := taken
  refine .bind ((readSectors_leads _ g.spc block).and ((readSectors_idle _ g.spc block 0).and
    (readSectors_strays _ g.spc block 0))) fun dbuf m₂ evs₂ read => ?_
  obtain ⟨⟨same, -, -, gathered⟩, ⟨-, -, used⟩, strays⟩ := read
  have listed : Listed g e m m₂ dbuf (evs₁ ++ evs₂) := by
    refine ⟨funext fun k => ?_, same, fun strayed => ?_, fun null => ?_⟩
    · rw [gathered.data, count]
      rfl
    · by_contra other
      exact not_strayed_append calm (fun later => other (strays later)) strayed
    · exact (used null.1 null.2).right _
  refine (rest dbuf m₂ _ listed).mono fun a m₃ evs₃ holds => ?_
  rwa [← List.append_assoc]

/-- What fat32_read_file returns, and what it does for a file of size 0 or none. -/
theorem fat32ReadFile_listed (budget : Nat) (name : List UInt8) (buf : Buf) :
    Leads e m (fat32ReadFile g budget name buf) fun r m' evs =>
      r.1 = asInt (listedSize g (directoryRead g e m.disk m.log.length) name) ∧
      (listedSize g (directoryRead g e m.disk m.log.length) name = 0 →
        m'.disk = m.disk ∧ (Strayed evs ↔ 0 < g.spc ∧ e.block m.log.length = 0)) := by
  refine loadDirectory_listed fun dbuf m₁ evs₁ listed => ?_
  have after {m' : Machine} {evs : List Event} (calm : Calm m₁ m' evs) :
      m'.disk = m.disk ∧ (Strayed (evs₁ ++ evs) ↔ 0 < g.spc ∧ e.block m.log.length = 0) := by
    refine ⟨calm.1.trans listed.disk, fun strayed => ?_, fun null => (listed.strayed.mpr null).left evs⟩
    by_contra other
    exact not_strayed_append (fun early => other (listed.strayed.mp early)) calm.2 strayed
  rw [← listed.data, listedSize]
  cases (findDirEntry dbuf.data g.clusterSize (nameToFat83 name)).1 with
  | none =>
    refine .bind (kfree_calm dbuf) fun _ m₂ evs₂ freed => .pure ⟨rfl, fun _ => after ?_⟩
    rwa [List.append_nil]
  | some off =>
    refine .bind (kfree_calm dbuf) fun _ m₂ evs₂ freed => ?_
    refine .bind (readFileLoop_none _ _ _ _ _) fun b m₃ evs₃ read => .pure ⟨rfl, fun zero => after ?_⟩
    rw [List.append_nil]
    exact freed.trans (read zero)

/-! ### cat -/

theorem notFound_iff {evs : List Event} (text : String) (ptr : Nat) :
    NotFound (evs ++ [.terminal text, .kfree ptr]) ↔ text = "file not found\n" := by
  constructor
  · rintro ⟨before, ptr', same⟩
    have last := List.append_inj_right' same rfl
    simpa using (List.cons.inj last).1
  · rintro rfl
    exact ⟨evs, ptr, rfl⟩

theorem cat_withstands (budget : Nat) (name : List UInt8) : Leads e m (cat g budget name) fun _ m' evs =>
    NotFound evs ∧ Calm m m' evs ↔ Spares e m (.cat g name) := by
  let m₁ := m.record (.kmalloc 4096 (e.block m.log.length))
  have count : m₁.log.length = m.log.length + 1 := by simp [m₁, Machine.record]
  have takes : Leads e m (kmalloc 4096) fun _ m' evs => m' = m₁ ∧ ¬Strayed evs :=
    .of_run rfl rfl ⟨rfl, not_strayed_single id⟩
  refine .bind takes fun buf m' evs₁ taken => ?_
  obtain ⟨rfl, calm₁⟩ := taken
  refine .bind (fat32ReadFile_listed budget name buf) fun r m₂ evs₂ read => ?_
  rw [count] at read
  obtain ⟨returned, rest⟩ := read
  have zero : r.1 = 0 ↔ listedSize g (directoryRead g e m.disk (m.log.length + 1)) name = 0 := by
    have word := listedSize_lt (g := g) (directoryRead g e m.disk (m.log.length + 1)) name
    have asZero := asInt_eq_iff word (Nat.zero_le _)
    rw [returned]
    exact asZero.trans ⟨fun both => Nat.le_zero.mp both.2, fun zero => by omega⟩
  split
  · rename_i found
    refine .bind (printBytes_calm _ _ _) fun _ m₃ evs₃ _ => ?_
    refine .bind (terminalWritestring_tells _) fun _ m₄ evs₄ told => ?_
    refine .bind (kfree_gives r.2) fun _ m₅ evs₅ gives => .pure ?_
    obtain ⟨rfl, -⟩ := told
    subst gives
    apply iff_of_false
    · rintro ⟨ends, -⟩
      rw [List.append_nil, List.singleton_append, ← List.append_assoc, ← List.append_assoc, notFound_iff] at ends
      exact absurd ends (by decide)
    · exact fun spares => found (zero.mpr spares.1)
  · rename_i absent
    have none := zero.mp (not_not.mp absent)
    obtain ⟨disk₂, strayed⟩ := rest none
    refine .bind (terminalWritestring_tells _) fun _ m₃ evs₃ told => ?_
    refine .bind ((kfree_gives r.2).and (kfree_calm r.2)) fun _ m₄ evs₄ gives => .pure ?_
    obtain ⟨rfl, calm₃⟩ := told
    obtain ⟨rfl, calm₄⟩ := gives
    have ends : NotFound (evs₁ ++ (evs₂ ++ ([.terminal "file not found\n"] ++ ([.kfree r.2.ptr] ++ [])))) := by
      rw [List.append_nil, List.singleton_append, ← List.append_assoc, notFound_iff]
    have disk : m₄.disk = m.disk := calm₄.1.trans (calm₃.1.trans disk₂)
    have quiet : ¬Strayed ([.terminal "file not found\n"] ++ ([.kfree r.2.ptr] ++ [])) := by
      rw [List.append_nil]
      exact not_strayed_append calm₃.2 calm₄.2
    constructor
    · rintro ⟨-, -, calm⟩
      refine ⟨none, ?_⟩
      by_contra denied
      rw [not_or, not_not] at denied
      exact calm (((strayed.mpr ⟨Nat.pos_of_ne_zero denied.1, denied.2⟩).left _).right _)
    · rintro ⟨-, spares⟩
      have calm₂ : ¬Strayed evs₂ := by
        rw [strayed]
        rintro ⟨positive, null⟩
        rcases spares with bare | granted
        · omega
        · exact granted null
      exact ⟨ends, disk, not_strayed_append calm₁ (not_strayed_append calm₂ quiet)⟩

/-! ### wget -/

theorem httpGet_stores (connected : Bool) : Leads e m (httpGet connected) fun r _ evs => Denied evs → 0 ∈ r.2 := by
  unfold httpGet
  split
  · refine .bind (kmalloc_takes _) fun req m₁ evs taken => .pure fun denied => ?_
    obtain ⟨size, member⟩ := denied
    subst taken
    have same : HeapCall.kmalloc size 0 = .kmalloc httpReqSize req.ptr := List.mem_singleton.mp member
    rw [← (HeapCall.kmalloc.inj same).2]
    exact List.mem_cons_self
  · exact .pure fun denied => absurd denied Idle.nil.not_denied

theorem wget_fails (nic connected : Bool) (url : List UInt8) (chunks : List (List UInt8)) :
    Leads e m (wget nic connected url chunks) fun report _ evs => Denied evs → report.failed → 0 ∈ report.stores := by
  unfold wget
  split
  · refine .bind (terminalWritestring_idle _) fun _ m₁ evs told => .pure fun denied => ?_
    exact absurd denied (told.append .nil).not_denied
  · refine .bind (terminalWritestring_idle _) fun _ m₁ evs₁ opening => ?_
    refine .bind (printBytes_calm _ _ _) fun _ m₂ evs₂ shown => ?_
    refine .bind (terminalWritestring_idle _) fun _ m₃ evs₃ ended => ?_
    refine .bind (httpGet_stores connected) fun r m₄ evs₄ got => ?_
    cases r.1 with
    | none =>
      refine .bind (terminalWritestring_idle _) fun _ m₅ evs₅ told => .pure fun denied _ => got ?_
      have before := (denied.cases.resolve_left opening.not_denied).cases.resolve_left shown.2.not_denied
      have call := (before.cases.resolve_left ended.not_denied).cases
      exact call.resolve_right (told.append .nil).not_denied
    | some req =>
      refine .bind (kmalloc_takes _) fun buf m₅ _ _ => ?_
      refine .bind (printChunks_idle chunks) fun _ m₆ _ _ => ?_
      refine .bind (kfree_gives buf) fun _ m₇ _ _ => ?_
      refine .bind (kfree_gives req) fun _ m₈ _ _ => ?_
      refine .bind (terminalWritestring_idle _) fun _ m₉ _ _ => ?_
      refine .bind (terminalWritestring_idle _) fun _ m₁₀ _ _ => ?_
      exact .bind (terminalWritestring_idle _) fun _ m₁₁ _ _ => .pure fun _ failed => failed.elim

end

/-! ### Every operation -/

theorem eventsBetween_eq {m m' : Machine} {evs : List Event} (log : m'.log = m.log ++ evs) :
    eventsBetween m m' = evs := by
  rw [eventsBetween, log, List.drop_left]

section
variable {A : Type} {g : Statics} {e : Env} {m m' : Machine} {x : Kern A} {a : A}

/-- Code that never looks at the pointers it gets. -/
theorem strayed_of_tidy {roomy : Prop} (ran : x e m = some (a, m')) (tidy : Leads e m x fun _ _ evs => Tidy roomy evs)
    (room : roomy) (denied : Denied (eventsBetween m m')) : Strayed (eventsBetween m m') := by
  obtain ⟨evs, log, tidy⟩ := tidy a m' ran
  rw [eventsBetween_eq log] at denied ⊢
  exact tidy.strays room denied

theorem withstands_iff_of_tidy {failed : Prop} (ran : x e m = some (a, m'))
    (tidy : Leads e m x fun _ _ evs => Tidy (0 < g.spc) evs)
    (bare : g.spc = 0 → Leads e m x fun a' m'' evs => Calm m m'' evs ∧ (a' = a → failed))
    (denied : Denied (eventsBetween m m')) : Withstands ⟨failed, []⟩ m m' ↔ g.spc = 0 := by
  constructor
  · intro withstands
    by_contra room
    exact withstands.transfers (strayed_of_tidy ran tidy (Nat.pos_of_ne_zero room) denied)
  · intro none
    obtain ⟨evs, log, calm, failed⟩ := bare none a m' ran
    refine ⟨failed rfl, ?_, List.not_mem_nil, calm.1⟩
    rw [eventsBetween_eq log]
    exact calm.2

end

/-- When kmalloc has refused an operation a block, the operation fails as it should exactly
if it can do without. -/
theorem denied_withstands_iff {e : Env} {m m' : Machine} {command : Command} {report : Report}
    (ran : Ran e m command report m') (denied : Denied (eventsBetween m m')) :
    Withstands report m m' ↔ Spares e m command := by
  cases ran with
  | init ran =>
    have strayed := strayed_of_tidy ran fat32Init_tidy trivial denied
    exact iff_of_false (fun withstands => withstands.transfers strayed) id
  | ls ran =>
    refine withstands_iff_of_tidy ran fat32Ls_tidy (fun none => ?_) denied
    exact (fat32Ls_bare none).mono fun _ _ _ both => ⟨both.1, fun _ => trivial⟩
  | @readFile g name buf budget r _ ran =>
    refine withstands_iff_of_tidy ran ((fat32ReadFile_tidy _ _ _).mono fun _ _ _ => And.left) (fun none => ?_) denied
    refine (fat32ReadFile_listed budget name buf).mono fun r' m'' evs read => ?_
    have zero := listedSize_none none (directoryRead g e m.disk m.log.length) name
    obtain ⟨disk, strayed⟩ := read.2 zero
    refine ⟨⟨disk, fun strays => ?_⟩, fun same => ?_⟩
    · exact absurd (strayed.mp strays).1 (by omega)
    · rw [← same, read.1, zero]
      rfl
  | createFile ran =>
    refine withstands_iff_of_tidy ran (fat32CreateFile_tidy _) (fun none => ?_) denied
    exact (fat32CreateFile_bare none _).mono fun _ _ _ both => ⟨both.1, fun same => same ▸ both.2⟩
  | writeFile ran =>
    refine withstands_iff_of_tidy ran (fat32WriteFile_tidy _ _ _ _) (fun none => ?_) denied
    exact (fat32WriteFile_bare none _ _ _ _).mono fun _ _ _ both => ⟨both.1, fun same => same ▸ both.2⟩
  | deleteFile ran =>
    refine withstands_iff_of_tidy ran (fat32DeleteFile_tidy _ _) (fun none => ?_) denied
    exact (fat32DeleteFile_bare none _ _).mono fun _ _ _ both => ⟨both.1, fun same => same ▸ both.2⟩
  | httpGet ran =>
    obtain ⟨evs, log, stores⟩ := httpGet_stores _ _ _ ran
    rw [eventsBetween_eq log] at denied
    exact iff_of_false (fun withstands => withstands.stores (stores denied)) id
  | @cat g name budget b _ ran =>
    obtain ⟨evs, log, both⟩ := cat_withstands budget name _ _ ran
    rw [← both, ← eventsBetween_eq log]
    exact ⟨fun w => ⟨w.failed, w.disk, w.transfers⟩, fun both => ⟨both.1, both.2.2, List.not_mem_nil, both.2.1⟩⟩
  | wget ran =>
    obtain ⟨evs, log, stores⟩ := wget_fails _ _ _ _ _ _ ran
    rw [eventsBetween_eq log] at denied
    exact iff_of_false (fun withstands => withstands.stores (stores denied withstands.failed)) id

/-- The request for the `n`-th block is answered with `n`, the first one refused. -/
def countingEnv : Env := ⟨fun _ => false, fun n => n, fun _ _ => 0⟩

def zeroed : Machine := ⟨fun _ _ => 0, []⟩

/-- cat of a file that is not there, without a buffer of its own. -/
theorem denied_withstands_iff_cat : ∃ report m', Ran countingEnv zeroed (.cat sample [0x61]) report m' ∧
    (Withstands report zeroed m' ↔ Spares countingEnv zeroed (.cat sample [0x61])) := by
  obtain ⟨b, m', ran, denied⟩ : ∃ b m', cat sample 1 [0x61] countingEnv zeroed = some (b, m') ∧
      .kmalloc 4096 0 ∈ callsBetween zeroed m' := ⟨_, _, rfl, List.mem_cons_self⟩
  exact ⟨_, m', .cat ran, denied_withstands_iff (.cat ran) ⟨4096, denied⟩⟩

/-- On a heap that has no block left, fat32_create_file reads the directory to the null
pointer and writes from there. -/
theorem create_file_uses_null : ¬∀ (e : Env) (m m' : Machine) (command : Command) (report : Report) (h h' : Heap)
    (live : List Nat), Ran e m command report m' → Reachable h live → Serves h (callsBetween m m') h' →
    Denied (eventsBetween m m') → Withstands report m m' := by
  intro all
  obtain ⟨h, live, reachable, full⟩ := Kernel.Mm.exhausted blankHeap
  have nothing : Returns (Kernel.Mm.kfree h 0) h := .of_all fun budget => by simp [Kernel.Mm.kfree]
  have serves : Serves h [.kmalloc 512 0, .kfree 0] h := .kmalloc full (.kfree nothing (.done h))
  obtain ⟨r, m', ran, calls⟩ : ∃ r m', fat32CreateFile sample [0x61] steadyEnv zeroed = some (r, m') ∧
      callsBetween zeroed m' = [.kmalloc 512 0, .kfree 0] := ⟨_, _, rfl, rfl⟩
  have denied : Denied (eventsBetween zeroed m') := ⟨512, by
    change _ ∈ callsBetween zeroed m'
    rw [calls]
    exact List.mem_cons_self⟩
  have withstands := all _ _ _ _ _ h h live (.createFile ran) reachable (calls ▸ serves) denied
  exact withstands.transfers (strayed_of_tidy ran (fat32CreateFile_tidy _) (by decide) denied)

end ChrisOS.Shell
