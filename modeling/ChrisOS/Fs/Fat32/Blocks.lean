import ChrisOS.Fs.Fat32.Faults
import ChrisOS.Kernel.Mm.Calls

/-! The heap blocks that each routine takes, whatever the disk holds and whichever
transfers fail. Each block is given back, the inner ones first, and none is checked:
where kmalloc had no block, the sectors move to and from the null pointer.
-/

set_option autoImplicit false

namespace ChrisOS.Fs.Fat32
open ChrisOS.Lib ChrisOS.Drivers.Ata
open ChrisOS.Kernel.Mm (HeapCall Nested)

def Event.heapCall : Event → Option HeapCall
  | .kmalloc size ptr => some (.kmalloc size ptr)
  | .kfree ptr => some (.kfree ptr)
  | .read .. | .write .. | .terminal _ => none

def heapCalls (evs : List Event) : List HeapCall := evs.filterMap Event.heapCall

/-- A transfer to or from the null pointer. -/
def Event.Strays : Event → Prop
  | .read _ ptr _ | .write _ ptr _ _ _ => ptr = 0
  | .kmalloc .. | .kfree _ | .terminal _ => False

def Strayed (evs : List Event) : Prop := ∃ ev ∈ evs, Event.Strays ev

/-- kmalloc returned the null pointer. -/
def Denied (evs : List Event) : Prop := ∃ size, .kmalloc size 0 ∈ heapCalls evs

/-- Each block taken was given back, and one that was denied was used all the same,
given that no request is for nothing. -/
structure Tidy (roomy : Prop) (evs : List Event) : Prop where
  nested : Nested (heapCalls evs)
  strays : roomy → Denied evs → Strayed evs

/-- A block taken before is given back in these events. -/
structure Frees (roomy : Prop) (ptr : Nat) (evs : List Event) : Prop where
  calls : ∃ inner rest, heapCalls evs = inner ++ .kfree ptr :: rest ∧ Nested inner ∧ Nested rest
  strays : roomy → Denied evs → Strayed evs

/-- No call of the allocator. -/
def Idle (evs : List Event) : Prop := heapCalls evs = []

/-! ### Events put together -/

section
variable {roomy : Prop} {xs ys : List Event} {ptr : Nat}

theorem heapCalls_append (xs ys : List Event) : heapCalls (xs ++ ys) = heapCalls xs ++ heapCalls ys :=
  List.filterMap_append

theorem Strayed.left (strayed : Strayed xs) (ys : List Event) : Strayed (xs ++ ys) := by
  obtain ⟨ev, member, strays⟩ := strayed
  exact ⟨ev, List.mem_append_left _ member, strays⟩

theorem Strayed.right (xs : List Event) (strayed : Strayed ys) : Strayed (xs ++ ys) := by
  obtain ⟨ev, member, strays⟩ := strayed
  exact ⟨ev, List.mem_append_right _ member, strays⟩

theorem Denied.cases (denied : Denied (xs ++ ys)) : Denied xs ∨ Denied ys := by
  obtain ⟨size, member⟩ := denied
  rw [heapCalls_append] at member
  exact (List.mem_append.mp member).imp (fun left => ⟨size, left⟩) fun right => ⟨size, right⟩

theorem strays_append (first : Denied xs → Strayed xs) (second : Denied ys → Strayed ys) :
    Denied (xs ++ ys) → Strayed (xs ++ ys) := by
  intro denied
  rcases denied.cases with left | right
  · exact (first left).left ys
  · exact (second right).right xs

theorem Idle.nil : Idle [] := rfl

theorem Idle.append (first : Idle xs) (second : Idle ys) : Idle (xs ++ ys) := by
  rw [Idle, heapCalls_append, first, second, List.nil_append]

theorem Idle.not_denied (idle : Idle xs) : ¬Denied xs := by
  rintro ⟨size, member⟩
  rw [idle] at member
  exact absurd member List.not_mem_nil

theorem Idle.tidy (idle : Idle xs) : Tidy roomy xs := by
  constructor
  · rw [idle]
    exact .nil
  · exact fun _ denied => absurd denied idle.not_denied

theorem Tidy.nil : Tidy roomy [] := Idle.tidy rfl

theorem Tidy.append (first : Tidy roomy xs) (second : Tidy roomy ys) : Tidy roomy (xs ++ ys) := by
  constructor
  · rw [heapCalls_append]
    exact first.nested.append second.nested
  · exact fun room => strays_append (first.strays room) (second.strays room)

theorem Frees.here (ptr : Nat) (rest : Tidy roomy ys) : Frees roomy ptr ([.kfree ptr] ++ ys) := by
  constructor
  · exact ⟨[], heapCalls ys, heapCalls_append _ _, .nil, rest.nested⟩
  · refine fun room => strays_append (fun denied => ?_) (rest.strays room)
    obtain ⟨size, member⟩ := denied
    simp [heapCalls, Event.heapCall] at member

theorem Frees.after (first : Tidy roomy xs) (later : Frees roomy ptr ys) : Frees roomy ptr (xs ++ ys) := by
  constructor
  · obtain ⟨inner, rest, calls, nested, nested'⟩ := later.calls
    refine ⟨heapCalls xs ++ inner, rest, ?_, first.nested.append nested, nested'⟩
    rw [heapCalls_append, calls, List.append_assoc]
  · exact fun room => strays_append (first.strays room) (later.strays room)

/-- A block that is used, given back and in between only framed by tidy code. -/
theorem Frees.tidy (size : Nat) {use : List Event} (idle : Idle use) (used : roomy → ptr = 0 → Strayed use)
    (frees : Frees roomy ptr ys) : Tidy roomy ([.kmalloc size ptr] ++ (use ++ ys)) := by
  have later := Frees.after idle.tidy frees
  constructor
  · obtain ⟨inner, rest, calls, nested, nested'⟩ := later.calls
    rw [heapCalls_append, calls]
    exact .block nested nested'
  · intro room denied
    rcases denied.cases with ⟨n, member⟩ | inside
    · have same : HeapCall.kmalloc n 0 = .kmalloc size ptr := List.mem_singleton.mp member
      obtain ⟨-, null⟩ := HeapCall.kmalloc.inj same
      exact ((used room null.symm).left ys).right _
    · exact (later.strays room inside).right _

end

/-! ### Single calls -/

section
variable {A : Type} {roomy : Prop} {e : Env} {m : Machine}

theorem kmalloc_takes (size : Nat) : Leads e m (kmalloc size) fun b _ evs => evs = [.kmalloc size b.ptr] :=
  .of_run rfl rfl rfl

theorem kfree_gives (b : Buf) : Leads e m (kfree b) fun _ _ evs => evs = [.kfree b.ptr] :=
  .of_run rfl rfl rfl

theorem terminalWritestring_idle (text : String) : Leads e m (terminalWritestring text) fun _ _ evs => Idle evs :=
  .of_run rfl rfl rfl

theorem readSector_idle (lba : Nat) (buf : Buf) (off : Nat) : Leads e m (readSector lba buf off) fun b _ evs =>
    b.ptr = buf.ptr ∧ Idle evs ∧ (buf.ptr + off = 0 → Strayed evs) := by
  have ran : readSector lba buf off e m = some (_, _) := rfl
  refine .of_run ran rfl ⟨?_, rfl, fun null => ⟨_, List.mem_singleton_self _, null⟩⟩
  cases e.fails m.log.length <;> rfl

theorem writeSector_idle (lba : Nat) (buf : Buf) (off : Nat) : Leads e m (writeSector lba buf off) fun _ _ evs =>
    Idle evs ∧ (buf.ptr + off = 0 → Strayed evs) := by
  refine (writeSector_leads lba buf off).mono fun _ _ evs written => ?_
  obtain ⟨ok, rfl, -⟩ := written
  exact ⟨rfl, fun null => ⟨_, List.mem_singleton_self _, null⟩⟩

/-- The first sector of a run goes to the start of the buffer. -/
theorem readSectors_idle (lba n : Nat) (buf : Buf) (off : Nat) : Leads e m (readSectors lba off n buf) fun b _ evs =>
    b.ptr = buf.ptr ∧ Idle evs ∧ (0 < n → buf.ptr + off = 0 → Strayed evs) := by
  induction n with
  | zero => exact .pure ⟨rfl, rfl, fun positive => absurd positive (Nat.lt_irrefl 0)⟩
  | succ n ih =>
    refine .bind ih fun b m₁ evs before => ?_
    obtain ⟨ptr, idle, strayed⟩ := before
    refine (readSector_idle _ b _).mono fun b' m₂ evs' last => ?_
    obtain ⟨ptr', idle', strayed'⟩ := last
    refine ⟨ptr'.trans ptr, idle.append idle', fun _ null => ?_⟩
    cases n with
    | zero => exact (strayed' (by omega)).right _
    | succ n => exact (strayed (Nat.succ_pos n) null).left _

theorem writeSectors_idle (lba n : Nat) (buf : Buf) : Leads e m (writeSectors lba buf n) fun _ _ evs =>
    Idle evs ∧ (0 < n → buf.ptr = 0 → Strayed evs) := by
  induction n with
  | zero => exact .pure ⟨rfl, fun positive => absurd positive (Nat.lt_irrefl 0)⟩
  | succ n ih =>
    refine .bind ih fun _ m₁ evs before => ?_
    obtain ⟨idle, strayed⟩ := before
    refine (writeSector_idle _ buf _).mono fun _ m₂ evs' last => ?_
    obtain ⟨idle', strayed'⟩ := last
    refine ⟨idle.append idle', fun _ null => ?_⟩
    cases n with
    | zero => exact (strayed' (by omega)).right _
    | succ n => exact (strayed (Nat.succ_pos n) null).left _

/-- Taking a block, filling it from the disk, and giving it back. -/
theorem Leads.filled {size : Nat} {fill : Buf → Kern Buf} {f : Buf → Kern A} {post : A → Prop}
    (fills : ∀ b m', Leads e m' (fill b) fun b' _ evs => b'.ptr = b.ptr ∧ Idle evs ∧ (roomy → b.ptr = 0 → Strayed evs))
    (rest : ∀ b m', Leads e m' (f b) fun a _ evs => Frees roomy b.ptr evs ∧ post a) :
    Leads e m (do let b ← kmalloc size; let b ← fill b; f b) fun a _ evs => Tidy roomy evs ∧ post a := by
  refine .bind (kmalloc_takes size) fun b m₁ evs taken => ?_
  subst taken
  refine .bind (fills b m₁) fun b' m₂ use filled => ?_
  obtain ⟨ptr, idle, used⟩ := filled
  refine (rest b' m₂).mono fun a m₃ evs' done => ?_
  exact ⟨Frees.tidy size idle used (ptr ▸ done.1), done.2⟩

theorem Leads.framed {size : Nat} {fill : Buf → Kern Buf} {f : Buf → Kern A}
    (fills : ∀ b m', Leads e m' (fill b) fun b' _ evs => b'.ptr = b.ptr ∧ Idle evs ∧ (roomy → b.ptr = 0 → Strayed evs))
    (rest : ∀ b m', Leads e m' (f b) fun _ _ evs => Frees roomy b.ptr evs) :
    Leads e m (do let b ← kmalloc size; let b ← fill b; f b) fun _ _ evs => Tidy roomy evs :=
  have both := Leads.filled fills fun b m' => (rest b m').mono fun _ _ _ frees => And.intro frees trivial
  both.mono fun _ _ _ => And.left

theorem sector_fills (lba : Nat) (b : Buf) (m' : Machine) : Leads e m' (readSector lba b 0) fun b' _ evs =>
    b'.ptr = b.ptr ∧ Idle evs ∧ (roomy → b.ptr = 0 → Strayed evs) :=
  (readSector_idle lba b 0).mono fun _ _ _ ⟨ptr, idle, strayed⟩ => ⟨ptr, idle, fun _ null => strayed null⟩

theorem cluster_fills (g : Statics) (cluster : Nat) (b : Buf) (m' : Machine) :
    Leads e m' (readCluster g cluster b 0) fun b' _ evs =>
      b'.ptr = b.ptr ∧ Idle evs ∧ (0 < g.spc → b.ptr = 0 → Strayed evs) :=
  readSectors_idle _ _ b 0

theorem writeCluster_idle (g : Statics) (cluster : Nat) (b : Buf) : Leads e m (writeCluster g cluster b) fun _ _ evs =>
    Idle evs ∧ (0 < g.spc → b.ptr = 0 → Strayed evs) :=
  writeSectors_idle _ _ b

/-- The end of most routines. -/
theorem frees_pure (b : Buf) (a : A) : Leads e m (do kfree b; pure a) fun _ _ evs => Frees roomy b.ptr evs := by
  refine .bind (kfree_gives b) fun _ m₁ evs gives => ?_
  subst gives
  exact .pure (.here b.ptr .nil)

end

/-! ### The routines -/

section
variable {g : Statics} {e : Env} {m : Machine}

theorem fatGet_tidy (cluster : Nat) : Leads e m (fatGet g cluster) fun _ _ evs => Tidy (0 < g.spc) evs := by
  refine .framed (sector_fills _) fun b m' => ?_
  exact frees_pure b _

theorem writeMirror_idle (lba : Nat) (b : Buf) : Leads e m (writeMirror g lba b) fun _ _ evs => Idle evs := by
  unfold writeMirror
  split
  · exact (writeSector_idle lba b 0).mono fun _ _ _ => And.left
  · exact .pure rfl

theorem fatSet_tidy (cluster value : Nat) : Leads e m (fatSet g cluster value) fun _ _ evs => Tidy (0 < g.spc) evs := by
  refine .framed (sector_fills _) fun b m' => ?_
  refine .bind (writeSector_idle _ _ 0) fun _ m₁ evs₁ first => ?_
  refine .bind (writeMirror_idle _ _) fun _ m₂ evs₂ second => ?_
  refine (kfree_gives _).mono fun _ m₃ evs₃ gives => ?_
  subst gives
  exact .after first.1.tidy (.after second.tidy (.here b.ptr .nil))

theorem fatAllocLoop_tidy (rounds s : Nat) : Leads e m (fatAllocLoop g rounds s) fun _ _ evs => Tidy (0 < g.spc) evs := by
  induction rounds generalizing s m with
  | zero => exact .pure .nil
  | succ rounds ih =>
    refine .framed (sector_fills _) fun b m' => ?_
    cases findFree b.data s 128 0 with
    | some i =>
      refine .bind (writeSector_idle _ _ 0) fun _ m₁ evs₁ first => ?_
      refine .bind (writeMirror_idle _ _) fun _ m₂ evs₂ second => ?_
      exact (frees_pure _ _).mono fun _ _ _ frees => .after first.1.tidy (.after second.tidy frees)
    | none =>
      refine .bind (kfree_gives b) fun _ m₁ evs₁ gives => ?_
      subst gives
      exact (ih (s + 1)).mono fun _ _ _ rest => .here b.ptr rest

theorem fatFreeChain_tidy (budget cluster : Nat) : Leads e m (fatFreeChain g budget cluster) fun _ _ evs => Tidy (0 < g.spc) evs := by
  induction budget generalizing cluster m with
  | zero => exact fun _ _ ran => nomatch ran
  | succ budget ih =>
    rw [fatFreeChain]
    split
    · refine .bind (fatGet_tidy cluster) fun next m₁ evs₁ got => ?_
      refine .bind (fatSet_tidy cluster 0) fun _ m₂ evs₂ set => ?_
      exact (ih next).mono fun _ _ _ rest => got.append (set.append rest)
    · exact .pure .nil

theorem freeOld_tidy (budget cluster : Nat) : Leads e m (freeOld g budget cluster) fun _ _ evs => Tidy (0 < g.spc) evs := by
  unfold freeOld
  split
  · exact fatFreeChain_tidy budget cluster
  · exact .pure .nil

theorem printField_idle (f : Nat → UInt8) (rounds off : Nat) : Leads e m (printField f rounds off) fun _ _ evs =>
    Idle evs := by
  induction rounds generalizing off m with
  | zero => exact .pure rfl
  | succ rounds ih =>
    rw [printField]
    split
    · exact .pure rfl
    · refine .bind (terminalWritestring_idle _) fun _ m₁ evs₁ first => ?_
      exact (ih (off + 1)).mono fun _ _ _ rest => first.append rest

theorem printExtension_idle (f : Nat → UInt8) (off : Nat) : Leads e m (printExtension f off) fun _ _ evs => Idle evs := by
  unfold printExtension
  split
  · refine .bind (terminalWritestring_idle _) fun _ m₁ evs₁ first => ?_
    exact (printField_idle f 3 (off + 8)).mono fun _ _ _ rest => first.append rest
  · exact .pure rfl

theorem listEntries_idle (f : Nat → UInt8) (rounds off count : Nat) : Leads e m (listEntries f rounds off count)
    fun _ _ evs => Idle evs := by
  induction rounds generalizing off count m with
  | zero => exact .pure rfl
  | succ rounds ih =>
    rw [listEntries]
    split
    · exact .pure rfl
    split
    · exact ih _ _
    split
    · exact ih _ _
    refine .bind (printField_idle f 8 off) fun _ m₁ evs₁ name => ?_
    refine .bind (printExtension_idle f off) fun _ m₂ evs₂ extension => ?_
    refine .bind (terminalWritestring_idle _) fun _ m₃ evs₃ opening => ?_
    refine .bind (terminalWritestring_idle _) fun _ m₄ evs₄ size => ?_
    refine .bind (terminalWritestring_idle _) fun _ m₅ evs₅ closing => ?_
    refine (ih _ _).mono fun _ _ _ rest => ?_
    exact name.append (extension.append (opening.append (size.append (closing.append rest))))

theorem fat32Init_tidy : Leads e m fat32Init fun _ _ evs => Tidy True evs := by
  refine .framed (sector_fills 0) fun b m' => ?_
  refine .bind (kfree_gives b) fun _ m₁ evs₁ gives => ?_
  subst gives
  split
  · refine .bind (terminalWritestring_idle _) fun _ m₂ evs₂ told => .pure (.here b.ptr ?_)
    exact (told.append .nil).tidy
  · refine .bind (terminalWritestring_idle _) fun _ m₂ evs₂ told => .pure (.here b.ptr ?_)
    exact (told.append .nil).tidy

theorem fat32Ls_tidy : Leads e m (fat32Ls g) fun _ _ evs => Tidy (0 < g.spc) evs := by
  refine .framed (cluster_fills g _) fun b m' => ?_
  refine .bind (listEntries_idle _ _ _ _) fun count m₁ evs₁ listed => ?_
  split
  · refine .bind (terminalWritestring_idle _) fun _ m₂ evs₂ told => ?_
    refine (kfree_gives b).mono fun _ m₃ evs₃ gives => ?_
    subst gives
    exact .after listed.tidy (.after told.tidy (.here b.ptr .nil))
  · refine (kfree_gives b).mono fun _ m₂ evs₂ gives => ?_
    subst gives
    exact .after listed.tidy (.here b.ptr .nil)

theorem readFileLoop_tidy (budget cluster remaining : Nat) (buf : Buf) (off : Nat) :
    Leads e m (readFileLoop g budget cluster remaining buf off) fun b _ evs => Tidy (0 < g.spc) evs ∧ b.ptr = buf.ptr := by
  induction budget generalizing cluster remaining buf off m with
  | zero => exact fun _ _ ran => nomatch ran
  | succ budget ih =>
    rw [readFileLoop]
    split
    · refine .bind (readSectors_idle _ _ buf off) fun b m₁ evs₁ read => ?_
      refine .bind (fatGet_tidy cluster) fun next m₂ evs₂ got => ?_
      refine (ih next _ b _).mono fun b' m₃ evs₃ rest => ?_
      exact ⟨read.2.1.tidy.append (got.append rest.1), rest.2.trans read.1⟩
    · exact .pure ⟨.nil, rfl⟩

theorem fat32ReadFile_tidy (budget : Nat) (name : List UInt8) (buf : Buf) :
    Leads e m (fat32ReadFile g budget name buf) fun r _ evs => Tidy (0 < g.spc) evs ∧ r.2.ptr = buf.ptr := by
  refine Leads.filled (cluster_fills g _) fun b m' => ?_
  cases (findDirEntry b.data g.clusterSize (nameToFat83 name)).1 with
  | none =>
    refine .bind (kfree_gives b) fun _ m₁ evs₁ gives => ?_
    subst gives
    exact .pure ⟨.here b.ptr .nil, rfl⟩
  | some off =>
    refine .bind (kfree_gives b) fun _ m₁ evs₁ gives => ?_
    subst gives
    refine .bind (readFileLoop_tidy budget _ _ buf 0) fun b' m₂ evs₂ read => .pure ⟨.here b.ptr ?_, read.2⟩
    exact read.1.append .nil

theorem fat32CreateFile_tidy (name : List UInt8) : Leads e m (fat32CreateFile g name) fun _ _ evs => Tidy (0 < g.spc) evs := by
  refine .framed (cluster_fills g _) fun b m' => ?_
  rcases findDirEntry b.data g.clusterSize (nameToFat83 name) with ⟨_ | off, _ | free⟩
  · refine .bind (terminalWritestring_idle _) fun _ m₁ evs₁ told => ?_
    exact (frees_pure b _).mono fun _ _ _ frees => .after told.tidy frees
  · refine .bind (writeSector_idle _ _ _) fun _ m₁ evs₁ flushed => ?_
    exact (frees_pure _ _).mono fun _ _ _ frees => .after flushed.1.tidy frees
  all_goals
    refine .bind (terminalWritestring_idle _) fun _ m₁ evs₁ told => ?_
    exact (frees_pure b _).mono fun _ _ _ frees => .after told.tidy frees

theorem writeEntry_frees (fatname : FatName) (dirbuf : Buf) (dirOff dataCluster size : Nat) :
    Leads e m (writeEntry g fatname dirbuf dirOff dataCluster size) fun _ _ evs => Frees (0 < g.spc) dirbuf.ptr evs := by
  refine .bind (writeSector_idle _ _ _) fun _ m₁ evs₁ flushed => ?_
  exact (frees_pure _ _).mono fun _ _ _ frees => .after flushed.1.tidy frees

theorem writeBody_frees (fatname : FatName) (data : Nat → UInt8) (size : Nat) (dirbuf : Buf) (dirOff : Nat) :
    Leads e m (writeBody g fatname data size dirbuf dirOff) fun _ _ evs => Frees (0 < g.spc) dirbuf.ptr evs := by
  unfold writeBody
  split
  swap
  · exact writeEntry_frees _ _ _ _ _
  refine .bind (fatAllocLoop_tidy _ _) fun dataCluster m₁ evs₁ allocated => ?_
  split
  · refine .bind (terminalWritestring_idle _) fun _ m₂ evs₂ told => ?_
    exact (frees_pure dirbuf _).mono fun _ _ _ frees => .after allocated (.after told.tidy frees)
  · refine .bind (kmalloc_takes _) fun cbuf m₂ evs₂ taken => ?_
    subst taken
    refine .bind (writeCluster_idle g dataCluster (fillData cbuf g.clusterSize data size)) fun _ m₃ evs₃ stored => ?_
    refine .bind (kfree_gives _) fun _ m₄ evs₄ gives => ?_
    subst gives
    refine (writeEntry_frees _ _ _ _ _).mono fun _ m₅ evs₅ frees => .after allocated ?_
    have own := Frees.tidy g.clusterSize stored.1 stored.2 (.here cbuf.ptr .nil)
    have both := Frees.after own frees
    rwa [List.append_assoc, List.append_assoc, List.append_assoc, List.nil_append] at both

theorem fat32WriteFile_tidy (budget : Nat) (name : List UInt8) (data : Nat → UInt8) (size : Nat) :
    Leads e m (fat32WriteFile g budget name data size) fun _ _ evs => Tidy (0 < g.spc) evs := by
  unfold fat32WriteFile
  dsimp only
  split
  · refine .bind (terminalWritestring_idle _) fun _ m₁ evs₁ told => .pure ?_
    exact (told.append .nil).tidy
  refine .framed (cluster_fills g _) fun b m' => ?_
  rcases findDirEntry b.data g.clusterSize (nameToFat83 name) with ⟨_ | off, _ | free⟩
  · refine .bind (terminalWritestring_idle _) fun _ m₁ evs₁ told => ?_
    exact (frees_pure b _).mono fun _ _ _ frees => .after told.tidy frees
  · exact (writeBody_frees _ _ _ b _).mono fun _ _ _ frees => frees
  all_goals
    refine .bind (freeOld_tidy budget _) fun _ m₁ evs₁ freed => ?_
    exact (writeBody_frees _ _ _ b _).mono fun _ _ _ frees => .after freed frees

theorem fat32DeleteFile_tidy (budget : Nat) (name : List UInt8) :
    Leads e m (fat32DeleteFile g budget name) fun _ _ evs => Tidy (0 < g.spc) evs := by
  refine .framed (cluster_fills g _) fun b m' => ?_
  cases (findDirEntry b.data g.clusterSize (nameToFat83 name)).1 with
  | none => exact frees_pure b _
  | some off =>
    refine .bind (freeOld_tidy budget _) fun _ m₁ evs₁ freed => ?_
    refine .bind (writeSector_idle _ _ _) fun _ m₂ evs₂ flushed => ?_
    exact (frees_pure _ _).mono fun _ _ _ frees => .after freed (.after flushed.1.tidy frees)

end

end ChrisOS.Fs.Fat32
