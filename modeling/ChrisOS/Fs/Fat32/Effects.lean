import ChrisOS.Fs.Fat32
import ChrisOS.Lib.Loop
import ChrisOS.Lib.Writes

/-! What each routine of the driver does on a machine whose transfers succeed:
the value it returns and the sector writes it issues, as functions of the disk.
-/

set_option autoImplicit false

namespace ChrisOS.Fs.Fat32
open ChrisOS.Lib ChrisOS.Drivers.Ata

/-- Every transfer succeeds. -/
def Reliable (e : Env) : Prop := ∀ n, e.fails n = false

abbrev Disk := Nat → Sector

/-- Sector writes as the driver issues them: 32-bit block address and contents. -/
abbrev SectorWrites := List (Nat × Sector)

def Event.asWrite : Event → Option (Nat × Sector)
  | .write lba _ data _ _ => some (lba, data)
  | _ => none

def writesOf (log : List Event) : SectorWrites := log.filterMap Event.asWrite

/-- The disk after writes, which the drive files under 28-bit addresses. -/
def land (ws : SectorWrites) (d : Disk) : Disk := Writes.apply (ws.map fun w => (lba28 w.1, w.2)) d

@[simp] theorem land_nil (d : Disk) : land [] d = d := rfl

@[simp] theorem land_cons (w : Nat × Sector) (ws : SectorWrites) (d : Disk) :
    land (w :: ws) d = land ws (Function.update d (lba28 w.1) w.2) := rfl

theorem land_append (ws vs : SectorWrites) (d : Disk) : land (ws ++ vs) d = land vs (land ws d) := by
  unfold land
  rw [List.map_append, Writes.apply_append]

/-- The machine moved by these writes. -/
structure Effect (m m' : Machine) (ws : SectorWrites) : Prop where
  disk : m'.disk = land ws m.disk
  log : writesOf m'.log = writesOf m.log ++ ws

theorem Effect.refl (m : Machine) : Effect m m [] := ⟨rfl, by simp⟩

theorem Effect.trans {m m' m'' : Machine} {ws vs : SectorWrites} (first : Effect m m' ws)
    (second : Effect m' m'' vs) : Effect m m'' (ws ++ vs) where
  disk := by rw [second.disk, first.disk, land_append]
  log := by rw [second.log, first.log, List.append_assoc]

theorem Effect.silent (m : Machine) {event : Event} (quiet : Event.asWrite event = none) :
    Effect m (m.record event) [] where
  disk := rfl
  log := by simp [Machine.record, writesOf, quiet]

section
variable {A B : Type} {e : Env} {m : Machine}

/-- With enough iterations the code returns a value of the kind stated, having
issued exactly these writes. -/
def Does (e : Env) (m : Machine) (x : Nat → Kern A) (ws : SectorWrites) (post : A → Prop) : Prop :=
  ∃ a m', Returns (fun budget => x budget e m) (a, m') ∧ Effect m m' ws ∧ post a

theorem Does.pure {a : A} {post : A → Prop} (holds : post a) : Does e m (fun _ => pure a) [] post :=
  ⟨a, m, .of_all fun _ => rfl, .refl m, holds⟩

theorem Does.bind {x : Nat → Kern A} {f : Nat → A → Kern B} {ws vs : SectorWrites} {post : A → Prop}
    {post' : B → Prop} (first : Does e m x ws post)
    (second : ∀ a m', Effect m m' ws → post a → Does e m' (fun n => f n a) vs post') :
    Does e m (fun n => x n >>= f n) (ws ++ vs) post' := by
  obtain ⟨a, m', ran, effect, holds⟩ := first
  obtain ⟨b, m'', ran', effect', holds'⟩ := second a m' effect holds
  exact ⟨b, m'', Returns.bind ran ran', effect.trans effect', holds'⟩

/-- A first step that writes nothing. -/
theorem Does.after {x : Nat → Kern A} {f : Nat → A → Kern B} {ws : SectorWrites} {post : A → Prop}
    {post' : B → Prop} (first : Does e m x [] post)
    (second : ∀ a m', m'.disk = m.disk → post a → Does e m' (fun n => f n a) ws post') :
    Does e m (fun n => x n >>= f n) ws post' :=
  Does.bind first fun a m' effect holds => second a m' effect.disk holds

theorem Does.mono {x : Nat → Kern A} {ws : SectorWrites} {post post' : A → Prop} (done : Does e m x ws post)
    (weaker : ∀ a, post a → post' a) : Does e m x ws post' := by
  obtain ⟨a, m', ran, effect, holds⟩ := done
  exact ⟨a, m', ran, effect, weaker a holds⟩

/-- Two facts about the one outcome. -/
theorem Does.and {x : Nat → Kern A} {ws vs : SectorWrites} {post post' : A → Prop} (left : Does e m x ws post)
    (right : Does e m x vs post') : Does e m x ws fun a => post a ∧ post' a := by
  obtain ⟨a, m', ran, effect, holds⟩ := left
  obtain ⟨b, m'', ran', -, holds'⟩ := right
  cases ran.unique ran'
  exact ⟨a, m', ran, effect, holds, holds'⟩

/-- Unrolling one iteration of a loop. -/
theorem Does.of_succ {x : Nat → Kern A} {ws : SectorWrites} {post : A → Prop}
    (later : Does e m (fun n => x (n + 1)) ws post) : Does e m x ws post := by
  obtain ⟨a, m', ran, effect, holds⟩ := later
  exact ⟨a, m', .of_succ ran, effect, holds⟩

end

/-! ### Buffers and single sectors -/

/-- A sector as a byte array. -/
def bytes (s : Sector) : Nat → UInt8 := fun k => if h : k < 512 then s ⟨k, h⟩ else 0

/-- The block the drive accesses for a sector of the volume. -/
def sectorAddr (lba : Nat) : Nat := lba28 (add32 fat32StartLba lba)

theorem land_sector (lba : Nat) (s : Sector) (ws : SectorWrites) (d : Disk) :
    land ((add32 fat32StartLba lba, s) :: ws) d = land ws (Function.update d (sectorAddr lba) s) := rfl

section
variable {e : Env} {m : Machine}

theorem kmalloc_does (size : Nat) : Does e m (fun _ => kmalloc size) [] fun _ => True :=
  ⟨_, _, .of_all fun _ => rfl, .silent m rfl, trivial⟩

theorem kfree_does (b : Buf) : Does e m (fun _ => kfree b) [] fun _ => True :=
  ⟨_, _, .of_all fun _ => rfl, .silent m rfl, trivial⟩

theorem terminalWritestring_does (text : String) :
    Does e m (fun _ => terminalWritestring text) [] fun _ => True :=
  ⟨_, _, .of_all fun _ => rfl, .silent m rfl, trivial⟩

variable (reliable : Reliable e)
include reliable

theorem readSector_does (lba : Nat) (buf : Buf) (off : Nat) :
    Does e m (fun _ => readSector lba buf off) [] fun b => ∀ k, b.data k =
      if off ≤ k ∧ k < off + 512 then bytes (m.disk (sectorAddr lba)) (k - off) else buf.data k := by
  refine ⟨buf.fill off (add32 fat32StartLba lba) (m.disk (sectorAddr lba)),
    m.record (.read (add32 fat32StartLba lba) (buf.ptr + off) true), .of_all fun _ => ?_, .silent m rfl,
    fun k => ?_⟩
  · simp [readSector, bind_run, ataReadSector, reliable m.log.length, sectorAddr]
  · simp only [Buf.fill, bytes]
    by_cases inside : off ≤ k ∧ k < off + 512
    · rw [dif_pos inside, if_pos inside, dif_pos (by omega)]
    · rw [dif_neg inside, if_neg inside]

theorem writeSector_does (lba : Nat) (buf : Buf) (off : Nat) :
    Does e m (fun _ => writeSector lba buf off) [(add32 fat32StartLba lba, buf.sector off)] fun _ => True := by
  refine ⟨(), _, .of_all fun _ => by simp [writeSector, bind_run, ataWriteSector, reliable m.log.length]; rfl,
    ⟨?_, ?_⟩, trivial⟩
  · simp
  · simp [Machine.record, writesOf, Event.asWrite]

end

/-! ### Runs of sectors -/

/-- Byte `k` of the sectors from `lba` on. -/
def runByte (d : Disk) (lba k : Nat) : UInt8 := bytes (d (sectorAddr (add32 lba (k / 512)))) (k % 512)

/-- The sector at an offset of a byte array. -/
def piece (f : Nat → UInt8) (off : Nat) : Sector := fun i => f (off + i)

theorem piece_congr {f h : Nat → UInt8} {off : Nat} (same : ∀ k, k < 512 → f (off + k) = h (off + k)) :
    piece f off = piece h off := funext fun i => same i i.isLt

/-- The first `n` sectors of a byte array, written to consecutive sectors of the volume. -/
def runWrites (lba : Nat) (f : Nat → UInt8) (n : Nat) : SectorWrites :=
  (List.range n).map fun i => (add32 fat32StartLba (add32 lba i), piece f (i * 512))

theorem runWrites_congr {f h : Nat → UInt8} (lba : Nat) {n : Nat} (same : ∀ k, k < n * 512 → f k = h k) :
    runWrites lba f n = runWrites lba h n := by
  refine List.map_congr_left fun i member => ?_
  have inside := List.mem_range.mp member
  rw [piece_congr fun k _ => same _ (by omega)]

section
variable {e : Env} (reliable : Reliable e) {m : Machine}
include reliable

theorem readSectors_does (lba off n : Nat) (buf : Buf) :
    Does e m (fun _ => readSectors lba off n buf) [] fun b => ∀ k, b.data k =
      if off ≤ k ∧ k < off + n * 512 then runByte m.disk lba (k - off) else buf.data k := by
  induction n with
  | zero => exact Does.pure fun k => by rw [if_neg (by omega)]
  | succ n ih =>
    simp only [readSectors]
    refine Does.after ih fun b m' same filled => (readSector_does reliable _ _ _).mono fun b' last k => ?_
    rw [last k, same, filled k]
    by_cases tail : off + n * 512 ≤ k ∧ k < off + n * 512 + 512
    · have here : (k - off) / 512 = n ∧ (k - off) % 512 = k - (off + n * 512) := by omega
      rw [if_pos tail, if_pos (by omega), runByte, here.1, here.2]
    · have longer : (off ≤ k ∧ k < off + (n + 1) * 512) ↔ (off ≤ k ∧ k < off + n * 512) := by omega
      simp only [if_neg tail, longer]

theorem writeSectors_does (lba : Nat) (buf : Buf) (n : Nat) :
    Does e m (fun _ => writeSectors lba buf n) (runWrites lba buf.data n) fun _ => True := by
  induction n with
  | zero => exact Does.pure trivial
  | succ n ih =>
    rw [runWrites, List.range_succ, List.map_append]
    exact Does.bind ih fun _ _ _ _ => writeSector_does reliable _ _ _

end

/-! ### The file allocation table -/

section
variable (g : Statics)

/-- The block address of the first FAT sector. -/
def fatBase : Nat := fat32StartLba + g.fatStart

/-- Byte `k` of a cluster. -/
def clusterByte (d : Disk) (cluster k : Nat) : UInt8 := runByte d (clusterLba g cluster) k

/-- What fat_get returns. -/
def rawEntry (d : Disk) (cluster : Nat) : Nat :=
  word32 (bytes (d (sectorAddr (fatSector g cluster)))) (fatOffset cluster) &&& 0x0FFFFFFF

/-- A sector with one word of it replaced. -/
def patch (s : Sector) (off v : Nat) : Sector := fun i => putWord32 (bytes s) off v i

/-- The write of a FAT sector to its place in the second FAT. -/
def copyWrites (copy : Nat) (s : Sector) : SectorWrites :=
  if g.bpb.fatCount.toNat > 1 then [(add32 fat32StartLba copy, s)] else []

/-- A FAT sector written to its place in each FAT. -/
def mirrored (lba copy : Nat) (s : Sector) : SectorWrites := (add32 fat32StartLba lba, s) :: copyWrites g copy s

def setWrites (d : Disk) (cluster value : Nat) : SectorWrites :=
  let s := d (sectorAddr (fatSector g cluster))
  mirrored g (fatSector g cluster) (add32 (fatSector g cluster) g.spf)
    (patch s (fatOffset cluster) (entryWord (word32 (bytes s) (fatOffset cluster)) value))

/-- The writes of fat_free_chain from a cluster on: each link is read before its entry is cleared. -/
inductive FreeWalk : Disk → Nat → SectorWrites → Prop where
  | stop {d : Disk} {cluster : Nat} : ¬isLink cluster → FreeWalk d cluster []
  | link {d : Disk} {cluster : Nat} {ws : SectorWrites} : isLink cluster →
      FreeWalk (land (setWrites g d cluster 0) d) (rawEntry g d cluster) ws →
      FreeWalk d cluster (setWrites g d cluster 0 ++ ws)

/-- The directory sector that holds an offset. -/
def dirWrites (off : Nat) (f : Nat → UInt8) : SectorWrites :=
  [(add32 fat32StartLba (add32 (clusterLba g g.rootCluster) (off / 512)), piece f (off / 512 * 512))]

/-- The FAT sector and the entry in it that fat_alloc_cluster takes. -/
def searchFat (d : Disk) : Nat → Nat → Option (Nat × Nat)
  | 0, _ => none
  | rounds + 1, s =>
    match findFree (bytes (d (sectorAddr (add32 g.fatStart s)))) s 128 0 with
    | some i => some (s, i)
    | none => searchFat d rounds (s + 1)

def allocResult : Option (Nat × Nat) → Nat
  | none => 0
  | some (s, i) => add32 (mul32 s 128) i

def allocWrites (d : Disk) : Option (Nat × Nat) → SectorWrites
  | none => []
  | some (s, i) =>
    let sector := d (sectorAddr (add32 g.fatStart s))
    mirrored g (add32 g.fatStart s) (add32 (add32 g.fatStart g.spf) s)
      (patch sector (i * 4) (entryWord (word32 (bytes sector) (i * 4)) 0x0FFFFFFF))

end

/-! ### The entries of a FAT sector -/

/-- Entry `i` of a FAT sector. -/
def slot (s : Sector) (i : Nat) : Nat := word32 (bytes s) (i * 4) &&& 0x0FFFFFFF

theorem bytes_patch (s : Sector) (off v : Nat) {k : Nat} (small : k < 512) :
    bytes (patch s off v) k = putWord32 (bytes s) off v k := by
  rw [bytes, dif_pos small, patch]

theorem word32_patch (s : Sector) {off v : Nat} (inside : off ≤ 508) (bound : v < 2 ^ 32) :
    word32 (bytes (patch s off v)) off = v := by
  have stored : word32 (bytes (patch s off v)) off = word32 (putWord32 (bytes s) off v) off :=
    word32_congr fun k _ => bytes_patch s off v (by omega)
  rw [stored, word32_put _ _ bound]

theorem word32_patch_other (s : Sector) {off other : Nat} (v : Nat) (inside : other ≤ 508)
    (apart : other + 4 ≤ off ∨ off + 4 ≤ other) : word32 (bytes (patch s off v)) other = word32 (bytes s) other := by
  have kept : word32 (bytes (patch s off v)) other = word32 (putWord32 (bytes s) off v) other :=
    word32_congr fun k _ => bytes_patch s off v (by omega)
  rw [kept, word32_put_other _ _ apart]

theorem entryWord_lt (existing value : Nat) : entryWord existing value < 2 ^ 32 := by
  have low : (0x0FFFFFFF : Nat) < 2 ^ 32 ∧ (0xF0000000 : Nat) < 2 ^ 32 := by decide
  exact Nat.or_lt_two_pow (Nat.and_lt_two_pow _ low.2) (Nat.and_lt_two_pow _ low.1)

theorem entryWord_low (existing value : Nat) : entryWord existing value &&& 0x0FFFFFFF = value &&& 0x0FFFFFFF := by
  have disjoint : (0xF0000000 : Nat) &&& 0x0FFFFFFF = 0 := by decide
  rw [entryWord, Nat.and_or_distrib_right, Nat.and_assoc, disjoint, Nat.and_zero, Nat.zero_or, Nat.and_assoc,
    Nat.and_self]

theorem slot_patch (s : Sector) {i : Nat} (inside : i < 128) (existing value : Nat) :
    slot (patch s (i * 4) (entryWord existing value)) i = value &&& 0x0FFFFFFF := by
  rw [slot, word32_patch s (by omega) (entryWord_lt _ _), entryWord_low]

theorem slot_patch_other (s : Sector) {i j : Nat} (inside : j < 128) (other : j ≠ i) (v : Nat) :
    slot (patch s (i * 4) v) j = slot s j := by
  rw [slot, word32_patch_other s v (by omega) (by omega), slot]

theorem fatOffset_eq (cluster : Nat) : fatOffset cluster = cluster % 128 * 4 := by
  unfold fatOffset mul32
  omega

theorem fatOffset_le (cluster : Nat) : fatOffset cluster ≤ 508 := by
  unfold fatOffset mul32
  omega

/-- Where a FAT sector and its copy land. -/
theorem land_mirrored (g : Statics) (lba copy : Nat) (s : Sector) (d : Disk) (a : Nat) :
    land (mirrored g lba copy s) d a =
      if a = sectorAddr lba ∨ (g.bpb.fatCount.toNat > 1 ∧ a = sectorAddr copy) then s else d a := by
  unfold mirrored copyWrites
  by_cases two : g.bpb.fatCount.toNat > 1
  · simp only [two, ↓reduceIte, land_sector, land_nil, true_and, Function.update_apply]
    by_cases second : a = sectorAddr copy
    · rw [if_pos second, if_pos (.inr second)]
    · rw [if_neg second]
      simp only [second, or_false]
  · simp only [two, ↓reduceIte, land_sector, land_nil, false_and, or_false, Function.update_apply]

theorem findFree_congr {f h : Nat → UInt8} (same : ∀ k, k < 512 → f k = h k) (s rounds i : Nat)
    (bound : i + rounds ≤ 128) : findFree f s rounds i = findFree h s rounds i := by
  induction rounds generalizing i with
  | zero => rfl
  | succ rounds ih =>
    have word : word32 f (i * 4) = word32 h (i * 4) := word32_congr fun k _ => same _ (by omega)
    rw [findFree, findFree, word, ih (i + 1) (by omega)]

theorem findFree_lt {f : Nat → UInt8} {s rounds i k : Nat} (found : findFree f s rounds i = some k) :
    i ≤ k ∧ k < i + rounds := by
  induction rounds generalizing i with
  | zero => cases found
  | succ rounds ih =>
    rw [findFree] at found
    split at found
    · have := ih found
      omega
    · split at found
      · cases found
        omega
      · have := ih found
        omega

theorem findFree_free {f : Nat → UInt8} {s rounds i k : Nat} (found : findFree f s rounds i = some k) :
    ¬add32 (mul32 s 128) k < 2 ∧ word32 f (k * 4) &&& 0x0FFFFFFF = 0 := by
  induction rounds generalizing i with
  | zero => cases found
  | succ rounds ih =>
    rw [findFree] at found
    split at found
    · exact ih found
    · rename_i real
      split at found
      · rename_i free
        cases found
        exact ⟨real, free⟩
      · exact ih found

theorem findFree_used {f : Nat → UInt8} {s rounds i : Nat} (none : findFree f s rounds i = none) {k : Nat}
    (range : i ≤ k ∧ k < i + rounds) (real : ¬add32 (mul32 s 128) k < 2) :
    word32 f (k * 4) &&& 0x0FFFFFFF ≠ 0 := by
  induction rounds generalizing i with
  | zero => omega
  | succ rounds ih =>
    rw [findFree] at none
    by_cases here : i = k
    · subst here
      rw [if_neg real] at none
      split at none
      · cases none
      · assumption
    · have later : i + 1 ≤ k ∧ k < i + 1 + rounds := by omega
      split at none
      · exact ih none later
      · split at none
        · cases none
        · exact ih none later

/-- A buffer holding one sector, with a word replaced, is that sector patched. -/
theorem sector_putWord {b : Buf} {s : Sector} (held : ∀ k, k < 512 → b.data k = bytes s k) (off v : Nat) :
    (putWord b off v).sector 0 = patch s off v := by
  funext i
  simp only [Buf.sector, putWord, patch, putWord32, Nat.zero_add]
  split
  · rfl
  · exact held i i.isLt

section
variable (g : Statics) {e : Env} (reliable : Reliable e) {m : Machine}
include reliable

theorem readCluster_does (cluster : Nat) (buf : Buf) (off : Nat) :
    Does e m (fun _ => readCluster g cluster buf off) [] fun b => ∀ k, b.data k =
      if off ≤ k ∧ k < off + g.clusterSize then clusterByte g m.disk cluster (k - off) else buf.data k :=
  readSectors_does reliable _ _ _ _

theorem writeCluster_does (cluster : Nat) (buf : Buf) :
    Does e m (fun _ => writeCluster g cluster buf) (runWrites (clusterLba g cluster) buf.data g.spc) fun _ => True :=
  writeSectors_does reliable _ _ _

/-- A fresh block filled from one sector of the volume. -/
theorem loadSector_does {A : Type} (lba : Nat) {f : Nat → Buf → Kern A} {ws : SectorWrites} {post : A → Prop}
    (next : ∀ b m', m'.disk = m.disk → (∀ k, k < 512 → b.data k = bytes (m.disk (sectorAddr lba)) k) →
      Does e m' (fun n => f n b) ws post) :
    Does e m (fun n => do let buf ← kmalloc 512; let buf ← readSector lba buf 0; f n buf) ws post := by
  refine Does.after (kmalloc_does 512) fun buf m₁ same₁ _ => ?_
  refine Does.after (readSector_does reliable lba buf 0) fun b m₂ same₂ filled => ?_
  refine next b m₂ (same₂.trans same₁) fun k small => ?_
  rw [filled k, if_pos (by omega), same₁, Nat.sub_zero]

theorem fatGet_does (cluster : Nat) :
    Does e m (fun _ => fatGet g cluster) [] fun v => v = rawEntry g m.disk cluster := by
  refine loadSector_does reliable _ fun b m' _ held => ?_
  refine Does.after (kfree_does b) fun _ _ _ _ => Does.pure ?_
  have := fatOffset_le cluster
  rw [rawEntry, word32_congr fun k _ => held (fatOffset cluster + k) (by omega)]

theorem writeMirror_does (lba : Nat) (buf : Buf) :
    Does e m (fun _ => writeMirror g lba buf) (copyWrites g lba (buf.sector 0)) fun _ => True := by
  unfold writeMirror copyWrites
  split
  · exact writeSector_does reliable _ _ _
  · exact Does.pure trivial

theorem mirrored_does {A : Type} (lba copy : Nat) (buf : Buf) {s : Sector} (held : buf.sector 0 = s)
    {f : Nat → Kern A} {post : A → Prop} (next : ∀ m', Does e m' f [] post) :
    Does e m (fun n => do writeSector lba buf 0; writeMirror g copy buf; f n) (mirrored g lba copy s) post := by
  subst held
  refine Does.bind (writeSector_does reliable lba buf 0) fun _ m₁ _ _ => ?_
  have := Does.bind (writeMirror_does g reliable (m := m₁) copy buf) fun _ m' _ _ => next m'
  rwa [List.append_nil] at this

theorem fatSet_does (cluster value : Nat) :
    Does e m (fun _ => fatSet g cluster value) (setWrites g m.disk cluster value) fun _ => True := by
  refine loadSector_does reliable _ fun b m' _ held => ?_
  have := fatOffset_le cluster
  have word : word32 b.data (fatOffset cluster) = word32 (bytes _) (fatOffset cluster) :=
    word32_congr fun k _ => held (fatOffset cluster + k) (by omega)
  simp only [word]
  exact mirrored_does g reliable _ _ _ (sector_putWord held _ _) fun _ => kfree_does _

theorem fatAllocLoop_does (rounds s : Nat) :
    Does e m (fun _ => fatAllocLoop g rounds s) (allocWrites g m.disk (searchFat g m.disk rounds s))
      fun v => v = allocResult (searchFat g m.disk rounds s) := by
  induction rounds generalizing s m with
  | zero => exact Does.pure rfl
  | succ rounds ih =>
    refine loadSector_does reliable _ fun b m' same held => ?_
    rw [findFree_congr held s 128 0 (by omega), searchFat]
    cases found : findFree (bytes (m.disk (sectorAddr (add32 g.fatStart s)))) s 128 0 with
    | none =>
      refine Does.after (kfree_does b) fun _ m'' same' _ => ?_
      have := @ih m'' (s + 1)
      rwa [same', same] at this
    | some i =>
      have := findFree_lt found
      simp only
      rw [word32_congr fun k _ => held (i * 4 + k) (by omega)]
      refine mirrored_does g reliable _ _ _ (sector_putWord held _ _) fun m'' => ?_
      exact Does.after (kfree_does _) fun _ _ _ _ => Does.pure rfl

theorem fatAllocCluster_does :
    Does e m (fun _ => fatAllocCluster g) (allocWrites g m.disk (searchFat g m.disk g.spf 0))
      fun v => v = allocResult (searchFat g m.disk g.spf 0) :=
  fatAllocLoop_does g reliable g.spf 0

omit reliable in
theorem fatFreeChain_stop {cluster : Nat} (last : ¬isLink cluster) :
    Does e m (fun n => fatFreeChain g n cluster) [] fun _ => True := by
  refine Does.of_succ ?_
  simp only [fatFreeChain, if_neg last]
  exact Does.pure trivial

theorem fatFreeChain_link {cluster : Nat} (link : isLink cluster) {ws : SectorWrites}
    (rest : ∀ m', m'.disk = land (setWrites g m.disk cluster 0) m.disk →
      Does e m' (fun n => fatFreeChain g n (rawEntry g m.disk cluster)) ws fun _ => True) :
    Does e m (fun n => fatFreeChain g n cluster) (setWrites g m.disk cluster 0 ++ ws) fun _ => True := by
  refine Does.of_succ ?_
  simp only [fatFreeChain, if_pos link]
  refine Does.after (fatGet_does g reliable cluster) fun next m₁ same value => ?_
  subst value
  have first := fatSet_does g reliable (m := m₁) cluster 0
  rw [same] at first
  refine Does.bind first fun _ m₂ effect _ => rest m₂ ?_
  rw [effect.disk, same]

/-- Freeing issues the writes of the walk. -/
theorem fatFreeChain_walks {d : Disk} {cluster : Nat} {ws : SectorWrites} (walk : FreeWalk g d cluster ws) {m : Machine}
    (same : m.disk = d) : Does e m (fun n => fatFreeChain g n cluster) ws fun _ => True := by
  induction walk generalizing m with
  | stop last => exact fatFreeChain_stop g last
  | link link _ ih =>
    subst same
    exact fatFreeChain_link g reliable link fun m' moved => ih moved

theorem freeOld_walks {cluster : Nat} {ws : SectorWrites} (walk : FreeWalk g m.disk cluster ws) :
    Does e m (fun n => freeOld g n cluster) ws fun _ => True := by
  unfold freeOld
  split
  · exact fatFreeChain_walks g reliable walk rfl
  · rename_i reserved
    cases walk with
    | stop _ => exact Does.pure trivial
    | link link _ => exact absurd link.1 reserved

theorem flushDirSector_does (dirbuf : Buf) (off : Nat) :
    Does e m (fun _ => flushDirSector g dirbuf off) (dirWrites g off dirbuf.data) fun _ => True :=
  writeSector_does reliable _ _ _

end

end ChrisOS.Fs.Fat32
