import ChrisOS.Fs.Fat32.Refusals

/-! Reading a file on any disk: the clusters the loop comes to, what it leaves in
the caller's buffer, and how that compares with the value returned.
-/

set_option autoImplicit false

namespace ChrisOS.Fs.Fat32
open ChrisOS.Lib ChrisOS.Lib.Chains ChrisOS.Drivers.Ata

/-- The cluster reached by following `i` links of the FAT on disk. -/
def linkAt (g : Statics) (d : Disk) (start i : Nat) : Nat := (rawEntry g d)^[i] start

theorem linkAt_succ (g : Statics) (d : Disk) (start i : Nat) :
    linkAt g d start (i + 1) = linkAt g d (rawEntry g d start) i := Function.iterate_succ_apply _ i start

section
variable (g : Statics) (d : Disk)

/-- Following `n` links is what the loop does for a file of this size. -/
structure Followed (start size n : Nat) : Prop where
  links : ∀ i, i < n → isLink (linkAt g d start i)
  wanted : ∀ i, i < n → i * g.clusterSize < size
  last : ¬(isLink (linkAt g d start n) ∧ n * g.clusterSize < size)

/-- A buffer after `n` clusters of a chain were read into it from an offset on. -/
structure Copied (start n off : Nat) (before after : Buf) : Prop where
  data : ∀ k, after.data k = if off ≤ k ∧ k < off + n * g.clusterSize then
    clusterByte g d (linkAt g d start ((k - off) / g.clusterSize)) ((k - off) % g.clusterSize) else before.data k
  filled : ∀ k, (after.filled k).isSome ↔
    (off ≤ k ∧ k < off + n * g.clusterSize ∧ (k - off) % 512 = 0) ∨ (before.filled k).isSome

end

/-- The bytes that the loop asks of one cluster. -/
def chunkOf (g : Statics) (remaining : Nat) : Nat := if remaining > g.clusterSize then g.clusterSize else remaining

theorem followed_exists (g : Statics) (d : Disk) (positive : 0 < g.clusterSize) (start size : Nat) :
    ∃ n, Followed g d start size n := by
  classical
  have ends : ∃ n, ¬(isLink (linkAt g d start n) ∧ n * g.clusterSize < size) := by
    refine ⟨size, fun more => ?_⟩
    have := Nat.le_mul_of_pos_right size positive
    omega
  refine ⟨Nat.find ends, fun i before => ?_, fun i before => ?_, Nat.find_spec ends⟩
  · exact (not_not.mp (Nat.find_min ends before)).1
  · exact (not_not.mp (Nat.find_min ends before)).2

/-- With no cluster to follow the loop stops. -/
theorem Followed.stops {g : Statics} {d : Disk} {start size : Nat} (followed : Followed g d start size 0) :
    ¬(isLink start ∧ size > 0) := by simpa [linkAt] using followed.last

/-- With one more cluster to follow it goes on. -/
theorem Followed.goes_on {g : Statics} {d : Disk} {start size n : Nat} (followed : Followed g d start size (n + 1)) :
    isLink start ∧ size > 0 := by
  refine ⟨followed.links 0 (Nat.succ_pos n), ?_⟩
  simpa using followed.wanted 0 (Nat.succ_pos n)

theorem Followed.tail {g : Statics} {d : Disk} {start size n : Nat} (followed : Followed g d start size (n + 1)) :
    Followed g d (rawEntry g d start) (size - chunkOf g size) n := by
  have shorter (i : Nat) (next : (i + 1) * g.clusterSize < size) : i * g.clusterSize < size - chunkOf g size := by
    rw [Nat.succ_mul] at next
    rw [chunkOf, if_pos (by omega)]
    omega
  refine ⟨fun i inside => ?_, fun i inside => ?_, fun more => ?_⟩
  · rw [← linkAt_succ]
    exact followed.links (i + 1) (by omega)
  · exact shorter i (followed.wanted (i + 1) (by omega))
  · rw [← linkAt_succ] at more
    refine followed.last ⟨more.1, ?_⟩
    have further := more.2
    rw [Nat.succ_mul]
    unfold chunkOf at further
    split at further <;> omega

theorem Copied.none (g : Statics) (d : Disk) (start off : Nat) (buf : Buf) : Copied g d start 0 off buf buf where
  data k := by rw [if_neg (by omega)]
  filled k := ⟨.inr, fun known => known.resolve_left (by omega)⟩

/-- Nothing read after the first clusters. -/
theorem Copied.same {g : Statics} {d : Disk} {start next n off off' : Nat} {buf b b' : Buf}
    (first : Copied g d start n off buf b) (rest : Copied g d next 0 off' b b') : Copied g d start n off buf b' where
  data k := by rw [rest.data, if_neg (by omega), first.data]
  filled k := by
    rw [rest.filled, ← first.filled]
    exact ⟨fun known => known.resolve_left (by omega), .inr⟩

/-- The clusters behind the first one, read after it. -/
theorem Copied.cons {g : Statics} {d : Disk} {start n off : Nat} {buf b b' : Buf} (positive : 0 < g.clusterSize)
    (first : Copied g d start 1 off buf b) (rest : Copied g d (rawEntry g d start) n (off + g.clusterSize) b b') :
    Copied g d start (n + 1) off buf b' where
  data k := by
    have longer : (n + 1) * g.clusterSize = g.clusterSize + n * g.clusterSize := by rw [Nat.succ_mul, Nat.add_comm]
    rw [rest.data, first.data, longer, Nat.one_mul]
    by_cases later : off + g.clusterSize ≤ k ∧ k < off + g.clusterSize + n * g.clusterSize
    · obtain ⟨j, rfl⟩ := Nat.exists_eq_add_of_le later.1
      rw [if_pos later, if_pos (by omega), Nat.add_sub_cancel_left, Nat.add_assoc, Nat.add_sub_cancel_left,
        Nat.add_div_left j positive, Nat.add_mod_left, linkAt_succ]
    · rw [if_neg later]
      by_cases here : off ≤ k ∧ k < off + g.clusterSize
      · rw [if_pos here, if_pos (by omega)]
      · rw [if_neg here, if_neg (by omega)]
  filled k := by
    have longer : (n + 1) * g.clusterSize = g.clusterSize + n * g.clusterSize := by rw [Nat.succ_mul, Nat.add_comm]
    have size : g.clusterSize = g.spc * 512 := rfl
    rw [rest.filled, first.filled, longer, Nat.one_mul, ← or_assoc]
    refine or_congr_left ⟨fun either => ?_, fun inside => ?_⟩
    · rcases either with later | here
      · omega
      · omega
    · by_cases here : k < off + g.clusterSize
      · exact .inr ⟨inside.1, here, inside.2.2⟩
      · refine .inl ⟨by omega, by omega, ?_⟩
        omega

section
variable {g : Statics} {e : Env} (reliable : Reliable e) {m : Machine}
include reliable

theorem readSectors_fills (lba off n : Nat) (buf : Buf) :
    Does e m (fun _ => readSectors lba off n buf) [] fun b => ∀ k, (b.filled k).isSome ↔
      (off ≤ k ∧ k < off + n * 512 ∧ (k - off) % 512 = 0) ∨ (buf.filled k).isSome := by
  induction n with
  | zero =>
    refine Does.pure fun k => ⟨.inr, fun known => known.resolve_left ?_⟩
    omega
  | succ n ih =>
    simp only [readSectors]
    refine Does.after ih fun b m' _ filled => ?_
    refine ⟨b.fill (off + n * 512) (add32 fat32StartLba (add32 lba n)) (m'.disk (sectorAddr (add32 lba n))), _,
      .of_all fun _ => by simp [readSector, bind_run, ataReadSector, reliable m'.log.length, sectorAddr]; rfl,
      .silent m' rfl, fun k => ?_⟩
    simp only [Buf.fill, Function.update_apply]
    split
    · rename_i here
      refine ⟨fun _ => .inl ?_, fun _ => rfl⟩
      omega
    · rw [filled k]
      refine or_congr_left ?_
      omega

theorem readCluster_copies (cluster : Nat) (buf : Buf) (off : Nat) :
    Does e m (fun _ => readCluster g cluster buf off) [] (Copied g m.disk cluster 1 off buf) := by
  have both := (readCluster_does g reliable (m := m) cluster buf off).and (readSectors_fills reliable _ off g.spc buf)
  refine both.mono fun b ⟨data, filled⟩ => ⟨fun k => ?_, fun k => ?_⟩
  · rw [data k, Nat.one_mul]
    split
    · rename_i inside
      rw [Nat.div_eq_of_lt (by omega), Nat.mod_eq_of_lt (by omega)]
      rfl
    · rfl
  · rw [filled k, Nat.one_mul]
    rfl

/-- The loop follows links until the chain or the file ends, and reads whole clusters. -/
theorem readFileLoop_reads (positive : 0 < g.clusterSize) {d : Disk} {cluster remaining n : Nat}
    (followed : Followed g d cluster remaining n) (same : m.disk = d) (buf : Buf) (off : Nat) :
    Does e m (fun n => readFileLoop g n cluster remaining buf off) [] (Copied g d cluster n off buf) := by
  induction n generalizing m cluster remaining buf off with
  | zero =>
    refine Does.of_succ ?_
    simp only [readFileLoop, if_neg followed.stops]
    exact Does.pure (.none g d cluster off buf)
  | succ n ih =>
    refine Does.of_succ ?_
    simp only [readFileLoop, if_pos followed.goes_on]
    refine Does.after (readCluster_copies reliable cluster buf off) fun b m₁ same₁ first => ?_
    refine Does.after (fatGet_does g reliable cluster) fun next m₂ same₂ value => ?_
    rw [same₁, same] at value
    rw [same] at first
    subst value
    have rest := ih followed.tail (same₂.trans (same₁.trans same)) b (off + chunkOf g remaining)
    refine rest.mono fun b' copied => ?_
    by_cases longer : remaining > g.clusterSize
    · rw [chunkOf, if_pos longer] at copied
      exact first.cons positive copied
    · -- the file ends in this cluster
      obtain rfl : n = 0 := by
        by_contra further
        have := followed.wanted 1 (by omega)
        omega
      exact first.same copied

end

/-! ### The value returned -/

section
variable (g : Statics) (d : Disk)

/-- The size in the entry that a scan finds for a name. -/
def recordedSize (fatname : FatName) : Nat :=
  match (lookup g d fatname).1 with
  | none => 0
  | some off => entrySize (rootBytes g d) off

/-- Every cluster that the recorded size asks for is there to be read. -/
def Unbroken (start size : Nat) : Prop := ∀ i, i * g.clusterSize < size → isLink (linkAt g d start i)

/-- The entry found for a name promises no more than an int holds and the chain delivers. -/
def Delivers (fatname : FatName) : Prop :=
  match (lookup g d fatname).1 with
  | none => True
  | some off => entrySize (rootBytes g d) off < 2 ^ 31 ∧
      Unbroken g d (entryCluster (rootBytes g d) off) (entrySize (rootBytes g d) off)

end

/-- How many of the first `size` bytes of a buffer transfers have filled. -/
def placed (b : Buf) (size : Nat) : Nat :=
  ((List.range size).filter fun k => (b.filled (k / 512 * 512)).isSome).length

/-- Nothing was read into the buffer since it was allocated. -/
def Unread (b : Buf) : Prop := b.filled = fun _ => none

theorem kmalloc_unread {e : Env} {m : Machine} (size : Nat) :
    Does e m (fun _ => kmalloc size) [] fun b => b.ptr = e.block m.log.length ∧ Unread b :=
  ⟨_, _, .of_all fun _ => rfl, .silent m rfl, rfl, rfl⟩

theorem length_filter_range (size bound : Nat) :
    ((List.range size).filter fun k => decide (k < bound)).length = min size bound := by
  induction size with
  | zero => simp
  | succ size ih =>
    rw [List.range_succ, List.filter_append, List.length_append, ih]
    by_cases inside : size < bound
    · simp [inside]
      omega
    · simp [inside]
      omega

theorem Copied.placed {g : Statics} {d : Disk} {start n : Nat} {buf b : Buf} (copied : Copied g d start n 0 buf b)
    (unread : Unread buf) (size : Nat) : placed b size = min size (n * g.clusterSize) := by
  rw [← length_filter_range, Fat32.placed]
  congr 1
  refine List.filter_congr fun k _ => ?_
  have whole : n * g.clusterSize = n * g.spc * 512 := by rw [Statics.clusterSize, Nat.mul_assoc]
  rw [Bool.eq_iff_iff, copied.filled, unread, decide_eq_true_iff, whole]
  simp only [Option.isSome_none, Bool.false_eq_true, or_false]
  omega

theorem Followed.unbroken {g : Statics} {d : Disk} {start size n : Nat} (followed : Followed g d start size n) :
    size ≤ n * g.clusterSize ↔ Unbroken g d start size := by
  constructor
  · intro enough i wanted
    refine followed.links i (Nat.not_le.mp fun beyond => ?_)
    have := Nat.mul_le_mul_right g.clusterSize beyond
    omega
  · intro unbroken
    refine Nat.not_lt.mp fun short => followed.last ⟨unbroken n short, short⟩

theorem entrySize_lt (f : Nat → UInt8) (off : Nat) : entrySize f off < 2 ^ 32 := word32_lt _ _

theorem asInt_eq_iff {size count : Nat} (word : size < 2 ^ 32) (fewer : count ≤ size) :
    asInt size = (count : Int) ↔ size < 2 ^ 31 ∧ size ≤ count := by
  unfold asInt
  split
  · rename_i small
    omega
  · omega

/-- The value returned and the bytes placed, for a buffer nothing was read into. -/
theorem readFile_counts {g : Statics} {e : Env} (reliable : Reliable e) (m : Machine) (name : List UInt8) (buf : Buf)
    (unread : Unread buf) :
    Does e m (fun n => fat32ReadFile g n name buf) [] fun r =>
      (r.1 = placed r.2 (recordedSize g m.disk (nameToFat83 name)) ↔ Delivers g m.disk (nameToFat83 name)) ∧
      ∀ off, (lookup g m.disk (nameToFat83 name)).1 = some off →
        ∀ k, k < placed r.2 (recordedSize g m.disk (nameToFat83 name)) → r.2.data k =
          clusterByte g m.disk (linkAt g m.disk (entryCluster (rootBytes g m.disk) off) (k / g.clusterSize))
            (k % g.clusterSize) := by
  cases found : (lookup g m.disk (nameToFat83 name)).1 with
  | none =>
    refine (readFile_missing reliable found buf).mono fun r same => ⟨?_, fun off none => nomatch none⟩
    subst same
    simp [recordedSize, Delivers, found, placed]
  | some off =>
    have positive := findDirEntry_some found
    obtain ⟨n, followed⟩ := followed_exists g m.disk positive (entryCluster (rootBytes g m.disk) off)
      (entrySize (rootBytes g m.disk) off)
    have read := readFile_found reliable found buf fun m₁ same =>
      readFileLoop_reads reliable positive followed same buf 0
    refine read.mono fun r ⟨returned, copied⟩ => ⟨?_, ?_⟩
    · simp only [recordedSize, Delivers, found]
      rw [returned, copied.placed unread, asInt_eq_iff (entrySize_lt _ _) (Nat.min_le_left _ _),
        ← followed.unbroken]
      omega
    · intro o same k inside
      cases same
      simp only [recordedSize, found] at inside
      rw [copied.placed unread] at inside
      rw [copied.data, if_pos (by omega), Nat.sub_zero]

/-- Every transfer into the buffer ends below this index. -/
def Below (b : Buf) (capacity : Nat) : Prop := ∀ k, (b.filled k).isSome → k + 512 ≤ capacity

theorem Copied.below_iff {g : Statics} {d : Disk} {start n : Nat} {buf b : Buf} (copied : Copied g d start n 0 buf b)
    (unread : Unread buf) (capacity : Nat) : Below b capacity ↔ n * g.clusterSize ≤ capacity := by
  have whole : n * g.clusterSize = n * g.spc * 512 := by rw [Statics.clusterSize, Nat.mul_assoc]
  have known (k : Nat) : (b.filled k).isSome ↔ k < n * g.clusterSize ∧ k % 512 = 0 := by
    rw [copied.filled, unread]
    simp
  rw [Below, whole]
  rw [whole] at known
  constructor
  · intro below
    cases sectors : n * g.spc with
    | zero => simp
    | succ sectors' =>
      -- the last sector of the last cluster
      have last := below (sectors' * 512) ((known _).mpr (by omega))
      omega
  · intro fits k filled
    have := (known k).mp filled
    omega

section
variable {g : Statics} {limit : Nat} (geo : Geometry g limit) {d : Disk}
include geo

/-- The links on disk lead along the chain and then to its end. -/
theorem linkAt_of_chain {c : Nat} {ks : List Nat} (chain : Chain (Valid limit) Final (view g limit d).fat c ks) :
    (∀ i, i < ks.length → isLink (linkAt g d c i)) ∧ ¬isLink (linkAt g d c ks.length) := by
  induction chain with
  | stop final => exact ⟨fun i inside => absurd inside (Nat.not_lt_zero i), not_isLink_of_final final⟩
  | @link c ks valid _ ih =>
    rw [← rawEntry_eq geo d valid.2] at ih
    refine ⟨fun i inside => ?_, ?_⟩
    · cases i with
      | zero => exact geo.valid_isLink valid
      | succ i =>
        rw [linkAt_succ]
        exact ih.1 i (Nat.lt_of_succ_lt_succ inside)
    · rw [List.length_cons, linkAt_succ]
      exact ih.2

/-- The loop reads the clusters of a file until its size is reached. -/
theorem FileChain.followed (positive : 0 < g.clusterSize) {start : Nat} {ks : List Nat}
    (chain : FileChain limit (view g limit d).fat start ks) (size : Nat) :
    Followed g d start size (min ((size + g.clusterSize - 1) / g.clusterSize) ks.length) := by
  have links : (∀ i, i < ks.length → isLink (linkAt g d start i)) ∧ ¬isLink (linkAt g d start ks.length) := by
    cases chain with
    | empty => exact ⟨fun i inside => absurd inside (Nat.not_lt_zero i), fun link => absurd (show 2 ≤ 0 from link.1) (by decide)⟩
    | chain _ chain => exact linkAt_of_chain geo chain
  have count (i : Nat) : i < (size + g.clusterSize - 1) / g.clusterSize ↔ i * g.clusterSize < size := by
    rw [Nat.lt_iff_add_one_le, Nat.le_div_iff_mul_le positive, Nat.succ_mul]
    omega
  refine ⟨fun i inside => links.1 i (by omega), fun i inside => (count i).mp (by omega), ?_⟩
  rintro ⟨link, wanted⟩
  rw [← count] at wanted
  have reached : min ((size + g.clusterSize - 1) / g.clusterSize) ks.length = ks.length := by omega
  rw [reached] at link
  exact links.2 link

end

/-- The clusters that are read of the file with this name fit into a buffer, if there is such a file. -/
def FitsBuffer (g : Statics) (limit : Nat) (d : Disk) (fatname : FatName) (capacity : Nat) : Prop :=
  ∀ off ks, (lookup g d fatname).1 = some off → Holds g limit (view g limit d) off ks →
    min ((entrySize ((view g limit d).dir g) off + g.clusterSize - 1) / g.clusterSize) ks.length * g.clusterSize ≤ capacity

/-- On a volume in order, reading a file into a fresh buffer stays below an index exactly
if the clusters that are read fit there. -/
theorem readFile_below_iff {g : Statics} {limit : Nat} {e : Env} (reliable : Reliable e) {m : Machine}
    (vol : Sound g limit m.disk) (name : List UInt8) {buf : Buf} (unread : Unread buf) (capacity : Nat) :
    Does e m (fun n => fat32ReadFile g n name buf) [] fun r =>
      Below r.2 capacity ↔ FitsBuffer g limit m.disk (nameToFat83 name) capacity := by
  have geo := vol.geometry
  cases found : (lookup g m.disk (nameToFat83 name)).1 with
  | none =>
    refine (readFile_missing reliable found buf).mono fun r same => ?_
    subst same
    refine ⟨fun _ off ks some => ?_, fun _ k filled => ?_⟩
    · rw [found] at some
      cases some
    · rw [unread] at filled
      cases filled
  | some off =>
    have positive := findDirEntry_some found
    have listed := (lookup_listed geo (Prod.ext found rfl)).1
    obtain ⟨ks, holds⟩ := vol.chained off listed
    have entry := rootBytes_entry geo m.disk listed.live.slot
    have followed := holds.chain.followed geo positive (entrySize ((view g limit m.disk).dir g) off)
    rw [← entry.entryCluster, ← entry.entrySize] at followed
    have read := readFile_found reliable found buf fun m₁ same =>
      readFileLoop_reads reliable positive followed same buf 0
    refine read.mono fun r ⟨_, copied⟩ => ?_
    rw [copied.below_iff unread, entry.entrySize]
    constructor
    · intro fits o js same other
      rw [found] at same
      cases same
      rw [other.chain.unique geo.valid_apart holds.chain]
      exact fits
    · exact fun fits => fits off ks found holds

/-! ### A file on a volume of large clusters -/

/-- Sixteen sectors a cluster, two FATs of one sector, the root directory in cluster 2. -/
def wide : Statics := mount ⟨16, 32, 2, 160, 1, 2, 0x29⟩

/-- Clusters 2 and 3 are each the end of a chain. -/
def wideFat : Sector := fun i => if i.val < 8 ∨ 16 ≤ i.val then 0x00 else if i.val % 4 = 3 then 0x0F else 0xFF

/-- The file A on cluster 3. -/
def wideDir (size : Nat) : Nat → UInt8 := entryAt (fun _ => 0x00) 0 (nameToFat83 [0x61]) 3 size

def wideDisk (size : Nat) : Disk := fun a =>
  if a = 20512 ∨ a = 20513 then wideFat else if a = 20514 then piece (wideDir size) 0 else fun _ => 0x00

def freshBuf : Buf := ⟨0, fun _ => 0, fun _ => none⟩

section
variable (size : Nat)

theorem wide_root {k : Nat} (inside : k < 512) : rootBytes wide (wideDisk size) k = wideDir size k := by
  have first : k / 512 = 0 ∧ k % 512 = k := by omega
  have block : sectorAddr (add32 (clusterLba wide wide.rootCluster) 0) = 20514 := by decide
  rw [rootBytes, clusterByte, runByte, first.1, first.2, block, bytes, dif_pos inside]
  simp [wideDisk, piece]

theorem wide_entry : SameEntry (rootBytes wide (wideDisk size)) (wideDir size) 0 :=
  fun k small => wide_root size (by omega)

theorem wide_lookup : lookup wide (wideDisk size) (nameToFat83 [0x61]) = (some 0, none) := by
  have first := wide_root size (show 0 < 512 by decide)
  rw [wideDir, entryAt_first] at first
  have attributes := wide_root size (show 0 + 11 < 512 by decide)
  rw [wideDir, entryAt_attributes] at attributes
  have named : nameAt (rootBytes wide (wideDisk size)) 0 = nameToFat83 [0x61] := by
    rw [(wide_entry size).nameAt, wideDir, nameAt_entryAt]
  have rounds : wide.clusterSize / 32 = 255 + 1 := by decide
  have letter : nameToFat83 [0x61] 0 = 0x41 := by decide
  rw [lookup, findDirEntry, rounds, scanEntries, first, attributes, letter, if_neg (by decide), if_neg (by decide),
    if_neg (by decide), if_pos fun i => by rw [named]]

end

theorem wide_geometry : Geometry wide 128 where
  mounted := rfl
  accepted := rfl
  copies := .inr rfl
  positive := by decide
  covered := by decide
  root := by decide
  fits := by decide

theorem wide_dir (size : Nat) {k : Nat} (inside : k < 512) : (view wide 128 (wideDisk size)).dir wide k = wideDir size k := by
  rw [← rootBytes_eq wide_geometry _ (Nat.lt_of_lt_of_le inside (by decide)), wide_root size inside]

theorem wide_fat (size : Nat) {c : Nat} (inside : c < 128) : (view wide 128 (wideDisk size)).fat c = slot wideFat c := by
  have one : wide.spf = 1 := rfl
  have sector : wideDisk size (fatBase wide + 0) = wideFat := rfl
  rw [view_fat, one, if_pos inside, Nat.div_eq_of_lt inside, Nat.mod_eq_of_lt inside, sector]

/-- The one file of the volume. -/
theorem wide_listed (size : Nat) {off : Nat}
    (listed : Listed ((view wide 128 (wideDisk size)).dir wide) wide.clusterSize off) : off = 0 := by
  have aligned := listed.live.slot.1
  have ended : (view wide 128 (wideDisk size)).dir wide 32 = 0x00 := by
    rw [wide_dir size (by decide), wideDir, entryAt_outside _ _ _ _ _ (.inr (Nat.le_refl _))]
  by_contra other
  by_cases here : off = 32
  · subst here
    exact listed.live.used (.inl ended)
  · exact listed.reached 32 (by omega) ⟨rfl, by decide⟩ ended

theorem wide_chain (size : Nat) : FileChain 128 (view wide 128 (wideDisk size)).fat 3 [3] := by
  have valid : Valid 128 3 := ⟨by decide, by decide⟩
  refine .chain valid (.link valid (.stop ?_))
  rw [wide_fat size (by decide)]
  exact (by decide : (0x0FFFFFF8 : Nat) ≤ slot wideFat 3)

theorem wide_start {size off : Nat} (listed : Listed ((view wide 128 (wideDisk size)).dir wide) wide.clusterSize off) :
    entryCluster ((view wide 128 (wideDisk size)).dir wide) off = 3 := by
  obtain rfl := wide_listed size listed
  rw [← (rootBytes_entry wide_geometry _ listed.live.slot).entryCluster, (wide_entry size).entryCluster, wideDir,
    entryCluster_entryAt _ _ _ (by decide)]

theorem wide_holds {size off : Nat} {ks : List Nat} (holds : Holds wide 128 (view wide 128 (wideDisk size)) off ks) :
    off = 0 ∧ ks = [3] := by
  have chain := holds.chain
  rw [wide_start holds.listed] at chain
  exact ⟨wide_listed size holds.listed, chain.unique wide_geometry.valid_apart (wide_chain size)⟩

theorem wide_sound (size : Nat) : Sound wide 128 (wideDisk size) where
  geometry := wide_geometry
  mirrored := by
    intro _ s inside
    have one : wide.spf = 1 := rfl
    obtain rfl : s = 0 := by omega
    rfl
  single := by
    have root : wide.rootCluster = 2 := rfl
    rw [root, wide_fat size (by decide)]
    exact (by decide : (0x0FFFFFF8 : Nat) ≤ slot wideFat 2)
  chained off listed := ⟨[3], listed, by rw [wide_start listed]; exact wide_chain size⟩
  disjoint off off' ks ks' holds holds' other := absurd ((wide_holds holds).1.trans (wide_holds holds').1.symm) other
  apart off ks holds := by
    rw [(wide_holds holds).2]
    decide

end ChrisOS.Fs.Fat32
