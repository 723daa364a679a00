import ChrisOS.Fs.Fat32.Reads
import Mathlib.Logic.Relation

/-! Where the driver writes when the links in the FAT are damaged. Freeing follows any
value that looks like a link and rewrites the sector where that value's entry would be,
so it stays on the FATs exactly as long as the links do.
-/

set_option autoImplicit false

namespace ChrisOS.Fs.Fat32
open ChrisOS.Lib ChrisOS.Drivers.Ata

section
variable (g : Statics)

/-- The block addresses of the FAT copies. -/
def InFats (a : Nat) : Prop := fatBase g ≤ a ∧ a < fatBase g + g.bpb.fatCount.toNat * g.spf

/-- The value of one link after the other. -/
def Follows (d : Disk) : Nat → Nat → Prop := Relation.ReflTransGen fun a b => isLink a ∧ rawEntry g d a = b

/-- Every link on the way from a cluster has its entry in the FAT. -/
def Guided (d : Disk) (start : Nat) : Prop := ∀ c, Follows g d start c → isLink c → c < 128 * g.spf

/-- A file that a call replaces or deletes has only links with entries in the FAT. -/
def GuidedCall (d : Disk) : Call → Prop
  | .create _ => True
  | .delete name => ∀ off, (lookup g d (nameToFat83 name)).1 = some off → Guided g d (entryCluster (rootBytes g d) off)
  | .write name data => data.length ≤ g.clusterSize →
      ∀ off, (lookup g d (nameToFat83 name)).1 = some off → Guided g d (entryCluster (rootBytes g d) off)

/-- How many sectors of data a served call writes. -/
def dataSectors : Call → Nat
  | .write _ data => if data = [] then 0 else g.spc
  | _ => 0

/-- The writes of a call that returned `r`: those before the file's data, then the data on
one cluster and the directory sector if the call was served. -/
inductive Split (call : Call) : Nat → SectorWrites → SectorWrites → Prop where
  | refused {fat : SectorWrites} : Split call 0 fat fat
  | served {fat : SectorWrites} {cluster off : Nat} {image dir : Nat → UInt8} : Split call 1
      (fat ++ (runWrites (clusterLba g cluster) image (dataSectors g call) ++ dirWrites g off dir)) fat

end

/-- A served call that stores no data. -/
theorem Split.bare {g : Statics} {call : Call} {fat : SectorWrites} {off : Nat} {dir : Nat → UInt8}
    (none : dataSectors g call = 0) : Split g call 1 (fat ++ dirWrites g off dir) fat := by
  have split : Split g call 1 (fat ++ (runWrites (clusterLba g 0) dir (dataSectors g call) ++ dirWrites g off dir)) fat :=
    .served
  rwa [none, runWrites, List.range_zero, List.map_nil, List.nil_append] at split

/-! ### One link -/

section
variable {g : Statics} {limit : Nat} (geo : Geometry g limit)
include geo

/-- Clearing the entry of a link writes on the FATs exactly if the entry lies in the FAT. -/
theorem setWrites_inFats (d : Disk) {c : Nat} (link : isLink c) (value : Nat) :
    (∀ w ∈ setWrites g d c value, InFats g w.1) ↔ c < 128 * g.spf := by
  have low := geo.fatStart_lt
  have copies := geo.fats_fit
  have room := geo.fits
  have base : fatBase g = 20480 + g.fatStart := rfl
  have start : fat32StartLba = 20480 := rfl
  obtain ⟨sector, small⟩ := fatSector_of_link low link
  unfold reach at small
  have first : add32 fat32StartLba (fatSector g c) = fatBase g + c / 128 := by
    rw [sector, base]
    unfold add32
    omega
  have second : add32 fat32StartLba (add32 (fatSector g c) g.spf) = fatBase g + c / 128 + g.spf := by
    rw [sector, base]
    unfold add32
    omega
  unfold setWrites mirrored copyWrites InFats
  by_cases two : g.bpb.fatCount.toNat > 1
  · have both := copies.2 two
    simp only [two, ↓reduceIte, List.forall_mem_cons, List.not_mem_nil, false_implies, implies_true, and_true, first, second]
    omega
  · have one : g.bpb.fatCount.toNat = 1 := by
      have := geo.copies
      omega
    simp only [two, ↓reduceIte, List.forall_mem_cons, List.not_mem_nil, false_implies, implies_true, and_true, first]
    rw [one]
    omega

/-- A cleared entry holds 0 and the other entries of the FAT keep their values. -/
theorem rawEntry_cleared (d : Disk) {c x : Nat} (link : isLink c) (inside : c < 128 * g.spf) (other : isLink x)
    (inside' : x < 128 * g.spf) :
    rawEntry g (land (setWrites g d c 0) d) x = if x = c then 0 else rawEntry g d x := by
  have low := geo.fatStart_lt
  have room := geo.fits
  have copies := geo.fats_fit
  have base : fatBase g = 20480 + g.fatStart := rfl
  have start : fat32StartLba = 20480 := rfl
  obtain ⟨sector, small⟩ := fatSector_of_link low link
  have mirror : g.bpb.fatCount.toNat > 1 → fatBase g + x / 128 ≠ sectorAddr (add32 (fatSector g c) g.spf) := by
    intro two
    have both := copies.2 two
    rw [sector, base]
    unfold sectorAddr lba28 add32
    omega
  rw [rawEntry_of_link low _ other, rawEntry_of_link low _ other, setWrites, land_mirrored, sectorAddr_of_link low link,
    fatOffset_eq]
  by_cases here : x / 128 = c / 128
  · rw [here, if_pos (.inl rfl)]
    by_cases same : x = c
    · subst same
      rw [if_pos rfl, slot_patch _ (Nat.mod_lt _ (by decide)), Nat.zero_and]
    · rw [if_neg same, slot_patch_other _ (Nat.mod_lt _ (by decide)) (by omega)]
  · have same : x ≠ c := fun same => here (same ▸ rfl)
    rw [if_neg same, if_neg]
    rintro (first | ⟨two, second⟩)
    · omega
    · exact mirror two second

/-! ### The walk -/

omit geo in
theorem guided_stop {d : Disk} {c : Nat} (last : ¬isLink c) : Guided g d c := by
  intro x follows link
  rcases follows.cases_head with rfl | ⟨_, ⟨first, -⟩, -⟩
  · exact absurd link last
  · exact absurd first last

/-- The links behind a cluster are the same before and after its entry is cleared. -/
theorem guided_link {d : Disk} {c : Nat} (link : isLink c) :
    Guided g d c ↔ c < 128 * g.spf ∧ Guided g (land (setWrites g d c 0) d) (rawEntry g d c) := by
  constructor
  · intro guided
    have inside := guided c .refl link
    refine ⟨inside, fun x follows => ?_⟩
    -- what is reached after the clearing was reached before, unless it is the cleared entry's 0
    have before : isLink x → Follows g d c x := by
      induction follows with
      | refl => exact fun _ => .single ⟨link, rfl⟩
      | @tail y z _ step ih =>
        intro final
        have reached := ih step.1
        have value := step.2
        rw [rawEntry_cleared geo d link inside step.1 (guided y reached step.1)] at value
        split at value
        · exact absurd final.1 (by omega)
        · exact reached.tail ⟨step.1, value⟩
    exact fun final => guided x (before final) final
  · rintro ⟨inside, guided⟩ x follows
    have after : x = c ∨ Follows g (land (setWrites g d c 0) d) (rawEntry g d c) x := by
      induction follows with
      | refl => exact .inl rfl
      | @tail y z _ step ih =>
        by_cases here : y = c
        · subst here
          exact .inr (step.2 ▸ .refl)
        · have reached := ih.resolve_left here
          refine .inr (reached.tail ⟨step.1, ?_⟩)
          rw [rawEntry_cleared geo d link inside step.1 (guided y reached step.1), if_neg here, step.2]
    intro final
    rcases after with rfl | reached
    · exact inside
    · exact guided x reached final

/-- Freeing writes on the FATs exactly if every link on its way has its entry there. -/
theorem FreeWalk.inFats {d : Disk} {c : Nat} {ws : SectorWrites} (walk : FreeWalk g d c ws) :
    (∀ w ∈ ws, InFats g w.1) ↔ Guided g d c := by
  induction walk with
  | stop last => exact iff_of_true (fun _ member => absurd member List.not_mem_nil) (guided_stop last)
  | @link d c ws link _ ih => rw [List.forall_mem_append, setWrites_inFats geo d link, ih, guided_link geo link]

theorem Places.inFats {d : Disk} {fatname : FatName} {off : Nat} {ws : SectorWrites} (place : Places g d fatname off ws) :
    (∀ w ∈ ws, InFats g w.1) ↔
      ∀ o, (lookup g d fatname).1 = some o → Guided g d (entryCluster (rootBytes g d) o) := by
  cases place with
  | own found walk =>
    rw [walk.inFats geo, found]
    exact ⟨fun guided o same => Option.some.inj same ▸ guided, fun guided => guided _ rfl⟩
  | free found =>
    rw [found]
    exact iff_of_true (fun _ member => absurd member List.not_mem_nil) fun _ none => nomatch none

omit geo in
theorem searchFat_lt {d : Disk} {rounds s t i : Nat} (found : searchFat g d rounds s = some (t, i)) :
    s ≤ t ∧ t < s + rounds := by
  induction rounds generalizing s with
  | zero => cases found
  | succ rounds ih =>
    rw [searchFat] at found
    split at found
    · cases found
      omega
    · have := ih found
      omega

/-- The allocator marks an entry of the FATs. -/
theorem allocWrites_inFats {d : Disk} {t i : Nat} (found : searchFat g d g.spf 0 = some (t, i)) :
    ∀ w ∈ allocWrites g d (some (t, i)), InFats g w.1 := by
  have inside := (searchFat_lt found).2
  rw [Nat.zero_add] at inside
  have copies := geo.fats_fit
  simp only [allocWrites, mirrored, copyWrites, InFats]
  by_cases two : g.bpb.fatCount.toNat > 1
  · have both := copies.2 two
    simp only [two, ↓reduceIte, List.forall_mem_cons, List.not_mem_nil, false_implies, implies_true, and_true,
      (geo.sits_fat inside).raw, (geo.sits_copy' two inside).raw]
    omega
  · simp only [two, ↓reduceIte, List.forall_mem_cons, List.not_mem_nil, false_implies, implies_true, and_true,
      (geo.sits_fat inside).raw]
    omega

/-- The writes of a call before its data are on the FATs exactly if the call is guided. -/
theorem Acts.split {d : Disk} {call : Call} {r : Nat} {ws : SectorWrites} (acts : Acts g d call r ws) :
    ∃ fat, Split g call r ws fat ∧ ((∀ w ∈ fat, InFats g w.1) ↔ GuidedCall g d call) := by
  have nothing : ∀ w ∈ ([] : SectorWrites), InFats g w.1 := fun _ member => absurd member List.not_mem_nil
  cases acts with
  | taken _ => exact ⟨[], .refused, iff_of_true nothing trivial⟩
  | noRoom _ => exact ⟨[], .refused, iff_of_true nothing trivial⟩
  | @creates name off found =>
    have split : Split g (.create name) 1 ([] ++ storeWrites g d off (nameToFat83 name) 0 0) [] := .bare rfl
    exact ⟨[], split, iff_of_true nothing trivial⟩
  | missing found => exact ⟨[], .refused, iff_of_true nothing fun off some => nomatch found.symm.trans some⟩
  | @deletes name off ws found walk =>
    refine ⟨ws, .bare rfl, ?_⟩
    rw [walk.inFats geo]
    exact ⟨fun guided o same => Option.some.inj (found.symm.trans same) ▸ guided, fun guided => guided off found⟩
  | large oversize => exact ⟨[], .refused, iff_of_true nothing fun fits => absurd oversize (Nat.not_lt.mpr fits)⟩
  | noPlace _ found =>
    refine ⟨[], .refused, iff_of_true nothing fun _ off some => ?_⟩
    rw [found] at some
    cases some
  | @writes name data off r ws vs fits place stores =>
    have guided : GuidedCall g d (.write name data) ↔ ∀ w ∈ ws, InFats g w.1 := by
      rw [place.inFats geo]
      exact ⟨fun all => all fits, fun all _ => all⟩
    rw [guided]
    cases stores with
    | bare empty => exact ⟨ws, .bare (if_pos empty), Iff.rfl⟩
    | full _ _ =>
      rw [List.append_nil]
      exact ⟨ws, .refused, Iff.rfl⟩
    | @filled s i nonempty found =>
      refine ⟨ws ++ allocWrites g (land ws d) (some (s, i)), ?_, ?_⟩
      · rw [← List.append_assoc]
        have sectors : dataSectors g (.write name data) = g.spc := if_neg nonempty
        rw [← sectors]
        exact .served
      · rw [List.forall_mem_append]
        exact and_iff_left (allocWrites_inFats geo found)

end

/-- A call on any FAT and directory writes, before its data and its directory sector, on the
FAT copies only, exactly if the file it replaces has only links with entries in the FAT. -/
theorem writes_on_fats_iff {g : Statics} {limit : Nat} (geo : Geometry g limit) {e : Env} (reliable : Reliable e)
    (m : Machine) (call : Call) :
    ∃ r m' ws fat, Returns (fun n => call.run g n e m) (r, m') ∧ writesOf m'.log = writesOf m.log ++ ws ∧
      Split g call r ws fat ∧ ((∀ w ∈ fat, InFats g w.1) ↔ GuidedCall g m.disk call) := by
  obtain ⟨r, ws, acts⟩ := acts_exists g.bpb m.disk call
  rw [← geo.mounted] at acts
  obtain ⟨fat, split, guided⟩ := acts.split geo
  obtain ⟨x, m', ran, effect, rfl⟩ := call_does reliable acts
  exact ⟨x, m', ws, fat, ran, effect.log, split, guided⟩

/-- The FAT of `wideDisk` with the bad-cluster mark behind cluster 3. -/
def badFat : Sector := fun i => if i.val = 12 then 0xF7 else wideFat i

def badDisk : Disk := Function.update (wideDisk 1) 20512 badFat

theorem bad_lookup : lookup wide badDisk (nameToFat83 [0x61]) = (some 0, none) := by decide

theorem bad_not_guided : ¬GuidedCall wide badDisk (.delete [0x61]) := by
  intro guided
  have start : entryCluster (rootBytes wide badDisk) 0 = 3 := by decide
  have walk := guided 0 (by rw [bad_lookup])
  rw [start] at walk
  have mark : rawEntry wide badDisk 3 = 0x0FFFFFF7 := by decide
  exact absurd (walk 0x0FFFFFF7 (.single ⟨by decide, mark⟩) (by decide)) (by decide)

/-- Deleting a file whose chain ends in the bad-cluster mark writes outside the FATs. -/
theorem delete_bad_chain : ¬∀ (g : Statics) (limit : Nat) (e : Env) (m m' : Machine) (call : Call) (r : Nat)
    (ws fat : SectorWrites), Geometry g limit → Reliable e → Returns (fun n => call.run g n e m) (r, m') →
    writesOf m'.log = writesOf m.log ++ ws → Split g call r ws fat → ∀ w ∈ fat, InFats g w.1 := by
  intro all
  obtain ⟨r, ws, acts⟩ := acts_exists wide.bpb badDisk (.delete [0x61])
  obtain ⟨fat, split, guided⟩ := Acts.split wide_geometry acts
  obtain ⟨x, m', ran, effect, rfl⟩ := call_does (m := ⟨badDisk, []⟩) steadyEnv_reliable acts
  exact bad_not_guided (guided.mp (all wide 128 steadyEnv ⟨badDisk, []⟩ m' (.delete [0x61]) x ws fat wide_geometry
    steadyEnv_reliable ran effect.log split))

theorem writes_on_fats_iff_bad :
    ∃ r m' ws fat, Returns (fun n => (Call.delete [0x61]).run wide n steadyEnv ⟨badDisk, []⟩) (r, m') ∧
      writesOf m'.log = writesOf [] ++ ws ∧ Split wide (.delete [0x61]) r ws fat ∧
      ((∀ w ∈ fat, InFats wide w.1) ↔ GuidedCall wide badDisk (.delete [0x61])) :=
  writes_on_fats_iff wide_geometry steadyEnv_reliable ⟨badDisk, []⟩ (.delete [0x61])

end ChrisOS.Fs.Fat32
