import ChrisOS.Fs.Fat32.Volume
import ChrisOS.Lib.Chains

/-! The driver's pieces of work on a volume: setting an entry, freeing a chain,
taking a cluster, storing data, flushing a directory entry. For each, the volume
afterwards, the volumes a stop in between can leave, and where it writes.
-/

set_option autoImplicit false

namespace ChrisOS.Fs.Fat32
open ChrisOS.Lib ChrisOS.Lib.Chains ChrisOS.Drivers.Ata

/-- The property holds of the disk before the writes and after each of them. -/
def Along (P : Disk → Prop) (d : Disk) (ws : SectorWrites) : Prop :=
  Writes.Throughout P d (ws.map fun w => (lba28 w.1, w.2))

section
variable {P Q : Disk → Prop} {d : Disk} {ws vs : SectorWrites}

theorem Along.nil (holds : P d) : Along P d [] := Writes.Throughout.nil holds

theorem Along.sector {lba : Nat} {x : Sector} (holds : P d)
    (rest : Along P (Function.update d (sectorAddr lba) x) ws) :
    Along P d ((add32 fat32StartLba lba, x) :: ws) := Writes.Throughout.cons holds rest

theorem Along.append (first : Along P d ws) (second : Along P (land ws d) vs) : Along P d (ws ++ vs) := by
  unfold Along
  rw [List.map_append]
  exact Writes.Throughout.append first second

theorem Along.mono (all : Along P d ws) (weaker : ∀ s, P s → Q s) : Along Q d ws := Writes.Throughout.mono all weaker

/-- A stop after some of the writes. -/
theorem Along.stop (all : Along P d ws) {done : SectorWrites} (isPrefix : done <+: ws) : P (land done d) :=
  all _ (isPrefix.map _)

end

/-- Writes inside the volume that take it to `after`; a stop in between leaves a
volume of the kind `between`. -/
structure Stage (g : Statics) (limit : Nat) (d : Disk) (ws : SectorWrites) (after : View) (between : View → Prop) :
    Prop where
  lands : view g limit (land ws d) = after
  mirrored : Mirrored g d → Mirrored g (land ws d)
  along : Along (fun d' => between (view g limit d')) d ws
  inside : ∀ w ∈ ws, fat32StartLba ≤ w.1 ∧ w.1 < volumeEnd g limit

section
variable {g : Statics} {limit : Nat} {d : Disk} {ws vs : SectorWrites} {after after' : View}
  {between between' : View → Prop}

theorem Stage.nil (holds : between (view g limit d)) : Stage g limit d [] (view g limit d) between where
  lands := rfl
  mirrored := id
  along := .nil holds
  inside := fun _ member => absurd member List.not_mem_nil

theorem Stage.append (first : Stage g limit d ws after between)
    (second : Stage g limit (land ws d) vs after' between) : Stage g limit d (ws ++ vs) after' between where
  lands := by rw [land_append, second.lands]
  mirrored := fun same => by
    rw [land_append]
    exact second.mirrored (first.mirrored same)
  along := first.along.append second.along
  inside := fun w member => (List.mem_append.mp member).elim (first.inside w) (second.inside w)

theorem Stage.mono (stage : Stage g limit d ws after between) (weaker : ∀ v, between v → between' v) :
    Stage g limit d ws after between' :=
  { stage with along := stage.along.mono fun _ => weaker _ }

end

/-! ### FAT entries -/

section
variable {g : Statics} {limit : Nat} (geo : Geometry g limit)
include geo

/-- A FAT sector with one entry replaced, written to every FAT. -/
theorem stage_entry (d : Disk) {s i lba copy : Nat} (inside : s < g.spf) (small : i < 128)
    (primary : Sits g limit lba (fatBase g + s))
    (second : g.bpb.fatCount.toNat > 1 → Sits g limit copy (fatBase g + g.spf + s)) (existing value : Nat) :
    Stage g limit d (mirrored g lba copy (patch (d (fatBase g + s)) (i * 4) (entryWord existing value)))
      ((view g limit d).setFat (s * 128 + i) (value &&& 0x0FFFFFFF))
      fun u => u = view g limit d ∨ u = (view g limit d).setFat (s * 128 + i) (value &&& 0x0FFFFFFF) := by
  have first := view_write_fat geo d inside small existing value
  generalize patch (d (fatBase g + s)) (i * 4) (entryWord existing value) = x at first ⊢
  unfold mirrored copyWrites
  by_cases two : g.bpb.fatCount.toNat > 1
  · have last := view_write_copy geo (Function.update d (fatBase g + s) x) two inside x
    rw [first] at last
    have lands : land [(add32 fat32StartLba lba, x), (add32 fat32StartLba copy, x)] d =
        Function.update (Function.update d (fatBase g + s) x) (fatBase g + g.spf + s) x := by
      rw [land_sector, land_sector, geo.sectorAddr_eq primary, geo.sectorAddr_eq (second two), land_nil]
    rw [if_pos two]
    refine ⟨lands ▸ last, fun same _ t small => ?_, ?_, ?_⟩
    · rw [lands]
      by_cases here : t = s
      · subst here
        rw [Function.update_self, Function.update_of_ne (by omega), Function.update_self]
      · rw [Function.update_of_ne (by omega), Function.update_of_ne (by omega), Function.update_of_ne (by omega),
          Function.update_of_ne (by omega)]
        exact same two t small
    · refine .sector (.inl rfl) (.sector ?_ (.nil ?_))
      · rw [geo.sectorAddr_eq primary]
        exact .inr first
      · rw [geo.sectorAddr_eq primary, geo.sectorAddr_eq (second two)]
        exact .inr last
    · simp only [List.mem_cons, List.not_mem_nil, or_false]
      rintro w (rfl | rfl)
      · exact primary.within
      · exact (second two).within
  · have lands : land [(add32 fat32StartLba lba, x)] d = Function.update d (fatBase g + s) x := by
      rw [land_sector, geo.sectorAddr_eq primary, land_nil]
    rw [if_neg two]
    refine ⟨lands ▸ first, fun _ absent => absurd absent two, ?_, ?_⟩
    · refine .sector (.inl rfl) (.nil ?_)
      rw [geo.sectorAddr_eq primary]
      exact .inr first
    · simp only [List.mem_cons, List.not_mem_nil, or_false]
      rintro w rfl
      exact primary.within

theorem rawEntry_eq (d : Disk) {c : Nat} (high : c < limit) : rawEntry g d c = (view g limit d).fat c := by
  obtain ⟨sector, inside⟩ := geo.fatSector_eq high
  have covered := geo.covered
  rw [rawEntry, sector, geo.sectorAddr_eq (geo.sits_fat inside), fatOffset_eq, view_fat, if_pos (by omega), slot]

theorem stage_set (d : Disk) {c : Nat} (high : c < limit) (value : Nat) :
    Stage g limit d (setWrites g d c value) ((view g limit d).setFat c (value &&& 0x0FFFFFFF))
      fun u => u = view g limit d ∨ u = (view g limit d).setFat c (value &&& 0x0FFFFFFF) := by
  obtain ⟨sector, inside⟩ := geo.fatSector_eq high
  have stage := stage_entry geo d inside (Nat.mod_lt c (by decide)) (geo.sits_fat inside)
    (fun two => geo.sits_copy two inside) (word32 (bytes (d (fatBase g + c / 128))) (c % 128 * 4)) value
  rw [Nat.div_add_mod'] at stage
  rwa [setWrites, sector, geo.sectorAddr_eq (geo.sits_fat inside), fatOffset_eq]

end

/-! ### Freeing a chain -/

/-- A cluster number of a volume whose numbers lie below `limit`. -/
def Valid (limit c : Nat) : Prop := 2 ≤ c ∧ c < limit

/-- A FAT value that ends a chain. -/
def Final (c : Nat) : Prop := 0x0FFFFFF8 ≤ c

theorem Geometry.valid_isLink {g : Statics} {limit : Nat} (geo : Geometry g limit) {c : Nat} (valid : Valid limit c) :
    isLink c := by
  have := geo.limit_le
  obtain ⟨low, high⟩ := valid
  exact ⟨low, by omega⟩

theorem not_isLink_of_final {c : Nat} (final : Final c) : ¬isLink c := fun link => Nat.not_lt.mpr final link.2

theorem Geometry.valid_apart {g : Statics} {limit : Nat} (geo : Geometry g limit) (c : Nat) (valid : Valid limit c) :
    ¬Final c := fun final => not_isLink_of_final final (geo.valid_isLink valid)

/-- The volume with the entries of these clusters zeroed. -/
def View.freed (v : View) (ks : List Nat) : View := { v with fat := clear 0 ks v.fat }

@[simp] theorem View.freed_data (v : View) (ks : List Nat) : (v.freed ks).data = v.data := rfl

theorem View.freed_nil (v : View) : v.freed [] = v := by
  rw [View.freed, clear_nil]

theorem View.freed_cons (v : View) (c : Nat) (ks : List Nat) : v.freed (c :: ks) = (v.setFat c 0).freed ks := by
  rw [View.freed, clear_cons]
  rfl

theorem View.freed_eq_zero (v : View) (ks : List Nat) (c : Nat) : (v.freed ks).fat c = 0 ↔ v.fat c = 0 ∨ c ∈ ks := by
  simp only [View.freed, clear]
  by_cases member : c ∈ ks
  · simp only [member, ↓reduceIte, or_true]
  · simp only [member, ↓reduceIte, or_false]

/-- The volumes a stop while freeing can leave: a first part of the chain is free. -/
def PartlyFreed (v : View) (ks : List Nat) (u : View) : Prop := ∃ done rest, ks = done ++ rest ∧ u = v.freed done

/-- The writes that clear the entries of these clusters in turn. -/
def freeWrites (g : Statics) : Disk → List Nat → SectorWrites
  | _, [] => []
  | d, c :: ks => setWrites g d c 0 ++ freeWrites g (land (setWrites g d c 0) d) ks

section
variable {g : Statics} {limit : Nat} (geo : Geometry g limit)
include geo

theorem stage_free {ks : List Nat} (valid : ∀ k ∈ ks, Valid limit k) (d : Disk) :
    Stage g limit d (freeWrites g d ks) ((view g limit d).freed ks) (PartlyFreed (view g limit d) ks) := by
  induction ks generalizing d with
  | nil =>
    rw [View.freed_nil]
    exact .nil ⟨[], [], rfl, (View.freed_nil _).symm⟩
  | cons c ks ih =>
    obtain ⟨here, later⟩ := List.forall_mem_cons.mp valid
    have set := stage_set geo d here.2 0
    rw [Nat.zero_and] at set
    have rest := ih later (land (setWrites g d c 0) d)
    rw [set.lands] at rest
    rw [View.freed_cons, freeWrites]
    refine Stage.append (set.mono fun u => ?_) (rest.mono fun u => ?_)
    · rintro (rfl | rfl)
      · exact ⟨[], c :: ks, rfl, (View.freed_nil _).symm⟩
      · exact ⟨[c], ks, rfl, by rw [View.freed_cons, View.freed_nil]⟩
    · rintro ⟨done, left, rfl, rfl⟩
      exact ⟨c :: done, left, rfl, by rw [View.freed_cons]⟩

/-- Freeing walks the links the entries had before the walk. -/
theorem FreeWalk.of_chain {fat : Nat → Nat} {c : Nat} {ks : List Nat} (chain : Chain (Valid limit) Final fat c ks)
    (nodup : ks.Nodup) (d : Disk) (same : ∀ k ∈ ks, (view g limit d).fat k = fat k) :
    FreeWalk g d c (freeWrites g d ks) := by
  induction chain generalizing d with
  | stop final => exact .stop (not_isLink_of_final final)
  | @link c ks valid _ ih =>
    obtain ⟨fresh, nodup⟩ := List.nodup_cons.mp nodup
    obtain ⟨here, later⟩ := List.forall_mem_cons.mp same
    have set := stage_set geo d valid.2 0
    refine .link (geo.valid_isLink valid) ?_
    rw [rawEntry_eq geo _ valid.2, here]
    refine ih nodup _ fun k member => ?_
    -- the entries behind c keep their links while c's own is cleared
    have other : k ≠ c := fun same => fresh (same ▸ member)
    rw [set.lands, View.setFat_fat, Function.update_of_ne other, later k member]

end

/-! ### Taking a cluster -/

theorem findFree_finds {f : Nat → UInt8} {s i k : Nat} (inside : s * 128 + k < 2 ^ 32) (real : 2 ≤ s * 128 + k)
    (free : word32 f (k * 4) &&& 0x0FFFFFFF = 0) {rounds : Nat} (range : i ≤ k ∧ k < i + rounds)
    (before : ∀ j, i ≤ j → j < k → 2 ≤ s * 128 + j → word32 f (j * 4) &&& 0x0FFFFFFF ≠ 0) :
    findFree f s rounds i = some k := by
  induction rounds generalizing i with
  | zero => omega
  | succ rounds ih =>
    have number : add32 (mul32 s 128) i = s * 128 + i := by
      unfold add32 mul32
      omega
    rw [findFree, number]
    by_cases here : i = k
    · subst here
      rw [if_neg (by omega), if_pos free]
    · have next := ih (i := i + 1) (by omega) fun j low => before j (by omega)
      split
      · exact next
      · rw [if_neg (before i (Nat.le_refl i) (by omega) (by omega)), next]

theorem findFree_none {f : Nat → UInt8} {s i rounds : Nat}
    (used : ∀ j, i ≤ j → j < i + rounds → 2 ≤ s * 128 + j → word32 f (j * 4) &&& 0x0FFFFFFF ≠ 0) :
    findFree f s rounds i = none := by
  induction rounds generalizing i with
  | zero => rfl
  | succ rounds ih =>
    have next := ih (i := i + 1) fun j low high => used j (by omega) (by omega)
    rw [findFree]
    split
    · exact next
    · rename_i real
      unfold add32 mul32 at real
      rw [if_neg (used i (Nat.le_refl i) (by omega) (by omega)), next]

section
variable {g : Statics} {d : Disk} {entry : Nat → Nat} {n : Nat}
  (entries : ∀ {s i}, s < n → i < 128 →
    word32 (bytes (d (sectorAddr (add32 g.fatStart s)))) (i * 4) &&& 0x0FFFFFFF = entry (s * 128 + i))
include entries

/-- The search stops at the lowest free entry. -/
theorem searchFat_finds {c : Nat} (low : 2 ≤ c) (word : c < 2 ^ 32) (free : entry c = 0)
    (before : ∀ k, 2 ≤ k → k < c → entry k ≠ 0) {rounds s : Nat} (range : s * 128 ≤ c ∧ c < (s + rounds) * 128)
    (last : s + rounds ≤ n) : searchFat g d rounds s = some (c / 128, c % 128) := by
  induction rounds generalizing s with
  | zero => omega
  | succ rounds ih =>
    have entry (j : Nat) (small : j < 128) := entries (show s < n by omega) small
    rw [searchFat]
    by_cases here : c / 128 = s
    · have split : s * 128 + c % 128 = c := by omega
      rw [findFree_finds (k := c % 128) (by omega) (by omega) (by rw [entry _ (by omega), split, free]) (by omega)
        fun j _ small real => by
          rw [entry j (by omega)]
          exact before _ real (by omega), here]
    · rw [findFree_none fun j _ small real => by
        rw [entry j (by omega)]
        exact before _ real (by omega)]
      exact ih (by omega) (by omega)

theorem searchFat_none (used : ∀ k, 2 ≤ k → k < 128 * n → entry k ≠ 0) {rounds s : Nat}
    (last : s + rounds ≤ n) : searchFat g d rounds s = none := by
  induction rounds generalizing s with
  | zero => rfl
  | succ rounds ih =>
    rw [searchFat, findFree_none fun j _ small real => by
      rw [entries (show s < n by omega) (by omega)]
      exact used _ real (by omega)]
    exact ih (by omega)

end

section
variable {g : Statics} {limit : Nat} (geo : Geometry g limit) (d : Disk)
include geo

theorem slot_eq {s i : Nat} (inside : s < g.spf) (small : i < 128) :
    word32 (bytes (d (sectorAddr (add32 g.fatStart s)))) (i * 4) &&& 0x0FFFFFFF =
      (view g limit d).fat (s * 128 + i) := by
  rw [geo.sectorAddr_eq (geo.sits_fat inside), view_fat, if_pos (by omega), show (s * 128 + i) / 128 = s by omega,
    show (s * 128 + i) % 128 = i by omega, slot]

/-- Taking a cluster of the volume marks it the end of a chain. -/
theorem stage_alloc {c : Nat} (high : c < limit) :
    Stage g limit d (allocWrites g d (some (c / 128, c % 128))) ((view g limit d).setFat c 0x0FFFFFFF)
      fun u => u = view g limit d ∨ u = (view g limit d).setFat c 0x0FFFFFFF := by
  have covered := geo.covered
  have inside : c / 128 < g.spf := by omega
  have stage := stage_entry geo d inside (Nat.mod_lt c (by decide)) (geo.sits_fat inside)
    (fun two => geo.sits_copy' two inside) (word32 (bytes (d (fatBase g + c / 128))) (c % 128 * 4)) 0x0FFFFFFF
  rw [Nat.div_add_mod', Nat.and_self] at stage
  simpa only [allocWrites, geo.sectorAddr_eq (geo.sits_fat inside)] using stage

end

theorem allocResult_eq {c : Nat} (word : c < 2 ^ 32) : allocResult (some (c / 128, c % 128)) = c := by
  change add32 (mul32 (c / 128) 128) (c % 128) = c
  unfold add32 mul32
  omega

/-! ### Storing data -/

theorem bytes_piece (f : Nat → UInt8) (i : Nat) {k : Nat} (here : k / 512 = i) :
    bytes (piece f (i * 512)) (k % 512) = f k := by
  rw [bytes, dif_pos (Nat.mod_lt _ (by decide)), piece]
  congr 1
  simp only
  omega

section
variable {g : Statics} {limit : Nat} (geo : Geometry g limit) (d : Disk)
include geo

/-- Storing one sector of a cluster. -/
theorem stage_sector {c i : Nat} (valid : Valid limit c) (inside : i < g.spc) (f : Nat → UInt8) :
    Stage g limit d [(add32 fat32StartLba (add32 (clusterLba g c) i), piece f (i * 512))]
      ((view g limit d).setData c fun k => if k / 512 = i then f k else (view g limit d).data c k)
      fun u => u.fat = (view g limit d).fat ∧ ∀ c', c' ≠ c → u.data c' = (view g limit d).data c' := by
  have sits := geo.sits_cluster valid.1 valid.2 inside
  have stored := view_write_data geo d valid.1 valid.2 inside (piece f (i * 512))
  have filled : (fun k => if k / 512 = i then bytes (piece f (i * 512)) (k % 512) else (view g limit d).data c k) =
      fun k => if k / 512 = i then f k else (view g limit d).data c k := by
    funext k
    split
    · rename_i here
      exact bytes_piece f i here
    · rfl
  rw [filled] at stored
  have lands : land [(add32 fat32StartLba (add32 (clusterLba g c) i), piece f (i * 512))] d =
      Function.update d (clusterAddr g c i) (piece f (i * 512)) := by
    rw [land_sector, geo.sectorAddr_eq sits, land_nil]
  refine ⟨lands ▸ stored, fun same => ?_, .sector ⟨rfl, fun _ _ => rfl⟩ (.nil ?_), ?_⟩
  · rw [lands]
    exact Mirrored.write_data geo d same _
  · rw [geo.sectorAddr_eq sits, stored]
    exact ⟨rfl, fun c' other => Function.update_of_ne other _ _⟩
  · simp only [List.mem_cons, List.not_mem_nil, or_false]
    rintro w rfl
    exact sits.within

/-- Storing the first sectors of a cluster. -/
theorem stage_run {c n : Nat} (valid : Valid limit c) (inside : n ≤ g.spc) (f : Nat → UInt8) :
    Stage g limit d (runWrites (clusterLba g c) f n)
      ((view g limit d).setData c fun k => if k / 512 < n then f k else (view g limit d).data c k)
      fun u => u.fat = (view g limit d).fat ∧ ∀ c', c' ≠ c → u.data c' = (view g limit d).data c' := by
  induction n with
  | zero =>
    have same : (view g limit d).setData c (fun k => if k / 512 < 0 then f k else (view g limit d).data c k) =
        view g limit d := by
      simp [View.setData]
    rw [same]
    exact .nil ⟨rfl, fun _ _ => rfl⟩
  | succ n ih =>
    have front := ih (by omega)
    have last := stage_sector geo (land (runWrites (clusterLba g c) f n) d) valid (show n < g.spc by omega) f
    rw [front.lands] at last
    have joined : (View.setData ((view g limit d).setData c fun k =>
          if k / 512 < n then f k else (view g limit d).data c k) c fun k =>
        if k / 512 = n then f k else ((view g limit d).setData c fun k =>
          if k / 512 < n then f k else (view g limit d).data c k).data c k) =
        (view g limit d).setData c fun k => if k / 512 < n + 1 then f k else (view g limit d).data c k := by
      refine View.ext rfl ?_
      simp only [View.setData_data, Function.update_self, Function.update_idem]
      congr 1
      funext k
      by_cases before : k / 512 < n
      · rw [if_neg (by omega), if_pos before, if_pos (by omega)]
      · by_cases here : k / 512 = n
        · rw [if_pos here, if_pos (by omega)]
        · rw [if_neg here, if_neg before, if_neg (by omega)]
    rw [joined] at last
    rw [runWrites, List.range_succ, List.map_append]
    refine Stage.append front (last.mono fun u => ?_)
    rintro ⟨fat, others⟩
    refine ⟨fat, fun c' other => ?_⟩
    rw [others c' other, View.setData_data, Function.update_of_ne other]

/-- Storing a whole cluster. -/
theorem stage_cluster {c : Nat} (valid : Valid limit c) (f : Nat → UInt8) :
    Stage g limit d (runWrites (clusterLba g c) f g.spc)
      ((view g limit d).setData c fun k => if k < g.clusterSize then f k else 0)
      fun u => u.fat = (view g limit d).fat ∧ ∀ c', c' ≠ c → u.data c' = (view g limit d).data c' := by
  have whole : (fun k => if k / 512 < g.spc then f k else (view g limit d).data c k) =
      fun k => if k < g.clusterSize then f k else 0 := by
    have size : g.clusterSize = g.spc * 512 := rfl
    funext k
    by_cases inside : k < g.clusterSize
    · rw [if_pos inside, if_pos (by omega)]
    · rw [if_neg inside, if_neg (by omega), view_data, if_neg (by omega)]
  exact whole ▸ stage_run geo d valid (Nat.le_refl _) f

/-- Flushing the sector of a directory buffer in which it differs from the disk. -/
theorem stage_flush {off : Nat} (inside : off < g.clusterSize) (f : Nat → UInt8)
    (loaded : ∀ k, k < g.clusterSize → k / 512 ≠ off / 512 → f k = (view g limit d).data g.rootCluster k) :
    Stage g limit d (dirWrites g off f)
      ((view g limit d).setData g.rootCluster fun k => if k < g.clusterSize then f k else 0)
      fun u => u = view g limit d ∨
        u = (view g limit d).setData g.rootCluster fun k => if k < g.clusterSize then f k else 0 := by
  have size : g.clusterSize = g.spc * 512 := rfl
  have stage := stage_sector geo d geo.root (show off / 512 < g.spc by omega) f
  have whole : (fun k => if k / 512 = off / 512 then f k else (view g limit d).data g.rootCluster k) =
      fun k => if k < g.clusterSize then f k else 0 := by
    funext k
    by_cases small : k < g.clusterSize
    · rw [if_pos small]
      split
      · rfl
      · exact (loaded k small ‹_›).symm
    · rw [if_neg small, if_neg (by omega), view_data, if_neg (by omega)]
  rw [whole] at stage
  have moved := stage.lands
  refine { stage with along := .sector (.inl rfl) (.nil (.inr ?_)) }
  rwa [land_sector, land_nil] at moved

end

end ChrisOS.Fs.Fat32
