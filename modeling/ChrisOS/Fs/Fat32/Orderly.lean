import ChrisOS.Fs.Fat32.Refusals

/-! Any call on a volume in order but for the names in its directory. The call does
nothing or replaces one entry, also when its name starts with the mark of deleted entries.
-/

set_option autoImplicit false

namespace ChrisOS.Fs.Fat32
open ChrisOS.Lib ChrisOS.Lib.Chains ChrisOS.Drivers.Ata

theorem nameToFat83_ne_zero (name : List UInt8) : nameToFat83 name 0 ≠ 0x00 := by
  rcases nameToFat83_first name with space | ⟨c, -, nonzero, letter⟩
  · rw [space]
    decide
  · exact fun zero => nonzero (upper_eq_zero (letter.symm.trans zero))

theorem Call.fatname_ne_zero (call : Call) : call.fatname 0 ≠ 0x00 := by
  cases call <;> exact nameToFat83_ne_zero _

/-- What a call that writes does to the volume: the entry its search ended at is marked
deleted, or holds the name with the attribute of a file. -/
structure Alters (g : Statics) (limit : Nat) (d : Disk) (call : Call) (ws : SectorWrites) (off : Nat) (old new : List Nat) :
    Prop where
  found : (lookup g d call.fatname).1 = some off ∨ lookup g d call.fatname = (none, some off)
  replaces : Replaces g limit (view g limit d) (view g limit (land ws d)) off old new
  removed : call.content = none → (view g limit (land ws d)).dir g off = 0xE5
  stored : call.content ≠ none → nameAt ((view g limit (land ws d)).dir g) off = call.fatname ∧
    (view g limit (land ws d)).dir g (off + 11) = 0x20

/-- The entry that a search ends at, with the clusters it holds. -/
structure Spot (g : Statics) (limit : Nat) (d : Disk) (fatname : FatName) (off : Nat) (old : List Nat) : Prop where
  found : (lookup g d fatname).1 = some off ∨ lookup g d fatname = (none, some off)
  slot : Slot g.clusterSize off
  before : ∀ o, o < off → Slot g.clusterSize o → (view g limit d).dir g o ≠ 0
  held : Owns g limit (view g limit d) off old ∨ (Unused ((view g limit d).dir g) off ∧ old = [])

theorem Spot.valid {g : Statics} {limit : Nat} {d : Disk} {fatname : FatName} {off : Nat} {old : List Nat}
    (spot : Spot g limit d fatname off old) : ∀ c ∈ old, Valid limit c := by
  rcases spot.held with owns | ⟨-, rfl⟩
  · exact owns.chain.members
  · exact fun _ member => absurd member List.not_mem_nil

theorem Spot.root_kept {g : Statics} {limit : Nat} {d : Disk} {fatname : FatName} {off : Nat} {old : List Nat}
    (spot : Spot g limit d fatname off old) (wf : Orderly g limit (view g limit d)) : g.rootCluster ∉ old := by
  rcases spot.held with owns | ⟨-, rfl⟩
  · exact wf.apart off old owns
  · exact List.not_mem_nil

section
variable {g : Statics} {limit : Nat} (geo : Geometry g limit) {d : Disk}
include geo

theorem spot_free {fatname : FatName} {off : Nat} (found : lookup g d fatname = (none, some off)) :
    Spot g limit d fatname off [] := by
  have room := found
  rw [lookup_eq geo] at room
  have first := findDirEntry_room (clusterSize_whole g) room
  exact ⟨.inr found, first.slot, fun o earlier slot zero => first.first o earlier slot (.inl zero), .inr ⟨first.unused, rfl⟩⟩

theorem spot_own (wf : Orderly g limit (view g limit d)) {fatname : FatName} {off : Nat}
    (found : (lookup g d fatname).1 = some off) {ws : SectorWrites}
    (walk : FreeWalk g d (entryCluster (rootBytes g d) off) ws) :
    ∃ old, Spot g limit d fatname off old ∧ ws = freeWrites g d old := by
  have listed := (lookup_listed geo (Prod.ext found rfl)).1
  obtain ⟨old, owns⟩ := wf.chained off listed.live
  rw [(rootBytes_entry geo d listed.live.slot).entryCluster] at walk
  exact ⟨old, ⟨.inl found, listed.live.slot, listed.reached, .inl owns⟩, walk.unique (owns.chain.walk geo d)⟩

variable (call : Call) {off : Nat} {old new : List Nat} {ws : SectorWrites}
  (spot : Spot g limit d call.fatname off old)
include spot

omit geo in
/-- What a rewriting of the view replaces, if the directory differs at the spot only. -/
theorem replaces_rewrite {v' : View} {bytes fill : Nat → UInt8} (lands : v' = (view g limit d).rewrite g bytes old new fill)
    (fresh : ∀ c ∈ new, Valid limit c ∧ ((view g limit d).fat c = 0 ∨ c ∈ old))
    (outside : ∀ k, k < off ∨ off + 32 ≤ k → bytes k = (view g limit d).dir g k)
    (entry : bytes off = 0xE5 ∨ Owns g limit v' off new) : Replaces g limit (view g limit d) v' off old new := by
  have dir : v'.dir g = bytes := by rw [lands, View.rewrite_dir]
  constructor
  case slot => exact spot.slot
  case before => exact spot.before
  case held => exact spot.held
  case fat => exact fun c => by rw [lands]; rfl
  case fresh => exact fresh
  case data =>
    intro c notNew notRoot
    simp only [lands, View.rewrite, notRoot, notNew, ↓reduceIte]
  case dir =>
    rw [dir]
    exact outside
  case entry =>
    rw [dir]
    exact entry

theorem alters_stored {data : List UInt8} (content : call.content = some data) {start : Nat}
    (taken : Taken limit (view g limit d) old start new)
    (lands : view g limit (land ws d) = (view g limit d).rewrite g
      (entryAt ((view g limit d).dir g) off call.fatname start data.length) old new (Call.memory data)) :
    Alters g limit d call ws off old new := by
  have stored : (view g limit (land ws d)).dir g =
      entryAt ((view g limit d).dir g) off call.fatname start data.length := by rw [lands, View.rewrite_dir]
  refine ⟨spot.found, ?_, fun none => (nomatch content.symm.trans none), fun _ => ?_⟩
  · refine replaces_rewrite call spot lands taken.fresh (fun k outside => entryAt_outside _ _ _ _ _ outside) ?_
    by_cases deleted : call.fatname 0 = 0xE5
    · left
      rw [entryAt_first, deleted]
    · right
      constructor
      · rw [stored]
        refine ⟨spot.slot, ?_, ?_⟩
        · rw [Unused, entryAt_first]
          exact not_or.mpr ⟨call.fatname_ne_zero, deleted⟩
        · rw [entryAt_attributes]
          decide
      · rw [stored, entryCluster_entryAt _ _ _ (taken.start_lt geo), lands]
        exact taken.chain _ _
  · rw [stored]
    exact ⟨nameAt_entryAt _ _ _ _ _, entryAt_attributes _ _ _ _ _⟩

omit geo in
theorem alters_marked (content : call.content = none)
    (lands : view g limit (land ws d) = (view g limit d).rewrite g
      (Function.update ((view g limit d).dir g) off 0xE5) old [] fun _ => 0) : Alters g limit d call ws off old [] := by
  refine ⟨spot.found, ?_, fun _ => ?_, fun some => absurd content some⟩
  · refine replaces_rewrite call spot lands (fun _ member => absurd member List.not_mem_nil) (fun k outside => ?_) (.inl ?_)
    · rw [Function.update_of_ne (by omega)]
    · rw [Function.update_self]
  · rw [lands, View.rewrite_dir, Function.update_self]

end

section
variable {g : Statics} (geo : Geometry g (128 * g.spf)) {d : Disk}
  (wf : Orderly g (128 * g.spf) (view g (128 * g.spf) d))
include geo wf

/-- A write from the point where its place is known. -/
theorem Stores.alters {name data : List UInt8} (fits : data.length ≤ g.clusterSize) {off r : Nat} {old : List Nat}
    {vs : SectorWrites} (spot : Spot g (128 * g.spf) d (nameToFat83 name) off old)
    (stores : Stores g d (land (freeWrites g d old) d) (nameToFat83 name) data off r vs) :
    (r = 0 ∧ freeWrites g d old ++ vs = []) ∨
      (r = 1 ∧ ∃ new, Alters g (128 * g.spf) d (.write name data) (freeWrites g d old ++ vs) off old new) := by
  have past := fun k => view_past g (128 * g.spf) d (k := k)
  have freed := (stage_free geo spot.valid d).lands
  cases stores with
  | bare empty =>
    subst empty
    have stage := stage_bare geo spot.slot past (nameToFat83 name) freed
    rw [← storeWrites_eq geo d spot.slot] at stage
    have lands := stage.lands
    rw [← land_append] at lands
    exact .inr ⟨rfl, [], alters_stored geo (.write name []) spot rfl .none lands⟩
  | full nonempty none =>
    -- a cluster just freed would have been found
    obtain rfl : old = [] := by
      refine List.eq_nil_iff_forall_not_mem.mpr fun c member => ?_
      have zero : (view g (128 * g.spf) (land (freeWrites g d old) d)).fat c = 0 := by
        rw [freed, View.freed_eq_zero]
        exact .inr member
      obtain ⟨taken, -, -, some⟩ := searchFat_takes geo _ ⟨c, spot.valid c member, zero⟩
      cases none.symm.trans some
    exact .inl ⟨rfl, rfl⟩
  | @filled s i nonempty found =>
    have supply : ∃ c, Valid (128 * g.spf) c ∧ (view g (128 * g.spf) (land (freeWrites g d old) d)).fat c = 0 := by
      by_contra none
      have full : DiskFull (128 * g.spf) (view g (128 * g.spf) (land (freeWrites g d old) d)) :=
        fun c valid zero => none ⟨c, valid, zero⟩
      cases (searchFat_full geo rfl _ full).symm.trans found
    obtain ⟨c, valid, zero, some⟩ := searchFat_takes geo _ supply
    cases found.symm.trans some
    rw [freed, View.freed_eq_zero] at zero
    have notRoot : c ≠ g.rootCluster := by
      rintro rfl
      exact zero.elim wf.root_used (spot.root_kept wf)
    have result := allocResult_eq (show c < 2 ^ 32 by
      have := geo.limit_le
      have := valid.2
      omega)
    have stage := stage_filled geo spot.slot past (nameToFat83 name) freed fits valid notRoot
    rw [← storeWrites_eq geo d spot.slot] at stage
    have lands := stage.lands
    rw [← land_append] at lands
    rw [result]
    exact .inr ⟨rfl, [c], alters_stored geo (.write name data) spot rfl (.one valid zero) lands⟩

/-- Every call is refused, and writes nothing, or replaces the entry its search ended at. -/
theorem Acts.alters {call : Call} {r : Nat} {ws : SectorWrites} (acts : Acts g d call r ws) :
    (r = 0 ∧ ws = []) ∨ (r = 1 ∧ ∃ off old new, Alters g (128 * g.spf) d call ws off old new) := by
  cases acts with
  | taken _ => exact .inl ⟨rfl, rfl⟩
  | noRoom _ => exact .inl ⟨rfl, rfl⟩
  | missing _ => exact .inl ⟨rfl, rfl⟩
  | large _ => exact .inl ⟨rfl, rfl⟩
  | noPlace _ _ => exact .inl ⟨rfl, rfl⟩
  | @creates name off found =>
    have spot := spot_free geo found
    have stage := stage_bare geo spot.slot (d := d) (fun k => view_past g (128 * g.spf) d) (nameToFat83 name)
      (View.freed_nil _).symm
    rw [← storeWrites_eq geo d spot.slot] at stage
    exact .inr ⟨rfl, off, [], [], alters_stored geo (.create name) spot rfl .none stage.lands⟩
  | @deletes name off ws found walk =>
    obtain ⟨old, spot, rfl⟩ := spot_own geo wf found walk
    have stage := stage_marked geo spot.slot d spot.valid
    rw [← markWrites_eq geo d spot.slot] at stage
    exact .inr ⟨rfl, off, old, [], alters_marked (.delete name) spot rfl stage.lands⟩
  | @writes name data off r ws vs fits place stores =>
    have spotted : ∃ old, Spot g (128 * g.spf) d (nameToFat83 name) off old ∧ ws = freeWrites g d old := by
      cases place with
      | own found walk => exact spot_own geo wf (congrArg Prod.fst found) walk
      | free found => exact ⟨[], spot_free geo found, rfl⟩
    obtain ⟨old, spot, rfl⟩ := spotted
    refine (stores.alters geo wf fits spot).imp_right fun ⟨one, new, alters⟩ => ?_
    exact ⟨one, off, old, new, alters⟩

theorem Acts.orderly {call : Call} {r : Nat} {ws : SectorWrites} (acts : Acts g d call r ws) :
    Orderly g (128 * g.spf) (view g (128 * g.spf) (land ws d)) := by
  rcases acts.alters geo wf with ⟨-, rfl⟩ | ⟨-, off, old, new, alters⟩
  · exact wf
  · exact alters.replaces.orderly wf geo.valid_apart

end

end ChrisOS.Fs.Fat32
