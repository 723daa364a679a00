import ChrisOS.Fs.Fat32.Runs

/-! The driver after fat32_init rejected the boot sector: the BPB is in place and the
three positions are zero. No operation asks whether a volume was mounted, so what a
call does is decided by the bytes on disk alone.
-/

set_option autoImplicit false

namespace ChrisOS.Fs.Fat32
open ChrisOS.Lib ChrisOS.Drivers.Ata

/-- The BPB in the first sector of the volume. -/
def bootBpb (d : Disk) : Bpb := loadBpb (bytes (d (sectorAddr 0)))

theorem loadBpb_congr {f h : Nat → UInt8} (same : ∀ k, k < 512 → f k = h k) : loadBpb f = loadBpb h := by
  have word (off : Nat) (inside : off ≤ 508) : word32 f off = word32 h off := word32_congr fun k _ => same _ (by omega)
  have half : word16 f 14 = word16 h 14 := word16_congr fun k _ => same _ (by omega)
  simp only [loadBpb, half, word 32 (by decide), word 36 (by decide), word 44 (by decide), same 13 (by decide),
    same 16 (by decide), same 66 (by decide)]

theorem fat32Init_does {e : Env} (reliable : Reliable e) {m : Machine} :
    Does e m (fun _ => fat32Init) [] fun g => g = mount (bootBpb m.disk) := by
  refine loadSector_does reliable 0 fun b m' _ held => ?_
  rw [loadBpb_congr held]
  refine Does.after (kfree_does b) fun _ _ _ _ => ?_
  split
  · exact Does.after (terminalWritestring_does _) fun _ _ _ _ => Does.pure rfl
  · exact Does.after (terminalWritestring_does _) fun _ _ _ _ => Does.pure rfl

/-- The driver finds nothing to do: no file of the name or one too many, no room in the
directory, data too large, or no free FAT entry and no old chain to free. -/
def Declined (g : Statics) (d : Disk) : Call → Prop
  | .create name => (lookup g d (nameToFat83 name)).1 ≠ none ∨ (lookup g d (nameToFat83 name)).2 = none
  | .delete name => (lookup g d (nameToFat83 name)).1 = none
  | .write name data => g.clusterSize < data.length ∨ lookup g d (nameToFat83 name) = (none, none) ∨
      (data ≠ [] ∧ searchFat g d g.spf 0 = none ∧
        ∀ off, (lookup g d (nameToFat83 name)).1 = some off → ¬isLink (entryCluster (rootBytes g d) off))

theorem mirrored_ne_nil (g : Statics) (lba copy : Nat) (s : Sector) : mirrored g lba copy s ≠ [] := List.cons_ne_nil _ _

theorem FreeWalk.eq_nil_iff {g : Statics} {d : Disk} {cluster : Nat} {ws : SectorWrites}
    (walk : FreeWalk g d cluster ws) : ws = [] ↔ ¬isLink cluster := by
  cases walk with
  | stop last => exact iff_of_true rfl last
  | link link rest => exact iff_of_false (List.append_ne_nil_of_left_ne_nil (mirrored_ne_nil _ _ _ _) _) (not_not.mpr link)

theorem Places.eq_nil_iff {g : Statics} {d : Disk} {fatname : FatName} {off : Nat} {ws : SectorWrites}
    (place : Places g d fatname off ws) :
    ws = [] ↔ ∀ o, (lookup g d fatname).1 = some o → ¬isLink (entryCluster (rootBytes g d) o) := by
  cases place with
  | own found walk =>
    rw [walk.eq_nil_iff, found]
    exact ⟨fun last o same => Option.some.inj same ▸ last, fun last => last _ rfl⟩
  | free found =>
    rw [found]
    exact iff_of_true rfl fun _ none => nomatch none

theorem Places.found {g : Statics} {d : Disk} {fatname : FatName} {off : Nat} {ws : SectorWrites}
    (place : Places g d fatname off ws) : lookup g d fatname ≠ (none, none) := by
  cases place with
  | own found _ => simp [found]
  | free found => simp [found]

/-- A call that does something writes the directory, or frees a cluster before it fails. -/
theorem Acts.idle_iff {g : Statics} {d : Disk} {call : Call} {r : Nat} {ws : SectorWrites} (acts : Acts g d call r ws) :
    (r = 0 ∧ ws = []) ↔ Declined g d call := by
  cases acts with
  | taken found => simp [Declined, found]
  | noRoom found => simp [Declined, found]
  | creates found => simp [Declined, found]
  | missing found => simp [Declined, found]
  | deletes found _ => simp [Declined, found]
  | large oversize => simp [Declined, oversize]
  | noPlace _ found => simp [Declined, found]
  | writes fits place stores =>
    have small : ¬g.clusterSize < _ := Nat.not_lt.mpr fits
    simp only [Declined, small, place.found, false_or]
    cases stores with
    | bare empty => simp [empty]
    | full nonempty none =>
      rw [List.append_nil, ← place.eq_nil_iff]
      constructor
      · rintro ⟨-, rfl⟩
        exact ⟨nonempty, none, rfl⟩
      · rintro ⟨-, -, nothing⟩
        exact ⟨rfl, nothing⟩
    | filled nonempty found =>
      rw [← place.eq_nil_iff]
      refine iff_of_false (fun zero => absurd zero.1 (by decide)) ?_
      rintro ⟨-, none, rfl⟩
      rw [land_nil, none] at found
      cases found

/-- A sequence of calls that writes nothing and returns zeros is one of calls declined on
the disk it starts with. -/
theorem runCalls_idle_iff (bpb : Bpb) {e : Env} (reliable : Reliable e) (calls : List Call) (m : Machine) :
    ∃ rs ws, Does e m (fun n => runCalls (mount bpb) n calls) ws (fun x => x = rs) ∧
      ((∀ r ∈ rs, r = 0) ∧ ws = [] ↔ ∀ call ∈ calls, Declined (mount bpb) m.disk call) := by
  induction calls generalizing m with
  | nil => exact ⟨[], [], Does.pure rfl, by simp⟩
  | cons call calls ih =>
    obtain ⟨r, ws, acts⟩ := acts_exists bpb m.disk call
    obtain ⟨x, m', ran, effect, rfl⟩ := call_does reliable acts
    obtain ⟨rs, vs, ⟨y, m'', ran', effect', rfl⟩, rest⟩ := ih m'
    refine ⟨x :: y, ws ++ vs, ⟨x :: y, m'', ?_, effect.trans effect', rfl⟩, ?_⟩
    · exact Returns.bind ran (Returns.bind ran' (.of_all fun _ => rfl))
    rw [List.forall_mem_cons, List.forall_mem_cons, List.append_eq_nil_iff, ← acts.idle_iff]
    constructor
    · rintro ⟨⟨zero, zeros⟩, rfl, rfl⟩
      have disk : m'.disk = m.disk := effect.disk
      exact ⟨⟨zero, rfl⟩, disk ▸ rest.mp ⟨zeros, rfl⟩⟩
    · rintro ⟨⟨zero, rfl⟩, declined⟩
      have disk : m'.disk = m.disk := effect.disk
      obtain ⟨zeros, none⟩ := rest.mpr (disk ▸ declined)
      exact ⟨⟨zero, zeros⟩, rfl, none⟩

/-- fat32_init, then a sequence of calls. -/
def session (budget : Nat) (calls : List Call) : Kern (List Nat) := do
  let g ← fat32Init
  runCalls g budget calls

theorem session_idle_iff {e : Env} (reliable : Reliable e) (calls : List Call) (m : Machine) :
    ∃ rs ws, Does e m (fun n => session n calls) ws (fun x => x = rs) ∧
      ((∀ r ∈ rs, r = 0) ∧ ws = [] ↔ ∀ call ∈ calls, Declined (mount (bootBpb m.disk)) m.disk call) := by
  obtain ⟨g, m', ran, effect, rfl⟩ := fat32Init_does reliable (m := m)
  have disk : m'.disk = m.disk := effect.disk
  obtain ⟨rs, ws, ⟨x, m'', ran', effect', same⟩, idle⟩ := runCalls_idle_iff (bootBpb m.disk) reliable calls m'
  rw [disk] at idle
  exact ⟨rs, ws, ⟨x, m'', Returns.bind ran ran', effect.trans effect', same⟩, idle⟩

/-- After a boot sector that fat32_init rejects, a sequence of calls writes no sector and
returns zeros exactly if the driver declines each of the calls on the disk as it is. -/
theorem rejected_session_idle_iff {e : Env} (reliable : Reliable e) {m : Machine}
    (rejected : (bootBpb m.disk).accepted = false) (calls : List Call) :
    ∃ rs m', Returns (fun n => session n calls e m) (rs, m') ∧
      ((∀ r ∈ rs, r = 0) ∧ writesOf m'.log = writesOf m.log ↔
        ∀ call ∈ calls, Declined ⟨bootBpb m.disk, 0, 0, 0⟩ m.disk call) := by
  have statics : mount (bootBpb m.disk) = ⟨bootBpb m.disk, 0, 0, 0⟩ := by simp [mount, rejected]
  obtain ⟨rs, ws, ⟨x, m', ran, effect, rfl⟩, idle⟩ := session_idle_iff reliable calls m
  rw [statics] at idle
  refine ⟨x, m', ran, ?_⟩
  rw [effect.log, List.append_right_eq_self]
  exact idle

/-- A boot sector of zeros but for one sector a cluster, and zeros everywhere else. -/
def blankDisk : Disk := fun a i => if a = 20480 ∧ i.val = 13 then 1 else 0

theorem blank_rejected : (bootBpb blankDisk).accepted = false := by decide

theorem blank_lookup : lookup ⟨bootBpb blankDisk, 0, 0, 0⟩ blankDisk (nameToFat83 [0x61]) = (none, some 0) := by
  decide

/-- Creating a file after a rejected boot sector writes a sector and reports success. -/
theorem rejected_session_writes : ¬∀ (e : Env) (m m' : Machine) (calls : List Call) (rs : List Nat), Reliable e →
    (bootBpb m.disk).accepted = false → Returns (fun n => session n calls e m) (rs, m') →
    (∀ r ∈ rs, r = 0) ∧ writesOf m'.log = writesOf m.log := by
  intro all
  obtain ⟨rs, ws, ⟨x, m', ran, effect, rfl⟩, idle⟩ :=
    session_idle_iff steadyEnv_reliable [.create [0x61]] ⟨blankDisk, []⟩
  obtain ⟨zeros, same⟩ := all steadyEnv _ m' [.create [0x61]] x steadyEnv_reliable blank_rejected ran
  rw [effect.log, List.append_right_eq_self] at same
  have declined := idle.mp ⟨zeros, same⟩ _ (.head _)
  have statics : mount (bootBpb blankDisk) = ⟨bootBpb blankDisk, 0, 0, 0⟩ := by simp [mount, blank_rejected]
  rw [statics] at declined
  simp only [Declined, blank_lookup] at declined
  simp at declined

theorem rejected_session_idle_iff_blank :
    ∃ rs m', Returns (fun n => session n [.delete [0x61]] steadyEnv ⟨blankDisk, []⟩) (rs, m') ∧
      ((∀ r ∈ rs, r = 0) ∧ writesOf m'.log = writesOf [] ↔
        ∀ call ∈ [Call.delete [0x61]], Declined ⟨bootBpb blankDisk, 0, 0, 0⟩ blankDisk call) :=
  rejected_session_idle_iff (m := ⟨blankDisk, []⟩) steadyEnv_reliable blank_rejected [.delete [0x61]]

end ChrisOS.Fs.Fat32
