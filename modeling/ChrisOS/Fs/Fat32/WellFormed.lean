import ChrisOS.Fs.Fat32.Directory
import ChrisOS.Fs.Fat32.Stages

/-! Well-formed volumes, and what rewriting one directory entry together with its
chain leaves of them.
-/

set_option autoImplicit false

namespace ChrisOS.Fs.Fat32
open ChrisOS.Lib ChrisOS.Lib.Chains ChrisOS.Drivers.Ata

/-- The clusters of a file by its start cluster: none for 0. -/
inductive FileChain (limit : Nat) (fat : Nat → Nat) : Nat → List Nat → Prop where
  | empty : FileChain limit fat 0 []
  | chain {start : Nat} {ks : List Nat} : Valid limit start → Chain (Valid limit) Final fat start ks →
      FileChain limit fat start ks

theorem Chain.used {limit start : Nat} {fat : Nat → Nat} {ks : List Nat}
    (chain : Chain (Valid limit) Final fat start ks) : ∀ c ∈ ks, fat c ≠ 0 := by
  intro c member zero
  obtain ⟨before, after, rfl⟩ := List.append_of_mem member
  cases chain.suffix with
  | link _ rest =>
    rw [zero] at rest
    cases rest with
    | stop final => exact absurd final (Nat.not_le_of_lt (by decide))
    | link valid _ => exact absurd valid.1 (by decide)

namespace FileChain
variable {limit start : Nat} {fat : Nat → Nat} {ks js : List Nat}

theorem members (chain : FileChain limit fat start ks) : ∀ c ∈ ks, Valid limit c := by
  cases chain with
  | empty => exact fun _ member => absurd member List.not_mem_nil
  | chain _ chain => exact chain.members

/-- Every cluster of a file is marked used. -/
theorem used (chain : FileChain limit fat start ks) : ∀ c ∈ ks, fat c ≠ 0 := by
  cases chain with
  | empty => exact fun _ member => absurd member List.not_mem_nil
  | chain _ chain => exact Chain.used chain

theorem congr {other : Nat → Nat} (chain : FileChain limit fat start ks) (same : ∀ c ∈ ks, other c = fat c) :
    FileChain limit other start ks := by
  cases chain with
  | empty => exact .empty
  | chain valid chain => exact .chain valid (chain.congr same)

theorem unique (apart : ∀ c, Valid limit c → ¬Final c) (left : FileChain limit fat start ks)
    (right : FileChain limit fat start js) : ks = js := by
  cases left with
  | empty =>
    cases right with
    | empty => rfl
    | chain valid _ => exact absurd valid.1 (by decide)
  | chain valid chain =>
    cases right with
    | empty => exact absurd valid.1 (by decide)
    | chain _ other => exact chain.unique apart other

theorem nodup (apart : ∀ c, Valid limit c → ¬Final c) (chain : FileChain limit fat start ks) : ks.Nodup := by
  cases chain with
  | empty => exact List.nodup_nil
  | chain _ chain => exact chain.nodup apart

end FileChain

section
variable (g : Statics) (limit : Nat)

/-- The bytes of the root directory. -/
def View.dir (v : View) : Nat → UInt8 := v.data g.rootCluster

/-- The file with its entry at an offset holds exactly these clusters. -/
structure Owns (v : View) (off : Nat) (ks : List Nat) : Prop where
  live : Live (v.dir g) g.clusterSize off
  chain : FileChain limit v.fat (entryCluster (v.dir g) off) ks

structure WellFormed (v : View) : Prop where
  root_used : v.fat g.rootCluster ≠ 0
  ended : Ended (v.dir g) g.clusterSize
  chained : ∀ off, Live (v.dir g) g.clusterSize off → ∃ ks, Owns g limit v off ks
  distinct : ∀ off off', Live (v.dir g) g.clusterSize off → Live (v.dir g) g.clusterSize off' →
    nameAt (v.dir g) off = nameAt (v.dir g) off' → off = off'
  disjoint : ∀ off off' ks ks', Owns g limit v off ks → Owns g limit v off' ks' → off ≠ off' → ks.Disjoint ks'
  apart : ∀ off ks, Owns g limit v off ks → g.rootCluster ∉ ks

/-- A volume in order but for the names in its directory, which may repeat. -/
structure Orderly (v : View) : Prop where
  root_used : v.fat g.rootCluster ≠ 0
  ended : Ended (v.dir g) g.clusterSize
  chained : ∀ off, Live (v.dir g) g.clusterSize off → ∃ ks, Owns g limit v off ks
  disjoint : ∀ off off' ks ks', Owns g limit v off ks → Owns g limit v off' ks' → off ≠ off' → ks.Disjoint ks'
  apart : ∀ off ks, Owns g limit v off ks → g.rootCluster ∉ ks

/-- Every cluster marked used is the root directory's or belongs to exactly one file. -/
def NoLost (v : View) : Prop := ∀ c, Valid limit c → v.fat c ≠ 0 →
  c = g.rootCluster ∨ ∃! off, ∃ ks, Owns g limit v off ks ∧ c ∈ ks

/-- Every size is below 2^31 and fits the file's clusters. -/
def Sized (v : View) : Prop := ∀ off ks, Owns g limit v off ks →
  entrySize (v.dir g) off < 2 ^ 31 ∧ entrySize (v.dir g) off ≤ ks.length * g.clusterSize

/-- `v'` is `v` with one entry marked deleted or stored anew, the clusters it had freed,
and other clusters taken from the free ones. -/
structure Replaces (v v' : View) (off : Nat) (old new : List Nat) : Prop where
  slot : Slot g.clusterSize off
  before : ∀ o, o < off → Slot g.clusterSize o → v.dir g o ≠ 0
  held : Owns g limit v off old ∨ (Unused (v.dir g) off ∧ old = [])
  fat : ∀ c, v'.fat c = if c ∈ new then 0x0FFFFFFF else if c ∈ old then 0 else v.fat c
  fresh : ∀ c ∈ new, Valid limit c ∧ (v.fat c = 0 ∨ c ∈ old)
  data : ∀ c, c ∉ new → c ≠ g.rootCluster → v'.data c = v.data c
  dir : ∀ k, k < off ∨ off + 32 ≤ k → v'.dir g k = v.dir g k
  entry : v'.dir g off = 0xE5 ∨ Owns g limit v' off new

/-- `v'` is `v` with one entry rewritten, the clusters it had freed, and its new
clusters taken from the free ones. -/
structure Rewrites (v v' : View) (off : Nat) (old new : List Nat) : Prop where
  slot : Slot g.clusterSize off
  before : ∀ o, o < off → Slot g.clusterSize o → v.dir g o ≠ 0
  held : Owns g limit v off old ∨ (Unused (v.dir g) off ∧ old = [])
  fat : ∀ c, v'.fat c = if c ∈ new then 0x0FFFFFFF else if c ∈ old then 0 else v.fat c
  fresh : ∀ c ∈ new, Valid limit c ∧ (v.fat c = 0 ∨ c ∈ old)
  data : ∀ c, c ∉ new → c ≠ g.rootCluster → v'.data c = v.data c
  dir : ∀ k, k < off ∨ off + 32 ≤ k → v'.dir g k = v.dir g k
  entry : (v'.dir g off = 0xE5 ∧ new = []) ∨ (Owns g limit v' off new ∧
    ∀ o, o ≠ off → Live (v.dir g) g.clusterSize o → nameAt (v.dir g) o ≠ nameAt (v'.dir g) off)

end

theorem WellFormed.orderly {g : Statics} {limit : Nat} {v : View} (wf : WellFormed g limit v) : Orderly g limit v :=
  ⟨wf.root_used, wf.ended, wf.chained, wf.disjoint, wf.apart⟩

/-! ### One entry replaced -/

namespace Replaces
variable {g : Statics} {limit : Nat} {v v' : View} {off : Nat} {old new : List Nat}
  (step : Replaces g limit v v' off old new)
include step

theorem sameEntry {o : Nat} (slot : Slot g.clusterSize o) (other : o ≠ off) :
    SameEntry (v'.dir g) (v.dir g) o := by
  intro k small
  have aligned := step.slot.1
  have aligned' := slot.1
  exact step.dir _ (by omega)

theorem live_other {o : Nat} (other : o ≠ off) :
    Live (v'.dir g) g.clusterSize o ↔ Live (v.dir g) g.clusterSize o := by
  constructor
  · exact fun live => ((step.sameEntry live.slot other).live _).mp live
  · exact fun live => ((step.sameEntry live.slot other).live _).mpr live

theorem first_ne_zero : v'.dir g off ≠ 0 := by
  rcases step.entry with deleted | owns
  · rw [deleted]
    decide
  · exact fun zero => owns.live.used (.inl zero)

theorem owns_here (apart : ∀ c, Valid limit c → ¬Final c) {ks : List Nat} (owns : Owns g limit v' off ks) : ks = new := by
  rcases step.entry with deleted | held
  · exact absurd (.inr deleted) owns.live.used
  · exact owns.chain.unique apart held.chain

section
variable (wf : Orderly g limit v)
include wf

/-- The clusters of the other files are neither freed nor taken. -/
theorem untouched {o : Nat} {ks : List Nat} (owns : Owns g limit v o ks) (other : o ≠ off) :
    ∀ c ∈ ks, c ∉ new ∧ c ∉ old := by
  intro c member
  have kept : c ∉ old := by
    rcases step.held with held | ⟨-, rfl⟩
    · exact wf.disjoint o off ks old owns held other member
    · exact List.not_mem_nil
  refine ⟨fun taken => ?_, kept⟩
  rcases (step.fresh c taken).2 with free | freed
  · exact owns.chain.used c member free
  · exact kept freed

theorem fat_other {o : Nat} {ks : List Nat} (owns : Owns g limit v o ks) (other : o ≠ off) :
    ∀ c ∈ ks, v'.fat c = v.fat c := by
  intro c member
  obtain ⟨notNew, notOld⟩ := step.untouched wf owns other c member
  rw [step.fat, if_neg notNew, if_neg notOld]

theorem data_other {o : Nat} {ks : List Nat} (owns : Owns g limit v o ks) (other : o ≠ off) :
    ∀ c ∈ ks, v'.data c = v.data c := by
  intro c member
  refine step.data c (step.untouched wf owns other c member).1 ?_
  rintro rfl
  exact wf.apart o ks owns member

theorem root_not_new : g.rootCluster ∉ old ∧ g.rootCluster ∉ new := by
  have kept : g.rootCluster ∉ old := by
    rcases step.held with held | ⟨-, rfl⟩
    · exact wf.apart off old held
    · exact List.not_mem_nil
  exact ⟨kept, fun taken => (step.fresh _ taken).2.elim wf.root_used kept⟩

variable (apart : ∀ c, Valid limit c → ¬Final c)
include apart

theorem owns_other {o : Nat} (other : o ≠ off) (ks : List Nat) : Owns g limit v' o ks ↔ Owns g limit v o ks := by
  have keep {js : List Nat} (owns : Owns g limit v o js) : Owns g limit v' o js := by
    refine ⟨(step.live_other other).mpr owns.live, ?_⟩
    rw [(step.sameEntry owns.live.slot other).entryCluster]
    exact owns.chain.congr (step.fat_other wf owns other)
  refine ⟨fun owns => ?_, keep⟩
  obtain ⟨js, before⟩ := wf.chained o ((step.live_other other).mp owns.live)
  rwa [owns.chain.unique apart (keep before).chain]

theorem orderly : Orderly g limit v' := by
  have root := step.root_not_new wf
  constructor
  case root_used =>
    rw [step.fat, if_neg root.2, if_neg root.1]
    exact wf.root_used
  case ended =>
    intro o slot zero k after inside
    have other : o ≠ off := fun same => step.first_ne_zero (same ▸ zero)
    have zero' : v.dir g o = 0 := by rw [← (step.sameEntry slot other).first, zero]
    -- the entry replaced lies before every entry that was never used
    have later : off < o := by
      refine Nat.lt_of_le_of_ne (Nat.not_lt.mp fun earlier => ?_) (Ne.symm other)
      exact step.before o earlier slot zero'
    have aligned := step.slot.1
    have aligned' := slot.1
    rw [step.dir k (by omega)]
    exact wf.ended o slot zero' k after inside
  case chained =>
    intro o live
    by_cases here : o = off
    · subst here
      rcases step.entry with deleted | owns
      · exact absurd (.inr deleted) live.used
      · exact ⟨new, owns⟩
    · obtain ⟨ks, owns⟩ := wf.chained o ((step.live_other here).mp live)
      exact ⟨ks, (step.owns_other wf apart here ks).mpr owns⟩
  case disjoint =>
    have clash {o : Nat} {ks js : List Nat} (other : o ≠ off) (owns : Owns g limit v' o ks)
        (here : Owns g limit v' off js) : ks.Disjoint js := by
      intro c member member'
      rw [step.owns_here apart here] at member'
      exact (step.untouched wf ((step.owns_other wf apart other ks).mp owns) other c member).1 member'
    intro o o' ks ks' owns owns' apart'
    by_cases here : o = off
    · subst here
      exact fun c member member' => clash (Ne.symm apart') owns' owns member' member
    · by_cases here' : o' = off
      · subst here'
        exact clash here owns owns'
      · exact wf.disjoint o o' ks ks' ((step.owns_other wf apart here ks).mp owns)
          ((step.owns_other wf apart here' ks').mp owns') apart'
  case apart =>
    intro o ks owns
    by_cases here : o = off
    · subst here
      rw [step.owns_here apart owns]
      exact root.2
    · exact wf.apart o ks ((step.owns_other wf apart here ks).mp owns)

end
end Replaces

namespace Rewrites
variable {g : Statics} {limit : Nat} {v v' : View} {off : Nat} {old new : List Nat}
  (step : Rewrites g limit v v' off old new)
include step

theorem replaces : Replaces g limit v v' off old new where
  slot := step.slot
  before := step.before
  held := step.held
  fat := step.fat
  fresh := step.fresh
  data := step.data
  dir := step.dir
  entry := step.entry.imp And.left And.left

section
variable (wf : WellFormed g limit v) (apart : ∀ c, Valid limit c → ¬Final c)
include wf apart

theorem wellFormed : WellFormed g limit v' := by
  obtain ⟨root_used, ended, chained, disjoint, kept⟩ := step.replaces.orderly wf.orderly apart
  have replaces := step.replaces
  refine ⟨root_used, ended, chained, ?_, disjoint, kept⟩
  have clash {o : Nat} (other : o ≠ off) (there : Live (v'.dir g) g.clusterSize o)
      (here : Live (v'.dir g) g.clusterSize off) : nameAt (v'.dir g) o ≠ nameAt (v'.dir g) off := by
    rcases step.entry with ⟨deleted, -⟩ | ⟨-, unique⟩
    · exact absurd (.inr deleted) here.used
    · rw [(replaces.sameEntry there.slot other).nameAt]
      exact unique o other ((replaces.live_other other).mp there)
  intro o o' there there' named
  by_cases here : o = off
  · by_cases here' : o' = off
    · rw [here, here']
    · exact absurd (here ▸ named).symm (clash here' there' (here ▸ there))
  · by_cases here' : o' = off
    · exact absurd (here' ▸ named) (clash here there (here' ▸ there'))
    · refine wf.distinct o o' ((replaces.live_other here).mp there) ((replaces.live_other here').mp there') ?_
      rwa [← (replaces.sameEntry there.slot here).nameAt, ← (replaces.sameEntry there'.slot here').nameAt]

theorem noLost (kept : NoLost g limit v) : NoLost g limit v' := by
  intro c valid used
  have after := step.wellFormed wf apart
  -- two owners of one cluster are one, by disjointness
  have unique {o : Nat} {ks : List Nat} (owns : Owns g limit v' o ks) (member : c ∈ ks) :
      ∃! o, ∃ ks, Owns g limit v' o ks ∧ c ∈ ks := by
    refine ⟨o, ⟨ks, owns, member⟩, fun o' ⟨ks', owns', member'⟩ => ?_⟩
    by_contra other
    exact after.disjoint o' o ks' ks owns' owns other member' member
  rw [step.fat] at used
  by_cases taken : c ∈ new
  · rcases step.entry with ⟨-, rfl⟩ | ⟨owns, -⟩
    · exact absurd taken List.not_mem_nil
    · exact .inr (unique owns taken)
  · rw [if_neg taken] at used
    by_cases freed : c ∈ old
    · exact absurd (if_pos freed) used
    · rw [if_neg freed] at used
      refine (kept c valid used).imp_right fun ⟨o, ⟨ks, owns, member⟩, _⟩ => ?_
      have other : o ≠ off := by
        rintro rfl
        rcases step.held with held | ⟨unused, -⟩
        · exact freed (owns.chain.unique apart held.chain ▸ member)
        · exact owns.live.used unused
      exact unique ((step.replaces.owns_other wf.orderly apart other ks).mpr owns) member

theorem sized (fits : Sized g limit v)
    (here : Live (v'.dir g) g.clusterSize off → entrySize (v'.dir g) off < 2 ^ 31 ∧
      entrySize (v'.dir g) off ≤ new.length * g.clusterSize) : Sized g limit v' := by
  intro o ks owns
  by_cases same : o = off
  · subst same
    rw [step.replaces.owns_here apart owns]
    exact here owns.live
  · rw [(step.replaces.sameEntry owns.live.slot same).entrySize]
    exact fits o ks ((step.replaces.owns_other wf.orderly apart same ks).mp owns)

end
end Rewrites

end ChrisOS.Fs.Fat32
