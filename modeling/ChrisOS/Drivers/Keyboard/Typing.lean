import ChrisOS.Drivers.Keyboard
import ChrisOS.Lib.Run
import Mathlib.Logic.Function.Basic

/-! Keys that are pressed and released, and what the handler makes of their scan codes.

The driver has one flag for both shift keys, which follows the last event of either.
-/

set_option autoImplicit false

namespace ChrisOS.Drivers.Keyboard
open ChrisOS.Lib ChrisOS.Shell

/-- A key by its code, which stands behind 0xE0 for some. With code 0x60 its release would
send 0xE0. -/
structure ScanKey where
  extended : Bool
  code : UInt8
  basic : code < 0x80 ∧ code ≠ 0x60
deriving DecidableEq

namespace ScanKey

def leftShift : ScanKey := ⟨false, 0x2A, by decide⟩
def rightShift : ScanKey := ⟨false, 0x36, by decide⟩
def capsLock : ScanKey := ⟨false, 0x3A, by decide⟩

/-- The key of the letter a. -/
def letterA : ScanKey := ⟨false, 0x1E, by decide⟩

def IsShift (k : ScanKey) : Prop := k = leftShift ∨ k = rightShift

instance (k : ScanKey) : Decidable k.IsShift := inferInstanceAs (Decidable (_ ∨ _))

/-- The characters on the key. -/
def normal (k : ScanKey) : UInt8 := scNormal.getD k.code.toNat 0
def shifted (k : ScanKey) : UInt8 := scShift.getD k.code.toNat 0

def Printing (k : ScanKey) : Prop := k.extended = false ∧ k.normal ≠ 0

instance (k : ScanKey) : Decidable k.Printing := inferInstanceAs (Decidable (_ ∧ _))

end ScanKey

/-- A key goes down or up. -/
structure Stroke where
  key : ScanKey
  down : Bool

/-- The make or the break code. -/
def Stroke.code (e : Stroke) : UInt8 := if e.down then e.key.code else e.key.code ||| 0x80

def Stroke.codes (e : Stroke) : List UInt8 := if e.key.extended then [0xE0, e.code] else [e.code]

/-- The flags after a sequence of scan codes. -/
def flagsAfter (kb : Flags) (codes : List UInt8) : Flags := codes.foldl (fun kb sc => (keyboardHandler kb sc).1) kb

/-- The keyboard and its driver. -/
structure Session where
  held : ScanKey → Bool
  capsPresses : Nat
  /-- The last event of a shift key was a press. -/
  lastShift : Bool
  flags : Flags

namespace Session

def boot : Session := ⟨fun _ => false, 0, false, ⟨false, false, false⟩⟩

/-- Only a key that is up goes down, and the other way round. -/
def next (s : Session) (e : Stroke) : Option Session :=
  if s.held e.key = e.down then none
  else some {
    held := Function.update s.held e.key e.down
    capsPresses := if e.key = .capsLock ∧ e.down then s.capsPresses + 1 else s.capsPresses
    lastShift := if e.key.IsShift then e.down else s.lastShift
    flags := flagsAfter s.flags e.codes }

def Step (s : Session) (e : Stroke) (t : Session) : Prop := s.next e = some t

/-- A shift key is down. -/
def Shifting (s : Session) : Prop := s.held .leftShift ∨ s.held .rightShift

instance (s : Session) : Decidable s.Shifting := inferInstanceAs (Decidable (_ ∨ _))

end Session

/-- A letter in the other case. -/
def invertCase (c : UInt8) : UInt8 :=
  let letter := Char.ofNat c.toNat
  UInt8.ofNat (if letter.isLower then letter.toUpper else if letter.isUpper then letter.toLower else letter).toNat

/-- The character that a key stands for. -/
def Session.meant (s : Session) (k : ScanKey) : UInt8 :=
  let c := if s.Shifting then k.shifted else k.normal
  if s.capsPresses % 2 = 1 then invertCase c else c

/-- What the handler should make of the codes of a stroke. -/
structure Translated (s : Session) (e : Stroke) (t : Session) : Prop where
  prints : e.down = true → e.key.Printing → presses s.flags e.codes = [.processChar (s.meant e.key)]
  extended : e.key.extended = true →
    (∀ c, .processChar c ∉ presses s.flags e.codes) ∧ t.flags.shiftHeld = s.flags.shiftHeld

/-- No key with two characters is pressed while a shift key is down whose twin came up last. -/
def Admits (s : Session) (e : Stroke) : Prop :=
  e.down = true → e.key.Printing → e.key.normal ≠ e.key.shifted → s.Shifting → s.lastShift = true

/-! ### Codes -/

theorem swapCase_eq (c : UInt8) : swapCase c = invertCase c := by
  have bytes : ∀ c, swapCase c = invertCase c := by decide +kernel
  exact bytes c

theorem swapCase_inj {c d : UInt8} : swapCase c = swapCase d ↔ c = d := by
  have twice : ∀ c, swapCase (swapCase c) = c := by decide +kernel
  constructor
  · intro same
    rw [← twice c, same, twice]
  · exact congrArg swapCase

theorem make_code {code : UInt8} (basic : code < 0x80 ∧ code ≠ 0x60) :
    code ≠ 0xE0 ∧ code &&& 0x80 = 0 ∧ code &&& 0x7F = code := by
  have bytes : ∀ code : UInt8, code < 0x80 ∧ code ≠ 0x60 → code ≠ 0xE0 ∧ code &&& 0x80 = 0 ∧ code &&& 0x7F = code := by
    decide +kernel
  exact bytes code basic

theorem break_code {code : UInt8} (basic : code < 0x80 ∧ code ≠ 0x60) :
    code ||| 0x80 ≠ 0xE0 ∧ (code ||| 0x80) &&& 0x80 ≠ 0 ∧ (code ||| 0x80) &&& 0x7F = code := by
  have bytes : ∀ code : UInt8, code < 0x80 ∧ code ≠ 0x60 →
      code ||| 0x80 ≠ 0xE0 ∧ (code ||| 0x80) &&& 0x80 ≠ 0 ∧ (code ||| 0x80) &&& 0x7F = code := by decide +kernel
  exact bytes code basic

/-- The code of a stroke is no prefix, and tells the key from the direction. -/
theorem Stroke.code_parts (e : Stroke) :
    e.code ≠ 0xE0 ∧ decide (e.code &&& 0x80 ≠ 0) = !e.down ∧ e.code &&& 0x7F = e.key.code := by
  cases down : e.down with
  | true =>
    obtain ⟨bare, make, code⟩ := make_code e.key.basic
    rw [Stroke.code, if_pos down]
    exact ⟨bare, by simp [make], code⟩
  | false =>
    obtain ⟨bare, brk, code⟩ := break_code e.key.basic
    rw [Stroke.code, if_neg (by simp [down])]
    exact ⟨bare, by simp [brk], code⟩

theorem ScanKey.IsShift.bare {k : ScanKey} (shift : k.IsShift) : k.extended = false := by
  rcases shift with rfl | rfl <;> rfl

theorem ScanKey.IsShift.not_caps {k : ScanKey} (shift : k.IsShift) : k ≠ .capsLock := by
  rintro rfl
  exact absurd shift (by decide)

/-- A printing key is none of those the handler asks for by their codes. -/
theorem normal_ne_zero {code : UInt8} (printing : scNormal.getD code.toNat 0 ≠ 0) :
    (code ≠ 0x2A ∧ code ≠ 0x36 ∧ code ≠ 0x3A) ∧ (code ≠ 0x0E ∧ code ≠ 0x1C ∧ code ≠ 0x0F) ∧
      ¬ scTableLen ≤ code.toNat ∧ scShift.getD code.toNat 0 ≠ 0 := by
  have codes : ∀ code : UInt8, scNormal.getD code.toNat 0 ≠ 0 → (code ≠ 0x2A ∧ code ≠ 0x36 ∧ code ≠ 0x3A) ∧
      (code ≠ 0x0E ∧ code ≠ 0x1C ∧ code ≠ 0x0F) ∧ ¬ scTableLen ≤ code.toNat ∧ scShift.getD code.toNat 0 ≠ 0 := by
    decide +kernel
  exact codes code printing

theorem extended_no_char (code c : UInt8) : extended code ≠ some (.processChar c) := by
  unfold extended
  repeat' split
  all_goals exact fun same => nomatch same

/-! ### One stroke -/

theorem codes_bare {e : Stroke} (kb : Flags) (bare : e.key.extended = false) :
    flagsAfter kb e.codes = (keyboardHandler kb e.code).1 ∧ presses kb e.codes = (keyboardHandler kb e.code).2.toList := by
  rw [Stroke.codes, if_neg (by simp [bare]), flagsAfter, List.foldl_cons, List.foldl_nil, presses, presses, List.append_nil]
  exact ⟨rfl, rfl⟩

theorem ScanKey.ext_iff_code {k other : ScanKey} : k = other ↔ k.extended = other.extended ∧ k.code = other.code := by
  cases k
  cases other
  simp

section
variable {kb : Flags} (ready : kb.extPending = false) {e : Stroke}
include ready

/-- Of a bare key the handler sees one code. -/
theorem keyboardHandler_bare (bare : e.key.extended = false) : keyboardHandler kb e.code =
    if e.key.IsShift then ({ kb with shiftHeld := e.down }, none)
    else if e.key = .capsLock ∧ e.down = true then ({ kb with capsLock := !kb.capsLock }, none)
    else (kb, if e.down then character kb e.key.code else none) := by
  obtain ⟨noPrefix, released, code⟩ := e.code_parts
  have shift : e.key.IsShift ↔ e.key.code = 0x2A ∨ e.key.code = 0x36 := by
    rw [ScanKey.IsShift, ScanKey.ext_iff_code, ScanKey.ext_iff_code, bare]
    simp [ScanKey.leftShift, ScanKey.rightShift]
  have caps : e.key = .capsLock ↔ e.key.code = 0x3A := by
    rw [ScanKey.ext_iff_code, bare]
    simp [ScanKey.capsLock]
  rw [keyboardHandler, released, code, if_neg noPrefix, ready, if_neg Bool.false_ne_true, Bool.not_not]
  simp only [shift, caps, Bool.not_eq_false']
  refine if_congr Iff.rfl rfl (if_congr Iff.rfl rfl ?_)
  cases e.down <;> rfl

theorem keyboardHandler_extended : keyboardHandler { kb with extPending := true } e.code =
    (kb, if e.down then extended e.key.code else none) := by
  obtain ⟨noPrefix, released, code⟩ := e.code_parts
  rw [keyboardHandler, released, code, if_neg noPrefix]
  cases kb
  cases ready
  cases e.down <;> rfl

/-- An extended sequence changes no flag, and its call is one for an extended code. -/
theorem codes_extended (behind : e.key.extended = true) :
    flagsAfter kb e.codes = kb ∧ presses kb e.codes = (if e.down then extended e.key.code else none).toList := by
  have second := keyboardHandler_extended ready (e := e)
  have first : keyboardHandler kb 0xE0 = ({ kb with extPending := true }, none) := rfl
  rw [Stroke.codes, if_pos behind, flagsAfter, List.foldl_cons, List.foldl_cons, List.foldl_nil, presses, presses, presses,
    first, second, List.append_nil]
  exact ⟨rfl, rfl⟩

/-- The flags after a stroke, with the prefix taken. -/
theorem flagsAfter_codes : flagsAfter kb e.codes =
    { shiftHeld := if e.key.IsShift then e.down else kb.shiftHeld
      capsLock := if e.key = .capsLock ∧ e.down = true then !kb.capsLock else kb.capsLock
      extPending := false } := by
  cases behind : e.key.extended with
  | true =>
    have notShift : ¬ e.key.IsShift := fun shift => absurd (shift.bare.symm.trans behind) Bool.false_ne_true
    have notCaps : ¬ (e.key = .capsLock ∧ e.down = true) := by
      rintro ⟨caps, -⟩
      rw [caps] at behind
      exact absurd behind Bool.false_ne_true
    rw [(codes_extended ready behind).1, if_neg notShift, if_neg notCaps, ← ready]
  | false =>
    rw [(codes_bare kb behind).1, keyboardHandler_bare ready behind]
    by_cases shift : e.key.IsShift
    · rw [if_pos shift, if_pos shift, if_neg fun caps => shift.not_caps caps.1, ← ready]
    · rw [if_neg shift, if_neg shift]
      split
      · rw [← ready]
      · rw [← ready]

/-- The call for a printing key. -/
theorem presses_printing (down : e.down = true) (printing : e.key.Printing) : presses kb e.codes =
    [.processChar (if kb.capsLock then swapCase (if kb.shiftHeld then e.key.shifted else e.key.normal)
      else if kb.shiftHeld then e.key.shifted else e.key.normal)] := by
  obtain ⟨⟨notLeft, notRight, notCaps⟩, ⟨notBack, notLine, notTab⟩, inTable, shifted⟩ := normal_ne_zero printing.2
  have notShift : ¬ e.key.IsShift := by
    rintro (left | right)
    · exact notLeft (ScanKey.ext_iff_code.mp left).2
    · exact notRight (ScanKey.ext_iff_code.mp right).2
  have other : ¬ (e.key = .capsLock ∧ e.down = true) := fun caps => notCaps (ScanKey.ext_iff_code.mp caps.1).2
  have some : (if kb.shiftHeld then scShift else scNormal).getD e.key.code.toNat 0 ≠ 0 := by
    split
    · exact shifted
    · exact printing.2
  have table : (if kb.shiftHeld then scShift else scNormal).getD e.key.code.toNat 0 =
      if kb.shiftHeld then e.key.shifted else e.key.normal := by
    split <;> rfl
  rw [(codes_bare kb printing.1).2, keyboardHandler_bare ready printing.1, if_neg notShift, if_neg other, if_pos down,
    character, if_neg notBack, if_neg notLine, if_neg notTab, if_neg inTable]
  dsimp only
  rw [if_neg some, table]
  rfl

end

/-! ### Runs -/

namespace Session

/-- The flags follow the keyboard, but for shift keys that come up one after the other. -/
structure Follows (s : Session) : Prop where
  shift : s.flags.shiftHeld = s.lastShift
  caps : s.flags.capsLock = decide (s.capsPresses % 2 = 1)
  pending : s.flags.extPending = false
  held : s.lastShift = true → s.Shifting

theorem boot_follows : Follows boot := ⟨rfl, rfl, rfl, fun shift => absurd shift Bool.false_ne_true⟩

theorem step_cases {s t : Session} {e : Stroke} (taken : Step s e t) :
    t = ⟨Function.update s.held e.key e.down, if e.key = .capsLock ∧ e.down then s.capsPresses + 1 else s.capsPresses,
      if e.key.IsShift then e.down else s.lastShift, flagsAfter s.flags e.codes⟩ := by
  rw [Step, next] at taken
  split at taken
  · cases taken
  · exact (Option.some.inj taken).symm

theorem Follows.step {s t : Session} {e : Stroke} (follows : Follows s) (taken : Step s e t) : Follows t := by
  rw [step_cases taken, flagsAfter_codes follows.pending]
  refine ⟨?_, ?_, rfl, ?_⟩
  · dsimp only
    rw [follows.shift]
  · dsimp only
    rw [follows.caps]
    by_cases odd : s.capsPresses % 2 = 1
    · have even : ¬ (s.capsPresses + 1) % 2 = 1 := by omega
      split <;> simp [odd, even]
    · have odd' : (s.capsPresses + 1) % 2 = 1 := by omega
      split <;> simp [odd, odd']
  · dsimp only [Shifting]
    intro last
    by_cases shift : e.key.IsShift
    · rw [if_pos shift] at last
      rcases shift with left | right
      · rw [left, Function.update_self]
        exact .inl last
      · rw [right, Function.update_self]
        exact .inr last
    · rw [if_neg shift] at last
      rw [ScanKey.IsShift, not_or] at shift
      rw [Function.update_of_ne (Ne.symm shift.1), Function.update_of_ne (Ne.symm shift.2)]
      exact follows.held last

/-- The driver's choice of a table is right unless a shift key is down whose twin came up last. -/
theorem Follows.table_iff {s : Session} (follows : Follows s) (k : ScanKey) :
    ((if s.flags.shiftHeld then k.shifted else k.normal) = if s.Shifting then k.shifted else k.normal) ↔
      (k.normal ≠ k.shifted → s.Shifting → s.lastShift = true) := by
  rw [follows.shift]
  cases last : s.lastShift with
  | true => simp [follows.held last]
  | false =>
    by_cases shifting : s.Shifting
    · simp [shifting]
    · simp [shifting]

theorem Follows.meant_iff {s : Session} (follows : Follows s) (k : ScanKey) :
    ((if s.flags.capsLock then swapCase (if s.flags.shiftHeld then k.shifted else k.normal)
      else if s.flags.shiftHeld then k.shifted else k.normal) = s.meant k) ↔
      (k.normal ≠ k.shifted → s.Shifting → s.lastShift = true) := by
  rw [meant, ← follows.table_iff k, follows.caps]
  by_cases odd : s.capsPresses % 2 = 1
  · simp only [odd, decide_true, if_true, ← swapCase_eq, swapCase_inj]
  · simp only [odd, decide_false, Bool.false_eq_true, if_false]

theorem Follows.judged {s t : Session} {e : Stroke} (follows : Follows s) (taken : Step s e t) :
    Translated s e t ↔ Admits s e := by
  constructor
  · intro translated down printing
    have pressed := translated.prints down printing
    rw [presses_printing follows.pending down printing, List.cons.injEq, Press.processChar.injEq] at pressed
    exact (follows.meant_iff e.key).mp pressed.1
  · intro admits
    refine ⟨fun down printing => ?_, fun behind => ?_⟩
    · rw [presses_printing follows.pending down printing, (follows.meant_iff e.key).mpr (admits down printing)]
    · obtain ⟨flags, calls⟩ := codes_extended follows.pending behind
      rw [calls, step_cases taken, flags]
      refine ⟨fun c member => ?_, rfl⟩
      rw [Option.mem_toList] at member
      split at member
      · exact extended_no_char _ _ member
      · cases member

end Session

/-- In every run each key that is pressed is translated as it should, just as long as no
printing key is pressed while a shift key is down whose twin came up last. -/
theorem translated_iff {moves : List (Move Session Stroke)} {s : Session} (run : Run Session.Step .boot moves s) :
    (∀ m ∈ moves, Translated m.before m.event m.after) ↔ ∀ m ∈ moves, Admits m.before m.event :=
  run.good_iff Session.Follows Admits Translated (fun follows _ => follows.step) (fun follows => follows.judged)
    Session.boot_follows

/-- Shift and a letter, then caps lock and the letter. -/
theorem letters_translated : ∃ moves s, Run Session.Step .boot moves s ∧
    (moves.flatMap fun m => m.event.codes) = [0x2A, 0x1E, 0xAA, 0x3A, 0x9E, 0x1E] ∧
    ((∀ m ∈ moves, Translated m.before m.event m.after) ↔ ∀ m ∈ moves, Admits m.before m.event) := by
  have checked : (trace Session.next .boot [⟨.leftShift, true⟩, ⟨.letterA, true⟩, ⟨.leftShift, false⟩, ⟨.capsLock, true⟩,
      ⟨.letterA, false⟩, ⟨.letterA, true⟩]).any (fun r =>
        (r.1.flatMap fun m => m.event.codes) == [0x2A, 0x1E, 0xAA, 0x3A, 0x9E, 0x1E]) = true := by decide +kernel
  obtain ⟨moves, s, run, holds⟩ := Run.of_trace_any checked
  exact ⟨moves, s, run, beq_iff_eq.mp holds, translated_iff run⟩

/-- Both shift keys go down and the left one comes up: the right one is still down, but the
letter comes out small. -/
theorem released_twin : ∃ moves s, Run Session.Step .boot moves s ∧
    (moves.flatMap fun m => m.event.codes) = [0x2A, 0x36, 0xAA, 0x1E] ∧
    ∃ m ∈ moves, m.before.held .rightShift = true ∧ presses m.before.flags m.event.codes = [.processChar 0x61] ∧
      ¬ Translated m.before m.event m.after := by
  have checked : (trace Session.next .boot [⟨.leftShift, true⟩, ⟨.rightShift, true⟩, ⟨.leftShift, false⟩,
      ⟨.letterA, true⟩]).any (fun r => (r.1.flatMap fun m => m.event.codes) == [0x2A, 0x36, 0xAA, 0x1E] &&
        r.1.any fun m => m.before.held .rightShift && presses m.before.flags m.event.codes == [.processChar 0x61] &&
          m.event.down && m.event.key == .letterA && m.before.capsPresses == 0) = true := by decide +kernel
  obtain ⟨moves, s, run, holds⟩ := Run.of_trace_any checked
  simp only [Bool.and_eq_true, List.any_eq_true, beq_iff_eq] at holds
  obtain ⟨codes, m, member, ⟨⟨⟨right, small⟩, down⟩, letter⟩, never⟩ := holds
  refine ⟨moves, s, run, codes, m, member, right, small, fun translated => ?_⟩
  have capital : m.before.meant .letterA = 0x41 := by
    have shifting : m.before.Shifting := .inr right
    simp only [Session.meant, if_pos shifting, never]
    decide
  have printed := translated.prints down (by rw [letter]; decide)
  rw [small, letter, capital] at printed
  cases printed

end ChrisOS.Drivers.Keyboard
