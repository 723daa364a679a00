import ChrisOS.Shell.Editor

/-! The handler of drivers/keyboard.c, from scan codes to calls of the shell. -/

set_option autoImplicit false

namespace ChrisOS.Drivers.Keyboard
open ChrisOS.Lib ChrisOS.Shell Traced
open ChrisOS.Kernel.Kprintf (ascii)

def scNormal : List UInt8 :=
  ascii "\x00\x001234567890-=\x00\x00qwertyuiop[]\x00\x00asdfghjkl;\x27\x60\x00\\zxcvbnm,./\x00*\x00 "

def scShift : List UInt8 :=
  ascii "\x00\x00!@#$%^&*()_+\x00\x00QWERTYUIOP\x7b\x7d\x00\x00ASDFGHJKL:\x22~\x00|ZXCVBNM<>?\x00*\x00 "

/-- SC_TABLE_LEN. -/
def scTableLen : Nat := scNormal.length

/-- The static variables of the driver. -/
structure Flags where
  shiftHeld : Bool
  capsLock : Bool
  extPending : Bool

/-- The other case of a letter. -/
def swapCase (c : UInt8) : UInt8 :=
  if 0x61 ≤ c ∧ c ≤ 0x7A then c - 32 else if 0x41 ≤ c ∧ c ≤ 0x5A then c + 32 else c

/-- A code behind 0xE0. -/
def extended (code : UInt8) : Option Press :=
  if code = 0x48 then some .historyUp
  else if code = 0x50 then some .historyDown
  else if code = 0x4B then some .cursorLeft
  else if code = 0x4D then some .cursorRight
  else none

/-- A code that is pressed, with the tables and the case. -/
def character (kb : Flags) (code : UInt8) : Option Press :=
  if code = 0x0E then some (.processChar backspace)
  else if code = 0x1C then some (.processChar newline)
  else if code = 0x0F then some (.processChar 0x09)
  else if scTableLen ≤ code.toNat then none
  else
    let c := (if kb.shiftHeld then scShift else scNormal).getD code.toNat 0
    if c = 0 then none
    else some (.processChar (if kb.capsLock then swapCase c else c))

def keyboardHandler (kb : Flags) (sc : UInt8) : Flags × Option Press :=
  let released : Bool := sc &&& 0x80 ≠ 0
  let code := sc &&& 0x7F
  if sc = 0xE0 then ({ kb with extPending := true }, none)
  else if kb.extPending then ({ kb with extPending := false }, if released then none else extended code)
  else if code = 0x2A ∨ code = 0x36 then ({ kb with shiftHeld := !released }, none)
  else if code = 0x3A ∧ released = false then ({ kb with capsLock := !kb.capsLock }, none)
  else if released then (kb, none)
  else (kb, character kb code)

/-- The calls for a sequence of scan codes. -/
def presses : Flags → List UInt8 → List Press
  | _, [] => []
  | kb, sc :: rest => (keyboardHandler kb sc).2.toList ++ presses (keyboardHandler kb sc).1 rest

theorem swapCase_ne_zero {c : UInt8} (nonzero : c ≠ 0) : swapCase c ≠ 0 := by
  have bytes : ∀ c : UInt8, c ≠ 0 → swapCase c ≠ 0 := by decide +kernel
  exact bytes c nonzero

/-- What is called, if anything, is a key of the editor. -/
def CallsKey (call : Option Press) : Prop := ∀ p, call = some p → ∃ k : Key, k.press = p

theorem callsKey_none : CallsKey none := fun _ called => nomatch called

theorem callsKey_press (k : Key) : CallsKey (some k.press) := fun _ called => ⟨k, Option.some.inj called⟩

/-- A character other than NUL is a key. -/
theorem callsKey_char {c : UInt8} (nonzero : c ≠ 0) : CallsKey (some (.processChar c)) := by
  by_cases line : c = newline
  · rw [line]
    exact callsKey_press .newline
  · by_cases back : c = backspace
    · rw [back]
      exact callsKey_press .backspace
    · exact callsKey_press (.char c nonzero ⟨line, back⟩)

theorem callsKey_ite {test : Prop} [Decidable test] {first second : Option Press} (yes : CallsKey first)
    (no : ¬ test → CallsKey second) : CallsKey (if test then first else second) :=
  iteInduction (motive := CallsKey) (fun _ => yes) no

theorem extended_key (code : UInt8) : CallsKey (extended code) := by
  unfold extended
  refine callsKey_ite (callsKey_press .historyUp) fun _ => ?_
  refine callsKey_ite (callsKey_press .historyDown) fun _ => ?_
  refine callsKey_ite (callsKey_press .cursorLeft) fun _ => ?_
  exact callsKey_ite (callsKey_press .cursorRight) fun _ => callsKey_none

theorem character_key (kb : Flags) (code : UInt8) : CallsKey (character kb code) := by
  unfold character
  refine callsKey_ite (callsKey_press .backspace) fun _ => ?_
  refine callsKey_ite (callsKey_press .newline) fun _ => ?_
  refine callsKey_ite (callsKey_char (by decide)) fun _ => ?_
  refine callsKey_ite callsKey_none fun _ => ?_
  refine callsKey_ite callsKey_none fun nonzero => callsKey_char ?_
  split
  · exact swapCase_ne_zero nonzero
  · exact nonzero

/-- NUL is never passed on. -/
theorem keyboardHandler_key (kb : Flags) (sc : UInt8) : CallsKey (keyboardHandler kb sc).2 := by
  unfold keyboardHandler
  dsimp only
  split
  · exact callsKey_none
  · split
    · exact callsKey_ite callsKey_none fun _ => extended_key _
    · split
      · exact callsKey_none
      · split
        · exact callsKey_none
        · split
          · exact callsKey_none
          · exact character_key kb _

theorem presses_keys (kb : Flags) (codes : List UInt8) : ∃ keys : List Key, keys.map Key.press = presses kb codes := by
  induction codes generalizing kb with
  | nil => exact ⟨[], rfl⟩
  | cons sc rest ih =>
    obtain ⟨keys, same⟩ := ih (keyboardHandler kb sc).1
    rw [presses]
    cases called : (keyboardHandler kb sc).2 with
    | none => exact ⟨keys, same⟩
    | some p =>
      obtain ⟨k, press⟩ := keyboardHandler_key kb sc p called
      exact ⟨k :: keys, by rw [List.map_cons, press, same]; rfl⟩

/-- For every sequence of scan codes the line editor does what the reference does for some keys. -/
theorem typed_refines (kb : Flags) (codes : List UInt8) : ∃ keys : List Key,
    keys.map Key.press = presses kb codes ∧ All Access.Inside (Editor.boot.run (presses kb codes)) ∧
    Represents (Editor.boot.run (presses kb codes)).value.1 (Reference.empty.run keys).1 ∧
    List.Forall₂ Call.Passes (Editor.boot.run (presses kb codes)).value.2 (Reference.empty.run keys).2 := by
  obtain ⟨keys, same⟩ := presses_keys kb codes
  refine ⟨keys, same, ?_⟩
  rw [← same]
  exact run_follows boot_represents keys

end ChrisOS.Drivers.Keyboard
