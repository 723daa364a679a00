import ChrisOS.Lib.Word
import Mathlib.Data.List.Basic
import Mathlib.Tactic.Common

/-! kprintf and klog of kernel/kprintf.c: two interpreters of format strings.

A format is the list of its bytes before the NUL, memory is given by the strings that
pointers into it show, and va_arg takes the next of a list of 32-bit words. kprintf
sends each byte to the terminal and to the serial port, klog to the serial port alone.
-/

set_option autoImplicit false

namespace ChrisOS.Kernel.Kprintf
open ChrisOS.Lib

/-- For a pointer, the bytes from there on before the NUL. -/
abbrev Strings := Nat → List UInt8

def ch (c : Char) : UInt8 := UInt8.ofNat c.toNat

def ascii (s : String) : List UInt8 := s.toList.map ch

/-- What a conversion character makes the interpreter do. -/
inductive Act where
  | plain (text : List UInt8)
  | arg (text : Nat → List UInt8)

/-- What was sent to the serial port and, as ghost data, the arguments taken with the
positions of their conversion characters in the format. -/
structure Printed where
  text : List UInt8
  used : List (Nat × Nat)
  deriving DecidableEq

def Printed.before (text : List UInt8) (used : List (Nat × Nat)) (rest : Printed) : Printed :=
  ⟨text ++ rest.text, used ++ rest.used⟩

/-- The loop over the format that both functions have, from position `i` on. No outcome when
an argument is missing or the format is read behind its NUL. -/
def formatLoop (act : UInt8 → Act) : Nat → List UInt8 → List Nat → Option Printed
  | _, [], _ => some ⟨[], []⟩
  | i, c :: fmt, args =>
    if c ≠ ch '%' then (formatLoop act (i + 1) fmt args).map (.before [c] [])
    else match fmt with
      -- `fmt++` after the switch steps over the NUL
      | [] => none
      | k :: fmt => match act k, args with
        | .plain text, args => (formatLoop act (i + 2) fmt args).map (.before text [])
        | .arg _, [] => none
        | .arg text, a :: args => (formatLoop act (i + 2) fmt args).map (.before (text a) [(i + 1, a)])

/-! ### kprintf -/

/-- `if (!s) s = "(null)"`, then the string. -/
def emitStr (strings : Strings) (s : Nat) : List UInt8 := if s = 0 then ascii "(null)" else strings s

def digits (upper : Bool) : List UInt8 := if upper then ascii "0123456789ABCDEF" else ascii "0123456789abcdef"

/-- The digits stored in `buf`, in the order in which they are sent: the last one first. -/
def emitUintLoop (base : Nat) (upper : Bool) : Nat → Nat → List UInt8 → List UInt8
  | 0, _, buf => buf
  | rounds + 1, n, buf =>
    if n > 0 then emitUintLoop base upper rounds (n / base) ((digits upper).getD (n % base) 0 :: buf) else buf

/-- `buf` has room for 11 digits. -/
def emitUint (n base : Nat) (upper : Bool) : List UInt8 :=
  if n = 0 then [ch '0'] else emitUintLoop base upper 11 n []

/-- The word is a negative int32_t. -/
def Negative (n : Nat) : Prop := 2 ^ 31 ≤ n

instance (n : Nat) : Decidable (Negative n) := inferInstanceAs (Decidable (_ ≤ _))

def emitInt (n : Nat) : List UInt8 :=
  if Negative n then ch '-' :: emitUint (sub32 0 n) 10 false else emitUint n 10 false

def emitHex8 (n : Nat) : List UInt8 :=
  [7, 6, 5, 4, 3, 2, 1, 0].map fun i => (digits false).getD (n / 2 ^ (i * 4) % 16) 0

/-- The switch of kprintf, with the way it prints %x left open. -/
def kprintfSwitch (hex : Nat → List UInt8) (strings : Strings) (k : UInt8) : Act :=
  if k = ch 'd' then .arg emitInt
  else if k = ch 'u' then .arg fun a => emitUint a 10 false
  else if k = ch 'x' then .arg hex
  else if k = ch 'X' then .arg fun a => emitUint a 16 true
  else if k = ch 'p' then .arg fun a => ch '0' :: ch 'x' :: emitHex8 a
  else if k = ch 's' then .arg (emitStr strings)
  else if k = ch 'c' then .arg fun a => [UInt8.ofNat a]
  else if k = ch '%' then .plain [ch '%']
  else .plain [ch '%', k]

def kprintf (strings : Strings) (fmt : List UInt8) (args : List Nat) : Option Printed :=
  formatLoop (kprintfSwitch (fun a => emitUint a 16 false) strings) 0 fmt args

/-- kprintf but for %x, which is zero-padded to eight digits. -/
def kprintfPadded (strings : Strings) (fmt : List UInt8) (args : List Nat) : Option Printed :=
  formatLoop (kprintfSwitch emitHex8 strings) 0 fmt args

/-! ### klog -/

/-- `while (n > 0) { buf[i++] = '0' + n % 10; n /= 10; }`, last digit first. -/
def klogIntLoop : Nat → Nat → List UInt8 → List UInt8
  | 0, _, buf => buf
  | rounds + 1, n, buf => if n > 0 then klogIntLoop rounds (n / 10) ((ch '0' + UInt8.ofNat (n % 10)) :: buf) else buf

/-- The 'd' case. The least int is its own negative, and not above 0. -/
def klogInt (n : Nat) : List UInt8 :=
  let sign := if Negative n then [ch '-'] else []
  let n := if Negative n then sub32 0 n else n
  if n = 0 then sign ++ [ch '0']
  else if Negative n then sign
  else sign ++ klogIntLoop 12 n []

def klogSwitch (strings : Strings) (k : UInt8) : Act :=
  if k = ch 'd' then .arg klogInt
  else if k = ch 'x' then .arg emitHex8
  else if k = ch 's' then .arg (emitStr strings)
  else if k = ch '%' then .plain [ch '%']
  else .plain [ch '%', k]

def klog (strings : Strings) (fmt : List UInt8) (args : List Nat) : Option Printed :=
  (formatLoop (klogSwitch strings) 0 fmt args).map fun printed =>
    ⟨ascii "[LOG] " ++ printed.text ++ [ch '\n'], printed.used⟩

/-! ### Formats over the conversions of kprintf -/

inductive Conversion where
  | d
  | u
  | x
  | upperX
  | p
  | s
  | c
  | percent
  deriving DecidableEq

namespace Conversion

def char : Conversion → UInt8
  | d => ch 'd'
  | u => ch 'u'
  | x => ch 'x'
  | upperX => ch 'X'
  | p => ch 'p'
  | s => ch 's'
  | c => ch 'c'
  | percent => ch '%'

/-- klog has a case for it. -/
def Shared (k : Conversion) : Prop := k = d ∨ k = x ∨ k = s ∨ k = percent

instance (k : Conversion) : Decidable k.Shared := inferInstanceAs (Decidable (_ ∨ _))

end Conversion

/-- A byte that stands for itself, or a conversion. -/
inductive Piece where
  | byte (c : UInt8) (literal : c ≠ ch '%')
  | conversion (k : Conversion)
  deriving DecidableEq

def Piece.spell : Piece → List UInt8
  | byte c _ => [c]
  | conversion k => [ch '%', k.char]

/-- The format string of some pieces. -/
def spell (pieces : List Piece) : List UInt8 := pieces.flatMap Piece.spell

/-- The conversions that take an argument, in order. -/
def takers (pieces : List Piece) : List Conversion :=
  pieces.filterMap fun
    | .conversion k => if k = .percent then none else some k
    | .byte _ _ => none

/-- The arguments fit the format: one 32-bit word for each conversion that takes one. -/
structure Fits (pieces : List Piece) (args : List Nat) : Prop where
  count : args.length = (takers pieces).length
  words : ∀ a ∈ args, a < 2 ^ 32

/-- klog has a case for every conversion, and no %d prints the least int. -/
structure Loggable (pieces : List Piece) (args : List Nat) : Prop where
  shared : ∀ k, .conversion k ∈ pieces → k.Shared
  printable : ∀ a, (.d, a) ∈ (takers pieces).zip args → a ≠ 2 ^ 31

/-- klog takes the arguments that kprintf takes, at the same positions, and sends the text of
kprintf with padded %x, framed as a line of the log. -/
def Agree (strings : Strings) (fmt : List UInt8) (args : List Nat) : Prop :=
  ∃ plain padded log, kprintf strings fmt args = some plain ∧ kprintfPadded strings fmt args = some padded ∧
    klog strings fmt args = some log ∧ log.used = plain.used ∧
    log.text = ascii "[LOG] " ++ padded.text ++ [ch '\n']

/-! ### Decimal digits -/

theorem decimal_digit : ∀ k < 10, ch '0' + UInt8.ofNat k = (digits false).getD k 0 := by decide

theorem klogIntLoop_eq (rounds n : Nat) (buf : List UInt8) :
    klogIntLoop rounds n buf = emitUintLoop 10 false rounds n buf := by
  induction rounds generalizing n buf with
  | zero => rfl
  | succ rounds ih =>
    simp only [klogIntLoop, emitUintLoop, ih, decimal_digit (n % 10) (Nat.mod_lt n (by decide))]

/-- A round more than the number has digits does nothing. -/
theorem emitUintLoop_succ (base : Nat) (upper : Bool) (rounds n : Nat) (buf : List UInt8) (short : n < base ^ rounds) :
    emitUintLoop base upper (rounds + 1) n buf = emitUintLoop base upper rounds n buf := by
  induction rounds generalizing n buf with
  | zero =>
    have zero : n = 0 := by simpa using short
    simp [emitUintLoop, zero]
  | succ rounds ih =>
    have shorter : n / base < base ^ rounds := by
      apply Nat.div_lt_of_lt_mul
      rwa [Nat.pow_succ, Nat.mul_comm] at short
    calc emitUintLoop base upper (rounds + 2) n buf
        = if n > 0 then emitUintLoop base upper (rounds + 1) (n / base) ((digits upper).getD (n % base) 0 :: buf)
          else buf := rfl
      _ = emitUintLoop base upper (rounds + 1) n buf := by rw [ih _ _ shorter, emitUintLoop]

theorem klogInt_eq {a : Nat} (bound : a < 2 ^ 32) (printable : a ≠ 2 ^ 31) : klogInt a = emitInt a := by
  have decimal (n : Nat) (short : n < 2 ^ 32) : klogIntLoop 12 n [] = emitUintLoop 10 false 11 n [] := by
    rw [klogIntLoop_eq]
    apply emitUintLoop_succ
    exact Nat.lt_trans short (by decide)
  by_cases negative : Negative a
  · have above : 2 ^ 31 < a := Nat.lt_of_le_of_ne negative (Ne.symm printable)
    have opposite : sub32 0 a = 2 ^ 32 - a := by unfold sub32; omega
    have nonzero : sub32 0 a ≠ 0 := by omega
    have positive : ¬ Negative (sub32 0 a) := by unfold Negative; omega
    simp [klogInt, emitInt, emitUint, negative, nonzero, positive, decimal _ (sub32_lt 0 a)]
  · by_cases zero : a = 0
    · subst zero
      decide
    · simp [klogInt, emitInt, emitUint, negative, zero, decimal a bound]

/-- klog prints no digit of the least int. -/
theorem klogInt_least : (klogInt (2 ^ 31)).length < (emitInt (2 ^ 31)).length := by decide

/-! ### The loop, piece by piece -/

def Act.Takes : Act → Prop
  | plain _ => False
  | arg _ => True

section

variable {act act' : UInt8 → Act} {i : Nat} {pieces : List Piece} {args : List Nat}

theorem formatLoop_byte (c : UInt8) (literal : c ≠ ch '%') :
    formatLoop act i (spell (.byte c literal :: pieces)) args =
      (formatLoop act (i + 1) (spell pieces) args).map (.before [c] []) := by
  change formatLoop act i (c :: spell pieces) args = _
  rw [formatLoop.eq_def]
  exact if_pos literal

theorem formatLoop_plain {k : Conversion} {text : List UInt8} (plain : act k.char = .plain text) :
    formatLoop act i (spell (.conversion k :: pieces)) args =
      (formatLoop act (i + 2) (spell pieces) args).map (.before text []) := by
  change formatLoop act i (ch '%' :: k.char :: spell pieces) args = _
  rw [formatLoop.eq_def]
  simp [plain]

theorem formatLoop_arg {k : Conversion} {text : Nat → List UInt8} (taken : act k.char = .arg text) (a : Nat) :
    formatLoop act i (spell (.conversion k :: pieces)) (a :: args) =
      (formatLoop act (i + 2) (spell pieces) args).map (.before (text a) [(i + 1, a)]) := by
  change formatLoop act i (ch '%' :: k.char :: spell pieces) (a :: args) = _
  rw [formatLoop.eq_def]
  simp [taken]

end

/-- The loop over the spelled pieces, one step per piece. -/
inductive Formats (act : UInt8 → Act) : Nat → List Piece → List Nat → Printed → Prop where
  | done (i : Nat) (args : List Nat) : Formats act i [] args ⟨[], []⟩
  | byte {i : Nat} {pieces : List Piece} {args : List Nat} {rest : Printed} (c : UInt8) (literal : c ≠ ch '%')
      (onward : Formats act (i + 1) pieces args rest) :
      Formats act i (.byte c literal :: pieces) args (.before [c] [] rest)
  | plain {i : Nat} {pieces : List Piece} {args : List Nat} {rest : Printed} {k : Conversion} {text : List UInt8}
      (acts : act k.char = .plain text) (onward : Formats act (i + 2) pieces args rest) :
      Formats act i (.conversion k :: pieces) args (.before text [] rest)
  | arg {i : Nat} {pieces : List Piece} {args : List Nat} {rest : Printed} {k : Conversion} {text : Nat → List UInt8}
      (a : Nat) (acts : act k.char = .arg text) (onward : Formats act (i + 2) pieces args rest) :
      Formats act i (.conversion k :: pieces) (a :: args) (.before (text a) [(i + 1, a)] rest)

@[simp] theorem takers_byte (c : UInt8) (literal : c ≠ ch '%') (pieces : List Piece) :
    takers (.byte c literal :: pieces) = takers pieces := rfl

@[simp] theorem takers_percent (pieces : List Piece) : takers (.conversion .percent :: pieces) = takers pieces := rfl

theorem takers_conversion {k : Conversion} (taker : k ≠ .percent) (pieces : List Piece) :
    takers (.conversion k :: pieces) = k :: takers pieces := by
  simp [takers, taker]

namespace Formats

variable {act act' : UInt8 → Act} {i : Nat} {pieces : List Piece} {args : List Nat} {printed printed' : Printed}

theorem eq (formats : Formats act i pieces args printed) : formatLoop act i (spell pieces) args = some printed := by
  induction formats with
  | done i args => rfl
  | byte c literal onward ih => rw [formatLoop_byte, ih, Option.map_some]
  | plain acts onward ih => rw [formatLoop_plain acts, ih, Option.map_some]
  | arg a acts onward ih => rw [formatLoop_arg acts, ih, Option.map_some]

/-- The loop returns when there are arguments enough. -/
theorem exists_of (i : Nat) (takes : ∀ k : Conversion, (act k.char).Takes → k ≠ .percent)
    (enough : (takers pieces).length ≤ args.length) : ∃ printed, Formats act i pieces args printed := by
  induction pieces generalizing i args with
  | nil => exact ⟨_, done i args⟩
  | cons piece pieces ih =>
    cases piece with
    | byte c literal =>
      obtain ⟨rest, onward⟩ := ih (i + 1) enough
      exact ⟨_, byte c literal onward⟩
    | conversion k =>
      cases acts : act k.char with
      | plain text =>
        have fewer : (takers pieces).length ≤ args.length := by
          apply Nat.le_trans _ enough
          by_cases percent : k = .percent
          · subst percent
            exact Nat.le_refl _
          · simp [takers_conversion percent]
        obtain ⟨rest, onward⟩ := ih (i + 2) fewer
        exact ⟨_, plain acts onward⟩
      | arg text =>
        have taker : k ≠ .percent := takes k (by rw [acts]; trivial)
        rw [takers_conversion taker] at enough
        cases args with
        | nil => simp at enough
        | cons a args =>
          obtain ⟨rest, onward⟩ := ih (i + 2) (Nat.le_of_succ_le_succ enough)
          exact ⟨_, arg a acts onward⟩

theorem used_after (formats : Formats act i pieces args printed) : ∀ use ∈ printed.used, i < use.1 := by
  induction formats with
  | done => simp
  | byte c literal onward ih =>
    intro use taken
    exact Nat.lt_of_succ_lt (ih use taken)
  | plain acts onward ih =>
    intro use taken
    have := ih use taken
    omega
  | arg a acts onward ih =>
    intro use taken
    rcases List.mem_cons.mp taken with rfl | later
    · exact Nat.lt_succ_self _
    · have := ih use later
      omega

/-- Of two interpreters, the second taking an argument only where the first does, the same
arguments are taken at the same positions when they take them at the same conversions: an
argument left out at a conversion is never taken at its position. -/
theorem used_eq_iff (formats : Formats act i pieces args printed) (other : Formats act' i pieces args printed')
    (fewer : ∀ k : Conversion, (act' k.char).Takes → (act k.char).Takes) :
    printed'.used = printed.used ↔
      ∀ k, .conversion k ∈ pieces → (act k.char).Takes → (act' k.char).Takes := by
  induction formats generalizing printed' with
  | done i args =>
    cases other
    simp
  | byte c literal onward ih =>
    cases other with
    | byte _ _ onward' => simpa [Printed.before] using ih onward'
  | @plain i pieces args rest k text acts onward ih =>
    cases other with
    | plain acts' onward' =>
      have idle : ¬ (act k.char).Takes := by simp [acts, Act.Takes]
      simp [Printed.before, ih onward', idle]
    | arg a acts' onward' =>
      have taken := fewer k (by rw [acts']; trivial)
      rw [acts] at taken
      exact taken.elim
  | @arg i pieces args rest k text a acts onward ih =>
    have taken : (act k.char).Takes := by rw [acts]; trivial
    cases other with
    | plain acts' onward' =>
      constructor
      · intro same
        simp only [Printed.before, List.nil_append] at same
        have later := used_after onward' (i + 1, a) (by rw [same]; exact List.mem_cons_self)
        exact absurd later (by simp)
      · intro all
        have := all k List.mem_cons_self taken
        rw [acts'] at this
        exact this.elim
    | arg _ acts' onward' =>
      have taken' : (act' k.char).Takes := by rw [acts']; trivial
      simp [Printed.before, ih onward', taken']

end Formats

/-! ### klog beside kprintf -/

theorem append_eq_append_iff_of_le {α : Type} {s s' t t' : List α} (shorter : s.length ≤ s'.length)
    (shorter' : t.length ≤ t'.length) : s ++ t = s' ++ t' ↔ s = s' ∧ t = t' := by
  constructor
  · intro same
    have total : s.length + t.length = s'.length + t'.length := by
      simpa only [List.length_append] using congrArg List.length same
    exact List.append_inj same (by omega)
  · rintro ⟨rfl, rfl⟩
    rfl

section

variable (strings : Strings) (hex : Nat → List UInt8)

theorem kprintfSwitch_takes (k : Conversion) : (kprintfSwitch hex strings k.char).Takes ↔ k ≠ .percent := by
  cases k with
  | percent => exact ⟨False.elim, fun other => other rfl⟩
  | d | u | x | upperX | p | s | c => exact ⟨fun _ => Conversion.noConfusion, fun _ => trivial⟩

theorem klogSwitch_takes (k : Conversion) : (klogSwitch strings k.char).Takes ↔ k.Shared ∧ k ≠ .percent := by
  cases k with
  | d | x | s => exact ⟨fun _ => by decide, fun _ => trivial⟩
  | u | upperX | p | c | percent => exact ⟨False.elim, fun shared => absurd shared (by decide)⟩

/-- The two print an argument alike, but for the least int. -/
theorem shared_text {k : Conversion} (shared : k.Shared) (taker : k ≠ .percent) :
    ∃ text text' : Nat → List UInt8, kprintfSwitch emitHex8 strings k.char = .arg text ∧
      klogSwitch strings k.char = .arg text' ∧
      ∀ a < 2 ^ 32, (text' a).length ≤ (text a).length ∧ (text' a = text a ↔ (k = .d → a ≠ 2 ^ 31)) := by
  rcases shared with rfl | rfl | rfl | rfl
  · refine ⟨emitInt, klogInt, rfl, rfl, fun a bound => ?_⟩
    by_cases least : a = 2 ^ 31
    · subst least
      decide
    · rw [klogInt_eq bound least]
      exact ⟨Nat.le_refl _, fun _ _ => least, fun _ => rfl⟩
  · exact ⟨emitHex8, emitHex8, rfl, rfl, fun a _ => by simp⟩
  · exact ⟨emitStr strings, emitStr strings, rfl, rfl, fun a _ => by simp⟩
  · exact absurd rfl taker

/-- Where klog has a case for every conversion, its text is the padded text as soon as no
least int is printed; it is the shorter one otherwise. -/
theorem text_eq_iff {i : Nat} {pieces : List Piece} {args : List Nat} {padded log : Printed}
    (formats : Formats (kprintfSwitch emitHex8 strings) i pieces args padded)
    (logs : Formats (klogSwitch strings) i pieces args log) (fits : Fits pieces args)
    (shared : ∀ k, .conversion k ∈ pieces → k.Shared) :
    log.text.length ≤ padded.text.length ∧
      (log.text = padded.text ↔ ∀ a, (.d, a) ∈ (takers pieces).zip args → a ≠ 2 ^ 31) := by
  induction formats generalizing log with
  | done i args =>
    cases logs
    simp [takers]
  | byte c literal onward ih =>
    cases logs with
    | byte _ _ onward' =>
      have rest := ih onward' ⟨fits.count, fits.words⟩ fun k later => shared k (List.mem_cons_of_mem _ later)
      simpa [Printed.before] using rest
  | @plain i pieces args rest k text acts onward ih =>
    have percent : k = .percent := by
      by_contra other
      have := (kprintfSwitch_takes strings emitHex8 k).mpr other
      rw [acts] at this
      exact this
    subst percent
    cases logs with
    | plain acts' onward' =>
      have rest := ih onward' ⟨fits.count, fits.words⟩ fun k later => shared k (List.mem_cons_of_mem _ later)
      cases acts
      cases acts'
      simpa [Printed.before] using rest
    | arg a acts' onward' => cases acts'
  | @arg i pieces args rest k text a acts onward ih =>
    have taker : k ≠ .percent := (kprintfSwitch_takes strings emitHex8 k).mp (by rw [acts]; trivial)
    have fits' : Fits pieces args := by
      constructor
      · have count := fits.count
        rw [takers_conversion taker] at count
        exact Nat.succ.inj count
      · exact fun a later => fits.words a (List.mem_cons_of_mem _ later)
    obtain ⟨_, text', acts₁, acts₂, alike⟩ :=
      shared_text strings (shared k List.mem_cons_self) taker
    obtain ⟨shorter, same⟩ := alike a (fits.words a List.mem_cons_self)
    cases acts₁.symm.trans acts
    cases logs with
    | plain acts' onward' => cases acts'.symm.trans acts₂
    | arg _ acts' onward' =>
      cases acts₂.symm.trans acts'
      obtain ⟨shorter', same'⟩ := ih onward' fits' fun k later => shared k (List.mem_cons_of_mem _ later)
      constructor
      · simp only [Printed.before, List.length_append]
        exact Nat.add_le_add shorter shorter'
      · rw [takers_conversion taker, List.zip_cons_cons]
        calc (Printed.before (text' a) [(i + 1, a)] _).text = (Printed.before (text a) [(i + 1, a)] rest).text
            ↔ text' a = text a ∧ _ = rest.text := append_eq_append_iff_of_le shorter shorter'
          _ ↔ _ := by
            rw [same, same']
            simp only [List.mem_cons, Prod.mk.injEq]
            grind

end

theorem agree_of_loggable_iff {strings : Strings} {pieces : List Piece} {args : List Nat} (fits : Fits pieces args) :
    Agree strings (spell pieces) args ↔ Loggable pieces args := by
  have enough : (takers pieces).length ≤ args.length := Nat.le_of_eq fits.count.symm
  have takes (hex : Nat → List UInt8) (k : Conversion) :
      (kprintfSwitch hex strings k.char).Takes → k ≠ .percent := (kprintfSwitch_takes strings hex k).mp
  have logTakes (k : Conversion) (taken : (klogSwitch strings k.char).Takes) : k.Shared ∧ k ≠ .percent :=
    (klogSwitch_takes strings k).mp taken
  obtain ⟨plain, plainly⟩ := Formats.exists_of 0 (takes (fun a => emitUint a 16 false)) enough
  obtain ⟨padded, paddedly⟩ := Formats.exists_of 0 (takes emitHex8) enough
  obtain ⟨log, logs⟩ := Formats.exists_of 0 (fun k taken => (logTakes k taken).2) enough
  have positions := plainly.used_eq_iff logs fun k taken => (kprintfSwitch_takes strings _ k).mpr (logTakes k taken).2
  have sharedAll : log.used = plain.used ↔ ∀ k, .conversion k ∈ pieces → k.Shared := by
    rw [positions]
    apply forall₂_congr
    intro k _
    rw [kprintfSwitch_takes, klogSwitch_takes]
    by_cases percent : k = .percent
    · subst percent
      decide
    · simp [percent]
  have framed : klog strings (spell pieces) args = some ⟨ascii "[LOG] " ++ log.text ++ [ch '\n'], log.used⟩ := by
    rw [klog, logs.eq]
    rfl
  have unframed (text : List UInt8) :
      ascii "[LOG] " ++ log.text ++ [ch '\n'] = ascii "[LOG] " ++ text ++ [ch '\n'] ↔ log.text = text := by
    rw [List.append_left_inj, List.append_right_inj]
  constructor
  · rintro ⟨_, _, _, ofPlain, ofPadded, ofLog, used, text⟩
    cases plainly.eq.symm.trans ofPlain
    cases paddedly.eq.symm.trans ofPadded
    cases framed.symm.trans ofLog
    have shared := sharedAll.mp used
    exact ⟨shared, (text_eq_iff strings paddedly logs fits shared).2.mp ((unframed _).mp text)⟩
  · intro loggable
    have same := (text_eq_iff strings paddedly logs fits loggable.shared).2.mpr loggable.printable
    exact ⟨plain, padded, _, plainly.eq, paddedly.eq, framed, sharedAll.mpr loggable.shared, (unframed _).mpr same⟩

/-- klog agrees with kprintf on the formats it has a case for, and on no others: at a
conversion it does not know, it leaves the argument to the next conversion. -/
theorem klog_agrees_iff (strings : Strings) (pieces : List Piece) (args : List Nat) (fits : Fits pieces args) :
    Agree strings (spell pieces) args ↔ Loggable pieces args :=
  agree_of_loggable_iff fits

/-- The text of a format without conversions. -/
def verbatim (s : String) : List Piece :=
  (ascii s).filterMap fun c => if literal : c ≠ ch '%' then some (.byte c literal) else none

/-- The second line that the handler of exceptions logs. -/
def registersLine : List Piece :=
  verbatim "  EAX=" ++ [.conversion .x] ++ verbatim " EBX=" ++ [.conversion .x] ++
    verbatim " ECX=" ++ [.conversion .x] ++ verbatim " EDX=" ++ [.conversion .x]

theorem klog_agrees_iff_registers :
    Agree (fun _ => []) (spell registersLine) [0, 1, 0xB8000, 0xFFFFFFFF] ↔
      Loggable registersLine [0, 1, 0xB8000, 0xFFFFFFFF] :=
  klog_agrees_iff (fun _ => []) registersLine [0, 1, 0xB8000, 0xFFFFFFFF] ⟨by decide, by decide⟩

/-- The first line that the handler of exceptions logs. -/
def exceptionLine : List Piece :=
  verbatim "EXCEPTION #" ++ [.conversion .u] ++ verbatim " (" ++ [.conversion .s] ++
    verbatim ") EIP=" ++ [.conversion .x] ++ verbatim " ERR=" ++ [.conversion .x]

/-- For a page fault the number 14 is printed as a string, the pointer to the name in place
of EIP, and EIP in place of the error code. -/
theorem exception_line_shifts :
    spell exceptionLine = ascii "EXCEPTION #%u (%s) EIP=%x ERR=%x" ∧
    ¬ (∀ strings pieces args, Fits pieces args → Agree strings (spell pieces) args) ∧
    klog (fun p => if p = 14 then ascii "???" else if p = 0x9000 then ascii "Page Fault" else [])
        (spell exceptionLine) [14, 0x9000, 0x100, 2] =
      some ⟨ascii "[LOG] EXCEPTION #%u (???) EIP=00009000 ERR=00000100\n", [(16, 14), (24, 0x9000), (31, 0x100)]⟩ := by
  have fits : Fits exceptionLine [14, 0x9000, 0x100, 2] := ⟨by decide, by decide⟩
  have unknown : Piece.conversion .u ∈ exceptionLine := by decide
  refine ⟨by decide, fun all => ?_, by decide +kernel⟩
  have shared := ((agree_of_loggable_iff fits).mp (all (fun _ => []) _ _ fits)).shared .u unknown
  exact absurd shared (by decide)

end ChrisOS.Kernel.Kprintf
