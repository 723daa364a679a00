import ChrisOS.Kernel.Kprintf
import ChrisOS.Lib.Terminated
import ChrisOS.Lib.Traced
import ChrisOS.Net.Dns

/-! The input line of shell/shell.c and the line kept as its history.

What commands do besides reading the line is left out, and so is what goes to the terminal.
-/

set_option autoImplicit false

namespace ChrisOS.Shell
open ChrisOS.Lib Traced
open ChrisOS.Kernel.Kprintf (ascii)
open ChrisOS.Net.Dns (toInt_toInt8_inj)

/-- INPUT_SIZE. -/
def inputSize : Nat := 256

def newline : UInt8 := 0x0A
def backspace : UInt8 := 0x08

/-- An access to one of the two arrays, by its index. -/
inductive Access where
  | input (i : Nat)
  | history (i : Nat)

def Access.Inside : Access → Prop
  | .input i | .history i => i < inputSize

structure Editor where
  input : Nat → UInt8
  inputLen : Nat
  history : Nat → UInt8
  historyLen : Nat
  cursorPos : Nat

/-- As the kernel is loaded. -/
def Editor.boot : Editor := ⟨fun _ => 0, 0, fun _ => 0, 0, 0⟩

/-- What shell_execute is called with: the array input at that time, and input_len. -/
structure Call where
  cmd : Nat → UInt8
  len : Nat

/-- `for (i = 0; i < len; i++) dst[i] = src[i]`, from index i on. -/
def copyChars (reads writes : Nat → Access) (src : Nat → UInt8) : Nat → Nat → (Nat → UInt8) → Traced Access (Nat → UInt8)
  | 0, _, dst => pure dst
  | rounds + 1, i, dst => do
    emit (reads i)
    emit (writes i)
    copyChars reads writes src rounds (i + 1) (Function.update dst i (src i))

/-! ### Commands -/

/-- `*a - *b` where the strings differ or one ends, for the array input from index i on. -/
def strcmp (cmd : Nat → UInt8) : List UInt8 → Nat → Traced Access Int
  | [], i => do
    emit (.input i)
    pure (cmd i).toInt8.toInt
  | b :: rest, i => do
    emit (.input i)
    if cmd i ≠ 0 ∧ b ≠ 0 ∧ cmd i = b then strcmp cmd rest (i + 1)
    else pure ((cmd i).toInt8.toInt - b.toInt8.toInt)

/-- The same for as many characters as the second string has. -/
def strncmp (cmd : Nat → UInt8) : List UInt8 → Nat → Traced Access Int
  | [], _ => pure 0
  | b :: rest, i => do
    emit (.input i)
    if cmd i ≠ 0 ∧ b ≠ 0 ∧ cmd i = b then strncmp cmd rest (i + 1)
    else pure ((cmd i).toInt8.toInt - b.toInt8.toInt)

/-- A string of the array input is read up to its terminator, or until it leaves the array. -/
def readString (cmd : Nat → UInt8) : Nat → Nat → Traced Access Unit
  | 0, _ => pure ()
  | rounds + 1, i => do
    emit (.input i)
    if cmd i = 0 then pure () else readString cmd rounds (i + 1)

/-- A branch of shell_execute, by what the line is compared with. -/
inductive Branch where
  /-- Compared with strcmp. -/
  | exact (name : List UInt8)
  /-- Compared with strncmp; an argument stands behind the name. -/
  | argument (name : List UInt8)

def Branch.name : Branch → List UInt8
  | .exact name | .argument name => name

/-- In the order of the source. -/
def branches : List Branch :=
  [.exact (ascii "help"), .exact (ascii "install"), .exact (ascii "clear"), .exact (ascii "version"),
    .argument (ascii "echo "), .exact (ascii "meminfo"), .exact (ascii "uptime"), .exact (ascii "reboot"),
    .exact (ascii "ls"), .argument (ascii "cat "), .exact (ascii "disk"), .exact (ascii "ui"),
    .argument (ascii "exec "), .exact (ascii "ifconfig"), .exact (ascii "dhcp"), .argument (ascii "ping "),
    .argument (ascii "nslookup "), .argument (ascii "wget ")]

/-- A command is looked for and reads its argument; an unknown one is printed. -/
def runCommand (cmd : Nat → UInt8) : List Branch → Traced Access Unit
  | [] => readString cmd (inputSize + 1) 0
  | .exact name :: rest => do
    let order ← strcmp cmd name 0
    if order = 0 then pure () else runCommand cmd rest
  | .argument name :: rest => do
    let order ← strncmp cmd name 0
    if order = 0 then readString cmd (inputSize + 1) name.length else runCommand cmd rest

def shellExecute (y : Editor) (call : Call) : Traced Access Editor :=
  if call.len = 0 then pure y
  else do
    let history ← copyChars .input .history call.cmd call.len 0 y.history
    emit (.history call.len)
    runCommand call.cmd branches
    pure { y with history := Function.update history call.len 0, historyLen := call.len }

/-! ### Keys -/

/-- With the call of shell_execute, if there is one. -/
def shellProcessChar (installerActive : Bool) (y : Editor) (c : UInt8) : Traced Access (Editor × Option Call) :=
  -- the character goes to installer_handle_char
  if installerActive then pure (y, none)
  else if c = newline then do
    let call : Call := ⟨y.input, y.inputLen⟩
    let y ← shellExecute y call
    emit (.input 0)
    pure ({ y with input := Function.update y.input 0 0, inputLen := 0, cursorPos := 0 }, some call)
  else if c = backspace then
    if 0 < y.inputLen then do
      emit (.input (y.inputLen - 1))
      pure ({ y with input := Function.update y.input (y.inputLen - 1) 0, inputLen := y.inputLen - 1 }, none)
    else pure (y, none)
  else if y.inputLen < inputSize - 1 then do
    emit (.input y.inputLen)
    emit (.input (y.inputLen + 1))
    pure ({ y with
      input := Function.update (Function.update y.input y.inputLen c) (y.inputLen + 1) 0
      inputLen := y.inputLen + 1 }, none)
  else pure (y, none)

def shellCursorLeft (y : Editor) : Editor := if 0 < y.cursorPos then { y with cursorPos := y.cursorPos - 1 } else y

def shellCursorRight (y : Editor) : Editor :=
  if y.cursorPos < y.inputLen then { y with cursorPos := y.cursorPos + 1 } else y

def shellHistoryUp (y : Editor) : Traced Access Editor :=
  if y.historyLen = 0 then pure y
  else do
    let input ← copyChars .history .input y.history y.historyLen 0 y.input
    emit (.input y.historyLen)
    pure { y with input := Function.update input y.historyLen 0, inputLen := y.historyLen, cursorPos := y.historyLen }

def shellHistoryDown (y : Editor) : Traced Access Editor := do
  emit (.input 0)
  pure { y with inputLen := 0, input := Function.update y.input 0 0, cursorPos := 0 }

/-- What the keyboard calls. -/
inductive Press where
  | processChar (c : UInt8)
  | historyUp
  | historyDown
  | cursorLeft
  | cursorRight
  deriving DecidableEq

namespace Editor

def press (installerActive : Bool) (y : Editor) : Press → Traced Access (Editor × Option Call)
  | .processChar c => shellProcessChar installerActive y c
  | .historyUp => do
    let y ← shellHistoryUp y
    pure (y, none)
  | .historyDown => do
    let y ← shellHistoryDown y
    pure (y, none)
  | .cursorLeft => pure (shellCursorLeft y, none)
  | .cursorRight => pure (shellCursorRight y, none)

/-- Presses while the installer is not active, with the calls of shell_execute in order. -/
def run : Editor → List Press → Traced Access (Editor × List Call)
  | y, [] => pure (y, [])
  | y, p :: rest => do
    let x ← press false y p
    let later ← run x.1 rest
    pure (later.1, x.2.toList ++ later.2)

end Editor

/-! ### Accesses -/

theorem value_copyChars (reads writes : Nat → Access) (src : Nat → UInt8) (n i : Nat) (dst : Nat → UInt8) :
    (copyChars reads writes src n i dst).value = fun j => if i ≤ j ∧ j < i + n then src j else dst j := by
  induction n generalizing i dst with
  | zero =>
    funext j
    rw [if_neg (by omega)]
    rfl
  | succ n ih =>
    rw [copyChars, value_bind, value_bind, ih]
    funext j
    rcases Nat.lt_trichotomy j i with before | rfl | behind
    · rw [if_neg (by omega), if_neg (by omega), Function.update_of_ne (Nat.ne_of_lt before)]
    · rw [if_neg (by omega), if_pos (by omega), Function.update_self]
    · rw [Function.update_of_ne (Nat.ne_of_gt behind)]
      exact if_congr (by omega) rfl rfl

theorem value_copyChars_zero (reads writes : Nat → Access) (src : Nat → UInt8) (n : Nat) (dst : Nat → UInt8) :
    (copyChars reads writes src n 0 dst).value = copied n src dst := by
  rw [value_copyChars]
  funext j
  exact if_congr (by omega) rfl rfl

theorem copyChars_inside {reads writes : Nat → Access} (src : Nat → UInt8) {n i : Nat} (dst : Nat → UInt8)
    (inside : ∀ j, j < i + n → (reads j).Inside ∧ (writes j).Inside) :
    All Access.Inside (copyChars reads writes src n i dst) := by
  induction n generalizing i dst with
  | zero => exact all_pure _
  | succ n ih =>
    obtain ⟨read, write⟩ := inside i (by omega)
    rw [copyChars, all_bind_iff, all_bind_iff, all_emit_iff, all_emit_iff]
    exact ⟨read, write, ih _ fun j below => inside j (by omega)⟩

section
variable {cmd : Nat → UInt8} {n : Nat} (stop : cmd n = 0) (below : n < inputSize)
include stop

/-- A character that is not the terminator stands before it. -/
theorem succ_le_of_ne_zero {i : Nat} (upTo : i ≤ n) (more : cmd i ≠ 0) : i + 1 ≤ n :=
  Nat.lt_of_le_of_ne upTo fun here => more (here ▸ stop)

/-- Equal strings are equally long as far as they are compared. -/
theorem length_le_of_strncmp {name : List UInt8} (free : 0 ∉ name) {i : Nat} (upTo : i ≤ n)
    (same : (strncmp cmd name i).value = 0) : i + name.length ≤ n := by
  induction name generalizing i with
  | nil => exact upTo
  | cons b rest ih =>
    rw [List.mem_cons, not_or] at free
    rw [strncmp, value_bind] at same
    split at same
    · rename_i both
      have behind := ih free.2 (succ_le_of_ne_zero stop upTo both.1) same
      rw [List.length_cons]
      omega
    · rename_i apart
      have equal : cmd i = b := toInt_toInt8_inj.mp (Int.sub_eq_zero.mp same)
      have more : b ≠ 0 := fun zero => free.1 zero.symm
      exact absurd ⟨equal ▸ more, more, equal⟩ apart

include below

theorem strcmp_inside (name : List UInt8) {i : Nat} (upTo : i ≤ n) : All Access.Inside (strcmp cmd name i) := by
  have here : Access.Inside (.input i) := Nat.lt_of_le_of_lt upTo below
  induction name generalizing i with
  | nil =>
    rw [strcmp, all_bind_iff, all_emit_iff]
    exact ⟨here, all_pure _⟩
  | cons b rest ih =>
    rw [strcmp, all_bind_iff, all_emit_iff]
    refine ⟨here, ?_⟩
    split
    · rename_i both
      have next := succ_le_of_ne_zero stop upTo both.1
      exact ih next (Nat.lt_of_le_of_lt next below)
    · exact all_pure _

theorem strncmp_inside (name : List UInt8) {i : Nat} (upTo : i ≤ n) : All Access.Inside (strncmp cmd name i) := by
  induction name generalizing i with
  | nil => exact all_pure _
  | cons b rest ih =>
    rw [strncmp, all_bind_iff, all_emit_iff]
    refine ⟨Nat.lt_of_le_of_lt upTo below, ?_⟩
    split
    · rename_i both
      exact ih (succ_le_of_ne_zero stop upTo both.1)
    · exact all_pure _

theorem readString_inside (rounds : Nat) {i : Nat} (upTo : i ≤ n) : All Access.Inside (readString cmd rounds i) := by
  induction rounds generalizing i with
  | zero => exact all_pure _
  | succ rounds ih =>
    rw [readString, all_bind_iff, all_emit_iff]
    refine ⟨Nat.lt_of_le_of_lt upTo below, ?_⟩
    split
    · exact all_pure _
    · rename_i more
      exact ih (succ_le_of_ne_zero stop upTo more)

theorem runCommand_inside {list : List Branch} (free : ∀ branch ∈ list, 0 ∉ branch.name) :
    All Access.Inside (runCommand cmd list) := by
  induction list with
  | nil => exact readString_inside stop below _ (Nat.zero_le n)
  | cons branch rest ih =>
    rw [List.forall_mem_cons] at free
    cases branch with
    | exact name =>
      rw [runCommand, all_bind_iff]
      refine ⟨strcmp_inside stop below name (Nat.zero_le n), ?_⟩
      split
      · exact all_pure _
      · exact ih free.2
    | argument name =>
      rw [runCommand, all_bind_iff]
      refine ⟨strncmp_inside stop below name (Nat.zero_le n), ?_⟩
      split
      · rename_i same
        have reached : 0 + name.length ≤ n := length_le_of_strncmp stop free.1 (Nat.zero_le n) same
        exact readString_inside stop below _ (by omega)
      · exact ih free.2

end

theorem branches_free : ∀ branch ∈ branches, 0 ∉ branch.name := by decide

/-! ### The reference editor -/

/-- A line that fits into an array of the shell. -/
structure Text where
  chars : List UInt8
  fits : chars.length ≤ 255
  nonzero : 0 ∉ chars

namespace Text

theorem nil_nonzero : (0 : UInt8) ∉ [] := List.not_mem_nil

def empty : Text := ⟨[], Nat.zero_le _, nil_nonzero⟩

/-- Appended if there is room, and dropped otherwise. -/
def append (t : Text) (c : UInt8) (nonzero : c ≠ 0) : Text :=
  if room : t.chars.length < 255 then
    ⟨t.chars ++ [c], by
      rw [List.length_append, List.length_singleton]
      exact room, by
      rw [List.mem_append, List.mem_singleton, not_or]
      exact ⟨t.nonzero, nonzero.symm⟩⟩
  else t

/-- Without its last character, if it has one. -/
def dropLast (t : Text) : Text :=
  ⟨t.chars.dropLast, Nat.le_trans (List.length_dropLast ▸ Nat.sub_le _ _) t.fits,
    fun member => t.nonzero (List.mem_of_mem_dropLast member)⟩

end Text

/-- The keys of the line editor. A character is none of those with a meaning of their own. -/
inductive Key where
  | char (c : UInt8) (nonzero : c ≠ 0) (plain : c ≠ newline ∧ c ≠ backspace)
  | backspace
  | newline
  | historyUp
  | historyDown
  | cursorLeft
  | cursorRight

def Key.press : Key → Press
  | .char c _ _ => .processChar c
  | .backspace => .processChar Shell.backspace
  | .newline => .processChar Shell.newline
  | .historyUp => .historyUp
  | .historyDown => .historyDown
  | .cursorLeft => .cursorLeft
  | .cursorRight => .cursorRight

/-- A line, and the last one executed that was not empty. -/
structure Reference where
  line : Text
  last : Option {t : Text // t.chars ≠ []}

namespace Reference

def empty : Reference := ⟨Text.empty, none⟩

/-- A newline executes the line; one that is empty is not remembered. -/
def execute (r : Reference) : Reference where
  line := Text.empty
  last := if some : r.line.chars ≠ [] then Option.some ⟨r.line, some⟩ else r.last

/-- With the line that is executed, if one is. -/
def next (r : Reference) : Key → Reference × Option Text
  | .char c nonzero _ => ({ r with line := r.line.append c nonzero }, none)
  | .backspace => ({ r with line := r.line.dropLast }, none)
  | .newline => (r.execute, some r.line)
  | .historyUp => ({ r with line := (r.last.map Subtype.val).getD r.line }, none)
  | .historyDown => ({ r with line := Text.empty }, none)
  | .cursorLeft | .cursorRight => (r, none)

def run : Reference → List Key → Reference × List Text
  | r, [] => (r, [])
  | r, k :: keys => ((run (r.next k).1 keys).1, (r.next k).2.toList ++ (run (r.next k).1 keys).2)

end Reference

/-! ### Refinement -/

/-- The call passes the text with its terminator and its length. -/
structure Call.Passes (call : Call) (t : Text) : Prop where
  cmd : Terminated 0 call.cmd t.chars
  len : call.len = t.chars.length

/-- The array history holds the last line, or nothing if its length is 0. -/
def Remembers (history : Nat → UInt8) (len : Nat) : Option {t : Text // t.chars ≠ []} → Prop
  | none => len = 0
  | some t => Terminated 0 history t.val.chars ∧ len = t.val.chars.length

structure Represents (y : Editor) (r : Reference) : Prop where
  input : Terminated 0 y.input r.line.chars
  inputLen : y.inputLen = r.line.chars.length
  remembers : Remembers y.history y.historyLen r.last

/-- A press stays in the arrays, and does and executes what the reference does. -/
structure Follows (x : Traced Access (Editor × Option Call)) (o : Reference × Option Text) : Prop where
  inside : All Access.Inside x
  represents : Represents x.value.1 o.1
  passes : Option.Rel Call.Passes x.value.2 o.2

theorem boot_represents : Represents Editor.boot Reference.empty where
  input := ⟨fun _ inside => absurd inside (Nat.not_lt_zero _), rfl⟩
  inputLen := rfl
  remembers := rfl

section
variable {y : Editor} {r : Reference}

theorem Text.below (t : Text) : t.chars.length < inputSize := Nat.lt_succ_of_le t.fits

theorem shellExecute_empty {call : Call} (empty : call.len = 0) : shellExecute y call = pure y := if_pos empty

theorem value_shellExecute {call : Call} (some : call.len ≠ 0) : (shellExecute y call).value =
    { y with history := Function.update (copied call.len call.cmd y.history) call.len 0, historyLen := call.len } := by
  rw [shellExecute, if_neg some, value_bind, value_copyChars_zero]
  rfl

theorem shellExecute_inside {call : Call} {t : Text} (passes : call.Passes t) :
    All Access.Inside (shellExecute y call) := by
  have stop : call.cmd call.len = 0 := passes.len ▸ passes.cmd.stop
  have below : call.len < inputSize := passes.len ▸ t.below
  rw [shellExecute]
  split
  · exact all_pure _
  · rw [all_bind_iff, all_bind_iff, all_bind_iff, all_emit_iff]
    refine ⟨copyChars_inside _ _ fun j inside => ?_, below, runCommand_inside stop below branches_free, all_pure _⟩
    rw [Nat.zero_add] at inside
    exact ⟨Nat.lt_trans inside below, Nat.lt_trans inside below⟩

/-- A line that is not empty becomes the history. -/
theorem shellExecute_remembers (rep : Represents y r) :
    Remembers (shellExecute y ⟨y.input, y.inputLen⟩).value.history
      (shellExecute y ⟨y.input, y.inputLen⟩).value.historyLen r.execute.last := by
  unfold Reference.execute
  by_cases empty : r.line.chars = []
  · have zero : y.inputLen = 0 := rep.inputLen.trans (congrArg List.length empty)
    rw [shellExecute_empty zero, dif_neg (not_not.mpr empty)]
    exact rep.remembers
  · have some : y.inputLen ≠ 0 := by
      rw [rep.inputLen]
      exact (List.length_pos_iff.mpr empty).ne'
    rw [value_shellExecute some, dif_pos empty]
    refine ⟨?_, rep.inputLen⟩
    dsimp only
    rw [rep.inputLen]
    exact rep.input.copy _

theorem newline_follows (rep : Represents y r) : Follows (shellProcessChar false y newline) (r.next .newline) := by
  have passes : Call.Passes ⟨y.input, y.inputLen⟩ r.line := ⟨rep.input, rep.inputLen⟩
  have start : Access.Inside (.input 0) := Nat.zero_lt_succ _
  rw [shellProcessChar, if_neg Bool.false_ne_true, if_pos rfl]
  constructor
  · rw [all_bind_iff, all_bind_iff, all_emit_iff]
    exact ⟨shellExecute_inside passes, start, all_pure _⟩
  · exact ⟨Terminated.clear 0 _, rfl, shellExecute_remembers rep⟩
  · exact .some passes

theorem backspace_follows (rep : Represents y r) : Follows (shellProcessChar false y backspace) (r.next .backspace) := by
  have below := r.line.below
  rw [shellProcessChar, if_neg Bool.false_ne_true, if_neg (by decide), if_pos rfl]
  split
  · constructor
    · rw [all_bind_iff, all_emit_iff, rep.inputLen]
      exact ⟨Nat.lt_of_le_of_lt (Nat.sub_le _ _) below, all_pure _⟩
    · refine ⟨?_, ?_, rep.remembers⟩
      · show Terminated 0 (Function.update y.input (y.inputLen - 1) 0) r.line.chars.dropLast
        rw [rep.inputLen]
        exact rep.input.dropLast
      · show y.inputLen - 1 = r.line.chars.dropLast.length
        rw [rep.inputLen, List.length_dropLast]
    · exact .none
  · rename_i none
    have empty : r.line.chars = [] := by
      rw [rep.inputLen] at none
      exact List.eq_nil_of_length_eq_zero (Nat.eq_zero_of_not_pos none)
    have same : r.line.chars.dropLast = r.line.chars := by rw [empty, List.dropLast_nil]
    refine ⟨all_pure _, ⟨?_, ?_, rep.remembers⟩, .none⟩
    · show Terminated 0 y.input r.line.chars.dropLast
      rw [same]
      exact rep.input
    · show y.inputLen = r.line.chars.dropLast.length
      rw [same]
      exact rep.inputLen

theorem char_follows (rep : Represents y r) {c : UInt8} (nonzero : c ≠ 0) (plain : c ≠ newline ∧ c ≠ backspace) :
    Follows (shellProcessChar false y c) (r.next (.char c nonzero plain)) := by
  rw [shellProcessChar, if_neg Bool.false_ne_true, if_neg plain.1, if_neg plain.2, Reference.next, Text.append]
  split
  · rename_i room
    have fits : r.line.chars.length < 255 := rep.inputLen ▸ room
    rw [dif_pos fits]
    constructor
    · rw [all_bind_iff, all_bind_iff, all_emit_iff, all_emit_iff, rep.inputLen]
      exact ⟨r.line.below, Nat.succ_lt_succ fits, all_pure _⟩
    · refine ⟨?_, ?_, rep.remembers⟩
      · show Terminated 0 (Function.update (Function.update y.input y.inputLen c) (y.inputLen + 1) 0) (r.line.chars ++ [c])
        rw [rep.inputLen]
        exact rep.input.push c
      · show y.inputLen + 1 = (r.line.chars ++ [c]).length
        rw [rep.inputLen, List.length_append, List.length_singleton]
    · exact .none
  · rename_i full
    have stays : ¬ r.line.chars.length < 255 := rep.inputLen ▸ full
    rw [dif_neg stays]
    exact ⟨all_pure _, rep, .none⟩

theorem historyUp_follows (rep : Represents y r) : Follows (y.press false .historyUp) (r.next .historyUp) := by
  have remembers := rep.remembers
  rw [Editor.press, shellHistoryUp, Reference.next]
  cases known : r.last with
  | none =>
    rw [known] at remembers
    have zero : y.historyLen = 0 := remembers
    rw [if_pos zero]
    exact ⟨all_pure _, ⟨rep.input, rep.inputLen, remembers⟩, .none⟩
  | some t =>
    rw [known] at remembers
    have ⟨held, length⟩ := remembers
    have below := t.val.below
    have some : y.historyLen ≠ 0 := length ▸ (List.length_pos_iff.mpr t.property).ne'
    rw [if_neg some]
    constructor
    · rw [all_bind_iff, all_bind_iff, all_bind_iff, all_emit_iff, length]
      refine ⟨⟨copyChars_inside _ _ fun j inside => ?_, below, all_pure _⟩, all_pure _⟩
      rw [Nat.zero_add] at inside
      exact ⟨Nat.lt_trans inside below, Nat.lt_trans inside below⟩
    · refine ⟨?_, length, remembers⟩
      show Terminated 0 (Function.update (copyChars .history .input y.history y.historyLen 0 y.input).value y.historyLen 0) t.val.chars
      rw [value_copyChars_zero, length]
      exact held.copy _
    · exact .none

theorem historyDown_follows (rep : Represents y r) : Follows (y.press false .historyDown) (r.next .historyDown) := by
  have start : Access.Inside (.input 0) := Nat.zero_lt_succ _
  refine ⟨?_, ⟨Terminated.clear 0 _, rfl, rep.remembers⟩, .none⟩
  rw [Editor.press, shellHistoryDown, all_bind_iff, all_bind_iff, all_emit_iff]
  exact ⟨⟨start, all_pure _⟩, all_pure _⟩

/-- The cursor is in none of the arrays. -/
theorem cursor_follows (rep : Represents y r) {cursor : Editor → Editor}
    (keeps : (cursor y).input = y.input ∧ (cursor y).inputLen = y.inputLen ∧
      (cursor y).history = y.history ∧ (cursor y).historyLen = y.historyLen) :
    Follows (pure (cursor y, none)) (r, none) := by
  obtain ⟨input, inputLen, history, historyLen⟩ := keeps
  refine ⟨all_pure _, ⟨?_, ?_, ?_⟩, .none⟩
  · exact input.symm ▸ rep.input
  · exact inputLen.trans rep.inputLen
  · show Remembers (cursor y).history (cursor y).historyLen r.last
    rw [history, historyLen]
    exact rep.remembers

/-- Every key does what it does to the reference. -/
theorem press_follows (rep : Represents y r) (k : Key) : Follows (y.press false k.press) (r.next k) := by
  cases k with
  | char c nonzero plain => exact char_follows rep nonzero plain
  | backspace => exact backspace_follows rep
  | newline => exact newline_follows rep
  | historyUp => exact historyUp_follows rep
  | historyDown => exact historyDown_follows rep
  | cursorLeft =>
    refine cursor_follows rep ?_
    unfold shellCursorLeft
    split <;> exact ⟨rfl, rfl, rfl, rfl⟩
  | cursorRight =>
    refine cursor_follows rep ?_
    unfold shellCursorRight
    split <;> exact ⟨rfl, rfl, rfl, rfl⟩

theorem passes_toList {call : Option Call} {t : Option Text} (passes : Option.Rel Call.Passes call t) :
    List.Forall₂ Call.Passes call.toList t.toList := by
  cases passes with
  | none => exact .nil
  | some passes => exact .cons passes .nil

/-- From a represented state on, every sequence of keys does. -/
theorem run_follows (rep : Represents y r) (keys : List Key) :
    All Access.Inside (y.run (keys.map Key.press)) ∧
    Represents (y.run (keys.map Key.press)).value.1 (r.run keys).1 ∧
    List.Forall₂ Call.Passes (y.run (keys.map Key.press)).value.2 (r.run keys).2 := by
  induction keys generalizing y r with
  | nil => exact ⟨all_pure _, rep, .nil⟩
  | cons k keys ih =>
    have first := press_follows rep k
    obtain ⟨inside, represents, passes⟩ := ih first.represents
    rw [List.map_cons, Editor.run, Reference.run]
    refine ⟨?_, represents, ?_⟩
    · rw [all_bind_iff, all_bind_iff]
      exact ⟨first.inside, inside, all_pure _⟩
    · exact List.rel_append (passes_toList first.passes) passes

end

/-- The line editor does what the reference does for every sequence of keys since the start. -/
theorem editor_refines (keys : List Key) :
    All Access.Inside (Editor.boot.run (keys.map Key.press)) ∧
    Represents (Editor.boot.run (keys.map Key.press)).value.1 (Reference.empty.run keys).1 ∧
    List.Forall₂ Call.Passes (Editor.boot.run (keys.map Key.press)).value.2 (Reference.empty.run keys).2 :=
  run_follows boot_represents keys

end ChrisOS.Shell
