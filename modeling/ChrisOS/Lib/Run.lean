/-! Finite runs of a labelled step relation, with every move on record.

A run theorem is assembled from facts about one move: an invariant that admitted
moves keep, and what a move can do from a state of the invariant.
-/

set_option autoImplicit false

namespace ChrisOS.Lib

/-- One step taken: the state before it, what happened, the state after it. -/
structure Move (S E : Type) where
  before : S
  event : E
  after : S

variable {S E : Type}

/-- The finite runs of a step relation, by their moves in order. -/
inductive Run (step : S → E → S → Prop) : S → List (Move S E) → S → Prop where
  | nil (s : S) : Run step s [] s
  | cons {s t u : S} {e : E} {moves : List (Move S E)} :
      step s e t → Run step t moves u → Run step s (⟨s, e, t⟩ :: moves) u

variable {step : S → E → S → Prop}

theorem Run.single {s t : S} {e : E} (taken : step s e t) : Run step s [⟨s, e, t⟩] t :=
  .cons taken (.nil t)

theorem Run.append {s t u : S} {first second : List (Move S E)} (left : Run step s first t)
    (right : Run step t second u) : Run step s (first ++ second) u := by
  induction left with
  | nil => exact right
  | cons taken _ ih => exact .cons taken (ih right)

/-- A run that is cut in two ends its first part where the second one starts. -/
theorem Run.split {s u : S} (first : List (Move S E)) {second : List (Move S E)}
    (run : Run step s (first ++ second) u) : ∃ t, Run step s first t ∧ Run step t second u := by
  induction first generalizing s with
  | nil => exact ⟨s, .nil s, run⟩
  | cons m first ih =>
    cases run with
    | cons taken rest =>
      obtain ⟨t, left, right⟩ := ih rest
      exact ⟨t, .cons taken left, right⟩

/-- A stretch of a run is a run from a state that the run reaches. -/
theorem Run.stretch {s u : S} {moves part : List (Move S E)} (run : Run step s moves u) (inside : part <:+: moves) :
    ∃ before t v, Run step s before t ∧ Run step t part v := by
  obtain ⟨before, after, rfl⟩ := inside
  obtain ⟨v, left, -⟩ := Run.split (before ++ part) run
  obtain ⟨t, first, second⟩ := Run.split before left
  exact ⟨before, t, v, first, second⟩

/-- Every recorded move is a step. -/
theorem Run.steps {s u : S} {moves : List (Move S E)} (run : Run step s moves u) :
    ∀ m ∈ moves, step m.before m.event m.after := by
  induction run with
  | nil => simp
  | cons taken _ ih => simpa using ⟨taken, ih⟩

/-- A run all of whose events are admitted is a run of the admitted steps. -/
theorem Run.restrict {admits : S → E → Prop} {s u : S} {moves : List (Move S E)} (run : Run step s moves u)
    (admitted : ∀ m ∈ moves, admits m.before m.event) : Run (fun s e t => step s e t ∧ admits s e) s moves u := by
  induction run with
  | nil => exact .nil _
  | cons taken _ ih =>
    rw [List.forall_mem_cons] at admitted
    exact .cons ⟨taken, admitted.1⟩ (ih admitted.2)

/-- What admitted steps keep holds before and after every move of an admitted run. -/
theorem Run.keeps (inv : S → Prop) (admits : S → E → Prop)
    (kept : ∀ {s e t}, inv s → admits s e → step s e t → inv t)
    {s u : S} {moves : List (Move S E)} (run : Run step s moves u) (start : inv s)
    (admitted : ∀ m ∈ moves, admits m.before m.event) :
    inv u ∧ ∀ m ∈ moves, inv m.before ∧ inv m.after := by
  induction run with
  | nil => exact ⟨start, by simp⟩
  | @cons s t u e moves taken _ ih =>
    have next := kept start (admitted _ (.head _)) taken
    obtain ⟨final, rest⟩ := ih next fun m member => admitted m (.tail _ member)
    exact ⟨final, List.forall_mem_cons.mpr ⟨⟨start, next⟩, rest⟩⟩

/-- The same with no condition on the steps. -/
theorem Run.invariant (inv : S → Prop) (kept : ∀ {s e t}, inv s → step s e t → inv t) {s u : S}
    {moves : List (Move S E)} (run : Run step s moves u) (start : inv s) :
    inv u ∧ ∀ m ∈ moves, inv m.before ∧ inv m.after :=
  run.keeps inv (fun _ _ => True) (fun before _ taken => kept before taken) start fun _ _ => trivial

/-- A run is followed event by event in another system, when each step from the invariant is. -/
theorem Run.simulate {T : Type} {step' : T → E → T → Prop} (view : S → T) (inv : S → Prop)
    (kept : ∀ {s e t}, inv s → step s e t → inv t) (follows : ∀ {s e t}, inv s → step s e t → step' (view s) e (view t))
    {s u : S} {moves : List (Move S E)} (run : Run step s moves u) (start : inv s) :
    Run step' (view s) (moves.map fun m => ⟨view m.before, m.event, view m.after⟩) (view u) := by
  induction run with
  | nil => exact .nil _
  | cons taken _ ih => exact .cons (follows start taken) (ih (kept start taken))

/-- A run behaves exactly as long as every move of it is admitted, when a step from the
invariant behaves exactly if it is admitted and admitted steps keep the invariant. -/
theorem Run.good_iff (inv : S → Prop) (admits : S → E → Prop) (good : S → E → S → Prop)
    (kept : ∀ {s e t}, inv s → admits s e → step s e t → inv t)
    (judged : ∀ {s e t}, inv s → step s e t → (good s e t ↔ admits s e)) {s u : S}
    {moves : List (Move S E)} (run : Run step s moves u) (start : inv s) :
    (∀ m ∈ moves, good m.before m.event m.after) ↔ ∀ m ∈ moves, admits m.before m.event := by
  induction run with
  | nil => simp
  | @cons s t u e moves taken _ ih =>
    rw [List.forall_mem_cons, List.forall_mem_cons, judged start taken]
    constructor
    · rintro ⟨first, rest⟩
      exact ⟨first, (ih (kept start first taken)).mp rest⟩
    · rintro ⟨first, rest⟩
      exact ⟨first, (ih (kept start first taken)).mpr rest⟩

/-! ### Executable steps -/

/-- The moves along a list of events, if every event can happen where it comes. -/
def trace (next : S → E → Option S) : S → List E → Option (List (Move S E) × S)
  | s, [] => some ([], s)
  | s, e :: events =>
    match next s e with
    | none => none
    | some t => (trace next t events).map fun rest => (⟨s, e, t⟩ :: rest.1, rest.2)

theorem Run.of_trace {next : S → E → Option S} {s u : S} {events : List E} {moves : List (Move S E)}
    (traced : trace next s events = some (moves, u)) : Run (fun s e t => next s e = some t) s moves u := by
  induction events generalizing s moves with
  | nil =>
    cases traced
    exact .nil _
  | cons e events ih =>
    rw [trace] at traced
    cases taken : next s e with
    | none => simp [taken] at traced
    | some t =>
      simp only [taken, Option.map_eq_some_iff] at traced
      obtain ⟨⟨rest, last⟩, traced, same⟩ := traced
      cases same
      exact .cons taken (ih traced)

/-- A run with a property that is checked along its trace. -/
theorem Run.of_trace_any {next : S → E → Option S} {s : S} {events : List E} {check : List (Move S E) × S → Bool}
    (checked : (trace next s events).any check = true) :
    ∃ moves u, Run (fun s e t => next s e = some t) s moves u ∧ check (moves, u) = true := by
  rw [Option.any_eq_true] at checked
  obtain ⟨⟨moves, u⟩, traced, holds⟩ := checked
  exact ⟨moves, u, .of_trace traced, holds⟩

end ChrisOS.Lib
