import ChrisOS.Kernel.Interrupts.Controller

/-! Every run of the controllers and irq_handler is a run of one queue of requests by urgency. -/

set_option autoImplicit false

namespace ChrisOS.Kernel.Interrupts
open ChrisOS.Lib

attribute [local instance] neZero_sixteen neZero_eight

/-! ### The queue -/

structure Queue where
  pending : Fin 16 → Bool
  current : Option (Fin 16)
  handlers : Handlers

/-- Lines 8 to 15 come in through line 2. -/
def urgency (n : Fin 16) : Nat := if n.val < 2 then n.val else if 8 ≤ n.val then n.val - 6 else n.val + 8

def QueueStep (a : Queue) (e : IrqEvent) (a' : Queue) : Prop :=
  match e with
  | .raise n => a' = if n = 2 then a else { a with pending := Function.update a.pending n true }
  | .accept v => ∃ n : Fin 16, v = 32 + n.val ∧ a.current = none ∧ a.pending n = true ∧
      (∀ k, a.pending k = true → urgency n ≤ urgency k) ∧
      a' = { a with pending := Function.update a.pending n false, current := some n }
  | .write _ _ => a' = a
  | .handle intNo called => ∃ n : Fin 16, intNo = 32 + n.val ∧ a.current = some n ∧ called = a.handlers n ∧
      a' = { a with current := none }
  | .install n h => a' = { a with handlers := irqInstallHandler a.handlers n h }

/-- The request of a line. -/
def System.pending (y : System) (n : Fin 16) : Bool :=
  if h : n.val < 8 then y.master.irr ⟨n, h⟩ else y.slave.irr ⟨n - 8, slave_lt h⟩

def Stage.line : Stage → Option (Fin 16)
  | .running => none
  | .serving intNo _ => some (Fin.ofNat 16 (intNo - 32))

def System.view (y : System) : Queue := ⟨y.pending, y.stage.line, y.handlers⟩

/-! ### What holds between the steps -/

def only (i : Fin 8) : Lines := Function.update noLines i true

/-- What irq_init sets up, and nothing in irq_handler changes. -/
structure Configured (y : System) : Prop where
  masterBase : y.master.base = 32
  slaveBase : y.slave.base = 40
  cascade : y.master.cascade.testBit 2 = true
  masterMask : y.master.imr = noLines
  slaveMask : y.slave.imr = noLines
  line2 : y.master.irr 2 = false

/-- The lines in service while irq_handler has port writes left for a line. -/
inductive Serving (y : System) (n : Fin 16) : List (Nat × Nat) → Prop where
  | slave (high : 8 ≤ n.val) : y.master.inService = only 2 → y.slave.inService = only ⟨n - 8, by omega⟩ →
      Serving y n [(0xA0, 0x20), (0x20, 0x20)]
  | master (i : Fin 8) : y.master.inService = only i → y.slave.inService = noLines → Serving y n [(0x20, 0x20)]
  | done : y.master.inService = noLines → y.slave.inService = noLines → Serving y n []

/-- Outside irq_handler no line is in service. -/
def Orderly (y : System) : Prop :=
  match y.stage with
  | .running => y.master.inService = noLines ∧ y.slave.inService = noLines
  | .serving intNo writes => ∃ n : Fin 16, intNo = 32 + n.val ∧ Serving y n writes

structure Ready (y : System) : Prop where
  configured : Configured y
  orderly : Orderly y

/-! ### One controller -/

theorem find_only (i : Fin 8) : Fin.find? (only i) = some i := by
  refine Fin.find?_eq_some_iff.mpr ⟨Function.update_self .., fun j before => ?_⟩
  exact Function.update_of_ne (Fin.ne_of_lt before) ..

theorem only_cleared (i : Fin 8) : Function.update (only i) i false = noLines := by
  rw [only, Function.update_idem]
  exact Function.update_eq_self i noLines

theorem endOfInterrupt_only {p : Pic} {i : Fin 8} (inService : p.inService = only i) :
    p.endOfInterrupt = { p with inService := noLines } := by
  simp only [Pic.endOfInterrupt, inService, find_only, only_cleared]

theorem select_free {p : Pic} (mask : p.imr = noLines) (free : p.inService = noLines) (r : Lines) :
    p.select r = Fin.find? r := by
  unfold Pic.select
  congr 1
  funext i
  simp [mask, free, noLines]

theorem acknowledge_free {p : Pic} (free : p.inService = noLines) (i : Fin 8) :
    p.acknowledge i = { p with irr := Function.update p.irr i false, inService := only i } := by
  rw [Pic.acknowledge, free]
  rfl

theorem acknowledge_irr_self (p : Pic) (i : Fin 8) : (p.acknowledge i).irr i = false := by
  change Function.update p.irr i false i = false
  exact Function.update_self ..

theorem acknowledge_irr_other (p : Pic) {i j : Fin 8} (other : j ≠ i) : (p.acknowledge i).irr j = p.irr j := by
  change Function.update p.irr i false j = _
  exact Function.update_of_ne other ..

/-- irq_init leaves the controllers idle, whatever they did before. -/
theorem irqInit_ready (y : System) (running : y.stage = .running) : Ready (irqInit y) := by
  have stage : (irqInit y).stage = .running := running
  have cascade : (irqInit y).master.cascade = 4 := rfl
  refine ⟨⟨rfl, rfl, by rw [cascade]; decide, ?_, ?_, rfl⟩, ?_⟩
  · funext i
    exact Nat.zero_testBit i
  · funext i
    exact Nat.zero_testBit i
  · rw [Orderly, stage]
    exact ⟨rfl, rfl⟩

/-! ### Accepting -/

variable {y : System}

theorem pending_low {n : Fin 16} (low : n.val < 8) : y.pending n = y.master.irr ⟨n, low⟩ := dif_pos low

theorem pending_high {n : Fin 16} (high : 8 ≤ n.val) : y.pending n = y.slave.irr ⟨n - 8, by omega⟩ :=
  dif_neg (Nat.not_lt.mpr high)

/-- The request of a line reaches the master on the line itself or on line 2. -/
theorem requests_of_pending (configured : Configured y) (free : y.slave.inService = noLines) (n : Fin 16) :
    y.pending n = true → ∃ i : Fin 8, requests y i = true ∧ (i.val = n.val ∨ i = 2 ∧ 8 ≤ n.val) := by
  intro waiting
  by_cases low : n.val < 8
  · rw [pending_low low] at waiting
    have other : (⟨n, low⟩ : Fin 8) ≠ 2 := fun same => by
      rw [same, configured.line2] at waiting
      exact Bool.noConfusion waiting
    exact ⟨⟨n, low⟩, by rw [requests, Function.update_of_ne other, waiting], .inl rfl⟩
  · rw [pending_high (Nat.not_lt.mp low)] at waiting
    refine ⟨2, ?_, .inr ⟨rfl, Nat.not_lt.mp low⟩⟩
    rw [requests, Function.update_self, select_free configured.slaveMask free, configured.cascade, Bool.and_true]
    exact Fin.isSome_find?_iff.mpr ⟨_, waiting⟩

/-- With a request on some line the master's output is on. -/
theorem accept_enabled (configured : Configured y) (masterFree : y.master.inService = noLines)
    (slaveFree : y.slave.inService = noLines) {n : Fin 16} (waiting : y.pending n = true) : ∃ r, accept y = some r := by
  obtain ⟨i, requested, -⟩ := requests_of_pending configured slaveFree n waiting
  have some_ : (y.master.select (requests y)).isSome = true := by
    rw [select_free configured.masterMask masterFree]
    exact Fin.isSome_find?_iff.mpr ⟨i, requested⟩
  obtain ⟨j, selected⟩ := Option.isSome_iff_exists.mp some_
  unfold accept
  rw [selected]
  dsimp only
  split
  · rename_i two
    subst two
    rw [select_free configured.masterMask masterFree] at selected
    have second := (Fin.find?_eq_some_iff.mp selected).1
    rw [requests, Function.update_self, Bool.and_eq_true] at second
    obtain ⟨k, found⟩ := Option.isSome_iff_exists.mp second.1
    rw [found]
    exact ⟨_, rfl⟩
  · exact ⟨_, rfl⟩

/-- What the processor gets is the most urgent request. -/
theorem accept_spec (configured : Configured y) (masterFree : y.master.inService = noLines)
    (slaveFree : y.slave.inService = noLines) {next : System} {v : Nat} (accepted : accept y = some (next, v)) :
    ∃ n : Fin 16, v = 32 + n.val ∧ y.pending n = true ∧ (∀ k, y.pending k = true → urgency n ≤ urgency k) ∧
      next.pending = Function.update y.pending n false ∧ next.handlers = y.handlers ∧ Configured next ∧
      Serving next n (acknowledgement v) := by
  unfold accept at accepted
  rw [select_free configured.masterMask masterFree] at accepted
  cases selected : Fin.find? (requests y) with
  | none =>
    rw [selected] at accepted
    exact absurd accepted nofun
  | some i =>
    rw [selected] at accepted
    obtain ⟨requested, first⟩ := Fin.find?_eq_some_iff.mp selected
    dsimp only at accepted
    split at accepted
    · rename_i two
      subst two
      rw [select_free configured.slaveMask slaveFree] at accepted
      cases found : Fin.find? y.slave.irr with
      | none =>
        rw [found] at accepted
        exact absurd accepted nofun
      | some k =>
        rw [found] at accepted
        obtain ⟨rfl, rfl⟩ := Prod.mk.inj (Option.some.inj accepted)
        obtain ⟨waiting, before⟩ := Fin.find?_eq_some_iff.mp found
        refine ⟨⟨8 + k, by omega⟩, by rw [configured.slaveBase]; exact Nat.add_assoc 32 8 k, ?_, ?_, ?_, rfl, ?_, ?_⟩
        · rw [pending_high (Nat.le_add_right 8 k), ← waiting]
          exact congrArg y.slave.irr (Fin.ext (Nat.add_sub_cancel_left 8 k))
        · intro l asks
          obtain ⟨j, reached, place⟩ := requests_of_pending configured slaveFree l asks
          have late : 2 ≤ j.val := by
            by_contra early
            rw [first j (Nat.lt_of_not_le early)] at reached
            exact Bool.noConfusion reached
          by_cases low : l.val < 8
          · have third : l.val ≠ 2 := fun same => by
              rw [pending_low low, show (⟨l, low⟩ : Fin 8) = 2 from Fin.ext same, configured.line2] at asks
              exact Bool.noConfusion asks
            simp only [urgency]
            split_ifs <;> omega
          · have order : k.val ≤ l.val - 8 := by
              by_contra early
              rw [pending_high (Nat.not_lt.mp low), before ⟨l - 8, by omega⟩ (Nat.lt_of_not_le early)] at asks
              exact Bool.noConfusion asks
            simp only [urgency]
            split_ifs <;> omega
        · funext l
          by_cases low : l.val < 8
          · rw [pending_low low, Function.update_of_ne (by intro same; rw [same] at low; exact absurd low (by simp)),
              pending_low low]
            by_cases third : (⟨l, low⟩ : Fin 8) = 2
            · rw [third, configured.line2]
              exact acknowledge_irr_self y.master 2
            · exact acknowledge_irr_other y.master third
          · rw [pending_high (Nat.not_lt.mp low)]
            by_cases same : l = ⟨8 + k, by omega⟩
            · have number : l.val = 8 + k.val := congrArg Fin.val same
              have place : (⟨l - 8, by omega⟩ : Fin 8) = k := Fin.ext (by dsimp only; omega)
              rw [place, same, Function.update_self]
              exact acknowledge_irr_self y.slave k
            · rw [Function.update_of_ne same, pending_high (Nat.not_lt.mp low)]
              refine acknowledge_irr_other y.slave fun here => same (Fin.ext ?_)
              have := congrArg Fin.val here
              dsimp only at this ⊢
              omega
        · exact ⟨configured.masterBase, configured.slaveBase, configured.cascade, configured.masterMask,
            configured.slaveMask, acknowledge_irr_self y.master 2⟩
        · have high : 40 ≤ y.slave.base + k.val := by rw [configured.slaveBase]; omega
          rw [acknowledgement, if_pos high]
          refine .slave (Nat.le_add_right 8 k) (congrArg Pic.inService (acknowledge_free masterFree 2)) ?_
          rw [show (⟨8 + k - 8, by omega⟩ : Fin 8) = k from Fin.ext (Nat.add_sub_cancel_left 8 k)]
          exact congrArg Pic.inService (acknowledge_free slaveFree k)
    · rename_i other
      obtain ⟨rfl, rfl⟩ := Prod.mk.inj (Option.some.inj accepted)
      have waiting : y.master.irr i = true := by
        rwa [requests, Function.update_of_ne other] at requested
      refine ⟨⟨i, by omega⟩, by rw [configured.masterBase], (pending_low i.isLt).trans waiting, ?_, ?_, rfl, ?_, ?_⟩
      · intro l asks
        obtain ⟨j, reached, place⟩ := requests_of_pending configured slaveFree l asks
        have order : i.val ≤ j.val := by
          by_contra early
          rw [first j (Nat.lt_of_not_le early)] at reached
          exact Bool.noConfusion reached
        have apart : i.val ≠ 2 := fun same => other (Fin.ext same)
        have reach : j.val = l.val ∨ j.val = 2 ∧ 8 ≤ l.val := place.imp_right fun ⟨two, high⟩ => ⟨congrArg Fin.val two, high⟩
        simp only [urgency]
        split_ifs <;> omega
      · funext l
        by_cases low : l.val < 8
        · rw [pending_low low]
          by_cases same : l = ⟨i, by omega⟩
          · have number : l.val = i.val := congrArg Fin.val same
            have place : (⟨l, low⟩ : Fin 8) = i := Fin.ext number
            rw [place, same, Function.update_self]
            exact acknowledge_irr_self y.master i
          · rw [Function.update_of_ne same, pending_low low]
            refine acknowledge_irr_other y.master fun here => same (Fin.ext ?_)
            exact show l.val = i.val from congrArg Fin.val here
        · rw [pending_high (Nat.not_lt.mp low), Function.update_of_ne (by rintro rfl; exact low i.isLt),
            pending_high (Nat.not_lt.mp low)]
      · exact ⟨configured.masterBase, configured.slaveBase, configured.cascade, configured.masterMask,
          configured.slaveMask, (acknowledge_irr_other y.master (Ne.symm other)).trans configured.line2⟩
      · have low : ¬40 ≤ y.master.base + i.val := by rw [configured.masterBase]; omega
        rw [acknowledgement, if_neg low]
        exact .master i (congrArg Pic.inService (acknowledge_free masterFree i)) slaveFree

/-! ### Steps -/

theorem raise_pending (n : Fin 16) : (raise y n).pending = if n = 2 then y.pending else Function.update y.pending n true := by
  funext l
  unfold raise
  by_cases low : n.val < 8
  · rw [dif_pos low]
    by_cases two : n.val = 2
    · rw [if_pos two, if_pos (Fin.ext two)]
    · rw [if_neg two, if_neg fun same => two (congrArg Fin.val same)]
      by_cases below : l.val < 8
      · rw [pending_low below]
        by_cases same : l = n
        · subst same
          rw [Function.update_self]
          exact Function.update_self ..
        · have apart : (⟨l, below⟩ : Fin 8) ≠ ⟨n, low⟩ := fun here => same (Fin.ext (Fin.mk.inj here))
          rw [Function.update_of_ne same, pending_low below]
          exact Function.update_of_ne apart ..
      · rw [pending_high (Nat.not_lt.mp below), Function.update_of_ne (by rintro rfl; exact below low),
          pending_high (Nat.not_lt.mp below)]
  · rw [dif_neg low, if_neg (by rintro rfl; exact low (by decide))]
    by_cases below : l.val < 8
    · rw [pending_low below, Function.update_of_ne (by rintro rfl; exact low below), pending_low below]
    · rw [pending_high (Nat.not_lt.mp below)]
      by_cases same : l = n
      · subst same
        rw [Function.update_self]
        exact Function.update_self ..
      · rw [Function.update_of_ne same, pending_high (Nat.not_lt.mp below)]
        refine Function.update_of_ne (fun here => same (Fin.ext ?_)) ..
        have := congrArg Fin.val here
        dsimp only at this
        omega

theorem raise_configured (configured : Configured y) (n : Fin 16) : Configured (raise y n) := by
  obtain ⟨masterBase, slaveBase, cascade, masterMask, slaveMask, line2⟩ := configured
  unfold raise
  split
  · split
    · exact ⟨masterBase, slaveBase, cascade, masterMask, slaveMask, line2⟩
    · rename_i low two
      refine ⟨masterBase, slaveBase, cascade, masterMask, slaveMask, ?_⟩
      exact (Function.update_of_ne (fun same => two (congrArg Fin.val same).symm) ..).trans line2
  · exact ⟨masterBase, slaveBase, cascade, masterMask, slaveMask, line2⟩

theorem raise_rest (y : System) (n : Fin 16) : (raise y n).stage = y.stage ∧ (raise y n).handlers = y.handlers ∧
    (raise y n).master.inService = y.master.inService ∧ (raise y n).slave.inService = y.slave.inService := by
  unfold raise
  split
  · split <;> exact ⟨rfl, rfl, rfl, rfl⟩
  · exact ⟨rfl, rfl, rfl, rfl⟩

theorem Serving.congr {y' : System} {n : Fin 16} {writes : List (Nat × Nat)} (serving : Serving y n writes)
    (master : y'.master.inService = y.master.inService) (slave : y'.slave.inService = y.slave.inService) :
    Serving y' n writes := by
  cases serving with
  | slave high first second => exact .slave high (master.trans first) (slave.trans second)
  | master i first second => exact .master i (master.trans first) (slave.trans second)
  | done first second => exact .done (master.trans first) (slave.trans second)

theorem Orderly.congr {y' : System} (orderly : Orderly y) (stage : y'.stage = y.stage)
    (master : y'.master.inService = y.master.inService) (slave : y'.slave.inService = y.slave.inService) : Orderly y' := by
  unfold Orderly at orderly ⊢
  rw [stage]
  cases h : y.stage with
  | running =>
    rw [h] at orderly
    exact ⟨master.trans orderly.1, slave.trans orderly.2⟩
  | serving intNo writes =>
    rw [h] at orderly
    obtain ⟨n, number, serving⟩ := orderly
    exact ⟨n, number, serving.congr master slave⟩

/-- An acknowledgement ends the service that it is for. -/
theorem write_serving {n : Fin 16} {w : Nat × Nat} {ws : List (Nat × Nat)} (configured : Configured y)
    (serving : Serving y n (w :: ws)) : Configured (outb y w.1 w.2) ∧ Serving (outb y w.1 w.2) n ws ∧
      (outb y w.1 w.2).pending = y.pending ∧ (outb y w.1 w.2).handlers = y.handlers := by
  obtain ⟨masterBase, slaveBase, cascade, masterMask, slaveMask, line2⟩ := configured
  cases serving with
  | slave high first second =>
    have write : outb y 0xA0 0x20 = { y with slave := { y.slave with inService := noLines } } := by
      change { y with slave := y.slave.endOfInterrupt } = _
      rw [endOfInterrupt_only second]
    rw [write]
    exact ⟨⟨masterBase, slaveBase, cascade, masterMask, slaveMask, line2⟩, .master 2 first rfl, rfl, rfl⟩
  | master i first second =>
    have write : outb y 0x20 0x20 = { y with master := { y.master with inService := noLines } } := by
      change { y with master := y.master.endOfInterrupt } = _
      rw [endOfInterrupt_only first]
    rw [write]
    exact ⟨⟨masterBase, slaveBase, cascade, masterMask, slaveMask, line2⟩, .done rfl second, rfl, rfl⟩

theorem line_number (n : Fin 16) : Fin.ofNat 16 (32 + n.val - 32) = n := by
  rw [Nat.add_sub_cancel_left]
  exact Fin.ext (Nat.mod_eq_of_lt n.isLt)

theorem accept_inv {y' : System} {v : Nat} (taken : IrqStep y (.accept v) y') : ∃ next, y.stage = .running ∧
    accept y = some (next, v) ∧ y' = { next with stage := .serving v (acknowledgement v) } := by
  unfold IrqStep at taken
  cases stage : y.stage with
  | serving intNo writes =>
    rw [stage] at taken
    exact taken.elim
  | running =>
    rw [stage] at taken
    cases given : accept y with
    | none =>
      rw [given] at taken
      exact taken.elim
    | some r =>
      rw [given] at taken
      obtain ⟨rfl, rfl⟩ := taken
      exact ⟨r.1, rfl, rfl, rfl⟩

theorem write_inv {y' : System} {port v : Nat} (taken : IrqStep y (.write port v) y') : ∃ intNo ws,
    y.stage = .serving intNo ((port, v) :: ws) ∧ y' = { outb y port v with stage := .serving intNo ws } := by
  unfold IrqStep at taken
  cases stage : y.stage with
  | running =>
    rw [stage] at taken
    exact taken.elim
  | serving intNo writes =>
    rw [stage] at taken
    cases writes with
    | nil => exact taken.elim
    | cons w ws =>
      obtain ⟨rfl, rfl⟩ := taken
      exact ⟨intNo, ws, rfl, rfl⟩

theorem handle_inv {y' : System} {intNo : Nat} {called : Option Handler} (taken : IrqStep y (.handle intNo called) y') :
    y.stage = .serving intNo [] ∧ called = handlerAt y.handlers (intNo - 32) ∧ y' = { y with stage := .running } := by
  unfold IrqStep at taken
  cases stage : y.stage with
  | running =>
    rw [stage] at taken
    exact taken.elim
  | serving given writes =>
    rw [stage] at taken
    cases writes with
    | cons w ws => exact taken.elim
    | nil =>
      obtain ⟨rfl, rfl, rfl⟩ := taken
      exact ⟨rfl, rfl, rfl⟩

/-- A step keeps the controllers ready and is the queue's step. -/
theorem step_follows {y' : System} {e : IrqEvent} (ready : Ready y) (taken : IrqStep y e y') :
    Ready y' ∧ QueueStep y.view e y'.view := by
  obtain ⟨configured, orderly⟩ := ready
  cases e with
  | raise n =>
    obtain rfl : y' = raise y n := taken
    obtain ⟨stage, handlers, master, slave⟩ := raise_rest y n
    refine ⟨⟨raise_configured configured n, orderly.congr stage master slave⟩, ?_⟩
    change System.view (raise y n) = if n = 2 then y.view else _
    rw [System.view, raise_pending, stage, handlers]
    split <;> rfl
  | accept v =>
    obtain ⟨next, stage, given, rfl⟩ := accept_inv taken
    rw [Orderly, stage] at orderly
    obtain ⟨n, place, waiting, urgent, pending, handlers, kept, serving⟩ := accept_spec configured orderly.1 orderly.2 given
    refine ⟨⟨⟨kept.masterBase, kept.slaveBase, kept.cascade, kept.masterMask, kept.slaveMask, kept.line2⟩,
      ⟨n, place, serving.congr rfl rfl⟩⟩, ⟨n, place, ?_, waiting, urgent, ?_⟩⟩
    · rw [System.view, stage]
      rfl
    · have line : Stage.line (.serving v (acknowledgement v)) = some n := by
        rw [Stage.line, place, line_number]
      change Queue.mk next.pending _ next.handlers = _
      rw [pending, line, handlers]
      rfl
  | write port v =>
    obtain ⟨intNo, ws, stage, rfl⟩ := write_inv taken
    rw [Orderly, stage] at orderly
    obtain ⟨n, place, serving⟩ := orderly
    obtain ⟨kept, rest, pending, handlers⟩ := write_serving configured serving
    refine ⟨⟨⟨kept.masterBase, kept.slaveBase, kept.cascade, kept.masterMask, kept.slaveMask, kept.line2⟩,
      ⟨n, place, rest.congr rfl rfl⟩⟩, ?_⟩
    change Queue.mk (outb y port v).pending _ (outb y port v).handlers = _
    rw [pending, handlers, System.view, stage]
    rfl
  | handle intNo called =>
    obtain ⟨stage, rfl, rfl⟩ := handle_inv taken
    rw [Orderly, stage] at orderly
    obtain ⟨n, place, serving⟩ := orderly
    cases serving with
    | done master slave =>
      refine ⟨⟨⟨configured.masterBase, configured.slaveBase, configured.cascade, configured.masterMask,
        configured.slaveMask, configured.line2⟩, master, slave⟩, n, place, ?_, ?_, rfl⟩
      · rw [System.view, stage, Stage.line, place, line_number]
      · have inside : intNo - 32 = n.val := by omega
        rw [handlerAt, dif_pos (by omega)]
        exact congrArg y.handlers (Fin.ext inside)
  | install n h =>
    obtain rfl : y' = _ := taken
    exact ⟨⟨⟨configured.masterBase, configured.slaveBase, configured.cascade, configured.masterMask, configured.slaveMask,
      configured.line2⟩, orderly.congr rfl rfl rfl⟩, rfl⟩

theorem accept_step {next : System} {v : Nat} (idle : y.stage = .running) (accepted : accept y = some (next, v)) :
    IrqStep y (.accept v) { next with stage := .serving v (acknowledgement v) } := by
  rw [IrqStep, idle, accepted]
  exact ⟨rfl, rfl⟩

theorem write_step {intNo port v : Nat} {ws : List (Nat × Nat)} (serving : y.stage = .serving intNo ((port, v) :: ws)) :
    IrqStep y (.write port v) { outb y port v with stage := .serving intNo ws } := by
  rw [IrqStep, serving]
  exact ⟨rfl, rfl⟩

theorem handle_step {intNo : Nat} (serving : y.stage = .serving intNo []) :
    IrqStep y (.handle intNo (handlerAt y.handlers (intNo - 32))) { y with stage := .running } := by
  rw [IrqStep, serving]
  exact ⟨rfl, rfl, rfl⟩

/-- The same step of the queue. -/
def queued (m : Move System IrqEvent) : Move Queue IrqEvent := ⟨m.before.view, m.event, m.after.view⟩

/-- An edge on a line. -/
def IrqEvent.edge (n : Fin 16) : IrqEvent → Bool
  | .raise k => k = n
  | _ => false

/-- The call for a line. -/
def IrqEvent.call (n : Fin 16) : IrqEvent → Bool
  | .handle intNo _ => intNo = 32 + n.val
  | _ => false

def edges {S : Type} (n : Fin 16) (moves : List (Move S IrqEvent)) : Nat := moves.countP fun m => m.event.edge n

def calls {S : Type} (n : Fin 16) (moves : List (Move S IrqEvent)) : Nat := moves.countP fun m => m.event.call n

/-- What a queue owes a line: its request, and the call that is under way. -/
def Queue.owed (a : Queue) (n : Fin 16) : Nat := (a.pending n).toNat + if a.current = some n then 1 else 0

theorem owed_step {a a' : Queue} {e : IrqEvent} (taken : QueueStep a e a') (n : Fin 16) :
    a'.owed n + (e.call n).toNat ≤ a.owed n + (e.edge n).toNat := by
  cases e with
  | raise k =>
    obtain rfl : a' = _ := taken
    split
    · exact Nat.le_add_right _ _
    · by_cases same : n = k
      · subst same
        simp only [Queue.owed, Function.update_self, IrqEvent.call, IrqEvent.edge, decide_true, Bool.toNat_true, Bool.toNat_false]
        omega
      · simp only [Queue.owed, Function.update_of_ne same, IrqEvent.call, Bool.toNat_false]
        omega
  | accept v =>
    obtain ⟨k, -, free, waiting, -, rfl⟩ := taken
    by_cases same : n = k
    · subst same
      simp [Queue.owed, IrqEvent.call, IrqEvent.edge, free, waiting]
    · simp [Queue.owed, IrqEvent.call, IrqEvent.edge, free, Function.update_of_ne same, Ne.symm same]
  | write port v =>
    obtain rfl : a' = a := taken
    exact Nat.le_refl _
  | handle intNo called =>
    obtain ⟨k, rfl, busy, -, rfl⟩ := taken
    by_cases same : n = k
    · subst same
      simp [Queue.owed, IrqEvent.call, busy]
    · have other : ¬32 + k.val = 32 + n.val := fun equal => same (Fin.ext (by omega))
      simp [Queue.owed, IrqEvent.call, IrqEvent.edge, busy, Fin.val_inj, Ne.symm same]
  | install k h =>
    obtain rfl : a' = _ := taken
    exact Nat.le_refl _

theorem owed_run {a a' : Queue} {moves : List (Move Queue IrqEvent)} (run : Run QueueStep a moves a') (n : Fin 16) :
    a'.owed n + calls n moves ≤ a.owed n + edges n moves := by
  induction run with
  | nil => exact Nat.le_refl _
  | @cons a b c e moves taken _ ih =>
    have first := owed_step taken n
    have called : calls n (⟨a, e, b⟩ :: moves) = calls n moves + (e.call n).toNat := by
      rw [calls, List.countP_cons]
      cases e.call n <;> rfl
    have edged : edges n (⟨a, e, b⟩ :: moves) = edges n moves + (e.edge n).toNat := by
      rw [edges, List.countP_cons]
      cases e.edge n <;> rfl
    omega

/-- From irq_init on, in whatever state the controllers were, every run is one of the queue: a request is pending
from its edge to its acceptance, the most urgent one is accepted, the handler of its line is called once, and no
request waits for anything but the handler that runs. -/
theorem irq_lines (boot : System) (running : boot.stage = .running) {y : System} {moves : List (Move System IrqEvent)}
    (run : Run IrqStep (irqInit boot) moves y) :
    Run QueueStep (irqInit boot).view (moves.map queued) y.view ∧ (∀ n, calls n moves ≤ edges n moves) ∧
      (y.stage = .running → ∀ n, y.pending n = true → ∃ v y', IrqStep y (.accept v) y') := by
  have start := irqInit_ready boot running
  obtain ⟨last, -⟩ := run.invariant Ready (fun ready taken => (step_follows ready taken).1) start
  have queue : Run QueueStep (irqInit boot).view (moves.map queued) y.view :=
    run.simulate System.view Ready (fun ready taken => (step_follows ready taken).1)
      (fun ready taken => (step_follows ready taken).2) start
  refine ⟨queue, fun n => ?_, fun idle n waiting => ?_⟩
  · have balance := owed_run queue n
    have nothing : (irqInit boot).view.owed n = 0 := by
      have stage : (irqInit boot).stage = .running := running
      rw [Queue.owed, System.view, stage]
      change ((irqInit boot).pending n).toNat + 0 = 0
      by_cases low : n.val < 8
      · rw [pending_low low]
        rfl
      · rw [pending_high (Nat.not_lt.mp low)]
        rfl
    have called : calls n (moves.map queued) = calls n moves := List.countP_map
    have edged : edges n (moves.map queued) = edges n moves := List.countP_map
    omega
  · have free := last.orderly
    rw [Orderly, idle] at free
    obtain ⟨⟨next, v⟩, accepted⟩ := accept_enabled last.configured free.1 free.2 waiting
    exact ⟨v, _, accept_step idle accepted⟩

theorem accept_handlers {next : System} {v : Nat} (accepted : accept y = some (next, v)) : next.handlers = y.handlers := by
  unfold accept at accepted
  split at accepted
  · exact absurd accepted nofun
  · split at accepted
    · split at accepted
      · cases accepted
        rfl
      · exact absurd accepted nofun
    · cases accepted
      rfl

/-- Both controllers in the middle of something. -/
def disturbed : System where
  master := ⟨fun _ => true, only 4, only 1, 0x70, 0, 0, 3⟩
  slave := ⟨only 2, fun _ => true, fun _ => true, 0x08, 9, 3, 0⟩
  handlers := bootHandlers
  stage := .running

/-- The mouse interrupts once. -/
theorem mouse_run : ∃ y moves, Run IrqStep (irqInit disturbed) moves y ∧ moves.map Move.event =
    [.raise 12, .accept 44, .write 0xA0 0x20, .write 0x20 0x20, .handle 44 (some .mouse)] := by
  have waiting : (accept (raise (irqInit disturbed) 12)).map Prod.snd = some 44 := by decide +kernel
  obtain ⟨⟨next, v⟩, accepted, same⟩ := Option.map_eq_some_iff.mp waiting
  obtain rfl : v = 44 := same
  have first : Run IrqStep (irqInit disturbed) _ _ := .single (show IrqStep _ (.raise 12) (raise (irqInit disturbed) 12) from rfl)
  have served := ((first.append (.single (accept_step rfl accepted))).append (.single (write_step rfl))).append
    (.single (write_step rfl))
  have handlers : next.handlers = bootHandlers := accept_handlers accepted
  refine ⟨_, _, served.append (.single (handle_step rfl)), ?_⟩
  change [_, _, _, _, IrqEvent.handle 44 (handlerAt next.handlers 12)] = _
  rw [handlers]
  rfl

theorem mouse_line_served : ∃ y moves, Run IrqStep (irqInit disturbed) moves y ∧ moves ≠ [] ∧
    Run QueueStep (irqInit disturbed).view (moves.map queued) y.view ∧ ∀ n, calls n moves ≤ edges n moves := by
  obtain ⟨y, moves, run, events⟩ := mouse_run
  obtain ⟨queue, balance, -⟩ := irq_lines disturbed rfl run
  exact ⟨y, moves, run, by rintro rfl; exact absurd events (by simp), queue, balance⟩

/-! ### The tick of the scheduler -/

/-- kernel() has set line 0 again after sched_init. -/
def NoTick (y : System) : Prop := ∀ n, y.handlers n ≠ some .schedTick

/-- The driver that kernel() installs with interrupts on is the network's. -/
def InstallsNet (e : IrqEvent) : Prop := ∀ n h, e = .install n h → h = .net

theorem bootHandlers_noTick (n : Fin 16) : bootHandlers n ≠ some .schedTick := by
  revert n
  decide

theorem outb_handlers (y : System) (port v : Nat) : (outb y port v).handlers = y.handlers := by
  unfold outb
  split_ifs <;> rfl

theorem NoTick.step {y' : System} {e : IrqEvent} (before : NoTick y) (installs : InstallsNet e) (taken : IrqStep y e y') :
    NoTick y' ∧ ∀ intNo, e ≠ .handle intNo (some .schedTick) := by
  cases e with
  | raise n =>
    obtain rfl : y' = raise y n := taken
    refine ⟨fun k => ?_, nofun⟩
    rw [(raise_rest y n).2.1]
    exact before k
  | accept v =>
    obtain ⟨next, -, accepted, rfl⟩ := accept_inv taken
    exact ⟨fun k => (congrFun (accept_handlers accepted) k).trans_ne (before k), nofun⟩
  | write port v =>
    obtain ⟨intNo, ws, -, rfl⟩ := write_inv taken
    exact ⟨fun k => (congrFun (outb_handlers y port v) k).trans_ne (before k), nofun⟩
  | handle intNo called =>
    obtain ⟨-, found, rfl⟩ := handle_inv taken
    refine ⟨before, fun _ same => ?_⟩
    rw [(IrqEvent.handle.inj same).2, handlerAt] at found
    split at found
    · exact before _ found.symm
    · exact absurd found nofun
  | install n h =>
    obtain rfl : y' = _ := taken
    obtain rfl := installs n h rfl
    refine ⟨fun k => ?_, nofun⟩
    by_cases here : k = n
    · subst here
      exact fun same => absurd ((Function.update_self ..).symm.trans same) nofun
    · exact (Function.update_of_ne here ..).trans_ne (before k)

end ChrisOS.Kernel.Interrupts
