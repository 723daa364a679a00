import ChrisOS.Fs.Fat32.Calls
import Mathlib.Data.List.TakeWhile

/-! File names and the 8.3 field of a directory entry, and the listing that shows the field again. -/

set_option autoImplicit false

namespace ChrisOS.Fs.Fat32
open ChrisOS.Lib ChrisOS.Drivers.Ata

/-- A C string without spaces. -/
def Plain (name : List UInt8) : Prop := ∀ c ∈ name, c ≠ 0 ∧ c ≠ 0x20

instance (name : List UInt8) : Decidable (Plain name) := List.decidableBAll (fun c => c ≠ 0 ∧ c ≠ 0x20) name

def beforeDot (name : List UInt8) : List UInt8 := name.takeWhile fun c => c ≠ dot

def afterDot (name : List UInt8) : List UInt8 := (name.dropWhile fun c => c ≠ dot).tail

/-- The characters that name_to_fat83 takes for the base. -/
def baseOf (name : List UInt8) : List UInt8 := (beforeDot name).take 8

/-- The characters that it takes for the extension: none when the base is cut before the dot. -/
def extOf (name : List UInt8) : List UInt8 := if (beforeDot name).length ≤ 8 then (afterDot name).take 3 else []

/-- The field with these two parts, filled up with spaces. -/
def field83 (base ext : List UInt8) : FatName := fun i => if i.val < 8 then base.getD i 0x20 else ext.getD (i - 8) 0x20

theorem beforeDot_dot (p : List UInt8) : beforeDot (dot :: p) = [] := rfl

theorem beforeDot_cons {c : UInt8} (other : c ≠ dot) (p : List UInt8) : beforeDot (c :: p) = c :: beforeDot p :=
  List.takeWhile_cons_of_pos (decide_eq_true other)

/-! ### The encoder -/

/-- A byte stored in front of others. -/
theorem update_getD (f : Nat → UInt8) (c : UInt8) (l : List UInt8) (j k : Nat) :
    (if j + 1 ≤ k then l.getD (k - (j + 1)) (Function.update f j c k) else Function.update f j c k) =
      if j ≤ k then (c :: l).getD (k - j) (f k) else f k := by
  rcases Nat.lt_trichotomy k j with below | rfl | above
  · rw [if_neg (by omega), if_neg (by omega), Function.update_of_ne (by omega)]
  · rw [if_neg (by omega), if_pos (Nat.le_refl k), Nat.sub_self, Function.update_self]
    rfl
  · have step : k - j = k - (j + 1) + 1 := by omega
    rw [if_pos (by omega), if_pos (by omega), step, List.getD_cons_succ, Function.update_of_ne (by omega)]

/-- The base is copied up to the dot, and the pointer is left behind what was copied. -/
theorem copyBase_eq {p : List UInt8} (text : ∀ c ∈ p, c ≠ 0) {j : Nat} (f : Nat → UInt8) : copyBase p j f =
    (fun k => if j ≤ k then (((beforeDot p).take (8 - j)).map upper).getD (k - j) (f k) else f k,
      p.drop ((beforeDot p).take (8 - j)).length) := by
  induction p generalizing j f with
  | nil => simp [copyBase, beforeDot]
  | cons c p ih =>
    obtain ⟨nonzero, rest⟩ := List.forall_mem_cons.mp text
    rw [copyBase]
    by_cases stop : c = dot
    · rw [if_neg fun more => more.2.1 stop, stop, beforeDot_dot]
      simp
    · rw [beforeDot_cons stop]
      by_cases room : j < 8
      · have next : 8 - j = 8 - (j + 1) + 1 := by omega
        rw [if_pos ⟨nonzero, stop, room⟩, ih rest, next, List.take_succ_cons, List.map_cons, List.length_cons,
          List.drop_succ_cons]
        simp only [update_getD]
      · have full : 8 - j = 0 := by omega
        rw [if_neg fun more => room more.2.2, full]
        simp

theorem copyExtension_field {p : List UInt8} (text : ∀ c ∈ p, c ≠ 0) {j : Nat} (f : Nat → UInt8) (k : Nat) :
    copyExtension p j f k = if j ≤ k then ((p.take (11 - j)).map upper).getD (k - j) (f k) else f k := by
  induction p generalizing j f with
  | nil => simp [copyExtension]
  | cons c p ih =>
    obtain ⟨nonzero, rest⟩ := List.forall_mem_cons.mp text
    rw [copyExtension]
    by_cases room : j < 11
    · have next : 11 - j = 11 - (j + 1) + 1 := by omega
      rw [if_pos ⟨nonzero, room⟩, ih rest, update_getD, next, List.take_succ_cons, List.map_cons]
    · have full : 11 - j = 0 := by omega
      rw [if_neg fun more => room more.2, full]
      simp

theorem dropWhile_dot (name : List UInt8) :
    (name.dropWhile fun c => c ≠ dot) = [] ∨ (name.dropWhile fun c => c ≠ dot) = dot :: afterDot name := by
  unfold afterDot
  cases found : name.dropWhile fun c => c ≠ dot with
  | nil => exact .inl rfl
  | cons c p =>
    have more : name.dropWhile (fun c => decide (c ≠ dot)) ≠ [] := by
      rw [found]
      exact List.cons_ne_nil _ _
    have head := List.head_dropWhile_not (fun c => decide (c ≠ dot)) more
    simp only [found, List.head_cons] at head
    have here : c = dot := by simpa using head
    exact .inr (by rw [here]; rfl)

theorem beforeDot_append (name : List UInt8) : beforeDot name ++ (name.dropWhile fun c => c ≠ dot) = name :=
  List.takeWhile_append_dropWhile

theorem dot_notMem_beforeDot (name : List UInt8) : dot ∉ beforeDot name := by
  intro member
  have := List.mem_takeWhile_imp member
  simp at this

theorem afterDot_subset (name : List UInt8) : afterDot name ⊆ name :=
  fun _ member => List.dropWhile_subset _ (List.mem_of_mem_tail member)

/-- Eight bytes of the base, then spaces. -/
theorem copyBase_spaces {name : List UInt8} (text : ∀ c ∈ name, c ≠ 0) (k : Nat) :
    (copyBase name 0 fun _ => 0x20).1 k = ((baseOf name).map upper).getD k 0x20 := by
  rw [copyBase_eq text]
  rfl

theorem baseOf_length (name : List UInt8) : ((baseOf name).map upper).length ≤ 8 := by
  rw [List.length_map]
  exact List.length_take_le 8 _

/-- All that name_to_fat83 keeps of a name. -/
theorem nameToFat83_eq {name : List UInt8} (text : ∀ c ∈ name, c ≠ 0) :
    nameToFat83 name = field83 ((baseOf name).map upper) ((extOf name).map upper) := by
  have spaces (k : Nat) (high : 8 ≤ k) : ((baseOf name).map upper).getD k 0x20 = 0x20 := by
    apply List.getD_eq_default
    exact Nat.le_trans (baseOf_length name) high
  have base_only : (fun i : Fin 11 => (copyBase name 0 fun _ => 0x20).1 i) = field83 ((baseOf name).map upper) [] := by
    funext i
    rw [copyBase_spaces text, field83]
    split
    · rfl
    · exact spaces i (by omega)
  have rest := congrArg Prod.snd (copyBase_eq text (j := 0) fun _ => 0x20)
  unfold nameToFat83
  simp only [rest]
  by_cases short : (beforeDot name).length ≤ 8
  · have whole : name.drop ((beforeDot name).take (8 - 0)).length = name.dropWhile fun c => c ≠ dot := by
      rw [List.take_of_length_le short]
      nth_rewrite 2 [← beforeDot_append name]
      exact List.drop_left
    rw [whole, extOf, if_pos short]
    rcases dropWhile_dot name with none | some
    · rw [none, afterDot, none]
      exact base_only
    · rw [some]
      funext i
      have tail (c : UInt8) (member : c ∈ afterDot name) : c ≠ 0 := text c (afterDot_subset name member)
      simp only [↓reduceIte]
      rw [copyExtension_field tail, copyBase_spaces text, field83]
      by_cases low : i.val < 8
      · rw [if_neg (by omega), if_pos low]
      · rw [if_pos (by omega), if_neg low, spaces i (by omega)]
  · -- the base was cut, and what follows is no dot
    have cut : ((beforeDot name).take (8 - 0)).length = 8 := by
      rw [List.length_take]
      omega
    obtain ⟨c, p, found⟩ : ∃ c p, (beforeDot name).drop 8 = c :: p := by
      apply List.exists_cons_of_length_pos
      rw [List.length_drop]
      omega
    have more : c ≠ dot := by
      rintro rfl
      have member : dot ∈ (beforeDot name).drop 8 := found ▸ List.mem_cons_self
      exact dot_notMem_beforeDot name (List.mem_of_mem_drop member)
    have behind : name.drop 8 = c :: (p ++ name.dropWhile fun c => c ≠ dot) := by
      nth_rewrite 1 [← beforeDot_append name]
      rw [List.drop_append_of_le_length (by omega), found, List.cons_append]
    rw [cut, behind, extOf, if_neg short]
    simp only [more, ↓reduceIte]
    exact base_only

/-! ### Capital letters -/

theorem upper_upper (c : UInt8) : upper (upper c) = upper c := by
  by_cases letter : 'a'.toNat ≤ c.toNat ∧ c.toNat ≤ 'z'.toNat
  · have low : (97 : Nat) ≤ c.toNat := letter.1
    have high : c.toNat ≤ (122 : Nat) := letter.2
    have value := upper_capital letter
    rw [upper, if_neg]
    intro again
    have : (97 : Nat) ≤ (upper c).toNat := again.1
    omega
  · have same : upper c = c := if_neg letter
    rw [same, same]

theorem Plain.text {name : List UInt8} (plain : Plain name) : ∀ c ∈ name, c ≠ 0 := fun c member => (plain c member).1

theorem Plain.map_upper {name : List UInt8} (plain : Plain name) : Plain (name.map upper) := by
  refine List.forall_mem_map.mpr ?_
  intro c member
  obtain ⟨text, solid⟩ := plain c member
  exact ⟨fun null => text ((upper_eq_iff (by decide)).mp null), fun space => solid ((upper_eq_iff (by decide)).mp space)⟩

/-! ### The listing -/

def untilSpace (field : List UInt8) : List UInt8 := field.takeWhile fun c => c ≠ 0x20

theorem ext_lt : 8 < 11 := by decide

/-- The text that fat32_ls shows for a name field. -/
def shown (f : FatName) : List UInt8 :=
  untilSpace (List.ofFn fun i : Fin 8 => f (i.castLE (by decide))) ++
    if f ⟨8, ext_lt⟩ = 0x20 then [] else dot :: untilSpace (List.ofFn fun i : Fin 3 => f (i.natAdd 8))

theorem untilSpace_padded {l : List UInt8} (plain : Plain l) {n : Nat} (fits : l.length ≤ n) :
    untilSpace (List.ofFn fun i : Fin n => l.getD i 0x20) = l := by
  induction l generalizing n with
  | nil =>
    cases n with
    | zero => rfl
    | succ n => rw [List.ofFn_succ]; rfl
  | cons c l ih =>
    obtain ⟨first, rest⟩ := List.forall_mem_cons.mp plain
    cases n with
    | zero => cases fits
    | succ n =>
      have tail := ih rest (Nat.le_of_succ_le_succ fits)
      rw [List.ofFn_succ, untilSpace, List.takeWhile_cons_of_pos (by simpa using first.2)]
      exact congrArg _ tail

section
variable {base ext : List UInt8}

theorem field83_base (plain : Plain base) (fits : base.length ≤ 8) :
    untilSpace (List.ofFn fun i : Fin 8 => field83 base ext (i.castLE (by decide))) = base := by
  have bytes : (fun i : Fin 8 => field83 base ext (i.castLE (by decide))) = fun i : Fin 8 => base.getD i 0x20 := by
    funext i
    exact if_pos i.isLt
  rw [bytes, untilSpace_padded plain fits]

theorem field83_ext (plain : Plain ext) (fits : ext.length ≤ 3) :
    untilSpace (List.ofFn fun i : Fin 3 => field83 base ext (i.natAdd 8)) = ext := by
  have bytes : (fun i : Fin 3 => field83 base ext (i.natAdd 8)) = fun i : Fin 3 => ext.getD i 0x20 := by
    funext i
    rw [field83, if_neg (by simp)]
    simp
  rw [bytes, untilSpace_padded plain fits]

/-- A dot and the extension, if there is one. -/
def suffix (ext : List UInt8) : List UInt8 := if ext = [] then [] else dot :: ext

theorem shown_field83 (plain : Plain base) (plain' : Plain ext) (fits : base.length ≤ 8) (fits' : ext.length ≤ 3) :
    shown (field83 base ext) = base ++ suffix ext := by
  rw [shown, field83_base plain fits, field83_ext plain' fits', suffix]
  congr 1
  cases ext with
  | nil => rfl
  | cons c ext =>
    have solid : field83 base (c :: ext) ⟨8, ext_lt⟩ ≠ 0x20 := (plain' c List.mem_cons_self).2
    rw [if_neg solid, if_neg (List.cons_ne_nil c ext)]

theorem no_dot (clear : dot ∉ base) : ∀ c ∈ base, decide (c ≠ dot) = true :=
  fun _ member => decide_eq_true fun same => clear (same ▸ member)

theorem beforeDot_suffix (clear : dot ∉ base) : beforeDot (base ++ suffix ext) = base := by
  rw [beforeDot, List.takeWhile_append_of_pos (no_dot clear), suffix]
  split
  · exact List.append_nil base
  · exact List.append_nil base

theorem afterDot_suffix (clear : dot ∉ base) : afterDot (base ++ suffix ext) = ext := by
  rw [afterDot, List.dropWhile_append_of_pos (no_dot clear), suffix]
  split
  · rename_i none
    rw [none]
    rfl
  · rfl

end

/-- What terminal_putchar records of a text. -/
def putchars (text : List UInt8) : List Event := text.map fun c => .terminal (String.singleton (Char.ofNat c.toNat))

/-- The code says these things, and does nothing else. -/
def Says {A : Type} (x : Kern A) (a : A) (events : List Event) : Prop :=
  ∀ e m, x e m = some (a, { m with log := m.log ++ events })

theorem Says.pure {A : Type} (a : A) : Says (pure a) a [] := by
  intro e m
  rw [pure_run, List.append_nil]

theorem Says.bind {A B : Type} {x : Kern A} {f : A → Kern B} {a : A} {b : B} {evs evs' : List Event}
    (first : Says x a evs) (second : Says (f a) b evs') : Says (x >>= f) b (evs ++ evs') := by
  intro e m
  rw [bind_some (first e m), second, List.append_assoc]

theorem says_writestring (text : String) : Says (terminalWritestring text) () [.terminal text] := fun _ _ => rfl

theorem says_putchar (c : UInt8) : Says (terminalPutchar c) () (putchars [c]) := fun _ _ => rfl

theorem printField_prints (f : Nat → UInt8) (rounds off : Nat) :
    Says (printField f rounds off) () (putchars (untilSpace (List.ofFn fun i : Fin rounds => f (off + i)))) := by
  induction rounds generalizing off with
  | zero => exact .pure ()
  | succ rounds ih =>
    rw [printField, List.ofFn_succ, untilSpace]
    by_cases space : f off = 0x20
    · rw [if_pos space, List.takeWhile_cons_of_neg (by simpa using space)]
      exact .pure ()
    · rw [if_neg space, List.takeWhile_cons_of_pos (by simpa using space)]
      have tail : (fun i : Fin rounds => f (off + (i.succ : Fin (rounds + 1)))) = fun i : Fin rounds => f (off + 1 + i) := by
        funext i
        rw [Fin.val_succ, Nat.add_assoc, Nat.add_comm 1]
      rw [tail]
      exact (says_putchar (f off)).bind (ih (off + 1))

theorem printExtension_prints (f : Nat → UInt8) (off : Nat) : Says (printExtension f off) ()
    (putchars (if f (off + 8) = 0x20 then [] else
      dot :: untilSpace (List.ofFn fun i : Fin 3 => f (off + 8 + i)))) := by
  unfold printExtension
  by_cases space : f (off + 8) = 0x20
  · rw [if_neg (not_not.mpr space), if_pos space]
    exact .pure ()
  · rw [if_pos space, if_neg space]
    exact (says_putchar dot).bind (printField_prints f 3 (off + 8))

/-- The offsets of the entries that fat32_ls prints. -/
def listed (f : Nat → UInt8) : Nat → Nat → List Nat
  | 0, _ => []
  | rounds + 1, off =>
    if f off = 0x00 then []
    else if f off = 0xE5 then listed f rounds (off + 32)
    else if f (off + 11) = 0x0F then listed f rounds (off + 32)
    else off :: listed f rounds (off + 32)

/-- The line for the entry at an offset. -/
def line (f : Nat → UInt8) (off : Nat) : List Event :=
  putchars (shown (nameAt f off)) ++
    [.terminal "  (", .terminal (itoa (asInt (entrySize f off))), .terminal " B)\n"]

theorem putchars_append (text more : List UInt8) : putchars (text ++ more) = putchars text ++ putchars more :=
  List.map_append

theorem shown_nameAt (f : Nat → UInt8) (off : Nat) : shown (nameAt f off) =
    untilSpace (List.ofFn fun i : Fin 8 => f (off + i)) ++
      if f (off + 8) = 0x20 then [] else dot :: untilSpace (List.ofFn fun i : Fin 3 => f (off + 8 + i)) := by
  simp only [Nat.add_assoc]
  rfl

theorem listEntries_prints (f : Nat → UInt8) (rounds off count : Nat) :
    Says (listEntries f rounds off count) (count + (listed f rounds off).length)
      ((listed f rounds off).flatMap (line f)) := by
  induction rounds generalizing off count with
  | zero => exact .pure count
  | succ rounds ih =>
    rw [listEntries, listed]
    by_cases unused : f off = 0x00
    · rw [if_pos unused, if_pos unused]
      exact .pure count
    rw [if_neg unused, if_neg unused]
    by_cases deleted : f off = 0xE5
    · rw [if_pos deleted, if_pos deleted]
      exact ih (off + 32) count
    rw [if_neg deleted, if_neg deleted]
    by_cases long : f (off + 11) = 0x0F
    · rw [if_pos long, if_pos long]
      exact ih (off + 32) count
    rw [if_neg long, if_neg long, List.length_cons, List.flatMap_cons, line, shown_nameAt, putchars_append]
    have total : count + ((listed f rounds (off + 32)).length + 1) = count + 1 + (listed f rounds (off + 32)).length := by
      omega
    rw [total]
    have said := (printField_prints f 8 off).bind (f := fun _ => _) ((printExtension_prints f off).bind (f := fun _ => _)
      ((says_writestring "  (").bind (f := fun _ => _) ((says_writestring (itoa (asInt (entrySize f off)))).bind
        (f := fun _ => _) ((says_writestring " B)\n").bind (f := fun _ => _) (ih (off + 32) (count + 1))))))
    simpa only [List.append_assoc, List.cons_append, List.nil_append] using said

theorem mem_listed {f : Nat → UInt8} {rounds off o : Nat} (step : ∃ k, o = off + 32 * k ∧ k < rounds)
    (used : ¬Unused f o) (short : f (o + 11) ≠ 0x0F)
    (reached : ∀ x, off ≤ x → x < o → (∃ k, x = off + 32 * k) → f x ≠ 0x00) : o ∈ listed f rounds off := by
  induction rounds generalizing off with
  | zero =>
    obtain ⟨k, -, few⟩ := step
    cases few
  | succ rounds ih =>
    rw [listed]
    obtain ⟨unused, deleted⟩ := not_or.mp used
    obtain ⟨k, here, few⟩ := step
    cases k with
    | zero =>
      have first : o = off := here
      subst first
      rw [if_neg unused, if_neg deleted, if_neg short]
      exact List.mem_cons_self
    | succ k =>
      have later : o ∈ listed f rounds (off + 32) := by
        refine ih ⟨k, by omega, by omega⟩ fun x lower upper there => ?_
        obtain ⟨j, same⟩ := there
        exact reached x (by omega) upper ⟨j + 1, by omega⟩
      rw [if_neg (reached off (Nat.le_refl off) (by omega) ⟨0, rfl⟩)]
      split
      · exact later
      split
      · exact later
      · exact List.mem_cons_of_mem off later

/-- fat32_ls comes to every entry that a scan can reach. -/
theorem Listed.mem {f : Nat → UInt8} {size off : Nat} (entry : Listed f size off) (whole : size % 32 = 0) :
    off ∈ listed f (size / 32) 0 := by
  obtain ⟨aligned, inside⟩ := entry.live.slot
  refine mem_listed ⟨off / 32, by omega, by omega⟩ entry.live.used entry.live.short fun x _ before there => ?_
  obtain ⟨k, same⟩ := there
  exact entry.reached x before ⟨by omega, by omega⟩

/-! ### There and back -/

section
variable {name : List UInt8}

theorem baseOf_subset (name : List UInt8) : baseOf name ⊆ name :=
  fun _ member => List.takeWhile_subset _ (List.mem_of_mem_take member)

theorem extOf_subset (name : List UInt8) : extOf name ⊆ name := by
  intro c member
  unfold extOf at member
  split at member
  · exact afterDot_subset name (List.mem_of_mem_take member)
  · cases member

theorem extOf_length (name : List UInt8) : ((extOf name).map upper).length ≤ 3 := by
  rw [List.length_map]
  unfold extOf
  split
  · exact List.length_take_le 3 _
  · exact Nat.zero_le 3

theorem Plain.mono {part : List UInt8} (plain : Plain name) (subset : part ⊆ name) : Plain part :=
  fun c member => plain c (subset member)

theorem Plain.baseOf (plain : Plain name) : Plain ((baseOf name).map upper) := (plain.mono (baseOf_subset name)).map_upper

theorem Plain.extOf (plain : Plain name) : Plain ((extOf name).map upper) := (plain.mono (extOf_subset name)).map_upper

theorem shown_nameToFat83 (plain : Plain name) :
    shown (nameToFat83 name) = (baseOf name).map upper ++ suffix ((extOf name).map upper) := by
  rw [nameToFat83_eq plain.text]
  exact shown_field83 plain.baseOf plain.extOf (baseOf_length name) (extOf_length name)

theorem dot_notMem_baseOf (name : List UInt8) : dot ∉ (baseOf name).map upper := by
  intro member
  obtain ⟨c, inside, same⟩ := List.mem_map.mp member
  rw [(upper_eq_iff (by decide)).mp same] at inside
  exact dot_notMem_beforeDot name (List.mem_of_mem_take inside)

theorem map_upper_upper (text : List UInt8) : (text.map upper).map upper = text.map upper := by
  rw [List.map_map]
  exact List.map_congr_left fun c _ => upper_upper c

theorem shown_text (plain : Plain name) : ∀ c ∈ shown (nameToFat83 name), c ≠ 0 := by
  rw [shown_nameToFat83 plain]
  refine List.forall_mem_append.mpr ⟨plain.baseOf.text, ?_⟩
  unfold suffix
  split
  · exact List.forall_mem_nil _
  · exact List.forall_mem_cons.mpr ⟨by decide, plain.extOf.text⟩

/-- The text that is shown for a name's field stands for that field. -/
theorem nameToFat83_shown (plain : Plain name) : nameToFat83 (shown (nameToFat83 name)) = nameToFat83 name := by
  have dots := dot_notMem_baseOf name
  have short := baseOf_length name
  have short' := extOf_length name
  have base : baseOf (shown (nameToFat83 name)) = (baseOf name).map upper := by
    rw [shown_nameToFat83 plain, Fat32.baseOf, beforeDot_suffix dots, List.take_of_length_le short]
  have ext : extOf (shown (nameToFat83 name)) = (extOf name).map upper := by
    rw [shown_nameToFat83 plain, Fat32.extOf, beforeDot_suffix dots, if_pos short, afterDot_suffix dots,
      List.take_of_length_le short']
  rw [nameToFat83_eq (shown_text plain), base, ext, map_upper_upper, map_upper_upper, nameToFat83_eq plain.text]

/-- One to eight characters, and after a dot one to three more. -/
def ShortName (name : List UInt8) : Prop :=
  ∃ base ext, 1 ≤ base.length ∧ base.length ≤ 8 ∧ dot ∉ base ∧
    (name = base ∨ name = base ++ dot :: ext ∧ 1 ≤ ext.length ∧ ext.length ≤ 3 ∧ dot ∉ ext)

theorem ShortName.split (short : ShortName name) : ∃ base ext, name = base ++ suffix ext ∧ base.length ≤ 8 ∧
    dot ∉ base ∧ ext.length ≤ 3 := by
  obtain ⟨base, ext, -, fits, clear, whole | ⟨whole, some, fits', -⟩⟩ := short
  · exact ⟨base, [], whole.trans (List.append_nil base).symm, fits, clear, Nat.zero_le 3⟩
  · have more : ext ≠ [] := List.ne_nil_of_length_pos some
    exact ⟨base, ext, by rw [suffix, if_neg more, whole], fits, clear, fits'⟩

theorem map_upper_suffix (ext : List UInt8) : suffix (ext.map upper) = (suffix ext).map upper := by
  cases ext with
  | nil => rfl
  | cons c ext => rfl

/-- A short name is shown in capitals. -/
theorem shown_short (plain : Plain name) (short : ShortName name) : shown (nameToFat83 name) = name.map upper := by
  obtain ⟨base, ext, rfl, fits, clear, fits'⟩ := short.split
  rw [shown_nameToFat83 plain, Fat32.baseOf, Fat32.extOf, beforeDot_suffix clear, afterDot_suffix clear, if_pos fits,
    List.take_of_length_le fits, List.take_of_length_le fits', map_upper_suffix, List.map_append]

end

/-- fat32_ls shows a file under a text that stands for the same file, and a short name as itself. -/
theorem ls_name_round_trip {name : List UInt8} (plain : Plain name) :
    (∀ f size off e m, size % 32 = 0 → Listed f size off → nameAt f off = nameToFat83 name → ∃ n before after,
      listEntries f (size / 32) 0 0 e m = some (n, { m with log := m.log ++ (before ++ (putchars (shown (nameToFat83 name)) ++
        [.terminal "  (", .terminal (itoa (asInt (entrySize f off))), .terminal " B)\n"]) ++ after) })) ∧
    nameToFat83 (shown (nameToFat83 name)) = nameToFat83 name ∧
    (∀ g budget buf, fat32ReadFile g budget (shown (nameToFat83 name)) buf = fat32ReadFile g budget name buf) ∧
    (∀ g budget, fat32DeleteFile g budget (shown (nameToFat83 name)) = fat32DeleteFile g budget name) ∧
    (ShortName name → shown (nameToFat83 name) = name.map upper) := by
  have same := nameToFat83_shown plain
  refine ⟨?_, same, fun g budget buf => ?_, fun g budget => ?_, shown_short plain⟩
  · intro f size off e m whole entry named
    obtain ⟨before, after, split⟩ := List.append_of_mem (entry.mem whole)
    refine ⟨0 + (listed f (size / 32) 0).length, before.flatMap (line f), after.flatMap (line f), ?_⟩
    rw [listEntries_prints f (size / 32) 0 0 e m, split, List.flatMap_append, List.flatMap_cons, line, named]
    simp only [List.append_assoc]
  · unfold fat32ReadFile
    rw [same]
  · unfold fat32DeleteFile
    rw [same]

/-- A file `a.c` is listed as `A.C`. -/
theorem ls_name_round_trip_short : nameToFat83 [0x41, dot, 0x43] = nameToFat83 [0x61, dot, 0x63] := by
  have plain : Plain [0x61, dot, 0x63] := by decide
  have short : ShortName [0x61, dot, 0x63] :=
    ⟨[0x61], [0x63], by decide, by decide, by decide, .inr ⟨rfl, by decide, by decide, by decide⟩⟩
  obtain ⟨-, same, -, -, capital⟩ := ls_name_round_trip plain
  rw [capital short] at same
  exact same

/-! ### Names with one field -/

/-- The extension as 8.3 names have it. -/
def askedExt (name : List UInt8) : List UInt8 := ((afterDot name).take 3).map upper

/-- Base and extension agree up to case in the characters that 8.3 names have. -/
def Alike (name name' : List UInt8) : Prop :=
  (baseOf name).map upper = (baseOf name').map upper ∧ askedExt name = askedExt name'

/-- The extension of a directory entry. -/
def fileExt (f : Nat → UInt8) (off : Nat) : List UInt8 := untilSpace (List.ofFn fun i : Fin 3 => f (off + 8 + i))

section
variable {name name' : List UInt8}

theorem shown_base (plain : Plain name) :
    untilSpace (List.ofFn fun i : Fin 8 => nameToFat83 name (i.castLE (by decide))) = (baseOf name).map upper := by
  rw [nameToFat83_eq plain.text]
  exact field83_base plain.baseOf (baseOf_length name)

theorem shown_ext (plain : Plain name) :
    untilSpace (List.ofFn fun i : Fin 3 => nameToFat83 name (i.natAdd 8)) = (extOf name).map upper := by
  rw [nameToFat83_eq plain.text]
  exact field83_ext plain.extOf (extOf_length name)

theorem nameToFat83_eq_iff (plain : Plain name) (plain' : Plain name') : nameToFat83 name = nameToFat83 name' ↔
    (baseOf name).map upper = (baseOf name').map upper ∧ (extOf name).map upper = (extOf name').map upper := by
  constructor
  · intro same
    constructor
    · rw [← shown_base plain, ← shown_base plain', same]
    · rw [← shown_ext plain, ← shown_ext plain', same]
  · intro same
    rw [nameToFat83_eq plain.text, nameToFat83_eq plain'.text, same.1, same.2]

theorem extOf_short (short : (beforeDot name).length ≤ 8) : (extOf name).map upper = askedExt name := by
  rw [extOf, if_pos short, askedExt]

theorem extOf_nil (cut : 8 < (beforeDot name).length ∨ afterDot name = []) : extOf name = [] := by
  unfold extOf
  rcases cut with long | none
  · exact if_neg (Nat.not_le_of_lt long)
  · rw [none, List.take_nil, ite_self]

theorem askedExt_eq_nil : askedExt name = [] ↔ afterDot name = [] := by
  simp [askedExt]

/-- The driver keeps the extension that was asked for when the base has at most eight characters. -/
theorem extOf_eq_iff : (extOf name).map upper = askedExt name ↔ (beforeDot name).length ≤ 8 ∨ afterDot name = [] := by
  by_cases short : (beforeDot name).length ≤ 8
  · exact iff_of_true (extOf_short short) (.inl short)
  · rw [extOf_nil (.inl (Nat.lt_of_not_le short)), List.map_nil, eq_comm, askedExt_eq_nil]
    exact (or_iff_right short).symm

theorem fileExt_eq_iff (plain : Plain name) {f : Nat → UInt8} {off : Nat} (named : nameAt f off = nameToFat83 name) :
    fileExt f off = askedExt name ↔ (beforeDot name).length ≤ 8 ∨ afterDot name = [] := by
  have ext : fileExt f off = (extOf name).map upper := by
    rw [← shown_ext plain, ← named, fileExt]
    simp only [Nat.add_assoc]
    rfl
  rw [ext, extOf_eq_iff]

theorem extOf_asked (whole : ¬(8 < (beforeDot name).length ∨ afterDot name = [])) :
    (extOf name).map upper = askedExt name ∧ (extOf name).map upper ≠ [] := by
  obtain ⟨short, some⟩ := not_or.mp whole
  have asked := extOf_short (Nat.le_of_not_lt short)
  refine ⟨asked, ?_⟩
  rw [asked]
  exact fun none => some (askedExt_eq_nil.mp none)

/-- Two names lose their difference exactly when both end in the field without an extension. -/
theorem nameToFat83_alike_iff (plain : Plain name) (plain' : Plain name') :
    (nameToFat83 name = nameToFat83 name' → Alike name name') ↔
      ¬((8 < (beforeDot name).length ∨ afterDot name = []) ∧ (8 < (beforeDot name').length ∨ afterDot name' = []) ∧
        (baseOf name).map upper = (baseOf name').map upper ∧ askedExt name ≠ askedExt name') := by
  rw [nameToFat83_eq_iff plain plain']
  constructor
  · rintro keeps ⟨cut, cut', base, differ⟩
    have ext : (extOf name).map upper = (extOf name').map upper := by
      rw [extOf_nil cut, extOf_nil cut']
    exact differ (keeps ⟨base, ext⟩).2
  · rintro apart ⟨base, ext⟩
    apply And.intro base
    by_cases cut : 8 < (beforeDot name).length ∨ afterDot name = []
    · have none' : (extOf name').map upper = [] := by
        rw [← ext, extOf_nil cut, List.map_nil]
      have cut' : 8 < (beforeDot name').length ∨ afterDot name' = [] :=
        by_contra fun whole => (extOf_asked whole).2 none'
      exact by_contra fun differ => apart ⟨cut, cut', base, differ⟩
    · obtain ⟨asked, some⟩ := extOf_asked cut
      have whole' : ¬(8 < (beforeDot name').length ∨ afterDot name' = []) := by
        intro cut'
        apply some
        rw [ext, extOf_nil cut', List.map_nil]
      rw [← asked, ext, (extOf_asked whole').1]

/-- A delete marks one entry, the one with the field of the name. -/
theorem delete_marks {g : Statics} {d : Disk} {r : Nat} {ws : SectorWrites} (acts : Acts g d (.delete name) r ws) :
    ws = [] ∨ ∃ off freed, ws = freed ++ markWrites g d off ∧ Listed (rootBytes g d) g.clusterSize off ∧
      nameAt (rootBytes g d) off = nameToFat83 name := by
  cases acts with
  | missing _ => exact .inl rfl
  | deletes found _ =>
    obtain ⟨listed, named⟩ := findDirEntry_hit (clusterSize_whole g) (Prod.ext found rfl)
    exact .inr ⟨_, _, rfl, listed, named⟩

/-- A write stores one entry: that of a file with the field of the name, or a new one. -/
theorem write_stores {g : Statics} {d : Disk} {data : List UInt8} {r : Nat} {ws : SectorWrites}
    (acts : Acts g d (.write name data) r ws) :
    ws = [] ∨ ∃ off freed stored, ws = freed ++ stored ∧ Stores g d (land freed d) (nameToFat83 name) data off r stored ∧
      (Unused (rootBytes g d) off ∨ Listed (rootBytes g d) g.clusterSize off ∧
        nameAt (rootBytes g d) off = nameToFat83 name) := by
  cases acts with
  | large _ => exact .inl rfl
  | noPlace _ _ => exact .inl rfl
  | writes _ place stores =>
    refine .inr ⟨_, _, _, rfl, stores, ?_⟩
    cases place with
    | own found _ => exact .inr (findDirEntry_hit (clusterSize_whole g) found)
    | free found => exact .inl (findDirEntry_room (clusterSize_whole g) found).unused

end

/-- When two names that get one field agree, and when a delete or a write works on a file with the
extension it was asked for. -/
theorem nameToFat83_keeps_iff {name name' : List UInt8} (plain : Plain name) (plain' : Plain name') :
    ((nameToFat83 name = nameToFat83 name' → Alike name name') ↔
      ¬((8 < (beforeDot name).length ∨ afterDot name = []) ∧ (8 < (beforeDot name').length ∨ afterDot name' = []) ∧
        (baseOf name).map upper = (baseOf name').map upper ∧ askedExt name ≠ askedExt name')) ∧
    (∀ g d r ws, Acts g d (.delete name) r ws → ws = [] ∨ ∃ off freed, ws = freed ++ markWrites g d off ∧
      Listed (rootBytes g d) g.clusterSize off ∧
      (fileExt (rootBytes g d) off = askedExt name ↔ (beforeDot name).length ≤ 8 ∨ afterDot name = [])) ∧
    (∀ g d data r ws, Acts g d (.write name data) r ws → ws = [] ∨ ∃ off freed stored, ws = freed ++ stored ∧
      Stores g d (land freed d) (nameToFat83 name) data off r stored ∧
      (Unused (rootBytes g d) off ∨ Listed (rootBytes g d) g.clusterSize off ∧
        (fileExt (rootBytes g d) off = askedExt name ↔ (beforeDot name).length ≤ 8 ∨ afterDot name = []))) := by
  refine ⟨nameToFat83_alike_iff plain plain', ?_, ?_⟩
  · intro g d r ws acts
    rcases delete_marks acts with none | ⟨off, freed, issued, listed, named⟩
    · exact .inl none
    · exact .inr ⟨off, freed, issued, listed, fileExt_eq_iff plain named⟩
  · intro g d data r ws acts
    rcases write_stores acts with none | ⟨off, freed, stored, issued, stores, unused | ⟨listed, named⟩⟩
    · exact .inl none
    · exact .inr ⟨off, freed, stored, issued, stores, .inl unused⟩
    · exact .inr ⟨off, freed, stored, issued, stores, .inr ⟨listed, fileExt_eq_iff plain named⟩⟩

/-- `a.c` and `a.h` are different files. -/
theorem nameToFat83_keeps_iff_short : nameToFat83 [0x61, dot, 0x63] ≠ nameToFat83 [0x61, dot, 0x68] := by
  have plain : Plain [0x61, dot, 0x63] := by decide
  have plain' : Plain [0x61, dot, 0x68] := by decide
  have keeps := (nameToFat83_keeps_iff plain plain').1.mpr (by decide)
  intro same
  have alike : askedExt [0x61, dot, 0x63] = askedExt [0x61, dot, 0x68] := (keeps same).2
  revert alike
  decide

/-- `kernelmap.c` and `kernelmap.h` are one file. -/
theorem nameToFat83_fails : ¬∀ name name', Plain name → Plain name' → nameToFat83 name = nameToFat83 name' → Alike name name' := by
  intro keeps
  have differ : ¬Alike [0x6B, 0x65, 0x72, 0x6E, 0x65, 0x6C, 0x6D, 0x61, 0x70, dot, 0x63]
      [0x6B, 0x65, 0x72, 0x6E, 0x65, 0x6C, 0x6D, 0x61, 0x70, dot, 0x68] := by
    rintro ⟨-, ext⟩
    revert ext
    decide
  exact differ (keeps _ _ (by decide) (by decide) (by decide))

end ChrisOS.Fs.Fat32
