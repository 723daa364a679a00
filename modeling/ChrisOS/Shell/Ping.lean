import ChrisOS.Lib.Decimal
import ChrisOS.Net.Dns
import ChrisOS.Drivers.Ata

/-! The target of the ping command: an address in dotted decimal, or a name to be looked
up (parse_ip, is_ip and print_ip of shell/shell.c).
-/

set_option autoImplicit false

namespace ChrisOS.Shell
open ChrisOS.Lib ChrisOS.Lib.Decimal ChrisOS.Net
open ChrisOS.Net.Dns (CString)

def dot : UInt8 := 0x2E

def storeOctet (ip : Ipv4Addr) (octet : Fin 4) (val : UInt32) : Ipv4Addr :=
  ⟨Function.update ip.bytes octet val.toUInt8⟩

/-- The loop of parse_ip. An int that overflows is taken to wrap. -/
def parseIpLoop (ip : Ipv4Addr) : List UInt8 → Nat → UInt32 → Ipv4Addr
  | [], octet, val => if inside : octet < 4 then storeOctet ip ⟨octet, inside⟩ val else ip
  | c :: s, octet, val =>
    if inside : octet < 4 then
      if isDigit c then parseIpLoop ip s octet (val * 10 + (c - 0x30).toUInt32)
      else if c = dot then parseIpLoop (storeOctet ip ⟨octet, inside⟩ val) s (octet + 1) 0
      -- any other character is skipped
      else parseIpLoop ip s octet val
    else ip

def parseIp (s : CString) : Ipv4Addr := parseIpLoop ⟨fun _ => 0⟩ s.bytes 0 0

/-- Three dots are all it asks for. -/
def isIp (s : CString) : Bool := s.bytes.count dot = 3

/-- Four parts with a dot behind each but the last. -/
def dotted (parts : Fin 4 → List UInt8) : List UInt8 := [dot].intercalate (List.ofFn parts)

theorem dotted_eq (parts : Fin 4 → List UInt8) :
    dotted parts = parts 0 ++ dot :: (parts 1 ++ dot :: (parts 2 ++ dot :: parts 3)) := by
  rw [dotted, List.intercalate, List.ofFn_succ, List.ofFn_succ, List.ofFn_succ, List.ofFn_succ, List.ofFn_zero]
  simp [List.intersperse]

/-- What print_ip puts on the terminal. -/
def printIp (ip : Ipv4Addr) : List UInt8 := dotted fun i => text (ip.bytes i).toNat

/-- The octets are written as itoa writes them. -/
theorem itoa_octet (b : UInt8) : (Drivers.Ata.itoa b.toNat).toList = (text b.toNat).map fun c => Char.ofNat c.toNat := by
  have positive : ¬ (b.toNat : Int) = -2 ^ 31 := by omega
  rw [Drivers.Ata.itoa, if_neg positive, text_repr]
  rfl

/-- What ping does about its target before it sends anything. -/
inductive Resolution where
  | address (ip : Ipv4Addr)
  /-- The name goes to dns_lookup. -/
  | lookup (host : CString)

def pingTarget (s : CString) : Resolution := if isIp s then .address (parseIp s) else .lookup s

/-! ### Dotted quads -/

/-- Four decimal numbers up to 255, with any zeros in front. -/
structure Quad where
  parts : Fin 4 → List UInt8
  digits : ∀ i, ∀ b ∈ parts i, isDigit b = true
  nonempty : ∀ i, parts i ≠ []
  small : ∀ i, value (parts i) ≤ 255

namespace Quad

def text (q : Quad) : List UInt8 := dotted q.parts

def address (q : Quad) : Ipv4Addr := ⟨fun i => UInt8.ofNat (value (q.parts i))⟩

end Quad

def IsQuad (s : CString) : Prop := ∃ q : Quad, q.text = s.bytes

theorem count_dot_digits {ds : List UInt8} (digits : ∀ b ∈ ds, isDigit b = true) : ds.count dot = 0 :=
  List.count_eq_zero_of_not_mem fun member => absurd (digits dot member) (by decide)

theorem Quad.count_dot (q : Quad) : q.text.count dot = 3 := by
  simp only [text, dotted_eq, List.count_append, List.count_cons_self, count_dot_digits (q.digits _)]

/-- A run of digits goes into the number that is being read. -/
theorem parseIpLoop_digits (ip : Ipv4Addr) {ds : List UInt8} (digits : ∀ b ∈ ds, isDigit b = true) (s : List UInt8)
    {octet : Nat} (inside : octet < 4) (v : Nat) :
    parseIpLoop ip (ds ++ s) octet (UInt32.ofNat v) = parseIpLoop ip s octet (UInt32.ofNat (valueFrom v ds)) := by
  induction ds generalizing v with
  | nil => rfl
  | cons d ds ih =>
    rw [List.forall_mem_cons] at digits
    obtain ⟨lower, upper⟩ := isDigit_iff.mp digits.1
    have step : UInt32.ofNat v * 10 + (d - 0x30).toUInt32 = UInt32.ofNat (v * 10 + digitValue d) := by
      have digit : (d - 0x30).toUInt32 = UInt32.ofNat (digitValue d) := by
        apply UInt32.toNat_inj.mp
        rw [UInt8.toNat_toUInt32, UInt8.toNat_sub_of_le _ _ (UInt8.le_iff_toNat_le.mpr (show (0x30 : UInt8).toNat ≤ d.toNat from lower)), UInt32.toNat_ofNat']
        show d.toNat - 0x30 = (d.toNat - 0x30) % 2 ^ 32
        omega
      rw [digit, UInt32.ofNat_add, UInt32.ofNat_mul]
      rfl
    rw [List.cons_append, parseIpLoop, dif_pos inside, if_pos digits.1, step, ih digits.2]
    rfl

/-- A dot stores the number and starts the next one. -/
theorem parseIpLoop_dot (ip : Ipv4Addr) (s : List UInt8) {octet : Nat} (inside : octet < 4) (val : UInt32) :
    parseIpLoop ip (dot :: s) octet val = parseIpLoop (storeOctet ip ⟨octet, inside⟩ val) s (octet + 1) 0 := by
  rw [parseIpLoop, dif_pos inside, if_neg (by decide), if_pos rfl]

theorem parseIpLoop_end (ip : Ipv4Addr) {octet : Nat} (inside : octet < 4) (val : UInt32) :
    parseIpLoop ip [] octet val = storeOctet ip ⟨octet, inside⟩ val := by
  rw [parseIpLoop, dif_pos inside]

theorem toUInt8_ofNat (v : Nat) : (UInt32.ofNat v).toUInt8 = UInt8.ofNat v := by
  apply UInt8.toNat_inj.mp
  rw [UInt32.toNat_toUInt8, UInt32.toNat_ofNat', UInt8.toNat_ofNat']
  omega

theorem Quad.parseIp_text (q : Quad) {s : CString} (written : q.text = s.bytes) : parseIp s = q.address := by
  have part (ip : Ipv4Addr) (i : Fin 4) (rest : List UInt8) {octet : Nat} (inside : octet < 4) :
      parseIpLoop ip (q.parts i ++ rest) octet 0 = parseIpLoop ip rest octet (UInt32.ofNat (value (q.parts i))) :=
    parseIpLoop_digits ip (q.digits i) rest inside 0
  have last (ip : Ipv4Addr) : parseIpLoop ip (q.parts 3) 3 0 =
      storeOctet ip 3 (UInt32.ofNat (value (q.parts 3))) := by
    have whole := part ip 3 [] (show 3 < 4 by decide)
    rw [List.append_nil, parseIpLoop_end ip (by decide)] at whole
    exact whole
  rw [parseIp, ← written, text, dotted_eq, part _ 0 _ (by decide), parseIpLoop_dot _ _ (by decide), part _ 1 _ (by decide),
    parseIpLoop_dot _ _ (by decide), part _ 2 _ (by decide), parseIpLoop_dot _ _ (by decide), last]
  refine congrArg Ipv4Addr.mk (funext fun i => ?_)
  fin_cases i <;> exact toUInt8_ofNat _

/-! ### What print_ip writes -/

def printed (ip : Ipv4Addr) : Quad where
  parts i := text (ip.bytes i).toNat
  digits i := text_isDigit _
  nonempty i := text_ne_nil _
  small i := by
    have := (ip.bytes i).toNat_lt
    rw [value_text]
    omega

theorem printed_text (ip : Ipv4Addr) : (printed ip).text = printIp ip := rfl

theorem printed_address (ip : Ipv4Addr) : (printed ip).address = ip := by
  refine congrArg Ipv4Addr.mk (funext fun i => ?_)
  rw [printed, value_text, UInt8.ofNat_toNat]

theorem Quad.text_nonzero (q : Quad) : 0 ∉ q.text := by
  have part (i : Fin 4) : 0 ∉ q.parts i := fun member => absurd (q.digits i 0 member) (by decide)
  have apart : (0 : UInt8) ≠ dot := by decide
  simp only [text, dotted_eq, List.mem_append, List.mem_cons, part, apart, or_self, not_false_eq_true]

/-! ### Both together -/

/-- The recogniser and the converter accept the dotted quads and nothing else, and ping looks up
every other target. -/
structure PingSound (s : CString) : Prop where
  recognised : isIp s = true ↔ IsQuad s
  parsed : ∀ q : Quad, q.text = s.bytes → parseIp s = q.address
  named : ¬ IsQuad s → pingTarget s = .lookup s

theorem IsQuad.isIp {s : CString} (quad : IsQuad s) : isIp s = true := by
  obtain ⟨q, written⟩ := quad
  rw [Shell.isIp, ← written, q.count_dot]
  rfl

/-- parse_ip reads back what print_ip writes. A target is treated as it should be exactly if it is a
dotted quad or does not have three dots. -/
theorem ping_sound_iff (ip : Ipv4Addr) (s : CString) :
    (isIp ⟨printIp ip, (printed ip).text_nonzero⟩ = true ∧ parseIp ⟨printIp ip, (printed ip).text_nonzero⟩ = ip) ∧
    (PingSound s ↔ IsQuad s ∨ s.bytes.count dot ≠ 3) := by
  refine ⟨⟨IsQuad.isIp ⟨printed ip, printed_text ip⟩, ?_⟩, ⟨fun sound => ?_, fun proper => ?_⟩⟩
  · exact ((printed ip).parseIp_text rfl).trans (printed_address ip)
  · by_cases dots : s.bytes.count dot = 3
    · exact .inl (sound.recognised.mp (decide_eq_true dots))
    · exact .inr dots
  · have onlyQuads (named : ¬ IsQuad s) : Shell.isIp s = false := decide_eq_false (proper.resolve_left named)
    refine ⟨⟨fun found => ?_, IsQuad.isIp⟩, fun q written => q.parseIp_text written, fun named => ?_⟩
    · by_contra named
      rw [onlyQuads named] at found
      cases found
    · rw [pingTarget, onlyQuads named]
      rfl

/-- www.mail.example.com. -/
def fourLabels : CString where
  bytes := [0x77, 0x77, 0x77, dot, 0x6D, 0x61, 0x69, 0x6C, dot, 0x65, 0x78, 0x61, 0x6D, 0x70, 0x6C, 0x65, dot, 0x63, 0x6F, 0x6D]
  nonzero := by decide

/-- A host name with three dots is taken for the address 0.0.0.0. -/
theorem name_taken_for_address : pingTarget fourLabels = .address ⟨fun _ => 0⟩ ∧ ¬ ∀ s, PingSound s := by
  have taken : pingTarget fourLabels = .address ⟨fun _ => 0⟩ := by
    have octets : ∀ i, (parseIp fourLabels).bytes i = 0 := by decide
    have address : parseIp fourLabels = ⟨fun _ => 0⟩ := congrArg Ipv4Addr.mk (funext octets)
    rw [pingTarget, address]
    rfl
  refine ⟨taken, fun all => ?_⟩
  have name : ¬ IsQuad fourLabels := by
    rintro ⟨q, written⟩
    -- the first byte of a quad is a digit
    cases first : q.parts 0 with
    | nil => exact q.nonempty 0 first
    | cons b rest =>
      have digit := q.digits 0 b (first ▸ List.mem_cons_self ..)
      rw [Quad.text, dotted_eq, first, List.cons_append] at written
      rw [(List.cons.inj written).1] at digit
      exact absurd digit (by decide)
  have looked := (all fourLabels).named name
  rw [taken] at looked
  cases looked

end ChrisOS.Shell
