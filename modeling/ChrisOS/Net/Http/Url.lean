import ChrisOS.Kernel.Kprintf
import ChrisOS.Lib.Decimal
import ChrisOS.Net.Dns.Queries
import ChrisOS.Net.Http

/-! parse_url and build_request of net/http.c, and the arrays of http_get that they fill.

An URL is split at its first slash behind the scheme. Nothing compares the parts with the
arrays they go into.
-/

set_option autoImplicit false

namespace ChrisOS.Net.Http
open ChrisOS.Lib Traced
open ChrisOS.Kernel.Kprintf (ascii)
open ChrisOS.Net.Dns (CString Packet Puts Holds holds_append toInt_toInt8_inj)

def slash : UInt8 := 0x2F
def colon : UInt8 := 0x3A

def scheme : List UInt8 := ascii "http://"

/-- `a[i] - b[i]` at the first difference before the end of both, looking at n characters at most. -/
def kstrncmp : Nat → List UInt8 → List UInt8 → Int
  | 0, _, _ => 0
  | n + 1, a, b =>
    if a.headD 0 = 0 ∧ b.headD 0 = 0 then 0
    else if a.headD 0 ≠ b.headD 0 then (a.headD 0).toInt8.toInt - (b.headD 0).toInt8.toInt
    else kstrncmp n a.tail b.tail

/-- The URL behind an optional scheme. -/
def afterScheme (url : List UInt8) : List UInt8 := if kstrncmp 7 url scheme = 0 then url.drop 7 else url

/-- What is found up to the first slash, and from there on. -/
def hostOf (url : List UInt8) : List UInt8 := (afterScheme url).takeWhile (· ≠ slash)

def restOf (url : List UInt8) : List UInt8 := (afterScheme url).drop (hostOf url).length

def pathOf (url : List UInt8) : List UInt8 := if restOf url = [] then [slash] else restOf url

/-- The arrays host and path with the indices that parse_url writes, and the port. -/
structure Parsed where
  host : Traced Nat Packet
  path : Traced Nat Packet
  port : UInt16

def parseUrl (url : CString) (host path : Nat → UInt8) : Parsed where
  host := Packet.putAll ⟨host, 0⟩ (hostOf url.bytes ++ [0])
  path := Packet.putAll ⟨path, 0⟩ (pathOf url.bytes ++ [0])
  port := httpPort

/-- The request text; pos is counted in 16 bits, which no URL of the shell fills. -/
def buildRequest (host path : List UInt8) (buf : Nat → UInt8) : Traced Nat Packet := do
  let p ← Packet.putAll ⟨buf, 0⟩ (ascii "GET ")
  let p ← p.putAll path
  let p ← p.putAll (ascii " HTTP/1.0\r\nHost: ")
  let p ← p.putAll host
  p.putAll (ascii "\r\nConnection: close\r\n\r\n")

/-! ### The scheme -/

theorem kstrncmp_eq_zero_iff {n : Nat} {a b : List UInt8} (nonzero : 0 ∉ b) (length : b.length = n) :
    kstrncmp n a b = 0 ↔ b <+: a := by
  induction n generalizing a b with
  | zero =>
    rw [List.eq_nil_of_length_eq_zero length]
    exact iff_of_true rfl List.nil_prefix
  | succ n ih =>
    cases b with
    | nil => cases length
    | cons y b =>
      rw [List.mem_cons, not_or] at nonzero
      have more : ¬ (a.headD 0 = 0 ∧ y = 0) := fun both => nonzero.1 both.2.symm
      rw [kstrncmp, List.headD_cons, if_neg more]
      cases a with
      | nil =>
        rw [List.headD_nil, if_pos nonzero.1, Int.sub_eq_zero, toInt_toInt8_inj]
        exact iff_of_false nonzero.1 (fun isPrefix => nomatch List.prefix_nil.mp isPrefix)
      | cons x a =>
        rw [List.headD_cons, List.cons_prefix_cons]
        by_cases same : x = y
        · rw [if_neg (not_not.mpr same), and_iff_right same.symm]
          exact ih nonzero.2 (Nat.succ.inj length)
        · rw [if_pos same, Int.sub_eq_zero, toInt_toInt8_inj]
          exact iff_of_false same fun both => same both.1.symm

theorem kstrncmp_scheme {url : List UInt8} : kstrncmp 7 url scheme = 0 ↔ scheme <+: url :=
  kstrncmp_eq_zero_iff (by decide) rfl

/-! ### Indices -/

/-- What is put behind each other goes to the indices from 0 on. -/
theorem puts_inside_iff {m : Nat → UInt8} {bytes : List UInt8} {x : Traced Nat Packet} {limit : Nat}
    (puts : Puts ⟨m, 0⟩ bytes x) : All (· < limit) x ↔ bytes.length ≤ limit := by
  rw [All, puts.written]
  constructor
  · intro inside
    by_contra long
    exact absurd (inside limit (List.mem_range'_1.mpr ⟨Nat.zero_le _, by omega⟩)) (Nat.lt_irrefl _)
  · intro short i member
    have below : i < 0 + bytes.length := (List.mem_range'_1.mp member).2
    omega

theorem puts_buildRequest (host path : List UInt8) (buf : Nat → UInt8) :
    Puts ⟨buf, 0⟩ (ascii "GET " ++ (path ++ (ascii " HTTP/1.0\r\nHost: " ++ (host ++
      ascii "\r\nConnection: close\r\n\r\n")))) (Http.buildRequest host path buf) :=
  (Puts.putAll _ _).bind ((Puts.putAll _ _).bind ((Puts.putAll _ _).bind ((Puts.putAll _ _).bind (Puts.putAll _ _))))

theorem length_hostOf_add_restOf (url : List UInt8) : (hostOf url).length + (restOf url).length = (afterScheme url).length := by
  have part := (List.takeWhile_prefix (p := (· ≠ slash)) (l := afterScheme url)).length_le
  rw [restOf, List.length_drop, hostOf]
  omega

theorem length_afterScheme_le (url : List UInt8) : (afterScheme url).length ≤ url.length := by
  unfold afterScheme
  split
  · rw [List.length_drop]
    exact Nat.sub_le _ _
  · exact Nat.le_refl _

/-- The arrays hold the parts with their terminators. -/
theorem parseUrl_holds (url : CString) (host path : Nat → UInt8) :
    Holds (parseUrl url host path).host.value.bytes 0 (hostOf url.bytes ++ [0]) ∧
    Holds (parseUrl url host path).path.value.bytes 0 (pathOf url.bytes ++ [0]) :=
  ⟨(Puts.putAll _ _).holds, (Puts.putAll _ _).holds⟩

/-- The arrays of http_get are written inside their bounds. -/
structure Inside (url : CString) : Prop where
  host : ∀ host path, All (· < 128) (parseUrl url host path).host
  path : ∀ host path, All (· < 256) (parseUrl url host path).path
  request : ∀ buf, All (· < 512) (buildRequest (hostOf url.bytes) (pathOf url.bytes) buf)

/-- For an URL that the shell can pass, the arrays are large enough exactly if its host has at most 127 characters. -/
theorem inside_iff {url : CString} (short : url.bytes.length ≤ 250) : Inside url ↔ (hostOf url.bytes).length ≤ 127 := by
  have whole := length_hostOf_add_restOf url.bytes
  have part := length_afterScheme_le url.bytes
  have pathLength : (pathOf url.bytes).length ≤ max (restOf url.bytes).length 1 := by
    unfold pathOf
    split
    · exact Nat.le_max_right _ _
    · exact Nat.le_max_left _ _
  have hostWrites (host path : Nat → UInt8) :
      All (· < 128) (parseUrl url host path).host ↔ (hostOf url.bytes).length ≤ 127 := by
    rw [parseUrl, puts_inside_iff (Puts.putAll _ _), List.length_append, List.length_singleton]
    omega
  constructor
  · intro inside
    exact (hostWrites (fun _ => 0) (fun _ => 0)).mp (inside.host _ _)
  · intro fits
    refine ⟨fun host path => (hostWrites host path).mpr fits, fun host path => ?_, fun buf => ?_⟩
    · rw [parseUrl, puts_inside_iff (Puts.putAll _ _), List.length_append, List.length_singleton]
      omega
    · have fixed : (ascii "GET ").length = 4 ∧ (ascii " HTTP/1.0\r\nHost: ").length = 17 ∧
          (ascii "\r\nConnection: close\r\n\r\n").length = 23 := ⟨rfl, rfl, rfl⟩
      rw [puts_inside_iff (puts_buildRequest _ _ _)]
      simp only [List.length_append, fixed]
      omega

theorem inside_example : Inside ⟨ascii "http://example.com/index.html", by decide⟩ :=
  (inside_iff (by decide)).mpr (by decide)

def longHost : CString := ⟨List.replicate 128 0x61, by decide⟩

/-- The terminator of a host of 128 characters goes behind the array. -/
theorem long_host_outside : ¬ ∀ url : CString, url.bytes.length ≤ 250 → Inside url := by
  intro all
  have inside := (all longHost (by decide +kernel)).host (fun _ => 0) (fun _ => 0)
  have written := (Puts.putAll ⟨fun _ => 0, 0⟩ (hostOf longHost.bytes ++ [0])).written
  have last : 128 ∈ List.range' 0 (hostOf longHost.bytes ++ [0]).length := by decide +kernel
  rw [← written] at last
  exact absurd (inside 128 last) (by decide)

/-! ### Formatted URLs -/

/-- An URL by its parts. -/
structure Url where
  scheme : Bool
  host : List UInt8
  port : Option UInt16
  path : List UInt8
  hostNonempty : host ≠ []
  hostLength : host.length ≤ 127
  hostChars : ∀ b ∈ host, b ≠ slash ∧ b ≠ colon ∧ b ≠ 0
  portNonzero : port ≠ some 0
  pathStart : path = [] ∨ path.head? = some slash
  pathChars : 0 ∉ path

namespace Url

def portText : Option UInt16 → List UInt8
  | none => []
  | some port => colon :: Decimal.text port.toNat

/-- The host and, if it is given, the port. -/
def authority (u : Url) : List UInt8 := u.host ++ portText u.port

def text (u : Url) : List UInt8 := (if u.scheme then Http.scheme else []) ++ (u.authority ++ u.path)

theorem portText_chars {port : Option UInt16} {b : UInt8} (member : b ∈ portText port) : b ≠ slash ∧ b ≠ 0 := by
  cases port with
  | none => cases member
  | some port =>
    rcases List.mem_cons.mp member with rfl | digit
    · decide
    · have digits := Decimal.isDigit_iff.mp (Decimal.text_isDigit _ b digit)
      refine ⟨?_, ?_⟩ <;> rintro rfl <;> revert digits <;> decide

theorem authority_chars (u : Url) {b : UInt8} (member : b ∈ u.authority) : b ≠ slash ∧ b ≠ 0 := by
  rcases List.mem_append.mp member with host | port
  · exact ⟨(u.hostChars b host).1, (u.hostChars b host).2.2⟩
  · exact portText_chars port

theorem text_nonzero (u : Url) : 0 ∉ u.text := by
  have prefixChars : 0 ∉ (if u.scheme then Http.scheme else []) := by
    cases u.scheme <;> decide
  rw [text, List.mem_append, List.mem_append]
  rintro (start | authority | path)
  · exact prefixChars start
  · exact (u.authority_chars authority).2 rfl
  · exact u.pathChars path

def cString (u : Url) : CString := ⟨u.text, u.text_nonzero⟩

/-- The authority ends in a character of the host or in a digit. -/
theorem authority_ne_colon (u : Url) (before : List UInt8) : u.authority ≠ before ++ [colon] := by
  intro same
  have last : u.authority.getLast? = some colon := by rw [same, List.getLast?_concat]
  rw [authority] at last
  cases given : u.port with
  | none =>
    rw [given, portText, List.append_nil] at last
    exact (u.hostChars colon (List.mem_of_getLast? last)).2.1 rfl
  | some port =>
    have digits := Decimal.text_ne_nil port.toNat
    rw [given, portText, List.getLast?_append_of_ne_nil _ (List.cons_ne_nil _ _), List.getLast?_cons_of_ne_nil digits] at last
    exact absurd (Decimal.text_isDigit _ colon (List.mem_of_getLast? last)) (by decide)

/-- Up to the first slash there is the authority. -/
theorem takeWhile_authority (u : Url) : (u.authority ++ u.path).takeWhile (· ≠ slash) = u.authority := by
  rw [List.takeWhile_append_of_pos fun b member => decide_eq_true (u.authority_chars member).1]
  rcases u.pathStart with empty | start
  · rw [empty, List.takeWhile_nil, List.append_nil]
  · obtain ⟨rest, shown⟩ := List.head?_eq_some_iff.mp start
    rw [shown, List.takeWhile_cons_of_neg (by simp), List.append_nil]

/-- Without a scheme the text is not taken to have one. -/
theorem scheme_not_prefix (u : Url) : ¬ Http.scheme <+: u.authority ++ u.path := by
  rintro ⟨rest, shown⟩
  have whole := u.takeWhile_authority
  rw [← shown] at whole
  exact u.authority_ne_colon (ascii "http") whole.symm

theorem afterScheme_text (u : Url) : afterScheme u.text = u.authority ++ u.path := by
  unfold afterScheme text
  cases u.scheme with
  | false =>
    rw [if_neg Bool.false_ne_true, List.nil_append, if_neg fun same => u.scheme_not_prefix (kstrncmp_scheme.mp same)]
  | true =>
    rw [if_pos rfl, if_pos (kstrncmp_scheme.mpr (List.prefix_append _ _))]
    exact List.drop_left' rfl

theorem hostOf_text (u : Url) : hostOf u.text = u.authority := by
  rw [hostOf, afterScheme_text, takeWhile_authority]

/-- What the path array is to hold. -/
def shownPath (u : Url) : List UInt8 := if u.path = [] then [slash] else u.path

theorem pathOf_text (u : Url) : pathOf u.text = u.shownPath := by
  have rest : restOf u.text = u.path := by
    rw [restOf, afterScheme_text, hostOf_text, List.drop_left]
  rw [pathOf, rest, shownPath]

end Url

/-- parse_url finds the parts that the URL was written from, for the arrays of http_get. -/
structure Recovered (u : Url) : Prop where
  host : ∀ host path, All (· < 128) (parseUrl u.cString host path).host ∧
    Holds (parseUrl u.cString host path).host.value.bytes 0 (u.host ++ [0])
  path : ∀ host path, All (· < 256) (parseUrl u.cString host path).path ∧
    Holds (parseUrl u.cString host path).path.value.bytes 0 (u.shownPath ++ [0])
  port : ∀ host path, (parseUrl u.cString host path).port = u.port.getD httpPort

/-- A port is left in the host, and 80 is used instead. -/
theorem Recovered.port_none {u : Url} (recovered : Recovered u) : u.port = none := by
  cases given : u.port with
  | none => rfl
  | some port =>
    have split : hostOf u.cString.bytes ++ [0] = u.host ++ (Url.portText u.port ++ [0]) := by
      rw [Url.cString, Url.hostOf_text, Url.authority, List.append_assoc]
    have wanted := (recovered.host (fun _ => 0) (fun _ => 0)).2
    have found := (parseUrl_holds u.cString (fun _ => 0) (fun _ => 0)).1
    rw [split, given] at found
    have terminator := (holds_append.mp wanted).2.1
    have mark := (holds_append.mp found).2.1
    exact absurd (mark.symm.trans terminator) (by decide)

theorem recovered_iff (u : Url) : Recovered u ↔ u.port = none ∧ u.path.length ≤ 255 := by
  have pathWrites (host path : Nat → UInt8) :
      All (· < 256) (parseUrl u.cString host path).path ↔ u.path.length ≤ 255 := by
    have shown : u.shownPath.length ≤ 255 ↔ u.path.length ≤ 255 := by
      unfold Url.shownPath
      split
      · rename_i empty
        rw [empty]
        decide
      · exact Iff.rfl
    rw [parseUrl, puts_inside_iff (Puts.putAll _ _), Url.cString, Url.pathOf_text, List.length_append,
      List.length_singleton, ← shown]
    omega
  constructor
  · intro recovered
    exact ⟨recovered.port_none, (pathWrites (fun _ => 0) (fun _ => 0)).mp (recovered.path _ _).1⟩
  · rintro ⟨none, fits⟩
    have bare : hostOf u.cString.bytes = u.host := by
      rw [Url.cString, Url.hostOf_text, Url.authority, none, Url.portText, List.append_nil]
    refine ⟨fun host path => ⟨?_, ?_⟩, fun host path => ⟨(pathWrites host path).mpr fits, ?_⟩, fun host path => ?_⟩
    · rw [parseUrl, puts_inside_iff (Puts.putAll _ _), bare, List.length_append, List.length_singleton]
      exact Nat.succ_le_succ u.hostLength
    · rw [← bare]
      exact (parseUrl_holds u.cString host path).1
    · rw [← Url.pathOf_text]
      exact (parseUrl_holds u.cString host path).2
    · rw [none]
      rfl

/-- `host:8080/` -/
def withPort : Url where
  scheme := false
  host := ascii "host"
  port := some 8080
  path := [slash]
  hostNonempty := by decide
  hostLength := by decide
  hostChars := by decide +kernel
  portNonzero := by decide
  pathStart := .inr rfl
  pathChars := by decide

theorem port_not_recovered : ¬ ∀ u : Url, Recovered u :=
  fun all => nomatch (all withPort).port_none

end ChrisOS.Net.Http
