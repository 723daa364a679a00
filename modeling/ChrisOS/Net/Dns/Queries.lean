import ChrisOS.Net.Dns.Answers
import ChrisOS.Net.Emission

/-! The query that dns_lookup sends for a hostname, and the part of pkt it is put into.

Every label of the hostname goes behind its length, which is neither tested nor kept to the
63 of the format, and nothing compares the whole with the 512 bytes of pkt.
-/

set_option autoImplicit false

namespace ChrisOS.Net.Dns
open ChrisOS.Lib Traced

/-! ### Hostnames -/

/-- The hostname without a trailing dot. -/
def stripDot (name : List UInt8) : List UInt8 := if name.getLast? = some dot then name.dropLast else name

/-- The dot-separated labels of a hostname; the root has none. -/
def labels (name : List UInt8) : List (List UInt8) :=
  if stripDot name = [] then [] else (stripDot name).splitOn dot

/-- The hostname is a name of the format, no longer than `limit` bytes of it. -/
def Encodable (limit : Nat) (name : List UInt8) : Prop :=
  (∀ label ∈ labels name, ValidLabel label) ∧ (encodeLabels (labels name)).length + 1 ≤ limit

/-- The labels that the loop of dns_lookup puts. -/
def scannedLabels (name : List UInt8) : List (List UInt8) :=
  if name = [] then []
  else
    let label := name.takeWhile (· ≠ dot)
    label :: scannedLabels (name.drop (label.length + 1))
  termination_by name.length
  decreasing_by
    rename_i more
    have := List.length_pos_iff.mpr more
    rw [List.length_drop]
    omega

/-- A name is one label, or a label up to the first dot and the rest behind it. -/
theorem name_cases (name : List UInt8) : dot ∉ name ∨ ∃ label rest, dot ∉ label ∧ name = label ++ dot :: rest := by
  by_cases member : dot ∈ name
  · obtain ⟨label, rest, split, before⟩ := List.eq_append_cons_of_mem member
    exact .inr ⟨label, rest, before, split⟩
  · exact .inl member

theorem takeWhile_label {label : List UInt8} (clean : dot ∉ label) : label.takeWhile (· ≠ dot) = label := by
  rw [List.takeWhile_eq_self_iff]
  intro b member
  exact decide_eq_true fun same => clean (same ▸ member)

theorem takeWhile_label_dot {label : List UInt8} (clean : dot ∉ label) (rest : List UInt8) :
    (label ++ dot :: rest).takeWhile (· ≠ dot) = label := by
  rw [List.takeWhile_append_of_pos, List.takeWhile_cons_of_neg, List.append_nil]
  · decide
  · intro b member
    exact decide_eq_true fun same => clean (same ▸ member)

theorem scannedLabels_last {label : List UInt8} (nonempty : label ≠ []) (clean : dot ∉ label) :
    scannedLabels label = [label] := by
  rw [scannedLabels, if_neg nonempty]
  dsimp only
  rw [takeWhile_label clean, List.drop_of_length_le (Nat.le_succ _), scannedLabels, if_pos rfl]

theorem scannedLabels_dot {label : List UInt8} (clean : dot ∉ label) (rest : List UInt8) :
    scannedLabels (label ++ dot :: rest) = label :: scannedLabels rest := by
  rw [scannedLabels, if_neg (List.append_ne_nil_of_right_ne_nil _ (List.cons_ne_nil _ _))]
  dsimp only
  rw [takeWhile_label_dot clean, List.drop_append, List.drop_of_length_le (Nat.le_succ _), Nat.add_sub_cancel_left]
  rfl

theorem stripDot_label {label : List UInt8} (clean : dot ∉ label) : stripDot label = label := by
  rw [stripDot, if_neg]
  intro last
  exact clean (List.mem_of_getLast? last)

theorem stripDot_append {first rest : List UInt8} (nonempty : rest ≠ []) :
    stripDot (first ++ rest) = first ++ stripDot rest := by
  unfold stripDot
  rw [List.getLast?_append_of_ne_nil _ nonempty, List.dropLast_append_of_ne_nil nonempty]
  split <;> rfl

/-- The loop splits the name at its dots, and puts nothing for a trailing one. -/
theorem scannedLabels_eq {name : List UInt8} (nonempty : name ≠ []) : scannedLabels name = (stripDot name).splitOn dot := by
  induction length : name.length using Nat.strongRecOn generalizing name with
  | ind n ih =>
    rcases name_cases name with clean | ⟨label, rest, clean, rfl⟩
    · rw [scannedLabels_last nonempty clean, stripDot_label clean, List.splitOn_eq_singleton clean]
    · rw [scannedLabels_dot clean]
      by_cases last : rest = []
      · subst last
        have stripped : stripDot (label ++ [dot]) = label := by
          rw [stripDot, List.getLast?_concat, if_pos rfl, List.dropLast_concat]
        rw [stripped, List.splitOn_eq_singleton clean, scannedLabels, if_pos rfl]
      · have shorter : rest.length < n := by
          rw [← length, List.length_append, List.length_cons]
          omega
        have stripped : stripDot (label ++ dot :: rest) = label ++ dot :: stripDot rest := by
          have whole : label ++ dot :: rest = (label ++ [dot]) ++ rest := by
            rw [List.append_assoc, List.singleton_append]
          rw [whole, stripDot_append last, List.append_assoc, List.singleton_append]
        rw [ih rest.length shorter last rfl, stripped, List.splitOn_append_cons_self_of_not_mem clean]

/-- They are the labels of the name, but for the name of one dot. -/
theorem scannedLabels_cases (name : List UInt8) :
    scannedLabels name = labels name ∨ labels name = [] ∧ scannedLabels name = [[]] := by
  by_cases empty : name = []
  · subst empty
    refine .inl ?_
    rw [scannedLabels, if_pos rfl]
    rfl
  · rw [scannedLabels_eq empty, labels]
    by_cases root : stripDot name = []
    · rw [if_pos root, root]
      exact .inr ⟨rfl, List.splitOn_nil dot⟩
    · rw [if_neg root]
      exact .inl rfl

/-! ### Filling pkt -/

theorem Holds.congr {m other : Nat → UInt8} {pos : Nat} {bytes : List UInt8} (holds : Holds m pos bytes)
    (same : ∀ i, pos ≤ i → i < pos + bytes.length → other i = m i) : Holds other pos bytes := by
  induction bytes generalizing pos with
  | nil => exact trivial
  | cons b bytes ih =>
    rw [List.length_cons] at same
    refine ⟨(same pos (Nat.le_refl _) (by omega)).trans holds.1, ih holds.2 fun i above below => ?_⟩
    exact same i (by omega) (by omega)

/-- These bytes are put behind what is there, each at the next index. -/
structure Puts (p : Packet) (bytes : List UInt8) (x : Traced Nat Packet) : Prop where
  written : x.trace = List.range' p.pos bytes.length
  pos : x.value.pos = p.pos + bytes.length
  holds : Holds x.value.bytes p.pos bytes
  keeps : ∀ i, i < p.pos → x.value.bytes i = p.bytes i

theorem Puts.none (p : Packet) : Puts p [] (pure p) := ⟨rfl, rfl, trivial, fun _ _ => rfl⟩

theorem Puts.bind {p : Packet} {first rest : List UInt8} {x : Traced Nat Packet} {f : Packet → Traced Nat Packet}
    (left : Puts p first x) (right : Puts x.value rest (f x.value)) : Puts p (first ++ rest) (x >>= f) := by
  constructor
  · rw [trace_bind, left.written, right.written, left.pos, List.length_append]
    exact List.range'_append_1
  · rw [value_bind, right.pos, left.pos, List.length_append, Nat.add_assoc]
  · rw [value_bind, holds_append]
    refine ⟨left.holds.congr fun i _ below => right.keeps i ?_, ?_⟩
    · rw [left.pos]
      exact below
    · rw [← left.pos]
      exact right.holds
  · intro i below
    rw [value_bind, right.keeps i (by rw [left.pos]; omega), left.keeps i below]

theorem Puts.put (p : Packet) (b : UInt8) : Puts p [b] (p.put b) := by
  refine ⟨rfl, rfl, ⟨Function.update_self _ _ _, trivial⟩, fun i below => ?_⟩
  exact Function.update_of_ne (Nat.ne_of_lt below) _ _

theorem Puts.putAll (p : Packet) (bytes : List UInt8) : Puts p bytes (p.putAll bytes) := by
  induction bytes generalizing p with
  | nil => exact .none p
  | cons b bytes ih => exact (Puts.put p b).bind (ih _)

theorem Puts.putLabels (p : Packet) (name : List UInt8) :
    Puts p (encodeLabels (scannedLabels name)) (Dns.putLabels p name) := by
  induction name using scannedLabels.induct generalizing p with
  | case1 =>
    rw [Dns.putLabels, if_pos rfl, scannedLabels, if_pos rfl]
    exact .none p
  | case2 name more label ih =>
    rw [Dns.putLabels, if_neg more, scannedLabels, if_neg more]
    exact (Puts.put p _).bind ((Puts.putAll _ label).bind (ih _))

/-- The bytes of a query. -/
def queryBytes (tid : UInt16) (name : List UInt8) : List UInt8 :=
  [UInt8.ofNat (tid.toNat / 256), UInt8.ofNat (tid.toNat % 256), 1, 0, 0, 1, 0, 0, 0, 0, 0, 0] ++
    (encodeLabels (scannedLabels name) ++ [0, 0, 1, 0, 1])

theorem Puts.putQuery (tid : UInt16) (name : List UInt8) :
    Puts ⟨fun _ => 0, 0⟩ (queryBytes tid name) (Dns.putQuery tid name) :=
  (Puts.putAll _ _).bind ((Puts.putLabels _ name).bind (Puts.putAll _ _))

theorem queryBytes_length (tid : UInt16) (name : List UInt8) :
    (queryBytes tid name).length = 12 + ((encodeLabels (scannedLabels name)).length + 5) := by
  rw [queryBytes, List.length_append, List.length_append]
  rfl

theorem Holds.window {m : Nat → UInt8} {pos : Nat} {bytes : List UInt8} (holds : Holds m pos bytes) :
    Udp.window m pos bytes.length = bytes := by
  unfold Udp.window
  induction bytes generalizing pos with
  | nil => rfl
  | cons b bytes ih =>
    rw [List.length_cons, List.range_succ_eq_map, List.map_cons, List.map_map, Nat.add_zero, holds.1]
    refine congrArg _ (Eq.trans (List.map_congr_left fun i _ => congrArg m ?_) (ih holds.2))
    rw [Nat.succ_eq_add_one]
    omega

/-- A query shorter than 2^16 bytes is handed to udp_send as it was put together. -/
theorem query_eq {y : Resolver} {hostname : CString} (fits : (queryBytes (asked y).tid hostname.bytes).length < 2 ^ 16) :
    query y hostname = queryBytes (asked y).tid hostname.bytes := by
  have puts := Puts.putQuery (asked y).tid hostname.bytes
  have pos := puts.pos
  rw [Nat.zero_add] at pos
  rw [query, pos, Nat.mod_eq_of_lt fits]
  exact puts.holds.window

/-! ### Calls -/

/-- pkt is written inside its bounds, a query names the hostname, and a hostname with no name of
the format is not asked for. -/
structure LookupSound (limit : Nat) (y : Resolver) (hostname : CString) : Prop where
  inside : ∀ traffic, All (· < 512) (dnsLookup y hostname traffic)
  names : ∀ data, sent y hostname = some data →
    ∃ rest, decodeName (data.drop 12) = some (labels hostname.bytes, rest) ∧ ∀ label ∈ labels hostname.bytes, ValidLabel label
  refuses : ¬ Encodable limit hostname.bytes →
    sent y hostname = none ∧ ∀ traffic, (dnsLookup y hostname traffic).value.2 = ipZero

section
variable {y : Resolver} {hostname : CString}

theorem dnsLookup_cached {ip : Ipv4Addr} (hit : dnsCacheLookup y.cache hostname = some ip) (traffic : Traffic) :
    dnsLookup y hostname traffic = pure (y, ip) := by
  rw [dnsLookup, hit]

theorem sent_cached {ip : Ipv4Addr} (hit : dnsCacheLookup y.cache hostname = some ip) : sent y hostname = none := by
  rw [sent, hit]

variable (miss : dnsCacheLookup y.cache hostname = none)
include miss

/-- The indices written are those of the query. -/
theorem dnsLookup_inside_iff (traffic : Traffic) : All (· < 512) (dnsLookup y hostname traffic) ↔
    (queryBytes (asked y).tid hostname.bytes).length ≤ 512 := by
  have written : (dnsLookup y hostname traffic).trace = List.range (queryBytes (asked y).tid hostname.bytes).length := by
    rw [dnsLookup, miss, trace_bind, trace_pure, List.append_nil, (Puts.putQuery _ _).written]
    exact List.range_eq_range'.symm
  have long := queryBytes_length (asked y).tid hostname.bytes
  unfold All
  rw [written]
  constructor
  · intro inside
    have last := inside ((queryBytes (asked y).tid hostname.bytes).length - 1) (List.mem_range.mpr (by omega))
    omega
  · intro fits i member
    exact Nat.lt_of_lt_of_le (List.mem_range.mp member) fits

theorem sent_short (fits : (queryBytes (asked y).tid hostname.bytes).length ≤ 512) :
    sent y hostname = some (queryBytes (asked y).tid hostname.bytes) := by
  have short : (queryBytes (asked y).tid hostname.bytes).length < 2 ^ 16 := by omega
  have room : ¬ (queryBytes (asked y).tid hostname.bytes).length + Udp.hdrLen > Udp.bufSize := by
    have sizes : 512 + Udp.hdrLen ≤ Udp.bufSize := by decide
    omega
  rw [sent, miss]
  dsimp only
  rw [query_eq short, if_neg room]

end

/-- The query that is not dropped goes to the server in one packet. -/
theorem sent_packets (h : Ipv4.Host) (later : MacAddr) {y : Resolver} {hostname : CString} {data : List UInt8}
    (asks : sent y hostname = some data) : ∃ header : Udp.Header, header.srcPort = dnsSrc ∧ header.dstPort = dnsPort ∧
      Emission.packets (Udp.udpSend h later y.server dnsPort dnsSrc data).2 =
        [(Ipv4.sendHeader h y.server Ipv4.protoUdp (header.encode ++ data).length).encode ++ (header.encode ++ data)] := by
  have sizes : Udp.bufSize + Ipv4.hdrLen ≤ Ipv4.bufSize := by decide
  have fits : ¬ data.length + Udp.hdrLen > Udp.bufSize := by
    unfold sent at asks
    split at asks
    · cases asks
    split at asks
    · cases asks
    · rename_i fits
      cases asks
      exact fits
  refine ⟨⟨dnsSrc, dnsPort, UInt16.ofNat (Udp.hdrLen + data.length), 0⟩, rfl, rfl, ?_⟩
  rw [Udp.udpSend, if_neg fits]
  apply Emission.packets_ipv4Send
  rw [List.length_append, Udp.Header.length_encode]
  omega

/-- The query of an encodable hostname fits pkt and decodes to its labels. -/
theorem queryBytes_encodable {limit : Nat} (room : limit ≤ 496) {name : List UInt8} (encodable : Encodable limit name)
    (tid : UInt16) : (queryBytes tid name).length ≤ 512 ∧
      ∃ rest, decodeName ((queryBytes tid name).drop 12) = some (labels name, rest) := by
  obtain ⟨valid, short⟩ := encodable
  have length := queryBytes_length tid name
  have body : (queryBytes tid name).drop 12 = encodeLabels (scannedLabels name) ++ [0, 0, 1, 0, 1] := rfl
  rw [body]
  rcases scannedLabels_cases name with same | ⟨root, one⟩
  · rw [same] at length ⊢
    exact ⟨by omega, _, decodeName_encodeLabels valid _⟩
  · rw [one] at length ⊢
    have two : (encodeLabels [[]]).length = 1 := rfl
    exact ⟨by omega, _, by rw [root]; exact decodeName_encodeLabels (List.forall_mem_nil _) [0, 0, 1, 0, 1]⟩

/-- A lookup is sound exactly when the hostname is encodable, or the cache holds the failure for it. -/
theorem lookup_sound_iff {limit : Nat} (room : limit ≤ 496) (y : Resolver) (hostname : CString) :
    LookupSound limit y hostname ↔
      Encodable limit hostname.bytes ∨ dnsCacheLookup y.cache hostname = some ipZero := by
  cases cached : dnsCacheLookup y.cache hostname with
  | some ip =>
    constructor
    · rintro ⟨-, -, refuses⟩
      by_cases encodable : Encodable limit hostname.bytes
      · exact .inl encodable
      · have zero := (refuses encodable).2 ⟨[], []⟩
        rw [dnsLookup_cached cached] at zero
        exact .inr (congrArg some zero)
    · intro either
      refine ⟨fun traffic => ?_, fun data asks => ?_, fun unencodable => ⟨sent_cached cached, fun traffic => ?_⟩⟩
      · rw [dnsLookup_cached cached]
        exact all_pure _
      · rw [sent_cached cached] at asks
        cases asks
      · rw [dnsLookup_cached cached]
        exact Option.some.inj (either.resolve_left unencodable)
  | none =>
    rw [or_iff_left (Option.some_ne_none _).symm]
    constructor
    · rintro ⟨inside, -, refuses⟩
      by_contra unencodable
      have fits := (dnsLookup_inside_iff cached ⟨[], []⟩).mp (inside _)
      have quiet := (refuses unencodable).1
      rw [sent_short cached fits] at quiet
      cases quiet
    · intro encodable
      obtain ⟨fits, rest, decodes⟩ := queryBytes_encodable room encodable (asked y).tid
      refine ⟨fun traffic => (dnsLookup_inside_iff cached traffic).mpr fits, fun data asks => ?_,
        fun unencodable => absurd encodable unencodable⟩
      rw [sent_short cached fits] at asks
      cases asks
      exact ⟨rest, decodes, encodable.1⟩

/-- The first lookup after boot, with the length limit of the format. -/
theorem lookup_sound_iff_at_boot : LookupSound 255 blank ⟨[0x61, dot, 0x62], by decide⟩ ↔
    Encodable 255 [0x61, dot, 0x62] ∨ dnsCacheLookup blank.cache ⟨[0x61, dot, 0x62], by decide⟩ = some ipZero :=
  lookup_sound_iff (by decide) blank _

/-- A hostname of 600 letters is written past the end of pkt. -/
theorem lookup_sound_fails : ¬ ∀ y hostname, LookupSound 255 y hostname := by
  intro sound
  have letters : ∀ b : UInt8, b ≠ 0x61 → b ∉ List.replicate 600 (0x61 : UInt8) :=
    fun b other member => other (List.eq_of_mem_replicate member)
  have clean := letters dot (by decide)
  have nonempty : List.replicate 600 (0x61 : UInt8) ≠ [] := List.cons_ne_nil 0x61 (List.replicate 599 0x61)
  have inside := (sound blank ⟨List.replicate 600 0x61, letters 0 (by decide)⟩).inside ⟨[], []⟩
  rw [dnsLookup_inside_iff rfl, queryBytes_length, scannedLabels_last nonempty clean, encodeLabels_cons, List.length_cons,
    List.length_append, List.length_replicate] at inside
  omega

end ChrisOS.Net.Dns
