import ChrisOS.Net.Dns.Queries

/-! What other hosts can do to a lookup.

Of all that makes a datagram the answer to a query, dns_rx compares the id. As long as only
genuine answers carry it, a lookup depends on these alone; any other datagram that carries it
can change what a lookup returns.
-/

set_option autoImplicit false

namespace ChrisOS.Net.Dns
open ChrisOS.Lib Traced

/-- A response from the server to the query that a lookup of the hostname sends in this state. -/
structure Genuine (y : Resolver) (hostname : CString) (d : Datagram) : Prop where
  server : d.src = y.server
  port : d.srcPort = dnsPort
  long : 12 ≤ d.len.toNat
  response : d.data 2 &&& 0x80 ≠ 0
  id : (peek16 d.data 0).value = (asked y).tid
  question : ∃ rest, decodeName (Udp.window d.data 12 (d.len.toNat - 12)) = some (labels hostname.bytes, rest)

/-- What dns_rx tests. -/
def Accepted (tid : UInt16) (d : Datagram) : Prop := 12 ≤ d.len.toNat ∧ (peek16 d.data 0).value = tid

/-- The address that dns_rx reads in a datagram. -/
def addressIn (d : Datagram) : Option Ipv4Addr :=
  if (peek16 d.data 6).value = 0 then none
  else (answerLoop d.data d.len.toNat (peek16 d.data 6).value.toNat ((skipLabels d.data d.len.toNat 12).value + 5)).value

theorem receive_ignored {y : Resolver} {d : Datagram} (other : ¬ Accepted y.tid d) : receive y d = y := by
  rw [receive, dnsRx]
  by_cases short : d.len.toNat < 12
  · rw [if_pos short]
    rfl
  · have foreign : (peek16 d.data 0).value ≠ y.tid := fun id => other ⟨Nat.le_of_not_lt short, id⟩
    rw [if_neg short, value_bind, if_pos foreign]
    rfl

theorem receive_accepted {y : Resolver} {d : Datagram} (accepted : Accepted y.tid d) :
    receive y d = { y with done := true, result := (addressIn d).getD y.result } := by
  obtain ⟨long, id⟩ := accepted
  rw [receive, dnsRx, if_neg (Nat.not_lt.mpr long), value_bind, if_neg (not_not_intro id), value_bind, addressIn]
  split
  · rfl
  · rfl

theorem receive_tid (y : Resolver) (d : Datagram) : (receive y d).tid = y.tid := by
  by_cases accepted : Accepted y.tid d
  · rw [receive_accepted accepted]
  · rw [receive_ignored accepted]

/-- All datagrams of a call. -/
def Traffic.all (t : Traffic) : List Datagram := t.sending ++ t.polls.flatten

/-! ### What the receive path keeps -/

section
variable {P : Resolver → Prop} {D : List Datagram} (kept : ∀ y d, d ∈ D → P y → P (receive y d))
include kept

theorem foldl_receive_keeps {y : Resolver} {batch : List Datagram} (member : ∀ d ∈ batch, d ∈ D) (before : P y) :
    P (batch.foldl receive y) := by
  induction batch generalizing y with
  | nil => exact before
  | cons d batch ih =>
    rw [List.forall_mem_cons] at member
    exact ih member.2 (kept y d member.1 before)

theorem pollLoop_keeps {y : Resolver} {polls : List (List Datagram)} (member : ∀ d ∈ polls.flatten, d ∈ D) (before : P y) :
    P (pollLoop y polls) := by
  induction polls generalizing y with
  | nil => exact before
  | cons batch polls ih =>
    rw [List.flatten_cons, List.forall_mem_append] at member
    rw [pollLoop]
    split
    · exact before
    · exact ih member.2 (foldl_receive_keeps kept member.1 before)

end

/-- The state of a call when its loop ends. -/
def waited (y : Resolver) (t : Traffic) : Resolver := pollLoop (t.sending.foldl receive (asked y)) t.polls

theorem waited_keeps {P : Resolver → Prop} {y : Resolver} {t : Traffic}
    (kept : ∀ z d, d ∈ t.all → P z → P (receive z d)) (before : P (asked y)) : P (waited y t) :=
  pollLoop_keeps kept (fun _ member => List.mem_append_right _ member)
    (foldl_receive_keeps kept (fun _ member => List.mem_append_left _ member) before)

theorem dnsLookup_value {y : Resolver} {hostname : CString} (miss : dnsCacheLookup y.cache hostname = none) (t : Traffic) :
    (dnsLookup y hostname t).value = answered (waited y t) hostname := by
  rw [dnsLookup, miss]
  rfl

theorem answered_address (y : Resolver) (hostname : CString) :
    (answered y hostname).2 = if y.done then y.result else ipZero := by
  unfold answered
  cases y.done with
  | false => rfl
  | true =>
    by_cases zero : ipEq y.result ipZero = true
    · rw [ipEq_iff.mp zero]
      rfl
    · simp [zero]

/-! ### Where an address comes from -/

/-- The result is unset, or an accepted datagram has it. -/
def Sourced (tid : UInt16) (D : List Datagram) (y : Resolver) : Prop :=
  y.tid = tid ∧ (y.result = ipZero ∨ ∃ d ∈ D, Accepted tid d ∧ addressIn d = some y.result)

theorem Sourced.receive {tid : UInt16} {D : List Datagram} {y : Resolver} {d : Datagram} (member : d ∈ D)
    (sourced : Sourced tid D y) : Sourced tid D (receive y d) := by
  obtain ⟨rfl, source⟩ := sourced
  by_cases accepted : Accepted y.tid d
  · rw [receive_accepted accepted]
    refine ⟨rfl, ?_⟩
    dsimp only
    cases found : addressIn d with
    | none => exact source
    | some ip => exact .inr ⟨d, member, accepted, found⟩
  · rw [receive_ignored accepted]
    exact ⟨rfl, source⟩

theorem lookup_sourced {y : Resolver} {hostname : CString} (miss : dnsCacheLookup y.cache hostname = none) (t : Traffic)
    (answers : (dnsLookup y hostname t).value.2 ≠ ipZero) :
    ∃ d ∈ t.all, Accepted (asked y).tid d ∧ addressIn d = some (dnsLookup y hostname t).value.2 := by
  have sourced : Sourced (asked y).tid t.all (waited y t) :=
    waited_keeps (fun _ _ member before => before.receive member) ⟨rfl, .inl rfl⟩
  rw [dnsLookup_value miss, answered_address] at answers ⊢
  split at answers
  · rename_i ended
    rw [if_pos ended]
    exact sourced.2.resolve_left answers
  · exact absurd rfl answers

/-! ### Two calls -/

/-- Two lists of datagrams that differ in removable ones only. -/
inductive Alike (removable : Datagram → Prop) : List Datagram → List Datagram → Prop where
  | nil : Alike removable [] []
  | both {l l' : List Datagram} (d : Datagram) : Alike removable l l' → Alike removable (d :: l) (d :: l')
  | left {l l' : List Datagram} {d : Datagram} : removable d → Alike removable l l' → Alike removable (d :: l) l'
  | right {l l' : List Datagram} {d : Datagram} : removable d → Alike removable l l' → Alike removable l (d :: l')

structure AlikeTraffic (removable : Datagram → Prop) (t t' : Traffic) : Prop where
  sending : Alike removable t.sending t'.sending
  polls : List.Forall₂ (Alike removable) t.polls t'.polls

theorem Alike.mono {P Q : Datagram → Prop} {l l' : List Datagram} (alike : Alike P l l')
    (weaker : ∀ d ∈ l, P d → Q d) (weaker' : ∀ d ∈ l', P d → Q d) : Alike Q l l' := by
  induction alike with
  | nil => exact .nil
  | both d _ ih =>
    exact .both d (ih (List.forall_mem_cons.mp weaker).2 (List.forall_mem_cons.mp weaker').2)
  | left removable _ ih =>
    obtain ⟨here, rest⟩ := List.forall_mem_cons.mp weaker
    exact .left (here removable) (ih rest weaker')
  | right removable _ ih =>
    obtain ⟨here, rest⟩ := List.forall_mem_cons.mp weaker'
    exact .right (here removable) (ih weaker rest)

theorem AlikeTraffic.mono {P Q : Datagram → Prop} {t t' : Traffic} (alike : AlikeTraffic P t t')
    (weaker : ∀ d ∈ t.all, P d → Q d) (weaker' : ∀ d ∈ t'.all, P d → Q d) : AlikeTraffic Q t t' := by
  obtain ⟨first, rest⟩ := t
  obtain ⟨first', rest'⟩ := t'
  obtain ⟨sending, polls⟩ := alike
  unfold Traffic.all at weaker weaker'
  rw [List.forall_mem_append] at weaker weaker'
  dsimp only at polls weaker weaker'
  refine ⟨sending.mono weaker.1 weaker'.1, ?_⟩
  obtain ⟨-, weaker⟩ := weaker
  obtain ⟨-, weaker'⟩ := weaker'
  clear sending
  induction polls with
  | nil => exact .nil
  | cons here _ ih =>
    rw [List.flatten_cons, List.forall_mem_append] at weaker weaker'
    exact .cons (here.mono weaker.1 weaker'.1) (ih weaker.2 weaker'.2)

theorem Alike.foldl {tid : UInt16} {l l' : List Datagram} (alike : Alike (fun d => ¬ Accepted tid d) l l') {y : Resolver}
    (same : y.tid = tid) : l.foldl receive y = l'.foldl receive y := by
  induction alike generalizing y with
  | nil => rfl
  | both d _ ih => exact ih ((receive_tid y d).trans same)
  | left removable _ ih =>
    rw [List.foldl_cons, receive_ignored (same ▸ removable)]
    exact ih same
  | right removable _ ih =>
    rw [List.foldl_cons, receive_ignored (same ▸ removable)]
    exact ih same

theorem foldl_receive_tid (l : List Datagram) (y : Resolver) : (l.foldl receive y).tid = y.tid :=
  foldl_receive_keeps (P := fun z => z.tid = y.tid) (fun z d _ before => (receive_tid z d).trans before) (fun _ => id) rfl

/-- Datagrams that are not accepted make no difference to a call. -/
theorem AlikeTraffic.lookup {y : Resolver} {t t' : Traffic} (alike : AlikeTraffic (fun d => ¬ Accepted (asked y).tid d) t t')
    (hostname : CString) : (dnsLookup y hostname t).value = (dnsLookup y hostname t').value := by
  cases cached : dnsCacheLookup y.cache hostname with
  | some ip => rw [dnsLookup_cached cached, dnsLookup_cached cached]
  | none =>
    obtain ⟨first, rest⟩ := t
    obtain ⟨first', rest'⟩ := t'
    obtain ⟨sending, polls⟩ := alike
    rw [dnsLookup_value cached, dnsLookup_value cached, waited, waited, sending.foldl rfl]
    clear sending
    dsimp only at polls ⊢
    have tid := foldl_receive_tid first' (asked y)
    generalize first'.foldl receive (asked y) = z at tid ⊢
    congr 1
    induction polls generalizing z with
    | nil => rfl
    | @cons batch batch' _ _ here _ ih =>
      rw [pollLoop, pollLoop, here.foldl tid]
      split
      · rfl
      · exact ih _ ((foldl_receive_tid batch' z).trans tid)

/-- Every datagram that carries the id of the query is genuine. -/
def Clean (y : Resolver) (hostname : CString) (t : Traffic) : Prop :=
  ∀ d ∈ t.all, Accepted (asked y).tid d → Genuine y hostname d

/-- The address returned is from a genuine datagram, and the call goes as if only genuine ones had come. -/
structure Unforged (y : Resolver) (hostname : CString) (t : Traffic) : Prop where
  source : dnsCacheLookup y.cache hostname = none → (dnsLookup y hostname t).value.2 ≠ ipZero →
    ∃ d ∈ t.all, Genuine y hostname d ∧ addressIn d = some (dnsLookup y hostname t).value.2
  independent : ∀ t', AlikeTraffic (fun d => ¬ Genuine y hostname d) t t' → (∀ d ∈ t'.all, Genuine y hostname d) →
    (dnsLookup y hostname t).value = (dnsLookup y hostname t').value

theorem Clean.unforged {y : Resolver} {hostname : CString} {t : Traffic} (clean : Clean y hostname t) :
    Unforged y hostname t := by
  constructor
  · intro miss answers
    obtain ⟨d, member, accepted, found⟩ := lookup_sourced miss t answers
    exact ⟨d, member, clean d member accepted, found⟩
  · intro t' alike genuine
    refine AlikeTraffic.lookup (alike.mono (fun d member forged accepted => ?_) fun d member forged => ?_) hostname
    · exact forged (clean d member accepted)
    · exact absurd (genuine d member) forged

/-! ### A datagram too many -/

/-- Added to genuine traffic, the datagram makes no difference to a call. -/
def Harmless (y : Resolver) (hostname : CString) (d : Datagram) : Prop :=
  ∀ t t', AlikeTraffic (· = d) t t' → (∀ x ∈ t'.all, Genuine y hostname x) →
    (dnsLookup y hostname t).value = (dnsLookup y hostname t').value

def Response.datagram (r : Response) (src : Ipv4Addr) (srcPort : UInt16) : Datagram :=
  ⟨src, srcPort, Udp.memory r.encode fun _ => 0, UInt16.ofNat r.encode.length⟩

/-- A response whose id, flags and question are those of an answer to the query. -/
theorem Response.genuine {y : Resolver} {hostname : CString} {r : Response} (id : r.id = (asked y).tid)
    (isResponse : UInt8.ofNat (r.flags.toNat / 256) &&& 0x80 ≠ 0) (question : r.question = labels hostname.bytes)
    (fits : r.encode.length < 2 ^ 16) : Genuine y hostname (r.datagram y.server dnsPort) := by
  have back : (UInt16.ofNat r.encode.length).toNat = r.encode.length := UInt16.toNat_ofNat_of_lt' fits
  have long := r.length_encode
  obtain ⟨tid, flags, -, rest⟩ := Response.fields (holds_memory r.encode fun _ => 0)
  refine ⟨rfl, rfl, ?_, ?_, tid.trans id, ?_⟩
  · change 12 ≤ (UInt16.ofNat r.encode.length).toNat
    omega
  · change Udp.memory r.encode (fun _ => 0) 2 &&& 0x80 ≠ 0
    rwa [flags]
  · change ∃ rest, decodeName (Udp.window (Udp.memory r.encode fun _ => 0) 12 ((UInt16.ofNat r.encode.length).toNat - 12)) = _
    rw [back, long, Nat.add_sub_cancel_left, rest.window, ← question]
    exact ⟨_, decodeName_encodeLabels r.valid _⟩

/-- The server's answer to the query: one record with this address. -/
def answerTo (y : Resolver) (question : List (List UInt8)) (valid : ∀ label ∈ question, ValidLabel label)
    (ip : Ipv4Addr) : Response where
  id := (asked y).tid
  flags := 0x8180
  question := question
  qtype := 1
  qclass := 1
  answers := [⟨⟨[], .pointer 0 12, List.forall_mem_nil _⟩, 1, 1, 60, ip.toList, show 4 < 2 ^ 16 by decide⟩]
  nscount := 0
  arcount := 0
  others := []
  valid := valid

section
variable {y : Resolver} {hostname : CString} (encodable : Encodable 255 hostname.bytes) (ip : Ipv4Addr)

theorem answerTo_length : (answerTo y (labels hostname.bytes) encodable.1 ip).encode.length < 2 ^ 16 := by
  have short := encodable.2
  have total : (answerTo y (labels hostname.bytes) encodable.1 ip).encode.length =
      12 + (encodeLabels (labels hostname.bytes)).length + 5 + 16 := by
    simp only [Response.encode, List.length_append]
    rfl
  omega

/-- What dns_rx makes of the server's answer. -/
theorem receive_answerTo {z : Resolver} (tid : z.tid = (asked y).tid) :
    receive z ((answerTo y (labels hostname.bytes) encodable.1 ip).datagram y.server dnsPort) =
      { z with done := true, result := ip } := by
  have plain : ∀ x ∈ visited (answerTo y (labels hostname.bytes) encodable.1 ip).answers, ¬ x.owner.Mixed :=
    visited_bare rfl
  have found := finds_of_plain (y := z) tid.symm (answerTo_length encodable ip) (fun _ => 0) plain
  have address : ipAt ip.toList 0 = ip := ipAt_eq fun k => by fin_cases k <;> rfl
  rw [Finds, show firstAddress (answerTo y (labels hostname.bytes) encodable.1 ip).answers = some (ipAt ip.toList 0) from rfl,
    address] at found
  exact found

end

/-- A datagram that is accepted ends the wait before the server's answer comes. -/
theorem not_harmless {y : Resolver} {hostname : CString} (miss : dnsCacheLookup y.cache hostname = none)
    (encodable : Encodable 255 hostname.bytes) {d : Datagram} (accepted : Accepted (asked y).tid d) :
    ¬ Harmless y hostname d := by
  intro harmless
  -- an address that is not the one of d
  obtain ⟨ip, other⟩ : ∃ ip : Ipv4Addr, ip ≠ (addressIn d).getD ipZero := by
    by_cases one : (⟨fun _ => 1⟩ : Ipv4Addr) = (addressIn d).getD ipZero
    · refine ⟨⟨fun _ => 2⟩, fun two => ?_⟩
      exact absurd (congrArg Ipv4Addr.first (one.trans two.symm)) (by decide)
    · exact ⟨_, one⟩
  let answer := (answerTo y (labels hostname.bytes) encodable.1 ip).datagram y.server dnsPort
  have genuine : Genuine y hostname answer := Response.genuine rfl
    (show UInt8.ofNat ((0x8180 : UInt16).toNat / 256) &&& 0x80 ≠ 0 by decide) rfl (answerTo_length encodable ip)
  have same := harmless ⟨[], [[d], [answer]]⟩ ⟨[], [[], [answer]]⟩
    ⟨.nil, .cons (.left rfl .nil) (.cons (.both answer .nil) .nil)⟩ (List.forall_mem_singleton.mpr genuine)
  have early : waited y ⟨[], [[d], [answer]]⟩ = receive (asked y) d := by
    have ended : (receive (asked y) d).done = true := by rw [receive_accepted accepted]
    change pollLoop (receive (asked y) d) [[answer]] = receive (asked y) d
    rw [pollLoop, if_pos ended]
  have late : waited y ⟨[], [[], [answer]]⟩ = { asked y with done := true, result := ip } :=
    receive_answerTo encodable ip rfl
  rw [dnsLookup_value miss, dnsLookup_value miss, early, late, receive_accepted accepted] at same
  have addresses := congrArg Prod.snd same
  rw [answered_address, answered_address] at addresses
  exact other addresses.symm

/-- A call is not forged as long as only genuine datagrams carry the id of its query; and any other datagram
is harmless exactly if dns_rx does not accept it. -/
theorem lookup_unforged (y : Resolver) (hostname : CString) :
    (∀ t, Clean y hostname t → Unforged y hostname t) ∧
    (dnsCacheLookup y.cache hostname = none → Encodable 255 hostname.bytes → ∀ d, ¬ Genuine y hostname d →
      (Harmless y hostname d ↔ ¬ Accepted (asked y).tid d)) := by
  refine ⟨fun t clean => clean.unforged, fun miss encodable d _ => ⟨fun harmless accepted => ?_, fun other t t' alike _ => ?_⟩⟩
  · exact not_harmless miss encodable accepted harmless
  · refine AlikeTraffic.lookup (alike.mono ?_ ?_) hostname
    · rintro x - rfl
      exact other
    · rintro x - rfl
      exact other

/-- A response to the first query of blank, from another host and another port. -/
def forged : Datagram := (oneAnswer ⟨[], .pointer 0 12, List.forall_mem_nil _⟩).datagram ⟨fun _ => 6⟩ 1

theorem receive_forged : receive (asked blank) forged = { asked blank with done := true, result := ⟨![1, 2, 3, 4]⟩ } := by
  have plain : ∀ x ∈ visited (oneAnswer ⟨[], .pointer 0 12, List.forall_mem_nil _⟩).answers, ¬ x.owner.Mixed :=
    visited_bare rfl
  have found := finds_of_plain (y := asked blank) rfl (by decide) (fun _ => 0) plain
  have address : ipAt [1, 2, 3, 4] 0 = ⟨![1, 2, 3, 4]⟩ := ipAt_eq fun k => by fin_cases k <;> rfl
  rw [Finds, show firstAddress _ = some (ipAt [1, 2, 3, 4] 0) from rfl, address] at found
  exact found

/-- The lookup of the name w returns the address that it gives. -/
theorem lookup_forged : ¬ ∀ y hostname t, Unforged y hostname t := by
  intro unforged
  have waits : waited blank ⟨[], [[forged]]⟩ = { asked blank with done := true, result := ⟨![1, 2, 3, 4]⟩ } := receive_forged
  obtain ⟨d, member, genuine, -⟩ := (unforged blank ⟨[0x77], by decide⟩ ⟨[], [[forged]]⟩).source rfl (by
    rw [dnsLookup_value rfl, waits, answered_address]
    intro zero
    exact absurd (congrArg Ipv4Addr.first zero) (by decide))
  have server := genuine.server
  rw [List.mem_singleton.mp member] at server
  exact absurd (congrArg Ipv4Addr.first server) (by decide)

end ChrisOS.Net.Dns
