import ChrisOS.Net.Udp
import ChrisOS.Lib.Traced

/-! The DNS resolver of net/dns.c.

dns_rx is called with a pointer and a length, so it may read past the datagram: memory is a
function from offsets to bytes, and every index read is on record. So is every index of the
query buffer that dns_lookup writes.
-/

set_option autoImplicit false

namespace ChrisOS.Net.Dns
open ChrisOS.Lib Traced

def dnsPort : UInt16 := 53
def dnsSrc : UInt16 := 1053

/-- A C string, by its bytes before the NUL. -/
structure CString where
  bytes : List UInt8
  nonzero : 0 ∉ bytes
  deriving DecidableEq

/-- `*a - *b` at the first difference, or at the end of one string. -/
def kstrcmpLoop : List UInt8 → List UInt8 → Int
  | a :: as, b :: bs => if a = b then kstrcmpLoop as bs else (a.toInt8.toInt - b.toInt8.toInt)
  | a :: _, [] => a.toInt8.toInt
  | [], b :: _ => -b.toInt8.toInt
  | [], [] => 0

def kstrcmp (a b : CString) : Int := kstrcmpLoop a.bytes b.bytes

/-- What ends up in a destination of n bytes. -/
def kstrncpy (src : CString) (n : Nat) : CString :=
  ⟨src.bytes.take (n - 1), fun member => src.nonzero (List.mem_of_mem_take member)⟩

theorem toInt_toInt8_inj {a b : UInt8} : a.toInt8.toInt = b.toInt8.toInt ↔ a = b := by
  rw [Int8.toInt_inj]
  exact ⟨congrArg Int8.toUInt8, congrArg UInt8.toInt8⟩

theorem toInt_toInt8_eq_zero_iff {b : UInt8} : b.toInt8.toInt = 0 ↔ b = 0 := toInt_toInt8_inj (a := b) (b := 0)

theorem kstrcmpLoop_eq_zero_iff {a b : List UInt8} (left : 0 ∉ a) (right : 0 ∉ b) : kstrcmpLoop a b = 0 ↔ a = b := by
  induction a, b using kstrcmpLoop.induct with
  | case1 x xs ys ih =>
    rw [kstrcmpLoop, if_pos rfl, ih (List.not_mem_of_not_mem_cons left) (List.not_mem_of_not_mem_cons right),
      List.cons.injEq]
    exact (and_iff_right rfl).symm
  | case2 x xs y ys other =>
    rw [kstrcmpLoop, if_neg other, Int.sub_eq_zero, toInt_toInt8_inj]
    exact iff_of_false other (fun same => other (List.cons.inj same).1)
  | case3 x xs =>
    rw [kstrcmpLoop, toInt_toInt8_eq_zero_iff]
    refine iff_of_false (fun zero => left ?_) (List.cons_ne_nil _ _)
    rw [zero]
    exact List.mem_cons_self
  | case4 y ys =>
    rw [kstrcmpLoop, Int.neg_eq_zero, toInt_toInt8_eq_zero_iff]
    refine iff_of_false (fun zero => right ?_) (List.cons_ne_nil _ _).symm
    rw [zero]
    exact List.mem_cons_self
  | case5 => exact iff_of_true rfl rfl

theorem kstrcmp_eq_zero_iff {a b : CString} : kstrcmp a b = 0 ↔ a = b := by
  rw [kstrcmp, kstrcmpLoop_eq_zero_iff a.nonzero b.nonzero]
  cases a
  cases b
  simp

/-! ### The cache -/

def ipZero : Ipv4Addr := ⟨fun _ => 0⟩

structure Entry where
  ip : Ipv4Addr
  name : CString
  valid : Bool

/-- DNS_CACHE_SIZE, and the size of an entry's name. -/
def cacheSize : Nat := 8
def nameSize : Nat := 64

abbrev Cache := Nat → Entry

def cacheStoreLoop (name : CString) (ip : Ipv4Addr) (c : Cache) : Nat → Nat → Cache
  | 0, _ => Function.update c 0 ⟨ip, kstrncpy name nameSize, true⟩
  | left + 1, i =>
    -- the whole name is compared, and its first 63 bytes are stored
    if !(c i).valid || kstrcmp (c i).name name = 0 then Function.update c i ⟨ip, kstrncpy name nameSize, true⟩
    else cacheStoreLoop name ip c left (i + 1)

def dnsCacheStore (c : Cache) (name : CString) (ip : Ipv4Addr) : Cache := cacheStoreLoop name ip c cacheSize 0

def cacheLookupLoop (c : Cache) (name : CString) : Nat → Nat → Option Ipv4Addr
  | 0, _ => none
  | left + 1, i =>
    if (c i).valid && kstrcmp (c i).name name = 0 then some (c i).ip else cacheLookupLoop c name left (i + 1)

def dnsCacheLookup (c : Cache) (name : CString) : Option Ipv4Addr := cacheLookupLoop c name cacheSize 0

/-- The statics of net/dns.c. -/
structure Resolver where
  server : Ipv4Addr
  result : Ipv4Addr
  done : Bool
  tid : UInt16
  cache : Cache

def blankCache : Cache := fun _ => ⟨ipZero, ⟨[], List.not_mem_nil⟩, false⟩

/-- The statics as the kernel image holds them. -/
def blank : Resolver := ⟨⟨![10, 0, 2, 3]⟩, ipZero, false, 0, blankCache⟩

def dnsInit (y : Resolver) : Resolver := { y with cache := fun i => { y.cache i with valid := false } }

/-! ### Receiving -/

def peek16 (m : Nat → UInt8) (i : Nat) : Traced Nat UInt16 := do
  let hi ← peek m i
  let lo ← peek m (i + 1)
  pure (be16 hi lo)

def peekIp (m : Nat → UInt8) (i : Nat) : Traced Nat Ipv4Addr := do
  let a ← peek m i
  let b ← peek m (i + 1)
  let c ← peek m (i + 2)
  let d ← peek m (i + 3)
  pure ⟨![a, b, c, d]⟩

/-- `while (pos < len && data[pos]) pos += data[pos] + 1`. -/
def skipLabels (m : Nat → UInt8) (len pos : Nat) : Traced Nat Nat :=
  if pos < len then do
    let b ← peek m pos
    if b = 0 then pure pos else skipLabels m len (pos + b.toNat + 1)
  else pure pos
  termination_by len - pos

/-- The position behind the owner name of a record, as dns_rx finds it. -/
def skipOwner (m : Nat → UInt8) (len pos : Nat) : Traced Nat Nat := do
  let first ← peek m pos
  -- a pointer is seen at the start of a name only
  if first &&& 0xC0 = 0xC0 then pure (pos + 2)
  else do
    let stop ← skipLabels m len pos
    pure (stop + 1)

/-- The records, with `left` of them still to come, from `pos` on; the address found, if any. -/
def answerLoop (m : Nat → UInt8) (len : Nat) : Nat → Nat → Traced Nat (Option Ipv4Addr)
  | 0, _ => pure none
  | left + 1, pos =>
    if pos + 12 ≤ len then do
      let pos ← skipOwner m len pos
      let rtype ← peek16 m pos
      let rdlen ← peek16 m (pos + 8)
      let pos := pos + 10
      if rtype = 1 ∧ rdlen = 4 ∧ pos + 4 ≤ len then do
        let ip ← peekIp m pos
        pure (some ip)
      else answerLoop m len left (pos + rdlen.toNat)
    else pure none

/-- dns_rx on `len` bytes at `m`; its other two arguments are not used. -/
def dnsRx (y : Resolver) (m : Nat → UInt8) (len : UInt16) : Traced Nat Resolver := do
  if len.toNat < 12 then pure y
  else do
    let tid ← peek16 m 0
    if tid ≠ y.tid then pure y
    else do
      let ancount ← peek16 m 6
      if ancount = 0 then pure { y with done := true }
      else do
        let stop ← skipLabels m len.toNat 12
        let found ← answerLoop m len.toNat ancount.toNat (stop + 5)
        pure { y with done := true, result := found.getD y.result }

/-! ### Asking -/

/-- The array pkt and how much of it is filled. -/
structure Packet where
  bytes : Nat → UInt8
  pos : Nat

/-- `pkt[pos++] = b`. -/
def Packet.put (p : Packet) (b : UInt8) : Traced Nat Packet := do
  emit p.pos
  pure ⟨Function.update p.bytes p.pos b, p.pos + 1⟩

def Packet.putAll (p : Packet) (bytes : List UInt8) : Traced Nat Packet := bytes.foldlM Packet.put p

def dot : UInt8 := 0x2E

/-- The labels of the name, each behind its length. -/
def putLabels (p : Packet) (name : List UInt8) : Traced Nat Packet :=
  if name = [] then pure p
  else do
    let label := name.takeWhile (· ≠ dot)
    -- the length is cut to eight bits, and may be 0
    let p ← p.put (UInt8.ofNat label.length)
    let p ← p.putAll label
    putLabels p (name.drop (label.length + 1))
  termination_by name.length
  decreasing_by
    rename_i more
    have := List.length_pos_iff.mpr more
    rw [List.length_drop]
    omega

/-- The whole query of dns_lookup, for the tid already counted up. -/
def putQuery (tid : UInt16) (name : List UInt8) : Traced Nat Packet := do
  let p ← Packet.putAll ⟨fun _ => 0, 0⟩
    [UInt8.ofNat (tid.toNat / 256), UInt8.ofNat (tid.toNat % 256), 1, 0, 0, 1, 0, 0, 0, 0, 0, 0]
  let p ← putLabels p name
  p.putAll [0, 0, 1, 0, 1]

/-- A datagram as the callback gets it. -/
structure Datagram where
  src : Ipv4Addr
  srcPort : UInt16
  data : Nat → UInt8
  len : UInt16

def receive (y : Resolver) (d : Datagram) : Resolver := (dnsRx y d.data d.len).value

/-- The loop that polls: one list of datagrams for each eth_poll before the deadline. -/
def pollLoop (y : Resolver) : List (List Datagram) → Resolver
  | [] => y
  | batch :: rest => if y.done then y else pollLoop (batch.foldl receive y) rest

/-- What comes in during a call: while udp_send looks for the next hop, and at each poll. -/
structure Traffic where
  sending : List Datagram
  polls : List (List Datagram)

/-- The statics when the query goes out. -/
def asked (y : Resolver) : Resolver := { y with tid := y.tid + 1, done := false, result := ipZero }

/-- The data that are handed to udp_send. -/
def query (y : Resolver) (hostname : CString) : List UInt8 :=
  let p := (putQuery (asked y).tid hostname.bytes).value
  Udp.window p.bytes 0 (p.pos % 2 ^ 16)

/-- From the end of the loop on. -/
def answered (y : Resolver) (hostname : CString) : Resolver × Ipv4Addr :=
  if !y.done then (y, ipZero)
  else if !ipEq y.result ipZero then ({ y with cache := dnsCacheStore y.cache hostname y.result }, y.result)
  else (y, ipZero)

/-- A call of dns_lookup: the indices of pkt written, the statics after it, the address returned. -/
def dnsLookup (y : Resolver) (hostname : CString) (traffic : Traffic) : Traced Nat (Resolver × Ipv4Addr) :=
  match dnsCacheLookup y.cache hostname with
  | some ip => pure (y, ip)
  | none => do
    let _ ← putQuery (asked y).tid hostname.bytes
    pure (answered (pollLoop (traffic.sending.foldl receive (asked y)) traffic.polls) hostname)

/-- The data of the query that a call sends, if udp_send does not drop it. -/
def sent (y : Resolver) (hostname : CString) : Option (List UInt8) :=
  match dnsCacheLookup y.cache hostname with
  | some _ => none
  | none => if (query y hostname).length + Udp.hdrLen > Udp.bufSize then none else some (query y hostname)

end ChrisOS.Net.Dns
