import ChrisOS.Net.Tcp.Stream

/-! http_read of net/http.c, called with max = 512 until it returns 0, as wget does.

http_read is cut where tcp_recv polls. Segments of the response arrive there and between
calls; the socket belongs to one request.
-/

set_option autoImplicit false

namespace ChrisOS.Net.Http.Reading
open ChrisOS.Lib ChrisOS.Net.Tcp

/-- The size of tmp, and of the buffer that wget reads into. -/
def chunkSize : Nat := 512

/-- `"\r\n\r\n"`. -/
def terminator : List UInt8 := [13, 10, 13, 10]

/-! ### The scan for the end of the headers -/

def endsAt (tmp : List UInt8) (i : Nat) : Bool :=
  byteAt tmp i = 13 && byteAt tmp (i + 1) = 10 && byteAt tmp (i + 2) = 13 && byteAt tmp (i + 3) = 10

def scanLoop (tmp : List UInt8) : Nat → Nat → Option Nat
  | 0, _ => none
  | left + 1, i => if endsAt tmp i then some (i + 4) else scanLoop tmp left (i + 1)

/-- `while (i < n - 3)`: the offset of the body. -/
def scan (tmp : List UInt8) : Option Nat := scanLoop tmp (tmp.length - 3) 0

/-- http_read from the return of tcp_recv on: the flag headers_done and the bytes put into buf. -/
def afterRecv (headersDone : Bool) (tmp : List UInt8) (max : Nat) : Bool × List UInt8 :=
  if tmp = [] then (headersDone, [])
  else if !headersDone then
    match scan tmp with
    | some i => (true, (tmp.drop i).take max)
    -- 0 is returned, and what was read is forgotten
    | none => (false, [])
  else (headersDone, tmp.take max)

/-- A header block ends with the first terminator in it. -/
structure HeaderBlock (header : List UInt8) : Prop where
  ends : terminator <:+ header
  first : ∀ k < header.length, ¬ terminator <:+ header.take k

theorem endsAt_iff {tmp : List UInt8} {i : Nat} (inside : i + 4 ≤ tmp.length) :
    endsAt tmp i = true ↔ terminator <:+ tmp.take (i + 4) := by
  have split : tmp.take (i + 4) = tmp.take i ++ (tmp.drop i).take 4 := List.take_add
  have four : ((tmp.drop i).take 4).length = terminator.length := by
    rw [List.length_take, List.length_drop]
    exact Nat.min_eq_left (by omega)
  have last : terminator <:+ tmp.take (i + 4) ↔ (tmp.drop i).take 4 = terminator := by
    rw [split]
    constructor
    · rintro ⟨before, same⟩
      exact (List.append_inj_right' same four.symm).symm
    · intro same
      rw [same]
      exact List.suffix_append _ _
  have byte (k : Nat) : byteAt tmp (i + k) = (tmp.drop i).getD k 0 := by
    rw [byteAt, List.getD_eq_getElem?_getD, List.getD_eq_getElem?_getD, List.getElem?_drop]
  have here := byte 0
  rw [Nat.add_zero] at here
  rw [last, endsAt, here, byte 1, byte 2, byte 3]
  have long : 4 ≤ (tmp.drop i).length := by
    rw [List.length_drop]
    omega
  revert long
  rcases tmp.drop i with _ | ⟨a, _ | ⟨b, _ | ⟨c, _ | ⟨d, rest⟩⟩⟩⟩ <;> simp [terminator, and_assoc]

theorem scanLoop_some {tmp : List UInt8} {left i k : Nat} (found : scanLoop tmp left i = some k) :
    ∃ j, i ≤ j ∧ j < i + left ∧ k = j + 4 ∧ endsAt tmp j = true := by
  induction left generalizing i with
  | zero => cases found
  | succ left ih =>
    rw [scanLoop] at found
    split at found
    · rename_i here
      cases found
      exact ⟨i, Nat.le_refl i, by omega, rfl, here⟩
    · obtain ⟨j, lower, upper, same, here⟩ := ih found
      exact ⟨j, by omega, by omega, same, here⟩

/-- The scan stops no later than at a place where the headers end. -/
theorem scanLoop_reaches {tmp : List UInt8} {left i j : Nat} (lower : i ≤ j) (upper : j < i + left)
    (here : endsAt tmp j = true) : ∃ k, scanLoop tmp left i = some k ∧ k ≤ j + 4 := by
  induction left generalizing i with
  | zero => omega
  | succ left ih =>
    rw [scanLoop]
    split
    · exact ⟨i + 4, rfl, by omega⟩
    · rename_i other
      have later : i ≠ j := by
        rintro rfl
        exact other here
      exact ih (by omega) (by omega)

/-- Reading the first bytes of a response finds the end of its headers exactly if it is among them. -/
theorem scan_begins {header body tmp : List UInt8} (block : HeaderBlock header) (begins : tmp <+: header ++ body) :
    scan tmp = if header.length ≤ tmp.length then some header.length else none := by
  have least : 4 ≤ header.length := block.ends.length_le
  -- inside the header, the bytes read are those of the header
  have same {k : Nat} (inside : k ≤ tmp.length) (small : k ≤ header.length) : tmp.take k = header.take k := by
    rw [List.prefix_iff_eq_take.mp begins, List.take_take, Nat.min_eq_left inside, List.take_append_of_le_length small]
  have early {k : Nat} (found : scan tmp = some k) : k ≤ tmp.length ∧ header.length ≤ k := by
    obtain ⟨i, -, upper, rfl, here⟩ := scanLoop_some found
    have inside : i + 4 ≤ tmp.length := by omega
    refine ⟨inside, ?_⟩
    by_contra small
    have := (endsAt_iff inside).mp here
    rw [same inside (by omega)] at this
    exact block.first (i + 4) (by omega) this
  split
  · rename_i whole
    have here : endsAt tmp (header.length - 4) = true := by
      refine (endsAt_iff (by omega)).mpr ?_
      rw [Nat.sub_add_cancel least, same whole (Nat.le_refl _), List.take_length]
      exact block.ends
    obtain ⟨k, found, upper⟩ := scanLoop_reaches (Nat.zero_le _) (by omega : header.length - 4 < 0 + (tmp.length - 3)) here
    have lower := (early found).2
    rw [scan, found]
    exact congrArg some (by omega)
  · rename_i part
    cases found : scan tmp with
    | none => rfl
    | some k =>
      have := early found
      omega

/-! ### The connection while it is read -/

/-- The socket table, the request's flag, and what the caller of http_read has. -/
structure Reader where
  table : Table
  headersDone : Bool
  /-- Inside http_read, in the loop of tcp_recv. -/
  inCall : Bool
  /-- http_read has returned 0. -/
  finished : Bool
  /-- The bytes that http_read has returned, in order. -/
  result : List UInt8
  /-- How many bytes of the response have come in segments. -/
  arrived : Nat
  /-- How many of them tcp_recv has returned. -/
  drained : Nat

inductive Event where
  | data (payload : List UInt8)
  | fin (payload : List UInt8)
  /-- http_read is called. -/
  | call
  /-- The loop of tcp_recv ends, with bytes to return or at its deadline. -/
  | recv

/-- A segment for the connection that ends it in good order. -/
structure FinSegment (s : Socket) (payload : List UInt8) (h : Header) (data : List UInt8) : Prop where
  parsed : parse payload = some (h, data)
  toPort : h.dstPort = s.localPort
  noRst : h.flags &&& flagRst = 0
  fin : h.flags &&& flagFin ≠ 0

/-- The rest of http_read, with what it has drained. -/
def Reader.recv (y : Reader) (i : Fin maxSockets) : Reader :=
  let r := tcpRecv (y.table.sockets i) chunkSize
  let read := afterRecv y.headersDone r.2 chunkSize
  { y with
    table := y.table.set i r.1
    headersDone := read.1
    inCall := false
    finished := read.2 = []
    result := y.result ++ read.2
    drained := y.drained + r.2.length }

/-- The response arrives in order and without loss, cut anywhere, and the FIN comes with or after its last byte. -/
inductive Step (myIp : Ipv4Addr) (i : Fin maxSockets) (response : List UInt8) : Reader → Event → Reader → Prop where
  | data {y : Reader} {payload : List UInt8} {h : Header} {data : List UInt8} :
      (y.table.sockets i).state = .established → DataSegment (y.table.sockets i) payload h data →
      data <+: response.drop y.arrived →
      Step myIp i response y (.data payload)
        { y with
          table := (tcpHandle myIp y.table (y.table.sockets i).remoteIp payload).1
          arrived := y.arrived + data.length }
  | fin {y : Reader} {payload : List UInt8} {h : Header} {data : List UInt8} :
      (y.table.sockets i).state = .established → FinSegment (y.table.sockets i) payload h data →
      data = response.drop y.arrived →
      Step myIp i response y (.fin payload)
        { y with
          table := (tcpHandle myIp y.table (y.table.sockets i).remoteIp payload).1
          arrived := response.length }
  | call {y : Reader} : y.finished = false → y.inCall = false →
      Step myIp i response y .call
        (if (y.table.sockets i).state ≠ .established then { y with finished := true } else { y with inCall := true })
  | recv {y : Reader} : y.inCall = true → Step myIp i response y .recv (y.recv i)

/-- A request that http_get has just returned, on a connection without unread bytes. -/
def opened (t : Table) : Reader := ⟨t, false, false, false, [], 0, 0⟩

/-- The data of a segment leave a slot of the ring free, and a FIN brings none. -/
def Fits (i : Fin maxSockets) (y : Reader) (e : Event) : Prop :=
  ∀ payload h data, parse payload = some (h, data) →
    (e = .data payload → (unread (y.table.sockets i)).length + data.length < rxSize) ∧ (e = .fin payload → data = [])

/-- http_read is going to return 0 too early: the FIN has been handled or the deadline comes with bytes
of the response still to be drained, or the first bytes drained do not reach into the body. -/
def TooEarly (i : Fin maxSockets) (header response : List UInt8) (y : Reader) (e : Event) : Prop :=
  (e = .call ∧ (y.table.sockets i).state ≠ .established ∧ y.drained < response.length) ∨
  (e = .recv ∧ unread (y.table.sockets i) = [] ∧ y.drained < response.length) ∨
  (e = .recv ∧ y.drained = 0 ∧ min chunkSize (unread (y.table.sockets i)).length ≤ header.length)

/-- Once http_read has returned 0, its results make up the body. -/
def Complete (body : List UInt8) (y : Reader) : Prop := y.finished = true → y.result = body

/-! ### What one step preserves -/

theorem tcpRecv_take (s : Socket) (k : Nat) :
    (tcpRecv s k).2 = (unread s).take k ∧ unread (tcpRecv s k).1 = (unread s).drop k := by
  obtain ⟨taken, left⟩ := Ring.takeUpTo_eq k s.ring
  have rest : (tcpRecv s k).1.ring = (Ring.takeUpTo k s.ring).2 := rfl
  rw [unread_eq, unread_eq, rest, left, tcpRecv, taken]
  exact ⟨rfl, rfl⟩

/-- The FIN closes the socket, and what is unread stays. -/
theorem tcpHandle_fin (myIp : Ipv4Addr) {t : Table} {i : Fin maxSockets} (connected : Connected t i) (src : Ipv4Addr)
    {payload : List UInt8} {h : Header} {data : List UInt8} (segment : FinSegment (t.sockets i) payload h data) :
    ∃ s, (tcpHandle myIp t src payload).1 = t.set i s ∧ s.state = .closed ∧ unread s = unread (t.sockets i) := by
  rw [connected.tcpHandle myIp src segment.parsed segment.toPort, onEstablished, if_neg (not_not_intro segment.noRst),
    if_pos segment.fin]
  exact ⟨_, rfl, rfl, rfl⟩

/-- http_read passes on what it drains, without the headers. -/
theorem afterRecv_first {header body tmp : List UInt8} (block : HeaderBlock header) (begins : tmp <+: header ++ body)
    (fits : tmp.length ≤ chunkSize) : (afterRecv false tmp chunkSize).2 = tmp.drop header.length ∧
      (header.length < tmp.length → (afterRecv false tmp chunkSize).1 = true) := by
  unfold afterRecv
  split
  · rename_i empty
    rw [empty]
    exact ⟨List.drop_nil.symm, fun long => absurd long (Nat.not_lt_zero _)⟩
  · rw [scan_begins block begins, if_pos (by decide)]
    by_cases whole : header.length ≤ tmp.length
    · rw [if_pos whole]
      have short : (tmp.drop header.length).length ≤ chunkSize := by
        rw [List.length_drop]
        omega
      exact ⟨List.take_of_length_le short, fun _ => rfl⟩
    · rw [if_neg whole]
      exact ⟨(List.drop_of_length_le (by omega)).symm, fun long => by omega⟩

theorem afterRecv_later {tmp : List UInt8} (fits : tmp.length ≤ chunkSize) : afterRecv true tmp chunkSize = (true, tmp) := by
  unfold afterRecv
  split
  · rename_i empty
    rw [empty]
  · rw [if_neg (by decide), List.take_of_length_le fits]

structure Inv (i : Fin maxSockets) (header response : List UInt8) (y : Reader) : Prop where
  picked : (y.table.sockets i).state = .established → Connected y.table i
  ended : (y.table.sockets i).state ≠ .established → y.arrived = response.length
  within : y.arrived ≤ response.length
  count : y.drained + (unread (y.table.sockets i)).length = y.arrived
  stored : response.take y.drained ++ unread (y.table.sockets i) = response.take y.arrived
  result : y.result = (response.take y.drained).drop header.length
  progress : y.finished = false → (y.drained = 0 ∧ y.headersDone = false) ∨ (header.length < y.drained ∧ y.headersDone = true)
  quiet : y.finished = true → y.inCall = false

section Steps
variable {myIp : Ipv4Addr} {i : Fin maxSockets} {header response body : List UInt8} {y y' : Reader}

theorem inv_opened {t : Table} (connected : Connected t i) (empty : unread (t.sockets i) = []) :
    Inv i header response (opened t) := by
  refine ⟨fun _ => connected, fun broken => absurd connected.established broken, Nat.zero_le _, ?_, ?_, ?_,
    fun _ => .inl ⟨rfl, rfl⟩, fun done => by cases done⟩
  · show 0 + (unread (t.sockets i)).length = 0
    rw [empty]
    rfl
  · show response.take 0 ++ unread (t.sockets i) = response.take 0
    rw [empty, List.append_nil]
  · exact List.drop_nil.symm

theorem Inv.data (invariant : Inv i header response y) (myIp : Ipv4Addr) {payload : List UInt8} {h : Header} {data : List UInt8}
    (established : (y.table.sockets i).state = .established)
    (segment : DataSegment (y.table.sockets i) payload h data) (follows : data <+: response.drop y.arrived)
    (room : (unread (y.table.sockets i)).length + data.length < rxSize) :
    Inv i header response
      { y with
        table := (tcpHandle myIp y.table (y.table.sockets i).remoteIp payload).1
        arrived := y.arrived + data.length } := by
  obtain ⟨picked, -, within, count, stored, result, progress, quiet⟩ := invariant
  have connected := picked established
  have handled := tcpHandle_data myIp connected segment
  have longer : response.take (y.arrived + data.length) = response.take y.arrived ++ data := by
    rw [List.take_add, ← List.prefix_iff_eq_take.mp follows]
  have bound : y.arrived + data.length ≤ response.length := by
    have := follows.length_le
    rw [List.length_drop] at this
    omega
  by_cases empty : data = []
  · subst empty
    rw [if_pos rfl] at handled
    rw [handled]
    exact ⟨picked, fun broken => absurd established broken, within, count, stored, result, progress, quiet⟩
  · rw [if_neg empty] at handled
    rw [handled]
    have after := connected.set (s := (y.table.sockets i).took data (h.seq + UInt32.ofNat data.length)) rfl rfl
    refine ⟨fun _ => after, fun broken => absurd after.established broken, bound, ?_, ?_, result, progress, quiet⟩
    · rw [set_self, took_unread _ room, List.length_append, ← Nat.add_assoc, count]
    · rw [set_self, took_unread _ room, ← List.append_assoc, stored, longer]

theorem Inv.fin (invariant : Inv i header response y) (myIp : Ipv4Addr) {payload : List UInt8} {h : Header} {data : List UInt8}
    (established : (y.table.sockets i).state = .established) (segment : FinSegment (y.table.sockets i) payload h data)
    (rest : response.drop y.arrived = []) :
    Inv i header response
      { y with
        table := (tcpHandle myIp y.table (y.table.sockets i).remoteIp payload).1
        arrived := response.length } := by
  obtain ⟨picked, -, within, count, stored, result, progress, quiet⟩ := invariant
  obtain ⟨s, handled, closed, same⟩ := tcpHandle_fin myIp (picked established) (y.table.sockets i).remoteIp segment
  have all : y.arrived = response.length := Nat.le_antisymm within (List.drop_eq_nil_iff.mp rest)
  rw [handled]
  refine ⟨fun is => ?_, fun _ => rfl, Nat.le_refl _, ?_, ?_, result, progress, quiet⟩
  · rw [set_self, closed] at is
    cases is
  · rw [set_self, same, ← all]
    exact count
  · rw [set_self, same, ← all]
    exact stored

/-- What a return from tcp_recv does, as far as the caller can see. -/
theorem Inv.recv_result (invariant : Inv i header response y) (block : HeaderBlock header)
    (whole : response = header ++ body) (inCall : y.inCall = true) {tmp : List UInt8}
    (drained : tmp = (unread (y.table.sockets i)).take chunkSize) :
    (afterRecv y.headersDone tmp chunkSize).2 = tmp.drop (header.length - y.drained) ∧
      (header.length < y.drained + tmp.length → (afterRecv y.headersDone tmp chunkSize).1 = true) := by
  have fits : tmp.length ≤ chunkSize := by
    rw [drained]
    exact List.length_take_le _ _
  have running : y.finished = false := by
    cases done : y.finished with
    | false => rfl
    | true => rw [invariant.quiet done] at inCall; cases inCall
  rcases invariant.progress running with ⟨none_yet, unset⟩ | ⟨past, set⟩
  · -- the first bytes drained are the first of the response
    have begins : tmp <+: header ++ body := by
      have stored := invariant.stored
      rw [none_yet, List.take_zero, List.nil_append] at stored
      rw [drained, stored, ← whole]
      exact (List.take_prefix _ _).trans (List.take_prefix _ _)
    rw [unset, none_yet, Nat.sub_zero, Nat.zero_add]
    exact afterRecv_first block begins fits
  · rw [set, afterRecv_later fits, Nat.sub_eq_zero_of_le (Nat.le_of_lt past), List.drop_zero]
    exact ⟨rfl, fun _ => rfl⟩

theorem Inv.recv (invariant : Inv i header response y) (block : HeaderBlock header) (whole : response = header ++ body)
    (inCall : y.inCall = true) : Inv i header response (y.recv i) := by
  obtain ⟨taken, left⟩ := tcpRecv_take (y.table.sockets i) chunkSize
  have read := invariant.recv_result block whole inCall taken
  obtain ⟨picked, ended, within, count, stored, result, progress, quiet⟩ := invariant
  unfold Reader.recv
  dsimp only
  generalize tmp_is : (tcpRecv (y.table.sockets i) chunkSize).2 = tmp at taken read ⊢
  have sum : tmp.length + (unread (tcpRecv (y.table.sockets i) chunkSize).1).length =
      (unread (y.table.sockets i)).length := by
    rw [taken, left, ← List.length_append, List.take_append_drop]
  have state : (tcpRecv (y.table.sockets i) chunkSize).1.state = (y.table.sockets i).state := rfl
  -- what is drained in all is a first part of the response
  have drained : response.take (y.drained + tmp.length) = response.take y.drained ++ tmp := by
    have start : (response.take y.drained).length = y.drained := by
      rw [List.length_take]
      omega
    have cut := congrArg (List.take (y.drained + tmp.length)) stored
    rw [List.take_take, Nat.min_eq_left (by omega)] at cut
    rw [← cut, List.take_append, start, Nat.add_sub_cancel_left, List.take_of_length_le (by omega), taken,
      List.length_take, ← List.take_eq_take_min]
  refine ⟨fun is => ?_, fun broken => ?_, within, ?_, ?_, ?_, fun running => ?_, fun _ => rfl⟩
  · rw [set_self, state] at is
    exact (picked is).set rfl rfl
  · rw [set_self, state] at broken
    exact ended broken
  · show y.drained + tmp.length + _ = y.arrived
    rw [set_self]
    omega
  · show response.take (y.drained + tmp.length) ++ _ = response.take y.arrived
    rw [set_self, drained, List.append_assoc, ← stored, taken, left, List.take_append_drop]
  · show y.result ++ (afterRecv y.headersDone tmp chunkSize).2 = (response.take (y.drained + tmp.length)).drop header.length
    rw [drained, List.drop_append, read.1, result, List.length_take, Nat.min_eq_left (by omega)]
  · have some_read : (afterRecv y.headersDone tmp chunkSize).2 ≠ [] := of_decide_eq_false running
    have past : header.length < y.drained + tmp.length := by
      by_contra short
      rw [read.1, List.drop_of_length_le (by omega)] at some_read
      exact some_read rfl
    exact .inr ⟨past, read.2 past⟩

/-- With everything that was drained accounted for, only the end of the response can be missing. -/
theorem Inv.complete_iff (invariant : Inv i header response y) (whole : response = header ++ body) :
    Complete body y ↔ (y.finished = true → body = [] ∨ response.length ≤ y.drained) := by
  have rest : response.drop header.length = body := by rw [whole, List.drop_left]
  unfold Complete
  refine forall_congr' fun _ => ?_
  rw [invariant.result]
  constructor
  · intro same
    by_contra missing
    obtain ⟨nonempty, short⟩ := not_or.mp missing
    have lengths := congrArg List.length same
    have positive := List.length_pos_iff.mpr nonempty
    rw [List.length_drop, List.length_take] at lengths
    rw [whole, List.length_append] at short lengths
    omega
  · rintro (empty | all)
    · rw [empty, List.drop_eq_nil_iff, List.length_take, whole, empty, List.append_nil]
      exact Nat.min_le_right _ _
    · rw [List.take_of_length_le all, rest]

/-- A return of 0 from the loop of tcp_recv. -/
theorem Inv.recv_complete_iff (invariant : Inv i header response y) (block : HeaderBlock header)
    (whole : response = header ++ body) (inCall : y.inCall = true) :
    Complete body (y.recv i) ↔ body = [] ∨ ¬ TooEarly i header response y .recv := by
  have after := invariant.recv block whole inCall
  obtain ⟨taken, left⟩ := tcpRecv_take (y.table.sockets i) chunkSize
  have read := (invariant.recv_result block whole inCall taken).1
  have size : (tcpRecv (y.table.sockets i) chunkSize).2.length =
      min chunkSize (unread (y.table.sockets i)).length := by rw [taken, List.length_take]
  -- 0 is returned if what is drained does not reach into the body
  have ends : (y.recv i).finished = true ↔
      min chunkSize (unread (y.table.sockets i)).length ≤ header.length - y.drained := by
    show decide ((afterRecv y.headersDone _ chunkSize).2 = []) = true ↔ _
    rw [decide_eq_true_iff, read, List.drop_eq_nil_iff, size]
  have total : (y.recv i).drained = y.drained + min chunkSize (unread (y.table.sockets i)).length :=
    congrArg (y.drained + ·) size
  have running : y.finished = false := by
    cases done : y.finished with
    | false => rfl
    | true => rw [invariant.quiet done] at inCall; cases inCall
  have early : TooEarly i header response y .recv ↔
      (unread (y.table.sockets i)).length = 0 ∧ y.drained < response.length ∨
        y.drained = 0 ∧ min chunkSize (unread (y.table.sockets i)).length ≤ header.length := by
    simp [TooEarly, List.length_eq_zero_iff]
  have chunk : 0 < chunkSize := by decide
  have counted := invariant.count
  have within := invariant.within
  have lengths : response.length = header.length + body.length := by rw [whole, List.length_append]
  have empty_iff : body = [] ↔ body.length = 0 := List.length_eq_zero_iff.symm
  rw [after.complete_iff whole, ends, total, early, empty_iff]
  rcases invariant.progress running with ⟨none_yet, -⟩ | ⟨past, -⟩ <;> omega

/-- What one step does: http_read stays complete exactly if it does not return 0 too early. -/
theorem Step.judged (invariant : Inv i header response y) (complete : Complete body y) (block : HeaderBlock header)
    (whole : response = header ++ body) {e : Event} (fits : Fits i y e) (taken : Step myIp i response y e y') :
    Inv i header response y' ∧ (Complete body y' ↔ body = [] ∨ ¬ TooEarly i header response y e) := by
  cases taken with
  | @data payload h data established segment follows =>
    have after := invariant.data myIp established segment follows ((fits payload h data segment.parsed).1 rfl)
    exact ⟨after, iff_of_true complete (.inr (by simp [TooEarly]))⟩
  | @fin payload h data established segment rest =>
    have none_left : data = [] := (fits payload h data segment.parsed).2 rfl
    have after := invariant.fin myIp established segment (rest ▸ none_left)
    exact ⟨after, iff_of_true complete (.inr (by simp [TooEarly]))⟩
  | call running outside =>
    have early : TooEarly i header response y .call ↔
        (y.table.sockets i).state ≠ .established ∧ y.drained < response.length := by simp [TooEarly]
    rw [early]
    obtain ⟨picked, ended, within, count, stored, result, progress, quiet⟩ := invariant
    by_cases established : (y.table.sockets i).state = .established
    · rw [if_neg (not_not_intro established)]
      refine ⟨⟨picked, ended, within, count, stored, result, progress, fun done => ?_⟩, ?_⟩
      · cases running.symm.trans done
      · exact iff_of_true (fun done => by cases running.symm.trans done) (.inr fun ⟨broken, _⟩ => broken established)
    · rw [if_pos established]
      have after : Inv i header response { y with finished := true } :=
        ⟨picked, ended, within, count, stored, result, fun going => (by cases going), fun _ => outside⟩
      refine ⟨after, ?_⟩
      rw [after.complete_iff whole]
      simp [established]
  | recv inCall => exact ⟨invariant.recv block whole inCall, invariant.recv_complete_iff block whole inCall⟩

end Steps

/-! ### Whole runs -/

/-- When the segments fit, the results of http_read make up the body in every run, however the
response is cut, exactly if the body is empty or no call returns 0 too early. -/
theorem body_complete_iff (myIp : Ipv4Addr) {i : Fin maxSockets} {header body : List UInt8} (block : HeaderBlock header)
    {t : Table} (connected : Connected t i) (empty : unread (t.sockets i) = []) {moves : List (Move Reader Event)}
    {y : Reader} (run : Run (Step myIp i (header ++ body)) (opened t) moves y)
    (fits : ∀ m ∈ moves, Fits i m.before m.event) :
    (∀ m ∈ moves, Complete body m.after) ↔
      body = [] ∨ ∀ m ∈ moves, ¬ TooEarly i header (header ++ body) m.before m.event := by
  have fresh : Complete body (opened t) := fun done => by cases done
  have judged := (run.restrict fits).good_iff (fun y => Inv i header (header ++ body) y ∧ Complete body y)
    (fun y e => body = [] ∨ ¬ TooEarly i header (header ++ body) y e) (fun _ _ y' => Complete body y')
    (fun ⟨before, complete⟩ fine ⟨taken, fit⟩ =>
      have after := Step.judged before complete block rfl fit taken
      ⟨after.1, after.2.mpr fine⟩)
    (fun ⟨before, complete⟩ ⟨taken, fit⟩ => (Step.judged before complete block rfl fit taken).2)
    ⟨inv_opened connected empty, fresh⟩
  rw [judged]
  by_cases none_expected : body = []
  · simp [none_expected]
  · simp [none_expected]

/-- A segment for the connection of connectedTable. -/
def segment (flags : UInt8) (data : List UInt8) : List UInt8 :=
  (Header.mk 80 49152 8 0xABCD1235 0x50 flags 4096 0 0).encode ++ data

def shortHeader : List UInt8 := [72, 13, 10, 13, 10]

theorem shortHeader_block : HeaderBlock shortHeader := ⟨by decide, by decide⟩

theorem segment_data {t : Table} (remote : (t.sockets 0).remotePort = 80) (own : (t.sockets 0).localPort = 49152)
    (data : List UInt8) : DataSegment (t.sockets 0) (segment flagAck data)
      (Header.mk 80 49152 8 0xABCD1235 0x50 flagAck 4096 0 0) data :=
  ⟨parse_encode _ _ rfl, remote.symm, own.symm, show flagAck &&& flagRst = 0 by decide,
    show flagAck &&& flagFin = 0 by decide⟩

theorem segment_fin {t : Table} (own : (t.sockets 0).localPort = 49152) :
    FinSegment (t.sockets 0) (segment (flagFin ||| flagAck) [])
      (Header.mk 80 49152 8 0xABCD1235 0x50 (flagFin ||| flagAck) 4096 0 0) [] :=
  ⟨parse_encode _ _ rfl, own.symm, show (flagFin ||| flagAck) &&& flagRst = 0 by decide,
    show (flagFin ||| flagAck) &&& flagFin ≠ 0 by decide⟩

theorem fits_data {i : Fin maxSockets} {y : Reader} {payload : List UInt8} {h : Header} {data : List UInt8}
    (parsed : parse payload = some (h, data)) (room : (unread (y.table.sockets i)).length + data.length < rxSize) :
    Fits i y (.data payload) := by
  intro payload' h' data' parsed'
  refine ⟨fun same => ?_, fun same => (by cases same)⟩
  cases same
  cases parsed.symm.trans parsed'
  exact room

theorem fits_fin {i : Fin maxSockets} {y : Reader} {payload : List UInt8} {h : Header}
    (parsed : parse payload = some (h, [])) : Fits i y (.fin payload) := by
  intro payload' h' data' parsed'
  refine ⟨fun same => (by cases same), fun same => ?_⟩
  cases same
  cases parsed.symm.trans parsed'
  rfl

theorem fits_call (i : Fin maxSockets) (y : Reader) : Fits i y .call := by
  intro payload h data parsed
  constructor <;> intro same <;> cases same

theorem fits_recv (i : Fin maxSockets) (y : Reader) : Fits i y .recv := by
  intro payload h data parsed
  constructor <;> intro same <;> cases same

/-- The response in one segment, and the FIN before http_read is called: it returns 0 at once. -/
theorem fin_first_loses_body : ∃ moves y, Run (Step (addr 10 0 2 15) 0 (shortHeader ++ [66])) (opened connectedTable) moves y ∧
    moves.map Move.event = [.data (segment flagAck (shortHeader ++ [66])), .fin (segment (flagFin ||| flagAck) []), .call] ∧
    ¬ ∀ m ∈ moves, Complete [66] m.after := by
  refine ⟨_, _, .cons (.data rfl (segment_data rfl rfl (shortHeader ++ [66])) (List.prefix_refl _))
    (.cons (.fin rfl (segment_fin rfl) (by decide)) (.single (.call rfl rfl))), rfl, fun all => ?_⟩
  have := all _ (.tail _ (.tail _ (.head _)))
  exact absurd (this rfl) (by decide)

/-- The response in one segment is read in one call, and the next one returns 0 after the FIN. -/
theorem body_complete_iff_one_segment : ∃ moves y,
    Run (Step (addr 10 0 2 15) 0 (shortHeader ++ [66])) (opened connectedTable) moves y ∧ y.finished = true ∧
      ((∀ m ∈ moves, Complete [66] m.after) ↔
        ([66] : List UInt8) = [] ∨ ∀ m ∈ moves, ¬ TooEarly 0 shortHeader (shortHeader ++ [66]) m.before m.event) := by
  obtain ⟨moves, y, run, done, fits⟩ : ∃ moves y,
      Run (Step (addr 10 0 2 15) 0 (shortHeader ++ [66])) (opened connectedTable) moves y ∧ y.finished = true ∧
        ∀ m ∈ moves, Fits 0 m.before m.event := by
    refine ⟨_, _, .cons (.data rfl (segment_data rfl rfl (shortHeader ++ [66])) (List.prefix_refl _))
      (.cons (.call rfl rfl) (.cons (.recv rfl) (.cons (.fin rfl (segment_fin rfl) (by decide))
        (.single (.call rfl rfl))))), rfl, ?_⟩
    have parsed := (segment_data (t := connectedTable) rfl rfl (shortHeader ++ [66])).parsed
    have ended := (segment_fin (t := connectedTable) rfl).parsed
    simp only [List.forall_mem_cons]
    refine ⟨fits_data parsed ?_, fits_call _ _, fits_recv _ _, fits_fin ended, fits_call _ _, List.forall_mem_nil _⟩
    show (unread (connectedTable.sockets 0)).length + 6 < rxSize
    rw [connectedTable_unread]
    decide
  exact ⟨moves, y, run, done, body_complete_iff (addr 10 0 2 15) shortHeader_block connectedTable_connected
    connectedTable_unread run fits⟩

end ChrisOS.Net.Http.Reading
