import Mathlib.Data.List.Forall2
import SbOS.Lib.Framing
import SbOS.Net.Connection

/-! UDP (`network/udp.c` and the UDP sockets of `kernel/socket.c`). A connection keeps what has
arrived in a ring of bytes: for every datagram its length, a `struct sockaddr_in` with the sender
and the payload. `udp_recvfrom` takes one of them, and throws away what the caller has no room
for. -/
namespace SbOS.Net
open Kernel Bytes Framing Option
open List hiding after

/-! ## Reading a packet -/

/-- `ntohs` and `htons` -/
def ntohs (net : Nat) : Nat := net / 256 + net * 256 % 2 ^ 16

/-- `len` bytes of a packet from `pos` on, all of which have to be inside it. -/
def readBytes (packet : List UInt8) (pos len : Nat) : Except Stop (List UInt8) :=
  if pos + len ≤ packet.length then .ok ((packet.drop pos).take len) else .error .overrun

/-- The `u16` at `pos`. -/
def read16 (packet : List UInt8) (pos : Nat) : Except Stop Nat := do
  let bytes ← readBytes packet pos 2
  return le16 (bytes.getD · 0) 0

theorem readBytes_inside (inside : pos + len ≤ packet.length) :
    readBytes packet pos len = .ok ((packet.drop pos).take len) := if_pos inside

theorem take_getD (packet : List UInt8) (bound : i < len) :
    (packet.take len).getD i 0 = packet.getD i 0 := by
  rw [getD_eq_getElem?_getD, List.getElem?_take_of_lt bound, getD_eq_getElem?_getD]

theorem read16_inside (inside : pos + 2 ≤ packet.length) :
    read16 packet pos = .ok (le16 (packet.getD · 0) pos) := by
  unfold read16
  rw [readBytes_inside inside, ok_then]
  refine congrArg Except.ok (le16_congr fun i bound => ?_)
  rw [zero_add, take_getD _ bound, getD_eq_getElem?_getD, List.getElem?_drop,
    getD_eq_getElem?_getD]

/-! ## The connections -/

structure UdpConnection where
  incomingPort : Nat
  outgoingPort : Nat
  dead : Bool
  incomingBuffer : Ringbuffer

/-- `sizeof(struct sockaddr_in)`: four bytes for the family, the address, the port and two bytes
of padding. -/
def sockaddrInSize : Nat := 12

/-- The connection that `udp_connect` makes; there is memory for the ring. -/
def udpConnect (port : Nat) (memory : Bytes) : UdpConnection where
  incomingPort := 1337
  outgoingPort := port
  dead := false
  incomingBuffer := (Ringbuffer.init (some memory) 8192).2

/-- `udp_find_connection`, which does not look at the address of the sender. -/
def udpFindConnection (connections : List UdpConnection) (srcPort dstPort : Nat) :
    Option (UdpConnection × Nat) :=
  connections.zipIdx.find? fun (c, _) =>
    !c.dead && (c.incomingPort = dstPort && c.outgoingPort = srcPort)

/-- `from` of `handle_udp`, on the stack with whatever is there. -/
def sender (stack : Bytes) (srcIp srcPort : Nat) : Bytes := put16 (put32 stack 4 srcIp) 8 srcPort

/-- `handle_udp`; `payload` is what the frame holds from the header on. -/
def handleUdp (connections : List UdpConnection) (stack : Bytes) (srcIp : Nat)
    (payload : List UInt8) (packetLength : Nat) : Except Stop (List UdpConnection) :=
  if packetLength < 8 then .ok connections
  else do
    let srcPort := ntohs (← read16 payload 0)
    let dstPort := ntohs (← read16 payload 2)
    let length := ntohs (← read16 payload 4)
    let _ ← read16 payload 6
    if length < 8 then return connections
    else if length ≠ packetLength then return connections
    else
      match udpFindConnection connections srcPort dstPort with
      | none => return connections
      | some (con, i) =>
        let len := wrap32 (length - 8 + sockaddrInSize)
        if con.incomingBuffer.unused < wrap32 (len + 4) then return connections
        else
          let (_, rb) ← con.incomingBuffer.write (encode len) 4
          let (_, rb) ← rb.write (sender stack srcIp srcPort) sockaddrInSize
          let data ← readBytes payload 8 (length - 8)
          let (_, rb) ← rb.write (data.getD · 0) (length - 8)
          return connections.set i { con with incomingBuffer := rb }

/-- What `udp_recvfrom` returns and stores in the buffer, in `src_addr` and in `*addrlen`. -/
structure Received where
  rc : Int
  bytes : List UInt8 := []
  address : Option (List UInt8) := none
  addrlen : Option Nat := none

/-- `udp_recvfrom` into `len` bytes; `srcAddr` tells whether there is a place for the address,
and `addrlen` how large that is said to be. -/
def udpRecvfrom (con : UdpConnection) (len : Nat) (srcAddr : Bool) (addrlen : Option Nat) :
    Except Stop (Received × UdpConnection) :=
  if con.dead then .ok ({ rc := -eBADF }, con)
  else do
    let ((rc, stored), rb) ← con.incomingBuffer.read true 4
    if rc = 0 then return ({ rc := -eWOULDBLOCK }, { con with incomingBuffer := rb })
    else
      check (rc = 4)
      let packetLength := le32 ((stored.getD []).getD · 0) 0
      check (sockaddrInSize ≤ packetLength)
      let ((_, origin), rb) ← rb.read true sockaddrInSize
      let address := addrlen.bind fun size =>
        if srcAddr then some ((origin.getD []).take (min sockaddrInSize size)) else none
      let rest := sub32 packetLength sockaddrInSize
      let toRead := min rest len
      let ((rc, bytes), rb) ← rb.read true toRead
      let (_, rb) ← rb.read false (sub32 rest toRead)
      return ({ rc, bytes := bytes.getD [], address, addrlen := addrlen.map fun _ => sockaddrInSize },
        { con with incomingBuffer := rb })

/-! ## What happens to the connections -/

inductive UdpEvent where
  /-- `handle_udp` on a packet, with what it finds on its stack -/
  | packet (srcIp : UInt32) (stack : Bytes) (payload : List UInt8)
  | recvfrom (i len : Nat) (srcAddr : Bool) (addrlen : Option Nat)
  | connect (port : Nat) (memory : Bytes)
  /-- `udp_close` -/
  | close (i : Nat)

def udpStep (connections : List UdpConnection) :
    UdpEvent → Except Stop (Option Received × List UdpConnection)
  | .packet srcIp stack payload => do
    let connections ← handleUdp connections stack srcIp.toNat payload payload.length
    return (none, connections)
  | .recvfrom i len srcAddr addrlen =>
    match connections[i]? with
    | none => .ok (none, connections)
    | some con => do
      let (received, con) ← udpRecvfrom con len srcAddr addrlen
      return (some received, connections.set i con)
  | .connect port memory => .ok (none, connections ++ [udpConnect port memory])
  | .close i => .ok (none, connections.modify i fun con => { con with dead := true })

/-- An event with the connections before and after it. -/
structure UdpEntry where
  before : List UdpConnection
  event : UdpEvent
  received : Option Received
  after : List UdpConnection

/-- The run of given events. -/
def udpRun (connections : List UdpConnection) (trace : List UdpEntry) :
    List UdpEvent → Except Stop (List UdpEntry × List UdpConnection)
  | [] => .ok (trace, connections)
  | event :: events => do
    let (received, after) ← udpStep connections event
    udpRun after (trace ++ [{ before := connections, event, received, after }]) events

/-! ## Datagrams -/

structure Datagram where
  srcIp : Nat
  srcPort : Nat
  payload : List UInt8

/-- The datagram in a packet from `srcIp`. -/
def datagramOf (srcIp : UInt32) (payload : List UInt8) : Datagram where
  srcIp := srcIp.toNat
  srcPort := ntohs (le16 (payload.getD · 0) 0)
  payload := payload.drop 8

/-- The record of a datagram in the ring, without the length in front of it. -/
structure Carries (body : List UInt8) (datagram : Datagram) : Prop where
  length : body.length = sockaddrInSize + datagram.payload.length
  small : body.length < 2 ^ 32
  srcIp : le32 (body.getD · 0) 4 = datagram.srcIp
  srcPort : le16 (body.getD · 0) 8 = datagram.srcPort
  payload : body.drop sockaddrInSize = datagram.payload

/-- A call of `udp_recvfrom` that has returned a datagram. -/
structure Receipt where
  len : Nat
  srcAddr : Bool
  addrlen : Option Nat
  received : Received

/-- The call has returned this datagram: the first bytes of its payload, as many as there is room
for, and the address and port of its sender. -/
structure Receipt.Answers (receipt : Receipt) (datagram : Datagram) : Prop where
  rc : receipt.received.rc = min receipt.len datagram.payload.length
  bytes : receipt.received.bytes = datagram.payload.take receipt.len
  address : ∀ size, receipt.addrlen = some size → receipt.srcAddr = true →
    ∃ origin : List UInt8, receipt.received.address = some (origin.take size) ∧
      origin.length = sockaddrInSize ∧ le32 (origin.getD · 0) 4 = datagram.srcIp ∧
      le16 (origin.getD · 0) 8 = datagram.srcPort

/-- The datagram that an event has put into the ring of connection `i`. -/
def UdpEntry.accepted (i : Nat) (entry : UdpEntry) : List Datagram :=
  match entry.event with
  | .packet srcIp _ payload =>
    if entry.after[i]?.map (·.incomingBuffer.used) = entry.before[i]?.map (·.incomingBuffer.used)
    then [] else [datagramOf srcIp payload]
  | _ => []

/-- The call that has received a datagram from connection `i`. -/
def UdpEntry.receipt (i : Nat) (entry : UdpEntry) : List Receipt :=
  match entry.event, entry.received with
  | .recvfrom j len srcAddr addrlen, some received =>
    if j = i ∧ 0 ≤ received.rc then [⟨len, srcAddr, addrlen, received⟩] else []
  | _, _ => []

def acceptedAt (i : Nat) (trace : List UdpEntry) : List Datagram :=
  (trace.map (UdpEntry.accepted i)).flatten

def receiptsAt (i : Nat) (trace : List UdpEntry) : List Receipt :=
  (trace.map (UdpEntry.receipt i)).flatten

def ringAt (connections : List UdpConnection) (i : Nat) : List UInt8 :=
  ((connections[i]?).map (·.incomingBuffer.contents)).getD []

/-- The connection is live and has the two ports of a packet. -/
structure UdpConnection.Matches (con : UdpConnection) (payload : List UInt8) : Prop where
  alive : con.dead = false
  incoming : con.incomingPort = ntohs (le16 (payload.getD · 0) 2)
  outgoing : con.outgoingPort = ntohs (le16 (payload.getD · 0) 0)

/-- The packet holds a valid datagram for connection `i`, the first one that it matches, and the
ring of that connection has room for the record. -/
structure Deliverable (connections : List UdpConnection) (payload : List UInt8) (i : Nat) :
    Prop where
  header : 8 ≤ payload.length
  length : ntohs (le16 (payload.getD · 0) 4) = payload.length
  first : ∀ j < i, ∀ con, connections[j]? = some con → ¬ con.Matches payload
  room : ∃ con, connections[i]? = some con ∧ con.Matches payload ∧
    payload.length - 8 + sockaddrInSize + 4 ≤ con.incomingBuffer.unused

/-- A packet is put as a whole into the ring of the connection it can be delivered to, and into
no other. -/
def UdpEntry.Whole (entry : UdpEntry) : Prop :=
  ∀ srcIp stack payload, entry.event = .packet srcIp stack payload → ∀ i,
    (Deliverable entry.before payload i → ∃ body, Carries body (datagramOf srcIp payload) ∧
      ringAt entry.after i = ringAt entry.before i ++ (header body ++ body)) ∧
    (¬ Deliverable entry.before payload i → ringAt entry.after i = ringAt entry.before i)

/-! ## The ring holds records -/

/-- The ring of a connection is in order and holds these records. -/
structure UdpConnection.Holds (con : UdpConnection) (bodies : List (List UInt8)) : Prop where
  valid : con.incomingBuffer.Valid
  contents : con.incomingBuffer.contents = stream bodies

variable {con con' : UdpConnection} {bodies : List (List UInt8)}

theorem udpConnect_holds (port : Nat) (memory : Bytes) : (udpConnect port memory).Holds [] := by
  have represents := Ringbuffer.init_represents memory (show 2 ≤ 8192 by decide) (by decide)
  exact ⟨represents.valid, represents.items.symm⟩

theorem ntohs_lt (small : net < 2 ^ 16) : ntohs net < 2 ^ 16 := by
  unfold ntohs
  omega

theorem bytesAt_append_getD (b : Bytes) (rest : List UInt8) (bound : i < len) :
    (Ringbuffer.bytesAt b 0 len ++ rest).getD i 0 = b i := by
  have inside : i < (Ringbuffer.bytesAt b 0 len).length := by
    rw [Ringbuffer.bytesAt, length_map, length_range]
    exact bound
  rw [getD_eq_getElem?_getD, List.getElem?_append_left inside,
    List.getElem?_eq_getElem inside, getD_some]
  simp [Ringbuffer.bytesAt]

theorem bytesAt_length (b : Bytes) (len : Nat) : (Ringbuffer.bytesAt b 0 len).length = len := by
  rw [Ringbuffer.bytesAt, length_map, length_range]

/-- An address and the data after it are a record. -/
theorem carries_of (origin : Bytes) (data : List UInt8) (small : data.length < 2 ^ 16) :
    Carries (Ringbuffer.bytesAt origin 0 sockaddrInSize ++ data)
      ⟨le32 origin 4, le16 origin 8, data⟩ where
  length := by rw [length_append, bytesAt_length]
  small := by
    rw [length_append, bytesAt_length, sockaddrInSize]
    omega
  srcIp := le32_congr fun i bound =>
    bytesAt_append_getD origin data (show 4 + i < 12 by omega)
  srcPort := le16_congr fun i bound =>
    bytesAt_append_getD origin data (show 8 + i < 12 by omega)
  payload := drop_left' (bytesAt_length origin sockaddrInSize)

/-- The record that `handle_udp` writes after the length. -/
theorem sender_carries (stack : Bytes) (srcIp : UInt32) (payload : List UInt8)
    (small : payload.length < 2 ^ 16) :
    Carries (Ringbuffer.bytesAt (sender stack srcIp.toNat (datagramOf srcIp payload).srcPort) 0
      sockaddrInSize ++ payload.drop 8) (datagramOf srcIp payload) := by
  have carries := carries_of (sender stack srcIp.toNat (datagramOf srcIp payload).srcPort)
    (payload.drop 8) (by rw [length_drop]; omega)
  have ip : le32 (sender stack srcIp.toNat (datagramOf srcIp payload).srcPort) 4 =
      srcIp.toNat := by
    rw [sender, le32_put16_apart (by omega), le32_put32_same]
    exact Nat.mod_eq_of_lt srcIp.toNat_lt
  have port : le16 (sender stack srcIp.toNat (datagramOf srcIp payload).srcPort) 8 =
      (datagramOf srcIp payload).srcPort := by
    rw [sender, le16_put16_same]
    exact Nat.mod_eq_of_lt (ntohs_lt (le16_lt _ 0))
  rw [ip, port] at carries
  exact carries

/-- A write for which there is more room than it needs. -/
theorem write_piece {rb : Ringbuffer} (valid : rb.Valid) (data : Bytes) (room : len + more ≤ rb.unused) :
    ∃ rb', rb.write data len = .ok (len, rb') ∧ rb'.Valid ∧ more ≤ rb'.unused ∧
      rb'.contents = rb.contents ++ Ringbuffer.bytesAt data 0 len := by
  obtain ⟨rb', ran, valid', size, contents⟩ := valid.write_bytes data (Nat.le_of_add_right_le room)
  refine ⟨rb', ran, valid', ?_, contents⟩
  have grown := congrArg List.length contents
  rw [length_append, Ringbuffer.Valid.contents_length, Ringbuffer.Valid.contents_length,
    bytesAt_length] at grown
  rw [valid.unused_eq] at room
  rw [valid'.unused_eq, size, grown]
  omega

/-- The ports that `handle_udp` hands to `udp_find_connection`. -/
def findFor (connections : List UdpConnection) (payload : List UInt8) :
    Option (UdpConnection × Nat) :=
  udpFindConnection connections (ntohs (le16 (payload.getD · 0) 0))
    (ntohs (le16 (payload.getD · 0) 2))

theorem UdpConnection.matches_iff (con : UdpConnection) (payload : List UInt8) :
    con.Matches payload ↔ (!con.dead && (con.incomingPort = ntohs (le16 (payload.getD · 0) 2) &&
      con.outgoingPort = ntohs (le16 (payload.getD · 0) 0)) : Bool) = true := by
  simp only [Bool.and_eq_true, Bool.not_eq_true', decide_eq_true_eq]
  exact ⟨fun m => ⟨m.alive, m.incoming, m.outgoing⟩, fun ⟨a, b, c⟩ => ⟨a, b, c⟩⟩

theorem findFor_some (found : findFor connections payload = some (con, i)) :
    connections[i]? = some con ∧ con.Matches payload ∧
      ∀ j < i, ∀ con, connections[j]? = some con → ¬ con.Matches payload := by
  obtain ⟨fits, k, inside, at_k, before⟩ := List.find?_eq_some_iff_getElem.mp found
  rw [List.getElem_zipIdx, Prod.mk.injEq, zero_add] at at_k
  obtain ⟨here, rfl⟩ := at_k
  rw [length_zipIdx] at inside
  refine ⟨List.getElem?_eq_some_iff.mpr ⟨inside, here⟩, (con.matches_iff payload).mpr fits, ?_⟩
  intro j earlier other there same
  obtain ⟨short, rfl⟩ := List.getElem?_eq_some_iff.mp there
  have differs := before j earlier
  rw [List.getElem_zipIdx, Bool.not_eq_true'] at differs
  exact Bool.false_ne_true (differs.symm.trans ((UdpConnection.matches_iff _ payload).mp same))

theorem findFor_none {i : Nat} (missing : findFor connections payload = none)
    (there : connections[i]? = some con) : ¬ con.Matches payload := by
  rw [con.matches_iff]
  exact List.find?_eq_none.mp missing (con, i) (mem_zipIdx_iff_getElem?.mpr there)

/-- A packet can be delivered to one connection only. -/
theorem Deliverable.unique (one : Deliverable connections payload i)
    (other : Deliverable connections payload j) : i = j := by
  obtain ⟨con, there, same, -⟩ := one.room
  obtain ⟨con', there', same', -⟩ := other.room
  rcases lt_trichotomy i j with earlier | equal | later
  · exact absurd same (other.first i earlier con there)
  · exact equal
  · exact absurd same' (one.first j later con' there')

/-- The ring of the connection has got the record of a datagram. -/
structure UdpConnection.Stores (con con' : UdpConnection) (datagram : Datagram) : Prop where
  valid : con'.incomingBuffer.Valid
  record : ∃ body, Carries body datagram ∧
    con'.incomingBuffer.contents = con.incomingBuffer.contents ++ (header body ++ body)

/-- The part of `handle_udp` after the checks of the header. -/
theorem store_datagram (valid : con.incomingBuffer.Valid) (stack : Bytes) (srcIp : UInt32)
    (small : payload.length < 2 ^ 16)
    (room : payload.length - 8 + sockaddrInSize + 4 ≤ con.incomingBuffer.unused) :
    ∃ rb₁ rb₂ rb₃,
      con.incomingBuffer.write (encode (payload.length - 8 + sockaddrInSize)) 4 = .ok (4, rb₁) ∧
      rb₁.write (sender stack srcIp.toNat (datagramOf srcIp payload).srcPort) sockaddrInSize =
        .ok (sockaddrInSize, rb₂) ∧
      rb₂.write ((payload.drop 8).getD · 0) (payload.length - 8) =
        .ok (payload.length - 8, rb₃) ∧
      con.Stores { con with incomingBuffer := rb₃ } (datagramOf srcIp payload) := by
  obtain ⟨rb₁, ran₁, valid₁, room₁, contents₁⟩ := write_piece valid
    (encode (payload.length - 8 + sockaddrInSize))
    (show 4 + (sockaddrInSize + (payload.length - 8)) ≤ con.incomingBuffer.unused by omega)
  obtain ⟨rb₂, ran₂, valid₂, room₂, contents₂⟩ := write_piece valid₁
    (sender stack srcIp.toNat (datagramOf srcIp payload).srcPort) room₁
  have length : (payload.drop 8).length = payload.length - 8 := length_drop
  obtain ⟨rb₃, ran₃, valid₃, contents₃⟩ := valid₂.write_all (payload.drop 8)
    length.symm.le room₂
  have carries := sender_carries stack srcIp payload small
  refine ⟨rb₁, rb₂, rb₃, ran₁, ran₂, ran₃, valid₃, _, carries, ?_⟩
  have number : Ringbuffer.bytesAt (encode (payload.length - 8 + sockaddrInSize)) 0 4 =
      header (Ringbuffer.bytesAt (sender stack srcIp.toNat (datagramOf srcIp payload).srcPort) 0
        sockaddrInSize ++ payload.drop 8) := by
    rw [header, length_append, bytesAt_length, length, add_comm, Ringbuffer.bytesAt]
    simp only [zero_add]
  rw [contents₃, contents₂, contents₁, number, take_of_length_le length.le,
    append_assoc, append_assoc]

/-- What `handle_udp` does with a packet: nothing, or the connection that it can be delivered to
stores its datagram. -/
inductive Handles (connections : List UdpConnection) (payload : List UInt8) (datagram : Datagram)
    (after : List UdpConnection) : Prop where
  | dropped (nowhere : ∀ i, ¬ Deliverable connections payload i) (same : after = connections)
  | stored (i : Nat) (con con' : UdpConnection) (deliverable : Deliverable connections payload i)
    (present : connections[i]? = some con)
    (stores : con.Stores con' datagram) (updated : after = connections.set i con')

theorem handleUdp_ok (valid : ∀ con ∈ connections, con.incomingBuffer.Valid) (stack : Bytes)
    (srcIp : UInt32) (payload : List UInt8) :
    ∃ after, handleUdp connections stack srcIp.toNat payload payload.length = .ok after ∧
      Handles connections payload (datagramOf srcIp payload) after := by
  unfold handleUdp
  by_cases short : payload.length < 8
  · rw [if_pos short]
    exact ⟨connections, rfl, .dropped (fun _ can => not_lt.mpr can.header short) rfl⟩
  rw [if_neg short, read16_inside (by omega), ok_then, read16_inside (by omega), ok_then,
    read16_inside (by omega), ok_then, read16_inside (by omega), ok_then]
  dsimp only
  split
  · rename_i low
    exact ⟨connections, rfl, .dropped (fun _ can => short (can.length ▸ low)) rfl⟩
  split
  · rename_i differs
    exact ⟨connections, rfl, .dropped (fun _ can => differs can.length) rfl⟩
  rename_i same
  rw [not_not] at same
  have small : payload.length < 2 ^ 16 := by
    rw [← same]
    exact ntohs_lt (le16_lt _ 4)
  rw [same]
  split
  · rename_i missing
    refine ⟨connections, rfl, .dropped (fun i can => ?_) rfl⟩
    obtain ⟨con, there, matching, -⟩ := can.room
    exact findFor_none missing there matching
  rename_i con i found
  obtain ⟨present, matching, first⟩ := findFor_some found
  have plain : ∀ n < 2 ^ 32, wrap32 n = n := fun _ => Nat.mod_eq_of_lt
  have fits : payload.length - 8 + sockaddrInSize + 4 < 2 ^ 32 := by
    unfold sockaddrInSize
    omega
  rw [plain (_ - 8 + _) (by omega), plain _ fits]
  split
  · rename_i tight
    refine ⟨connections, rfl, .dropped (fun j can => ?_) rfl⟩
    obtain ⟨other, there, matching', room⟩ := can.room
    have before : ¬ j < i := fun earlier => first j earlier other there matching'
    have after : ¬ i < j := fun later => can.first i later con present matching
    obtain rfl : j = i := by omega
    cases some.inj (there.symm.trans present)
    exact not_lt.mpr room tight
  rename_i room
  obtain ⟨rb₁, rb₂, rb₃, ran₁, ran₂, ran₃, stores⟩ := store_datagram
    (valid con (mem_of_getElem? present)) stack srcIp small (not_lt.mp room)
  have read : readBytes payload 8 (payload.length - 8) = .ok (payload.drop 8) := by
    rw [readBytes_inside (by omega), take_of_length_le (by rw [length_drop])]
  refine ⟨connections.set i { con with incomingBuffer := rb₃ }, ?_,
    .stored i con _ ⟨not_lt.mp short, same, first, con, present, matching, not_lt.mp room⟩
      present stores rfl⟩
  rw [ran₁, ok_then]
  change (rb₁.write (sender stack srcIp.toNat (datagramOf srcIp payload).srcPort) _ >>= _) = _
  rw [ran₂, ok_then, read, ok_then, ran₃, ok_then]
  rfl

/-- An empty ring. -/
theorem udpRecvfrom_empty (holds : con.Holds []) (alive : con.dead = false) :
    ∃ con', udpRecvfrom con len srcAddr addrlen = .ok ({ rc := -eWOULDBLOCK }, con') ∧
      con'.Holds [] := by
  obtain ⟨rb, ran, valid, -, contents⟩ := holds.valid.read_to true (show 4 < 2 ^ 32 by decide)
  have none : con.incomingBuffer.used = 0 := by
    rw [← Ringbuffer.Valid.contents_length, holds.contents]
    rfl
  rw [holds.contents] at contents
  refine ⟨{ con with incomingBuffer := rb }, ?_, valid, contents⟩
  unfold udpRecvfrom
  rw [if_neg (by rw [alive]; decide), ran, ok_then, none]
  rfl

section
variable (holds : con.Holds (body :: bodies)) (carries : Carries body datagram)
include holds carries

/-- The four reads of a record at the head of the ring. -/
theorem read_record (len : Nat) :
    ∃ rb₁ rb₂ rb₃ rb₄,
      con.incomingBuffer.read true 4 = .ok ((4, some (header body)), rb₁) ∧
      rb₁.read true sockaddrInSize =
        .ok ((sockaddrInSize, some (body.take sockaddrInSize)), rb₂) ∧
      rb₂.read true (min datagram.payload.length len) =
        .ok ((min datagram.payload.length len, some (datagram.payload.take len)), rb₃) ∧
      rb₃.read false (datagram.payload.length - min datagram.payload.length len) =
        .ok ((datagram.payload.length - min datagram.payload.length len, none), rb₄) ∧
      rb₄.Valid ∧ rb₄.contents = stream bodies := by
  have size := carries.length
  have small := carries.small
  have before := holds.contents
  have amount {rb : Ringbuffer} {bytes : List UInt8} (contents : rb.contents = bytes) :
      rb.used = bytes.length := by rw [← contents, Ringbuffer.Valid.contents_length]
  obtain ⟨rb₁, ran₁, valid₁, -, contents₁⟩ := holds.valid.read_to true (show 4 < 2 ^ 32 by decide)
  rw [before, drop_header] at contents₁
  rw [before, take_header, amount before, stream_cons, length_append, header_length,
    min_eq_left (Nat.le_add_right 4 _)] at ran₁
  obtain ⟨rb₂, ran₂, valid₂, -, contents₂⟩ :=
    valid₁.read_to true (show sockaddrInSize < 2 ^ 32 by decide)
  have there : sockaddrInSize ≤ body.length := by omega
  rw [contents₁, drop_append_of_le_length there, carries.payload] at contents₂
  rw [amount contents₁, length_append, min_eq_left (by omega), contents₁,
    take_append_of_le_length there] at ran₂
  obtain ⟨rb₃, ran₃, valid₃, -, contents₃⟩ :=
    valid₂.read_to true (show min datagram.payload.length len < 2 ^ 32 by omega)
  have inside : min datagram.payload.length len ≤ datagram.payload.length := min_le_left _ _
  have cut : datagram.payload.take (min datagram.payload.length len) =
      datagram.payload.take len := by
    rw [min_comm, ← take_take, take_length]
  rw [contents₂, drop_append_of_le_length inside] at contents₃
  have fits : min (min datagram.payload.length len)
      (datagram.payload.length + (stream bodies).length) = min datagram.payload.length len :=
    min_eq_left (by omega)
  rw [amount contents₂, length_append, fits, contents₂,
    take_append_of_le_length inside, cut] at ran₃
  obtain ⟨rb₄, ran₄, valid₄, -, contents₄⟩ := valid₃.read_to false
    (show datagram.payload.length - min datagram.payload.length len < 2 ^ 32 by omega)
  have left : (datagram.payload.drop (min datagram.payload.length len)).length =
      datagram.payload.length - min datagram.payload.length len := length_drop
  rw [contents₃, ← left, drop_left] at contents₄
  rw [amount contents₃, length_append, left, min_eq_left (Nat.le_add_right _ _)] at ran₄
  exact ⟨rb₁, rb₂, rb₃, rb₄, ran₁, ran₂, ran₃, ran₄, valid₄, contents₄⟩

/-- A record at the head of the ring. -/
theorem udpRecvfrom_record (alive : con.dead = false) (len : Nat) (srcAddr : Bool) (addrlen :
    Option Nat) :
    ∃ received con', udpRecvfrom con len srcAddr addrlen = .ok (received, con') ∧
      con'.Holds bodies ∧ 0 ≤ received.rc ∧
      Receipt.Answers ⟨len, srcAddr, addrlen, received⟩ datagram := by
  obtain ⟨rb₁, rb₂, rb₃, rb₄, ran₁, ran₂, ran₃, ran₄, valid, contents⟩ :=
    read_record holds carries len
  have size := carries.length
  have rest : sub32 body.length sockaddrInSize = datagram.payload.length := by
    rw [sub32_eq (by omega) carries.small]
    omega
  have more : sub32 datagram.payload.length (min datagram.payload.length len) =
      datagram.payload.length - min datagram.payload.length len :=
    sub32_eq (min_le_left _ _) (by have := carries.small; omega)
  have ran : udpRecvfrom con len srcAddr addrlen = .ok (
      { rc := (min datagram.payload.length len : Nat)
        bytes := datagram.payload.take len
        address := addrlen.bind fun size => if srcAddr then
          some ((body.take sockaddrInSize).take (min sockaddrInSize size)) else none
        addrlen := addrlen.map fun _ => sockaddrInSize },
      { con with incomingBuffer := rb₄ }) := by
    unfold udpRecvfrom
    rw [if_neg (by rw [alive]; decide), ran₁, ok_then]
    dsimp only
    rw [if_neg (by decide), check_true rfl, ok_then, getD_some, header_value body carries.small,
      check_true (by omega), ok_then, ran₂, ok_then]
    rw [rest, ran₃, ok_then]
    rw [more, ran₄, ok_then]
    rfl
  refine ⟨_, _, ran, ⟨valid, contents⟩, Int.natCast_nonneg _, ?_, rfl, ?_⟩
  · rw [min_comm]
  · rintro room rfl rfl
    have length : (body.take sockaddrInSize).length = sockaddrInSize := by
      rw [length_take]
      omega
    refine ⟨body.take sockaddrInSize, ?_, length, ?_, ?_⟩
    · change some _ = some _
      rw [min_comm, ← take_take, take_of_length_le length.le]
    · rw [← carries.srcIp]
      exact le32_congr fun i bound => take_getD body (show 4 + i < 12 by omega)
    · rw [← carries.srcPort]
      exact le16_congr fun i bound => take_getD body (show 8 + i < 12 by omega)

end

/-! ## Whole runs -/

theorem acceptedAt_snoc (i : Nat) (trace : List UdpEntry) (entry : UdpEntry) :
    acceptedAt i (trace ++ [entry]) = acceptedAt i trace ++ entry.accepted i := by
  simp [acceptedAt]

theorem receiptsAt_snoc (i : Nat) (trace : List UdpEntry) (entry : UdpEntry) :
    receiptsAt i (trace ++ [entry]) = receiptsAt i trace ++ entry.receipt i := by
  simp [receiptsAt]

/-- The ring of connection `i` holds the datagrams that have been accepted and not yet answered
for, in their order. -/
structure Keeps (trace : List UdpEntry) (i : Nat) (bodies : List (List UInt8))
    (pending answered : List Datagram) : Prop where
  records : List.Forall₂ Carries bodies pending
  accepted : acceptedAt i trace = answered ++ pending
  receipts : List.Forall₂ Receipt.Answers (receiptsAt i trace) answered

/-- The state of connection `i` after a run. -/
def InOrder (trace : List UdpEntry) (i : Nat) (con : UdpConnection) : Prop :=
  ∃ bodies pending answered, con.Holds bodies ∧ Keeps trace i bodies pending answered

/-- Nothing has been put into the ring of connection `i` and nothing has been received from it. -/
structure UdpEntry.Spares (i : Nat) (entry : UdpEntry) : Prop where
  accepted : entry.accepted i = []
  receipt : entry.receipt i = []

variable {entry : UdpEntry} {trace : List UdpEntry} {connections : List UdpConnection} {i : Nat}
  {pending answered : List Datagram}

theorem Keeps.spares (keeps : Keeps trace i bodies pending answered) (spares : entry.Spares i) :
    Keeps (trace ++ [entry]) i bodies pending answered where
  records := keeps.records
  accepted := by rw [acceptedAt_snoc, spares.accepted, append_nil, keeps.accepted]
  receipts := by
    rw [receiptsAt_snoc, spares.receipt, append_nil]
    exact keeps.receipts

theorem Keeps.accepts (keeps : Keeps trace i bodies pending answered)
    (carries : Carries body datagram) (accepted : entry.accepted i = [datagram])
    (receipt : entry.receipt i = []) :
    Keeps (trace ++ [entry]) i (bodies ++ [body]) (pending ++ [datagram]) answered where
  records := rel_append keeps.records (.cons carries .nil)
  accepted := by rw [acceptedAt_snoc, accepted, keeps.accepted, append_assoc]
  receipts := by
    rw [receiptsAt_snoc, receipt, append_nil]
    exact keeps.receipts

theorem Keeps.receives (keeps : Keeps trace i (body :: bodies) (datagram :: pending) answered)
    (accepted : entry.accepted i = []) (receipt : entry.receipt i = [reply])
    (answers : reply.Answers datagram) :
    Keeps (trace ++ [entry]) i bodies pending (answered ++ [datagram]) where
  records := (forall₂_cons.mp keeps.records).2
  accepted := by
    rw [acceptedAt_snoc, accepted, append_nil, keeps.accepted, append_assoc]
    rfl
  receipts := by
    rw [receiptsAt_snoc, receipt]
    exact rel_append keeps.receipts (.cons answers .nil)

/-- What holds after every run. -/
structure UdpInvariant (trace : List UdpEntry) (connections : List UdpConnection) : Prop where
  inOrder : ∀ i con, connections[i]? = some con → InOrder trace i con
  unopened : ∀ i, connections[i]? = none → acceptedAt i trace = [] ∧ receiptsAt i trace = []
  whole : ∀ entry ∈ trace, entry.Whole

theorem InOrder.spares (inOrder : InOrder trace i con) (spares : entry.Spares i)
    (same : con'.incomingBuffer = con.incomingBuffer) : InOrder (trace ++ [entry]) i con' := by
  obtain ⟨bodies, pending, answered, holds, keeps⟩ := inOrder
  refine ⟨bodies, pending, answered, ⟨?_, ?_⟩, keeps.spares spares⟩
  · rw [same]
    exact holds.valid
  · rw [same]
    exact holds.contents

/-- A step that changes at most connection `j`. -/
theorem UdpInvariant.change (invariant : UdpInvariant trace connections)
    (present : connections[j]? = some con) (inOrder : InOrder (trace ++ [entry]) j con')
    (others : ∀ i, i ≠ j → entry.Spares i) (whole : entry.Whole) :
    UdpInvariant (trace ++ [entry]) (connections.set j con') where
  inOrder i found there := by
    by_cases other : i = j
    · subst other
      rw [List.getElem?_set_self (List.getElem?_eq_some_iff.mp present).1] at there
      exact some.inj there ▸ inOrder
    · rw [List.getElem?_set_ne (Ne.symm other)] at there
      exact (invariant.inOrder i found there).spares (others i other) rfl
  unopened i none := by
    have other : i ≠ j := by
      rintro rfl
      rw [List.getElem?_set_self (List.getElem?_eq_some_iff.mp present).1] at none
      exact absurd none (some_ne_none _)
    rw [List.getElem?_set_ne (Ne.symm other)] at none
    obtain ⟨accepted, receipts⟩ := invariant.unopened i none
    rw [acceptedAt_snoc, receiptsAt_snoc, (others i other).accepted, (others i other).receipt,
      accepted, receipts]
    exact ⟨rfl, rfl⟩
  whole := by
    rw [forall_mem_append]
    exact ⟨invariant.whole, fun _ last => mem_singleton.mp last ▸ whole⟩

/-- A step that leaves every ring alone. -/
theorem UdpInvariant.still (invariant : UdpInvariant trace connections)
    (spares : ∀ i, entry.Spares i) (whole : entry.Whole)
    (same : ∀ (i : Nat) (con' : UdpConnection), after[i]? = some con' →
      (∃ con, connections[i]? = some con ∧ con'.incomingBuffer = con.incomingBuffer) ∨
        connections[i]? = none ∧ con'.Holds [])
    (kept : ∀ i : Nat, after[i]? = none → connections[i]? = none) :
    UdpInvariant (trace ++ [entry]) after where
  inOrder i con' there := by
    rcases same i con' there with ⟨con, present, buffer⟩ | ⟨none, empty⟩
    · exact (invariant.inOrder i con present).spares (spares i) buffer
    · obtain ⟨accepted, receipts⟩ := invariant.unopened i none
      have nothing : Keeps trace i [] [] [] := ⟨.nil, accepted, receipts ▸ .nil⟩
      exact ⟨[], [], [], empty, nothing.spares (spares i)⟩
  unopened i none := by
    obtain ⟨accepted, receipts⟩ := invariant.unopened i (kept i none)
    rw [acceptedAt_snoc, receiptsAt_snoc, (spares i).accepted, (spares i).receipt, accepted,
      receipts]
    exact ⟨rfl, rfl⟩
  whole := by
    rw [forall_mem_append]
    exact ⟨invariant.whole, fun _ last => mem_singleton.mp last ▸ whole⟩

theorem UdpConnection.Stores.used (stores : con.Stores con' datagram) :
    con'.incomingBuffer.used ≠ con.incomingBuffer.used := by
  obtain ⟨body, -, contents⟩ := stores.record
  have grown := congrArg List.length contents
  rw [length_append, length_append, Ringbuffer.Valid.contents_length,
    Ringbuffer.Valid.contents_length, header_length] at grown
  omega

section
variable (invariant : UdpInvariant trace connections)
include invariant

/-- `handle_udp` keeps the invariant. -/
theorem UdpInvariant.packet (srcIp : UInt32) (stack : Bytes) (payload : List UInt8) :
    ∃ after, handleUdp connections stack srcIp.toNat payload payload.length = .ok after ∧
      UdpInvariant (trace ++ [⟨connections, .packet srcIp stack payload, none, after⟩]) after := by
  have valid : ∀ con ∈ connections, con.incomingBuffer.Valid := by
    intro con member
    obtain ⟨i, present⟩ := List.getElem?_of_mem member
    obtain ⟨_, _, _, holds, _⟩ := invariant.inOrder i con present
    exact holds.valid
  obtain ⟨after, ran, handles⟩ := handleUdp_ok valid stack srcIp payload
  refine ⟨after, ran, ?_⟩
  cases handles with
  | dropped nowhere same =>
    subst same
    refine invariant.still (fun i => ⟨if_pos rfl, rfl⟩) ?_
      (fun i con' there => .inl ⟨con', there, rfl⟩) (fun _ none => none)
    intro srcIp' stack' payload' same i
    cases same
    exact ⟨fun can => absurd can (nowhere i), fun _ => rfl⟩
  | stored j con con' deliverable present stores updated =>
    subst updated
    have inside := (List.getElem?_eq_some_iff.mp present).1
    obtain ⟨bodies, pending, answered, holds, keeps⟩ := invariant.inOrder j con present
    obtain ⟨body, carries, contents⟩ := stores.record
    refine invariant.change present ?_ (fun i other => ⟨if_pos ?_, rfl⟩) ?_
    · refine ⟨bodies ++ [body], pending ++ [datagramOf srcIp payload], answered,
        ⟨stores.valid, ?_⟩, keeps.accepts carries (if_neg ?_) rfl⟩
      · rw [contents, holds.contents, stream_snoc]
      · rw [List.getElem?_set_self inside, present]
        exact fun same => stores.used (some.inj same)
    · rw [List.getElem?_set_ne (Ne.symm other)]
    · intro srcIp' stack' payload' same i
      cases same
      unfold ringAt
      by_cases other : i = j
      · subst other
        rw [List.getElem?_set_self inside, present]
        exact ⟨fun _ => ⟨body, carries, contents⟩, fun cannot => absurd deliverable cannot⟩
      · rw [List.getElem?_set_ne (Ne.symm other)]
        exact ⟨fun can => absurd (can.unique deliverable) other, fun _ => rfl⟩

/-- `udp_recvfrom` keeps the invariant. -/
theorem UdpInvariant.recvfrom (present : connections[i]? = some con) (len : Nat) (srcAddr : Bool)
    (addrlen : Option Nat) :
    ∃ received con', udpRecvfrom con len srcAddr addrlen = .ok (received, con') ∧
      UdpInvariant (trace ++ [⟨connections, .recvfrom i len srcAddr addrlen, some received,
        connections.set i con'⟩]) (connections.set i con') := by
  obtain ⟨bodies, pending, answered, holds, keeps⟩ := invariant.inOrder i con present
  -- a call that fails leaves the records alone
  have failed {received : Received} {con' : UdpConnection} (negative : ¬ 0 ≤ received.rc)
      (holds : con'.Holds bodies) : UdpInvariant (trace ++ [⟨connections,
        .recvfrom i len srcAddr addrlen, some received, connections.set i con'⟩])
        (connections.set i con') := by
    refine invariant.change present ⟨bodies, pending, answered, holds, keeps.spares ⟨rfl, ?_⟩⟩
      (fun j other => ⟨rfl, if_neg fun same => other same.1.symm⟩)
      nofun
    exact if_neg fun both => negative both.2
  cases alive : con.dead with
  | true => exact ⟨_, _, if_pos alive, failed (show ¬ (0 : Int) ≤ -eBADF by decide) holds⟩
  | false =>
    cases keeps.records with
    | nil =>
      obtain ⟨con', ran, empty⟩ := udpRecvfrom_empty holds alive
      exact ⟨_, con', ran, failed (show ¬ (0 : Int) ≤ -eWOULDBLOCK by decide) empty⟩
    | cons carries records =>
      obtain ⟨received, con', ran, rest, positive, answers⟩ :=
        udpRecvfrom_record holds carries alive len srcAddr addrlen
      refine ⟨received, con', ran, invariant.change present
        ⟨_, _, _, rest, keeps.receives rfl (if_pos ⟨rfl, positive⟩) answers⟩
        (fun j other => ⟨rfl, if_neg fun same => other same.1.symm⟩)
        nofun⟩

/-- Every event returns and keeps the invariant. -/
theorem UdpInvariant.step (event : UdpEvent) :
    ∃ received after, udpStep connections event = .ok (received, after) ∧
      UdpInvariant (trace ++ [⟨connections, event, received, after⟩]) after := by
  cases event with
  | packet srcIp stack payload =>
    obtain ⟨after, ran, kept⟩ := invariant.packet srcIp stack payload
    refine ⟨none, after, ?_, kept⟩
    change (handleUdp _ _ _ _ _ >>= _) = _
    rw [ran]
    rfl
  | recvfrom i len srcAddr addrlen =>
    cases present : connections[i]? with
    | none =>
      refine ⟨none, connections, ?_, invariant.still (fun _ => ⟨rfl, rfl⟩)
        nofun
        (fun _ con there => .inl ⟨con, there, rfl⟩) (fun _ none => none)⟩
      simp only [udpStep, present]
    | some con =>
      obtain ⟨received, con', ran, kept⟩ := invariant.recvfrom present len srcAddr addrlen
      refine ⟨some received, connections.set i con', ?_, kept⟩
      simp only [udpStep, present]
      rw [ran]
      rfl
  | connect port memory =>
    refine ⟨none, connections ++ [udpConnect port memory], rfl,
      invariant.still (fun _ => ⟨rfl, rfl⟩) nofun ?_ ?_⟩
    · intro i con there
      rcases lt_or_ge i connections.length with old | new
      · rw [List.getElem?_append_left old] at there
        exact .inl ⟨con, there, rfl⟩
      · rw [List.getElem?_append_right new] at there
        have last := mem_singleton.mp (mem_of_getElem? there)
        exact .inr ⟨List.getElem?_eq_none new, last ▸ udpConnect_holds port memory⟩
    · intro i none
      rw [List.getElem?_eq_none_iff, length_append] at none
      exact List.getElem?_eq_none (Nat.le_of_add_right_le none)
  | close j =>
    refine ⟨none, connections.modify j fun con => { con with dead := true }, rfl,
      invariant.still (fun _ => ⟨rfl, rfl⟩) nofun ?_ ?_⟩
    · intro i con there
      rw [List.getElem?_modify] at there
      obtain ⟨before, present, rfl⟩ := map_eq_some_iff.mp there
      refine .inl ⟨before, present, ?_⟩
      split <;> rfl
    · intro i none
      rw [List.getElem?_modify] at none
      exact map_eq_none_iff.mp none

theorem UdpInvariant.run (events : List UdpEvent) :
    ∃ trace' after, udpRun connections trace events = .ok (trace', after) ∧
      UdpInvariant trace' after := by
  induction events generalizing trace connections with
  | nil => exact ⟨trace, connections, rfl, invariant⟩
  | cons event events ih =>
    obtain ⟨received, after, ran, kept⟩ := invariant.step event
    obtain ⟨trace', last, rest, final⟩ := ih kept
    refine ⟨trace', last, ?_, final⟩
    change (udpStep connections event >>= _) = _
    rw [ran, ok_then]
    exact rest

end

theorem UdpInvariant.start : UdpInvariant [] [] where
  inOrder i con there := absurd there (by simp)
  unopened i _ := ⟨rfl, rfl⟩
  whole entry none := absurd none not_mem_nil

/-- The `k`-th call that receives a datagram returns the `k`-th one that has been accepted. -/
theorem UdpInvariant.answers (invariant : UdpInvariant trace connections) (i k : Nat)
    (receipt : Receipt) (returned : (receiptsAt i trace)[k]? = some receipt) :
    ∃ datagram, (acceptedAt i trace)[k]? = some datagram ∧ receipt.Answers datagram := by
  cases present : connections[i]? with
  | none =>
    rw [(invariant.unopened i present).2] at returned
    cases returned
  | some con =>
    obtain ⟨bodies, pending, answered, -, keeps⟩ := invariant.inOrder i con present
    have same := keeps.receipts.length_eq
    have inside := (List.getElem?_eq_some_iff.mp returned).1
    have inside' : k < answered.length := same ▸ inside
    refine ⟨answered.get ⟨k, inside'⟩, ?_, ?_⟩
    · rw [keeps.accepted, List.getElem?_append_left inside']
      exact List.getElem?_eq_getElem inside'
    · have answers := keeps.receipts.get inside inside'
      rw [List.getElem?_eq_getElem inside] at returned
      exact some.inj returned ▸ answers

/-- A call on a live connection that has accepted more datagrams than it has handed out. -/
theorem UdpInvariant.serves (invariant : UdpInvariant trace connections)
    (present : connections[i]? = some con) (alive : con.dead = false)
    (waiting : (receiptsAt i trace).length < (acceptedAt i trace).length) (len : Nat)
    (srcAddr : Bool) (addrlen : Option Nat) :
    ∃ received con', udpRecvfrom con len srcAddr addrlen = .ok (received, con') ∧
      0 ≤ received.rc := by
  obtain ⟨bodies, pending, answered, holds, keeps⟩ := invariant.inOrder i con present
  rw [keeps.accepted, length_append, keeps.receipts.length_eq] at waiting
  cases keeps.records with
  | nil => exact absurd waiting (lt_irrefl _)
  | cons carries _ =>
    obtain ⟨received, con', ran, -, positive, -⟩ :=
      udpRecvfrom_record holds carries alive len srcAddr addrlen
    exact ⟨received, con', ran, positive⟩

/-- In every run of packets, calls of `udp_recvfrom`, `udp_connect` and `udp_close` no call
stops, every packet is stored as a whole in the ring of the connection that it can be delivered
to and nowhere else, the connections hand out the datagrams they have accepted, each one by
itself and in their order, and a live connection with a datagram to hand out does so. -/
theorem udp_keeps_datagrams (events : List UdpEvent) :
    ∃ trace connections, udpRun [] [] events = .ok (trace, connections) ∧
      (∀ entry ∈ trace, entry.Whole) ∧
      (∀ (i k : Nat) (receipt : Receipt), (receiptsAt i trace)[k]? = some receipt →
        ∃ datagram, (acceptedAt i trace)[k]? = some datagram ∧ receipt.Answers datagram) ∧
      ∀ (i : Nat) (con : UdpConnection), connections[i]? = some con → con.dead = false →
        (receiptsAt i trace).length < (acceptedAt i trace).length →
        ∀ len srcAddr addrlen, ∃ received con',
          udpRecvfrom con len srcAddr addrlen = .ok (received, con') ∧ 0 ≤ received.rc := by
  obtain ⟨trace, connections, ran, invariant⟩ := UdpInvariant.start.run events
  exact ⟨trace, connections, ran, invariant.whole, invariant.answers,
    fun _ _ present alive waiting => invariant.serves present alive waiting⟩

end SbOS.Net
