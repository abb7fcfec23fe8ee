import SbOS.Kernel.Ringbuffer

/-! One TCP connection (`kernel/network/tcp.c` and the part of `kernel/socket.c` behind a
socket's descriptor). Segments are in host byte order and have passed the check of their
checksum; a segment that is sent goes to `outgoing_ip`. -/
namespace SbOS.Net
open Kernel

/-- The `TCP_STATE_` constants. -/
inductive State where
  | closed
  | listen
  | synSent
  | synRecieved
  | established
  | closeWait
  | finWait1
  | closing
  | lastAck
  | finWait2
  | timeWait
deriving DecidableEq, Repr

/-- The flags of a TCP header. -/
abbrev Flags := BitVec 8

def fin : Flags := 0x01#8

def syn : Flags := 0x02#8

def psh : Flags := 0x08#8

def ack : Flags := 0x10#8

/-- `flags & bit` as a condition. -/
def has (flags bit : Flags) : Bool := flags &&& bit ≠ 0

structure Segment where
  srcPort : Nat
  dstPort : Nat
  seqNum : Nat
  ackNum : Nat
  flags : Flags
  windowSize : Nat
  payload : List UInt8
deriving DecidableEq, Repr

/-- The fields of `struct TcpConnection` that are used. -/
structure Connection where
  state : State
  incomingPort : Nat
  incomingIp : Nat
  outgoingIp : Nat
  outgoingPort : Nat
  incomingBuffer : Ringbuffer
  outgoingBuffer : Ringbuffer
  noDelay : Bool
  rcvWnd : Nat
  rcvNxt : Nat
  shouldSendAck : Bool
  sndUna : Nat
  sndNxt : Nat
  sndMax : Nat
  sndWnd : Nat

def eWOULDBLOCK : Int := 6

def eNOTCONN : Int := 56

/-- What a call leaves of the connection, the segments it has sent, and whether it has destroyed
the connection: both rings and the connection are then freed, and `con` is what they held. -/
structure Result where
  con : Connection
  sent : List Segment := []
  destroyed : Bool := false

namespace Connection

/-! ## Sending -/

/-- `tcp_send_empty_payload` -/
def tcpSendEmptyPayload (con : Connection) (flags : Flags) : Result :=
  let sndNxt := wrap32 (con.sndNxt + if has flags syn then 1 else 0)
  let sndNxt := wrap32 (sndNxt + if has flags fin then 1 else 0)
  { con := { con with
      shouldSendAck := if has flags ack then false else con.shouldSendAck
      sndNxt
      sndMax := max sndNxt con.sndMax }
    sent := [{
      srcPort := con.incomingPort
      dstPort := con.outgoingPort
      seqNum := con.sndNxt
      ackNum := if has flags ack then con.rcvNxt else 0
      flags
      windowSize := con.rcvWnd % 2 ^ 16
      payload := [] }] }

/-- `tcp_can_send`, which returns a `u16`. -/
def tcpCanSend (con : Connection) : Nat :=
  if con.state = .closed then 0
  else sub32 (wrap32 (con.sndUna + con.sndWnd)) con.sndMax % 2 ^ 16

/-- The end of `send_tcp_packet`: one segment with the whole payload. -/
def sendSegment (con : Connection) (payload : List UInt8) : Connection × Segment :=
  let sndNxt := wrap32 (con.sndNxt + payload.length)
  ({ con with shouldSendAck := false, sndNxt, sndMax := max sndNxt con.sndMax },
    { srcPort := con.incomingPort
      dstPort := con.outgoingPort
      seqNum := con.sndNxt
      ackNum := con.rcvNxt
      flags := psh ||| ack
      windowSize := con.rcvWnd % 2 ^ 16
      payload })

/-- `send_tcp_packet` with calls nested at most `depth` deep. -/
def sendTcpPacketTo : (depth : Nat) → Connection → (payload : List UInt8) →
    Bool × Connection × List Segment
  | 0, con, _ => (false, con, [])
  | depth + 1, con, payload =>
    if con.tcpCanSend = 0 then (false, con, [])
    else if 1000 < payload.length then
      match sendTcpPacketTo depth con (payload.take 1000) with
      | (false, con, sent) => (false, con, sent)
      | (true, con, sent) =>
        match sendTcpPacketTo depth con (payload.drop 1000) with
        | (rc, con, sent') => (rc, con, sent ++ sent')
    else
      match con.sendSegment payload with
      | (con, segment) => (true, con, [segment])

/-- `send_tcp_packet`. A nested call has a shorter payload. -/
def sendTcpPacket (con : Connection) (payload : List UInt8) : Bool × Connection × List Segment :=
  sendTcpPacketTo (payload.length + 1) con payload

/-- `tcp_sync_buffer`. There is memory for the copy. -/
def tcpSyncBuffer (con : Connection) : Except Stop (Bool × Connection × List Segment) :=
  if con.state = .closed then .ok (false, con, [])
  else
    let sendBufferLen := con.outgoingBuffer.used
    if sendBufferLen = 0 then .ok (false, con, [])
    else do
      let len := min con.tcpCanSend sendBufferLen
      let ((read, sendBuffer), outgoingBuffer) ← con.outgoingBuffer.read true len
      check (read = len)
      let (_, con, sent) := { con with outgoingBuffer }.sendTcpPacket (sendBuffer.getD [])
      return (decide (sendBufferLen ≤ len), con, sent)

/-- `tcp_can_write` -/
def tcpCanWrite (con : Connection) : Bool :=
  if con.state ≠ .established then false
  else if con.noDelay then con.tcpCanSend ≠ 0
  else 0 < con.outgoingBuffer.unused || con.tcpCanSend ≠ 0

/-- `tcp_write` of the bytes in `buffer`. -/
def tcpWrite (con : Connection) (buffer : List UInt8) :
    Except Stop (Int × Connection × List Segment) :=
  if con.state ≠ .established then .ok (-eNOTCONN, con, [])
  else if con.tcpCanWrite = false then .ok (-eWOULDBLOCK, con, [])
  else
    let len := min buffer.length con.tcpCanSend
    if len = 0 then .ok (-eWOULDBLOCK, con, [])
    else if con.noDelay then
      match con.sendTcpPacket (buffer.take len) with
      | (false, con, sent) => .ok (-eWOULDBLOCK, con, sent)
      | (true, con, sent) => .ok (len, con, sent)
    else if con.outgoingBuffer.unused < len then do
      match ← con.tcpSyncBuffer with
      | (false, con, sent) => return (0, con, sent)
      | (true, con, sent) =>
        match con.sendTcpPacket (buffer.take len) with
        | (false, con, sent') => return (-eWOULDBLOCK, con, sent ++ sent')
        | (true, con, sent') => return (len, con, sent ++ sent')
    else do
      let (written, outgoingBuffer) ← con.outgoingBuffer.write (buffer.getD · 0) len
      check (written = len)
      return (len, { con with outgoingBuffer }, [])

/-! ## Receiving -/

/-- `tcp_read`; the length is cut to the `u32` that `ringbuffer_read` takes. -/
def tcpRead (con : Connection) (len : Nat) : Except Stop (Int × List UInt8 × Connection) := do
  let ((rc, stored), incomingBuffer) ← con.incomingBuffer.read true (len % 2 ^ 32)
  let con := { con with incomingBuffer }
  if rc = 0 ∧ 0 < len then
    if con.state ≠ .established then return (-eNOTCONN, [], con)
    else return (-eWOULDBLOCK, [], con)
  else return (rc, stored.getD [], con)

/-- `handle_tcp` in the state ESTABLISHED. -/
def receiveEstablished (con : Connection) (segment : Segment) : Except Stop Result :=
  if has segment.flags fin then
    .ok ({ con with state := .closeWait }.tcpSendEmptyPayload ack)
  else if 0 < segment.payload.length then
    if con.incomingBuffer.unused < segment.payload.length then .ok { con }
    else do
      let (rc, incomingBuffer) ←
        con.incomingBuffer.write (segment.payload.getD · 0) segment.payload.length
      check (incomingBuffer.isempty = false)
      return { con := { con with
        incomingBuffer, rcvNxt := wrap32 (con.rcvNxt + rc), shouldSendAck := true } }
  else .ok { con }

/-- The `switch` over the state in `handle_tcp`. -/
def receiveState (con : Connection) (segment : Segment) : Except Stop Result :=
  let flags := segment.flags
  match con.state with
  | .listen =>
    if has flags syn then
      .ok ({ con with state := .synRecieved }.tcpSendEmptyPayload (syn ||| ack))
    else .ok { con }
  | .synRecieved =>
    if has flags ack then .ok { con := { con with state := .established } } else .ok { con }
  | .synSent =>
    if has flags ack && has flags syn then
      .ok ({ con with state := .established }.tcpSendEmptyPayload ack)
    else .ok { con }
  | .established => con.receiveEstablished segment
  | .finWait1 =>
    if has flags ack && has flags fin then
      .ok ({ con with state := .timeWait }.tcpSendEmptyPayload ack)
    else if has flags ack then .ok { con := { con with state := .finWait2 } }
    else if has flags fin then
      .ok ({ con with state := .closing }.tcpSendEmptyPayload ack)
    else .ok { con }
  | .lastAck =>
    if has flags ack then .ok { con := { con with state := .closed }, destroyed := true }
    else .ok { con }
  | .finWait2 =>
    if has flags fin then
      .ok { { con with state := .closed }.tcpSendEmptyPayload ack with destroyed := true }
    else .ok { con }
  | .closeWait | .closing | .timeWait | .closed => .ok { con }

/-- `handle_tcp` once the connection has been found. -/
def receive (con : Connection) (segment : Segment) : Except Stop Result :=
  let con :=
    if con.state = .listen ∨ con.state = .synSent then { con with rcvNxt := segment.seqNum }
    else con
  if con.sndMax < segment.ackNum then .ok { con }
  else if segment.ackNum < con.sndUna then .ok { con }
  else if con.rcvNxt ≠ segment.seqNum then .ok { con }
  else
    let rcvNxt := wrap32 (con.rcvNxt + if has segment.flags fin then 1 else 0)
    let rcvNxt := wrap32 (rcvNxt + if has segment.flags syn then 1 else 0)
    { con with sndWnd := segment.windowSize, sndUna := segment.ackNum, rcvNxt }.receiveState segment

/-! ## Closing -/

/-- `tcp_strip_connection` -/
def tcpStripConnection (con : Connection) : Connection :=
  { con with
    incomingBuffer := con.incomingBuffer.free
    outgoingBuffer := con.outgoingBuffer.free }

/-- `tcp_close_connection` -/
def tcpCloseConnection (con : Connection) : Result :=
  match con.state with
  | .closeWait =>
    let result := { con with state := .lastAck }.tcpSendEmptyPayload fin
    { result with con := { result.con with state := .closed }, destroyed := true }
  | .established => { con with state := .finWait1 }.tcpSendEmptyPayload (fin ||| ack)
  | .synRecieved => { con with state := .finWait1 }.tcpSendEmptyPayload fin
  | .synSent => { con := { con with state := .closed }, destroyed := true }
  | _ => { con }

/-- `tcp_close` -/
def tcpClose (con : Connection) : Except Stop Result :=
  if con.state = .closed then .ok { con }
  else if con.state = .established then do
    let (_, con, sent) ← con.tcpSyncBuffer
    let result := con.tcpStripConnection.tcpCloseConnection
    return { result with sent := sent ++ result.sent }
  else .ok con.tcpCloseConnection

/-- One turn of `tcp_flush_buffers`. -/
def tcpFlushBuffer (con : Connection) : Except Stop Result :=
  match con.state with
  | .timeWait | .finWait2 => .ok { con := { con with state := .closed }, destroyed := true }
  | .established => do
    let (_, con, sent) ← con.tcpSyncBuffer
    return { con, sent }
  | _ => .ok { con }

/-- One turn of `tcp_flush_acks`. -/
def tcpFlushAck (con : Connection) : Result :=
  if con.state = .closed then { con }
  else if con.shouldSendAck = false then { con }
  else { con with shouldSendAck := false }.tcpSendEmptyPayload ack

end Connection

/-! ## Opening -/

namespace Connection

/-- The connection that `tcp_create_fd` makes for a new socket. -/
def tcpCreateFd : Connection where
  state := .closed
  incomingPort := 0
  incomingIp := 0
  outgoingIp := 0
  outgoingPort := 0
  incomingBuffer := ⟨Bytes.zeros, 0, 0, 0⟩
  outgoingBuffer := ⟨Bytes.zeros, 0, 0, 0⟩
  noDelay := false
  rcvWnd := 0
  rcvNxt := 0
  shouldSendAck := false
  sndUna := 0
  sndNxt := 0
  sndMax := 0
  sndWnd := 0

/-- `bind` on a TCP socket -/
def bind (con : Connection) (port : Nat) : Connection :=
  { con with incomingPort := port, state := .listen }

/-- `new_connection` of `tcp_connect_to_listen`, for a SYN to the listening connection. It and
its buffers are new memory, and `should_send_ack` stays what that holds. -/
def newConnection (listening : Connection) (srcIp srcPort : Nat) (incoming outgoing : Bytes)
    (shouldSendAck : Bool) : Connection where
  state := .listen
  incomingPort := listening.incomingPort
  incomingIp := listening.incomingIp
  outgoingIp := srcIp
  outgoingPort := srcPort
  incomingBuffer := (Ringbuffer.init (some incoming) (65535 * 64)).2
  outgoingBuffer := (Ringbuffer.init (some outgoing) 8192).2
  noDelay := listening.noDelay
  rcvWnd := 65535
  rcvNxt := 0
  shouldSendAck := shouldSendAck
  sndUna := 0
  sndNxt := 0
  sndMax := 0
  sndWnd := 0

/-- `tcp_connect` up to its wait for the answer, from the port that `tcp_find_free_port` has
returned. There is memory for the buffers. -/
def tcpConnect (con : Connection) (port outgoingIp outgoingPort : Nat) (incoming outgoing : Bytes) :
    Result :=
  let outgoingBuffer := (Ringbuffer.init (some outgoing) 8192).2
  { con with
    state := .synSent
    incomingPort := port
    outgoingIp
    outgoingPort
    incomingBuffer := (Ringbuffer.init (some incoming) (65535 * 64)).2
    outgoingBuffer
    rcvWnd := 65535
    rcvNxt := 0
    sndUna := 0
    sndNxt := 0
    sndMax := 0
    sndWnd := outgoingBuffer.unused : Connection }.tcpSendEmptyPayload syn

/-- A connection for a SYN from port 5000 to the listening port 80. -/
def served : Connection :=
  (tcpCreateFd.bind 80).newConnection 1 5000 Bytes.zeros Bytes.zeros false

/-- The served connection after the handshake. -/
def greeted (noDelay : Bool) (sndWnd : Nat) : Connection :=
  { served with
    state := .established, noDelay, rcvNxt := 8, sndUna := 1, sndNxt := 1, sndMax := 1, sndWnd }

end Connection

/-! ## What happens to a connection -/

/-- A segment for the connection, a call of the application or a turn of the timer. -/
inductive Event where
  | segment (segment : Segment)
  | read (len : Nat)
  | write (buffer : List UInt8)
  | flush
  | flushAck
  /-- `setsockopt` with `TCP_NODELAY` -/
  | setNoDelay (value : Bool)
  | close

/-- The value that a call returns, and the bytes that `tcp_read` stores. -/
structure Outcome extends Result where
  rc : Int := 0
  bytes : List UInt8 := []

def Connection.step (con : Connection) : Event → Except Stop Outcome
  | .segment segment => do
    let result ← con.receive segment
    return { toResult := result }
  | .read len => do
    let (rc, bytes, con) ← con.tcpRead len
    return { con, rc, bytes }
  | .write buffer => do
    let (rc, con, sent) ← con.tcpWrite buffer
    return { con, sent, rc }
  | .flush => do
    let result ← con.tcpFlushBuffer
    return { toResult := result }
  | .flushAck => .ok { toResult := con.tcpFlushAck }
  | .setNoDelay value => .ok { con := { con with noDelay := value } }
  | .close => do
    let result ← con.tcpClose
    return { toResult := result }

/-- What has happened to a connection, with the outcomes. -/
abbrev Trace := List (Event × Outcome)

namespace Connection

/-- The runs in which every event is `allowed` in the state it finds. -/
inductive Runs (allowed : Connection → Event → Prop) (start : Connection) :
    Trace → Connection → Prop where
  | start : Runs allowed start [] start
  | step (before : Runs allowed start trace con) (permitted : allowed con event)
    (returned : con.step event = .ok outcome) :
    Runs allowed start (trace ++ [(event, outcome)]) outcome.con

/-- The run of given events. -/
def run (con : Connection) (trace : Trace) : List Event → Except Stop (Trace × Connection)
  | [] => .ok (trace, con)
  | event :: events => do
    let outcome ← con.step event
    run outcome.con (trace ++ [(event, outcome)]) events

theorem Runs.run {start con : Connection} (before : Runs allowed start trace con)
    (permitted : ∀ event ∈ events, ∀ con, allowed con event)
    (returned : con.run trace events = .ok (trace', con')) : Runs allowed start trace' con' := by
  induction events generalizing trace con with
  | nil =>
    cases returned
    exact before
  | cons event events ih =>
    obtain ⟨outcome, ran, returned⟩ := of_ok_then returned
    exact ih (before.step (permitted event List.mem_cons_self con) ran)
      (fun later present => permitted later (List.mem_cons_of_mem _ present)) returned

end Connection
end SbOS.Net
