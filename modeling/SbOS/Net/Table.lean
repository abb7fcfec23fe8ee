import SbOS.Kernel.Relist
import SbOS.Net.Connection

/-! The open TCP connections (`open_tcp_connections` of `kernel/socket.c`) and what looks
through them. The list holds pointers; a connection is made for every SYN to a listening port,
and `tcp_find_connection` is given the address of the sender but does not look at it. -/
namespace SbOS.Net
open Kernel

structure Table where
  connections : Relist Nat
  memory : Nat → Option Connection
  /-- `incoming_connections` of the connections that have set it up -/
  incoming : Nat → Option (Relist Nat)

/-- Memory for a connection and its buffers. -/
structure Fresh where
  address : Nat
  incoming : Bytes
  outgoing : Bytes
  shouldSendAck : Bool

namespace Table

def put (table : Table) (address : Nat) (con : Connection) : Table :=
  { table with memory := Function.update table.memory address (some con) }

/-- The loop that all of these functions have: the first open connection that is `wanted`, from
the slots left on. -/
def search (table : Table) (wanted : Connection → Bool) : List Nat → Except Stop (Option Nat)
  | [] => .ok none
  | i :: rest =>
    match table.connections.lookup i with
    | none => table.search wanted rest
    | some address =>
      match table.memory address with
      | none => .error .dangling
      | some con => if wanted con then .ok (some address) else table.search wanted rest

def find (table : Table) (wanted : Connection → Bool) : Except Stop (Option Nat) :=
  table.search wanted (List.range table.connections.slots)

/-- `tcp_find_connection` -/
def tcpFindConnection (table : Table) (srcPort dstPort : Nat) : Except Stop (Option Nat) :=
  table.find fun c =>
    c.state ≠ .closed && (c.incomingPort = dstPort && c.outgoingPort = srcPort)

/-- `tcp_connect_to_listen` -/
def tcpConnectToListen (table : Table) (srcIp srcPort dstPort : Nat) (new : Fresh) :
    Except Stop (Option Nat × Table) := do
  match ← table.find fun c => c.state = .listen && c.incomingPort = dstPort with
  | none => return (none, table)
  | some address =>
    match table.memory address, table.incoming address with
    | some c, some waiting =>
      let con := c.newConnection srcIp srcPort new.incoming new.outgoing new.shouldSendAck
      let (_, connections) ← table.connections.add new.address
      let (_, waiting) ← waiting.add new.address
      let incoming := Function.update table.incoming new.address none
      return (some new.address, { table.put new.address con with
        connections
        incoming := Function.update incoming address (some waiting) })
    | _, _ => .error .dangling

/-- `tcp_remove_connection` -/
def tcpRemoveConnection (table : Table) (address : Nat) : Except Stop Table :=
  match (List.range table.connections.slots).find?
    (fun i => table.connections.lookup i = some address) with
  | none => .ok table
  | some i => do
    let connections ← table.connections.remove i
    return {
      connections
      memory := Function.update table.memory address none
      incoming := Function.update table.incoming address none }

/-- What a call leaves of a connection; `tcp_destroy_connection` takes it out of the list. -/
def store (table : Table) (address : Nat) (result : Result) : Except Stop Table :=
  let table := table.put address result.con
  if result.destroyed then table.tcpRemoveConnection address else .ok table

/-- The rest of `handle_tcp`, with the connection. -/
def deliver (table : Table) (address : Nat) (segment : Segment) : Except Stop Table :=
  match table.memory address with
  | none => .error .dangling
  | some con => do
    let result ← con.receive segment
    table.store address result

/-- `handle_tcp` with a segment whose checksum is right. -/
def handleTcp (table : Table) (srcIp : Nat) (segment : Segment) (new : Fresh) :
    Except Stop Table :=
  if segment.flags = syn then do
    match ← table.tcpConnectToListen srcIp segment.srcPort segment.dstPort new with
    | (none, table) => return table
    | (some address, table) => table.deliver address segment
  else do
    match ← table.tcpFindConnection segment.srcPort segment.dstPort with
    | none => return table
    | some address => table.deliver address segment

/-- `tcp_find_free_port` with calls nested at most `depth` deep. -/
def tcpFindFreePort (table : Table) : (depth : Nat) → (suggestion : Nat) → Except Stop Nat
  | 0, _ => .error .diverged
  | depth + 1, suggestion => do
    match ← table.find fun c => c.incomingPort = suggestion with
    | none => return suggestion
    | some _ => table.tcpFindFreePort depth ((suggestion + 1) % 2 ^ 16)

/-- `tcp_connect` up to its wait for the answer. Before the search for a port comes round to a
port again, all of them have been tried. -/
def tcpConnect (table : Table) (address ip port : Nat) (incoming outgoing : Bytes) :
    Except Stop Table :=
  match table.memory address with
  | none => .error .dangling
  | some con => do
    let free ← table.tcpFindFreePort (2 ^ 16) 1337
    let (_, connections) ← table.connections.add address
    return { table.put address (con.tcpConnect free ip port incoming outgoing).con with
      connections }

/-- `bind` on a TCP socket -/
def bind (table : Table) (address port : Nat) : Except Stop Table :=
  match table.memory address with
  | none => .error .dangling
  | some con => do
    let (_, connections) ← table.connections.add address
    return { table.put address (con.bind port) with
      connections
      incoming := Function.update table.incoming address (some ⟨fun _ => 0, [0]⟩) }

/-- A call of the application on a connection, or a turn of the timer. -/
def call (table : Table) (address : Nat) (event : Event) : Except Stop Table :=
  match table.memory address with
  | none => .error .dangling
  | some con => do
    let outcome ← con.step event
    table.store address outcome.toResult

end Table

/-- What happens to the table. -/
inductive Action where
  | arrives (srcIp : Nat) (segment : Segment) (new : Fresh)
  | socket (address : Nat)
  | bind (address port : Nat)
  | connect (address ip port : Nat) (incoming outgoing : Bytes)
  | call (address : Nat) (event : Event)

def Table.act (table : Table) : Action → Except Stop Table
  | .arrives srcIp segment new => table.handleTcp srcIp segment new
  | .socket address => .ok (table.put address .tcpCreateFd)
  | .bind address port => table.bind address port
  | .connect address ip port incoming outgoing => table.tcpConnect address ip port incoming outgoing
  | .call address event => table.call address event

/-- The tables reached by actions that are `allowed` where they happen. -/
inductive Table.Reached (allowed : Table → Action → Prop) (start : Table) : Table → Prop where
  | start : Reached allowed start start
  | step (before : Reached allowed start table) (permitted : allowed table action)
    (returned : table.act action = .ok table') : Reached allowed start table'

/-- The table after given actions. -/
def Table.run (table : Table) : List Action → Except Stop Table
  | [] => .ok table
  | action :: actions => do
    let table ← table.act action
    table.run actions

theorem Table.Reached.run {start table : Table} (before : Reached (fun _ _ => True) start table)
    (returned : table.run actions = .ok table') : Reached (fun _ _ => True) start table' := by
  induction actions generalizing table with
  | nil =>
    cases returned
    exact before
  | cons action actions ih =>
    obtain ⟨between, ran, returned⟩ := of_ok_then returned
    exact ih (before.step trivial ran) returned

end SbOS.Net
