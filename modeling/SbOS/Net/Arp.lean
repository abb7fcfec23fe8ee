import Mathlib.Logic.Function.Basic
import SbOS.Kernel.Stop

/-! The ARP table. `handle_arp` stores the sender of a message in the first entry that is not
used, or else in the first one, and does not look whether the sender has an entry already;
`get_mac_from_ip` takes the first entry with the address. -/
namespace SbOS.Net.Arp
open Kernel Function

/-- `struct ARP_DATA`, with its numbers in the byte order of the machine. -/
structure ArpData where
  htype : UInt16 := 1
  ptype : UInt16 := 0x0800
  hlen : UInt8 := 6
  plen : UInt8 := 4
  opcode : UInt16
  srchw : BitVec 48
  srcpr : UInt32
  dsthw : BitVec 48
  dstpr : UInt32

/-- `struct ARP_TABLE_ENTRY` -/
structure ArpTableEntry where
  isUsed : Bool
  mac : BitVec 48
  ip : UInt32

/-- `arp_table` -/
def ArpTable := Fin 10 → ArpTableEntry

/-- `arp_table` as it is initialised. -/
def ArpTable.zero : ArpTable := fun _ => ⟨false, 0, 0⟩

/-- The addresses of the machine and its network. -/
structure Host where
  ipAddress : UInt32
  macAddress : BitVec 48
  gateway : UInt32
  bitmask : UInt32

/-- `find_arp_entry_to_use` -/
def findArpEntryToUse (table : ArpTable) : Fin 10 :=
  ((List.finRange 10).find? fun i => !(table i).isUsed).getD 0

/-- The sender of a message is stored. -/
def ArpTable.store (table : ArpTable) (data : ArpData) : ArpTable :=
  Function.update table (findArpEntryToUse table) ⟨true, data.srchw, data.srcpr⟩

/-- `handle_arp`, with the response that it sends. -/
def handleArp (host : Host) (table : ArpTable) (data : ArpData) :
    Except Stop (ArpTable × Option ArpData) := do
  check (data.htype = 1)
  check (data.ptype = 0x0800)
  check (data.hlen = 6)
  check (data.plen = 4)
  if data.opcode = 1 then
    let table := table.store data
    check (data.dstpr = host.ipAddress)
    return (table, some {
      opcode := 2, srchw := host.macAddress, srcpr := host.ipAddress
      dsthw := data.srchw, dstpr := data.srcpr })
  else if data.opcode = 2 then return (table.store data, none)
  else .error .assertion

/-- `ip_inside_network` -/
def Host.ipInsideNetwork (host : Host) (ip : UInt32) : Bool :=
  ip &&& host.bitmask = host.gateway &&& host.bitmask

/-- The loop over the table in `get_mac_from_ip`. -/
def ArpTable.search (table : ArpTable) (ip : UInt32) : Option (BitVec 48) :=
  ((List.finRange 10).find? fun i => (table i).ip = ip).map fun i => (table i).mac

/-- `get_mac_from_ip`: the address that a request is sent for, and the answer. The table is
`later` when the request has been sent and interrupts are enabled. -/
def getMacFromIp (host : Host) (table later : ArpTable) (ip : UInt32) :
    Option UInt32 × Option (BitVec 48) :=
  if 2130706433 = ip ∨ host.ipAddress = ip then (none, some host.macAddress)
  else if _ : host.ipInsideNetwork ip = false then
    getMacFromIp host table later host.gateway
  else match table.search ip with
    | some mac => (none, some mac)
    | none => (some ip, later.search ip)
termination_by if host.ipInsideNetwork ip then 0 else 1
decreasing_by
  have inside : host.ipInsideNetwork host.gateway = true := decide_eq_true rfl
  rw [inside, ‹host.ipInsideNetwork ip = false›]
  exact Nat.one_pos

/-- The hardware address in the newest message from an address; the messages are in the order
of their age. -/
def latest (ip : UInt32) (received : List ArpData) : Option (BitVec 48) :=
  (received.find? fun data => data.srcpr = ip).map (·.srchw)

/-- The messages received, newest first, have led to the table. -/
inductive Received (host : Host) (Meets : ArpTable → ArpData → Prop) :
    List ArpData → ArpTable → Prop where
  | start : Received host Meets [] .zero
  | step (before : Received host Meets received table) (meets : Meets table data)
    (ran : handleArp host table data = .ok (table', response)) :
    Received host Meets (data :: received) table'

/-- The entries of a sender of the network other than the one that is overwritten hold its hardware
address already. -/
def Host.Current (host : Host) (table : ArpTable) (data : ArpData) : Prop :=
  host.ipInsideNetwork data.srcpr = true → ∀ i ≠ findArpEntryToUse table,
    (table i).ip = data.srcpr → (table i).mac = data.srchw

theorem handleArp_ok (returned : handleArp host table data = .ok (table', response)) :
    table' = table.store data := by
  obtain ⟨-, returned⟩ := of_check_then returned
  obtain ⟨-, returned⟩ := of_check_then returned
  obtain ⟨-, returned⟩ := of_check_then returned
  obtain ⟨-, returned⟩ := of_check_then returned
  split at returned
  · obtain ⟨-, returned⟩ := of_check_then returned
    cases returned
    rfl
  split at returned
  · cases returned
    rfl
  · cases returned

/-- Every entry for an address of the network holds what the newest message from it says. -/
def Host.Fresh (host : Host) (received : List ArpData) (table : ArpTable) : Prop :=
  ∀ i, host.ipInsideNetwork (table i).ip = true →
    latest (table i).ip received = some (table i).mac

theorem latest_self (data : ArpData) (received : List ArpData) :
    latest data.srcpr (data :: received) = some data.srchw := by
  unfold latest
  rw [List.find?_cons_of_pos (by exact decide_eq_true rfl)]
  rfl

theorem Host.Fresh.store {host : Host} (fresh : host.Fresh received table)
    (current : host.Current table data) : host.Fresh (data :: received) (table.store data) := by
  intro i
  by_cases slot : i = findArpEntryToUse table
  · have here : table.store data i = ⟨true, data.srchw, data.srcpr⟩ := by
      rw [slot]
      exact update_self ..
    rw [here]
    exact fun _ => latest_self data received
  · have kept : table.store data i = table i := update_of_ne slot _ _
    rw [kept]
    intro inside
    by_cases same : (table i).ip = data.srcpr
    · rw [same] at inside
      rw [same, current inside i slot same]
      exact latest_self data received
    · unfold latest
      rw [List.find?_cons_of_neg (by simpa using Ne.symm same)]
      exact fresh i inside

theorem Received.fresh {host : Host} (real : host.ipInsideNetwork 0 = false)
    (run : Received host host.Current received table) : host.Fresh received table := by
  induction run with
  | start => exact fun _ inside => absurd inside (Bool.eq_false_iff.mp real)
  | step before current ran ih =>
    rw [handleArp_ok ran]
    exact ih.store current

theorem search_some {table : ArpTable} (found : table.search ip = some mac) :
    ∃ i, (table i).ip = ip ∧ (table i).mac = mac := by
  obtain ⟨i, first, same⟩ := Option.map_eq_some_iff.mp found
  have wanted := List.find?_some first
  exact ⟨i, of_decide_eq_true wanted, same⟩

/-- In a network without the address 0.0.0.0 an answer without a request is the newest one, if
no message leaves an entry with another hardware address of its sender behind. -/
theorem answer_is_latest_when_current {host : Host} (real : host.ipInsideNetwork 0 = false)
    (run : Received host host.Current received table) (inside : host.ipInsideNetwork ip = true)
    (other : ¬ (2130706433 = ip ∨ host.ipAddress = ip))
    (answered : getMacFromIp host table later ip = (none, some mac)) :
    latest ip received = some mac := by
  rw [getMacFromIp, if_neg other, dif_neg (by rw [inside]; decide)] at answered
  split at answered
  · rename_i found
    cases answered
    obtain ⟨i, rfl, rfl⟩ := search_some found
    exact run.fresh real i inside
  · cases answered

/-- A machine at 10.0.0.2 behind 10.0.0.1. -/
def host : Host := ⟨0x0A000002, 0x22, 0x0A000001, 0xFFFFFF00⟩

/-- A reply from the gateway. -/
def reply (mac : BitVec 48) : ArpData :=
  { opcode := 2, srchw := mac, srcpr := 0x0A000001, dsthw := 0x22, dstpr := 0x0A000002 }

/-- A reply from another machine. -/
def neighbour : ArpData := { reply 8 with srcpr := 0x0A000003 }

def twoReplies : ArpTable := (ArpTable.zero.store (reply 7)).store neighbour

theorem answer_is_latest_after_two :
    Received host host.Current [neighbour, reply 7] twoReplies ∧
      latest 0x0A000001 [neighbour, reply 7] = some 7 ∧
      latest 0x0A000003 [neighbour, reply 7] = some 8 := by
  have run : Received host host.Current [neighbour, reply 7] twoReplies :=
    .step (.step .start (by unfold Host.Current; decide) rfl) (by unfold Host.Current; decide) rfl
  have gateway : getMacFromIp host twoReplies twoReplies 0x0A000001 = (none, some 7) := by
    rw [getMacFromIp, if_neg (by decide), dif_neg (by decide)]
    rfl
  have other : getMacFromIp host twoReplies twoReplies 0x0A000003 = (none, some 8) := by
    rw [getMacFromIp, if_neg (by decide), dif_neg (by decide)]
    rfl
  exact ⟨run, answer_is_latest_when_current (by decide) run (by decide) (by decide) gateway,
    answer_is_latest_when_current (by decide) run (by decide) (by decide) other⟩

/-- The gateway has answered twice, and the first answer is given. -/
theorem first_answer_stays :
    ∃ table, Received host (fun _ _ => True) [reply 9, reply 7] table ∧
      host.ipInsideNetwork 0x0A000001 = true ∧
      getMacFromIp host table table 0x0A000001 = (none, some 7) ∧
      latest 0x0A000001 [reply 9, reply 7] = some 9 := by
  refine ⟨(ArpTable.zero.store (reply 7)).store (reply 9),
    .step (.step .start trivial rfl) trivial rfl, by decide, ?_, rfl⟩
  rw [getMacFromIp, if_neg (by decide), dif_neg (by decide)]
  rfl

end SbOS.Net.Arp
