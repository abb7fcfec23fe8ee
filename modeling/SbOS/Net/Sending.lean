import SbOS.Net.Arp
import SbOS.Net.Checksum

/-! Sending a datagram. `udp_write` cuts its length to 16 bits, and every layer below copies what
it gets behind a header of its own into a buffer of 0x1000 bytes. -/
namespace SbOS.Net.Sending
open Kernel Checksum Except

/-- The addresses of the machine, the ARP tables that `get_mac_from_ip` finds before and after its
request, call by call for as long as the table changes, and what `handle_ethernet` does with the
bytes left in a buffer of the card. -/
structure Network where
  host : Arp.Host
  tables : List (Arp.ArpTable × Arp.ArpTable)
  handled : Except Stop Unit

abbrev Packets := List (List UInt8)

/-- A copy to the first `n` bytes of a buffer. -/
def fits (n : Nat) : Except Stop Unit := if n ≤ 0x1000 then .ok () else .error .overrun

/-- `send_ethernet_packet`, with the packets that the card gets. A packet to the machine itself
is put together in one buffer and handled from another. -/
def sendEthernetPacket (net : Network) (mac : BitVec 48) (payload : List UInt8) :
    Except Stop Packets := do
  check (14 + payload.length + 4 < 0x1000)
  if mac = net.host.macAddress then do
    net.handled
    return []
  else return [payload]

def ipChecksum (data : List Nat) : Nat :=
  let add acc word :=
    let acc := acc + ntohs word
    if 0xffff < acc then acc - 0xffff else acc
  ntohs (2 ^ 16 - 1 - data.foldl add 0xffff % 2 ^ 16)

/-- The packet that `send_ipv4_packet` puts together. -/
def ipv4Packet (ipAddress ip protocol : Nat) (payload : List UInt8) : List UInt8 :=
  let header checksum := [4 * 16 + 5, ntohs ((payload.length + 20) % 2 ^ 16), 0, 0,
    protocol * 256 + 0xF8, checksum, ipAddress % 2 ^ 16, ipAddress / 2 ^ 16 % 2 ^ 16, ip % 2 ^ 16,
    ip / 2 ^ 16 % 2 ^ 16]
  (header (ipChecksum (header 0))).flatMap inMemory ++ payload

def ntohl (net : Nat) : Nat := ntohs (net % 2 ^ 16) * 2 ^ 16 + ntohs (net / 2 ^ 16 % 2 ^ 16)

/-- The first answer that the calls of `get_mac_from_ip` give. -/
def Network.mac (net : Network) (ip : Nat) : Option (BitVec 48) :=
  net.tables.findSome? fun (table, later) =>
    (Arp.getMacFromIp net.host table later (.ofNat (ntohl ip))).2

/-- `send_ipv4_packet`, which waits in a loop for the hardware address. -/
def sendIpv4Packet (net : Network) (ip protocol : Nat) (payload : List UInt8) :
    Except Stop Packets := do
  check ((payload.length + 20) % 2 ^ 16 < 0x1000)
  fits (20 + payload.length)
  match net.mac ip with
  | none => .error .diverged
  | some mac =>
    sendEthernetPacket net mac (ipv4Packet (ntohl net.host.ipAddress.toNat) ip protocol payload)

/-- The packet that `send_udp_packet` puts together. -/
def udpPacket (srcPort dstPort : Nat) (payload : List UInt8) : List UInt8 :=
  [srcPort, dstPort, ntohs ((payload.length + 8) % 2 ^ 16), 0].flatMap inMemory ++ payload

def sendUdpPacket (net : Network) (srcPort dstPort ip : Nat) (payload : List UInt8) :
    Except Stop Packets := do
  fits (8 + payload.length)
  sendIpv4Packet net ip 0x11 (udpPacket srcPort dstPort payload)

/-- `udp_write`, with the packets sent. -/
def udpWrite (net : Network) (con : UdpConnection) (outgoingIp : Nat) (buffer : List UInt8) :
    Except Stop (Int × Packets) :=
  if con.dead then .ok (-eBADF, [])
  else do
    let sent ← sendUdpPacket net (ntohs con.incomingPort) (ntohs con.outgoingPort) outgoingIp
      (buffer.take (buffer.length % 2 ^ 16))
    return (toInt buffer.length, sent)

/-- The number at `pos` of a packet. -/
def field (packet : List UInt8) (pos : Nat) : Nat :=
  (packet.getD pos 0).toNat * 256 + (packet.getD (pos + 1) 0).toNat

/-- An error number is returned and nothing sent, or the length is returned and one packet sent
whose lengths and payload are those of the bytes. -/
def AllOrNothing (buffer : List UInt8) (written : Except Stop (Int × Packets)) : Prop :=
  (∃ rc, -4096 < rc ∧ rc < 0 ∧ written = .ok (rc, [])) ∨
    ∃ packet, written = .ok (↑buffer.length, [packet]) ∧ field packet 2 = buffer.length + 28 ∧
      field packet 24 = buffer.length + 8 ∧ packet.drop 28 = buffer

theorem inMemory_ntohs (small : n < 2 ^ 16) :
    (UInt8.ofNat (ntohs n)).toNat * 256 + (UInt8.ofNat (ntohs n / 256)).toNat = n := by
  rw [UInt8.toNat_ofNat', UInt8.toNat_ofNat']
  have upper : ntohs n % 256 = n / 256 := by
    unfold ntohs
    omega
  have lower : ntohs n / 256 = n % 256 := by
    unfold ntohs
    omega
  omega

/-- The layers pass on at most 4049 bytes, once there is a hardware address. -/
theorem sendUdpPacket_ok_iff : sendUdpPacket net srcPort dstPort ip payload = .ok sent ↔
    payload.length ≤ 4049 ∧ ∃ mac, net.mac ip = some mac ∧
      if mac = net.host.macAddress then net.handled = .ok () ∧ sent = []
      else sent = [ipv4Packet (ntohl net.host.ipAddress.toNat) ip 0x11
        (udpPacket srcPort dstPort payload)] := by
  have inner : (udpPacket srcPort dstPort payload).length = payload.length + 8 := rfl
  have outer : (ipv4Packet (ntohl net.host.ipAddress.toNat) ip 0x11
    (udpPacket srcPort dstPort payload)).length = payload.length + 28 := rfl
  unfold sendUdpPacket sendIpv4Packet sendEthernetPacket
  cases answer : net.mac ip with
  | none =>
    refine iff_of_false (fun ran => ?_) ?_
    · obtain ⟨_, -, ran⟩ := of_ok_then ran
      obtain ⟨-, ran⟩ := of_check_then ran
      obtain ⟨_, -, ran⟩ := of_ok_then ran
      cases ran
    · rintro ⟨-, _, ⟨⟩, -⟩
  | some mac =>
    simp only [Option.some_inj, exists_eq_left']
    by_cases small : payload.length ≤ 4049
    · rw [and_iff_right small, inner, outer, fits, if_pos (by omega), ok_then,
        check_true (by omega), ok_then, fits, if_pos (by omega), ok_then, check_true (by omega),
        ok_then]
      split
      · cases net.handled with
        | ok value => exact ⟨fun same => ⟨rfl, (ok.inj same).symm⟩, fun both => both.2 ▸ rfl⟩
        | error stop =>
          refine iff_of_false (fun ran => ?_) fun both => ?_
          · cases ran
          · cases both.1
      · exact ⟨fun same => (ok.inj same).symm, fun same => same ▸ rfl⟩
    · refine iff_of_false (fun ran => small ?_) fun both => small both.1
      obtain ⟨_, -, ran⟩ := of_ok_then ran
      obtain ⟨-, ran⟩ := of_check_then ran
      obtain ⟨_, -, ran⟩ := of_ok_then ran
      have bound := (of_check_then ran).1
      omega

/-- `udp_write` is all or nothing for a socket that is dead, and for at most 4049 bytes to another
machine whose hardware address is found. -/
theorem udp_write_all_or_nothing_iff (net : Network) (con : UdpConnection) (outgoingIp : Nat)
    (buffer : List UInt8) : AllOrNothing buffer (udpWrite net con outgoingIp buffer) ↔
      con.dead = true ∨ buffer.length ≤ 4049 ∧
        ∃ mac, net.mac outgoingIp = some mac ∧ mac ≠ net.host.macAddress := by
  unfold udpWrite
  by_cases dead : con.dead = true
  · rw [if_pos dead]
    exact iff_of_true (.inl ⟨-eBADF, by decide, by decide, rfl⟩) (.inl dead)
  rw [if_neg dead, or_iff_right dead]
  constructor
  · rintro (⟨rc, low, negative, ran⟩ | ⟨packet, ran, -, -, payload⟩)
    · obtain ⟨sent, ran, returned⟩ := of_ok_then ran
      obtain ⟨bound, -⟩ := sendUdpPacket_ok_iff.mp ran
      rw [List.length_take, Nat.min_eq_left (Nat.mod_le _ _)] at bound
      have same : toInt buffer.length = rc := congrArg Prod.fst (ok.inj returned)
      unfold toInt at same
      split at same <;> omega
    · obtain ⟨sent, ran, returned⟩ := of_ok_then ran
      obtain ⟨bound, mac, answer, outcome⟩ := sendUdpPacket_ok_iff.mp ran
      obtain rfl : sent = [packet] := congrArg Prod.snd (ok.inj returned)
      split at outcome
      · cases outcome.2
      · rename_i other
        cases outcome
        change buffer.take _ = buffer at payload
        rw [payload] at bound
        exact ⟨bound, mac, answer, other⟩
  · rintro ⟨bound, mac, answer, other⟩
    rw [Nat.mod_eq_of_lt (by omega), List.take_length,
      sendUdpPacket_ok_iff.mpr ⟨bound, mac, answer, by rw [if_neg other]⟩, ok_then,
      toInt_of_lt (by omega)]
    refine .inr ⟨_, rfl, (inMemory_ntohs (Nat.mod_lt _ (by omega))).trans ?_,
      (inMemory_ntohs (Nat.mod_lt _ (by omega))).trans (Nat.mod_eq_of_lt (by omega)), rfl⟩
    exact Nat.mod_eq_of_lt (show buffer.length + 28 < 2 ^ 16 by omega)

/-- A network with one peer, 10.0.0.1, in the table. -/
def onePeer : Network where
  host := ⟨0x0A000002, 1, 0x0A000001, 0xFFFFFF00⟩
  tables := [(fun _ => ⟨true, 2, 0x0A000001⟩, .zero)]
  handled := .ok ()

/-- A datagram of 4050 bytes stops the kernel. -/
theorem large_datagram_is_not_sent : ¬ AllOrNothing (List.replicate 4050 0)
    (udpWrite onePeer (udpConnect 53 Bytes.zeros) 0x0100000A (List.replicate 4050 0)) := by
  rintro (⟨rc, -, -, ran⟩ | ⟨packet, ran, -⟩)
  all_goals
    obtain ⟨sent, ran, -⟩ := of_ok_then ran
    have bound := (sendUdpPacket_ok_iff.mp ran).1
    rw [List.length_take, List.length_replicate] at bound
    omega

end SbOS.Net.Sending
