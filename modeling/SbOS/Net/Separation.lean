import SbOS.Net.Established
import SbOS.Net.Table

/-! Which connections a segment reaches. Every action on the table changes one connection;
whether that is the right one depends on the address of the sender, which
`tcp_find_connection` ignores, and on the SYNs for which connections have been made already. -/
namespace SbOS.Net
open Kernel Function List Option

namespace Connection

/-- Neither LISTEN nor CLOSED. -/
def Active (con : Connection) : Prop := con.state ≠ .listen ∧ con.state ≠ .closed

/-- The same local port, remote port and remote address. -/
structure SameEnds (con con' : Connection) : Prop where
  incomingPort : con'.incomingPort = con.incomingPort
  outgoingPort : con'.outgoingPort = con.outgoingPort
  outgoingIp : con'.outgoingIp = con.outgoingIp

/-- The ports and the address are those of a segment from `srcIp`. -/
structure Joins (con : Connection) (srcIp : Nat) (segment : Segment) : Prop where
  incomingPort : con.incomingPort = segment.dstPort
  outgoingPort : con.outgoingPort = segment.srcPort
  outgoingIp : con.outgoingIp = srcIp

variable {con con' : Connection} {segment : Segment} {result : Result}

theorem SameEnds.refl (con : Connection) : SameEnds con con := ⟨rfl, rfl, rfl⟩

theorem SameEnds.trans (first : SameEnds con con') (second : SameEnds con' con'') :
    SameEnds con con'' :=
  ⟨second.incomingPort.trans first.incomingPort, second.outgoingPort.trans first.outgoingPort,
    second.outgoingIp.trans first.outgoingIp⟩

theorem Joins.of_ends (joins : con.Joins srcIp segment) (ends : SameEnds con con') :
    con'.Joins srcIp segment :=
  ⟨ends.incomingPort.trans joins.incomingPort, ends.outgoingPort.trans joins.outgoingPort,
    ends.outgoingIp.trans joins.outgoingIp⟩

/-- The connection keeps its ends and does not become active. -/
structure Continues (con con' : Connection) : Prop where
  ends : SameEnds con con'
  active : con'.Active → con.Active

theorem Continues.refl (con : Connection) : Continues con con := ⟨.refl con, id⟩

theorem Continues.trans (first : Continues con con') (second : Continues con' con'') :
    Continues con con'' :=
  ⟨first.ends.trans second.ends, first.active ∘ second.active⟩

theorem Draining.continues (draining : Draining con con') : Continues con con' := by
  obtain ⟨_, _, _, _, rfl⟩ := draining.same
  exact ⟨⟨rfl, rfl, rfl⟩, id⟩

theorem Continues.closed (con : Connection) : Continues con { con with state := .closed } :=
  ⟨⟨rfl, rfl, rfl⟩, fun wrong => absurd rfl wrong.2⟩

theorem Continues.move (active : con.Active) (ends : SameEnds con con') : Continues con con' :=
  ⟨ends, fun _ => active⟩

theorem active_of {state : State} (same : con.state = state)
    (known : state ≠ .listen ∧ state ≠ .closed) : con.Active := by
  unfold Active
  rw [same]
  exact known

theorem tcpCloseConnection_continues (con : Connection) :
    Continues con con.tcpCloseConnection.con := by
  unfold tcpCloseConnection
  split
  · exact ⟨⟨rfl, rfl, rfl⟩, fun wrong => absurd rfl wrong.2⟩
  · exact .move (active_of ‹_› (by decide)) ⟨rfl, rfl, rfl⟩
  · exact .move (active_of ‹_› (by decide)) ⟨rfl, rfl, rfl⟩
  · exact .closed con
  · exact .refl con

theorem step_continues (plain : ∀ segment, event ≠ .segment segment)
    (returned : con.step event = .ok outcome) : Continues con outcome.con := by
  cases event with
  | segment segment => exact absurd rfl (plain segment)
  | read len =>
    obtain ⟨⟨rc, bytes, con'⟩, ran, returned⟩ := of_ok_then returned
    cases returned
    obtain ⟨_, rfl⟩ := tcpRead_frame ran
    exact ⟨⟨rfl, rfl, rfl⟩, id⟩
  | write buffer =>
    obtain ⟨⟨rc, con', sent⟩, ran, returned⟩ := of_ok_then returned
    cases returned
    exact (tcpWrite_draining ran).continues
  | flush =>
    obtain ⟨result, ran, returned⟩ := of_ok_then returned
    cases returned
    unfold tcpFlushBuffer at ran
    split at ran
    · cases ran
      exact .closed con
    · cases ran
      exact .closed con
    · obtain ⟨⟨synced, con', sent⟩, flushed, returned⟩ := of_ok_then ran
      cases returned
      exact (tcpSyncBuffer_draining flushed).continues
    · cases ran
      exact .refl con
  | flushAck =>
    cases returned
    unfold tcpFlushAck
    split
    · exact .refl con
    split
    · exact .refl con
    · exact ⟨⟨rfl, rfl, rfl⟩, id⟩
  | setNoDelay value =>
    cases returned
    exact ⟨⟨rfl, rfl, rfl⟩, id⟩
  | close =>
    obtain ⟨result, ran, returned⟩ := of_ok_then returned
    cases returned
    unfold tcpClose at ran
    split at ran
    · cases ran
      exact .refl con
    split at ran
    · obtain ⟨⟨synced, con', sent⟩, flushed, returned⟩ := of_ok_then ran
      cases returned
      have stripped : Continues con' con'.tcpStripConnection := ⟨⟨rfl, rfl, rfl⟩, id⟩
      exact (tcpSyncBuffer_draining flushed).continues.trans
        (stripped.trans con'.tcpStripConnection.tcpCloseConnection_continues)
    · cases ran
      exact con.tcpCloseConnection_continues

/-- Only a SYN makes a connection active. -/
theorem receiveState_ends (returned : con.receiveState segment = .ok result) :
    SameEnds con result.con ∧ (result.con.Active → con.Active ∨
      con.state = .listen ∧ has segment.flags syn = true) := by
  unfold receiveState at returned
  dsimp only at returned
  split at returned
  case h_1 state =>
    split at returned
    · rename_i flag
      cases returned
      exact ⟨⟨rfl, rfl, rfl⟩, fun _ => .inr ⟨state, flag⟩⟩
    · cases returned
      exact ⟨.refl con, .inl⟩
  case h_4 state =>
    refine ⟨?_, fun _ => .inl (active_of state (by decide))⟩
    rcases receiveEstablished_cases returned with rfl | ⟨_, _, _, rfl⟩
    · exact ⟨rfl, rfl, rfl⟩
    · exact ⟨rfl, rfl, rfl⟩
  case h_5 state =>
    refine ⟨?_, fun _ => .inl (active_of state (by decide))⟩
    split at returned
    · cases returned
      exact ⟨rfl, rfl, rfl⟩
    split at returned
    · cases returned
      exact ⟨rfl, rfl, rfl⟩
    split at returned
    all_goals
      cases returned
      exact ⟨rfl, rfl, rfl⟩
  case h_2 state | h_3 state | h_6 state | h_7 state =>
    refine ⟨?_, fun _ => .inl (active_of state (by decide))⟩
    split at returned
    all_goals
      cases returned
      exact ⟨rfl, rfl, rfl⟩
  all_goals
    cases returned
    exact ⟨.refl con, .inl⟩

theorem receive_ends (returned : con.receive segment = .ok result) :
    SameEnds con result.con ∧ (result.con.Active → con.Active ∨
      con.state = .listen ∧ has segment.flags syn = true) := by
  rcases receive_taken returned with ⟨rcvNxt, rfl⟩ | ⟨-, returned⟩
  · exact ⟨⟨rfl, rfl, rfl⟩, .inl⟩
  · obtain ⟨ends, active⟩ := receiveState_ends returned
    exact ⟨⟨ends.incomingPort, ends.outgoingPort, ends.outgoingIp⟩, active⟩

end Connection

namespace Table

/-- A connection that the list has a pointer to. -/
def Listed (table : Table) (address : Nat) : Prop :=
  ∃ i, table.connections.lookup i = some address

/-- No two open connections that are active have the same ends. -/
def Unique (table : Table) : Prop :=
  ∀ a b con con', table.Listed a → table.Listed b → table.memory a = some con →
    table.memory b = some con' → con.Active → con'.Active → con.SameEnds con' → a = b

/-- A segment changes no connection but those it belongs to. -/
def Spares (table : Table) (srcIp : Nat) (segment : Segment) (table' : Table) : Prop :=
  ∀ address con, table.memory address = some con → ¬ con.Joins srcIp segment →
    table'.memory address = some con ∧ (table.Listed address → table'.Listed address)

/-- No open connection to another remote address has the ports of a segment that arrives, and a
SYN that would find a connection in LISTEN is not for ends that are in use. -/
structure Distinct (table : Table) (action : Action) : Prop where
  remote : ∀ srcIp segment new, action = .arrives srcIp segment new → segment.flags ≠ syn →
    ∀ address con, table.Listed address → table.memory address = some con →
      con.state ≠ .closed → con.incomingPort = segment.dstPort →
      con.outgoingPort = segment.srcPort → con.outgoingIp = srcIp
  first : ∀ srcIp segment new, action = .arrives srcIp segment new →
    has segment.flags syn = true →
    ∀ address con, table.Listed address → table.memory address = some con →
      con.state = .listen → con.incomingPort = segment.dstPort →
      segment.flags = syn ∨ con.outgoingPort = segment.srcPort →
      ∀ other con', table.Listed other → table.memory other = some con' → con'.Active →
        ¬ con'.Joins srcIp segment
  plain : ∀ address event, action = .call address event → ∀ segment, event ≠ .segment segment

variable {table table' : Table} {address : Nat} {segment : Segment}

/-- Only the connection at one address changes. -/
structure Only (address : Nat) (table table' : Table) : Prop where
  memory : ∀ other, other ≠ address → table'.memory other = table.memory other
  listed : ∀ other, other ≠ address → (table'.Listed other ↔ table.Listed other)

theorem Only.refl (address : Nat) (table : Table) : Only address table table :=
  ⟨fun _ _ => rfl, fun _ _ => Iff.rfl⟩

theorem Only.trans (first : Only address table table') (second : Only address table' table'') :
    Only address table table'' :=
  ⟨fun other apart => (second.memory other apart).trans (first.memory other apart),
    fun other apart => (second.listed other apart).trans (first.listed other apart)⟩

theorem Only.put (table : Table) (address : Nat) (con : Connection) :
    Only address table (table.put address con) :=
  ⟨fun _ apart => update_of_ne apart _ _, fun _ _ => Iff.rfl⟩

theorem put_memory (table : Table) (address : Nat) (con : Connection) :
    (table.put address con).memory address = some con := update_self ..

/-- One changed connection keeps the table unique if it is not active with the ends of
another. -/
theorem Unique.change (unique : table.Unique) (only : Only address table table')
    (clear : ∀ con, table'.memory address = some con → table'.Listed address → con.Active →
      ∀ other con', other ≠ address → table.Listed other → table.memory other = some con' →
        con'.Active → ¬ con.SameEnds con') : table'.Unique := by
  intro a b con con' listed listed' here there active active' ends
  by_cases first : a = address
  · by_cases second : b = address
    · exact first.trans second.symm
    · subst first
      rw [only.memory b second] at there
      exact absurd ends
        (clear con here listed active b con' second ((only.listed b second).mp listed') there active')
  · rw [only.memory a first] at here
    by_cases second : b = address
    · subst second
      have back : con'.SameEnds con :=
        ⟨ends.incomingPort.symm, ends.outgoingPort.symm, ends.outgoingIp.symm⟩
      exact absurd back
        (clear con' there listed' active' a con first ((only.listed a first).mp listed) here active)
    · rw [only.memory b second] at there
      exact unique a b con con' ((only.listed a first).mp listed)
        ((only.listed b second).mp listed') here there active active' ends

/-- A connection that goes on as it was keeps the table unique. -/
theorem Unique.continues (unique : table.Unique) (only : Only address table table')
    (before : table.memory address = some con)
    (after : ∀ con', table'.memory address = some con' → con.Continues con')
    (listed : table'.Listed address → table.Listed address) : table'.Unique := by
  refine unique.change only fun con' there listed' active other con'' apart present here active'' ends => ?_
  have continues := after con' there
  exact apart (unique address other con con'' (listed listed') present before here
    (continues.active active) active'' (continues.ends.trans ends)).symm

theorem tcpRemoveConnection_only (returned : table.tcpRemoveConnection address = .ok table') :
    Only address table table' ∧ (table' = table ∨ table'.memory address = none) ∧
      (table'.Listed address → table.Listed address) := by
  unfold tcpRemoveConnection at returned
  split at returned
  · cases returned
    exact ⟨.refl _ _, .inl rfl, id⟩
  · rename_i i found
    have here : table.connections.lookup i = some address := by
      have := find?_some found
      exact decide_eq_true_iff.mp this
    obtain ⟨connections, removed, lookup, -⟩ :=
      Relist.remove_ok (show table.connections.lookup i ≠ none by rw [here]; exact some_ne_none _)
    rw [removed, ok_then] at returned
    cases returned
    refine ⟨⟨fun other apart => update_of_ne apart _ _, fun other apart => ⟨?_, ?_⟩⟩,
      .inr (update_self ..), ?_⟩
    · rintro ⟨j, there⟩
      rw [lookup] at there
      by_cases same : j = i
      · rw [same, update_self] at there
        cases there
      · rw [update_of_ne same] at there
        exact ⟨j, there⟩
    · rintro ⟨j, there⟩
      refine ⟨j, ?_⟩
      rw [lookup, update_of_ne, there]
      rintro rfl
      exact apart (some.inj (there.symm.trans here))
    · exact fun _ => ⟨i, here⟩

theorem store_only (returned : table.store address result = .ok table') :
    Only address table table' ∧ (∀ con, table'.memory address = some con → con = result.con) ∧
      (table'.Listed address → table.Listed address) := by
  unfold store at returned
  split at returned
  · obtain ⟨only, gone, listed⟩ := tcpRemoveConnection_only returned
    refine ⟨(Only.put table address result.con).trans only, fun con there => ?_, listed⟩
    rcases gone with rfl | none
    · rw [put_memory] at there
      exact (some.inj there).symm
    · rw [none] at there
      cases there
  · cases returned
    refine ⟨.put table address result.con, fun con there => ?_, id⟩
    rw [put_memory] at there
    exact (some.inj there).symm

/-- What the loop over the open connections finds. -/
theorem find_some (returned : table.find wanted = .ok (some address)) :
    table.Listed address ∧ ∃ con, table.memory address = some con ∧ wanted con = true := by
  unfold find at returned
  generalize range table.connections.slots = slots at returned
  induction slots with
  | nil => cases returned
  | cons i rest ih =>
    unfold search at returned
    split at returned
    · exact ih returned
    · rename_i candidate here
      split at returned
      · cases returned
      · rename_i con there
        split at returned
        · rename_i yes
          cases returned
          exact ⟨⟨i, here⟩, con, there, yes⟩
        · exact ih returned

theorem find_none (returned : table.find wanted = .ok none) (listed : table.Listed address)
    (here : table.memory address = some con) : wanted con = false := by
  obtain ⟨i, slot⟩ := listed
  have inside : i ∈ range table.connections.slots :=
    mem_range.mpr (Relist.used_inside (by rw [slot]; exact some_ne_none _)).1
  unfold find at returned
  generalize range table.connections.slots = slots at returned inside
  induction slots with
  | nil => cases inside
  | cons j rest ih =>
    unfold search at returned
    split at returned
    · rename_i empty
      rcases mem_cons.mp inside with rfl | later
      · rw [slot] at empty
        cases empty
      · exact ih returned later
    · rename_i candidate there
      split at returned
      · cases returned
      · rename_i con' held
        split at returned
        · cases returned
        · rename_i no
          rcases mem_cons.mp inside with rfl | later
          · rw [slot] at there
            cases there
            rw [here] at held
            cases held
            exact Bool.eq_false_iff.mpr no
          · exact ih returned later

theorem deliver_only (here : table.memory address = some con)
    (returned : table.deliver address segment = .ok table') :
    Only address table table' ∧
      ∀ con', table'.memory address = some con' → con.SameEnds con' ∧
        (con'.Active → con.Active ∨ con.state = .listen ∧ has segment.flags syn = true) := by
  unfold deliver at returned
  rw [here] at returned
  obtain ⟨result, ran, stored⟩ := of_ok_then returned
  obtain ⟨only, after, -⟩ := store_only stored
  refine ⟨only, fun con' there => ?_⟩
  rw [after con' there]
  exact Connection.receive_ends ran

/-- A segment that is not a SYN reaches at most one connection, by its ports. -/
theorem handleTcp_other (other : segment.flags ≠ syn)
    (returned : table.handleTcp srcIp segment new = .ok table') :
    table' = table ∨ ∃ address con, table.Listed address ∧ table.memory address = some con ∧
      con.state ≠ .closed ∧ con.incomingPort = segment.dstPort ∧
      con.outgoingPort = segment.srcPort ∧ table.deliver address segment = .ok table' := by
  unfold handleTcp at returned
  rw [if_neg other] at returned
  obtain ⟨found, ran, returned⟩ := of_ok_then returned
  cases found with
  | none =>
    cases returned
    exact .inl rfl
  | some address =>
    obtain ⟨listed, con, here, wanted⟩ := find_some ran
    simp only [ne_eq, Bool.and_eq_true, decide_eq_true_eq] at wanted
    exact .inr ⟨address, con, listed, here, wanted.1, wanted.2.1, wanted.2.2, returned⟩

theorem Only.add {connections : Relist Nat}
    (added : table.connections.add address = .ok (i, connections))
    (same : table'.connections = connections)
    (memory : table'.memory = update table.memory address value) : Only address table table' := by
  obtain ⟨entry, list, ran, empty, lookup⟩ := Relist.add_ok table.connections address
  rw [added] at ran
  cases ran
  refine ⟨fun other apart => memory ▸ update_of_ne apart _ _, fun other apart => ?_⟩
  unfold Listed
  rw [same, lookup]
  constructor
  · rintro ⟨j, there⟩
    by_cases slot : j = i
    · rw [slot, update_self] at there
      exact absurd (some.inj there).symm apart
    · rw [update_of_ne slot] at there
      exact ⟨j, there⟩
  · rintro ⟨j, there⟩
    refine ⟨j, ?_⟩
    rw [update_of_ne, there]
    rintro rfl
    rw [empty] at there
    cases there

/-- A SYN makes a new connection with its ends if there is a listening one. -/
theorem tcpConnectToListen_some
    (returned : table.tcpConnectToListen srcIp srcPort dstPort new = .ok (some address, table')) :
    address = new.address ∧ Only address table table' ∧
      ∃ listening con, table.Listed listening ∧ table.memory listening = some con ∧
        con.state = .listen ∧ con.incomingPort = dstPort ∧
        table'.memory address = some (con.newConnection srcIp srcPort new.incoming new.outgoing
          new.shouldSendAck) := by
  obtain ⟨found, ran, returned⟩ := of_ok_then returned
  cases found with
  | none => cases returned
  | some listening =>
    obtain ⟨listed, con, here, wanted⟩ := find_some ran
    simp only [Bool.and_eq_true, decide_eq_true_eq] at wanted
    dsimp only at returned
    rw [here] at returned
    split at returned
    · rename_i con' waiting same _
      cases same
      obtain ⟨⟨i, connections⟩, added, returned⟩ := of_ok_then returned
      obtain ⟨⟨j, waiting'⟩, -, returned⟩ := of_ok_then returned
      cases returned
      exact ⟨rfl, .add added rfl rfl, listening, con, listed, here, wanted.1, wanted.2,
        update_self ..⟩
    · cases returned

theorem tcpConnectToListen_none
    (returned : table.tcpConnectToListen srcIp srcPort dstPort new = .ok (none, table')) :
    table' = table := by
  obtain ⟨found, ran, returned⟩ := of_ok_then returned
  cases found with
  | none =>
    cases returned
    rfl
  | some listening =>
    dsimp only at returned
    split at returned
    · obtain ⟨⟨i, connections⟩, added, returned⟩ := of_ok_then returned
      obtain ⟨⟨j, waiting'⟩, -, returned⟩ := of_ok_then returned
      cases returned
    · cases returned

theorem tcpFindFreePort_free (returned : table.tcpFindFreePort depth suggestion = .ok port)
    (listed : table.Listed address) (here : table.memory address = some con) :
    con.incomingPort ≠ port := by
  induction depth generalizing suggestion with
  | zero => cases returned
  | succ depth ih =>
    obtain ⟨found, ran, returned⟩ := of_ok_then returned
    cases found with
    | none =>
      cases returned
      exact decide_eq_false_iff_not.mp (find_none ran listed here)
    | some other => exact ih returned

/-- A segment to a connection that it belongs to, and that it does not make active beside
another one, keeps the table unique. -/
theorem Unique.deliver (unique : table.Unique) (listed : table.Listed address)
    (here : table.memory address = some con) (joins : con.Joins srcIp segment)
    (alone : con.state = .listen → has segment.flags syn = true →
      ∀ other con', table.Listed other → table.memory other = some con' → con'.Active →
        ¬ con'.Joins srcIp segment)
    (returned : table.deliver address segment = .ok table') : table'.Unique := by
  obtain ⟨only, after⟩ := deliver_only here returned
  refine unique.change only fun con' there _ active other con'' apart present held active'' ends => ?_
  obtain ⟨ends', became⟩ := after con' there
  rcases became active with was | ⟨listening, flag⟩
  · exact apart (unique address other con con'' listed present here held was active''
      (ends'.trans ends)).symm
  · exact alone listening flag other con'' present held active''
      (joins.of_ends (ends'.trans ends))

section
variable (unique : table.Unique)
include unique

theorem Unique.arrives_syn (isSyn : segment.flags = syn)
    (distinct : table.Distinct (.arrives srcIp segment new))
    (returned : table.handleTcp srcIp segment new = .ok table') : table'.Unique := by
  unfold handleTcp at returned
  rw [if_pos isSyn] at returned
  obtain ⟨⟨found, between⟩, ran, returned⟩ := of_ok_then returned
  cases found with
  | none =>
    cases returned
    rw [tcpConnectToListen_none ran]
    exact unique
  | some address =>
    obtain ⟨rfl, only, listening, con, listed, here, state, port, made⟩ :=
      tcpConnectToListen_some ran
    have flag : has segment.flags syn = true := by
      rw [isSyn]
      decide
    have alone := distinct.first srcIp segment new rfl flag listening con listed here state port
      (.inl isSyn)
    obtain ⟨only', after⟩ := deliver_only made returned
    refine unique.change (only.trans only')
      fun con' there _ active other con'' apart present held active'' ends => ?_
    have joins : (con.newConnection srcIp segment.srcPort new.incoming new.outgoing
        new.shouldSendAck).Joins srcIp segment := ⟨port, rfl, rfl⟩
    exact alone other con'' present held active''
      (joins.of_ends ((after con' there).1.trans ends))

theorem Unique.arrives (distinct : table.Distinct (.arrives srcIp segment new))
    (returned : table.handleTcp srcIp segment new = .ok table') : table'.Unique := by
  by_cases isSyn : segment.flags = syn
  · exact unique.arrives_syn isSyn distinct returned
  · rcases handleTcp_other isSyn returned with
      rfl | ⟨address, con, listed, here, state, local', remote, delivered⟩
    · exact unique
    · have ip := distinct.remote srcIp segment new rfl isSyn address con listed here state local' remote
      exact unique.deliver listed here ⟨local', remote, ip⟩
        (fun listening flag => distinct.first srcIp segment new rfl flag address con listed here
          listening local' (.inr remote)) delivered

omit unique in
theorem Unique.connect {incoming outgoing : Bytes} (unique : table.Unique)
    (returned : table.tcpConnect address ip port incoming outgoing = .ok table') :
    table'.Unique := by
  unfold tcpConnect at returned
  split at returned
  · cases returned
  · rename_i con here
    obtain ⟨free, searched, returned⟩ := of_ok_then returned
    obtain ⟨⟨i, connections⟩, added, returned⟩ := of_ok_then returned
    cases returned
    refine unique.change (.add added rfl rfl)
      fun con' there _ active other con'' apart present held active'' ends => ?_
    rw [put_memory] at there
    cases there
    exact tcpFindFreePort_free searched present held ends.incomingPort

theorem Unique.bind (returned : table.bind address port = .ok table') :
    table'.Unique := by
  unfold Table.bind at returned
  split at returned
  · cases returned
  · rename_i con here
    obtain ⟨⟨i, connections⟩, added, returned⟩ := of_ok_then returned
    cases returned
    refine unique.change (.add added rfl rfl) fun con' there _ active => ?_
    rw [put_memory] at there
    cases there
    exact absurd rfl active.1

theorem Unique.call (plain : ∀ segment, event ≠ .segment segment)
    (returned : table.call address event = .ok table') : table'.Unique := by
  unfold Table.call at returned
  split at returned
  · cases returned
  · rename_i con here
    obtain ⟨outcome, ran, stored⟩ := of_ok_then returned
    obtain ⟨only, after, listed⟩ := store_only stored
    refine unique.continues only here (fun con' there => ?_) listed
    rw [after con' there]
    exact Connection.step_continues plain ran

theorem Unique.act (distinct : table.Distinct action)
    (returned : table.act action = .ok table') : table'.Unique := by
  cases action with
  | arrives srcIp segment new => exact unique.arrives distinct returned
  | socket address =>
    cases returned
    refine unique.change (.put table address .tcpCreateFd) fun con there _ active => ?_
    rw [put_memory] at there
    cases there
    exact absurd rfl active.2
  | bind address port => exact unique.bind returned
  | connect address ip port incoming outgoing => exact unique.connect returned
  | call address event => exact unique.call (distinct.plain address event rfl) returned

end

theorem Distinct.spares (distinct : table.Distinct (.arrives srcIp segment new))
    (other : segment.flags ≠ syn) (returned : table.handleTcp srcIp segment new = .ok table') :
    table.Spares srcIp segment table' := by
  rcases handleTcp_other other returned with
    rfl | ⟨address, con, listed, here, state, local', remote, delivered⟩
  · exact fun _ _ held _ => ⟨held, id⟩
  · intro a con' held stranger
    have ip := distinct.remote srcIp segment new rfl other address con listed here state local' remote
    have apart : a ≠ address := by
      rintro rfl
      rw [here] at held
      cases held
      exact stranger ⟨local', remote, ip⟩
    obtain ⟨only, -⟩ := deliver_only here delivered
    exact ⟨(only.memory a apart).trans held, (only.listed a apart).mpr⟩

theorem Reached.unique {start : Table} (unique : start.Unique)
    (reached : Reached Distinct start table) : table.Unique := by
  induction reached with
  | start => exact unique
  | step before distinct returned ih => exact ih.act distinct returned

/-- In every table reached by distinct actions the active connections have different ends, and a
segment that is not a SYN spares every connection but its own. -/
theorem connections_kept_apart_when_distinct {start : Table} (unique : start.Unique)
    (reached : Reached Distinct start table) :
    table.Unique ∧ ∀ srcIp segment new table', segment.flags ≠ syn →
      table.Distinct (.arrives srcIp segment new) →
      table.act (.arrives srcIp segment new) = .ok table' → table.Spares srcIp segment table' :=
  ⟨reached.unique unique, fun _ _ _ _ other distinct returned => distinct.spares other returned⟩

/-- A connection at address 1 that listens on port 80. -/
def listening : Table where
  connections := (Relist.store ⟨fun _ => 0, [0]⟩ 0 1)
  memory := Function.update (fun _ => none) 1 (some (Connection.tcpCreateFd.bind 80))
  incoming := Function.update (fun _ => none) 1 (some ⟨fun _ => 0, [0]⟩)

theorem listening_memory (here : listening.memory address = some con) :
    con = Connection.tcpCreateFd.bind 80 := by
  unfold listening at here
  dsimp only at here
  by_cases first : address = 1
  · rw [first, update_self] at here
    exact (some.inj here).symm
  · rw [update_of_ne first] at here
    cases here

theorem listening_unique : listening.Unique := by
  intro a b con con' _ _ here _ active
  rw [listening_memory here] at active
  exact absurd rfl active.1

/-- Memory at an address. -/
def fresh (address : Nat) : Fresh := ⟨address, Bytes.zeros, Bytes.zeros, false⟩

/-- The same with a connection from port 5000. -/
def serving : Table :=
  { listening with
    connections := listening.connections.store 1 2
    memory := Function.update listening.memory 2 (some { Connection.tcpCreateFd.bind 80 with
      state := .established, outgoingPort := 5000, outgoingIp := 9 }) }

theorem serving_active (here : serving.memory address = some con) (active : con.Active) :
    address = 2 ∧ con.outgoingPort = 5000 := by
  unfold serving at here
  dsimp only at here
  by_cases second : address = 2
  · rw [second, update_self] at here
    cases here
    exact ⟨second, rfl⟩
  · rw [update_of_ne second] at here
    rw [listening_memory here] at active
    exact absurd rfl active.1

theorem kept_apart_when_listening :
    ∃ table, serving.act (.arrives 9 ⟨5001, 80, 7, 0, syn, 1000, []⟩ (fresh 3)) = .ok table ∧
      [2, 3].map (fun address => (table.memory address).map (·.state)) =
        [some .established, some .synRecieved] ∧ table.Unique := by
  obtain ⟨table, ran, states⟩ := of_report (show (serving.act (.arrives 9
      ⟨5001, 80, 7, 0, syn, 1000, []⟩ (fresh 3))).toOption.map (fun table =>
        [2, 3].map fun address => (table.memory address).map (·.state)) =
          some [some .established, some .synRecieved] by decide +kernel)
  have unique : serving.Unique := by
    intro a b con con' _ _ here there active active' _
    rw [(serving_active here active).1, (serving_active there active').1]
  refine ⟨table, ran, states, (connections_kept_apart_when_distinct unique (.step .start ?_ ran)).1⟩
  refine ⟨fun srcIp segment new same other => ?_, fun srcIp segment new same _ _ _ _ _ _ _ _ other
    con' _ here active joins => ?_, nofun⟩
  · cases same
    exact absurd rfl other
  · cases same
    exact absurd ((serving_active here active).2.symm.trans joins.outgoingPort) (by decide)

/-- Two copies of a SYN make two connections with the same ends, and an acknowledgement from
another address than the SYN takes the new connection to ESTABLISHED. -/
theorem syn_twice_and_stranger :
    listening.Unique ∧
      (∃ table, Reached (fun _ _ => True) listening table ∧ ¬ table.Unique) ∧
      ∃ table table' con, Reached (fun _ _ => True) listening table ∧
        table.act (.arrives 10 ⟨5000, 80, 8, 1, ack, 1000, []⟩ (fresh 3)) = .ok table' ∧
        table.memory 2 = some con ∧ con.outgoingIp = 9 ∧
        (table'.memory 2).map (·.state) = some .established ∧
        ¬ table.Spares 10 ⟨5000, 80, 8, 1, ack, 1000, []⟩ table' := by
  refine ⟨listening_unique, ?_, ?_⟩
  · obtain ⟨table, ran, facts⟩ := of_report (show (listening.run
        [.arrives 9 ⟨5000, 80, 7, 0, syn, 1000, []⟩ (fresh 2),
        .arrives 9 ⟨5000, 80, 7, 0, syn, 1000, []⟩ (fresh 3)]).toOption.map (fun table =>
          ([table.connections.lookup 1, table.connections.lookup 2],
            [2, 3].map fun address => (table.memory address).map fun con =>
              (con.state, [con.incomingPort, con.outgoingPort, con.outgoingIp]))) =
        some ([some 2, some 3], [some (.synRecieved, [80, 5000, 9]),
          some (.synRecieved, [80, 5000, 9])]) by decide +kernel)
    simp only [map_cons, map_nil, Prod.mk.injEq, cons.injEq, and_true,
      map_eq_some_iff] at facts
    obtain ⟨⟨first, second⟩, ⟨con, here, state, local', remote, ip⟩,
      ⟨con', there, state', local'', remote', ip'⟩⟩ := facts
    refine ⟨table, Reached.start.run ran, fun unique => ?_⟩
    have same := unique 2 3 con con' ⟨1, first⟩ ⟨2, second⟩ here there
      (Connection.active_of state (by decide)) (Connection.active_of state' (by decide))
      ⟨local''.trans local'.symm, remote'.trans remote.symm, ip'.trans ip.symm⟩
    exact absurd same (by decide)
  · obtain ⟨table, ran, report⟩ := of_report (show (listening.run
        [.arrives 9 ⟨5000, 80, 7, 0, syn, 1000, []⟩ (fresh 2)]).toOption.map (fun table =>
          (table.act (.arrives 10 ⟨5000, 80, 8, 1, ack, 1000, []⟩
          (fresh 3))).toOption.map fun table' =>
            ((table.memory 2).map (fun con => (con.state, con.outgoingIp)),
              (table'.memory 2).map (·.state))) =
        some (some (some (.synRecieved, 9), some .established)) by decide +kernel)
    obtain ⟨table', last, facts⟩ := of_report report
    simp only [Prod.mk.injEq, map_eq_some_iff] at facts
    obtain ⟨⟨con, here, state, ip⟩, con', there, state'⟩ := facts
    refine ⟨table, table', con, Reached.start.run ran, last, here, ip, ?_, fun spares => ?_⟩
    · rw [there]
      exact congrArg some state'
    · obtain ⟨kept, -⟩ := spares 2 con here fun joins =>
        absurd (ip.symm.trans joins.outgoingIp) (by decide)
      rw [there] at kept
      cases kept
      exact absurd (state.symm.trans state') (by decide)

end Table
end SbOS.Net
