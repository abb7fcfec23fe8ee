import SbOS.Net.Segmentation

/-! What one event does to an established connection and to one that has left that state. Data
goes out only in ESTABLISHED, and no event leads back to it. -/
namespace SbOS.Net
open Kernel

/-- The states after ESTABLISHED. -/
def State.Past : State → Prop
  | .closed | .closeWait | .finWait1 | .closing | .lastAck | .finWait2 | .timeWait => True
  | .listen | .synSent | .synRecieved | .established => False

/-- Segments without bytes and without FIN. -/
def Quiet (sent : List Segment) : Prop :=
  ∀ segment ∈ sent, segment.payload = [] ∧ has segment.flags fin = false

theorem Quiet.nil : Quiet [] := List.forall_mem_nil _

theorem Quiet.empty (quiet : Quiet sent) : ∀ segment ∈ sent, segment.payload = [] :=
  fun segment present => (quiet segment present).1

theorem Quiet.silent (quiet : Quiet sent) : ∀ segment ∈ sent, has segment.flags fin = false :=
  fun segment present => (quiet segment present).2

namespace Connection

variable {con con' : Connection} {segment : Segment} {result : Result}

theorem Quiet.tcpSendEmptyPayload (con : Connection) (silent : has flags fin = false) :
    Quiet (con.tcpSendEmptyPayload flags).sent := by
  intro segment present
  obtain rfl := List.mem_singleton.mp present
  exact ⟨rfl, silent⟩

/-- A segment that `handle_tcp` does not turn away. -/
def Acceptable (con : Connection) (segment : Segment) : Prop :=
  con.sndUna ≤ segment.ackNum ∧ segment.ackNum ≤ con.sndMax ∧ con.rcvNxt = segment.seqNum

/-- The peer's SYN has not been seen yet. -/
def Unsynchronised (con : Connection) : Prop := con.state = .listen ∨ con.state = .synSent

/-- `rcv_nxt` moved over the flags of a segment. -/
def advanced (rcvNxt : Nat) (flags : Flags) : Nat :=
  wrap32 (wrap32 (rcvNxt + if has flags fin then 1 else 0) + if has flags syn then 1 else 0)

/-- The connection that the `switch` over the state starts with. -/
def acknowledged (con : Connection) (segment : Segment) : Connection :=
  { con with
    sndWnd := segment.windowSize
    sndUna := segment.ackNum
    rcvNxt := advanced segment.seqNum segment.flags }

/-- A segment that `handle_tcp` looks at the flags of. -/
def Taken (con : Connection) (segment : Segment) : Prop :=
  con.sndUna ≤ segment.ackNum ∧ segment.ackNum ≤ con.sndMax ∧
    (con.Unsynchronised ∨ con.rcvNxt = segment.seqNum)

theorem receive_of_taken (taken : con.Taken segment) :
    con.receive segment = (con.acknowledged segment).receiveState segment := by
  obtain ⟨older, newer, next⟩ := taken
  unfold receive
  split
  · rw [if_neg (not_lt.mpr newer), if_neg (not_lt.mpr older), if_neg (not_not.mpr rfl)]
    rfl
  · rename_i synchronised
    have here := next.resolve_left synchronised
    rw [if_neg (not_lt.mpr newer), if_neg (not_lt.mpr older), if_neg (not_not.mpr here), here]
    rfl

/-- Before the SYN of the peer `rcv_nxt` is the number of the last segment that came. -/
theorem receive_of_refused (refused : ¬ con.Taken segment) :
    ∃ rcvNxt, con.receive segment = .ok { con := { con with rcvNxt } } ∧
      (¬ con.Unsynchronised → rcvNxt = con.rcvNxt) := by
  unfold receive
  by_cases unsynchronised : con.state = .listen ∨ con.state = .synSent
  · rw [if_pos unsynchronised]
    refine ⟨segment.seqNum, ?_, fun wrong => absurd unsynchronised wrong⟩
    dsimp only
    split
    · rfl
    split
    · rfl
    · rename_i old new
      exact absurd ⟨not_lt.mp new, not_lt.mp old, .inl unsynchronised⟩ refused
  · rw [if_neg unsynchronised]
    refine ⟨con.rcvNxt, ?_, fun _ => rfl⟩
    dsimp only
    split
    · rfl
    split
    · rfl
    split
    · rfl
    · rename_i old new next
      exact absurd ⟨not_lt.mp new, not_lt.mp old, .inr (not_not.mp next)⟩ refused

theorem receive_taken (returned : con.receive segment = .ok result) :
    (∃ rcvNxt, result = { con := { con with rcvNxt } }) ∨
      con.Taken segment ∧ (con.acknowledged segment).receiveState segment = .ok result := by
  by_cases taken : con.Taken segment
  · exact .inr ⟨taken, (receive_of_taken taken).symm.trans returned⟩
  · obtain ⟨rcvNxt, ran, -⟩ := receive_of_refused taken
    rw [ran] at returned
    cases returned
    exact .inl ⟨rcvNxt, rfl⟩

/-- What matters for sending is the same. -/
structure SameSending (con con' : Connection) : Prop where
  state : con'.state = con.state
  buffer : con'.outgoingBuffer = con.outgoingBuffer
  sndUna : con'.sndUna = con.sndUna
  sndWnd : con'.sndWnd = con.sndWnd
  sndNxt : con'.sndNxt = con.sndNxt
  sndMax : con'.sndMax = con.sndMax

theorem SameSending.refl (con : Connection) : SameSending con con :=
  ⟨rfl, rfl, rfl, rfl, rfl, rfl⟩

/-- A FIN takes the connection out of ESTABLISHED, any other segment is at most an
acknowledgement. -/
inductive Receives (con : Connection) (segment : Segment) (result : Result) : Prop where
  | ignored (same : SameSending con result.con) (quiet : Quiet result.sent)
  | acknowledged (acceptable : con.Acceptable segment)
    (same : SameSending { con with sndUna := segment.ackNum, sndWnd := segment.windowSize }
      result.con) (quiet : Quiet result.sent)
  | left (past : result.con.state.Past) (buffer : result.con.outgoingBuffer = con.outgoingBuffer)
    (quiet : Quiet result.sent)

theorem receiveEstablished_cases (returned : con.receiveEstablished segment = .ok result) :
    result = { con with state := .closeWait }.tcpSendEmptyPayload ack ∨
      ∃ incomingBuffer rcvNxt shouldSendAck,
        result = { con := { con with incomingBuffer, rcvNxt, shouldSendAck } } := by
  unfold receiveEstablished at returned
  split at returned
  · cases returned
    exact .inl rfl
  split at returned
  · split at returned
    · cases returned
      exact .inr ⟨_, _, _, rfl⟩
    · obtain ⟨⟨rc, incomingBuffer⟩, -, returned⟩ := of_ok_then returned
      obtain ⟨-, returned⟩ := of_check_then returned
      cases returned
      exact .inr ⟨_, _, _, rfl⟩
  · cases returned
    exact .inr ⟨_, _, _, rfl⟩

theorem receive_established (state : con.state = .established)
    (returned : con.receive segment = .ok result) : Receives con segment result := by
  have synchronised : ¬ con.Unsynchronised := by
    rintro (listening | sent)
    · exact absurd (state.symm.trans listening) (by decide)
    · exact absurd (state.symm.trans sent) (by decide)
  rcases receive_taken returned with ⟨rcvNxt, rfl⟩ | ⟨⟨older, newer, next⟩, returned⟩
  · exact .ignored ⟨rfl, rfl, rfl, rfl, rfl, rfl⟩ .nil
  have switched : (con.acknowledged segment).receiveState segment =
      (con.acknowledged segment).receiveEstablished segment := by
    have state' : (con.acknowledged segment).state = .established := state
    unfold receiveState
    rw [state']
  rw [switched] at returned
  rcases receiveEstablished_cases returned with rfl | ⟨_, _, _, rfl⟩
  · exact .left trivial rfl (Quiet.tcpSendEmptyPayload _ (by decide))
  · exact .acknowledged ⟨older, newer, next.resolve_left synchronised⟩
      ⟨rfl, rfl, rfl, rfl, rfl, rfl⟩ .nil

/-- After ESTABLISHED nothing more is sent but acknowledgements, the ring stays as it is. -/
structure Fades (con : Connection) (result : Result) : Prop where
  past : result.con.state.Past
  buffer : result.con.outgoingBuffer = con.outgoingBuffer
  quiet : Quiet result.sent

theorem receiveState_past (past : con.state.Past)
    (returned : con.receiveState segment = .ok result) : Fades con result := by
  have stays : Fades con { con } := ⟨past, rfl, .nil⟩
  have moves : ∀ later : State, later.Past →
      Fades con ({ con with state := later }.tcpSendEmptyPayload ack) := fun later known =>
    ⟨known, rfl, Quiet.tcpSendEmptyPayload _ (by decide)⟩
  unfold receiveState at returned
  dsimp only at returned
  split at returned
  case h_1 listening | h_2 listening | h_3 listening | h_4 listening =>
    rw [listening] at past
    exact past.elim
  case h_5 =>
    split at returned
    · cases returned
      exact moves .timeWait trivial
    split at returned
    · cases returned
      exact ⟨trivial, rfl, .nil⟩
    split at returned
    · cases returned
      exact moves .closing trivial
    · cases returned
      exact stays
  case h_6 =>
    split at returned
    · cases returned
      exact ⟨trivial, rfl, .nil⟩
    · cases returned
      exact stays
  case h_7 =>
    split at returned
    · cases returned
      exact ⟨trivial, rfl, (moves .closed trivial).quiet⟩
    · cases returned
      exact stays
  all_goals
    cases returned
    exact stays

theorem receive_past (past : con.state.Past) (returned : con.receive segment = .ok result) :
    Fades con result := by
  rcases receive_taken returned with ⟨rcvNxt, rfl⟩ | ⟨-, returned⟩
  · exact ⟨past, rfl, .nil⟩
  · obtain ⟨past', buffer, quiet⟩ :=
      receiveState_past (show (con.acknowledged segment).state.Past from past) returned
    exact ⟨past', buffer, quiet⟩

/-- What an event does in ESTABLISHED. -/
inductive Progress (con : Connection) (event : Event) (outcome : Outcome) : Prop where
  | rests (noWrite : ∀ buffer, event ≠ .write buffer) (same : SameSending con outcome.con)
    (quiet : Quiet outcome.sent)
  | acknowledged (segment : Segment) (isSegment : event = .segment segment)
    (acceptable : con.Acceptable segment)
    (same : SameSending { con with sndUna := segment.ackNum, sndWnd := segment.windowSize }
      outcome.con) (quiet : Quiet outcome.sent)
  | left (segment : Segment) (isSegment : event = .segment segment)
    (fades : Fades con outcome.toResult)
  | wrote (buffer : List UInt8) (isWrite : event = .write buffer)
    (emits : Emits con bytes rb outcome.con outcome.sent)
    (wrote : Wrote con buffer outcome.rc bytes rb)
  | flushed (isFlush : event = .flush)
    (emits : Emits con (con.outgoingBuffer.contents.take con.tcpCanSend) rb outcome.con outcome.sent)
    (rest : rb.contents = con.outgoingBuffer.contents.drop con.tcpCanSend)
  | closed (isClose : event = .close)
    (emits : Emits con (con.outgoingBuffer.contents.take con.tcpCanSend) rb con₁ sent)
    (final : Segment) (empty : final.payload = []) (whole : outcome.sent = sent ++ [final])
    (past : outcome.con.state.Past) (freed : outcome.con.outgoingBuffer.contents = [])

theorem tcpFlushAck_established (state : con.state = .established) (ordered : con.Ordered) :
    SameSending con con.tcpFlushAck.con ∧ Quiet con.tcpFlushAck.sent := by
  have le := ordered.le
  have small := ordered.small
  unfold tcpFlushAck
  rw [if_neg (by rw [state]; decide)]
  by_cases none : con.shouldSendAck = false
  · rw [if_pos none]
    exact ⟨.refl con, .nil⟩
  · rw [if_neg none]
    have kept : wrap32 (wrap32 (con.sndNxt + 0) + 0) = con.sndNxt := by
      unfold wrap32
      omega
    refine ⟨⟨rfl, rfl, rfl, rfl, kept, ?_⟩, Quiet.tcpSendEmptyPayload _ (by decide)⟩
    change max (wrap32 (wrap32 (con.sndNxt + 0) + 0)) con.sndMax = con.sndMax
    rw [kept]
    exact max_eq_right le

theorem tcpRead_frame (returned : con.tcpRead len = .ok (rc, bytes, con')) :
    ∃ incomingBuffer, con' = { con with incomingBuffer } := by
  obtain ⟨⟨⟨rc', stored⟩, incomingBuffer⟩, -, returned⟩ := of_ok_then returned
  dsimp only at returned
  split at returned
  · split at returned
    · cases returned
      exact ⟨_, rfl⟩
    · cases returned
      exact ⟨_, rfl⟩
  · cases returned
    exact ⟨_, rfl⟩

theorem tcpRead_sending (returned : con.tcpRead len = .ok (rc, bytes, con')) :
    SameSending con con' := by
  obtain ⟨_, rfl⟩ := tcpRead_frame returned
  exact ⟨rfl, rfl, rfl, rfl, rfl, rfl⟩

theorem step_established (state : con.state = .established)
    (valid : con.outgoingBuffer.Valid) (ordered : con.Ordered)
    (fits : ∀ buffer, event = .write buffer → con.WriteFits buffer)
    (returned : con.step event = .ok outcome) : Progress con event outcome := by
  obtain ⟨synced, con₁, sent, rb, ran, emits, rest, -⟩ := tcpSyncBuffer_ok valid ordered
  cases event with
  | segment segment =>
    obtain ⟨result, ran, returned⟩ := of_ok_then returned
    cases returned
    cases receive_established state ran with
    | ignored same quiet => exact .rests nofun same quiet
    | acknowledged acceptable same quiet => exact .acknowledged segment rfl acceptable same quiet
    | left past buffer quiet => exact .left segment rfl ⟨past, buffer, quiet⟩
  | read len =>
    obtain ⟨⟨rc, bytes, con'⟩, ran, returned⟩ := of_ok_then returned
    cases returned
    exact .rests nofun (tcpRead_sending ran) .nil
  | write buffer =>
    obtain ⟨rc, con', sent, bytes, rb, ran, emits, wrote⟩ :=
      tcpWrite_ok buffer valid ordered (fits buffer rfl)
    change (con.tcpWrite buffer >>= _) = _ at returned
    rw [ran, ok_then] at returned
    cases returned
    exact .wrote buffer rfl emits wrote
  | flush =>
    change (con.tcpFlushBuffer >>= _) = _ at returned
    unfold tcpFlushBuffer at returned
    rw [state] at returned
    rw [ran, ok_then] at returned
    cases returned
    exact .flushed rfl emits rest
  | flushAck =>
    cases returned
    obtain ⟨same, quiet⟩ := tcpFlushAck_established state ordered
    exact .rests nofun same quiet
  | setNoDelay value =>
    cases returned
    exact .rests nofun ⟨rfl, rfl, rfl, rfl, rfl, rfl⟩ .nil
  | close =>
    change (con.tcpClose >>= _) = _ at returned
    unfold tcpClose at returned
    rw [state, if_neg (by decide), if_pos rfl, ran, ok_then] at returned
    have open₁ : con₁.tcpStripConnection.state = .established := emits.state.trans state
    dsimp only at returned
    unfold tcpCloseConnection at returned
    rw [open₁] at returned
    cases returned
    exact .closed rfl emits _ rfl rfl trivial (Ringbuffer.free_contents con₁.outgoingBuffer)

/-- What an event does after ESTABLISHED. Only `tcp_close` in CLOSE_WAIT sends a FIN. -/
structure Ending (con : Connection) (event : Event) (outcome : Outcome) : Prop where
  past : outcome.con.state.Past
  buffer : outcome.con.outgoingBuffer = con.outgoingBuffer
  empty : ∀ segment ∈ outcome.sent, segment.payload = []
  refused : ∀ buffer, event = .write buffer → outcome.rc < 0
  silent : ∀ segment ∈ outcome.sent, has segment.flags fin = true →
    event = .close ∧ con.state = .closeWait

theorem Fades.ending (fades : Fades con outcome.toResult)
    (noWrite : ∀ buffer, event ≠ .write buffer) : Ending con event outcome where
  past := fades.past
  buffer := fades.buffer
  empty segment present := (fades.quiet segment present).1
  refused buffer wrong := absurd wrong (noWrite buffer)
  silent segment present wrong :=
    absurd wrong (Bool.eq_false_iff.mp (fades.quiet segment present).2)

section
variable (past : con.state.Past)
include past

theorem tcpFlushBuffer_past (returned : con.tcpFlushBuffer = .ok result) :
    Fades con result := by
  unfold tcpFlushBuffer at returned
  split at returned
  case h_3 state =>
    rw [state] at past
    exact past.elim
  case h_4 =>
    cases returned
    exact ⟨past, rfl, .nil⟩
  all_goals
    cases returned
    exact ⟨trivial, rfl, .nil⟩

theorem tcpFlushAck_past : Fades con con.tcpFlushAck := by
  unfold tcpFlushAck
  split
  · exact ⟨past, rfl, .nil⟩
  split
  · exact ⟨past, rfl, .nil⟩
  · exact ⟨past, rfl, Quiet.tcpSendEmptyPayload _ (by decide)⟩

theorem tcpCloseConnection_past :
    con.tcpCloseConnection.con.state.Past ∧
      con.tcpCloseConnection.con.outgoingBuffer = con.outgoingBuffer ∧
      ∀ segment ∈ con.tcpCloseConnection.sent,
        segment.payload = [] ∧ con.state = .closeWait := by
  unfold tcpCloseConnection
  split
  · rename_i state
    refine ⟨trivial, rfl, fun segment present => ?_⟩
    obtain rfl := List.mem_singleton.mp present
    exact ⟨rfl, state⟩
  · rename_i state
    rw [state] at past
    exact past.elim
  · rename_i state
    rw [state] at past
    exact past.elim
  · rename_i state
    rw [state] at past
    exact past.elim
  · exact ⟨past, rfl, List.forall_mem_nil _⟩

theorem step_past (returned : con.step event = .ok outcome) : Ending con event outcome := by
  cases event with
  | segment segment =>
    obtain ⟨result, ran, returned⟩ := of_ok_then returned
    cases returned
    exact (receive_past past ran).ending nofun
  | read len =>
    obtain ⟨⟨rc, bytes, con'⟩, ran, returned⟩ := of_ok_then returned
    cases returned
    have same := tcpRead_sending ran
    have fades : Fades con { con := con' } := ⟨same.state ▸ past, same.buffer, .nil⟩
    exact fades.ending nofun
  | write buffer =>
    have closed : con.state ≠ .established := by
      intro state
      rw [state] at past
      exact past
    change (con.tcpWrite buffer >>= _) = _ at returned
    unfold tcpWrite at returned
    rw [if_pos closed, ok_then] at returned
    cases returned
    exact ⟨past, rfl, List.forall_mem_nil _,
      fun _ _ => show -eNOTCONN < 0 by decide, List.forall_mem_nil _⟩
  | flush =>
    obtain ⟨result, ran, returned⟩ := of_ok_then returned
    cases returned
    exact (tcpFlushBuffer_past past ran).ending nofun
  | flushAck =>
    cases returned
    exact (tcpFlushAck_past past).ending nofun
  | setNoDelay value =>
    cases returned
    have fades : Fades con { con := { con with noDelay := value } } := ⟨past, rfl, .nil⟩
    exact fades.ending nofun
  | close =>
    change (con.tcpClose >>= _) = _ at returned
    have closed : con.state ≠ .established := by
      intro state
      rw [state] at past
      exact past
    unfold tcpClose at returned
    by_cases gone : con.state = .closed
    · rw [if_pos gone, ok_then] at returned
      cases returned
      exact ⟨past, rfl, List.forall_mem_nil _, nofun,
        List.forall_mem_nil _⟩
    · rw [if_neg gone, if_neg closed, ok_then] at returned
      cases returned
      obtain ⟨past', buffer, empty⟩ := tcpCloseConnection_past past
      exact ⟨past', buffer, fun segment present => (empty segment present).1,
        nofun, fun segment present _ => ⟨rfl, (empty segment present).2⟩⟩

end

/-- No event of the run has destroyed the connection. -/
def Kept (trace : List (Event × Outcome)) : Prop := ∀ entry ∈ trace, entry.2.destroyed = false

/-- A connection that has left ESTABLISHED never comes back to it, whatever happens: for as long
as it is not destroyed it keeps its ring, sends no more data and refuses every write. -/
theorem past_for_good (past : start.state.Past) (runs : Runs allowed start trace con) :
    (Kept trace → con.state.Past ∧ con.outgoingBuffer = start.outgoingBuffer) ∧
      ∀ earlier entry later, trace = earlier ++ entry :: later → Kept earlier →
        (∀ segment ∈ entry.2.sent, segment.payload = []) ∧
        ∀ buffer, entry.1 = .write buffer → entry.2.rc < 0 := by
  have fades : con.state.Past ∧ con.outgoingBuffer = start.outgoingBuffer ∧ ∀ entry ∈ trace,
      (∀ segment ∈ entry.2.sent, segment.payload = []) ∧
      ∀ buffer, entry.1 = .write buffer → entry.2.rc < 0 := by
    induction runs with
    | start => exact ⟨past, rfl, List.forall_mem_nil _⟩
    | step before permitted returned ih =>
      obtain ⟨past', buffer, quiet⟩ := ih
      have ending := step_past past' returned
      exact ⟨ending.past, ending.buffer.trans buffer, List.forall_mem_append.mpr
        ⟨quiet, List.forall_mem_singleton.mpr ⟨ending.empty, ending.refused⟩⟩⟩
  obtain ⟨past', buffer, quiet⟩ := fades
  refine ⟨fun _ => ⟨past', buffer⟩, fun earlier entry later split _ => quiet entry ?_⟩
  rw [split]
  exact List.mem_append_right _ (List.mem_cons_self ..)

/-- A refused write and a timer flush in CLOSE_WAIT. -/
theorem past_for_good_close_wait : ∃ trace con,
    Runs (fun _ _ => True) { tcpCreateFd with state := .closeWait } trace con ∧
      trace.length = 2 ∧ Kept trace ∧ con.state.Past := by
  let start : Connection := { tcpCreateFd with state := .closeWait }
  have wrote : start.step (.write [7]) = .ok _ := rfl
  have first : Runs (fun _ _ => True) start _ _ := .step .start trivial wrote
  have flushed : start.step .flush = .ok _ := rfl
  have runs := first.step trivial flushed
  refine ⟨_, _, runs, rfl, ?kept, ((past_for_good (show start.state.Past from trivial) runs).1
    ?kept).1⟩
  exact List.forall_mem_append.mpr
    ⟨List.forall_mem_singleton.mpr rfl, List.forall_mem_singleton.mpr rfl⟩

end Connection
end SbOS.Net
