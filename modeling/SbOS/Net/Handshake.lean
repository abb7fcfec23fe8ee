import SbOS.Net.Acceptance

/-! Which acknowledgements move a connection on. `handle_tcp` takes an acknowledgement between
`snd_una` and `snd_max` and then looks at the ACK flag alone, and `tcp_close_connection` does not
wait in LAST_ACK at all. -/
namespace SbOS.Net
open Kernel
namespace Connection

/-- An acknowledgement that covers the sequence number of `sent`: it lies after it, and not
after `snd_nxt`, as far as 32 bits tell. -/
def Covers (con : Connection) (segment sent : Segment) : Prop :=
  0 < sub32 segment.ackNum (wrap32 sent.seqNum) ∧
    sub32 segment.ackNum (wrap32 sent.seqNum) ≤ sub32 con.sndNxt (wrap32 sent.seqNum)

/-- The event is a segment that acknowledges one of the segments in `history` that has `flag`. -/
def CoveredBy (con : Connection) (history : List Segment) (flag : Flags) (event : Event) : Prop :=
  ∃ segment, event = .segment segment ∧
    ∃ sent ∈ history, has sent.flags flag = true ∧ con.Covers segment sent

/-- The connection is destroyed from LAST_ACK, where `tcp_close` in CLOSE_WAIT leads to. -/
def EndsLastAck (con : Connection) (event : Event) (outcome : Outcome) : Prop :=
  outcome.destroyed = true ∧
    (con.state = .lastAck ∨ con.state = .closeWait ∧ event = .close)

/-- The changes of state that need an acknowledgement have it. -/
structure Justified (con : Connection) (history : List Segment) (event : Event)
    (outcome : Outcome) : Prop where
  established : con.state ≠ .established → outcome.con.state = .established →
    con.CoveredBy history syn event
  left : con.state = .finWait1 → outcome.con.state = .finWait2 ∨ outcome.con.state = .timeWait →
    con.CoveredBy history fin event
  ended : con.EndsLastAck event outcome → con.CoveredBy history fin event

/-- A connection just opened, with what has been sent for it: nothing, or the SYN of
`tcp_connect`. -/
inductive Opening : Connection → List Segment → Prop where
  | passive (listening : Connection) (srcIp srcPort : Nat) (incoming outgoing : Bytes)
    (shouldSendAck : Bool) :
    Opening (listening.newConnection srcIp srcPort incoming outgoing shouldSendAck) []
  | active (con : Connection) (port outgoingIp outgoingPort : Nat) (incoming outgoing : Bytes) :
    Opening (con.tcpConnect port outgoingIp outgoingPort incoming outgoing).con
      (con.tcpConnect port outgoingIp outgoingPort incoming outgoing).sent

/-- A segment with an ACK that is taken in SYN_RECIEVED or FIN_WAIT1, or with a SYN in
SYN_SENT, acknowledges everything, and `tcp_close` is not called in CLOSE_WAIT. -/
structure Attentive (con : Connection) (event : Event) : Prop where
  acknowledges : ∀ segment, event = .segment segment → con.Taken segment →
    has segment.flags ack = true →
    con.state = .synRecieved ∨ con.state = .synSent ∧ has segment.flags syn = true ∨
      con.state = .finWait1 →
    segment.ackNum = con.sndNxt
  closes : event = .close → con.state ≠ .closeWait

variable {con con' : Connection} {segment : Segment} {result : Result} {history : List Segment}
  {event : Event} {outcome : Outcome}

/-- The last number before `snd_nxt` is that of a segment in `history` with `flag`. -/
def Awaited (con : Connection) (history : List Segment) (flag : Flags) : Prop :=
  ∃ sent ∈ history, has sent.flags flag = true ∧ con.sndNxt = wrap32 (sent.seqNum + 1)

theorem tcpSendEmptyPayload_awaited (con : Connection) (flag : has flags wanted = true)
    (single : has flags syn = !has flags fin) :
    (con.tcpSendEmptyPayload flags).con.Awaited (con.tcpSendEmptyPayload flags).sent wanted := by
  refine ⟨_, List.mem_singleton_self _, flag, ?_⟩
  change wrap32 (wrap32 (con.sndNxt + if has flags syn then 1 else 0) +
    if has flags fin then 1 else 0) = wrap32 (con.sndNxt + 1)
  rw [single]
  cases has flags fin
  · change wrap32 (wrap32 (con.sndNxt + 1) + 0) = _
    unfold wrap32
    omega
  · change wrap32 (wrap32 (con.sndNxt + 0) + 1) = _
    unfold wrap32
    omega

theorem Awaited.before (awaited : con.Awaited history flag) (first : List Segment) :
    con.Awaited (first ++ history) flag := by
  obtain ⟨sent, present, flagged, number⟩ := awaited
  exact ⟨sent, List.mem_append_right _ present, flagged, number⟩

/-- How `handle_tcp` changes the state. -/
inductive Switches (con : Connection) (segment : Segment) (result : Result) : Prop where
  | stays (state : result.con.state = con.state) (sndNxt : result.con.sndNxt = con.sndNxt)
    (kept : result.destroyed = false)
  | synchronises (after : result.con.state = .synRecieved)
    (awaited : result.con.Awaited result.sent syn) (kept : result.destroyed = false)
  | establishes (before : con.state = .synRecieved ∨
      con.state = .synSent ∧ has segment.flags syn = true)
    (flag : has segment.flags ack = true) (after : result.con.state = .established)
    (kept : result.destroyed = false)
  | halfCloses (before : con.state = .finWait1) (flag : has segment.flags ack = true)
    (after : result.con.state = .finWait2 ∨ result.con.state = .timeWait)
    (kept : result.destroyed = false)
  | fades (after : result.con.state = .closing ∨ result.con.state = .closeWait ∨
      result.con.state = .closed)

theorem receiveState_switches (returned : con.receiveState segment = .ok result) :
    Switches con segment result := by
  unfold receiveState at returned
  dsimp only at returned
  split at returned
  case h_1 =>
    split at returned
    · cases returned
      exact .synchronises rfl (tcpSendEmptyPayload_awaited _ (by decide) (by decide)) rfl
    · cases returned
      exact .stays rfl rfl rfl
  case h_2 state =>
    split at returned
    · rename_i flag
      cases returned
      exact .establishes (.inl state) flag rfl rfl
    · cases returned
      exact .stays rfl rfl rfl
  case h_3 state =>
    split at returned
    · rename_i flags
      obtain ⟨flag, flag'⟩ := (Bool.and_eq_true _ _).mp flags
      cases returned
      exact .establishes (.inr ⟨state, flag'⟩) flag rfl rfl
    · cases returned
      exact .stays rfl rfl rfl
  case h_4 =>
    rcases receiveEstablished_cases returned with rfl | ⟨_, _, _, rfl⟩
    · exact .fades (.inr (.inl rfl))
    · exact .stays rfl rfl rfl
  case h_5 state =>
    split at returned
    · rename_i flags
      cases returned
      exact .halfCloses state ((Bool.and_eq_true _ _).mp flags).1 (.inr rfl) rfl
    split at returned
    · rename_i flag
      cases returned
      exact .halfCloses state flag (.inl rfl) rfl
    split at returned
    · cases returned
      exact .fades (.inl rfl)
    · cases returned
      exact .stays rfl rfl rfl
  case h_6 | h_7 =>
    split at returned
    · cases returned
      exact .fades (.inr (.inr rfl))
    · cases returned
      exact .stays rfl rfl rfl
  all_goals
    cases returned
    exact .stays rfl rfl rfl

/-- How an event changes the state. -/
inductive Changes (con : Connection) (event : Event) (outcome : Outcome) : Prop where
  | stays (state : outcome.con.state = con.state)
    (sndNxt : con.state ≠ .established → con.sndNxt < 2 ^ 32 → outcome.con.sndNxt = con.sndNxt)
    (kept : outcome.destroyed = false)
  | synchronises (after : outcome.con.state = .synRecieved)
    (awaited : outcome.con.Awaited outcome.sent syn) (kept : outcome.destroyed = false)
  | establishes (segment : Segment) (isSegment : event = .segment segment)
    (taken : con.Taken segment) (flag : has segment.flags ack = true)
    (before : con.state = .synRecieved ∨ con.state = .synSent ∧ has segment.flags syn = true)
    (after : outcome.con.state = .established) (kept : outcome.destroyed = false)
  | finishes (after : outcome.con.state = .finWait1)
    (awaited : outcome.con.Awaited outcome.sent fin) (kept : outcome.destroyed = false)
  | halfCloses (segment : Segment) (isSegment : event = .segment segment)
    (taken : con.Taken segment) (flag : has segment.flags ack = true)
    (before : con.state = .finWait1)
    (after : outcome.con.state = .finWait2 ∨ outcome.con.state = .timeWait)
    (kept : outcome.destroyed = false)
  | fades (after : outcome.con.state = .closing ∨ outcome.con.state = .closeWait ∨
      outcome.con.state = .closed) (before : con.state ≠ .closeWait ∨ event ≠ .close)
  | abandons (before : con.state = .closeWait) (isClose : event = .close)
    (after : outcome.con.state = .closed)

theorem receive_changes (returned : con.receive segment = .ok result) :
    Changes con (.segment segment) { toResult := result } := by
  rcases receive_taken returned with ⟨rcvNxt, rfl⟩ | ⟨taken, returned⟩
  · exact .stays rfl (fun _ _ => rfl) rfl
  cases receiveState_switches returned with
  | stays state sndNxt kept => exact .stays state (fun _ _ => sndNxt) kept
  | synchronises after awaited kept => exact .synchronises after awaited kept
  | establishes before flag after kept => exact .establishes segment rfl taken flag before after kept
  | halfCloses before flag after kept => exact .halfCloses segment rfl taken flag before after kept
  | fades after => exact .fades after (.inr Event.noConfusion)

theorem tcpFlushAck_changes (con : Connection) :
    Changes con .flushAck { toResult := con.tcpFlushAck } := by
  unfold tcpFlushAck
  split
  · exact .stays rfl (fun _ _ => rfl) rfl
  split
  · exact .stays rfl (fun _ _ => rfl) rfl
  · refine .stays rfl (fun _ small => ?_) rfl
    change wrap32 (wrap32 (con.sndNxt + 0) + 0) = con.sndNxt
    unfold wrap32
    omega

theorem tcpFlushBuffer_changes (returned : con.tcpFlushBuffer = .ok result) :
    Changes con .flush { toResult := result } := by
  unfold tcpFlushBuffer at returned
  split at returned
  · cases returned
    exact .fades (.inr (.inr rfl)) (.inr Event.noConfusion)
  · cases returned
    exact .fades (.inr (.inr rfl)) (.inr Event.noConfusion)
  · rename_i state
    obtain ⟨⟨synced, con', sent⟩, flushed, returned⟩ := of_ok_then returned
    cases returned
    obtain ⟨_, _, _, _, rfl⟩ := (tcpSyncBuffer_draining flushed).same
    exact .stays rfl (fun other => absurd state other) rfl
  · cases returned
    exact .stays rfl (fun _ _ => rfl) rfl

theorem tcpClose_changes (returned : con.tcpClose = .ok result) :
    Changes con .close { toResult := result } := by
  unfold tcpClose at returned
  split at returned
  · cases returned
    exact .stays rfl (fun _ _ => rfl) rfl
  split at returned
  · rename_i state
    obtain ⟨⟨synced, con', sent⟩, flushed, returned⟩ := of_ok_then returned
    obtain ⟨_, _, _, _, rfl⟩ := (tcpSyncBuffer_draining flushed).same
    rw [state] at returned
    cases returned
    exact .finishes rfl
      ((tcpSendEmptyPayload_awaited _ (by decide) (by decide)).before sent) rfl
  · cases returned
    unfold tcpCloseConnection
    split
    · exact .abandons ‹_› rfl rfl
    · exact absurd ‹_› ‹¬ con.state = .established›
    · exact .finishes rfl (tcpSendEmptyPayload_awaited _ (by decide) (by decide)) rfl
    · rename_i state
      exact .fades (.inr (.inr rfl)) (.inl (by rw [state]; decide))
    · exact .stays rfl (fun _ _ => rfl) rfl

theorem step_changes (returned : con.step event = .ok outcome) : Changes con event outcome := by
  cases event with
  | segment segment =>
    obtain ⟨result, ran, returned⟩ := of_ok_then returned
    cases returned
    exact receive_changes ran
  | read len =>
    obtain ⟨⟨rc, bytes, con'⟩, ran, returned⟩ := of_ok_then returned
    cases returned
    obtain ⟨_, rfl⟩ := tcpRead_frame ran
    exact .stays rfl (fun _ _ => rfl) rfl
  | write buffer =>
    obtain ⟨⟨rc, con', sent⟩, ran, returned⟩ := of_ok_then returned
    cases returned
    obtain ⟨_, _, _, _, same⟩ := (tcpWrite_draining ran).same
    refine .stays (by rw [same]) (fun other _ => ?_) rfl
    unfold tcpWrite at ran
    rw [if_pos other] at ran
    cases ran
    rfl
  | flush =>
    obtain ⟨result, ran, returned⟩ := of_ok_then returned
    cases returned
    exact tcpFlushBuffer_changes ran
  | flushAck =>
    cases returned
    exact con.tcpFlushAck_changes
  | setNoDelay value =>
    cases returned
    exact .stays rfl (fun _ _ => rfl) rfl
  | close =>
    obtain ⟨result, ran, returned⟩ := of_ok_then returned
    cases returned
    exact tcpClose_changes ran

/-- Where an acknowledgement is waited for, all but that has been acknowledged or lies before
it. LAST_ACK does not outlive the call that sets it. -/
structure Awaiting (con : Connection) (history : List Segment) : Prop where
  syn : con.state = .synSent ∨ con.state = .synRecieved → con.Awaited history syn
  fin : con.state = .finWait1 → con.Awaited history fin
  last : con.state ≠ .lastAck

theorem Awaited.covered (awaited : con.Awaited history flag) (whole : segment.ackNum = con.sndNxt) :
    con.CoveredBy history flag (.segment segment) := by
  obtain ⟨sent, present, flagged, number⟩ := awaited
  have one : sub32 con.sndNxt (wrap32 sent.seqNum) = 1 := by
    rw [number]
    unfold sub32 wrap32
    omega
  refine ⟨segment, rfl, sent, present, flagged, ?_⟩
  unfold Covers
  rw [whole, one]
  exact ⟨Nat.one_pos, Nat.le_refl 1⟩

theorem Awaited.stays (awaited : con.Awaited history flag)
    (sndNxt : con.sndNxt < 2 ^ 32 → con'.sndNxt = con.sndNxt) (sent : List Segment) :
    con'.Awaited (history ++ sent) flag := by
  obtain ⟨segment, present, flagged, number⟩ := awaited
  have small : con.sndNxt < 2 ^ 32 := by
    rw [number]
    exact Nat.mod_lt _ (by decide)
  exact ⟨segment, List.mem_append_left _ present, flagged, (sndNxt small).trans number⟩

/-- Without an acknowledgement that is waited for. -/
theorem Awaiting.other {state : State} (after : con.state = state)
    (known : state ≠ .synSent ∧ state ≠ .synRecieved ∧ state ≠ .finWait1 ∧ state ≠ .lastAck) :
    Awaiting con history := by
  subst after
  obtain ⟨synSent, synRecieved, finWait1, last⟩ := known
  exact ⟨fun wrong => (wrong.elim synSent synRecieved).elim, fun wrong => absurd wrong finWait1,
    last⟩

theorem Changes.awaiting (changes : Changes con event outcome)
    (awaiting : Awaiting con history) : Awaiting outcome.con (history ++ outcome.sent) := by
  cases changes with
  | stays state sndNxt kept =>
    refine ⟨fun waits => ?_, fun waits => ?_, by rw [state]; exact awaiting.last⟩
    · rw [state] at waits
      refine (awaiting.syn waits).stays (sndNxt ?_) outcome.sent
      rcases waits with waits | waits
      · rw [waits]; decide
      · rw [waits]; decide
    · rw [state] at waits
      exact (awaiting.fin waits).stays (sndNxt (by rw [waits]; decide)) outcome.sent
  | synchronises after awaited kept =>
    refine ⟨fun _ => awaited.before history, fun wrong => ?_, by rw [after]; decide⟩
    exact absurd (after.symm.trans wrong) (by decide)
  | establishes segment isSegment taken flag before after kept => exact .other after (by decide)
  | finishes after awaited kept =>
    refine ⟨fun wrong => ?_, fun _ => awaited.before history, by rw [after]; decide⟩
    rw [after] at wrong
    exact absurd wrong (by decide)
  | halfCloses segment isSegment taken flag before after kept =>
    rcases after with after | after
    · exact .other after (by decide)
    · exact .other after (by decide)
  | fades after before =>
    rcases after with after | after | after
    · exact .other after (by decide)
    · exact .other after (by decide)
    · exact .other after (by decide)
  | abandons before isClose after => exact .other after (by decide)

section
variable (changes : Changes con event outcome) (awaiting : Awaiting con history)
  (attentive : Attentive con event)
include changes awaiting attentive

theorem Changes.established (before : con.state ≠ .established) (after :
    outcome.con.state = .established) :
    con.CoveredBy history Net.syn event := by
  cases changes with
  | stays state sndNxt kept => exact absurd (state.symm.trans after) before
  | synchronises after' | finishes after' | abandons _ _ after' =>
    exact absurd (after'.symm.trans after) (by decide)
  | establishes segment isSegment taken flag before' after' kept =>
    obtain rfl := isSegment
    rcases before' with state | ⟨state, flag'⟩
    · exact (awaiting.syn (.inr state)).covered
        (attentive.acknowledges segment rfl taken flag (.inl state))
    · exact (awaiting.syn (.inl state)).covered
        (attentive.acknowledges segment rfl taken flag (.inr (.inl ⟨state, flag'⟩)))
  | halfCloses _ _ _ _ _ after' | fades after' =>
    rw [after] at after'
    exact absurd after' (by decide)

theorem Changes.left (before : con.state = .finWait1)
    (after : outcome.con.state = .finWait2 ∨ outcome.con.state = .timeWait) :
    con.CoveredBy history Net.fin event := by
  have other {state : State} (after' : outcome.con.state = state)
      (known : state ≠ .finWait2 ∧ state ≠ .timeWait) : con.CoveredBy history Net.fin event := by
    subst after'
    exact (after.elim known.1 known.2).elim
  cases changes with
  | stays state sndNxt kept => exact other (state.trans before) (by decide)
  | synchronises after' awaited kept => exact other after' (by decide)
  | establishes segment isSegment taken flag before' after' kept => exact other after' (by decide)
  | finishes after' awaited kept => exact other after' (by decide)
  | halfCloses segment isSegment taken flag before' after' kept =>
    obtain rfl := isSegment
    exact (awaiting.fin before).covered
      (attentive.acknowledges segment rfl taken flag (.inr (.inr before)))
  | fades after' before' =>
    rcases after' with after' | after' | after'
    · exact other after' (by decide)
    · exact other after' (by decide)
    · exact other after' (by decide)
  | abandons before' isClose after' => exact other after' (by decide)

end

theorem Opening.awaiting {start : Connection} (opening : Opening start history) :
    Awaiting start history := by
  cases opening with
  | passive listening srcIp srcPort incoming outgoing shouldSendAck =>
    have state : (listening.newConnection srcIp srcPort incoming outgoing shouldSendAck).state =
        .listen := rfl
    exact .other state (by decide)
  | active con port outgoingIp outgoingPort incoming outgoing =>
    refine ⟨fun _ => tcpSendEmptyPayload_awaited _ (by decide) (by decide), ?_, ?_⟩
    · intro wrong
      exact State.noConfusion wrong
    · exact State.noConfusion

theorem Awaiting.runs (awaiting : Awaiting start history)
    (runs : Runs allowed start trace con) : Awaiting con (history ++ allSent trace) := by
  induction runs with
  | start =>
    rw [show allSent [] = [] from rfl, List.append_nil]
    exact awaiting
  | step before permitted returned ih =>
    rw [allSent_snoc, ← List.append_assoc]
    exact (step_changes returned).awaiting ih

/-- In a run of attentive events from an opening, ESTABLISHED is entered only on an
acknowledgement of the SYN, and FIN_WAIT1 and LAST_ACK are left only on one of the FIN. -/
theorem state_changes_justified_when_attentive {start : Connection}
    (opening : Opening start history) (runs : Runs Attentive start trace con)
    (permitted : Attentive con event) (returned : con.step event = .ok outcome) :
    Justified con (history ++ allSent trace) event outcome := by
  have awaiting := opening.awaiting.runs runs
  have changes := step_changes returned
  refine ⟨changes.established awaiting permitted, changes.left awaiting permitted, ?_⟩
  rintro ⟨-, state | ⟨state, isClose⟩⟩
  · exact absurd state awaiting.last
  · exact absurd state (permitted.closes isClose)

theorem state_changes_justified_greeting :
    ∃ trace con outcome, Runs Attentive served trace con ∧
      con.step (.segment ⟨5000, 80, 8, 1, ack, 1000, []⟩) = .ok outcome ∧
      outcome.con.state = .established ∧
      Justified con ([] ++ allSent trace) (.segment ⟨5000, 80, 8, 1, ack, 1000, []⟩) outcome := by
  have plain : Attentive served (.segment ⟨5000, 80, 7, 0, syn, 1000, []⟩) := by
    refine ⟨fun segment isSegment _ flag => ?_, Event.noConfusion⟩
    cases isSegment
    exact absurd flag (by decide)
  have greeting : Runs Attentive served _ _ := .step .start plain rfl
  refine ⟨_, _, _, greeting, rfl, rfl, ?_⟩
  refine state_changes_justified_when_attentive (.passive (tcpCreateFd.bind 80) 1 5000 _ _ false)
    greeting ⟨fun segment isSegment _ _ _ => ?_, Event.noConfusion⟩ rfl
  cases isSegment
  rfl

/-- After a SYN and the answer to it, an ACK with the number 0 makes the connection
ESTABLISHED. -/
theorem ack_of_nothing_establishes :
    ∃ trace con outcome, Opening served [] ∧ Runs (fun _ _ => True) served trace con ∧
      con.step (.segment ⟨5000, 80, 8, 0, ack, 1000, []⟩) = .ok outcome ∧
      outcome.con.state = .established ∧
      ¬ Justified con ([] ++ allSent trace) (.segment ⟨5000, 80, 8, 0, ack, 1000, []⟩) outcome := by
  have answered : served.step (.segment ⟨5000, 80, 7, 0, syn, 1000, []⟩) = .ok _ := rfl
  have greeting : Runs (fun _ _ => True) served _ _ := .step .start trivial answered
  refine ⟨_, _, _, .passive (tcpCreateFd.bind 80) 1 5000 _ _ false, greeting, rfl, rfl, ?_⟩
  intro justified
  obtain ⟨segment, isSegment, sent, present, -, after, -⟩ :=
    justified.established State.noConfusion rfl
  cases isSegment
  obtain rfl := List.mem_singleton.mp present
  exact absurd after (by decide)

end Connection
end SbOS.Net
