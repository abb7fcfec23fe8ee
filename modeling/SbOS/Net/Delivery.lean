import SbOS.Net.Established

/-! What a connection delivers to the application. The peer sends its SYN, the bytes of a
stream and its FIN under consecutive sequence numbers, cut into segments in any way; the
network loses, repeats, delays and reorders the segments. `handle_tcp` takes a
segment only if it starts at `rcv_nxt`, and moves `rcv_nxt` over a FIN before it looks at
the state, and without the bytes that come with the FIN. -/
namespace SbOS.Net
open Kernel List Bool

/-- The peer's initial sequence number and what it sends. -/
structure Peer where
  iss : Nat
  stream : List UInt8
  small : iss < 2 ^ 32
  short : stream.length < 2 ^ 32 - 2

/-- The segments of the peer, first and repeated ones alike. A segment without SYN starts at
byte `k` of the stream or, after the FIN, one further. -/
inductive Peer.Sends (peer : Peer) (segment : Segment) : Prop where
  | opening (n : Nat) (flag : has segment.flags syn = true) (seqNum : segment.seqNum = peer.iss)
    (payload : segment.payload = peer.stream.take n)
    (last : has segment.flags fin = true → peer.stream.length ≤ n)
  | next (k n : Nat) (flag : has segment.flags syn = false) (within : k ≤ peer.stream.length + 1)
    (seqNum : segment.seqNum = wrap32 (peer.iss + 1 + k))
    (payload : segment.payload = (peer.stream.drop k).take n)
    (last : has segment.flags fin = true → k ≤ peer.stream.length ∧ peer.stream.length ≤ k + n)

namespace Connection

/-- A connection that has just been opened, by `tcp_connect` or for a listening socket. -/
structure Opened (con : Connection) : Prop where
  state : con.Unsynchronised
  buffer : con.incomingBuffer.Valid
  empty : con.incomingBuffer.contents = []

theorem newConnection_opened (listening : Connection) (srcIp srcPort : Nat)
    (incoming outgoing : Bytes) (shouldSendAck : Bool) :
    (listening.newConnection srcIp srcPort incoming outgoing shouldSendAck).Opened :=
  have represents := Ringbuffer.init_represents incoming (show 2 ≤ 65535 * 64 by decide) (by decide)
  ⟨.inl rfl, represents.valid, represents.items.symm⟩

/-- What happens before the application closes the socket: segments of the peer that are
`allowed`, calls of the application and turns of the timer. -/
def Exchange (peer : Peer) (allowed : Segment → Prop) (_ : Connection) (event : Event) : Prop :=
  (∀ segment, event = .segment segment → peer.Sends segment ∧ allowed segment) ∧ event ≠ .close

/-- What `tcp_read` has returned. -/
def bytesRead (trace : Trace) : List UInt8 := (trace.map fun entry => entry.2.bytes).flatten

/-- What the connection has accepted: what has been read and what is still in the buffer. -/
def accepted (con : Connection) (delivered : List UInt8) : List UInt8 :=
  delivered ++ con.incomingBuffer.contents

/-- What has been read is a prefix of the stream, `rcv_nxt` is not ahead of what has been
accepted, and the next call returns. -/
structure Faithful (peer : Peer) (con : Connection) (delivered : List UInt8) : Prop where
  isPrefix : delivered <+: peer.stream
  rcvNxt : ¬ con.Unsynchronised →
    sub32 con.rcvNxt peer.iss ≤ (con.accepted delivered).length + 2
  receives : ∀ segment, peer.Sends segment → ∃ result, con.receive segment = .ok result
  reads : ∀ len, ∃ result, con.tcpRead len = .ok result

/-- A FIN comes without bytes. -/
def BareFin (segment : Segment) : Prop := has segment.flags fin = true → segment.payload = []

/-- The accepted bytes are the first ones of the stream and `rcv_nxt` is the number of the
next one, or of what follows the FIN. -/
structure InOrder (peer : Peer) (con : Connection) (delivered : List UInt8) : Prop where
  buffer : con.incomingBuffer.Valid
  isPrefix : con.accepted delivered <+: peer.stream
  unsynchronised : con.Unsynchronised → con.accepted delivered = []
  rcvNxt : ¬ con.Unsynchronised →
    con.rcvNxt = wrap32 (peer.iss + 1 + (con.accepted delivered).length) ∨
    con.accepted delivered = peer.stream ∧ con.rcvNxt = wrap32 (peer.iss + 2 + peer.stream.length)

variable {peer : Peer} {con con' : Connection} {delivered : List UInt8} {segment : Segment}

theorem InOrder.opened (opened : con.Opened) : InOrder peer con [] where
  buffer := opened.buffer
  isPrefix := by
    rw [Connection.accepted, opened.empty]
    exact nil_prefix
  unsynchronised _ := opened.empty
  rcvNxt synchronised := absurd opened.state synchronised

theorem tcpRead_ok (valid : con.incomingBuffer.Valid) (len : Nat) :
    ∃ rc bytes incomingBuffer, con.tcpRead len = .ok (rc, bytes, { con with incomingBuffer }) ∧
      incomingBuffer.Valid ∧ bytes ++ incomingBuffer.contents = con.incomingBuffer.contents := by
  obtain ⟨rb, ran, valid', -, contents⟩ :=
    valid.read_front (show len % 2 ^ 32 < 2 ^ 32 from Nat.mod_lt _ (by decide))
  unfold tcpRead
  rw [ran, ok_then]
  dsimp only
  have whole : con.incomingBuffer.contents.take (len % 2 ^ 32) ++ rb.contents =
      con.incomingBuffer.contents := by
    rw [contents, take_append_drop]
  by_cases nothing : min (len % 2 ^ 32) con.incomingBuffer.used = 0 ∧ 0 < len
  · have none : con.incomingBuffer.contents.take (len % 2 ^ 32) = [] := by
      rw [← length_eq_zero_iff, length_take, Ringbuffer.Valid.contents_length]
      exact nothing.1
    rw [none] at whole
    rw [if_pos nothing]
    split
    · exact ⟨_, _, _, rfl, valid', whole⟩
    · exact ⟨_, _, _, rfl, valid', whole⟩
  · rw [if_neg nothing]
    exact ⟨_, _, _, rfl, valid', whole⟩

theorem InOrder.read (order : InOrder peer con delivered)
    (returned : con.tcpRead len = .ok (rc, bytes, con')) : InOrder peer con' (delivered ++ bytes) := by
  obtain ⟨rc', bytes', incomingBuffer, ran, valid, whole⟩ := tcpRead_ok order.buffer len
  rw [ran] at returned
  cases returned
  have same : ({ con with incomingBuffer } : Connection).accepted (delivered ++ bytes) =
      con.accepted delivered := by
    unfold Connection.accepted
    rw [append_assoc, whole]
  refine ⟨valid, ?_, ?_, ?_⟩
  · rw [same]
    exact order.isPrefix
  · rw [same]
    exact order.unsynchronised
  · rw [same]
    exact order.rcvNxt

/-- Nothing more has been received; a connection that gets out of an unsynchronised state has
seen a SYN. -/
structure Unread (con : Connection) (segment : Segment) (con' : Connection) : Prop where
  buffer : con'.incomingBuffer = con.incomingBuffer
  rcvNxt : con'.rcvNxt = con.rcvNxt
  stays : con'.Unsynchronised → con.Unsynchronised
  leaves : con.Unsynchronised → con'.Unsynchronised ∨ has segment.flags syn = true

/-- The bytes of a segment have been taken. -/
structure Takes (con : Connection) (segment : Segment) (con' : Connection) : Prop where
  before : con.state = .established
  after : con'.state = .established
  notLast : has segment.flags fin = false
  valid : con'.incomingBuffer.Valid
  buffer : con'.incomingBuffer.contents = con.incomingBuffer.contents ++ segment.payload
  rcvNxt : con'.rcvNxt = wrap32 (con.rcvNxt + segment.payload.length)

theorem Unread.refl (con : Connection) (segment : Segment) : Unread con segment con :=
  ⟨rfl, rfl, id, .inl⟩

theorem synchronised (state : con.state = later) (known : later ≠ .listen ∧ later ≠ .synSent) :
    ¬ con.Unsynchronised := by
  rintro (listening | sent)
  · exact known.1 (state.symm.trans listening)
  · exact known.2 (state.symm.trans sent)

/-- A change to a state after the SYN. -/
theorem Unread.move (later : State) (buffer : con'.incomingBuffer = con.incomingBuffer)
    (rcvNxt : con'.rcvNxt = con.rcvNxt) (before : ¬ con.Unsynchronised) (after : con'.state = later)
    (known : later ≠ .listen ∧ later ≠ .synSent) : Unread con segment con' :=
  ⟨buffer, rcvNxt, fun wrong => absurd wrong (synchronised after known),
    fun wrong => absurd wrong before⟩

/-- The first change, with the SYN. -/
theorem Unread.synchronise (buffer : con'.incomingBuffer = con.incomingBuffer)
    (rcvNxt : con'.rcvNxt = con.rcvNxt) (before : con.Unsynchronised)
    (flag : has segment.flags syn = true) : Unread con segment con' :=
  ⟨buffer, rcvNxt, fun _ => before, fun _ => .inr flag⟩

theorem receiveEstablished_ok (valid : con.incomingBuffer.Valid) (state : con.state = .established)
    (segment : Segment) :
    ∃ result, con.receiveEstablished segment = .ok result ∧
      (Unread con segment result.con ∨ Takes con segment result.con) := by
  have before : ¬ con.Unsynchronised := synchronised state (by decide)
  unfold receiveEstablished
  by_cases last : has segment.flags fin = true
  · rw [if_pos last]
    exact ⟨_, rfl, .inl (.move .closeWait rfl rfl before rfl (by decide))⟩
  rw [if_neg last]
  by_cases some : 0 < segment.payload.length
  · rw [if_pos some]
    by_cases full : con.incomingBuffer.unused < segment.payload.length
    · rw [if_pos full]
      exact ⟨_, rfl, .inl (.refl con segment)⟩
    · rw [if_neg full]
      obtain ⟨rb, ran, valid', contents⟩ :=
        valid.write_all segment.payload le_rfl (not_lt.mp full)
      rw [take_length] at contents
      have occupied : rb.isempty = false := by
        rw [valid'.represents.isempty, isEmpty_eq_false_iff]
        intro empty
        change rb.contents = [] at empty
        rw [contents, append_eq_nil_iff] at empty
        rw [empty.2] at some
        exact absurd some (lt_irrefl 0)
      rw [ran, ok_then]
      dsimp only
      rw [check_true occupied]
      exact ⟨_, rfl, .inr ⟨state, state, eq_false_iff.mpr last, valid', contents, rfl⟩⟩
  · rw [if_neg some]
    exact ⟨_, rfl, .inl (.refl con segment)⟩

theorem receiveState_ok (valid : con.state = .established → con.incomingBuffer.Valid)
    (segment : Segment) :
    ∃ result, con.receiveState segment = .ok result ∧
      (Unread con segment result.con ∨ Takes con segment result.con) := by
  unfold receiveState
  dsimp only
  split
  case h_1 state =>
    split
    · exact ⟨_, rfl, .inl (.synchronise rfl rfl (.inl state) ‹_›)⟩
    · exact ⟨_, rfl, .inl (.refl con segment)⟩
  case h_2 state =>
    split
    · exact ⟨_, rfl, .inl (.move .established rfl rfl (synchronised state (by decide)) rfl (by decide))⟩
    · exact ⟨_, rfl, .inl (.refl con segment)⟩
  case h_3 state =>
    split
    · rename_i both
      exact ⟨_, rfl, .inl (.synchronise rfl rfl (.inr state) (and_eq_true_iff.mp both).2)⟩
    · exact ⟨_, rfl, .inl (.refl con segment)⟩
  case h_4 state => exact receiveEstablished_ok (valid state) state segment
  case h_5 state =>
    have before : ¬ con.Unsynchronised := synchronised state (by decide)
    split
    · exact ⟨_, rfl, .inl (.move .timeWait rfl rfl before rfl (by decide))⟩
    split
    · exact ⟨_, rfl, .inl (.move .finWait2 rfl rfl before rfl (by decide))⟩
    split
    · exact ⟨_, rfl, .inl (.move .closing rfl rfl before rfl (by decide))⟩
    · exact ⟨_, rfl, .inl (.refl con segment)⟩
  case h_6 state | h_7 state =>
    split
    · exact ⟨_, rfl, .inl (.move .closed rfl rfl (synchronised state (by decide)) rfl (by decide))⟩
    · exact ⟨_, rfl, .inl (.refl con segment)⟩
  all_goals exact ⟨_, rfl, .inl (.refl con segment)⟩

section
variable (order : InOrder peer con delivered)
include order

/-- A segment that is taken starts right after what has been accepted. -/
theorem InOrder.position (sends : peer.Sends segment)
    (synchronised : ¬ con.Unsynchronised) (expected : con.rcvNxt = segment.seqNum) :
    has segment.flags syn = false ∧ ∃ n, segment.payload =
        (peer.stream.drop (con.accepted delivered).length).take n ∧
      (con.rcvNxt = wrap32 (peer.iss + 1 + (con.accepted delivered).length) ∧
        (has segment.flags fin = true →
          peer.stream.length ≤ (con.accepted delivered).length + n) ∨
      con.accepted delivered = peer.stream ∧
        con.rcvNxt = wrap32 (peer.iss + 2 + peer.stream.length) ∧ segment.payload = [] ∧
        has segment.flags fin = false) := by
  have length := order.isPrefix.length_le
  have short := peer.short
  have position := order.rcvNxt synchronised
  rw [expected] at position
  rcases sends with ⟨n, -, seqNum, -⟩ | ⟨k, n, flag, within, seqNum, payload, last⟩
  · -- the number of the SYN does not come again
    unfold wrap32 at position
    rcases position with here | ⟨-, here⟩
    · omega
    · omega
  · refine ⟨flag, n, ?_⟩
    rw [seqNum] at position
    rcases position with here | ⟨whole, here⟩
    · have same : k = (con.accepted delivered).length := by
        unfold wrap32 at here
        omega
      refine ⟨same ▸ payload, .inl ⟨expected.trans (seqNum.trans here), fun final => ?_⟩⟩
      rw [← same]
      exact (last final).2
    · have same : k = peer.stream.length + 1 := by
        unfold wrap32 at here
        omega
      have empty : segment.payload = [] := by
        rw [payload, same, drop_eq_nil_of_le (Nat.le_succ _), take_nil]
      refine ⟨?_, .inr ⟨whole, expected.trans (seqNum.trans here), empty, ?_⟩⟩
      · rw [empty, whole, drop_length, take_nil]
      · rw [← not_eq_true]
        intro final
        have := (last final).1
        omega

/-- Without its bytes, a FIN that is taken ends the stream. -/
theorem InOrder.unread (bare : BareFin segment)
    (payload : segment.payload = (peer.stream.drop (con.accepted delivered).length).take n)
    (place : con.rcvNxt = wrap32 (peer.iss + 1 + (con.accepted delivered).length) ∧
        (has segment.flags fin = true → peer.stream.length ≤ (con.accepted delivered).length + n) ∨
      con.accepted delivered = peer.stream ∧
        con.rcvNxt = wrap32 (peer.iss + 2 + peer.stream.length) ∧ segment.payload = [] ∧
        has segment.flags fin = false) :
    wrap32 (con.rcvNxt + if has segment.flags fin then 1 else 0) =
        wrap32 (peer.iss + 1 + (con.accepted delivered).length) ∨
      con.accepted delivered = peer.stream ∧
        wrap32 (con.rcvNxt + if has segment.flags fin then 1 else 0) =
          wrap32 (peer.iss + 2 + peer.stream.length) := by
  rcases place with ⟨here, last⟩ | ⟨whole, here, -, notLast⟩
  · by_cases final : has segment.flags fin = true
    · have cut := bare final
      rw [payload, take_of_length_le (by rw [length_drop]; have := last final; omega),
        drop_eq_nil_iff] at cut
      have whole := order.isPrefix.eq_of_length (Nat.le_antisymm order.isPrefix.length_le cut)
      refine .inr ⟨whole, ?_⟩
      rw [if_pos final, here, whole]
      unfold wrap32
      omega
    · rw [if_neg final, here]
      refine .inl ?_
      unfold wrap32
      omega
  · rw [notLast, if_neg Bool.false_ne_true, here]
    refine .inr ⟨whole, ?_⟩
    unfold wrap32
    omega

section
variable (sends : peer.Sends segment) (bare : BareFin segment)
include sends bare

/-- The first segments: the SYN says where the stream starts. -/
theorem InOrder.opening (unsynchronised : con.Unsynchronised) :
    ∃ result, con.receive segment = .ok result ∧ InOrder peer result.con delivered := by
  have nothing := order.unsynchronised unsynchronised
  by_cases taken : con.Taken segment
  swap
  · obtain ⟨rcvNxt, ran, -⟩ := receive_of_refused taken
    exact ⟨_, ran, order.buffer, order.isPrefix, fun _ => nothing,
      fun synchronised => absurd unsynchronised synchronised⟩
  rw [receive_of_taken taken]
  obtain ⟨result, switched, effect⟩ :=
    @receiveState_ok (con.acknowledged segment) (fun _ => order.buffer) segment
  refine ⟨result, switched, ?_⟩
  rcases effect with unread | takes
  · have same : result.con.accepted delivered = con.accepted delivered :=
      congrArg (fun rb => delivered ++ rb.contents) unread.buffer
    refine ⟨unread.buffer ▸ order.buffer, same ▸ order.isPrefix, fun _ => same.trans nothing,
      fun synchronised => ?_⟩
    have flag := (unread.leaves unsynchronised).resolve_left synchronised
    rw [unread.rcvNxt, same, nothing]
    change advanced segment.seqNum segment.flags = _ ∨
      _ ∧ advanced segment.seqNum segment.flags = _
    unfold advanced wrap32
    rw [if_pos flag]
    rcases sends with ⟨n, -, seqNum, payload, last⟩ | ⟨k, n, noFlag, -⟩
    · by_cases final : has segment.flags fin = true
      · have empty : peer.stream = [] := by
          have cut := bare final
          rw [payload, take_of_length_le (last final)] at cut
          exact cut
        rw [if_pos final, empty]
        refine .inr ⟨rfl, ?_⟩
        rw [length_nil]
        omega
      · rw [if_neg final]
        refine .inl ?_
        rw [length_nil]
        omega
    · rw [flag] at noFlag
      cases noFlag
  · rcases unsynchronised with listening | sent
    · exact absurd (listening.symm.trans takes.before) (by decide)
    · exact absurd (sent.symm.trans takes.before) (by decide)

theorem InOrder.following (synchronised : ¬ con.Unsynchronised) :
    ∃ result, con.receive segment = .ok result ∧ InOrder peer result.con delivered := by
  by_cases taken : con.Taken segment
  swap
  · obtain ⟨rcvNxt, ran, same⟩ := receive_of_refused taken
    obtain rfl := same synchronised
    exact ⟨_, ran, order⟩
  have expected := taken.2.2.resolve_left synchronised
  rw [receive_of_taken taken]
  obtain ⟨result, switched, effect⟩ :=
    @receiveState_ok (con.acknowledged segment) (fun _ => order.buffer) segment
  refine ⟨result, switched, ?_⟩
  obtain ⟨noSyn, n, payload, place⟩ := order.position sends synchronised expected
  have moved : (con.acknowledged segment).rcvNxt =
      wrap32 (con.rcvNxt + if has segment.flags fin then 1 else 0) := by
    change advanced segment.seqNum segment.flags = _
    unfold advanced wrap32
    rw [← expected, noSyn, if_neg Bool.false_ne_true]
    omega
  rcases effect with unread | takes
  · have same : result.con.accepted delivered = con.accepted delivered :=
      congrArg (fun rb => delivered ++ rb.contents) unread.buffer
    refine ⟨unread.buffer ▸ order.buffer, same ▸ order.isPrefix,
      fun wrong => absurd (unread.stays wrong) synchronised, fun _ => ?_⟩
    rw [unread.rcvNxt, moved, same]
    exact order.unread bare payload place
  · have more : result.con.accepted delivered = con.accepted delivered ++ segment.payload := by
      unfold Connection.accepted
      rw [takes.buffer, append_assoc]
      rfl
    have position : result.con.rcvNxt = wrap32 (con.rcvNxt + segment.payload.length) := by
      rw [takes.rcvNxt, moved, takes.notLast, if_neg Bool.false_ne_true]
      unfold wrap32
      omega
    have after : ¬ result.con.Unsynchronised :=
      Connection.synchronised takes.after (by decide)
    refine ⟨takes.valid, ?_, fun wrong => absurd wrong after, fun _ => ?_⟩
    · rw [more, payload]
      nth_rewrite 1 [prefix_iff_eq_take.mp order.isPrefix]
      rw [← take_add]
      exact take_prefix _ _
    · rw [more, position]
      rcases place with ⟨here, -⟩ | ⟨whole, here, empty, -⟩
      · refine .inl ?_
        rw [here, length_append]
        unfold wrap32
        omega
      · refine .inr ⟨by rw [empty, append_nil, whole], ?_⟩
        rw [here, empty]
        unfold wrap32
        rw [length_nil]
        omega

theorem InOrder.receive :
    ∃ result, con.receive segment = .ok result ∧ InOrder peer result.con delivered := by
  by_cases unsynchronised : con.Unsynchronised
  · exact order.opening sends bare unsynchronised
  · exact order.following sends bare unsynchronised

end

end

theorem receive_ok (valid : con.state = .established → con.incomingBuffer.Valid)
    (segment : Segment) :
    ∃ result, con.receive segment = .ok result := by
  obtain ⟨result, switched, -⟩ :=
    @receiveState_ok (con.acknowledged segment) valid segment
  by_cases taken : con.Taken segment
  · exact ⟨result, (receive_of_taken taken).trans switched⟩
  · obtain ⟨rcvNxt, ran, -⟩ := receive_of_refused taken
    exact ⟨_, ran⟩

theorem InOrder.faithful (order : InOrder peer con delivered) : Faithful peer con delivered where
  isPrefix := (prefix_append _ _).trans order.isPrefix
  rcvNxt synchronised := by
    rcases order.rcvNxt synchronised with here | ⟨whole, here⟩
    · rw [here]
      unfold sub32 wrap32
      omega
    · rw [here, whole]
      unfold sub32 wrap32
      omega
  receives segment _ := receive_ok (fun _ => order.buffer) segment
  reads len := by
    obtain ⟨rc, bytes, incomingBuffer, ran, -⟩ := tcpRead_ok order.buffer len
    exact ⟨_, ran⟩

/-- What the calls that send leave alone. -/
structure Untouched (con con' : Connection) : Prop where
  unsynchronised : con'.Unsynchronised ↔ con.Unsynchronised
  buffer : con'.incomingBuffer = con.incomingBuffer
  rcvNxt : con'.rcvNxt = con.rcvNxt

theorem Untouched.refl (con : Connection) : Untouched con con := ⟨Iff.rfl, rfl, rfl⟩

theorem Draining.untouched (draining : Draining con con') : Untouched con con' := by
  obtain ⟨_, _, _, _, rfl⟩ := draining.same
  exact ⟨Iff.rfl, rfl, rfl⟩

theorem InOrder.untouched (order : InOrder peer con delivered) (untouched : Untouched con con') :
    InOrder peer con' delivered := by
  have same : con'.accepted delivered = con.accepted delivered :=
    congrArg (fun rb => delivered ++ rb.contents) untouched.buffer
  refine ⟨untouched.buffer ▸ order.buffer, same ▸ order.isPrefix, fun unsynchronised => ?_,
    fun synchronised => ?_⟩
  · exact same.trans (order.unsynchronised (untouched.unsynchronised.mp unsynchronised))
  · rw [same, untouched.rcvNxt]
    exact order.rcvNxt fun wrong => synchronised (untouched.unsynchronised.mpr wrong)

theorem tcpFlushBuffer_untouched (returned : con.tcpFlushBuffer = .ok result) :
    Untouched con result.con := by
  have closed : ¬ ({ con with state := .closed } : Connection).Unsynchronised := by
    rintro (listening | sent)
    · cases listening
    · cases sent
  have gone : ∀ later, con.state = later → later ≠ .listen ∧ later ≠ .synSent →
      Untouched con { con with state := .closed } := fun later state known =>
    ⟨iff_of_false closed (Connection.synchronised state known), rfl, rfl⟩
  unfold tcpFlushBuffer at returned
  split at returned
  · cases returned
    exact gone .timeWait ‹_› (by decide)
  · cases returned
    exact gone .finWait2 ‹_› (by decide)
  · obtain ⟨⟨synced, con₁, sent₁⟩, ran, returned⟩ := of_ok_then returned
    cases returned
    exact (tcpSyncBuffer_draining ran).untouched
  · cases returned
    exact .refl con

theorem tcpFlushAck_untouched (con : Connection) : Untouched con con.tcpFlushAck.con := by
  unfold tcpFlushAck
  split
  · exact .refl con
  split
  · exact .refl con
  · exact ⟨Iff.rfl, rfl, rfl⟩

theorem InOrder.step (order : InOrder peer con delivered)
    (fromPeer : ∀ segment, event = .segment segment → peer.Sends segment ∧ BareFin segment)
    (stillOpen : event ≠ .close) (returned : con.step event = .ok outcome) :
    InOrder peer outcome.con (delivered ++ outcome.bytes) := by
  cases event with
  | segment segment =>
    obtain ⟨sends, bare⟩ := fromPeer segment rfl
    obtain ⟨result, ran, order'⟩ := order.receive sends bare
    obtain ⟨result', ran', returned⟩ := of_ok_then returned
    rw [ran] at ran'
    cases ran'
    cases returned
    rw [append_nil]
    exact order'
  | read len =>
    obtain ⟨⟨rc, bytes, con'⟩, ran, returned⟩ := of_ok_then returned
    cases returned
    exact order.read ran
  | write buffer =>
    obtain ⟨⟨rc, con', sent⟩, ran, returned⟩ := of_ok_then returned
    cases returned
    rw [append_nil]
    exact order.untouched (tcpWrite_draining ran).untouched
  | flush =>
    obtain ⟨result, ran, returned⟩ := of_ok_then returned
    cases returned
    rw [append_nil]
    exact order.untouched (tcpFlushBuffer_untouched ran)
  | flushAck =>
    cases returned
    rw [append_nil]
    exact order.untouched con.tcpFlushAck_untouched
  | setNoDelay value =>
    cases returned
    rw [append_nil]
    exact order.untouched ⟨Iff.rfl, rfl, rfl⟩
  | close => exact absurd rfl stillOpen

theorem Runs.inOrder {start : Connection} (opened : start.Opened)
    (run : Runs (Exchange peer BareFin) start trace con) :
    InOrder peer con (bytesRead trace) := by
  induction run with
  | start => exact .opened opened
  | step before permitted returned order =>
    unfold bytesRead
    rw [map_append, flatten_append, map_singleton, flatten_singleton]
    exact order.step permitted.1 permitted.2 returned

/-- In every run in which no FIN carries bytes, the application reads a prefix of the stream. -/
theorem reads_prefix_when_fin_is_bare (opened : start.Opened)
    (run : Runs (Exchange peer BareFin) start trace con) : Faithful peer con (bytesRead trace) :=
  (run.inOrder opened).faithful

/-- A peer that sends two bytes. -/
def twoBytes : Peer := ⟨7, [97, 98], by decide, by decide⟩

/-- A segment of that peer. -/
def fromTwoBytes (seqNum ackNum : Nat) (flags : Flags) (payload : List UInt8) : Event :=
  .segment ⟨5000, 80, seqNum, ackNum, flags, 1000, payload⟩

theorem exchange_opening (permitted : allowed ⟨5000, 80, 7, 0, syn, 1000, []⟩) :
    Exchange twoBytes allowed con (fromTwoBytes 7 0 syn []) := by
  refine ⟨fun segment same => ?_, Event.noConfusion⟩
  cases same
  exact ⟨.opening 0 (by decide) rfl rfl fun wrong => absurd wrong (by decide), permitted⟩

theorem exchange_next (k n : Nat)
    (within : k ≤ 3 ∧ has flags syn = false ∧
      (has flags fin = true → k ≤ 2 ∧ 2 ≤ k + n))
    (permitted : allowed ⟨5000, 80, 8 + k, 1, flags, 1000, ([97, 98].drop k).take n⟩) :
    Exchange twoBytes allowed con
      (fromTwoBytes (8 + k) 1 flags (([97, 98].drop k).take n)) := by
  refine ⟨fun segment same => ?_, Event.noConfusion⟩
  cases same
  refine ⟨.next k n within.2.1 within.1 ?_ rfl within.2.2, permitted⟩
  change 8 + k = wrap32 (7 + 1 + k)
  unfold wrap32
  omega

theorem exchange_read : Exchange peer allowed con (.read len) :=
  ⟨nofun, Event.noConfusion⟩

theorem reads_prefix_of_two_bytes :
    ∃ trace con, bytesRead trace = [97, 98] ∧ Faithful twoBytes con (bytesRead trace) := by
  obtain ⟨⟨trace, con⟩, ran, both⟩ := of_report (show (served.run [] [fromTwoBytes 7 0 syn [],
      fromTwoBytes 8 1 ack [], fromTwoBytes 8 1 (psh ||| ack) [97, 98], .read 10]).toOption.map
        (fun result => bytesRead result.1) = some [97, 98] by decide +kernel)
  refine ⟨trace, con, both, ?_⟩
  refine reads_prefix_when_fin_is_bare (newConnection_opened _ _ _ _ _ _) (Runs.start.run ?_ ran)
  simp only [forall_mem_cons]
  exact ⟨fun _ => exchange_opening (fun wrong => absurd wrong (by decide)),
    fun _ => exchange_next 0 0 (by decide) (fun wrong => absurd wrong (by decide)),
    fun _ => exchange_next 0 2 (by decide) (fun wrong => absurd wrong (by decide)),
    fun _ => exchange_read, forall_mem_nil _⟩

/-- The peer sends both bytes together with its FIN, then the second byte again. The first
segment, which takes the connection out of SYN_RECIEVED, moves `rcv_nxt` over the FIN but not
over the bytes, and the application reads the second byte alone. -/
theorem fin_with_bytes_skips_a_byte :
    ∃ trace con, served.Opened ∧ Runs (Exchange twoBytes fun _ => True) served trace con ∧
      bytesRead trace = [98] ∧ ¬ bytesRead trace <+: twoBytes.stream := by
  obtain ⟨⟨trace, con⟩, ran, second⟩ := of_report (show (served.run [] [fromTwoBytes 7 0 syn [],
      fromTwoBytes 8 1 (fin ||| ack) [97, 98], fromTwoBytes 9 1 (psh ||| ack) [98],
      .read 10]).toOption.map (fun result => bytesRead result.1) = some [98] by decide +kernel)
  refine ⟨trace, con, newConnection_opened _ _ _ _ _ _, Runs.start.run ?_ ran, second, ?_⟩
  · simp only [forall_mem_cons]
    exact ⟨fun _ => exchange_opening trivial, fun _ => exchange_next 0 2 (by decide) trivial,
      fun _ => exchange_next 1 1 (by decide) trivial, fun _ => exchange_read,
      forall_mem_nil _⟩
  · rw [second]
    decide

end Connection
end SbOS.Net
