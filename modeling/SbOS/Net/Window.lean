import SbOS.Net.Established

/-! The peer's window. `tcp_can_send` is the rest of the window as a `u16`, counted from
`snd_max`; nothing is left of the order of sequence numbers when `snd_max` is beyond the edge of
the window or `snd_nxt` has wrapped around. -/
namespace SbOS.Net
open Kernel
namespace Connection

/-- Every byte of a segment is in the window of the connection. `snd_una` and `snd_wnd` do not
change while a call sends. -/
def WithinWindow (con : Connection) (segment : Segment) : Prop :=
  ∀ i < segment.payload.length, sub32 (wrap32 (segment.seqNum + i)) con.sndUna < con.sndWnd

/-- Everything that has been sent is in the window. -/
structure InWindow (con : Connection) : Prop where
  una : con.sndUna ≤ con.sndNxt
  next : con.sndNxt = con.sndMax
  edge : con.sndMax ≤ con.sndUna + con.sndWnd
  small : con.sndMax < 2 ^ 32
  wide : con.sndWnd < 2 ^ 16

/-- An established connection. -/
structure Flowing (con : Connection) : Prop where
  state : con.state = .established
  buffer : con.outgoingBuffer.Valid
  window : con.InWindow

/-- The number of bytes that a call may send. -/
def sendLimit (con : Connection) : Event → Nat
  | .write buffer => min con.tcpCanSend (con.outgoingBuffer.used + buffer.length)
  | .flush | .close => min con.tcpCanSend con.outgoingBuffer.used
  | .segment _ | .read _ | .flushAck | .setNoDelay _ => 0

/-- An acceptable segment leaves what is outstanding inside the window, a write that makes room
in the ring fits the window together with it, and sequence numbers do not wrap around. -/
structure Careful (con : Connection) (event : Event) : Prop where
  typed : ∀ segment, event = .segment segment → segment.windowSize < 2 ^ 16
  acknowledges : ∀ segment, event = .segment segment → con.Acceptable segment →
    con.sndMax ≤ segment.ackNum + segment.windowSize
  fits : ∀ buffer, event = .write buffer → con.WriteFits buffer
  unwrapped : con.sndMax + con.sendLimit event < 2 ^ 32

variable {con con' : Connection} {bytes : List UInt8} {sent : List Segment} {event : Event}
  {outcome : Outcome}

section
variable (window : con.InWindow)
include window

theorem InWindow.ordered : con.Ordered :=
  ⟨Nat.le_of_eq window.next, window.small⟩

theorem InWindow.tcpCanSend (state : con.state = .established) :
    con.sndMax + con.tcpCanSend = con.sndUna + con.sndWnd := by
  obtain ⟨una, next, edge, small, wide⟩ := window
  unfold Connection.tcpCanSend
  rw [if_neg (by rw [state]; decide)]
  unfold sub32 wrap32
  omega

theorem InWindow.same (same : SameSending con con') : con'.InWindow := by
  obtain ⟨una, next, edge, small, wide⟩ := window
  refine ⟨?_, ?_, ?_, ?_, ?_⟩
  · rw [same.sndUna, same.sndNxt]
    exact una
  · rw [same.sndNxt, same.sndMax]
    exact next
  · rw [same.sndMax, same.sndUna, same.sndWnd]
    exact edge
  · rw [same.sndMax]
    exact small
  · rw [same.sndWnd]
    exact wide

theorem InWindow.sendSegment (piece : List UInt8)
    (edge : con.sndMax + piece.length ≤ con.sndUna + con.sndWnd)
    (unwrapped : con.sndMax + piece.length < 2 ^ 32) :
    (con.sendSegment piece).1.InWindow ∧
      (con.sendSegment piece).1.sndMax = con.sndMax + piece.length ∧
      con.WithinWindow (con.sendSegment piece).2 := by
  obtain ⟨una, next, -, small, wide⟩ := window
  have sndNxt : (con.sendSegment piece).1.sndNxt = con.sndMax + piece.length := by
    change wrap32 (con.sndNxt + piece.length) = _
    rw [next]
    exact Nat.mod_eq_of_lt unwrapped
  have sndMax : (con.sendSegment piece).1.sndMax = con.sndMax + piece.length := by
    change max (con.sendSegment piece).1.sndNxt con.sndMax = _
    rw [sndNxt]
    exact max_eq_left (Nat.le_add_right _ _)
  refine ⟨⟨?_, sndNxt.trans sndMax.symm, ?_, ?_, wide⟩, sndMax, fun i inside => ?_⟩
  · change con.sndUna ≤ (con.sendSegment piece).1.sndNxt
    omega
  · rw [sndMax]
    exact edge
  · rw [sndMax]
    exact unwrapped
  · change i < piece.length at inside
    change sub32 (wrap32 (con.sndNxt + i)) con.sndUna < con.sndWnd
    unfold sub32 wrap32
    omega

end

/-- Bytes up to the edge of the window are sent inside it, piece by piece. -/
theorem Transmits.within (transmits : Transmits con bytes con' sent) (window : con.InWindow)
    (edge : con.sndMax + bytes.length ≤ con.sndUna + con.sndWnd)
    (unwrapped : con.sndMax + bytes.length < 2 ^ 32) :
    con'.InWindow ∧ ∀ segment ∈ sent, con.WithinWindow segment := by
  induction transmits with
  | done => exact ⟨window, List.forall_mem_nil _⟩
  | @piece bytes con' sent con piece _ rest ih =>
    rw [List.length_append] at edge unwrapped
    obtain ⟨window', sndMax, first⟩ := window.sendSegment piece (by omega) (by omega)
    obtain ⟨final, others⟩ := ih window'
      (by rw [sndMax]; change _ ≤ con.sndUna + con.sndWnd; omega) (by omega)
    exact ⟨final, List.forall_mem_cons.mpr ⟨first, others⟩⟩

/-- A call that sends stays in the window. -/
theorem Flowing.emits (flowing : con.Flowing) (emits : Emits con bytes rb con' sent)
    (unwrapped : con.sndMax + bytes.length < 2 ^ 32) :
    con'.Flowing ∧ ∀ segment ∈ sent, con.WithinWindow segment := by
  obtain ⟨state, buffer, window⟩ := flowing
  have room := window.tcpCanSend state
  have fits := emits.fits
  obtain ⟨final, within⟩ := emits.transmits.within
    ⟨window.una, window.next, window.edge, window.small, window.wide⟩
    (show con.sndMax + _ ≤ con.sndUna + con.sndWnd by omega) unwrapped
  exact ⟨⟨emits.state.trans state, emits.buffer ▸ emits.valid, final⟩, within⟩

theorem withinWindow_of_empty (empty : ∀ segment ∈ sent, segment.payload = []) :
    ∀ segment ∈ sent, con.WithinWindow segment := by
  intro segment present i inside
  rw [empty segment present] at inside
  exact absurd inside (Nat.not_lt_zero i)

theorem Flowing.same (flowing : con.Flowing) (same : SameSending con con') : con'.Flowing :=
  ⟨same.state.trans flowing.state, same.buffer ▸ flowing.buffer, flowing.window.same same⟩

theorem Flowing.acknowledged {segment : Segment} (flowing : con.Flowing)
    (acceptable : con.Acceptable segment) (wide : segment.windowSize < 2 ^ 16)
    (inside : con.sndMax ≤ segment.ackNum + segment.windowSize) :
    ({ con with sndUna := segment.ackNum, sndWnd := segment.windowSize } : Connection).Flowing where
  state := flowing.state
  buffer := flowing.buffer
  window :=
    { una := acceptable.2.1.trans flowing.window.next.symm.le
      next := flowing.window.next
      edge := inside
      small := flowing.window.small
      wide := wide }

theorem Flowing.step (flowing : con.Flowing) (careful : con.Careful event)
    (returned : con.step event = .ok outcome) :
    (outcome.con.Flowing ∨ outcome.con.state.Past) ∧
      ∀ segment ∈ outcome.sent, con.WithinWindow segment := by
  have quietly : Quiet outcome.sent → ∀ segment ∈ outcome.sent, con.WithinWindow segment :=
    fun quiet => withinWindow_of_empty quiet.empty
  have unwrapped := careful.unwrapped
  have length : con.outgoingBuffer.contents.length = con.outgoingBuffer.used :=
    Ringbuffer.Valid.contents_length
  cases step_established flowing.state flowing.buffer flowing.window.ordered careful.fits
    returned with
  | rests noWrite same quiet => exact ⟨.inl (flowing.same same), quietly quiet⟩
  | acknowledged segment isSegment acceptable same quiet =>
    have moved := flowing.acknowledged acceptable (careful.typed segment isSegment)
      (careful.acknowledges segment isSegment acceptable)
    exact ⟨.inl (moved.same same), quietly quiet⟩
  | left segment isSegment fades => exact ⟨.inr fades.past, quietly fades.quiet⟩
  | wrote buffer isWrite emits wrote =>
    subst isWrite
    have fits := emits.fits
    have amount := wrote.amount
    change con.sndMax + min _ _ < 2 ^ 32 at unwrapped
    obtain ⟨flowing', within⟩ := flowing.emits emits (by omega)
    exact ⟨.inl flowing', within⟩
  | flushed isFlush emits rest =>
    subst isFlush
    obtain ⟨flowing', within⟩ := flowing.emits emits (by rw [List.length_take, length]; exact unwrapped)
    exact ⟨.inl flowing', within⟩
  | closed isClose emits final empty whole past freed =>
    subst isClose
    obtain ⟨-, within⟩ := flowing.emits emits (by rw [List.length_take, length]; exact unwrapped)
    refine ⟨.inr past, ?_⟩
    rw [whole, List.forall_mem_append]
    refine ⟨within, withinWindow_of_empty fun segment present => ?_⟩
    rw [List.mem_singleton.mp present]
    exact empty

theorem Runs.flowing {start : Connection} (flowing : start.Flowing)
    (run : Runs Careful start trace con) : con.Flowing ∨ con.state.Past := by
  induction run with
  | start => exact .inl flowing
  | step before careful returned ih =>
    rcases ih with flowing' | past
    · exact (flowing'.step careful returned).1
    · exact .inr (step_past past returned).past

/-- In every run of careful events, no byte is sent beyond the window. -/
theorem sends_within_window_when_careful {start : Connection} (flowing : start.Flowing)
    (run : Runs Careful start trace con) (careful : con.Careful event)
    (returned : con.step event = .ok outcome) :
    ∀ segment ∈ outcome.sent, con.WithinWindow segment := by
  rcases run.flowing flowing with flowing' | past
  · exact (flowing'.step careful returned).2
  · exact withinWindow_of_empty (step_past past returned).empty

theorem greeted_flowing (noDelay : Bool) (wide : window < 2 ^ 16) :
    (greeted noDelay window).Flowing where
  state := rfl
  buffer := (Ringbuffer.init_represents Bytes.zeros (show 2 ≤ 8192 by decide) (by decide)).valid
  window := ⟨Nat.le_refl 1, rfl, Nat.le_add_right 1 _, show 1 < 2 ^ 32 by decide, wide⟩

theorem sends_within_window_two_bytes :
    ∃ outcome, (greeted true 1000).step (.write [97, 98]) = .ok outcome ∧ outcome.rc = 2 ∧
      ∀ segment ∈ outcome.sent, (greeted true 1000).WithinWindow segment := by
  obtain ⟨outcome, ran, both⟩ := of_report (show ((greeted true 1000).step
      (.write [97, 98])).toOption.map (·.rc) = some 2 by decide +kernel)
  refine ⟨outcome, ran, both, ?_⟩
  refine sends_within_window_when_careful (greeted_flowing true (by decide)) .start ?_ ran
  exact ⟨nofun, nofun,
    fun _ _ delayed => absurd delayed (by decide), by decide +kernel⟩

/-- Two bytes fill the window, and the peer takes the window back before it acknowledges them.
`tcp_can_send` is then `-2` as a `u16`, and the third byte goes out. -/
theorem shrunk_window_lets_a_byte_out :
    ∃ trace con outcome, (greeted true 2).Flowing ∧
      Runs (fun _ _ => True) (greeted true 2) trace con ∧
      con.step (.write [99]) = .ok outcome ∧
      ∃ segment ∈ outcome.sent, ¬ con.WithinWindow segment := by
  obtain ⟨⟨trace, con⟩, ran, report⟩ := of_report (show ((greeted true 2).run [] [.write [97, 98],
      .segment ⟨5000, 80, 8, 1, ack, 0, []⟩]).toOption.map (fun result =>
        (result.2.step (.write [99])).toOption.map fun outcome =>
          (outcome.sent, result.2.sndUna, result.2.sndWnd)) =
      some (some ([⟨80, 5000, 3, 8, psh ||| ack, 65535, [99]⟩], 1, 0)) by decide +kernel)
  obtain ⟨outcome, last, facts⟩ := of_report report
  simp only [Prod.mk.injEq] at facts
  obtain ⟨sent, sndUna, sndWnd⟩ := facts
  refine ⟨trace, con, outcome, greeted_flowing true (by decide),
    Runs.start.run (fun _ _ _ => trivial) ran, last, ⟨_, sent ▸ List.mem_singleton_self _, ?_⟩⟩
  intro within
  have wrong := within 0 (by decide)
  rw [sndWnd] at wrong
  exact absurd wrong (Nat.not_lt_zero _)

end Connection
end SbOS.Net
