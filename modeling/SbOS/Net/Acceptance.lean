import SbOS.Net.Established

/-! What becomes of the bytes that `tcp_write` accepts. They wait in the ring of the connection
or go out at once; `tcp_flush_buffers`, a write without room and `tcp_close` send what the window
allows, and `tcp_close` frees the ring whatever is left in it. -/
namespace SbOS.Net
open Kernel
open List hiding after

/-- The bytes of segments, in order. -/
def payloads (segments : List Segment) : List UInt8 := (segments.map Segment.payload).flatten

theorem payloads_append (first second : List Segment) :
    payloads (first ++ second) = payloads first ++ payloads second := by
  unfold payloads
  rw [map_append, flatten_append]

/-- Segments with bytes bear the numbers of their bytes, counted on from `number`. -/
def Numbered (number : Nat) : List Segment → Prop
  | [] => True
  | segment :: rest =>
    (segment.payload ≠ [] → segment.seqNum = wrap32 number) ∧
      Numbered (number + segment.payload.length) rest

theorem Numbered.append (left : Numbered number first)
    (right : Numbered (number + (payloads first).length) second) :
    Numbered number (first ++ second) := by
  induction first generalizing number with
  | nil => exact right
  | cons segment rest ih =>
    refine ⟨left.1, ih left.2 ?_⟩
    have length : (payloads (segment :: rest)).length =
        segment.payload.length + (payloads rest).length := length_append
    rw [length, ← add_assoc] at right
    exact right

theorem Numbered.of_empty
    (empty : ∀ segment ∈ segments, segment.payload = []) : Numbered number segments := by
  induction segments generalizing number with
  | nil => trivial
  | cons segment rest ih =>
    obtain ⟨first, others⟩ := forall_mem_cons.mp empty
    exact ⟨fun wrong => absurd first wrong, ih others⟩

theorem payloads_of_empty
    (empty : ∀ segment ∈ segments, segment.payload = []) : payloads segments = [] := by
  unfold payloads
  rw [flatten_eq_nil_iff]
  intro payload present
  obtain ⟨segment, inside, rfl⟩ := mem_map.mp present
  exact empty segment inside

namespace Connection

/-- Every segment of a run. -/
def allSent (trace : Trace) : List Segment := (trace.map fun entry => entry.2.sent).flatten

/-- The bytes that a call has accepted, by the value that it returned. -/
def acceptedBy : Event × Outcome → List UInt8
  | (.write buffer, outcome) => buffer.take outcome.rc.toNat
  | _ => []

def bytesAccepted (trace : Trace) : List UInt8 := (trace.map acceptedBy).flatten

/-- A FIN comes after every byte that has ever been accepted. -/
def FinLast (start : Connection) (trace : Trace) : Prop :=
  ∀ before final after, allSent trace = before ++ final :: after → has final.flags fin = true →
    payloads before = start.outgoingBuffer.contents ++ bytesAccepted trace

/-- No write has returned zero, and what has been sent, followed by the ring, is what has been
accepted. -/
structure Exact (start : Connection) (trace : Trace) (con : Connection) : Prop where
  answers : ∀ buffer outcome, (.write buffer, outcome) ∈ trace →
    outcome.rc ≠ 0 ∧ outcome.rc ≤ buffer.length
  numbered : Numbered start.sndNxt (allSent trace)
  whole : payloads (allSent trace) ++ con.outgoingBuffer.contents =
    start.outgoingBuffer.contents ++ bytesAccepted trace
  finLast : FinLast start trace

/-- A write that finds no room in the ring has something to make room of, and fits the
window together with it; a write without delay finds the ring empty, and so does
`tcp_close` in CLOSE_WAIT; the window takes what the ring holds at `tcp_close`. -/
structure Orderly (con : Connection) (event : Event) : Prop where
  room : ∀ buffer, event = .write buffer → con.state = .established → con.noDelay = false →
    con.outgoingBuffer.unused < con.writeLen buffer →
    0 < con.outgoingBuffer.used ∧
      con.outgoingBuffer.used + con.writeLen buffer ≤ con.tcpCanSend
  direct : ∀ buffer, event = .write buffer → con.state = .established → con.noDelay = true →
    con.outgoingBuffer.used = 0
  closes : event = .close → con.state = .established → con.outgoingBuffer.used ≤ con.tcpCanSend
  ends : event = .close → con.state = .closeWait → con.outgoingBuffer.used = 0

variable {start con con' : Connection} {trace : Trace} {event : Event} {outcome : Outcome}
  {bytes : List UInt8} {sent : List Segment}

theorem allSent_snoc : allSent (trace ++ [(event, outcome)]) = allSent trace ++ outcome.sent := by
  unfold allSent
  rw [map_append, flatten_append, map_singleton, flatten_singleton]

theorem bytesAccepted_snoc :
    bytesAccepted (trace ++ [(event, outcome)]) = bytesAccepted trace ++ acceptedBy (event, outcome) := by
  unfold bytesAccepted
  rw [map_append, flatten_append, map_singleton, flatten_singleton]

theorem acceptedBy_other (noWrite : ∀ buffer, event ≠ .write buffer) :
    acceptedBy (event, outcome) = [] := by
  cases event with
  | write buffer => exact absurd rfl (noWrite buffer)
  | _ => rfl

theorem acceptedBy_refused (refused : ∀ buffer, event = .write buffer → outcome.rc < 0) :
    acceptedBy (event, outcome) = [] := by
  cases event with
  | write buffer =>
    change buffer.take outcome.rc.toNat = []
    rw [Int.toNat_of_nonpos (Int.le_of_lt (refused buffer rfl)), take_zero]
  | _ => rfl

theorem FinLast.snoc (finLast : FinLast start trace)
    (nothing : acceptedBy (event, outcome) = [] ∨
      ∀ segment ∈ allSent trace, has segment.flags fin = false)
    (here : ∀ before final after, outcome.sent = before ++ final :: after →
      has final.flags fin = true → payloads (allSent trace ++ before) =
        start.outgoingBuffer.contents ++ bytesAccepted (trace ++ [(event, outcome)])) :
    FinLast start (trace ++ [(event, outcome)]) := by
  intro before final after split flag
  rw [allSent_snoc] at split
  rcases append_eq_append_iff.mp split with ⟨middle, rfl, rest⟩ | ⟨middle, earlier, rest⟩
  · exact here middle final after rest flag
  · cases middle with
    | nil =>
      rw [append_nil] at earlier
      have first := here [] final after rest.symm flag
      rw [append_nil, earlier] at first
      exact first
    | cons segment middle =>
      obtain ⟨rfl, -⟩ := cons.inj rest
      rcases nothing with none | silent
      · rw [bytesAccepted_snoc, none, append_nil]
        exact finLast before final middle earlier flag
      · have quiet := silent final (earlier ▸ mem_append_right _ mem_cons_self)
        exact absurd flag (Bool.eq_false_iff.mp quiet)

/-- One more event, with what it has sent and accepted. -/
theorem Exact.snoc (exact : Exact start trace con)
    (answer : ∀ buffer, event = .write buffer → outcome.rc ≠ 0 ∧ outcome.rc ≤ buffer.length)
    (numbered : Numbered (start.sndNxt + (payloads (allSent trace)).length) outcome.sent)
    (whole : payloads outcome.sent ++ outcome.con.outgoingBuffer.contents =
      con.outgoingBuffer.contents ++ acceptedBy (event, outcome))
    (finLast : FinLast start (trace ++ [(event, outcome)])) :
    Exact start (trace ++ [(event, outcome)]) outcome.con where
  answers buffer last present := by
    rcases mem_append.mp present with earlier | now
    · exact exact.answers buffer last earlier
    · obtain ⟨isWrite, rfl⟩ := Prod.mk.inj (mem_singleton.mp now)
      exact answer buffer isWrite.symm
  numbered := by
    rw [allSent_snoc]
    exact exact.numbered.append numbered
  whole := by
    rw [allSent_snoc, bytesAccepted_snoc, payloads_append, append_assoc, whole,
      ← append_assoc, exact.whole, append_assoc]
  finLast := finLast

/-- The run is still in ESTABLISHED. -/
structure Live (start : Connection) (trace : Trace) (con : Connection) : Prop where
  state : con.state = .established
  buffer : con.outgoingBuffer.Valid
  ordered : con.Ordered
  next : con.sndNxt = wrap32 (start.sndNxt + (payloads (allSent trace)).length)
  silent : ∀ segment ∈ allSent trace, has segment.flags fin = false

theorem Transmits.numbered (transmits : Transmits con bytes con' sent)
    (next : con.sndNxt = wrap32 number) :
    Numbered number sent ∧ con'.sndNxt = wrap32 (number + bytes.length) := by
  induction transmits generalizing number with
  | done => exact ⟨trivial, next⟩
  | @piece bytes con' sent con piece _ rest ih =>
    have next' : (con.sendSegment piece).1.sndNxt = wrap32 (number + piece.length) := by
      change wrap32 (con.sndNxt + piece.length) = _
      rw [next]
      unfold wrap32
      omega
    obtain ⟨numbered, last⟩ := ih next'
    refine ⟨⟨fun _ => next, numbered⟩, ?_⟩
    rw [last, length_append, add_assoc]

theorem Transmits.silent (transmits : Transmits con bytes con' sent) :
    ∀ segment ∈ sent, has segment.flags fin = false := by
  induction transmits with
  | done => exact forall_mem_nil _
  | piece _ rest ih => exact forall_mem_cons.mpr ⟨show has (psh ||| ack) fin = false by decide, ih⟩

section
variable (silent : ∀ segment ∈ sent, has segment.flags fin = false)
include silent

theorem no_fin_here {claim : Prop}
    (split : sent = before ++ final :: after) (flag : has final.flags fin = true) : claim :=
  absurd flag (Bool.eq_false_iff.mp (silent final (split ▸ mem_append_right _ mem_cons_self)))

/-- The only segment with a FIN is the last one. -/
theorem before_last (split : sent ++ [final] = before ++ last :: after) (flag :
    has last.flags fin = true) :
    before = sent := by
  rcases append_eq_append_iff.mp split with ⟨middle, rfl, rest⟩ | ⟨middle, earlier, rest⟩
  · have short := congrArg length rest
    simp only [length_append, length_cons, length_nil] at short
    have none : middle = [] := length_eq_zero_iff.mp (by omega)
    rw [none, append_nil]
  · cases middle with
    | nil =>
      rw [append_nil] at earlier
      exact earlier.symm
    | cons segment middle =>
      obtain ⟨rfl, -⟩ := cons.inj rest
      exact no_fin_here silent earlier flag

end

/-- An event that neither sends nor accepts bytes. -/
theorem Exact.quiet (exact : Exact start trace con) (noWrite : ∀ buffer, event ≠ .write buffer)
    (buffer : outcome.con.outgoingBuffer = con.outgoingBuffer) (quiet : Quiet outcome.sent) :
    Exact start (trace ++ [(event, outcome)]) outcome.con := by
  have nothing : acceptedBy (event, outcome) = [] := acceptedBy_other noWrite
  refine exact.snoc (fun written isWrite => absurd isWrite (noWrite written))
    (.of_empty quiet.empty) ?_ (exact.finLast.snoc (.inl nothing) fun _ _ _ split flag => ?_)
  · rw [payloads_of_empty quiet.empty, nothing, buffer, append_nil, nil_append]
  · exact no_fin_here quiet.silent split flag

theorem Live.quiet (live : Live start trace con) (state : outcome.con.state = con.state)
    (buffer : outcome.con.outgoingBuffer = con.outgoingBuffer)
    (sndNxt : outcome.con.sndNxt = con.sndNxt) (sndMax : outcome.con.sndMax = con.sndMax)
    (quiet : Quiet outcome.sent) : Live start (trace ++ [(event, outcome)]) outcome.con where
  state := state.trans live.state
  buffer := buffer ▸ live.buffer
  ordered := ⟨sndNxt ▸ sndMax ▸ live.ordered.le, sndMax ▸ live.ordered.small⟩
  next := by
    rw [sndNxt, live.next, allSent_snoc, payloads_append, payloads_of_empty quiet.empty,
      append_nil]
  silent := by
    rw [allSent_snoc, forall_mem_append]
    exact ⟨live.silent, quiet.silent⟩

/-- An event that sends `bytes` and leaves the ring as `rb`. -/
theorem Exact.emits (event : Event) (exact : Exact start trace con) (live : Live start trace con)
    (emits : Emits con bytes rb outcome.con outcome.sent)
    (answer : ∀ buffer, event = .write buffer → outcome.rc ≠ 0 ∧ outcome.rc ≤ buffer.length)
    (whole : bytes ++ rb.contents = con.outgoingBuffer.contents ++ acceptedBy (event, outcome)) :
    Exact start (trace ++ [(event, outcome)]) outcome.con ∧
      Live start (trace ++ [(event, outcome)]) outcome.con := by
  have sent : payloads outcome.sent = bytes := emits.transmits.payloads
  obtain ⟨numbered, next⟩ := emits.transmits.numbered live.next
  have silent := emits.transmits.silent
  refine ⟨exact.snoc answer numbered ?_
      (exact.finLast.snoc (.inr live.silent) fun _ _ _ split flag => no_fin_here silent split flag),
    emits.state.trans live.state, emits.buffer ▸ emits.valid, emits.ordered live.ordered, ?_, ?_⟩
  · rw [sent, emits.buffer, whole]
  · rw [next, allSent_snoc, payloads_append, sent, length_append, add_assoc]
  · rw [allSent_snoc, forall_mem_append]
    exact ⟨live.silent, silent⟩

theorem Orderly.fits (orderly : con.Orderly event) (state : con.state = .established) :
    ∀ buffer, event = .write buffer → con.WriteFits buffer :=
  fun buffer isWrite delayed full _ _ => (orderly.room buffer isWrite state delayed full).2

section
variable (exact : Exact start trace con)
include exact

/-- `tcp_close` sends the whole ring before its FIN. -/
theorem Exact.closed (live : Live start trace con) (isClose : event = .close)
    (emits : Emits con (con.outgoingBuffer.contents.take con.tcpCanSend) rb con₁ sent)
    (fits : con.outgoingBuffer.used ≤ con.tcpCanSend) (empty : final.payload = [])
    (all : outcome.sent = sent ++ [final]) (freed : outcome.con.outgoingBuffer.contents = []) :
    Exact start (trace ++ [(event, outcome)]) outcome.con := by
  have noWrite : ∀ buffer, event ≠ .write buffer := by
    rintro buffer rfl
    cases isClose
  have nothing : acceptedBy (event, outcome) = [] := acceptedBy_other noWrite
  have ring : con.outgoingBuffer.contents.take con.tcpCanSend = con.outgoingBuffer.contents := by
    rw [take_of_length_le]
    rw [Ringbuffer.Valid.contents_length]
    exact fits
  have data : payloads sent = con.outgoingBuffer.contents := emits.transmits.payloads.trans ring
  have last : ∀ segment ∈ [final], segment.payload = [] := by
    intro segment present
    rw [mem_singleton.mp present]
    exact empty
  refine exact.snoc (fun buffer isWrite => absurd isWrite (noWrite buffer)) ?_ ?_ ?_
  · rw [all]
    exact (emits.transmits.numbered live.next).1.append (.of_empty last)
  · rw [all, payloads_append, data, payloads_of_empty last, freed, nothing, append_nil]
  · refine exact.finLast.snoc (.inl nothing) fun before last' after split flag => ?_
    rw [all] at split
    obtain rfl := before_last emits.transmits.silent split flag
    rw [bytesAccepted_snoc, nothing, append_nil, ← exact.whole, payloads_append, data]

/-- One event in ESTABLISHED. -/
theorem Exact.established (live : Live start trace con)
    (orderly : con.Orderly event) (returned : con.step event = .ok outcome) :
    Exact start (trace ++ [(event, outcome)]) outcome.con ∧
      (Live start (trace ++ [(event, outcome)]) outcome.con ∨ outcome.con.state.Past) := by
  cases step_established live.state live.buffer live.ordered (orderly.fits live.state) returned with
  | rests noWrite same quiet =>
    exact ⟨exact.quiet noWrite same.buffer quiet,
      .inl (live.quiet same.state same.buffer same.sndNxt same.sndMax quiet)⟩
  | acknowledged segment isSegment acceptable same quiet =>
    subst isSegment
    exact ⟨exact.quiet nofun same.buffer quiet,
      .inl (live.quiet same.state same.buffer same.sndNxt same.sndMax quiet)⟩
  | left segment isSegment fades =>
    subst isSegment
    exact ⟨exact.quiet nofun fades.buffer fades.quiet, .inr fades.past⟩
  | wrote buffer isWrite emits wrote =>
    subst isWrite
    have nonzero : outcome.rc ≠ 0 := by
      intro zero
      obtain ⟨delayed, full, stuck⟩ := wrote.zero zero
      obtain ⟨busy, fits⟩ := orderly.room buffer rfl live.state delayed full
      exact stuck ⟨busy, by omega⟩
    obtain ⟨exact', live'⟩ := exact.emits (.write buffer) live emits
      (fun written same => by cases same; exact ⟨nonzero, wrote.small⟩)
      (wrote.exact (orderly.direct buffer rfl live.state))
    exact ⟨exact', .inl live'⟩
  | flushed isFlush emits rest =>
    subst isFlush
    obtain ⟨exact', live'⟩ := exact.emits .flush live emits nofun (by
      rw [rest, take_append_drop]
      exact (append_nil _).symm)
    exact ⟨exact', .inl live'⟩
  | closed isClose emits final empty all past freed =>
    exact ⟨exact.closed live isClose emits (orderly.closes isClose live.state) empty all freed,
      .inr past⟩

/-- One event after ESTABLISHED. -/
theorem Exact.past (past : con.state.Past)
    (orderly : con.Orderly event) (returned : con.step event = .ok outcome) :
    Exact start (trace ++ [(event, outcome)]) outcome.con := by
  obtain ⟨-, buffer, empty, refused, silent⟩ := step_past past returned
  have nothing := acceptedBy_refused refused
  refine exact.snoc (fun written isWrite => ?_) (.of_empty empty) ?_
    (exact.finLast.snoc (.inl nothing) fun before final after split flag => ?_)
  · have negative := refused written isWrite
    omega
  · rw [payloads_of_empty empty, nothing, buffer, append_nil, nil_append]
  · -- the FIN of CLOSE_WAIT, where the ring is not flushed any more
    have inside : ∀ segment ∈ before, segment.payload = [] := fun segment present =>
      empty segment (split ▸ mem_append_left _ present)
    obtain ⟨isClose, state⟩ :=
      silent final (split ▸ mem_append_right _ mem_cons_self) flag
    have drained : con.outgoingBuffer.contents = [] := by
      rw [← length_eq_zero_iff, Ringbuffer.Valid.contents_length]
      exact orderly.ends isClose state
    have whole := exact.whole
    rw [drained, append_nil] at whole
    rw [payloads_append, payloads_of_empty inside, append_nil, bytesAccepted_snoc, nothing,
      append_nil, whole]

end

/-- An established connection. -/
structure Ready (con : Connection) : Prop where
  state : con.state = .established
  buffer : con.outgoingBuffer.Valid
  ordered : con.Ordered

theorem Ready.exact (start : Connection) : Exact start [] start where
  answers _ _ none := absurd none not_mem_nil
  numbered := trivial
  whole := (append_nil _).symm
  finLast before final after split _ := absurd split (by
    exact (append_ne_nil_of_right_ne_nil _ (cons_ne_nil _ _)).symm)

theorem Ready.live (ready : start.Ready) : Live start [] start where
  state := ready.state
  buffer := ready.buffer
  ordered := ready.ordered
  next := (Nat.mod_eq_of_lt (ready.ordered.le.trans_lt ready.ordered.small)).symm
  silent _ none := absurd none not_mem_nil

theorem Runs.exact (ready : start.Ready) (run : Runs Orderly start trace con) :
    Exact start trace con ∧ (Live start trace con ∨ con.state.Past) := by
  induction run with
  | start => exact ⟨Ready.exact start, .inl ready.live⟩
  | step before orderly returned ih =>
    obtain ⟨exact, live | past⟩ := ih
    · exact exact.established live orderly returned
    · exact ⟨exact.past past orderly returned, .inr (step_past past returned).past⟩

theorem write_returns (phase : Live start trace con ∨ con.state.Past)
    (orderly : con.Orderly (.write buffer)) : ∃ outcome, con.step (.write buffer) = .ok outcome := by
  rcases phase with live | past
  · obtain ⟨rc, con', sent, bytes, rb, ran, -⟩ :=
      tcpWrite_ok buffer live.buffer live.ordered (orderly.fits live.state buffer rfl)
    refine ⟨{ con := con', sent, rc }, ?_⟩
    change (con.tcpWrite buffer >>= _) = _
    rw [ran]
    rfl
  · have other : con.state ≠ .established := by
      intro state
      rw [state] at past
      exact past
    refine ⟨{ con, rc := -eNOTCONN }, ?_⟩
    change (con.tcpWrite buffer >>= _) = _
    unfold tcpWrite
    rw [if_pos other]
    rfl

/-- In every run of orderly events, what has been sent and what waits in the ring is exactly
what the writes have accepted, and the next write returns. -/
theorem sends_what_was_accepted_when_orderly {start : Connection} (ready : start.Ready)
    (run : Runs Orderly start trace con) :
    Exact start trace con ∧
      ∀ buffer, con.Orderly (.write buffer) → ∃ outcome, con.step (.write buffer) = .ok outcome :=
  ⟨(run.exact ready).1, fun _ orderly => write_returns (run.exact ready).2 orderly⟩

theorem greeted_ready (noDelay : Bool) (window : Nat) : (greeted noDelay window).Ready where
  state := rfl
  buffer := (Ringbuffer.init_represents Bytes.zeros (show 2 ≤ 8192 by decide) (by decide)).valid
  ordered := ⟨Nat.le_refl 1, show 1 < 2 ^ 32 by decide⟩

theorem sends_what_was_accepted_two_bytes :
    ∃ outcome, (greeted true 1000).step (.write [97, 98]) = .ok outcome ∧
      payloads outcome.sent = [97, 98] ∧
      Exact (greeted true 1000) [(.write [97, 98], outcome)] outcome.con := by
  obtain ⟨outcome, ran, sent⟩ := of_report (show ((greeted true 1000).step
      (.write [97, 98])).toOption.map (fun outcome => payloads outcome.sent) = some [97, 98] by
    decide +kernel)
  have orderly : (greeted true 1000).Orderly (.write [97, 98]) :=
    ⟨fun _ _ _ delayed => absurd delayed (by decide), fun _ _ _ _ => by decide +kernel,
      Event.noConfusion, Event.noConfusion⟩
  exact ⟨outcome, ran, sent,
    (sends_what_was_accepted_when_orderly (greeted_ready true 1000) (.step .start orderly ran)).1⟩

/-- Two bytes are accepted and wait in the ring, the peer closes its window, and `tcp_close` frees
the ring and sends its FIN. -/
theorem close_loses_the_ring :
    ∃ trace con, (greeted false 2).Ready ∧ Runs (fun _ _ => True) (greeted false 2) trace con ∧
      bytesAccepted trace = [97, 98] ∧ payloads (allSent trace) = [] ∧
      (allSent trace).any (fun segment => has segment.flags fin) = true ∧
      ¬ Exact (greeted false 2) trace con := by
  obtain ⟨⟨trace, con⟩, ran, facts⟩ := of_report (show ((greeted false 2).run [] [.write [97, 98],
      .segment ⟨5000, 80, 8, 1, ack, 0, []⟩, .close]).toOption.map (fun result =>
        (bytesAccepted result.1, payloads (allSent result.1),
          (allSent result.1).any (fun segment => has segment.flags fin),
          result.2.outgoingBuffer.contents)) = some ([97, 98], [], true, []) by decide +kernel)
  simp only [Prod.mk.injEq] at facts
  obtain ⟨accepted, sent, final, ring⟩ := facts
  refine ⟨trace, con, greeted_ready false 2, Runs.start.run (fun _ _ _ => trivial) ran, accepted,
    sent, final, fun exact => ?_⟩
  have whole := exact.whole
  have empty : (greeted false 2).outgoingBuffer.contents = [] :=
    (Ringbuffer.init_represents Bytes.zeros (show 2 ≤ 8192 by decide) (by decide)).items.symm
  rw [sent, ring, accepted, empty] at whole
  cases whole

end Connection
end SbOS.Net
