import SbOS.Net.Connection

/-! How the bytes of a call go out. `send_tcp_packet` cuts a payload into pieces of at most
1000 bytes and looks before each piece only whether the window is open; `tcp_sync_buffer` hands
it as many bytes of the ring as `tcp_can_send` allows. -/
namespace SbOS.Net
open Kernel List Bool

namespace Connection

/-- The bytes go out as segments, each sent while `tcp_can_send` is not zero. -/
inductive Transmits : Connection → List UInt8 → Connection → List Segment → Prop where
  | done : Transmits con [] con []
  | piece (window : con.tcpCanSend ≠ 0)
    (rest : Transmits (con.sendSegment piece).1 bytes con' sent) :
    Transmits con (piece ++ bytes) con' ((con.sendSegment piece).2 :: sent)

variable {con con' : Connection} {bytes payload : List UInt8} {sent : List Segment}

theorem Transmits.append (first : Transmits con bytes con' sent)
    (second : Transmits con' bytes' con'' sent') :
    Transmits con (bytes ++ bytes') con'' (sent ++ sent') := by
  induction first with
  | done => exact second
  | piece window rest ih =>
    rw [append_assoc, cons_append]
    exact .piece window (ih second)

/-- What sending changes. -/
structure Sending (con con' : Connection) : Prop where
  same : ∃ shouldSendAck sndNxt sndMax, con' = { con with shouldSendAck, sndNxt, sndMax }

theorem Sending.refl (con : Connection) : Sending con con := ⟨_, _, _, rfl⟩

theorem Sending.trans (first : Sending con con') (second : Sending con' con'') :
    Sending con con'' := by
  obtain ⟨_, _, _, rfl⟩ := first.same
  obtain ⟨_, _, _, rfl⟩ := second.same
  exact ⟨_, _, _, rfl⟩

theorem Sending.sendSegment (con : Connection) (payload : List UInt8) :
    Sending con (con.sendSegment payload).1 := ⟨_, _, _, rfl⟩

/-- What sending from the ring changes. -/
structure Draining (con con' : Connection) : Prop where
  same : ∃ outgoingBuffer shouldSendAck sndNxt sndMax,
    con' = { con with outgoingBuffer, shouldSendAck, sndNxt, sndMax }

theorem Draining.refl (con : Connection) : Draining con con := ⟨_, _, _, _, rfl⟩

theorem Draining.trans (first : Draining con con') (second : Draining con' con'') :
    Draining con con'' := by
  obtain ⟨_, _, _, _, rfl⟩ := first.same
  obtain ⟨_, _, _, _, rfl⟩ := second.same
  exact ⟨_, _, _, _, rfl⟩

theorem Sending.draining (sending : Sending con con') : Draining con con' := by
  obtain ⟨_, _, _, rfl⟩ := sending.same
  exact ⟨_, _, _, _, rfl⟩

/-- Whatever the window does, what is sent is the front of the payload; the call
reports success only for all of it. -/
theorem sendTcpPacketTo_transmits (con : Connection) (payload : List UInt8)
    (enough : payload.length < depth) :
    ∃ n, Transmits con (payload.take n) (sendTcpPacketTo depth con payload).2.1
        (sendTcpPacketTo depth con payload).2.2 ∧
      ((sendTcpPacketTo depth con payload).1 = true → payload.take n = payload) := by
  induction depth generalizing con payload with
  | zero => cases enough
  | succ depth ih =>
    unfold sendTcpPacketTo
    by_cases shut : con.tcpCanSend = 0
    · rw [if_pos shut]
      exact ⟨0, .done, fun wrong => absurd wrong false_ne_true⟩
    rw [if_neg shut]
    by_cases long : 1000 < payload.length
    · rw [if_pos long]
      have head := ih con (payload.take 1000) (by
        rw [length_take]
        omega)
      rcases first : sendTcpPacketTo depth con (payload.take 1000) with ⟨_ | _, con₁, sent₁⟩
      · obtain ⟨n, transmits, -⟩ := head
        rw [first, take_take] at transmits
        exact ⟨_, transmits, fun wrong => absurd wrong false_ne_true⟩
      · obtain ⟨n, transmits, whole⟩ := head
        rw [first] at transmits whole
        rw [whole rfl] at transmits
        obtain ⟨m, transmits', whole'⟩ := ih con₁ (payload.drop 1000) (by
          rw [length_drop]
          omega)
        refine ⟨1000 + m, ?_, fun succeeded => ?_⟩
        · rw [take_add]
          exact transmits.append transmits'
        · rw [take_add, whole' succeeded, take_append_drop]
    · rw [if_neg long]
      refine ⟨payload.length, ?_, fun _ => take_length⟩
      rw [take_length]
      have one : Transmits con (payload ++ []) _ _ := .piece shut .done
      rw [append_nil] at one
      exact one

/-- `snd_nxt` is at most `snd_max`, and both are `u32`. -/
structure Ordered (con : Connection) : Prop where
  le : con.sndNxt ≤ con.sndMax
  small : con.sndMax < 2 ^ 32

theorem Ordered.sendSegment (ordered : con.Ordered) (payload : List UInt8) :
    (con.sendSegment payload).1.Ordered where
  le := le_max_left _ _
  small := Nat.max_lt.mpr ⟨Nat.mod_lt _ (by decide), ordered.small⟩

section
variable (transmits : Transmits con bytes con' sent)
include transmits

theorem Transmits.sending : Sending con con' := by
  induction transmits with
  | done => exact .refl _
  | piece window rest ih => exact (Sending.sendSegment _ _).trans ih

theorem Transmits.payloads :
    (sent.map Segment.payload).flatten = bytes := by
  induction transmits with
  | done => rfl
  | piece window rest ih =>
    rw [map_cons, flatten_cons, ih]
    rfl

theorem Transmits.ordered (ordered : con.Ordered) :
    con'.Ordered := by
  induction transmits with
  | done => exact ordered
  | piece window rest ih => exact ih (ordered.sendSegment _)

end

theorem tcpCanSend_lt (con : Connection) : con.tcpCanSend < 2 ^ 16 := by
  unfold tcpCanSend
  split
  · decide
  · exact Nat.mod_lt _ (by decide)

theorem tcpCanSend_closed (closed : con.state = .closed) : con.tcpCanSend = 0 := by
  unfold tcpCanSend
  rw [if_pos closed]

/-- A piece that fits the window takes no more than its length from it: `snd_max` moves by
the length, or stays behind when `snd_nxt` wraps around. -/
theorem tcpCanSend_sendSegment (ordered : con.Ordered) (fits : payload.length ≤ con.tcpCanSend) :
    con.tcpCanSend ≤ (con.sendSegment payload).1.tcpCanSend + payload.length := by
  have le := ordered.le
  have state : (con.sendSegment payload).1.state = con.state := rfl
  unfold tcpCanSend at fits ⊢
  rw [state]
  by_cases closed : con.state = .closed
  · rw [if_pos closed]
    exact Nat.zero_le _
  rw [if_neg closed] at fits ⊢
  rw [if_neg closed]
  change _ ≤ sub32 (wrap32 (con.sndUna + con.sndWnd))
    (max (wrap32 (con.sndNxt + payload.length)) con.sndMax) % 2 ^ 16 + payload.length
  unfold sub32 wrap32 at *
  omega

/-- A payload that fits the window goes out as a whole. -/
theorem sendTcpPacketTo_fits (payload : List UInt8) (ordered : con.Ordered) (enough : payload.length < depth)
    (fits : payload.length ≤ con.tcpCanSend) (window : con.tcpCanSend ≠ 0) :
    ∃ con' sent, sendTcpPacketTo depth con payload = (true, con', sent) ∧
      con.tcpCanSend ≤ con'.tcpCanSend + payload.length ∧ con'.Ordered := by
  induction depth generalizing con payload with
  | zero => cases enough
  | succ depth ih =>
    unfold sendTcpPacketTo
    rw [if_neg window]
    by_cases long : 1000 < payload.length
    · have head : (payload.take 1000).length = 1000 := by
        rw [length_take]
        omega
      have tail : (payload.drop 1000).length = payload.length - 1000 := length_drop ..
      obtain ⟨con₁, sent₁, first, left, ordered₁⟩ :=
        ih (payload.take 1000) ordered (by omega) (by omega) window
      rw [if_pos long, first]
      obtain ⟨con₂, sent₂, second, left₂, ordered₂⟩ :=
        ih (payload.drop 1000) ordered₁ (by omega) (by omega) (by omega)
      dsimp only
      rw [second]
      exact ⟨con₂, sent₁ ++ sent₂, rfl, by omega, ordered₂⟩
    · rw [if_neg long]
      exact ⟨_, _, rfl, tcpCanSend_sendSegment ordered fits, ordered.sendSegment payload⟩

/-- `send_tcp_packet` of what fits the window. -/
theorem sendTcpPacket_fits (payload : List UInt8) (ordered : con.Ordered)
    (fits : payload.length ≤ con.tcpCanSend)
    (window : con.tcpCanSend ≠ 0) :
    ∃ con' sent, con.sendTcpPacket payload = (true, con', sent) ∧
      Transmits con payload con' sent ∧ con.tcpCanSend ≤ con'.tcpCanSend + payload.length ∧
      con'.Ordered := by
  obtain ⟨con', sent, ran, left, ordered'⟩ :=
    sendTcpPacketTo_fits payload ordered (Nat.lt_succ_self payload.length) fits window
  obtain ⟨n, transmits, whole⟩ :=
    sendTcpPacketTo_transmits con payload (Nat.lt_succ_self payload.length)
  rw [ran] at transmits whole
  rw [whole rfl] at transmits
  exact ⟨con', sent, ran, transmits, left, ordered'⟩

theorem sendTcpPacket_draining (sends : con.sendTcpPacket payload = (rc, con', sent)) :
    Draining con con' := by
  obtain ⟨n, transmits, -⟩ :=
    sendTcpPacketTo_transmits con payload (Nat.lt_succ_self payload.length)
  change Transmits con _ (con.sendTcpPacket payload).2.1 _ at transmits
  rw [sends] at transmits
  exact transmits.sending.draining

theorem tcpSyncBuffer_draining (returned : con.tcpSyncBuffer = .ok (synced, con', sent)) :
    Draining con con' := by
  unfold tcpSyncBuffer at returned
  split at returned
  · cases returned
    exact .refl con
  dsimp only at returned
  split at returned
  · cases returned
    exact .refl con
  obtain ⟨⟨⟨read, sendBuffer⟩, outgoingBuffer⟩, -, returned⟩ := of_ok_then returned
  obtain ⟨-, returned⟩ := of_check_then returned
  cases returned
  have first : Draining con { con with outgoingBuffer } := ⟨_, _, _, _, rfl⟩
  exact first.trans (sendTcpPacket_draining rfl)

theorem tcpWrite_draining (returned : con.tcpWrite buffer = .ok (rc, con', sent)) :
    Draining con con' := by
  unfold tcpWrite at returned
  dsimp only at returned
  split at returned
  · cases returned
    exact .refl con
  split at returned
  · cases returned
    exact .refl con
  split at returned
  · cases returned
    exact .refl con
  split at returned
  · split at returned
    · cases returned
      exact sendTcpPacket_draining ‹_›
    · cases returned
      exact sendTcpPacket_draining ‹_›
  split at returned
  · obtain ⟨⟨synced, con₁, sent₁⟩, ran, returned⟩ := of_ok_then returned
    have first := tcpSyncBuffer_draining ran
    cases synced with
    | false =>
      cases returned
      exact first
    | true =>
      dsimp only at returned
      split at returned
      · cases returned
        exact first.trans (sendTcpPacket_draining ‹_›)
      · cases returned
        exact first.trans (sendTcpPacket_draining ‹_›)
  · obtain ⟨⟨written, outgoingBuffer⟩, -, returned⟩ := of_ok_then returned
    obtain ⟨-, returned⟩ := of_check_then returned
    cases returned
    exact ⟨_, _, _, _, rfl⟩

/-- Bytes that fit the window go out, from the ring or from the caller, and the ring is left
as `rb`. -/
structure Emits (con : Connection) (bytes : List UInt8) (rb : Ringbuffer) (con' : Connection)
    (sent : List Segment) : Prop where
  valid : rb.Valid
  transmits : Transmits { con with outgoingBuffer := rb } bytes con' sent
  fits : bytes.length ≤ con.tcpCanSend

theorem Emits.nothing (valid : rb.Valid) : Emits con [] rb { con with outgoingBuffer := rb } [] :=
  ⟨valid, .done, Nat.zero_le _⟩

section
variable (emits : Emits con bytes rb con' sent)
include emits

theorem Emits.buffer : con'.outgoingBuffer = rb := by
  obtain ⟨_, _, _, rfl⟩ := emits.transmits.sending.same
  rfl

theorem Emits.state : con'.state = con.state := by
  obtain ⟨_, _, _, rfl⟩ := emits.transmits.sending.same
  rfl

theorem Emits.ordered (ordered : con.Ordered) : con'.Ordered :=
  emits.transmits.ordered ⟨ordered.le, ordered.small⟩

end

/-- `tcp_sync_buffer` sends what the window allows from the front of the ring. -/
theorem tcpSyncBuffer_ok (valid : con.outgoingBuffer.Valid) (ordered : con.Ordered) :
    ∃ synced con' sent rb, con.tcpSyncBuffer = .ok (synced, con', sent) ∧
      Emits con (con.outgoingBuffer.contents.take con.tcpCanSend) rb con' sent ∧
      rb.contents = con.outgoingBuffer.contents.drop con.tcpCanSend ∧
      (synced = true ↔ 0 < con.outgoingBuffer.used ∧ con.outgoingBuffer.used ≤ con.tcpCanSend) ∧
      con.tcpCanSend ≤ con'.tcpCanSend + min con.tcpCanSend con.outgoingBuffer.used := by
  have length : con.outgoingBuffer.contents.length = con.outgoingBuffer.used :=
    Ringbuffer.Valid.contents_length
  unfold tcpSyncBuffer
  by_cases closed : con.state = .closed
  · rw [if_pos closed, tcpCanSend_closed closed]
    refine ⟨_, _, _, con.outgoingBuffer, rfl, .nothing valid, rfl, ?_, Nat.zero_le _⟩
    simp only [false_eq_true, false_iff]
    omega
  rw [if_neg closed]
  dsimp only
  by_cases nothing : con.outgoingBuffer.used = 0
  · have empty := length_eq_zero_iff.mp (length.trans nothing)
    rw [if_pos nothing, empty, take_nil, drop_nil]
    refine ⟨_, _, _, con.outgoingBuffer, rfl, .nothing valid, empty, ?_, Nat.le_add_right _ _⟩
    simp only [false_eq_true, false_iff]
    omega
  rw [if_neg nothing]
  have sixteen := con.tcpCanSend_lt
  obtain ⟨rb, ran, valid', -, contents⟩ :=
    valid.read_front (show min con.tcpCanSend con.outgoingBuffer.used < 2 ^ 32 by omega)
  have front : con.outgoingBuffer.contents.take (min con.tcpCanSend con.outgoingBuffer.used) =
      con.outgoingBuffer.contents.take con.tcpCanSend := by
    rw [← length]
    exact (take_eq_take_min ..).symm
  have back : rb.contents = con.outgoingBuffer.contents.drop con.tcpCanSend := by
    rw [contents, ← length]
    exact (drop_eq_drop_min ..).symm
  rw [ran, ok_then]
  dsimp only
  rw [check_true (by omega), ok_then, front, Option.getD_some]
  by_cases shut : con.tcpCanSend = 0
  · have none : ({ con with outgoingBuffer := rb } : Connection).sendTcpPacket
        (con.outgoingBuffer.contents.take con.tcpCanSend) =
        (false, { con with outgoingBuffer := rb }, []) := by
      exact if_pos shut
    rw [none]
    refine ⟨_, _, _, rb, rfl, ?_, back, ?_, ?_⟩
    · rw [shut]
      exact .nothing valid'
    · rw [decide_eq_true_iff]
      omega
    · rw [shut]
      exact Nat.zero_le _
  · obtain ⟨con', sent, whole, transmits, left, -⟩ :=
      sendTcpPacket_fits (con.outgoingBuffer.contents.take con.tcpCanSend)
        (show ({ con with outgoingBuffer := rb } : Connection).Ordered from ⟨ordered.le, ordered.small⟩)
        (length_take_le _ _) shut
    rw [whole]
    refine ⟨_, _, _, rb, rfl, ⟨valid', transmits, length_take_le _ _⟩, back, ?_, ?_⟩
    · rw [decide_eq_true_iff]
      omega
    · rw [length_take, length] at left
      exact left

/-- How much of a write is looked at. -/
def writeLen (con : Connection) (buffer : List UInt8) : Nat := min buffer.length con.tcpCanSend

/-- A write that does not find room in the ring, and that the ring makes room for, fits the
window together with the ring. -/
def WriteFits (con : Connection) (buffer : List UInt8) : Prop :=
  con.noDelay = false → con.outgoingBuffer.unused < con.writeLen buffer →
    0 < con.outgoingBuffer.used → con.outgoingBuffer.used ≤ con.tcpCanSend →
    con.outgoingBuffer.used + con.writeLen buffer ≤ con.tcpCanSend

/-- What a write does: the bytes sent and the ring afterwards are the old ring and
what the call says it has accepted. It returns zero if the ring neither had nor made room. -/
structure Wrote (con : Connection) (buffer : List UInt8) (rc : Int) (bytes : List UInt8)
    (rb : Ringbuffer) : Prop where
  amount : bytes.length ≤ con.outgoingBuffer.used + buffer.length
  exact : (con.noDelay = true → con.outgoingBuffer.used = 0) →
    bytes ++ rb.contents = con.outgoingBuffer.contents ++ buffer.take rc.toNat
  zero : rc = 0 → con.noDelay = false ∧ con.outgoingBuffer.unused < con.writeLen buffer ∧
    ¬ (0 < con.outgoingBuffer.used ∧ con.outgoingBuffer.used ≤ con.tcpCanSend)
  small : rc ≤ buffer.length

theorem Wrote.refused (negative : rc < 0) : Wrote con buffer rc [] con.outgoingBuffer where
  amount := Nat.zero_le _
  exact _ := by
    rw [Int.toNat_of_nonpos (Int.le_of_lt negative), take_zero, append_nil,
      nil_append]
  zero wrong := absurd wrong (Int.ne_of_lt negative)
  small := by omega

variable {buffer : List UInt8}

theorem writeLen_le : (buffer.take (con.writeLen buffer)).length = con.writeLen buffer :=
  length_take_of_le (min_le_left _ _)

/-- Without delay the bytes pass the ring. -/
theorem Wrote.direct (direct : con.noDelay = true) (some : 0 < con.writeLen buffer) :
    Wrote con buffer (con.writeLen buffer) (buffer.take (con.writeLen buffer))
      con.outgoingBuffer where
  amount := Nat.le_trans (length_take_le' ..) (Nat.le_add_left _ _)
  exact empty := by
    have none : con.outgoingBuffer.contents = [] := by
      rw [← length_eq_zero_iff, Ringbuffer.Valid.contents_length]
      exact empty direct
    rw [none, append_nil, nil_append, Int.toNat_natCast]
  zero wrong := by omega
  small := Int.ofNat_le.mpr (Nat.min_le_left _ _)

/-- The write that has emptied the ring goes out behind it. -/
theorem Wrote.behind (some : 0 < con.writeLen buffer) (rest : rb.contents = []) :
    Wrote con buffer (con.writeLen buffer)
      (con.outgoingBuffer.contents ++ buffer.take (con.writeLen buffer)) rb where
  amount := by
    rw [length_append, Ringbuffer.Valid.contents_length, writeLen_le]
    have : con.writeLen buffer ≤ buffer.length := min_le_left _ _
    omega
  exact _ := by rw [rest, append_nil, Int.toNat_natCast]
  zero wrong := by omega
  small := Int.ofNat_le.mpr (min_le_left _ _)

/-- The write that finds room waits in the ring. -/
theorem Wrote.waits (some : 0 < con.writeLen buffer)
    (contents : rb.contents = con.outgoingBuffer.contents ++ buffer.take (con.writeLen buffer)) :
    Wrote con buffer (con.writeLen buffer) [] rb where
  amount := Nat.zero_le _
  exact _ := by rw [nil_append, contents, Int.toNat_natCast]
  zero wrong := by omega
  small := Int.ofNat_le.mpr (min_le_left _ _)

/-- The write that finds no room is dropped after a part of the ring has been sent. -/
theorem Wrote.dropped (buffered : con.noDelay = false)
    (full : con.outgoingBuffer.unused < con.writeLen buffer)
    (stuck : ¬ (0 < con.outgoingBuffer.used ∧ con.outgoingBuffer.used ≤ con.tcpCanSend))
    (rest : rb.contents = con.outgoingBuffer.contents.drop con.tcpCanSend) :
    Wrote con buffer 0 (con.outgoingBuffer.contents.take con.tcpCanSend) rb where
  amount := by
    rw [length_take, Ringbuffer.Valid.contents_length]
    omega
  exact _ := by
    rw [rest, take_append_drop]
    exact (append_nil _).symm
  zero _ := ⟨buffered, full, stuck⟩
  small := Int.natCast_nonneg _

theorem tcpWrite_ok (buffer : List UInt8) (valid : con.outgoingBuffer.Valid)
    (ordered : con.Ordered) (fits : con.WriteFits buffer) :
    ∃ rc con' sent bytes rb, con.tcpWrite buffer = .ok (rc, con', sent) ∧
      Emits con bytes rb con' sent ∧ Wrote con buffer rc bytes rb := by
  have refused : ∀ rc < 0, Emits con [] con.outgoingBuffer con [] ∧
      Wrote con buffer rc [] con.outgoingBuffer :=
    fun rc negative => ⟨.nothing valid, .refused negative⟩
  have within : con.writeLen buffer ≤ con.tcpCanSend := min_le_right _ _
  have len : min buffer.length con.tcpCanSend = con.writeLen buffer := rfl
  unfold tcpWrite
  rw [len]
  by_cases other : con.state ≠ .established
  · rw [if_pos other]
    exact ⟨_, _, _, _, _, rfl, refused _ (by decide)⟩
  rw [if_neg other]
  by_cases unwritable : con.tcpCanWrite = false
  · rw [if_pos unwritable]
    exact ⟨_, _, _, _, _, rfl, refused _ (by decide)⟩
  rw [if_neg unwritable]
  by_cases none : con.writeLen buffer = 0
  · rw [if_pos none]
    exact ⟨_, _, _, _, _, rfl, refused _ (by decide)⟩
  rw [if_neg none]
  have some := Nat.pos_of_ne_zero none
  by_cases direct : con.noDelay = true
  · obtain ⟨con', sent, ran, transmits, -⟩ :=
      sendTcpPacket_fits (buffer.take (con.writeLen buffer)) ordered (by rwa [writeLen_le])
        (by omega)
    rw [if_pos direct]
    rw [ran]
    exact ⟨_, _, _, _, _, rfl, ⟨valid, transmits, by rwa [writeLen_le]⟩, .direct direct some⟩
  rw [if_neg direct]
  have buffered : con.noDelay = false := eq_false_iff.mpr direct
  by_cases full : con.outgoingBuffer.unused < con.writeLen buffer
  · rw [if_pos full]
    obtain ⟨synced, con₁, sent₁, rb, ran, emits, rest, whole, left⟩ :=
      tcpSyncBuffer_ok valid ordered
    rw [ran, ok_then]
    cases synced with
    | false =>
      have stuck := fun room => false_ne_true (whole.mpr room)
      exact ⟨_, _, _, _, rb, rfl, emits, .dropped buffered full stuck rest⟩
    | true =>
      obtain ⟨busy, all⟩ := whole.mp rfl
      have together := fits buffered full busy all
      have length : con.outgoingBuffer.contents.length = con.outgoingBuffer.used :=
        Ringbuffer.Valid.contents_length
      obtain ⟨con₂, sent₂, ran₂, transmits, -⟩ :=
        sendTcpPacket_fits (buffer.take (con.writeLen buffer)) (emits.ordered ordered)
          (by rw [writeLen_le]; omega) (by omega)
      dsimp only
      rw [ran₂]
      refine ⟨_, _, _, _, rb, rfl, ⟨emits.valid, ?_, ?_⟩, .behind some ?_⟩
      · have first := emits.transmits
        rw [take_of_length_le (by omega)] at first
        exact first.append transmits
      · rw [length_append, length, writeLen_le]
        exact together
      · rw [rest, drop_eq_nil_of_le (by omega)]
  · rw [if_neg full]
    obtain ⟨rb, ran, valid', contents⟩ :=
      valid.write_all buffer (show con.writeLen buffer ≤ buffer.length from min_le_left _ _)
        (not_lt.mp full)
    rw [ran, ok_then]
    dsimp only
    rw [check_true rfl, ok_then]
    exact ⟨_, _, _, _, rb, rfl, .nothing valid', .waits some contents⟩

end Connection
end SbOS.Net
