import SbOS.Vfs.Fifos

/-! Pipes (`fs/tmpfs.c`): two ends with a queue each. An end reads its own queue and writes the
queue of its peer. `poll` asks the flags of an end's own queue, both for reading and for
writing. -/
namespace SbOS.Vfs
open Kernel Bytes Function Bool

def ePIPE : Int := 68

/-- `tmp_inode` with the `is_open` of its inode. -/
structure TmpInode where
  fifo : FifoFile
  isOpen : Bool
  isClosed : Bool

/-- The two ends; `read_inode` of an end is the other one. -/
abbrev Pipe := Bool → TmpInode

namespace Pipe

/-- `pipe` and `dual_pipe`, which differ in `O_NONBLOCK` only, with what `kmalloc` has found in
the two queues. -/
def dualPipe (memory : Bool → Bytes) (hasData canWrite : Bool → Bool) : Pipe := fun side =>
  ⟨.createFifoObject (memory side) (hasData side) (canWrite side), true, false⟩

/-- `tmp_has_data` -/
def tmpHasData (pipe : Pipe) (side : Bool) : Bool := (pipe side).fifo.hasData

/-- `tmp_can_write` -/
def tmpCanWrite (pipe : Pipe) (side : Bool) : Bool := (pipe side).fifo.canWrite

def setFifo (pipe : Pipe) (side : Bool) (fifo : FifoFile) : Pipe :=
  Function.update pipe side { pipe side with fifo }

/-- `tmp_write` -/
def tmpWrite (pipe : Pipe) (side : Bool) (data : Bytes) (len : Nat) (memory : Bytes) :
    Except Stop (Int × Pipe) :=
  if !(pipe side).isOpen then .ok (-ePIPE, pipe)
  else if (pipe !side).isClosed then .ok (-ePIPE, pipe)
  else do
    let (rc, fifo) ← (pipe !side).fifo.fifoObjectWrite data len memory
    return (rc, pipe.setFifo (!side) fifo)

/-- `tmp_read` -/
def tmpRead (pipe : Pipe) (side : Bool) (len : Nat) : Except Stop ((Int × List UInt8) × Pipe) :=
  if !(pipe side).isOpen then .ok ((-ePIPE, []), pipe)
  else if (pipe side).isClosed then .ok ((-ePIPE, []), pipe)
  else do
    let (result, fifo) ← (pipe side).fifo.fifoObjectRead len
    return (result, pipe.setFifo side fifo)

/-- Reads on one end, one after another. -/
def readAll (pipe : Pipe) (side : Bool) : List UInt64 → Except Stop Pipe
  | [] => .ok pipe
  | len :: rest => do
    let (_, pipe) ← pipe.tmpRead side len.toNat
    pipe.readAll side rest

end Pipe

/-! ## Runs -/

inductive PipeCall where
  | write (side : Bool) (data : Bytes) (len : UInt64) (memory : Bytes)
  | read (side : Bool) (len : UInt64)

def Pipe.step (pipe : Pipe) : PipeCall → Except Stop (Int × Pipe)
  | .write side data len memory => pipe.tmpWrite side data len.toNat memory
  | .read side len => do
    let ((rc, _), pipe) ← pipe.tmpRead side len.toNat
    return (rc, pipe)

/-- A call, what it returns and the pipe after it. -/
structure PipeEntry where
  call : PipeCall
  rc : Int
  after : Pipe

inductive PipeRuns (allowed : Pipe → PipeCall → Prop) (start : Pipe) :
    List PipeEntry → Pipe → Prop where
  | start : PipeRuns allowed start [] start
  | step (before : PipeRuns allowed start trace pipe) (permitted : allowed pipe call)
    (returned : pipe.step call = .ok (rc, after)) :
    PipeRuns allowed start (trace ++ [⟨call, rc, after⟩]) after

/-- A read of `len` bytes on this end stores bytes. -/
def Pipe.Delivers (pipe : Pipe) (side : Bool) (len : UInt64) : Prop :=
  ∃ rc bytes after, pipe.tmpRead side len.toNat = .ok ((rc, bytes), after) ∧ bytes ≠ []

/-- A write of one byte on this end succeeds. -/
def Pipe.TakesByte (pipe : Pipe) (side : Bool) : Prop :=
  ∀ data memory, ∃ after, pipe.tmpWrite side data 1 memory = .ok (1, after)

/-- What the flags of both ends say is true. -/
structure Truthful (pipe : Pipe) : Prop where
  data : ∀ (side : Bool) (len : UInt64), len ≠ 0 →
    (pipe.tmpHasData side = true ↔ pipe.Delivers side len)
  room : ∀ side : Bool, (pipe !side).fifo.writeLen = 0 → pipe.TakesByte side →
    pipe.tmpCanWrite side = true

/-- After a write that has found no room, the peer can read until this end can be written. -/
def Recovers (entry : PipeEntry) : Prop :=
  ∀ side data len memory, entry.call = .write side data len memory → entry.rc = -eAGAIN →
    ∃ reads after, entry.after.readAll (!side) reads = .ok after ∧ after.tmpCanWrite side = true

/-- What the flags need. A write that fits brings bytes or finds some. A write that does not fit
finds bytes in both queues and the own queue marked as writable. A read that takes all finds the
other queue marked as writable. -/
def Tended (pipe : Pipe) : PipeCall → Prop
  | .write side data len memory =>
    Modest (pipe !side).fifo (.write data len memory) ∧
    if (pipe !side).fifo.bufferLen ≤ (pipe !side).fifo.writeLen + len.toNat then
      (pipe !side).fifo.writeLen ≠ 0 ∧ (pipe side).fifo.writeLen ≠ 0 ∧
        pipe.tmpCanWrite side = true
    else len ≠ 0 ∨ (pipe !side).fifo.writeLen ≠ 0
  | .read side len =>
    (pipe side).fifo.writeLen ≤ len.toNat → (pipe side).fifo.writeLen ≠ 0 →
      pipe.tmpCanWrite (!side) = true

namespace Pipe

variable {pipe : Pipe} {fifo : FifoFile}

theorem setFifo_same (pipe : Pipe) (side : Bool) (fifo : FifoFile) :
    pipe.setFifo side fifo side = { pipe side with fifo } :=
  update_self ..

theorem setFifo_other (pipe : Pipe) (side : Bool) (fifo : FifoFile) :
    pipe.setFifo side fifo (!side) = pipe !side :=
  update_of_ne (not_ne_self side) ..

/-- What holds between the calls. An end whose peer has an empty queue is marked as writable. -/
structure Sound (pipe : Pipe) : Prop where
  opened : ∀ side, (pipe side).isOpen = true
  unclosed : ∀ side, (pipe side).isClosed = false
  kept : ∀ side, (pipe side).fifo.Kept
  flagged : ∀ side, (pipe side).fifo.hasData = true ↔ (pipe side).fifo.writeLen ≠ 0
  writable : ∀ side : Bool, (pipe !side).fifo.writeLen = 0 → (pipe side).fifo.canWrite = true

section
variable (sound : Sound pipe)
include sound

theorem Sound.setFifo (kept : fifo.Kept)
    (flagged : fifo.hasData = true ↔ fifo.writeLen ≠ 0)
    (emptied : fifo.writeLen = 0 → (pipe !side).fifo.canWrite = true)
    (alone : (pipe !side).fifo.writeLen = 0 → fifo.canWrite = true) :
    Sound (pipe.setFifo side fifo) := by
  have ends (side' : Bool) : side' = side ∨ side' = !side := by
    cases side <;> cases side' <;> decide
  constructor <;> intro side' <;> rcases ends side' with rfl | rfl
  all_goals simp only [setFifo_same, setFifo_other, Bool.not_not]
  · exact sound.opened side'
  · exact sound.opened _
  · exact sound.unclosed side'
  · exact sound.unclosed _
  · exact kept
  · exact sound.kept _
  · exact flagged
  · exact sound.flagged _
  · exact alone
  · exact emptied

theorem tmpWrite_open (returned : (pipe !side).fifo.fifoObjectWrite data len memory = .ok
    (rc, fifo)) :
    pipe.tmpWrite side data len memory = .ok (rc, pipe.setFifo (!side) fifo) := by
  unfold tmpWrite
  rw [sound.opened, sound.unclosed, returned]
  rfl

theorem tmpRead_open (returned : (pipe side).fifo.fifoObjectRead len = .ok (result, fifo)) :
    pipe.tmpRead side len = .ok (result, pipe.setFifo side fifo) := by
  unfold tmpRead
  rw [sound.opened, sound.unclosed, returned]
  rfl

/-! ## What the flags say -/

theorem Sound.delivers_iff (some : len ≠ 0) :
    pipe.Delivers side len ↔ (pipe side).fifo.writeLen ≠ 0 := by
  have length : len.toNat ≠ 0 := fun zero => some (UInt64.toNat_inj.mp zero)
  constructor
  · rintro ⟨rc, bytes, after, returned, stored⟩ empty
    rw [tmpRead_open sound (FifoFile.read_empty empty _)] at returned
    cases returned
    exact stored rfl
  · intro stored
    refine ⟨_, _, _, tmpRead_open sound (FifoFile.read_front (sound.kept side) stored length), ?_⟩
    intro nothing
    have count := congrArg List.length nothing
    rw [firstBytes_length, List.length_nil] at count
    omega

theorem Sound.truthful : Truthful pipe where
  data side _ some := (sound.flagged side).trans (sound.delivers_iff some).symm
  room side empty _ := sound.writable side empty

/-! ## One call -/

theorem Sound.step_write (tended : Tended pipe (.write side data len memory)) :
    ∃ rc after, pipe.step (.write side data len memory) = .ok (rc, after) ∧ Sound after ∧
      Recovers ⟨.write side data len memory, rc, after⟩ := by
  obtain ⟨⟨nowrap, limit⟩, needed⟩ := tended
  by_cases full : (pipe !side).fifo.bufferLen ≤ (pipe !side).fifo.writeLen + len.toNat
  · rw [if_pos full] at needed
    obtain ⟨stored, answer, marked⟩ := needed
    refine ⟨_, _, tmpWrite_open sound (FifoFile.write_refused nowrap full _ _), ?_, ?_⟩
    · refine sound.setFifo
        (((sound.kept _).flags true false).fifoRealloc (limit full) memory) ?_ ?_ ?_
      · exact ⟨fun _ => stored, fun _ => rfl⟩
      · exact fun empty => absurd empty stored
      · intro empty
        rw [Bool.not_not] at empty
        exact absurd empty answer
    · rintro side' _ _ _ ⟨⟩ _
      -- the reads of the peer would change its own queue only
      refine ⟨[], _, rfl, ?_⟩
      have other := setFifo_other pipe (!side)
      rw [Bool.not_not] at other
      unfold tmpCanWrite at marked ⊢
      dsimp only
      rw [other]
      exact marked
  · rw [if_neg full] at needed
    have fits : (pipe !side).fifo.writeLen + len.toNat < (pipe !side).fifo.bufferLen := by omega
    refine ⟨_, _, tmpWrite_open sound (FifoFile.write_fits (sound.kept _).small fits _ _), ?_, ?_⟩
    · have some : (pipe !side).fifo.writeLen + len.toNat ≠ 0 := by
        rcases needed with bytes | stored
        · have length : len.toNat ≠ 0 := fun zero => bytes (UInt64.toNat_inj.mp zero)
          omega
        · omega
      refine sound.setFifo ⟨fits, (sound.kept _).small⟩ ?_ ?_ ?_
      · exact ⟨fun _ => some, fun _ => rfl⟩
      · exact fun empty => absurd empty some
      · exact sound.writable _
    · intro _ _ _ _ _ failed
      exact absurd failed (by dsimp only [eAGAIN]; omega)

theorem Sound.step_read (tended : Tended pipe (.read side len)) :
    ∃ rc after, pipe.step (.read side len) = .ok (rc, after) ∧ Sound after := by
  have answer := sound.writable (!side)
  rw [Bool.not_not] at answer
  have step : ∀ {rc bytes fifo},
      (pipe side).fifo.fifoObjectRead len.toNat = .ok ((rc, bytes), fifo) →
      pipe.step (.read side len) = .ok (rc, pipe.setFifo side fifo) := by
    intro rc bytes fifo returned
    unfold Pipe.step
    dsimp only
    rw [tmpRead_open sound returned]
    rfl
  by_cases empty : (pipe side).fifo.writeLen = 0
  · refine ⟨_, _, step (FifoFile.read_empty empty _), ?_⟩
    refine sound.setFifo ⟨(sound.kept side).inside, (sound.kept side).small⟩ ?_ answer
      (sound.writable side)
    exact ⟨nofun, fun stored => absurd empty stored⟩
  · by_cases nothing : len.toNat = 0
    · refine ⟨_, _, step (nothing ▸ FifoFile.read_nothing empty), ?_⟩
      exact sound.setFifo (sound.kept side) (sound.flagged side) answer (sound.writable side)
    · refine ⟨_, _, step (FifoFile.read_front (sound.kept side) empty nothing), ?_⟩
      refine sound.setFifo ⟨(Nat.sub_le _ _).trans_lt (sound.kept side).inside,
        (sound.kept side).small⟩ ?_ ?_ fun _ => rfl
      · split
        · next taken => exact ⟨nofun, fun left => absurd taken left⟩
        · next left => exact ⟨fun _ => left, fun _ => (sound.flagged side).mpr empty⟩
      · intro taken
        dsimp only at taken
        exact tended (by omega) empty

theorem Sound.step (tended : Tended pipe call) :
    ∃ rc after, pipe.step call = .ok (rc, after) ∧ Sound after ∧ Recovers ⟨call, rc, after⟩ := by
  cases call with
  | write side data len memory => exact sound.step_write tended
  | read side len =>
    obtain ⟨rc, after, returned, still⟩ := sound.step_read tended
    exact ⟨rc, after, returned, still, by rintro _ _ _ _ ⟨⟩⟩

end

end Pipe

/-! ## Every run -/

theorem PipeRuns.sound (run : PipeRuns Tended fresh trace pipe) (initial : fresh.Sound) :
    pipe.Sound ∧ ∀ entry ∈ trace, Recovers entry := by
  induction run with
  | start => exact ⟨initial, List.forall_mem_nil _⟩
  | step before tended returned held =>
    obtain ⟨sound, recovered⟩ := held
    obtain ⟨_, _, same, still, recovers⟩ := sound.step tended
    cases returned.symm.trans same
    rw [List.forall_mem_append, List.forall_mem_singleton]
    exact ⟨still, recovered, recovers⟩

theorem Pipe.sound_dualPipe (memory : Bool → Bytes)
    (clear : ∀ side, hasData side = false) (marked : ∀ side, canWrite side = true) :
    Sound (dualPipe memory hasData canWrite) where
  opened _ := rfl
  unclosed _ := rfl
  kept _ := ⟨show 0 < 4096 by decide, show 4096 ≤ 2 ^ 31 by decide⟩
  flagged side := by
    constructor
    · exact fun wrong => absurd ((clear side).symm.trans wrong) false_ne_true
    · exact fun wrong => absurd rfl wrong
  writable side _ := marked side

/-- The flags of a pipe that starts with the right ones are true after every run of tended
calls, and every such call returns. -/
theorem flags_truthful_when_tended (memory : Bool → Bytes) (hasData canWrite : Bool → Bool)
    (clear : ∀ side, hasData side = false) (marked : ∀ side, canWrite side = true)
    (run : PipeRuns Tended (Pipe.dualPipe memory hasData canWrite) trace pipe) :
    Truthful pipe ∧ (∀ entry ∈ trace, Recovers entry) ∧
      ∀ call, Tended pipe call → Returns (pipe.step call) := by
  obtain ⟨sound, recovered⟩ := run.sound (Pipe.sound_dualPipe memory clear marked)
  refine ⟨sound.truthful, recovered, fun call tended => ?_⟩
  obtain ⟨rc, after, returned, _⟩ := sound.step tended
  exact ⟨_, returned⟩

/-- A pipe with a byte in it. -/
theorem flags_truthful_one_byte :
    ∃ trace pipe, PipeRuns Tended
        (Pipe.dualPipe (fun _ => zeros) (fun _ => false) fun _ => true) trace pipe ∧
      trace.length = 1 ∧ Truthful pipe ∧ (∀ entry ∈ trace, Recovers entry) ∧
      ∀ call, Tended pipe call → Returns (pipe.step call) := by
  have clear (side : Bool) : (fun _ => false) side = false := rfl
  have marked (side : Bool) : (fun _ => true) side = true := rfl
  have tended : Tended (Pipe.dualPipe (fun _ => zeros) (fun _ => false) fun _ => true)
      (.write false (fun _ => 7) 1 zeros) :=
    ⟨⟨by decide, fun full => absurd full (by decide)⟩, .inl (by decide)⟩
  obtain ⟨rc, after, returned, _⟩ :=
    (Pipe.sound_dualPipe (fun _ => zeros) clear marked).step tended
  have run := PipeRuns.start.step tended returned
  exact ⟨_, _, run, rfl, flags_truthful_when_tended (fun _ => zeros) _ _ clear marked run⟩

/-- A write of 4096 bytes into a new pipe fails. The other end then claims to have data, and it
can no longer be written by one who waits, although both queues are empty. -/
theorem refused_write_misleads :
    ∃ rc pipe, PipeRuns (fun _ _ => True)
        (Pipe.dualPipe (fun _ => zeros) (fun _ => false) fun _ => true)
        [⟨.write false zeros 4096 zeros, rc, pipe⟩] pipe ∧
      rc = -eAGAIN ∧
      pipe.tmpHasData true = true ∧ ¬pipe.Delivers true 1 ∧
      (pipe false).fifo.writeLen = 0 ∧ pipe.TakesByte true ∧ pipe.tmpCanWrite true = false := by
  have run : PipeRuns (fun _ _ => True)
      (Pipe.dualPipe (fun _ => zeros) (fun _ => false) fun _ => true) _ _ :=
    PipeRuns.start.step trivial (rfl : Pipe.step _ (.write false zeros 4096 zeros) = _)
  refine ⟨_, _, run, rfl, rfl, ?_, rfl, fun data memory => ⟨_, rfl⟩, rfl⟩
  rintro ⟨rc, bytes, after, returned, stored⟩
  cases returned
  exact stored rfl

end SbOS.Vfs
