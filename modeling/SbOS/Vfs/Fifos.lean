import SbOS.Kernel.Stop
import SbOS.Lib.ForwardCopy

/-! The queues behind pipes (`fs/fifo.c`). The bytes lie at the front of a buffer, and a read
shifts the rest to the left with `memcpy`, whose ranges overlap there. A write that finds no room
fails and leaves a larger buffer behind. -/
namespace SbOS.Vfs
open Kernel Bytes
open List hiding after

/-- `memcpy` inside one buffer: its four loops. -/
def memcpy (memory : Bytes) (dst src n : Nat) : Bytes :=
  let memory := copyChunks 8 (n / 8) memory dst src
  let done := n / 8 * 8
  let memory := copyChunks 4 (n % 8 / 4) memory (dst + done) (src + done)
  let done := n / 4 * 4
  let memory := copyChunks 2 (n % 4 / 2) memory (dst + done) (src + done)
  let done := n / 2 * 2
  copyChunks 1 (n % 2) memory (dst + done) (src + done)

theorem memcpy_forward (before : dst ≤ src) (memory : Bytes) (n : Nat) :
    memcpy memory dst src n = splice memory dst (skip memory src) n := by
  unfold memcpy
  dsimp only
  rw [copyChunks_forward before, show n / 8 * 8 = 8 * (n / 8) by omega,
    copyChunks_next before, show n / 4 * 4 = 8 * (n / 8) + 4 * (n % 8 / 4) by omega,
    copyChunks_next before,
    show n / 2 * 2 = 8 * (n / 8) + 4 * (n % 8 / 4) + 2 * (n % 4 / 2) by omega,
    copyChunks_next before,
    show 8 * (n / 8) + 4 * (n % 8 / 4) + 2 * (n % 4 / 2) + 1 * (n % 2) = n by omega]

/-- `FIFO_FILE` -/
structure FifoFile where
  buffer : Bytes
  bufferLen : Nat
  writeLen : Nat
  hasData : Bool
  canWrite : Bool

namespace FifoFile

/-- `create_fifo_object`; the buffer and the flags are what `kmalloc` has found there. -/
def createFifoObject (memory : Bytes) (hasData canWrite : Bool) : FifoFile :=
  ⟨memory, 4096, 0, hasData, canWrite⟩

/-- `fifo_realloc` with a `krealloc` that succeeds: the old bytes in new memory. -/
def fifoRealloc (file : FifoFile) (memory : Bytes) : FifoFile :=
  { file with
    buffer := splice memory 0 file.buffer file.bufferLen
    bufferLen := (file.bufferLen + 4096) % 2 ^ 64 }

/-- `fifo_object_write` of `len` bytes, with the memory that `fifo_realloc` would get. -/
def fifoObjectWrite (file : FifoFile) (data : Bytes) (len : Nat) (memory : Bytes) :
    Except Stop (Int × FifoFile) :=
  let file := { file with hasData := true }
  if file.bufferLen ≤ (file.writeLen + len) % 2 ^ 64 then
    .ok (-eAGAIN, { file with canWrite := false }.fifoRealloc memory)
  else
    -- `memcpy` takes a `u32`
    let n := len % 2 ^ 32
    if file.bufferLen < file.writeLen + n then .error .overrun
    else .ok (toInt len, { file with
      buffer := splice file.buffer file.writeLen data n
      writeLen := (file.writeLen + len) % 2 ^ 64 })

/-- `fifo_object_read` of at most `len` bytes: the value it returns and the bytes it stores. -/
def fifoObjectRead (file : FifoFile) (len : Nat) : Except Stop ((Int × List UInt8) × FifoFile) :=
  if file.writeLen = 0 then .ok ((-eAGAIN, []), { file with hasData := false })
  else if len = 0 then .ok ((0, []), file)
  else
    let file := { file with canWrite := true }
    let len := if file.writeLen < len then file.writeLen else len
    let n := len % 2 ^ 32
    let rest := (file.bufferLen - len) % 2 ^ 32
    if file.bufferLen < n ∨ file.bufferLen < len + rest then .error .overrun
    else
      let bytes := firstBytes file.buffer n
      let writeLen := file.writeLen - len
      .ok ((toInt len, bytes), { file with
        buffer := memcpy file.buffer 0 len rest
        writeLen
        hasData := if writeLen = 0 then false else file.hasData })

/-- What is stored. -/
def contents (file : FifoFile) : List UInt8 := firstBytes file.buffer file.writeLen

end FifoFile

/-! ## Runs -/

inductive FifoCall where
  | write (data : Bytes) (len : UInt64) (memory : Bytes)
  | read (len : UInt64)

/-- What a call returns, the bytes that a read stores, and the queue after it. -/
structure FifoOutcome where
  rc : Int
  bytes : List UInt8 := []
  file : FifoFile

def FifoFile.step (file : FifoFile) : FifoCall → Except Stop FifoOutcome
  | .write data len memory => do
    let (rc, file) ← file.fifoObjectWrite data len.toNat memory
    return { rc, file }
  | .read len => do
    let ((rc, bytes), file) ← file.fifoObjectRead len.toNat
    return { rc, bytes, file }

/-- A call with the queue before it and its outcome. -/
structure FifoEntry where
  before : FifoFile
  call : FifoCall
  outcome : FifoOutcome

/-- The runs in which every call is `allowed` where it happens. -/
inductive FifoRuns (allowed : FifoFile → FifoCall → Prop) (start : FifoFile) :
    List FifoEntry → FifoFile → Prop where
  | start : FifoRuns allowed start [] start
  | step (before : FifoRuns allowed start trace file) (permitted : allowed file call)
    (returned : file.step call = .ok outcome) :
    FifoRuns allowed start (trace ++ [⟨file, call, outcome⟩]) outcome.file

/-- The bytes of a write that has returned success. -/
def FifoEntry.written (entry : FifoEntry) : List UInt8 :=
  match entry.call with
  | .write data len _ => if 0 ≤ entry.outcome.rc then firstBytes data len.toNat else []
  | .read _ => []

def written (trace : List FifoEntry) : List UInt8 := (trace.map FifoEntry.written).flatten

def delivered (trace : List FifoEntry) : List UInt8 :=
  (trace.map fun entry => entry.outcome.bytes).flatten

/-- What the reads have returned and what is stored is what the writes have stored, a write that
fails leaves that alone, and the bytes end inside the buffer. -/
structure NothingLost (trace : List FifoEntry) (file : FifoFile) : Prop where
  whole : delivered trace ++ file.contents = written trace
  failed : ∀ entry ∈ trace, entry.outcome.rc < 0 →
    entry.outcome.file.contents = entry.before.contents
  inside : file.writeLen < file.bufferLen

/-- The length of a write does not wrap around with what is stored, and a buffer of 2 GiB is not
made larger. -/
def Modest (file : FifoFile) : FifoCall → Prop
  | .write _ len _ => file.writeLen + len.toNat < 2 ^ 64 ∧
    (file.bufferLen ≤ file.writeLen + len.toNat → file.bufferLen + 4096 ≤ 2 ^ 31)
  | .read _ => True

/-! ## What the calls do -/

namespace FifoFile

variable {file : FifoFile}

theorem step_write
    (returned : file.fifoObjectWrite data (UInt64.toNat len) memory = .ok (rc, after)) :
    file.step (.write data len memory) = .ok ⟨rc, [], after⟩ := by
  unfold step
  dsimp only
  rw [returned]
  rfl

theorem step_read (returned : file.fifoObjectRead (UInt64.toNat len) = .ok ((rc, bytes), after)) :
    file.step (.read len) = .ok ⟨rc, bytes, after⟩ := by
  unfold step
  dsimp only
  rw [returned]
  rfl

/-- The bytes end inside the buffer, which is no larger than 2 GiB. -/
structure Kept (file : FifoFile) : Prop where
  inside : file.writeLen < file.bufferLen
  small : file.bufferLen ≤ 2 ^ 31

theorem Kept.flags (kept : Kept file) (hasData canWrite : Bool) :
    Kept { file with hasData, canWrite } :=
  ⟨kept.inside, kept.small⟩

theorem write_fits (small : file.bufferLen ≤ 2 ^ 31) (fits : file.writeLen + len < file.bufferLen)
    (data memory : Bytes) :
    file.fifoObjectWrite data len memory = .ok (len, { file with
      buffer := splice file.buffer file.writeLen data len
      writeLen := file.writeLen + len
      hasData := true }) := by
  unfold fifoObjectWrite
  dsimp only
  rw [Nat.mod_eq_of_lt (by omega : file.writeLen + len < 2 ^ 64),
    Nat.mod_eq_of_lt (by omega : len < 2 ^ 32), if_neg (by omega), if_neg (by omega),
    toInt_of_lt (by omega)]

theorem write_refused (nowrap : file.writeLen + len < 2 ^ 64)
    (full : file.bufferLen ≤ file.writeLen + len) (data memory : Bytes) :
    file.fifoObjectWrite data len memory =
      .ok (-eAGAIN, { file with hasData := true, canWrite := false }.fifoRealloc memory) := by
  unfold fifoObjectWrite
  dsimp only
  rw [Nat.mod_eq_of_lt nowrap, if_pos full]

theorem fifoRealloc_contents (kept : Kept file) (memory : Bytes) :
    (file.fifoRealloc memory).contents = file.contents := by
  refine firstBytes_congr fun i (inside : i < file.writeLen) => ?_
  exact splice_inside (Nat.zero_le i) (by have := kept.inside; omega)

theorem Kept.fifoRealloc (kept : Kept file) (small : file.bufferLen + 4096 ≤ 2 ^ 31)
    (memory : Bytes) : Kept (file.fifoRealloc memory) := by
  have size : (file.fifoRealloc memory).bufferLen = file.bufferLen + 4096 :=
    Nat.mod_eq_of_lt (by omega)
  refine ⟨?_, by rw [size]; exact small⟩
  rw [size]
  exact Nat.lt_add_right 4096 kept.inside

theorem read_empty (empty : file.writeLen = 0) (len : Nat) :
    file.fifoObjectRead len = .ok ((-eAGAIN, []), { file with hasData := false }) := by
  unfold fifoObjectRead
  rw [if_pos empty]

theorem read_nothing (stored : file.writeLen ≠ 0) :
    file.fifoObjectRead 0 = .ok ((0, []), file) := by
  unfold fifoObjectRead
  rw [if_neg stored, if_pos rfl]

/-- A read takes bytes from the front. -/
theorem read_front (kept : Kept file) (stored : file.writeLen ≠ 0) (some : len ≠ 0) :
    file.fifoObjectRead len = .ok ((↑(min len file.writeLen),
      firstBytes file.buffer (min len file.writeLen)), { file with
        buffer := splice file.buffer 0 (skip file.buffer (min len file.writeLen))
          (file.bufferLen - min len file.writeLen)
        writeLen := file.writeLen - min len file.writeLen
        hasData := if file.writeLen - min len file.writeLen = 0 then false else file.hasData
        canWrite := true }) := by
  obtain ⟨inside, small⟩ := kept
  have least : (if file.writeLen < len then file.writeLen else len) = min len file.writeLen := by
    split <;> omega
  unfold fifoObjectRead
  dsimp only
  rw [if_neg stored, if_neg some, least,
    Nat.mod_eq_of_lt (by omega : min len file.writeLen < 2 ^ 32),
    Nat.mod_eq_of_lt (by omega : file.bufferLen - min len file.writeLen < 2 ^ 32),
    if_neg (by omega), toInt_of_lt (by omega), memcpy_forward (Nat.zero_le _)]

theorem shifted_contents (kept : Kept file) (taken : n ≤ file.writeLen) :
    firstBytes file.buffer n ++
        firstBytes (splice file.buffer 0 (skip file.buffer n) (file.bufferLen - n))
          (file.writeLen - n) =
      file.contents := by
  have shifted : firstBytes (splice file.buffer 0 (skip file.buffer n) (file.bufferLen - n))
      (file.writeLen - n) = firstBytes (skip file.buffer n) (file.writeLen - n) := by
    refine firstBytes_congr fun i inside => ?_
    exact splice_inside (Nat.zero_le i) (by have := kept.inside; omega)
  rw [shifted, ← firstBytes_add, Nat.add_sub_cancel' taken]
  rfl

end FifoFile

/-! ## Every run -/

/-- What one call does to a queue: the bytes that it returns come from the front, the bytes of a
write that succeeds go to the end. -/
structure Moves (entry : FifoEntry) : Prop where
  kept : entry.outcome.file.Kept
  whole : entry.outcome.bytes ++ entry.outcome.file.contents =
    entry.before.contents ++ entry.written
  failed : entry.outcome.rc < 0 → entry.outcome.file.contents = entry.before.contents

section
variable (kept : FifoFile.Kept file)
include kept

theorem moves_write (modest : Modest file (.write data len memory)) :
    ∃ outcome, file.step (.write data len memory) = .ok outcome ∧
      Moves ⟨file, .write data len memory, outcome⟩ := by
  obtain ⟨nowrap, limit⟩ := modest
  by_cases full : file.bufferLen ≤ file.writeLen + len.toNat
  · refine ⟨_, FifoFile.step_write (FifoFile.write_refused nowrap full _ _), ?_⟩
    have same := FifoFile.fifoRealloc_contents (kept.flags true false) memory
    refine ⟨(kept.flags true false).fifoRealloc (limit full) memory, ?_, fun _ => same⟩
    refine (nil_append _).trans (same.trans ?_)
    exact (append_nil _).symm
  · have fits : file.writeLen + len.toNat < file.bufferLen := by omega
    refine ⟨_, FifoFile.step_write (FifoFile.write_fits kept.small fits _ _), ?_⟩
    refine ⟨⟨fits, kept.small⟩, ?_, fun failed => ?_⟩
    · exact firstBytes_splice file.buffer data file.writeLen len.toNat
    · exact absurd failed (by dsimp only; omega)

theorem moves_read (len : UInt64) :
    ∃ outcome, file.step (.read len) = .ok outcome ∧ Moves ⟨file, .read len, outcome⟩ := by
  by_cases empty : file.writeLen = 0
  · refine ⟨_, FifoFile.step_read (FifoFile.read_empty empty _), ?_⟩
    exact ⟨⟨kept.inside, kept.small⟩, (append_nil _).symm, fun _ => rfl⟩
  · by_cases nothing : len.toNat = 0
    · refine ⟨_, FifoFile.step_read (nothing ▸ FifoFile.read_nothing empty), ?_⟩
      exact ⟨kept, (append_nil _).symm, fun _ => rfl⟩
    · refine ⟨_, FifoFile.step_read (FifoFile.read_front kept empty nothing), ?_⟩
      refine ⟨⟨?_, kept.small⟩, ?_, fun failed => ?_⟩
      · exact (Nat.sub_le _ _).trans_lt kept.inside
      · exact (FifoFile.shifted_contents kept (min_le_right _ _)).trans (append_nil _).symm
      · exact absurd failed (by dsimp only; omega)

theorem moves (modest : Modest file call) :
    ∃ outcome, file.step call = .ok outcome ∧ Moves ⟨file, call, outcome⟩ := by
  cases call with
  | write data len memory => exact moves_write kept modest
  | read len => exact moves_read kept len

end

theorem FifoRuns.kept
    (run : FifoRuns Modest (.createFifoObject memory hasData canWrite) trace file) :
    file.Kept ∧ NothingLost trace file := by
  induction run with
  | start =>
    have inside : 0 < 4096 := by decide
    exact ⟨⟨inside, show 4096 ≤ 2 ^ 31 by decide⟩, rfl, forall_mem_nil _,
      inside⟩
  | @step trace file call outcome before modest returned held =>
    obtain ⟨kept, whole, failed, inside⟩ := held
    obtain ⟨_, same, moved⟩ := moves kept modest
    cases returned.symm.trans same
    refine ⟨moved.kept, ?_, ?_, moved.kept.inside⟩
    · have shown := moved.whole
      unfold delivered written at whole ⊢
      rw [map_append, flatten_append, map_append, flatten_append, ← whole,
        append_assoc, append_assoc]
      simp only [map_cons, map_nil, flatten_cons, flatten_nil,
        append_nil]
      rw [shown]
    · rw [forall_mem_append, forall_mem_singleton]
      exact ⟨failed, moved.failed⟩

/-- Queues neither lose nor invent a byte, and every call returns, as long as the writes are
modest. -/
theorem fifo_conserves_when_modest (memory : Bytes) (hasData canWrite : Bool)
    (run : FifoRuns Modest (.createFifoObject memory hasData canWrite) trace file) :
    NothingLost trace file ∧ ∀ call, Modest file call → Returns (file.step call) := by
  obtain ⟨kept, lost⟩ := run.kept
  refine ⟨lost, fun call modest => ?_⟩
  obtain ⟨outcome, returned, _⟩ := moves kept modest
  exact ⟨outcome, returned⟩

/-- A write and a read of one byte. -/
theorem fifo_conserves_one_byte :
    ∃ trace file, FifoRuns Modest (.createFifoObject zeros false true) trace file ∧
      trace.length = 2 ∧ NothingLost trace file ∧
      ∀ call, Modest file call → Returns (file.step call) := by
  have fits : Modest (.createFifoObject zeros false true) (.write (fun _ => 7) 1 zeros) :=
    ⟨by decide, fun full => absurd full (by decide)⟩
  have run := (FifoRuns.start.step fits rfl).step (show Modest _ (.read 1) from trivial) rfl
  exact ⟨_, _, run, rfl, fifo_conserves_when_modest zeros false true run⟩

/-- After a write of one byte, a write of 2^64 - 1 bytes passes the check of the room and
copies behind the buffer. -/
theorem wrapped_write_overruns :
    ∃ trace file, FifoRuns (fun _ _ => True) (.createFifoObject zeros false true) trace file ∧
      trace.length = 1 ∧
      file.step (.write zeros 0xFFFFFFFFFFFFFFFF zeros) = .error .overrun := by
  have run : FifoRuns (fun _ _ => True) (.createFifoObject zeros false true) _ _ :=
    FifoRuns.start.step trivial (rfl : FifoFile.step _ (.write zeros 1 zeros) = _)
  exact ⟨_, _, run, rfl, rfl⟩

end SbOS.Vfs
