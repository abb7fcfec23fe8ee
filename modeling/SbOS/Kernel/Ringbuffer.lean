import SbOS.Lib.Bytes
import SbOS.Lib.Fifo
import SbOS.Kernel.Stop

/-! The ring buffer of `lib/ringbuffer.c`: one slot stays empty, so that equal
pointers mean an empty buffer. Both loops copy a piece that does not cross the
end of the array, at most one byte short of the other pointer. -/
namespace SbOS.Kernel
open Bytes Function Program List

structure Ringbuffer where
  buffer : Bytes
  bufferSize : Nat
  readPtr : Nat
  writePtr : Nat

namespace Ringbuffer

def used (rb : Ringbuffer) : Nat :=
  if rb.writePtr < rb.readPtr then wrap32 (sub32 rb.bufferSize rb.readPtr + rb.writePtr)
  else sub32 rb.writePtr rb.readPtr

def capacity (rb : Ringbuffer) : Nat := sub32 rb.bufferSize 1

def unused (rb : Ringbuffer) : Nat := sub32 rb.capacity rb.used

def isempty (rb : Ringbuffer) : Bool := rb.writePtr = rb.readPtr

/-- `ringbuffer_init`, with the outcome of its `kmalloc`: memory with something in
it, or none. -/
def init (allocation : Option Bytes) (bufferSize : Nat) : Bool × Ringbuffer :=
  match allocation with
  | none => (false, ⟨zeros, 0, 0, 0⟩)
  | some buffer => (true, ⟨buffer, bufferSize, 0, 0⟩)

/-- `buffer_left` of `ringbuffer_write`. -/
def bufferLeft (rb : Ringbuffer) : Nat :=
  if rb.readPtr ≤ rb.writePtr then
    let left := sub32 rb.bufferSize rb.writePtr
    if 0 = rb.readPtr ∧ 0 < left then sub32 left 1 else left
  else sub32 (sub32 rb.readPtr rb.writePtr) 1

/-- The loop of `ringbuffer_write`: the bytes left over and the buffer. A turn
that goes on writes at least one byte, so `fuel` above `len` never runs out. -/
def writeLoop : (fuel : Nat) → Ringbuffer → (buffer : Bytes) → (len : Nat) →
    Except Stop (Nat × Ringbuffer)
  | 0, _, _, _ => .error .diverged
  | fuel + 1, rb, buffer, len =>
    if len = 0 then .ok (len, rb)
    else if rb.bufferLeft = 0 then .ok (len, rb)
    else
      let writeLen := min (min len rb.bufferLeft) (sub32 rb.bufferSize rb.writePtr)
      writeLoop fuel { rb with
        buffer := splice rb.buffer rb.writePtr buffer writeLen
        writePtr := wrap32 (rb.writePtr + writeLen) % rb.bufferSize }
        (skip buffer writeLen) (sub32 len writeLen)

/-- `ringbuffer_write`: the number of bytes written. -/
def write (rb : Ringbuffer) (buffer : Bytes) (len : Nat) : Except Stop (Nat × Ringbuffer) := do
  let (left, rb) ← rb.writeLoop (len + 1) buffer len
  return (sub32 len left, rb)

/-- `read_len` before it is cut to the length asked for. -/
def readLen (rb : Ringbuffer) : Nat :=
  if rb.writePtr ≤ rb.readPtr then sub32 rb.bufferSize rb.readPtr
  else sub32 rb.writePtr rb.readPtr

/-- `len` bytes from `pos` on. -/
def bytesAt (b : Bytes) (pos len : Nat) : List UInt8 := (List.range len).map fun k => b (pos + k)

/-- The loop of `ringbuffer_read`: the bytes left over, the buffer, and what has
been stored at the destination, unless that is the null pointer. -/
def readLoop : (fuel : Nat) → Ringbuffer → (stored : Option (List UInt8)) → (len : Nat) →
    Except Stop (Nat × Ringbuffer × Option (List UInt8))
  | 0, _, _, _ => .error .diverged
  | fuel + 1, rb, stored, len =>
    if len = 0 then .ok (len, rb, stored)
    else if rb.readPtr = rb.writePtr then .ok (len, rb, stored)
    else
      let readLen := min len rb.readLen
      readLoop fuel { rb with readPtr := wrap32 (rb.readPtr + readLen) % rb.bufferSize }
        (stored.map (· ++ bytesAt rb.buffer rb.readPtr readLen)) (sub32 len readLen)

/-- `ringbuffer_read`: the number of bytes read, and the bytes unless the
destination is null. -/
def read (rb : Ringbuffer) (destination : Bool) (len : Nat) :
    Except Stop ((Nat × Option (List UInt8)) × Ringbuffer) := do
  let (left, rb, stored) ← rb.readLoop (len + 1) (if destination then some [] else none) len
  return ((sub32 len left, stored), rb)

/-- `ringbuffer_free`. -/
def free (_ : Ringbuffer) : Ringbuffer := ⟨zeros, 0, 0, 0⟩

/-! ### The queue in the buffer -/

/-- Both pointers are inside the array, which has room for more than the empty
slot. -/
structure Valid (rb : Ringbuffer) : Prop where
  size : 2 ≤ rb.bufferSize
  small : rb.bufferSize < 2 ^ 32
  readPtr : rb.readPtr < rb.bufferSize
  writePtr : rb.writePtr < rb.bufferSize

/-- The bytes between the pointers, in the order in which they will be read. -/
def contents (rb : Ringbuffer) : List UInt8 :=
  (List.range rb.used).map fun k => rb.buffer ((rb.readPtr + k) % rb.bufferSize)

theorem free_contents (rb : Ringbuffer) : rb.free.contents = [] := by
  have none_used : rb.free.used = 0 := by simp [free, used, sub32, wrap32]
  rw [contents, none_used]
  rfl

/-- A sum of two indices wraps around at most once. -/
theorem mod_cases (once : a < 2 * b) : (a < b ∧ a % b = a) ∨ (b ≤ a ∧ a % b + b = a) := by
  rcases lt_or_ge a b with less | more
  · exact .inl ⟨less, Nat.mod_eq_of_lt less⟩
  · rw [Nat.mod_eq_sub_mod more, Nat.mod_eq_of_lt (by omega)]
    exact .inr ⟨more, Nat.sub_add_cancel more⟩

namespace Valid
variable {rb rb' : Ringbuffer}

section
variable (valid : rb.Valid)
include valid

theorem used_cases :
    (rb.writePtr < rb.readPtr ∧ rb.used + rb.readPtr = rb.bufferSize + rb.writePtr) ∨
      (rb.readPtr ≤ rb.writePtr ∧ rb.used + rb.readPtr = rb.writePtr) := by
  obtain ⟨size, small, readPtr, writePtr⟩ := valid
  unfold used
  split
  · rename_i wrapped
    have plain : wrap32 (rb.bufferSize - rb.readPtr + rb.writePtr) =
        rb.bufferSize - rb.readPtr + rb.writePtr := Nat.mod_eq_of_lt (by omega)
    rw [sub32_eq readPtr.le small, plain]
    exact .inl ⟨wrapped, by omega⟩
  · rename_i plain
    rw [sub32_eq (by omega) (by omega)]
    exact .inr ⟨by omega, by omega⟩

theorem used_lt : rb.used < rb.bufferSize := by
  have := valid.used_cases
  have := valid.writePtr
  omega

theorem capacity_eq : rb.capacity = rb.bufferSize - 1 :=
  sub32_eq (by have := valid.size; omega) valid.small

theorem unused_eq : rb.unused = rb.bufferSize - 1 - rb.used := by
  have less := valid.used_lt
  unfold unused
  rw [valid.capacity_eq]
  exact sub32_eq (by omega) (by have := valid.small; omega)

end

theorem contents_length : rb.contents.length = rb.used := by
  simp [contents]

/-- The next piece to write stays inside the array and behind the read pointer,
and it is empty only when there is no room. -/
theorem piece_to_write (valid : rb.Valid) :
    min rb.bufferLeft (sub32 rb.bufferSize rb.writePtr) ≤ rb.bufferSize - 1 - rb.used ∧
      min rb.bufferLeft (sub32 rb.bufferSize rb.writePtr) ≤ rb.bufferSize - rb.writePtr ∧
      (rb.bufferLeft = 0 ↔ rb.used = rb.bufferSize - 1) := by
  have used := valid.used_cases
  obtain ⟨size, small, readPtr, writePtr⟩ := valid
  have toEnd := sub32_eq writePtr.le small
  rw [toEnd]
  unfold bufferLeft
  rw [toEnd]
  rcases used with ⟨wrapped, used⟩ | ⟨order, used⟩
  · rw [if_neg (by omega), sub32_eq wrapped.le (by omega), sub32_eq (by omega) (by omega)]
    omega
  · rw [if_pos order]
    by_cases zero : rb.readPtr = 0
    · rw [if_pos ⟨zero.symm, by omega⟩, sub32_eq (by omega) (by omega)]
      omega
    · rw [if_neg fun both => zero both.1.symm]
      omega

theorem piece_to_read (valid : rb.Valid) : rb.readLen ≤ rb.bufferSize - rb.readPtr ∧
    (rb.readPtr ≠ rb.writePtr → 0 < rb.readLen ∧ rb.readLen ≤ rb.used) := by
  have used := valid.used_cases
  obtain ⟨size, small, readPtr, writePtr⟩ := valid
  unfold readLen
  split
  · rw [sub32_eq (by omega) (by omega)]
    omega
  · rw [sub32_eq (by omega) (by omega)]
    omega

/-- Writing a piece puts its bytes at the end of the queue. -/
theorem push (valid : rb.Valid) (room : n ≤ rb.bufferSize - 1 - rb.used)
    (fits : n ≤ rb.bufferSize - rb.writePtr) (bytes : Bytes)
    (pushed : rb' = { rb with
      buffer := splice rb.buffer rb.writePtr bytes n
      writePtr := wrap32 (rb.writePtr + n) % rb.bufferSize }) :
    rb'.Valid ∧ rb'.contents = rb.contents ++ bytesAt bytes 0 n := by
  have used := valid.used_cases
  obtain ⟨size, small, readPtr, writePtr⟩ := valid
  have plain : wrap32 (rb.writePtr + n) = rb.writePtr + n := Nat.mod_eq_of_lt (by omega)
  have next := mod_cases (show rb.writePtr + n < 2 * rb.bufferSize by omega)
  have pointer : rb'.writePtr = (rb.writePtr + n) % rb.bufferSize := by rw [pushed, plain]
  have array : rb'.buffer = splice rb.buffer rb.writePtr bytes n := by rw [pushed]
  have same : rb'.bufferSize = rb.bufferSize ∧ rb'.readPtr = rb.readPtr := by
    rw [pushed]
    exact ⟨rfl, rfl⟩
  have valid' : rb'.Valid := ⟨by omega, by omega, by omega, by omega⟩
  have used' : rb'.used = rb.used + n := by
    have := valid'.used_cases
    omega
  refine ⟨valid', ?_⟩
  unfold contents
  rw [used', range_add, map_append, map_map, same.1, same.2, array]
  congr 1
  · apply map_congr_left
    intro k member
    have below := mem_range.mp member
    have place := mod_cases (show rb.readPtr + k < 2 * rb.bufferSize by omega)
    exact splice_outside (by omega)
  · apply map_congr_left
    intro k member
    have below := mem_range.mp member
    have place := mod_cases (show rb.readPtr + (rb.used + k) < 2 * rb.bufferSize by omega)
    rw [comp_apply, splice_inside (by omega) (by omega)]
    congr 1
    omega

/-- Reading a piece takes its bytes from the front of the queue. -/
theorem pop (valid : rb.Valid) (there : n ≤ rb.used) (fits : n ≤ rb.bufferSize - rb.readPtr)
    (popped : rb' = { rb with readPtr := wrap32 (rb.readPtr + n) % rb.bufferSize }) :
    rb'.Valid ∧ rb.contents = bytesAt rb.buffer rb.readPtr n ++ rb'.contents := by
  have used := valid.used_cases
  obtain ⟨size, small, readPtr, writePtr⟩ := valid
  have plain : wrap32 (rb.readPtr + n) = rb.readPtr + n := Nat.mod_eq_of_lt (by omega)
  have next := mod_cases (show rb.readPtr + n < 2 * rb.bufferSize by omega)
  have pointer : rb'.readPtr = (rb.readPtr + n) % rb.bufferSize := by rw [popped, plain]
  have same : rb'.bufferSize = rb.bufferSize ∧ rb'.writePtr = rb.writePtr ∧
      rb'.buffer = rb.buffer := by
    rw [popped]
    exact ⟨rfl, rfl, rfl⟩
  have valid' : rb'.Valid := ⟨by omega, by omega, by omega, by omega⟩
  have used' : rb.used = n + rb'.used := by
    have := valid'.used_cases
    omega
  refine ⟨valid', ?_⟩
  unfold contents
  rw [used', range_add, map_append, map_map, same.1, same.2.2]
  congr 1
  · apply map_congr_left
    intro k member
    have below := mem_range.mp member
    rw [Nat.mod_eq_of_lt (by omega)]
  · apply map_congr_left
    intro k member
    have below := mem_range.mp member
    have place := mod_cases (show rb.readPtr + (n + k) < 2 * rb.bufferSize by omega)
    have place' := mod_cases (show rb'.readPtr + k < 2 * rb.bufferSize by omega)
    rw [comp_apply]
    congr 1
    omega

end Valid

/-! ### The loops -/

theorem bytesAt_append (b : Bytes) (n m : Nat) :
    bytesAt b 0 (n + m) = bytesAt b 0 n ++ bytesAt (skip b n) 0 m := by
  unfold bytesAt
  rw [range_add, map_append, map_map]
  congr 1
  apply map_congr_left
  intro k _
  rw [comp_apply, skip_apply]
  congr 1
  omega

variable {rb : Ringbuffer}

/-- The loop of `ringbuffer_write` ends, with as much written as there was room
for. -/
theorem writeLoop_spec (valid : rb.Valid) (bytes : Bytes) (enough : len < fuel)
    (small : len < 2 ^ 32) :
    ∃ rb', rb.writeLoop fuel bytes len = .ok (len - min len (rb.bufferSize - 1 - rb.used), rb') ∧
      rb'.Valid ∧ rb'.bufferSize = rb.bufferSize ∧
      rb'.contents = rb.contents ++ bytesAt bytes 0 (min len (rb.bufferSize - 1 - rb.used)) := by
  induction fuel generalizing rb bytes len with
  | zero => omega
  | succ fuel ih =>
    obtain ⟨room, inside, full⟩ := valid.piece_to_write
    unfold writeLoop
    by_cases done : len = 0 ∨ rb.bufferLeft = 0
    · have nothing : min len (rb.bufferSize - 1 - rb.used) = 0 := by omega
      rw [nothing]
      refine ⟨rb, ?_, valid, rfl, (append_nil _).symm⟩
      rcases done with rfl | none
      · rw [if_pos rfl, Nat.sub_zero]
      · by_cases zero : len = 0
        · rw [if_pos zero, Nat.sub_zero]
        · rw [if_neg zero, if_pos none, Nat.sub_zero]
    · rw [if_neg (fun zero => done (.inl zero)), if_neg (fun none => done (.inr none))]
      dsimp only
      have toEnd := sub32_eq valid.writePtr.le valid.small
      have writePtr := valid.writePtr
      generalize written : min (min len rb.bufferLeft) (sub32 rb.bufferSize rb.writePtr) = n
      have n_le : n ≤ len ∧ 0 < n ∧ n ≤ rb.bufferSize - 1 - rb.used ∧
          n ≤ rb.bufferSize - rb.writePtr := by omega
      generalize pushed : ({ rb with
        buffer := splice rb.buffer rb.writePtr bytes n
        writePtr := wrap32 (rb.writePtr + n) % rb.bufferSize } : Ringbuffer) = middle
      have size : middle.bufferSize = rb.bufferSize := by rw [← pushed]
      obtain ⟨valid', contents'⟩ := valid.push n_le.2.2.1 n_le.2.2.2 bytes pushed.symm
      have used' := congrArg List.length contents'
      rw [List.length_append, Valid.contents_length, Valid.contents_length, bytesAt,
        length_map, length_range] at used'
      rw [sub32_eq n_le.1 small]
      obtain ⟨rb', ran, valid'', size', contents''⟩ := ih valid' (skip bytes n)
        (show len - n < fuel by omega) (by omega)
      have amount : min len (rb.bufferSize - 1 - rb.used) =
          n + min (len - n) (rb.bufferSize - 1 - (rb.used + n)) := by omega
      rw [used', size] at ran contents''
      refine ⟨rb', ran.trans ?_, valid'', size'.trans size, ?_⟩
      · rw [amount, Nat.sub_sub]
      · rw [contents'', contents', append_assoc, amount, bytesAt_append]

/-- The loop of `ringbuffer_read` ends, with as much read as there was. -/
theorem readLoop_spec (valid : rb.Valid) (stored : Option (List UInt8)) (enough : len < fuel)
    (small : len < 2 ^ 32) :
    ∃ rb', rb.readLoop fuel stored len =
        .ok (len - min len rb.used, rb', stored.map (· ++ rb.contents.take len)) ∧
      rb'.Valid ∧ rb'.bufferSize = rb.bufferSize ∧ rb'.contents = rb.contents.drop len := by
  induction fuel generalizing rb stored len with
  | zero => omega
  | succ fuel ih =>
    obtain ⟨inside, there⟩ := valid.piece_to_read
    have length := @Valid.contents_length rb
    unfold readLoop
    by_cases zero : len = 0
    · subst zero
      rw [if_pos rfl]
      refine ⟨rb, ?_, valid, rfl, rfl⟩
      simp
    rw [if_neg zero]
    by_cases empty : rb.readPtr = rb.writePtr
    · have used := valid.used_cases
      have none : rb.used = 0 := by omega
      have nil : rb.contents = [] := eq_nil_of_length_eq_zero (by omega)
      rw [if_pos empty]
      refine ⟨rb, ?_, valid, rfl, ?_⟩
      · simp [nil, none]
      · simp [nil]
    · rw [if_neg empty]
      dsimp only
      obtain ⟨positive, most⟩ := there empty
      generalize taken : min len rb.readLen = n
      generalize popped : ({ rb with readPtr := wrap32 (rb.readPtr + n) % rb.bufferSize } :
        Ringbuffer) = middle
      have size : middle.bufferSize = rb.bufferSize := by rw [← popped]
      obtain ⟨valid', contents'⟩ := valid.pop (show n ≤ rb.used by omega)
        (show n ≤ rb.bufferSize - rb.readPtr by omega) popped.symm
      rw [sub32_eq (by omega) small]
      obtain ⟨rb', ran, valid'', size', contents''⟩ := ih valid'
        (stored.map (· ++ bytesAt rb.buffer rb.readPtr n)) (show len - n < fuel by omega) (by omega)
      have piece : (bytesAt rb.buffer rb.readPtr n).length = n := by simp [bytesAt]
      have short : (bytesAt rb.buffer rb.readPtr n).length ≤ len := by omega
      have used' := congrArg List.length contents'
      rw [List.length_append, piece, Valid.contents_length, Valid.contents_length] at used'
      refine ⟨rb', ran.trans ?_, valid'', size'.trans size, ?_⟩
      · rw [contents', take_append, piece, take_of_length_le short, Option.map_map,
          show len - n - min (len - n) middle.used = len - min len rb.used by omega]
        simp only [comp_def, append_assoc]
      · rw [contents'', contents', drop_append, piece, drop_of_length_le short,
          nil_append]

/-! ### Runs of calls -/

inductive Call where
  | write (data : Bytes) (len : Nat)
  | read (destination : Bool) (len : Nat)
  | used
  | unused
  | isempty

inductive Reply where
  | count (n : Nat)
  | bytes (n : Nat) (stored : Option (List UInt8))
  | flag (b : Bool)

/-- A length is a `u32`. -/
def Call.Typed : Call → Prop
  | .write _ len => len < 2 ^ 32
  | .read _ len => len < 2 ^ 32
  | _ => True

def perform : (call : Call) → Ringbuffer → Except Stop (Reply × Ringbuffer)
  | .write data len, rb => do
    let (n, rb) ← rb.write data len
    return (.count n, rb)
  | .read destination len, rb => do
    let ((n, stored), rb) ← rb.read destination len
    return (.bytes n stored, rb)
  | .used, rb => .ok (.count rb.used, rb)
  | .unused, rb => .ok (.count rb.unused, rb)
  | .isempty, rb => .ok (.flag rb.isempty, rb)

/-- The same calls on a queue. -/
def queueStep {capacity : Nat} : Call → Fifo UInt8 capacity → Reply × Fifo UInt8 capacity
  | .write data len, q => (.count (min len q.free), q.put (bytesAt data 0 len))
  | .read destination len, q =>
    (.bytes (min len q.used) (if destination then some (q.get len).1 else none), (q.get len).2)
  | .used, q => (.count q.used, q)
  | .unused, q => (.count q.free, q)
  | .isempty, q => (.flag q.items.isEmpty, q)

/-- The buffer holds the queue, which has one slot less. -/
structure Represents {capacity : Nat} (rb : Ringbuffer) (q : Fifo UInt8 capacity) : Prop where
  valid : rb.Valid
  size : rb.bufferSize = capacity + 1
  items : q.items = rb.contents

namespace Represents
variable {capacity : Nat} {q : Fifo UInt8 capacity}

section
variable (represents : rb.Represents q)
include represents

theorem used : q.used = rb.used := by
  unfold Fifo.used
  rw [represents.items, Valid.contents_length]

theorem free : q.free = rb.bufferSize - 1 - rb.used := by
  unfold Fifo.free
  rw [represents.items, Valid.contents_length, represents.size, Nat.add_sub_cancel]

theorem write (data : Bytes) (small : len < 2 ^ 32) :
    ∃ rb', rb.write data len = .ok (min len q.free, rb') ∧
      rb'.Represents (q.put (bytesAt data 0 len)) := by
  obtain ⟨rb', ran, valid, size, contents⟩ :=
    writeLoop_spec represents.valid data (Nat.lt_succ_self len) small
  refine ⟨rb', ?_, valid, ?_, ?_⟩
  · unfold Ringbuffer.write
    rw [ran, represents.free]
    change Except.ok (sub32 len (len - min len _), rb') = _
    rw [sub32_eq (by omega) small]
    congr 2
    omega
  · exact size.trans represents.size
  · change q.items ++ _ = _
    rw [contents, represents.items, represents.free]
    unfold bytesAt
    rw [← map_take, take_range, min_comm]

theorem read (destination : Bool) (small : len < 2 ^ 32) :
    ∃ rb', rb.read destination len =
        .ok ((min len q.used, if destination then some (q.get len).1 else none), rb') ∧
      rb'.Represents (q.get len).2 := by
  obtain ⟨rb', ran, valid, size, contents⟩ := readLoop_spec represents.valid
    (if destination then some [] else none) (Nat.lt_succ_self len) small
  refine ⟨rb', ?_, valid, ?_, ?_⟩
  · unfold Ringbuffer.read
    rw [ran, represents.used]
    change Except.ok ((sub32 len (len - min len rb.used), _), rb') = _
    have taken : (q.get len).1 = rb.contents.take len := by rw [← represents.items]; rfl
    rw [sub32_eq (by omega) small, taken,
      show len - (len - min len rb.used) = min len rb.used by omega]
    cases destination <;> rfl
  · exact size.trans represents.size
  · change q.items.drop len = _
    rw [contents, represents.items]

theorem isempty : rb.isempty = q.items.isEmpty := by
  have used := represents.valid.used_cases
  have size := represents.valid.readPtr
  have length := @Valid.contents_length rb
  unfold Ringbuffer.isempty
  rw [represents.items, Bool.eq_iff_iff, decide_eq_true_iff, isEmpty_iff_length_eq_zero]
  omega

end

end Represents

/-- The queue in a buffer. -/
def Valid.queue (valid : rb.Valid) : Fifo UInt8 (rb.bufferSize - 1) where
  items := rb.contents
  bounded := by
    have used := valid.used_lt
    rw [contents_length]
    omega

section
variable (valid : rb.Valid)
include valid

theorem Valid.represents : rb.Represents valid.queue where
  valid := valid
  size := (Nat.sub_add_cancel (Nat.le_of_succ_le valid.size)).symm
  items := rfl

/-- A full buffer takes nothing. -/
theorem Valid.write_full (data : Bytes) (small : len < 2 ^ 32)
    (full : rb.unused = 0) :
    ∃ rb', rb.write data len = .ok (0, rb') ∧ rb'.Valid ∧ rb'.contents = rb.contents := by
  rw [valid.unused_eq] at full
  obtain ⟨rb', ran, represents⟩ := valid.represents.write data small
  have free : valid.queue.free = 0 := valid.represents.free.trans full
  rw [free, Nat.min_zero] at ran
  refine ⟨rb', ran, represents.valid, represents.items.symm.trans ?_⟩
  change rb.contents ++ (bytesAt data 0 len).take valid.queue.free = _
  rw [free, take_zero, append_nil]

/-- Bytes that find room are all written. -/
theorem Valid.write_bytes (data : Bytes) (room : len ≤ rb.unused) :
    ∃ rb', rb.write data len = .ok (len, rb') ∧ rb'.Valid ∧
      rb'.bufferSize = rb.bufferSize ∧ rb'.contents = rb.contents ++ bytesAt data 0 len := by
  have small := valid.small
  rw [valid.unused_eq] at room
  obtain ⟨rb', ran, represents⟩ := valid.represents.write data (show len < 2 ^ 32 by omega)
  have free := valid.represents.free
  rw [free, min_eq_left room] at ran
  refine ⟨rb', ran, represents.valid, ?_, ?_⟩
  · have size := valid.size
    rw [represents.size]
    omega
  · rw [← represents.items]
    change rb.contents ++ (bytesAt data 0 len).take valid.queue.free = _
    have all : (bytesAt data 0 len).length ≤ valid.queue.free := by
      rw [free, bytesAt, length_map, length_range]
      exact room
    rw [take_of_length_le all]

omit valid in
theorem bytesAt_list {bytes : List UInt8} (inside : len ≤ bytes.length) :
    bytesAt (bytes.getD · 0) 0 len = bytes.take len := by
  refine ext_getElem (by simp [bytesAt, inside]) fun i first second => ?_
  have below : i < bytes.length := by
    rw [length_take] at second
    omega
  simp [bytesAt, getElem?_eq_getElem below]

theorem Valid.write_all (bytes : List UInt8) (inside : len ≤ bytes.length)
    (room : len ≤ rb.unused) :
    ∃ rb', rb.write (bytes.getD · 0) len = .ok (len, rb') ∧ rb'.Valid ∧
      rb'.contents = rb.contents ++ bytes.take len := by
  obtain ⟨rb', ran, valid', _, contents⟩ := valid.write_bytes (bytes.getD · 0) room
  rw [bytesAt_list inside] at contents
  exact ⟨rb', ran, valid', contents⟩

/-- A read takes the first bytes, also where it does not store them. -/
theorem Valid.read_to (destination : Bool) (small : len < 2 ^ 32) :
    ∃ rb', rb.read destination len =
        .ok ((min len rb.used, if destination then some (rb.contents.take len) else none), rb') ∧
      rb'.Valid ∧ rb'.bufferSize = rb.bufferSize ∧ rb'.contents = rb.contents.drop len := by
  obtain ⟨rb', ran, represents⟩ := valid.represents.read destination small
  rw [valid.represents.used] at ran
  refine ⟨rb', ran, represents.valid, ?_, represents.items.symm⟩
  have size := valid.size
  rw [represents.size]
  omega

theorem Valid.read_front (small : len < 2 ^ 32) :
    ∃ rb', rb.read true len = .ok ((min len rb.used, some (rb.contents.take len)), rb') ∧
      rb'.Valid ∧ rb'.bufferSize = rb.bufferSize ∧ rb'.contents = rb.contents.drop len :=
  valid.read_to true small

end

/-- One call on the buffer does what it does on the queue. -/
theorem perform_refines (call : Call)
    (represents : rb.Represents q) (typed : call.Typed) :
    ∃ rb', execute perform (ask call) rb = .ok ((queueStep call q).1, rb') ∧
      rb'.Represents (queueStep call q).2 := by
  rw [execute_ask]
  cases call with
  | write data len =>
    obtain ⟨rb', ran, after⟩ := represents.write data typed
    exact ⟨rb', by simp only [perform, ran]; rfl, after⟩
  | read destination len =>
    obtain ⟨rb', ran, after⟩ := represents.read destination typed
    exact ⟨rb', by simp only [perform, ran]; rfl, after⟩
  | used => exact ⟨rb, by rw [perform, queueStep, represents.used], represents⟩
  | unused =>
    exact ⟨rb, by rw [perform, queueStep, represents.free, represents.valid.unused_eq], represents⟩
  | isempty => exact ⟨rb, by rw [perform, queueStep, represents.isempty], represents⟩

/-- A new buffer holds the empty queue. -/
theorem init_represents (memory : Bytes) (large : 2 ≤ size) (small : size < 2 ^ 32) :
    (init (some memory) size).2.Represents (.empty : Fifo UInt8 (size - 1)) where
  valid := ⟨large, small, show 0 < size by omega, show 0 < size by omega⟩
  size := show size = size - 1 + 1 by omega
  items := by
    have none_used : (init (some memory) size).2.used = 0 := by simp [init, used, sub32, wrap32]
    rw [contents, none_used]
    rfl

/-- In every run of calls a buffer of `size` bytes behaves as a queue of
`size - 1`: each call returns, with the reply of the queue, and the pointers stay
inside the array. -/
theorem runs_as_fifo (memory : Bytes) (size : Nat) (large : 2 ≤ size) (small : size < 2 ^ 32)
    (calls : List Call) (typed : ∀ call ∈ calls, call.Typed) :
    ∃ replies rb, ∃ q : Fifo UInt8 (size - 1),
      Program.stepAll queueStep calls .empty = (replies, q) ∧
      Program.execute perform (Program.forEach Program.ask calls) (init (some memory) size).2 =
        .ok (replies, rb) ∧
      rb.Represents q ∧ rb.readPtr < size ∧ rb.writePtr < size := by
  obtain ⟨rb, ran, represents⟩ := forEach_refines_run
    (fun call _ _ => perform_refines call) (init_represents memory large small)
    ((ValidAll.of_forall (fun call member _ => typed call member) _).run _)
  have same : rb.bufferSize = size := represents.size.trans (by omega)
  exact ⟨_, rb, _, rfl, ran, represents, same ▸ represents.valid.readPtr,
    same ▸ represents.valid.writePtr⟩

/-- Six bytes hold five: the second write wraps around and is cut short, and a read
to nowhere still takes its bytes. -/
theorem runs_as_fifo_six :
    ∃ rb, Program.execute perform (Program.forEach Program.ask
          [.write (fun k => k.toUInt8) 4, .read true 2, .write (fun k => (k + 10).toUInt8) 7,
            .read false 1, .unused, .read true 9, .isempty]) (init (some zeros) 6).2 =
        .ok ([.count 4, .bytes 2 (some [0, 1]), .count 3, .bytes 1 none, .count 1,
          .bytes 4 (some [3, 10, 11, 12]), .flag true], rb) ∧
      rb.readPtr < 6 ∧ rb.writePtr < 6 := by
  obtain ⟨replies, rb, q, stepped, ran, _, inside⟩ := runs_as_fifo zeros 6 (by decide) (by decide)
    [.write (fun k => k.toUInt8) 4, .read true 2, .write (fun k => (k + 10).toUInt8) 7,
      .read false 1, .unused, .read true 9, .isempty]
    (by simp [Call.Typed])
  have same := congrArg Prod.fst stepped
  exact ⟨rb, ran.trans (by rw [← show _ = replies from same]; rfl), inside⟩

end Ringbuffer

end SbOS.Kernel
