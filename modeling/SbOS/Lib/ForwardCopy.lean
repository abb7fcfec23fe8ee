import SbOS.Lib.Bytes

/-! Copying inside one memory, from low addresses to high ones and several bytes at a time. Where
the destination lies before the source no byte is overwritten before it has been read, so the
copy is what it would be through a second memory, also where the two ranges overlap. -/
namespace SbOS.Bytes

/-- `count` turns of a loop that copies `width` bytes. -/
def copyChunks (width : Nat) : (count : Nat) → (memory : Bytes) → (dst src : Nat) → Bytes
  | 0, memory, _, _ => memory
  | count + 1, memory, dst, src =>
    copyChunks width count (splice memory dst (skip memory src) width) (dst + width) (src + width)

/-- What is still to be copied has not been overwritten. -/
theorem splice_forward (before : dst ≤ src) (memory : Bytes) (done more : Nat) :
    splice (splice memory dst (skip memory src) done) (dst + done)
        (skip (splice memory dst (skip memory src) done) (src + done)) more =
      splice memory dst (skip memory src) (done + more) := by
  funext i
  by_cases copied : i < dst + done
  · rw [splice_outside (.inl copied)]
    by_cases low : dst ≤ i
    · rw [splice_inside low copied, splice_inside low (by omega)]
    · rw [splice_outside (.inl (by omega)), splice_outside (.inl (by omega))]
  by_cases next : i < dst + done + more
  · rw [splice_inside (by omega) next, splice_inside (by omega) (by omega), skip_apply,
      splice_outside (.inr (by omega)), skip_apply]
    congr 1
    omega
  · rw [splice_outside (.inr (by omega)), splice_outside (.inr (by omega)),
      splice_outside (.inr (by omega))]

theorem copyChunks_forward (before : dst ≤ src) (width count : Nat) (memory : Bytes) :
    copyChunks width count memory dst src =
      splice memory dst (skip memory src) (width * count) := by
  induction count generalizing memory dst src with
  | zero => rw [mul_zero, splice_empty, copyChunks]
  | succ count ih =>
    rw [copyChunks, ih (by omega), splice_forward before, Nat.mul_succ, add_comm]

/-- A copy that goes on where another one has stopped. -/
theorem copyChunks_next (before : dst ≤ src) (memory : Bytes) (done width count : Nat) :
    copyChunks width count (splice memory dst (skip memory src) done) (dst + done) (src + done) =
      splice memory dst (skip memory src) (done + width * count) := by
  rw [copyChunks_forward (by omega), splice_forward before]

/-! ### The first bytes of a memory -/

def firstBytes (memory : Bytes) (n : Nat) : List UInt8 := (List.range n).map memory

theorem firstBytes_length (memory : Bytes) (n : Nat) : (firstBytes memory n).length = n := by
  rw [firstBytes, List.length_map, List.length_range]

theorem firstBytes_congr (same : ∀ i < n, memory i = other i) :
    firstBytes memory n = firstBytes other n :=
  List.map_congr_left fun i inside => same i (List.mem_range.mp inside)

theorem firstBytes_add (memory : Bytes) (n m : Nat) :
    firstBytes memory (n + m) = firstBytes memory n ++ firstBytes (skip memory n) m := by
  unfold firstBytes
  rw [List.range_add, List.map_append, List.map_map]
  rfl

/-- Bytes written behind the first ones. -/
theorem firstBytes_splice (memory data : Bytes) (n m : Nat) :
    firstBytes (splice memory n data m) (n + m) = firstBytes memory n ++ firstBytes data m := by
  rw [firstBytes_add]
  congr 1
  · exact firstBytes_congr fun i inside => splice_outside (.inl inside)
  · refine firstBytes_congr fun i inside => ?_
    rw [skip_apply, splice_inside (by omega) (by omega), Nat.add_sub_cancel_left]

end SbOS.Bytes
