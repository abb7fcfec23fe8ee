import Mathlib.Data.Nat.ModEq
import Mathlib.Tactic.Ring

/-! Byte buffers as total functions from offsets to bytes, with the block copy
that every memory and disk transfer reduces to, and little-endian integer
fields read from and written into such a buffer. -/
namespace SbOS

/-- The contents of a buffer, a disk block or a whole device. -/
abbrev Bytes := Nat → UInt8

namespace Bytes

/-- `len` bytes of `src` copied over `dst` from position `pos` on. -/
def splice (dst : Bytes) (pos : Nat) (src : Bytes) (len : Nat) : Bytes :=
  fun i => if pos ≤ i ∧ i < pos + len then src (i - pos) else dst i

/-- The `len` bytes of `src` from position `pos` on, zero past the end. -/
def slice (src : Bytes) (pos len : Nat) : Bytes :=
  fun i => if i < len then src (pos + i) else 0

/-- The buffer seen through a pointer `n` bytes further on. -/
def skip (src : Bytes) (n : Nat) : Bytes := fun i => src (n + i)

/-- A buffer filled with zero bytes. -/
def zeros : Bytes := fun _ => 0

theorem splice_inside (low : pos ≤ i) (high : i < pos + len) :
    splice dst pos src len i = src (i - pos) := by
  simp [splice, low, high]

theorem splice_outside (outside : i < pos ∨ pos + len ≤ i) :
    splice dst pos src len i = dst i := by
  unfold splice
  rw [if_neg (by omega)]

@[simp] theorem splice_empty : splice dst pos src 0 = dst := by
  funext i
  exact splice_outside (by omega)

theorem slice_inside (bound : i < len) : slice src pos len i = src (pos + i) := by
  simp [slice, bound]

theorem slice_outside (bound : len ≤ i) : slice src pos len i = 0 := by
  simp [slice, show ¬ i < len by omega]

@[simp] theorem skip_apply : skip src n i = src (n + i) := rfl

@[simp] theorem zeros_apply : zeros i = 0 := rfl

@[simp] theorem slice_zeros : slice zeros pos len = zeros := by
  funext i
  simp [slice]

@[simp] theorem slice_zero : slice src pos 0 = zeros := by
  funext i
  exact slice_outside (Nat.zero_le i)

/-- Two slices agree as soon as the bytes they cover agree. -/
theorem slice_congr (same : ∀ i < len, src (pos + i) = other (pos' + i)) :
    slice src pos len = slice other pos' len := by
  funext i
  by_cases bound : i < len
  · rw [slice_inside bound, slice_inside bound, same i bound]
  · rw [slice_outside (by omega), slice_outside (by omega)]

/-- Reading back the range just written. -/
theorem slice_splice_same : slice (splice dst pos src len) pos len = slice src 0 len := by
  apply slice_congr
  intro i bound
  rw [splice_inside (by omega) (by omega)]
  congr 1
  omega

/-- A write outside a range leaves what is read from that range. -/
theorem slice_splice_disjoint (apart : pos + len ≤ from' ∨ from' + count ≤ pos) :
    slice (splice dst pos src len) from' count = slice dst from' count := by
  apply slice_congr
  intro i bound
  exact splice_outside (by omega)

/-! ### Little-endian fields -/

/-- The 16-bit field at offset `o`. -/
def le16 (b : Bytes) (o : Nat) : Nat := (b o).toNat + 256 * (b (o + 1)).toNat

/-- The 32-bit field at offset `o`. -/
def le32 (b : Bytes) (o : Nat) : Nat :=
  (b o).toNat + 256 * (b (o + 1)).toNat + 65536 * (b (o + 2)).toNat +
    16777216 * (b (o + 3)).toNat

/-- The little-endian bytes of a number. -/
def encode (v : Nat) : Bytes := fun i => UInt8.ofNat (v / 256 ^ i)

/-- Assignment to the 16-bit field at offset `o`. -/
def put16 (b : Bytes) (o v : Nat) : Bytes := splice b o (encode v) 2

/-- Assignment to the 32-bit field at offset `o`. -/
def put32 (b : Bytes) (o v : Nat) : Bytes := splice b o (encode v) 4

theorem le16_lt (b : Bytes) (o : Nat) : le16 b o < 2 ^ 16 := by
  have := (b o).toNat_lt
  have := (b (o + 1)).toNat_lt
  unfold le16
  omega

theorem le32_lt (b : Bytes) (o : Nat) : le32 b o < 2 ^ 32 := by
  have := (b o).toNat_lt
  have := (b (o + 1)).toNat_lt
  have := (b (o + 2)).toNat_lt
  have := (b (o + 3)).toNat_lt
  unfold le32
  omega

theorem le16_congr (same : ∀ i < 2, b (o + i) = c (p + i)) : le16 b o = le16 c p := by
  simp only [le16, same 1 (by omega), show b o = c p from same 0 (by omega)]

theorem le32_congr (same : ∀ i < 4, b (o + i) = c (p + i)) : le32 b o = le32 c p := by
  simp only [le32, same 1 (by omega), same 2 (by omega), same 3 (by omega),
    show b o = c p from same 0 (by omega)]

/-- A field read through a slice is the field of the underlying buffer. -/
theorem le32_slice (room : o + 4 ≤ len) : le32 (slice src pos len) o = le32 src (pos + o) := by
  apply le32_congr
  intro i bound
  rw [slice_inside (by omega), add_assoc]

theorem le16_slice (room : o + 2 ≤ len) : le16 (slice src pos len) o = le16 src (pos + o) := by
  apply le16_congr
  intro i bound
  rw [slice_inside (by omega), add_assoc]

theorem le32_encode (v : Nat) : le32 (encode v) 0 = v % 2 ^ 32 := by
  simp only [le32, encode, UInt8.toNat_ofNat']
  omega

theorem le16_encode (v : Nat) : le16 (encode v) 0 = v % 2 ^ 16 := by
  simp only [le16, encode, UInt8.toNat_ofNat']
  omega

/-- A field read from inside a copied range is the copied field. -/
theorem le32_splice_inside (low : pos ≤ o) (high : o + 4 ≤ pos + len) :
    le32 (splice dst pos src len) o = le32 src (o - pos) := by
  apply le32_congr
  intro i bound
  rw [splice_inside (by omega) (by omega)]
  congr 1
  omega

theorem le16_splice_inside (low : pos ≤ o) (high : o + 2 ≤ pos + len) :
    le16 (splice dst pos src len) o = le16 src (o - pos) := by
  apply le16_congr
  intro i bound
  rw [splice_inside (by omega) (by omega)]
  congr 1
  omega

theorem le32_splice_outside (apart : o + 4 ≤ pos ∨ pos + len ≤ o) :
    le32 (splice dst pos src len) o = le32 dst o := by
  apply le32_congr
  intro i bound
  exact splice_outside (by omega)

theorem le16_splice_outside (apart : o + 2 ≤ pos ∨ pos + len ≤ o) :
    le16 (splice dst pos src len) o = le16 dst o := by
  apply le16_congr
  intro i bound
  exact splice_outside (by omega)

@[simp] theorem le32_put32_same : le32 (put32 b o v) o = v % 2 ^ 32 := by
  rw [put32, le32_splice_inside (by omega) (by omega), Nat.sub_self, le32_encode]

@[simp] theorem le16_put16_same : le16 (put16 b o v) o = v % 2 ^ 16 := by
  rw [put16, le16_splice_inside (by omega) (by omega), Nat.sub_self, le16_encode]

theorem le32_put32_apart (apart : p + 4 ≤ o ∨ o + 4 ≤ p) : le32 (put32 b o v) p = le32 b p :=
  le32_splice_outside apart

theorem le32_put16_apart (apart : p + 4 ≤ o ∨ o + 2 ≤ p) : le32 (put16 b o v) p = le32 b p :=
  le32_splice_outside apart

theorem le16_put16_apart (apart : p + 2 ≤ o ∨ o + 2 ≤ p) : le16 (put16 b o v) p = le16 b p :=
  le16_splice_outside apart

end Bytes

end SbOS
