import SbOS.Lib.Bytes

/-! Files as byte arrays: what writing, cutting off and reading mean. Bytes past
the end are zero, so that a file that becomes longer shows zeros in between. -/
namespace SbOS
open Bytes

/-- A file, with nothing but zeros past its end. -/
@[ext] structure ByteFile where
  size : Nat
  bytes : Bytes
  beyond : ∀ p, size ≤ p → bytes p = 0

namespace ByteFile

def empty : ByteFile := ⟨0, zeros, fun _ _ => rfl⟩

/-- Overlay `len` bytes of `data` at `offset`. -/
def write (f : ByteFile) (data : Bytes) (len offset : Nat) : ByteFile where
  size := max f.size (offset + len)
  bytes := splice f.bytes offset data len
  beyond p past := by
    rw [splice_outside (by omega)]
    exact f.beyond p (by omega)

/-- Write at the end. -/
def append (f : ByteFile) (data : Bytes) (len : Nat) : ByteFile := f.write data len f.size

/-- Cut off, or fill up with zeros. -/
def resize (f : ByteFile) (len : Nat) : ByteFile where
  size := len
  bytes := slice f.bytes 0 len
  beyond _ past := slice_outside past

/-- The number of bytes that can be read at `offset`. -/
def available (f : ByteFile) (len offset : Nat) : Nat := min len (f.size - offset)

/-- The bytes read at `offset`. -/
def read (f : ByteFile) (len offset : Nat) : Bytes := slice f.bytes offset (f.available len offset)

theorem write_nothing (f : ByteFile) (inside : offset ≤ f.size) : f.write data 0 offset = f := by
  ext1
  · exact max_eq_left inside
  · exact splice_empty

theorem append_nothing (f : ByteFile) : f.append data 0 = f := f.write_nothing le_rfl

theorem append_size (f : ByteFile) : (f.append data len).size = f.size + len :=
  max_eq_right (Nat.le_add_right _ _)

end ByteFile

end SbOS
