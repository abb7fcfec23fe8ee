import SbOS.Lib.Bytes

/-! Records in a stream of bytes. Each record is preceded by its length, a little-endian
number of 32 bits, so a reader of the stream finds where the next one begins. -/
namespace SbOS.Framing
open Bytes List

def header (body : List UInt8) : List UInt8 := (List.range 4).map (encode body.length)

def frame (body : List UInt8) : List UInt8 := header body ++ body

def stream (bodies : List (List UInt8)) : List UInt8 := (bodies.map frame).flatten

theorem header_length (body : List UInt8) : (header body).length = 4 := rfl

theorem stream_cons (body : List UInt8) (bodies : List (List UInt8)) :
    stream (body :: bodies) = header body ++ (body ++ stream bodies) := by
  rfl

theorem stream_snoc (bodies : List (List UInt8)) (body : List UInt8) :
    stream (bodies ++ [body]) = stream bodies ++ (header body ++ body) := by
  rw [stream, map_append, flatten_append, map_singleton, flatten_singleton]
  rfl

/-- The number at the head of the stream is the length of the first record. -/
theorem header_value (body : List UInt8) (small : body.length < 2 ^ 32) :
    le32 ((header body).getD · 0) 0 = body.length := by
  have field : le32 ((header body).getD · 0) 0 = le32 (encode body.length) 0 := by
    apply le32_congr
    intro i bound
    have inside : i < (header body).length := bound
    simp only [zero_add, getD_eq_getElem?_getD, getElem?_eq_getElem inside,
      Option.getD_some]
    simp [header]
  rw [field, le32_encode, Nat.mod_eq_of_lt small]

theorem take_header (body : List UInt8) (bodies : List (List UInt8)) :
    (stream (body :: bodies)).take 4 = header body := by
  rw [stream_cons, ← header_length body]
  exact take_left

theorem drop_header (body : List UInt8) (bodies : List (List UInt8)) :
    (stream (body :: bodies)).drop 4 = body ++ stream bodies := by
  rw [stream_cons, ← header_length body]
  exact drop_left

/-! ### Records of one size -/

theorem length_flatten {records : List (List α)} (uniform : ∀ r ∈ records, r.length = size) :
    records.flatten.length = size * records.length := by
  rw [List.length_flatten, map_congr_left uniform, map_const', sum_replicate_nat, mul_comm]

/-- A multiple of the size cuts between two records. -/
theorem cut_flatten {records : List (List α)} (uniform : ∀ r ∈ records, r.length = size) (n : Nat) :
    records.flatten.take (size * n) = (records.take n).flatten ∧
      records.flatten.drop (size * n) = (records.drop n).flatten := by
  induction records generalizing n with
  | nil => exact ⟨by simp, by simp⟩
  | cons record rest ih =>
    cases n with
    | zero => exact ⟨rfl, rfl⟩
    | succ n =>
      have length := uniform record mem_cons_self
      obtain ⟨taken, left⟩ := ih (fun r member => uniform r (mem_cons_of_mem record member)) n
      have more : size * (n + 1) = record.length + size * n := by rw [length, Nat.mul_succ, add_comm]
      rw [flatten_cons, more, take_length_add_append, drop_length_add_append, taken,
        left]
      exact ⟨rfl, rfl⟩

end SbOS.Framing
