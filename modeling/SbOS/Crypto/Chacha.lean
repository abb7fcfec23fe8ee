import SbOS.Lib.Bytes

/-! The ChaCha20 block function (`crypto/ChaCha20/chacha20.c`). -/
namespace SbOS.Crypto
open Bytes

/-- The sixteen words that go in and come out. -/
abbrev Block := Vector UInt32 16

namespace Block

/-- `ROTL` -/
def rotl (a b : UInt32) : UInt32 := (a <<< b) ||| (a >>> (32 - b))

/-- `QR` -/
def quarterRound (x : Block) (a b c d : Fin 16) : Block :=
  let x := x.set a (x[a] + x[b])
  let x := x.set d (x[d] ^^^ x[a])
  let x := x.set d (rotl x[d] 16)
  let x := x.set c (x[c] + x[d])
  let x := x.set b (x[b] ^^^ x[c])
  let x := x.set b (rotl x[b] 12)
  let x := x.set a (x[a] + x[b])
  let x := x.set d (x[d] ^^^ x[a])
  let x := x.set d (rotl x[d] 8)
  let x := x.set c (x[c] + x[d])
  let x := x.set b (x[b] ^^^ x[c])
  x.set b (rotl x[b] 7)

def doubleRound (x : Block) : Block :=
  let x := x.quarterRound 0 4 8 12
  let x := x.quarterRound 1 5 9 13
  let x := x.quarterRound 2 6 10 14
  let x := x.quarterRound 3 7 11 15
  let x := x.quarterRound 0 5 10 15
  let x := x.quarterRound 1 6 11 12
  let x := x.quarterRound 2 7 8 13
  x.quarterRound 3 4 9 14

/-- `chacha_block` with its twenty rounds. -/
def chachaBlock (input : Block) : Block :=
  Vector.zipWith (· + ·) (Nat.repeat doubleRound 10 input) input

/-- The words as the bytes in memory. -/
def bytes (block : Block) : Bytes := fun i => encode (block[i / 4]?.getD 0).toNat (i % 4)

/-- `memcpy` of bytes over `count` words from `pos` on. -/
def store (block : Block) (pos count : Nat) (data : Bytes) : Block :=
  .ofFn fun i =>
    if pos ≤ i ∧ i < pos + count then UInt32.ofNat (le32 data (4 * (i - pos))) else block[i]

/-- The word at `COUNT`. -/
def count (block : Block) : UInt32 := block[12]

def setCount (block : Block) (value : UInt32) : Block := block.set 12 value

@[simp] theorem count_setCount (block : Block) (value : UInt32) :
    (block.setCount value).count = value :=
  Vector.getElem_set_self ..

/-- The counter lies behind the eight words of the key. -/
theorem count_store (block : Block) (key : Bytes) : (block.store 4 8 key).count = block.count := by
  unfold store count
  rw [Vector.getElem_ofFn]
  exact if_neg (by decide)

end Block

end SbOS.Crypto
