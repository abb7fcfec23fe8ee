import Mathlib.Tactic.Common

/-! Bitmaps kept as a list of words: the bit of an index, and what setting or
clearing the bit of one index does to the bits of all of them. -/
namespace SbOS.Bitmap
variable {w : Nat} {words : List (BitVec w)}

/-- The bit of `index`; past the end of the list every bit is off. -/
def test (words : List (BitVec w)) (index : Nat) : Bool :=
  (words.getD (index / w) 0).getLsbD (index % w)

/-- `words[index / w] |= 1 << (index % w)`. -/
def turnOn (words : List (BitVec w)) (index : Nat) : List (BitVec w) :=
  words.modify (index / w) (· ||| (1#w <<< (index % w)))

/-- `words[index / w] &= ~(1 << (index % w))`. -/
def turnOff (words : List (BitVec w)) (index : Nat) : List (BitVec w) :=
  words.modify (index / w) (· &&& ~~~(1#w <<< (index % w)))

theorem getLsbD_one_shiftLeft (bound : d < w) : (1#w <<< c).getLsbD d = decide (d = c) := by
  simp only [BitVec.getLsbD_shiftLeft, BitVec.getLsbD_one]
  by_cases same : d = c
  · subst same
    simp [bound]
    omega
  · simp [same]
    omega

theorem getD_modify (inside : i < words.length) :
    (words.modify i f).getD j 0 = if i = j then f (words.getD j 0) else words.getD j 0 := by
  by_cases same : i = j
  · subst same
    simp [inside]
  · simp [same]

@[simp] theorem length_turnOn : (turnOn words index).length = words.length := by
  simp [turnOn]

@[simp] theorem length_turnOff : (turnOff words index).length = words.length := by
  simp [turnOff]

theorem test_turnOn (wide : 0 < w) (inside : index / w < words.length) :
    test (turnOn words index) other = (test words other || decide (other = index)) := by
  unfold test turnOn
  rw [getD_modify inside]
  split
  · rename_i row
    rw [BitVec.getLsbD_or, getLsbD_one_shiftLeft (Nat.mod_lt _ wide)]
    congr 1
    rw [decide_eq_decide]
    exact ⟨Nat.ext_div_mod row.symm, fun same => by rw [same]⟩
  · rename_i apart
    have different : other ≠ index := fun same => apart (by rw [same])
    simp [different]

theorem test_turnOff (wide : 0 < w) (inside : index / w < words.length) :
    test (turnOff words index) other = (test words other && !decide (other = index)) := by
  unfold test turnOff
  rw [getD_modify inside]
  split
  · rename_i row
    have low := Nat.mod_lt other wide
    rw [BitVec.getLsbD_and, BitVec.getLsbD_not, getLsbD_one_shiftLeft low, decide_eq_true low,
      Bool.true_and]
    congr 2
    rw [decide_eq_decide]
    exact ⟨Nat.ext_div_mod row.symm, fun same => by rw [same]⟩
  · rename_i apart
    have different : other ≠ index := fun same => apart (by rw [same])
    simp [different]

theorem test_outside (outside : words.length ≤ index / w) : test words index = false := by
  unfold test
  rw [List.getD_eq_getElem?_getD, List.getElem?_eq_none outside]
  simp

theorem test_getElem? (inside : words[index / w]? = some word) :
    test words index = word.getLsbD (index % w) := by
  unfold test
  rw [List.getD_eq_getElem?_getD, inside]
  rfl

end SbOS.Bitmap
