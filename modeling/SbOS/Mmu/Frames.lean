import SbOS.Lib.Bitmap
import SbOS.Lib.Counting
import SbOS.Mmu.Paging

/-! The bitmap of physical frames (`get_free_frames` and `write_to_frame` of
`kernel/arch/i386/mmu.c`): one bit for each frame, 32 to a word, set while the
frame is in use. -/
namespace SbOS.Mmu

/-- `tmp_small_frames`, which has `num_array_frames` words, and the two counters
kept beside it. -/
structure Frames where
  words : List (BitVec 32)
  startFrameSearch : Nat := 1
  numAllocatedFrames : Nat := 0
deriving DecidableEq, Repr

namespace Frames

/-- The bit of a frame. -/
def used (f : Frames) (frame : Nat) : Bool := Bitmap.test f.words frame

/-- The frame has a bit in the bitmap. -/
abbrev Tracked (f : Frames) (frame : Nat) : Prop := frame / 32 < f.words.length

/-- The inner loop of `get_free_frames`, over the last `left` bits of word `i`:
the frame it returns, or else the counter with which the outer loop goes on, and
the start of the next search. -/
def searchBits (word : BitVec 32) (i numFrames : Nat) :
    (left counter start : Nat) → (Option Nat × Nat) × Nat
  | 0, counter, start => ((none, counter), start)
  | left + 1, counter, start =>
    let c := 32 - (left + 1)
    if word.getLsbD c then searchBits word i numFrames left numFrames start
    else
      let start := min start i
      let counter := uintptr (counter + 2 ^ 32 - 1)
      if counter = 0 then
        ((some (uintptr (i * 32 + c + 2 ^ 32 - uintptr (numFrames + 2 ^ 32 - 1))), 0), start)
      else searchBits word i numFrames left counter start

/-- The outer loop. A full word is passed over with the counter as it is. -/
def searchWords (numFrames : Nat) :
    (rest : List (BitVec 32)) → (i counter start : Nat) → Option Nat × Nat
  | [], _, _, start => (none, start)
  | word :: rest, i, counter, start =>
    if word = 0xFFFFFFFF#32 then searchWords numFrames rest (i + 1) counter start
    else
      match searchBits word i numFrames 32 counter start with
      | ((some frame, _), start) => (some frame, start)
      | ((none, counter), start) => searchWords numFrames rest (i + 1) counter start

/-- `get_free_frames(&frame, num_frames)`. -/
def getFreeFrames (f : Frames) (numFrames : Nat) : Option Nat × Frames :=
  let (found, start) := searchWords numFrames (f.words.drop f.startFrameSearch)
    f.startFrameSearch numFrames f.startFrameSearch
  (found, { f with startFrameSearch := start })

/-- `write_to_frame(frame_address, on)`. -/
def writeToFrame (f : Frames) (frameAddress : Nat) (on : Bool) : Bool × Frames :=
  let frame := frameAddress / 0x1000
  if f.words.length ≤ frame / 32 then (false, f)
  else if on then
    if f.used frame then (false, f)
    else
      (true, { f with
        numAllocatedFrames := uintptr (f.numAllocatedFrames + 1)
        words := Bitmap.turnOn f.words frame })
  else
    (true, { f with
      numAllocatedFrames := uintptr (f.numAllocatedFrames + 2 ^ 32 - 1)
      startFrameSearch := min f.startFrameSearch (frame / 32)
      words := Bitmap.turnOff f.words frame })

/-- How many frames a search can find. -/
def free (f : Frames) : Nat :=
  countBelow (32 * f.words.length) fun frame =>
    decide (f.startFrameSearch ≤ frame / 32) && !f.used frame

/-! ## One frame

The kernel asks for single frames only; then the counter never gets past its
first step and the search finds the first unused frame from its start on. -/

theorem searchBits_one (start_le : start ≤ i) (within : left ≤ 32) :
    (∃ c < 32, word.getLsbD c = false ∧
      searchBits word i 1 left 1 start = ((some (uintptr (i * 32 + c)), 0), start)) ∨
    ((∀ c, 32 - left ≤ c → c < 32 → word.getLsbD c = true) ∧
      searchBits word i 1 left 1 start = ((none, 1), start)) := by
  induction left with
  | zero => exact .inr ⟨fun c low high => by omega, rfl⟩
  | succ left ih =>
    unfold searchBits
    by_cases bit : word.getLsbD (32 - (left + 1)) = true
    · simp only [bit, if_true]
      rcases ih (by omega) with found | ⟨full, same⟩
      · exact .inl found
      · refine .inr ⟨fun c low high => ?_, same⟩
        by_cases here : c = 32 - (left + 1)
        · rw [here]
          exact bit
        · exact full c (by omega) high
    · refine .inl ⟨32 - (left + 1), by omega, by simpa using bit, ?_⟩
      have last : uintptr (1 + 2 ^ 32 - 1) = 0 := by decide
      have place : uintptr (i * 32 + (32 - (left + 1)) + 2 ^ 32 - 0) =
          uintptr (i * 32 + (32 - (left + 1))) := by
        unfold uintptr
        omega
      simp only [bit, Bool.false_eq_true, if_false, last, if_true, min_eq_left start_le, place]

theorem searchWords_one (rest : List (BitVec 32)) (start_le : start ≤ i) :
    (∃ j c word, rest[j]? = some word ∧ c < 32 ∧ word.getLsbD c = false ∧
      searchWords 1 rest i 1 start = (some (uintptr ((i + j) * 32 + c)), start)) ∨
    ((∀ word ∈ rest, word = 0xFFFFFFFF#32) ∧ searchWords 1 rest i 1 start = (none, start)) := by
  induction rest generalizing i with
  | nil => exact .inr ⟨by simp, rfl⟩
  | cons word rest ih =>
    unfold searchWords
    by_cases full : word = 0xFFFFFFFF#32
    · rw [if_pos full]
      rcases ih (Nat.le_succ_of_le start_le) with ⟨j, c, other, at_j, bound, clear, same⟩ | ⟨all, same⟩
      · refine .inl ⟨j + 1, c, other, by simpa using at_j, bound, clear, ?_⟩
        rw [same]
        congr 4
        omega
      · exact .inr ⟨by simpa [full] using all, same⟩
    · rw [if_neg full]
      rcases searchBits_one start_le le_rfl with
        ⟨c, bound, clear, same⟩ | ⟨all, _⟩
      · exact .inl ⟨0, c, word, rfl, bound, clear, by rw [same]; rfl⟩
      · refine absurd (BitVec.eq_of_getLsbD_eq fun c bound => ?_) full
        rw [all c (by omega) bound]
        exact (show ∀ c < 32, (0xFFFFFFFF#32).getLsbD c = true by decide) c bound |>.symm

variable {f f' : Frames} {frame : Nat}

/-- A request for one frame names an unused frame and changes nothing, or there
is none to be found. -/
theorem getFreeFrames_one (small : f.words.length ≤ 2 ^ 15) :
    (∃ frame, f.getFreeFrames 1 = (some frame, f) ∧ f.Tracked frame ∧ f.used frame = false ∧
      f.startFrameSearch ≤ frame / 32) ∨
    (f.getFreeFrames 1 = (none, f) ∧ f.free = 0) := by
  unfold getFreeFrames
  rcases searchWords_one (f.words.drop f.startFrameSearch) le_rfl
    with ⟨j, c, word, at_j, bound, clear, same⟩ | ⟨all, same⟩
  · rw [List.getElem?_drop] at at_j
    have inside := (List.getElem?_eq_some_iff.mp at_j).1
    have plain : uintptr ((f.startFrameSearch + j) * 32 + c) =
        (f.startFrameSearch + j) * 32 + c := by
      unfold uintptr
      omega
    have row : ((f.startFrameSearch + j) * 32 + c) / 32 = f.startFrameSearch + j := by omega
    have column : ((f.startFrameSearch + j) * 32 + c) % 32 = c := by omega
    rw [same, plain]
    refine .inl ⟨_, rfl, ?_, ?_, by omega⟩
    · unfold Tracked
      rw [row]
      exact inside
    · unfold used
      rw [Bitmap.test_getElem? (by rw [row]; exact at_j), column]
      exact clear
  · rw [same]
    refine .inr ⟨rfl, ?_⟩
    refine List.countP_eq_zero.mpr fun frame member => ?_
    have below := List.mem_range.mp member
    by_cases reached : f.startFrameSearch ≤ frame / 32
    · have at_row : f.words[frame / 32]? = some f.words[frame / 32] := List.getElem?_eq_getElem _
      have full := all _ (List.mem_drop_iff_getElem.mpr
        ⟨frame / 32 - f.startFrameSearch, by omega, rfl⟩)
      have index : f.startFrameSearch + (frame / 32 - f.startFrameSearch) = frame / 32 := by omega
      simp only [index] at full
      have bit := (show ∀ c < 32, (0xFFFFFFFF#32).getLsbD c = true by decide) (frame % 32)
        (Nat.mod_lt _ (by decide))
      have set : f.used frame = true := by
        unfold used
        rw [Bitmap.test_getElem? at_row, full]
        exact bit
      simp [set]
    · simp [reached]

/-- Claiming an unused frame sets its bit and no other. -/
theorem writeToFrame_on (tracked : f.Tracked frame) (clear : f.used frame = false) :
    ∃ f', f.writeToFrame (frame * 0x1000) true = (true, f') ∧
      f'.words.length = f.words.length ∧ f'.startFrameSearch = f.startFrameSearch ∧
      ∀ other, f'.used other = (f.used other || decide (other = frame)) := by
  unfold writeToFrame
  rw [Nat.mul_div_cancel _ (by decide), if_neg (not_le.mpr tracked), if_pos rfl, clear]
  exact ⟨_, rfl, Bitmap.length_turnOn, rfl, fun other => Bitmap.test_turnOn (by decide) tracked⟩

/-- Claiming a frame that is in use or has no bit does nothing. -/
theorem writeToFrame_on_held (held : f.Tracked (address / 0x1000) →
    f.used (address / 0x1000) = true) : f.writeToFrame address true = (false, f) := by
  unfold writeToFrame
  by_cases tracked : f.Tracked (address / 0x1000)
  · rw [if_neg (not_le.mpr tracked), if_pos rfl, if_pos (held tracked)]
  · rw [if_pos (not_lt.mp tracked)]

/-- Releasing a frame changes no other bit. -/
theorem writeToFrame_off (f : Frames) (frame : Nat) :
    (f.writeToFrame (frame * 0x1000) false).2.words.length = f.words.length ∧
    ∀ other, other ≠ frame →
      (f.writeToFrame (frame * 0x1000) false).2.used other = f.used other := by
  unfold writeToFrame
  rw [Nat.mul_div_cancel _ (by decide)]
  by_cases tracked : f.Tracked frame
  · rw [if_neg (not_le.mpr tracked), if_neg Bool.false_ne_true]
    refine ⟨Bitmap.length_turnOff, fun other apart => ?_⟩
    refine (Bitmap.test_turnOff (by decide) tracked).trans ?_
    simp [apart, used]
  · rw [if_pos (not_lt.mp tracked)]
    exact ⟨rfl, fun _ _ => rfl⟩

/-- `after` is the bitmap with one more frame in use, one the search could find. -/
structure Claims (before after : Frames) (frame : Nat) : Prop where
  tracked : before.Tracked frame
  clear : before.used frame = false
  length : after.words.length = before.words.length
  bits : ∀ other, after.used other = (before.used other || decide (other = frame))
  free : before.free = after.free + 1

theorem Claims.grows (claims : Claims f f' frame) (used : f.used other = true) :
    f'.used other = true := by
  rw [claims.bits, used]
  rfl

theorem Claims.own (claims : Claims f f' frame) : f'.used frame = true := by
  simp [claims.bits]

/-- A request for one frame can be followed by claiming what it names, unless
there is no frame to be found. -/
theorem claim_one (small : f.words.length ≤ 2 ^ 15) :
    (∃ frame f', f.getFreeFrames 1 = (some frame, f) ∧
      f.writeToFrame (frame * 0x1000) true = (true, f') ∧ frame < 2 ^ 20 ∧ Claims f f' frame) ∨
    (f.getFreeFrames 1 = (none, f) ∧ f.free = 0) := by
  rcases getFreeFrames_one small with ⟨frame, found, tracked, clear, reached⟩ | nothing
  · obtain ⟨f', wrote, length, start, bits⟩ := writeToFrame_on tracked clear
    refine .inl ⟨frame, f', found, wrote, by unfold Tracked at tracked; omega,
      tracked, clear, length, bits, ?_⟩
    unfold free
    rw [length, start]
    refine countBelow_flip (show frame < _ by unfold Tracked at tracked; omega) ?_ ?_
      fun other _ apart => ?_
    · simp [bits]
    · simp [reached, clear]
    · simp [bits, apart]
  · exact .inr nothing

end Frames
end SbOS.Mmu
