import Mathlib.Tactic.Common

/-! Queues of bounded capacity: elements leave in the order in which they came,
and what finds no room does not enter. -/
namespace SbOS

/-- A queue that never holds more than `capacity` elements. -/
@[ext] structure Fifo (α : Type) (capacity : Nat) where
  items : List α
  bounded : items.length ≤ capacity

namespace Fifo
variable {α : Type} {capacity : Nat}

def empty : Fifo α capacity := ⟨[], Nat.zero_le capacity⟩

def used (q : Fifo α capacity) : Nat := q.items.length

def free (q : Fifo α capacity) : Nat := capacity - q.items.length

/-- Append what finds room. -/
def put (q : Fifo α capacity) (new : List α) : Fifo α capacity where
  items := q.items ++ new.take q.free
  bounded := by
    have := q.bounded
    simp only [List.length_append, List.length_take, free]
    omega

/-- Take the first `n` elements, or all there are. -/
def get (q : Fifo α capacity) (n : Nat) : List α × Fifo α capacity :=
  (q.items.take n, ⟨q.items.drop n, by
    have := q.bounded
    rw [List.length_drop]
    omega⟩)

end Fifo

end SbOS
