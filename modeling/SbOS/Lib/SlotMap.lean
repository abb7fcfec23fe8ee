import Mathlib.Algebra.Ring.Nat
import Mathlib.Data.Nat.Find
import Mathlib.Logic.Function.Basic

/-! Finite maps from slot numbers to values in which a new value goes to the least
unused slot; the range of slots grows in steps when every slot is taken. -/
namespace SbOS

/-- Values in some of the first `capacity` slots. -/
@[ext] structure SlotMap (α : Type) where
  capacity : Nat
  map : Nat → Option α
  inside : ∀ i, capacity ≤ i → map i = none

namespace SlotMap
variable {α : Type} {m : SlotMap α} {i : Nat}

def empty (capacity : Nat) : SlotMap α := ⟨capacity, fun _ => none, fun _ _ => rfl⟩

theorem exists_unused (m : SlotMap α) : ∃ i, (m.map i).isNone :=
  ⟨m.capacity, by rw [m.inside _ le_rfl]; rfl⟩

/-- The least unused slot; it is the first past the end when all are taken. -/
def least (m : SlotMap α) : Nat := Nat.find m.exists_unused

theorem least_unused (m : SlotMap α) : m.map m.least = none :=
  Option.isNone_iff_eq_none.mp (Nat.find_spec m.exists_unused)

theorem least_le : m.least ≤ m.capacity :=
  Nat.find_min' _ (by rw [m.inside _ le_rfl]; rfl)

theorem least_eq (unused : m.map i = none) (used : ∀ j < i, m.map j ≠ none) : m.least = i := by
  refine (Nat.find_eq_iff _).mpr ⟨by rw [unused]; rfl, fun j below absent => ?_⟩
  exact used j below (Option.isNone_iff_eq_none.mp absent)

/-- Store a value in the least unused slot, after adding `step` slots if there is none. -/
def add (step : Nat) [positive : NeZero step] (m : SlotMap α) (value : α) : SlotMap α where
  capacity := if m.least < m.capacity then m.capacity else m.capacity + step
  map := Function.update m.map m.least (some value)
  inside := by
    have bound := m.least_le
    have some_room := Nat.pos_of_ne_zero positive.out
    intro i past
    rw [Function.update_of_ne (by split at past <;> omega)]
    exact m.inside i (by split at past <;> omega)

theorem map_add [NeZero step] :
    (m.add step value).map = Function.update m.map m.least (some value) := rfl

/-- Store a value in a slot of the range. -/
def set (m : SlotMap α) (index : Nat) (value : α) : SlotMap α where
  capacity := m.capacity
  map := if index < m.capacity then Function.update m.map index (some value) else m.map
  inside := by
    intro i past
    split
    · rw [Function.update_of_ne (by omega)]
      exact m.inside i past
    · exact m.inside i past

def remove (m : SlotMap α) (index : Nat) : SlotMap α where
  capacity := m.capacity
  map := Function.update m.map index none
  inside := by
    intro i past
    by_cases same : i = index
    · rw [same, Function.update_self]
    · rw [Function.update_of_ne same]
      exact m.inside i past

end SlotMap

end SbOS
