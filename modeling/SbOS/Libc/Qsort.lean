import SbOS.Kernel.Stop
import Mathlib.Logic.Equiv.Basic

/-! `qsort` of the user library. For every place but the first, the element there is compared
with all others in turn, and exchanged with each that is larger. -/
namespace SbOS.Libc.Qsort
open Kernel Equiv Function

variable {α : Type} (compar : α → α → Int) (nel : Nat)

/-- The body of both loops, on memory that begins with the array. -/
def exchange (i j : Nat) (p : Nat → α) : Except Stop (Nat → α) :=
  if i < nel ∧ j < nel then
    .ok (if compar (p i) (p j) < 0 then
      let tmp := p i
      update (update p i (p j)) j tmp
    else p)
  else .error .overrun

/-- The inner loop up to `j`. -/
def innerLoop (i : Nat) : (j : Nat) → (Nat → α) → Except Stop (Nat → α)
  | 0, p => .ok p
  | j + 1, p => innerLoop i j p >>= exchange compar nel i j

/-- The outer loop up to `i`, which begins at 1. -/
def outerLoop : (i : Nat) → (Nat → α) → Except Stop (Nat → α)
  | 0, p => .ok p
  | i + 1, p => outerLoop i p >>= innerLoop compar nel (i + 1) nel

def qsort (p : Nat → α) : Except Stop (Nat → α) := outerLoop compar nel (nel - 1) p

structure TotalPreorder : Prop where
  flip : ∀ x y, compar x y < 0 ↔ 0 < compar y x
  trans : ∀ x y z, compar x y ≤ 0 → compar y z ≤ 0 → compar x z ≤ 0

def Sorted (n : Nat) (p : Nat → α) : Prop := ∀ k l, k ≤ l → l < n → compar (p k) (p l) ≤ 0

/-- The elements of the array have changed places, and nothing else. -/
def Permuted (p p' : Nat → α) : Prop :=
  ∃ σ : Perm Nat, (∀ k, nel ≤ k → σ k = k) ∧ p' = p ∘ σ

variable {compar nel}

theorem Permuted.refl (p : Nat → α) : Permuted nel p p := ⟨.refl _, fun _ _ => rfl, rfl⟩

theorem Permuted.trans (first : Permuted nel p p') (second : Permuted nel p' p'') :
    Permuted nel p p'' := by
  obtain ⟨σ, outside, rfl⟩ := first
  obtain ⟨τ, outside', rfl⟩ := second
  refine ⟨τ.trans σ, fun k past => ?_, rfl⟩
  rw [trans_apply, outside' k past, outside k past]

section
variable (order : TotalPreorder compar)
include order

theorem TotalPreorder.self (x : α) : compar x x ≤ 0 :=
  Int.not_lt.mp fun above => by have := (order.flip x x).mpr above; omega

theorem TotalPreorder.le_of_not_lt (larger : ¬ compar x y < 0) : compar y x ≤ 0 :=
  Int.not_lt.mp fun above => larger ((order.flip x y).mpr above)

/-- Up to `j` the inner loop has kept the places before `i` in order, and those it has passed
are not above the element at `i`. -/
theorem innerLoop_ok (inside : i < nel) (sorted : Sorted compar i p) (most : j ≤ nel) :
    ∃ p', innerLoop compar nel i j p = .ok p' ∧ Permuted nel p p' ∧ Sorted compar i p' ∧
      ∀ k < i, k < j → compar (p' k) (p' i) ≤ 0 := by
  induction j with
  | zero => exact ⟨p, rfl, .refl p, sorted, nofun⟩
  | succ j ih =>
    obtain ⟨p', ran, permuted, sorted', passed⟩ := ih (by omega)
    rw [innerLoop, ran, ok_then, exchange, if_pos ⟨inside, most⟩]
    by_cases larger : compar (p' i) (p' j) < 0
    · have rise := Int.le_of_lt larger
      have here : (p' ∘ swap j i) i = p' j := congrArg p' (swap_apply_right j i)
      have before : ∀ k < i, (p' ∘ swap j i) k = if k = j then p' i else p' k := by
        intro k low
        split
        · next same => exact congrArg p' (same ▸ swap_apply_left k i)
        · next other => exact congrArg p' (swap_apply_of_ne_of_ne other (Nat.ne_of_lt low))
      rw [if_pos larger, ← comp_swap_eq_update]
      have swapped : Permuted nel p' (p' ∘ swap j i) :=
        ⟨swap j i, fun k past => swap_apply_of_ne_of_ne (by omega) (by omega), rfl⟩
      refine ⟨_, rfl, permuted.trans swapped, fun k l le low => ?_, fun k low passes => ?_⟩
      · rw [before k (by omega), before l low]
        split
        · next same =>
          subst same
          split
          · exact order.self _
          · exact order.trans _ _ _ rise (sorted' k l le low)
        · split
          · exact passed k (by omega) (by omega)
          · exact sorted' k l le low
      · rw [here, before k low]
        split
        · exact rise
        · exact order.trans _ _ _ (passed k low (by omega)) rise
    · rw [if_neg larger]
      refine ⟨p', rfl, permuted, sorted', fun k low passes => ?_⟩
      by_cases last : k = j
      · exact last ▸ order.le_of_not_lt larger
      · exact passed k low (by omega)

theorem outerLoop_ok (p : Nat → α) (inside : i < nel) :
    ∃ p', outerLoop compar nel i p = .ok p' ∧ Permuted nel p p' ∧ Sorted compar (i + 1) p' := by
  induction i with
  | zero =>
    refine ⟨p, rfl, .refl p, fun k l le low => ?_⟩
    obtain rfl : k = l := by omega
    exact order.self _
  | succ i ih =>
    obtain ⟨p₁, ran, permuted, sorted⟩ := ih (by omega)
    obtain ⟨p', ran', permuted', sorted', passed⟩ :=
      innerLoop_ok order inside sorted (Nat.le_refl nel)
    rw [outerLoop, ran, ok_then]
    refine ⟨p', ran', permuted.trans permuted', fun k l le low => ?_⟩
    by_cases last : l = i + 1
    · subst last
      rcases Nat.eq_or_lt_of_le le with rfl | less
      · exact order.self _
      · exact passed k less (by omega)
    · exact sorted' k l le (by omega)

/-- For every comparison that orders the elements, all accesses lie inside the array and leave
its elements in order. -/
theorem qsort_sorts (p : Nat → α) :
    ∃ p', qsort compar nel p = .ok p' ∧ Permuted nel p p' ∧ Sorted compar nel p' := by
  rcases Nat.eq_zero_or_pos nel with rfl | some
  · exact ⟨p, rfl, .refl p, nofun⟩
  · have sorted := outerLoop_ok order p (Nat.sub_one_lt_of_lt some)
    rwa [Nat.sub_add_cancel some] at sorted

end

theorem qsort_sorts_two : ∃ p', qsort (fun x y : Int => x - y) 2 (fun k => -k) = .ok p' ∧
    Permuted 2 (fun k : Nat => -(k : Int)) p' ∧ Sorted (fun x y : Int => x - y) 2 p' :=
  qsort_sorts ⟨fun x y => by omega, fun x y z => by omega⟩ _

end SbOS.Libc.Qsort
