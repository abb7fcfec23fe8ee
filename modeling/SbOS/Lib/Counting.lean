import Mathlib.Data.List.Nodup
import Mathlib.Algebra.BigOperators.Group.Finset.Basic
import Mathlib.Algebra.Order.BigOperators.Group.Finset

/-! Counting the entries of a finite table that satisfy a test, and how the
count moves when single entries change. -/
namespace SbOS
open List

/-- How many numbers below `n` satisfy `p`. -/
def countBelow (n : Nat) (p : Nat → Bool) : Nat := (List.range n).countP p

theorem countBelow_congr (same : ∀ i < n, p i = q i) : countBelow n p = countBelow n q :=
  countP_congr fun i member => by rw [same i (mem_range.mp member)]

theorem countBelow_le (n : Nat) (p : Nat → Bool) : countBelow n p ≤ n := by
  simpa [countBelow] using countP_le_length (p := p) (l := range n)

theorem countBelow_eq_length (n : Nat) (p : Nat → Bool) :
    countBelow n p = ((range n).filter p).length := countP_eq_length_filter

theorem countP_flip {l : List Nat} (nodup : l.Nodup) (member : x ∈ l) (old : p x = false)
    (new : q x = true) (same : ∀ i ∈ l, i ≠ x → p i = q i) : l.countP q = l.countP p + 1 := by
  have split := perm_cons_erase member
  rw [split.countP_eq q, split.countP_eq p, countP_cons_of_pos new,
    countP_cons_of_neg (by simp [old])]
  refine congrArg (· + 1) (countP_congr fun i inside => ?_)
  obtain ⟨other, kept⟩ := nodup.mem_erase_iff.mp inside
  rw [same i kept other]

/-- Turning one entry on raises the count by one. -/
theorem countBelow_flip (bound : x < n) (old : p x = false) (new : q x = true)
    (same : ∀ i < n, i ≠ x → p i = q i) : countBelow n q = countBelow n p + 1 :=
  countP_flip nodup_range (mem_range.mpr bound) old new
    fun i member => same i (mem_range.mp member)

/-- The entries left after the first `k` matching ones have been taken out. -/
theorem filter_take_removed {l : List Nat} (nodup : l.Nodup) (k : Nat) :
    l.filter (fun i => p i && !decide (i ∈ (l.filter p).take k)) = (l.filter p).drop k := by
  have apart := disjoint_take_drop (nodup.filter p) (Nat.le_refl k)
  calc l.filter (fun i => p i && !decide (i ∈ (l.filter p).take k))
      = (l.filter p).filter fun i => !decide (i ∈ (l.filter p).take k) := by
        rw [filter_filter]
        exact filter_congr fun i _ => Bool.and_comm ..
    _ = ((l.filter p).take k ++ (l.filter p).drop k).filter
          fun i => !decide (i ∈ (l.filter p).take k) := by rw [take_append_drop]
    _ = (l.filter p).drop k := by
        rw [filter_append, filter_eq_nil_iff.mpr (by simp), nil_append, filter_eq_self.mpr]
        intro i member
        simpa using fun taken => apart taken member

/-- A sum over groups after the value of one group has changed. -/
theorem sum_range_update {f h : Nat → Nat} {x n : Nat} (bound : x < n)
    (same : ∀ i < n, i ≠ x → h i = f i) :
    (∑ i ∈ Finset.range n, h i) + f x = (∑ i ∈ Finset.range n, f i) + h x := by
  have member : x ∈ Finset.range n := Finset.mem_range.mpr bound
  rw [← Finset.add_sum_erase _ _ member, ← Finset.add_sum_erase _ f member]
  have rest : ∑ i ∈ (Finset.range n).erase x, h i = ∑ i ∈ (Finset.range n).erase x, f i := by
    apply Finset.sum_congr rfl
    intro i inside
    obtain ⟨other, below⟩ := Finset.mem_erase.mp inside
    exact same i (Finset.mem_range.mp below) other
  omega

end SbOS
