import Mathlib.Data.Set.Card
import Mathlib.Logic.Function.Basic

/-! Reference counting. Holders refer to objects, each object has a count while it
is there, and the counts are exact when every count is the number of holders and
no object stays with a count of zero. One rule for each thing that can happen to a
reference keeps the counts exact. -/
namespace SbOS
open Function

variable {ι ο : Type}

/-- The holders that refer to an object. -/
def holders (refers : ι → Option ο) (o : ο) : Set ι := {i | refers i = some o}

/-- Every count is the number of holders. -/
structure Counted (count : ο → Option Nat) (refers : ι → Option ο) : Prop where
  finite : {i | refers i ≠ none}.Finite
  exact : ∀ o, (count o).getD 0 = (holders refers o).ncard
  positive : ∀ o, count o ≠ some 0

variable {count : ο → Option Nat} {refers : ι → Option ο}

theorem Counted.empty : Counted (fun _ : ο => none) (fun _ : ι => none) where
  finite := by simp
  exact o := by simp [holders]
  positive o := by simp

section
variable (counted : Counted count refers)
include counted

theorem Counted.holders_finite (o : ο) : (holders refers o).Finite := by
  refine counted.finite.subset fun i held => ?_
  have refersTo : refers i = some o := held
  simp [refersTo]

/-- What is referred to is there, with a count. -/
theorem Counted.live (held : refers i = some o) : ∃ n, count o = some (n + 1) := by
  have some : 0 < (holders refers o).ncard :=
    (Set.ncard_pos (counted.holders_finite o)).mpr ⟨i, held⟩
  rw [← counted.exact o] at some
  cases found : count o with
  | none => rw [found] at some; exact absurd some (by simp)
  | some n =>
    cases n with
    | zero => exact absurd found (counted.positive o)
    | succ n => exact ⟨n, rfl⟩

/-- The same counts cannot be exact for more references than these. -/
theorem Counted.eq_of_le (counted' : Counted count refers')
    (fewer : ∀ i o, refers' i = some o → refers i = some o) : refers' = refers := by
  funext i
  cases held : refers i with
  | none =>
    by_contra other
    obtain ⟨o, held'⟩ := Option.ne_none_iff_exists'.mp other
    rw [fewer i o held'] at held
    cases held
  | some o =>
    have same : holders refers' o = holders refers o :=
      Set.eq_of_subset_of_ncard_le (fun j => fewer j o)
        (by rw [← counted.exact o, ← counted'.exact o]) (counted.holders_finite o)
    exact same.symm.subset held

end

variable [DecidableEq ι]

theorem holders_update_self (free : refers i = none) :
    holders (update refers i (some o)) o = insert i (holders refers o) := by
  ext j
  by_cases same : j = i
  · subst same
    simp [holders]
  · simp [holders, same]

theorem holders_update_other (apart : ∀ o, refers i = some o → o ≠ other)
    (apart' : ∀ o, value = some o → o ≠ other) :
    holders (update refers i value) other = holders refers other := by
  ext j
  by_cases same : j = i
  · subst same
    simp only [holders, update_self, Set.mem_ofPred_eq]
    exact iff_of_false (fun now => apart' other now rfl) (fun old => apart other old rfl)
  · simp [holders, same]

theorem holders_clear :
    holders (update refers i none) o = holders refers o \ {i} := by
  ext j
  by_cases same : j = i
  · subst same
    simp [holders]
  · simp [holders, same]

variable [DecidableEq ο]

section
variable (counted : Counted count refers)
include counted

/-- A holder that referred to nothing takes a reference. -/
theorem Counted.take (free : refers i = none) :
    Counted (update count o (some ((count o).getD 0 + 1)))
      (update refers i (some o)) where
  finite := by
    refine (counted.finite.insert i).subset fun j held => ?_
    by_cases same : j = i
    · exact .inl same
    · refine .inr ?_
      simpa [same] using held
  exact other := by
    by_cases same : other = o
    · subst same
      have fresh : i ∉ holders refers other := by simp [holders, free]
      rw [update_self, holders_update_self free,
        Set.ncard_insert_of_notMem fresh (counted.holders_finite other), ← counted.exact other]
      rfl
    · rw [update_of_ne same, counted.exact other, holders_update_other]
      · simp [free]
      · rintro _ ⟨⟩ rfl
        exact same rfl
  positive other := by
    by_cases same : other = o
    · subst same
      simp
    · rw [update_of_ne same]
      exact counted.positive other

/-- A holder lets go. The object goes with its last reference. -/
theorem Counted.drop (held : refers i = some o) (there : count o = some (n + 1)) :
    Counted (update count o (if n = 0 then none else some n))
      (update refers i none) where
  finite := by
    refine counted.finite.subset fun j left => ?_
    by_cases same : j = i
    · subst same
      simp at left
    · simpa [same] using left
  exact other := by
    by_cases same : other = o
    · subst same
      have member : i ∈ holders refers other := held
      have before := counted.exact other
      rw [there] at before
      rw [update_self, holders_clear, Set.ncard_sdiff_singleton_of_mem member, ← before]
      by_cases last : n = 0
      · simp [last]
      · simp [last]
    · rw [update_of_ne same, counted.exact other, holders_update_other]
      · intro old refersTo
        rw [held] at refersTo
        cases refersTo
        exact fun eq => same eq.symm
      · simp
  positive other := by
    by_cases same : other = o
    · subst same
      split
      · simp
      · rename_i notLast
        simpa using notLast
    · rw [update_of_ne same]
      exact counted.positive other

/-- A reference can be counted only for a holder that had none. -/
theorem Counted.free_of_take (there : count o = some n)
    (taken : Counted (update count o (some (n + 1)))
      (update refers i (some o))) : refers i = none := by
  by_contra busy
  obtain ⟨old, held⟩ := Option.ne_none_iff_exists'.mp busy
  by_cases same : old = o
  · subst same
    rw [← held, update_eq_self] at taken
    have before := counted.exact old
    have after := taken.exact old
    rw [there] at before
    rw [update_self, ← before] at after
    simp at after
  · have before := counted.exact old
    have after := taken.exact old
    have lost : holders (update refers i (some o)) old = holders refers old \ {i} := by
      ext j
      by_cases here : j = i
      · subst here
        simp [holders, Ne.symm same]
      · simp [holders, here]
    have member : i ∈ holders refers old := held
    have positive : 0 < (holders refers old).ncard :=
      (Set.ncard_pos (counted.holders_finite old)).mpr ⟨i, member⟩
    rw [update_of_ne same, before, lost, Set.ncard_sdiff_singleton_of_mem member] at after
    omega

end

end SbOS
