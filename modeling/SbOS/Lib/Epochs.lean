import Mathlib.Data.List.Basic

/-! Histories of uses that are cut into epochs. A value is used at most once in each epoch when
every use is fresh: it does not occur between the last cut and now. Histories grow at their
head. -/
namespace SbOS

inductive Use (α : Type) where
  | use (value : α)
  | cut

namespace Use

/-- The values used since the last cut. -/
def epoch : List (Use α) → List α
  | .use value :: past => value :: epoch past
  | .cut :: _ => []
  | [] => []

/-- Every use was fresh when it happened. -/
def Fresh : List (Use α) → Prop
  | .use value :: past => value ∉ epoch past ∧ Fresh past
  | .cut :: past => Fresh past
  | [] => True

/-- Between two uses of one value there is a cut. -/
def Separated (history : List (Use α)) : Prop :=
  ∀ (i j : Nat) (value : α), i < j → history[i]? = some (.use value) →
    history[j]? = some (.use value) → ∃ k, i < k ∧ k < j ∧ history[k]? = some .cut

/-- A use that lies behind the last cut happened before it. -/
theorem cut_of_not_mem_epoch {history : List (Use α)} {j : Nat}
    (used : history[j]? = some (.use value)) (fresh : value ∉ epoch history) :
    ∃ k, k < j ∧ history[k]? = some .cut := by
  induction history generalizing j with
  | nil => cases used
  | cons last past ih =>
    cases last with
    | cut =>
      cases j with
      | zero => cases used
      | succ j => exact ⟨0, Nat.succ_pos j, rfl⟩
    | use other =>
      rw [epoch, List.mem_cons, not_or] at fresh
      cases j with
      | zero =>
        cases used
        exact absurd rfl fresh.1
      | succ j =>
        obtain ⟨k, earlier, cut⟩ := ih used fresh.2
        exact ⟨k + 1, Nat.succ_lt_succ earlier, cut⟩

theorem Fresh.separated {history : List (Use α)} (fresh : Fresh history) : Separated history := by
  induction history with
  | nil => intro i j value _ used; cases used
  | cons last past ih =>
    intro i j value before first second
    obtain ⟨j, rfl⟩ := Nat.exists_eq_add_one_of_ne_zero (Nat.ne_zero_of_lt before)
    rw [List.getElem?_cons_succ] at second
    cases i with
    | zero =>
      cases first
      obtain ⟨k, earlier, cut⟩ := cut_of_not_mem_epoch second fresh.1
      exact ⟨k + 1, Nat.succ_pos k, Nat.succ_lt_succ earlier, cut⟩
    | succ i =>
      have rest : Fresh past := by
        cases last with
        | cut => exact fresh
        | use other => exact fresh.2
      obtain ⟨k, after, earlier, cut⟩ :=
        ih rest i j value (Nat.lt_of_succ_lt_succ before) first second
      exact ⟨k + 1, Nat.succ_lt_succ after, Nat.succ_lt_succ earlier, cut⟩

end Use

end SbOS
