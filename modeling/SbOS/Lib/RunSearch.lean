import Mathlib.Data.List.Sort
import Mathlib.Tactic.Common

/-! The search for `n` free elements in a row, made in one pass with a counter that
every element in use sets back. It finds the first run there is. -/
namespace SbOS.RunSearch
open List
variable {α : Type} {free : α → Bool} {all : List α} {n i j t : Nat}

/-- The pass, with `counter` elements still wanted: the last element of the run. -/
def scan (free : α → Bool) (n : Nat) : List α → (counter : Nat) → Option α
  | [], _ => none
  | x :: rest, counter =>
    if free x then
      if counter - 1 = 0 then some x else scan free n rest (counter - 1)
    else scan free n rest n

/-- The `n` elements up to number `j` are there and free. -/
def RunEnds (free : α → Bool) (all : List α) (n j : Nat) : Prop :=
  ∀ k < n, k ≤ j ∧ ∃ x, all[j - k]? = some x ∧ free x = true

/-- The first run of `n` free elements ends at number `j`. -/
def FirstRunEnds (free : α → Bool) (all : List α) (n j : Nat) : Prop :=
  RunEnds free all n j ∧ ∀ i < j, ¬ RunEnds free all n i

/-- Before number `i` there are `t` free elements in a row, no more, and no run of `n`. -/
structure Scanned (free : α → Bool) (all : List α) (n i t : Nat) : Prop where
  short : t < n
  within : t ≤ i
  run : ∀ k < t, ∃ x, all[i - 1 - k]? = some x ∧ free x = true
  stop : t < i → ∃ x, all[i - 1 - t]? = some x ∧ free x = false
  none : ∀ j < i, ¬ RunEnds free all n j

theorem Scanned.start (positive : 0 < n) : Scanned free all n 0 0 :=
  ⟨positive, Nat.le_refl 0, nofun, nofun, nofun⟩

section
variable (scanned : Scanned free all n i t)
include scanned

theorem Scanned.blocked (here : all[i]? = some x)
    (used : free x = false) : Scanned free all n (i + 1) 0 where
  short := Nat.zero_lt_of_lt scanned.short
  within := Nat.zero_le _
  run := nofun
  stop := fun _ => ⟨x, here, used⟩
  none := by
    intro j below run
    rcases Nat.lt_succ_iff_lt_or_eq.mp below with before | rfl
    · exact scanned.none j before run
    · obtain ⟨_, y, at_j, isFree⟩ := run 0 (Nat.zero_lt_of_lt scanned.short)
      cases here.symm.trans at_j
      exact Bool.noConfusion (used.symm.trans isFree)

theorem Scanned.extended (here : all[i]? = some x)
    (isFree : free x = true) (more : t + 1 < n) : Scanned free all n (i + 1) (t + 1) where
  short := more
  within := Nat.succ_le_succ scanned.within
  run := by
    intro k below
    cases k with
    | zero => exact ⟨x, here, isFree⟩
    | succ k =>
      obtain ⟨y, at_k, yFree⟩ := scanned.run k (by omega)
      exact ⟨y, by rw [← at_k]; congr 1; omega, yFree⟩
  stop := by
    intro below
    obtain ⟨y, at_t, used⟩ := scanned.stop (by omega)
    exact ⟨y, by rw [← at_t]; congr 1; omega, used⟩
  none := by
    intro j below run
    rcases Nat.lt_succ_iff_lt_or_eq.mp below with before | rfl
    · exact scanned.none j before run
    · -- the element before the `t + 1` free ones is in use, or there is none
      obtain ⟨inside, y, at_y, yFree⟩ := run (t + 1) more
      obtain ⟨z, at_z, used⟩ := scanned.stop (by omega)
      rw [show j - (t + 1) = j - 1 - t by omega, at_z] at at_y
      cases at_y
      exact Bool.noConfusion (used.symm.trans yFree)

theorem Scanned.complete (here : all[i]? = some x)
    (isFree : free x = true) (last : t + 1 = n) : FirstRunEnds free all n i := by
  refine ⟨fun k below => ?_, scanned.none⟩
  have within := scanned.within
  cases k with
  | zero => exact ⟨Nat.zero_le i, x, here, isFree⟩
  | succ k =>
    obtain ⟨y, at_k, yFree⟩ := scanned.run k (by omega)
    exact ⟨by omega, y, by rw [← at_k]; congr 1; omega, yFree⟩

/-- From where the pass stands it finds the first run, or there is none. -/
theorem scan_drop (rest : List α) (left : all.drop i = rest) :
    (∃ j x, FirstRunEnds free all n j ∧ all[j]? = some x ∧ scan free n rest (n - t) = some x) ∨
    ((∀ j, ¬ RunEnds free all n j) ∧ scan free n rest (n - t) = none) := by
  induction rest generalizing i t with
  | nil =>
    have ended : all.length ≤ i := drop_eq_nil_iff.mp left
    refine .inr ⟨fun j run => ?_, rfl⟩
    obtain ⟨_, x, at_j, _⟩ := run 0 (Nat.zero_lt_of_lt scanned.short)
    have inside := (List.getElem?_eq_some_iff.mp at_j).1
    exact scanned.none j (by omega) run
  | cons x rest ih =>
    have here : all[i]? = some x := by
      have first := congrArg head? left
      rwa [head?_drop] at first
    have next : all.drop (i + 1) = rest := by
      rw [← drop_drop, left]
      rfl
    have short := scanned.short
    unfold scan
    cases isFree : free x with
    | false => exact ih (scanned.blocked here isFree) next
    | true =>
      simp only [if_true]
      by_cases last : t + 1 = n
      · rw [if_pos (by omega)]
        exact .inl ⟨i, x, scanned.complete here isFree last, here, rfl⟩
      · rw [if_neg (by omega), Nat.sub_sub]
        exact ih (scanned.extended here isFree (by omega)) next

end

/-- The pass returns the end of the first run. -/
theorem scan_spec (positive : 0 < n) (all : List α) :
    (∃ j x, FirstRunEnds free all n j ∧ all[j]? = some x ∧ scan free n all n = some x) ∨
    ((∀ j, ¬ RunEnds free all n j) ∧ scan free n all n = none) :=
  scan_drop (.start positive) all rfl

/-! ### Runs of numbers -/

section Numbers
variable {all : List Nat} {a b : Nat}

/-- Numbers in increasing order are at least as far apart as their places. -/
theorem gap (sorted : all.Pairwise (· < ·)) (order : i ≤ j) (at_i : all[i]? = some a)
    (at_j : all[j]? = some b) : a + (j - i) ≤ b := by
  induction j, order using Nat.le_induction generalizing b with
  | base =>
    cases at_i.symm.trans at_j
    omega
  | succ j order ih =>
    have inside := (List.getElem?_eq_some_iff.mp at_j).1
    have before := ih (List.getElem?_eq_getElem (Nat.lt_of_succ_lt inside))
    have less := pairwise_iff_getElem.mp sorted j (j + 1) (by omega) inside (by omega)
    rw [(List.getElem?_eq_some_iff.mp at_j).2] at less
    omega

/-- The `n` places up to `j` hold the numbers up to `b`, if these are all in the list. -/
theorem consecutive (sorted : all.Pairwise (· < ·)) (last : all[j]? = some b)
    (members : ∀ k < n, k ≤ b ∧ b - k ∈ all) (k : Nat) (below : k < n) :
    all[j - k]? = some (b - k) := by
  induction k with
  | zero => exact last
  | succ k ih =>
    have here := ih (by omega)
    obtain ⟨small, member⟩ := members (k + 1) below
    obtain ⟨m, at_m⟩ := List.getElem?_of_mem member
    -- the number before comes at an earlier place, and the place before holds nothing larger
    have earlier : m < j - k := by
      by_contra later
      have apart := gap sorted (Nat.le_of_not_lt later) here at_m
      omega
    have inside : j - (k + 1) < all.length := by
      have := (List.getElem?_eq_some_iff.mp here).1
      omega
    have at_y := List.getElem?_eq_getElem inside
    have above := gap sorted (show j - (k + 1) ≤ j - k by omega) at_y here
    have under := gap sorted (show m ≤ j - (k + 1) by omega) at_m at_y
    have same : m = j - (k + 1) := by omega
    rw [← same]
    exact at_m

/-- In increasing order `n` numbers are in a row exactly when the list holds all the
`n` numbers up to the last of them. -/
theorem in_a_row_iff (sorted : all.Pairwise (· < ·)) (positive : 0 < n) (within : n - 1 ≤ j)
    (first : all[j - (n - 1)]? = some a) (last : all[j]? = some b) :
    b = a + (n - 1) ↔ ∀ k < n, k ≤ b ∧ b - k ∈ all := by
  constructor
  · intro together k below
    have inside : j - k < all.length := by
      have := (List.getElem?_eq_some_iff.mp last).1
      omega
    have at_y := List.getElem?_eq_getElem inside
    have above := gap sorted (show j - (n - 1) ≤ j - k by omega) first at_y
    have under := gap sorted (show j - k ≤ j by omega) at_y last
    have same : all[j - k] = b - k := by omega
    exact ⟨by omega, same ▸ getElem_mem inside⟩
  · intro members
    have at_first := consecutive sorted last members (n - 1) (by omega)
    have small := (members (n - 1) (by omega)).1
    cases first.symm.trans at_first
    omega

end Numbers

end SbOS.RunSearch
