import Mathlib.Tactic.Common

/-! Programs over a state that survives a stop: `EStateM` programs, with one
predicate for what holds when they return and one for what holds when they
stop. -/
namespace SbOS

/-- From `s` the program returns a value and a state that meet `post`, or stops
in a state that meets `stopped`. -/
def Ends (program : EStateM ε σ α) (s : σ) (post : α → σ → Prop) (stopped : σ → Prop) : Prop :=
  match program s with
  | .ok value after => post value after
  | .error _ after => stopped after

/-- The state a program leaves behind, however it ends. -/
def finalState (program : EStateM ε σ α) (s : σ) : σ :=
  match program s with
  | .ok _ after => after
  | .error _ after => after

/-- `for (; left > 0; i++, left--) if (!body(i)) return 0; return 1;` -/
def untilFalse (body : Nat → EStateM ε σ Bool) : (left i : Nat) → EStateM ε σ Bool
  | 0, _ => pure true
  | left + 1, i => do
    if ← body i then untilFalse body left (i + 1) else return false

section Run
variable {ε σ α β : Type} {program : EStateM ε σ α} {next : α → EStateM ε σ β} {s after : σ}

theorem run_bind_ok {value : α} (ran : program s = .ok value after) :
    (program >>= next) s = next value after := by
  show EStateM.bind program next s = _
  unfold EStateM.bind
  rw [ran]

theorem run_bind_error {error : ε} (ran : program s = .error error after) :
    (program >>= next) s = .error error after := by
  show EStateM.bind program next s = _
  unfold EStateM.bind
  rw [ran]

theorem run_get {next : σ → EStateM ε σ β} : (get >>= next) s = next s s := rfl

theorem run_modify {next : Unit → EStateM ε σ β} : (modify f >>= next) s = next () (f s) := rfl

theorem run_if_pos {condition : Prop} [Decidable condition] {other : EStateM ε σ α}
    (holds : condition) : (if condition then program else other) s = program s := by
  rw [if_pos holds]

theorem run_if_neg {condition : Prop} [Decidable condition] {other : EStateM ε σ α}
    (fails : ¬ condition) : (if condition then other else program) s = program s := by
  rw [if_neg fails]

theorem run_bind_true {test : EStateM ε σ Bool} {yes no : EStateM ε σ α}
    (ran : test s = .ok true after) :
    (test >>= fun answer => if answer = true then yes else no) s = yes after := by
  rw [run_bind_ok ran]
  exact run_if_pos rfl

theorem untilFalse_one {body : Nat → EStateM ε σ Bool} (once : body i s = .ok true t) :
    untilFalse body 1 i s = .ok true t := by
  unfold untilFalse
  rw [run_bind_true once]
  rfl

theorem run_bind_false {test : EStateM ε σ Bool} {yes no : EStateM ε σ α}
    (ran : test s = .ok false after) :
    (test >>= fun answer => if answer = true then yes else no) s = no after := by
  rw [run_bind_ok ran]
  exact run_if_neg Bool.false_ne_true

end Run

namespace Ends
variable {ε σ α β : Type} {program : EStateM ε σ α} {next : α → EStateM ε σ β} {s after : σ}
  {post : α → σ → Prop} {stopped : σ → Prop}

theorem of_ok {value : α} (ran : program s = .ok value after) (holds : post value after) :
    Ends program s post stopped := by
  unfold Ends
  rw [ran]
  exact holds

theorem of_error {error : ε} (ran : program s = .error error after) (holds : stopped after) :
    Ends program s post stopped := by
  unfold Ends
  rw [ran]
  exact holds

theorem bind {mid : α → σ → Prop} {last : β → σ → Prop}
    (first : Ends program s mid stopped)
    (rest : ∀ value t, mid value t → Ends (next value) t last stopped) :
    Ends (program >>= next) s last stopped := by
  unfold Ends at first
  show Ends (EStateM.bind program next) s last stopped
  unfold Ends EStateM.bind
  cases ran : program s with
  | ok value t =>
    rw [ran] at first
    exact rest value t first
  | error error t =>
    rw [ran] at first
    exact first

/-- A program whose outcome is known, followed by another one. -/
theorem bind_ok {value : α} {last : β → σ → Prop} (ran : program s = .ok value after)
    (rest : Ends (next value) after last stopped) :
    Ends (program >>= next) s last stopped := by
  have known : Ends program s (fun v t => v = value ∧ t = after) stopped :=
    of_ok ran ⟨rfl, rfl⟩
  apply known.bind
  rintro _ _ ⟨rfl, rfl⟩
  exact rest

theorem get_bind {next : σ → EStateM ε σ β} {last : β → σ → Prop}
    (rest : Ends (next s) s last stopped) : Ends (get >>= next) s last stopped := rest

theorem mono {weaker : α → σ → Prop} {weaker' : σ → Prop} (ends : Ends program s post stopped)
    (returns : ∀ value t, post value t → weaker value t) (stops : ∀ t, stopped t → weaker' t) :
    Ends program s weaker weaker' := by
  unfold Ends at ends ⊢
  cases ran : program s with
  | ok value t =>
    rw [ran] at ends
    exact returns value t ends
  | error error t =>
    rw [ran] at ends
    exact stops t ends

/-- The loop keeps an invariant over the turns that answer `true` and ends in
`failed` after the first that answers `false`. -/
theorem untilFalse {body : Nat → EStateM ε σ Bool} {invariant : Nat → σ → Prop}
    {failed : σ → Prop} (left i : Nat)
    (turn : ∀ j t, i ≤ j → j < i + left → invariant j t →
      Ends (body j) t (fun answer u => if answer = true then invariant (j + 1) u else failed u)
        stopped)
    (holds : invariant i s) :
    Ends (SbOS.untilFalse body left i) s
      (fun answer u => if answer = true then invariant (i + left) u else failed u) stopped := by
  induction left generalizing i s with
  | zero => exact of_ok rfl holds
  | succ left ih =>
    apply (turn i s (Nat.le_refl i) (by omega) holds).bind
    rintro (_ | _) u result
    · exact of_ok rfl result
    · have rest := ih (i + 1)
        (fun j t low high => turn j t (by omega) (by omega)) (show invariant (i + 1) u from result)
      rw [show i + (left + 1) = i + 1 + left by omega]
      exact rest

end Ends
end SbOS
