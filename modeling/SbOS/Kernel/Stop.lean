import SbOS.Lib.Program
import Mathlib.Tactic.Ring

/-! How kernel code can end other than by returning, the error numbers it returns
and its 32-bit arithmetic. Fallible code of the kernel is modelled in `Except Stop`. -/
namespace SbOS.Kernel

inductive Stop where
  /-- A failed `assert`, which halts the machine. -/
  | assertion
  /-- An access past the end of a buffer. -/
  | overrun
  /-- A use of an object after it has been freed. -/
  | dangling
  /-- A call that never returns. -/
  | diverged
  deriving DecidableEq, Repr

/-- `assert`. -/
def check (condition : Prop) [Decidable condition] : Except Stop Unit :=
  if condition then .ok () else .error .assertion

theorem check_true [Decidable condition] (holds : condition) :
    check condition = .ok () := if_pos holds

/-- A step that returned hands its value on. -/
theorem ok_then (value : α) (next : α → Except Stop β) :
    (Except.ok value >>= next) = next value := rfl

/-- Both steps of a sequence that returned have returned. -/
theorem of_ok_then {step : Except Stop α} {next : α → Except Stop β}
    (returned : (step >>= next) = .ok value) : ∃ first, step = .ok first ∧ next first = .ok value := by
  cases step with
  | error stop => cases returned
  | ok first => exact ⟨first, rfl, returned⟩

/-- Code after an assertion that returned has had its assertion. -/
theorem of_check_then [Decidable condition]
    (returned : (check condition >>= next) = .ok value) :
    condition ∧ next () = .ok value := by
  by_cases holds : condition
  · rw [check_true holds] at returned
    exact ⟨holds, returned⟩
  · rw [check, if_neg holds] at returned
    cases returned

/-- Code that does not stop. -/
def Returns (program : Except Stop α) : Prop := ∃ value, program = .ok value

/-- `u32` arithmetic. -/
def wrap32 (n : Nat) : Nat := n % 2 ^ 32

/-- `a - b` in 32 bits. -/
def sub32 (a b : Nat) : Nat := wrap32 (a + 2 ^ 32 - b)

theorem sub32_eq (order : b ≤ a) (small : a < 2 ^ 32) : sub32 a b = a - b := by
  unfold sub32 wrap32
  omega

/-- An unsigned number as an `int`. -/
def toInt (n : Nat) : Int :=
  if n % 2 ^ 32 < 2 ^ 31 then (n % 2 ^ 32 : Nat) else (n % 2 ^ 32 : Nat) - 2 ^ 32

theorem toInt_of_lt (small : n < 2 ^ 31) : toInt n = n := by
  unfold toInt
  rw [Nat.mod_eq_of_lt (by omega : n < 2 ^ 32), if_pos small]

/-- The result of signed arithmetic. The sanitizer that the kernel is built with halts it on an
overflow. -/
def signed (bits : Nat) (n : Int) : Except Stop Int :=
  if -2 ^ (bits - 1) ≤ n ∧ n < 2 ^ (bits - 1) then .ok n else .error .assertion

/-- The check of `kcalloc`, `kreallocarray` and `krecalloc` against an overflow of the
product. -/
def mulOverflow (nmemb size : Nat) : Bool :=
  (2 ^ 16 ≤ nmemb || 2 ^ 16 ≤ size) && 0 < nmemb && (2 ^ 32 - 1) / nmemb < size

/-- The check is exact: one of two factors of a large product is large. -/
theorem mulOverflow_iff (nmemb size : Nat) :
    mulOverflow nmemb size = true ↔ 2 ^ 32 ≤ nmemb * size := by
  simp only [mulOverflow, Bool.and_eq_true, Bool.or_eq_true, decide_eq_true_eq]
  constructor
  · rintro ⟨⟨-, positive⟩, less⟩
    have bound := (Nat.div_lt_iff_lt_mul positive).mp less
    rw [mul_comm] at bound
    omega
  · intro large
    have positive : 0 < nmemb := Nat.pos_of_ne_zero fun zero => by
      rw [zero, zero_mul] at large
      omega
    refine ⟨⟨?_, positive⟩, (Nat.div_lt_iff_lt_mul positive).mpr ?_⟩
    · by_contra small
      rw [not_or, not_le, not_le] at small
      have := Nat.mul_lt_mul'' small.1 small.2
      omega
    · rw [mul_comm]
      omega

theorem mulOverflow_false (small : nmemb * size < 2 ^ 32) : mulOverflow nmemb size = false := by
  rw [← Bool.not_eq_true, mulOverflow_iff]
  omega

def eAGAIN : Int := 6

def eBADF : Int := 8

def eINVAL : Int := 28

end SbOS.Kernel
