import SbOS.Kernel.Stop

/-! Numbers from text: `parse_u64` of the kernel and `strtoul`, `strtol` and `strtoll` of
the user library. The unsigned ones multiply in wrapping arithmetic and then check only that
the next digit can be added; the signed ones check both steps. -/
namespace SbOS.Kernel.ParseNum

/-- `get_value`, with `none` for its -1. -/
def getValue (c : Char) (base : Nat) : Option Nat :=
  let l := c.toLower
  let r := if '0' ≤ l ∧ l ≤ '9' then some (l.toNat - '0'.toNat)
    else if 'a' ≤ l ∧ l ≤ 'z' then some (l.toNat - 'a'.toNat + 10)
    else none
  r.filter (· < base)

/-- The loop of both functions in `w`-bit arithmetic, with the text at which it stops;
`none` is the return on overflow. -/
def accumulate (w base : Nat) : (ret : Nat) → List Char → Option (Nat × List Char)
  | ret, [] => some (ret, [])
  | ret, c :: str =>
    match getValue c base with
    | none => some (ret, c :: str)
    | some val =>
      if ret * base % 2 ^ w > 2 ^ w - 1 - val then none
      else accumulate w base (ret * base % 2 ^ w + val) str

/-- A base of 0 is chosen by what the text begins with. -/
def chooseBase (base : Int) (str : List Char) : Int × List Char :=
  if base ≠ 0 then (base, str)
  else if str.head? ≠ some '0' then (10, str)
  else if str.tail.head?.map Char.toLower = some 'x' then (16, str.drop 2)
  else (8, str.tail)

/-- What a call gives back: the number, the text at `endptr` and the error it stores. -/
structure Parsed where
  value : Nat
  endptr : List Char
  error : Option Nat
  deriving DecidableEq

/-- From the choice of the base to the end. On an error `endptr` stays at `start`. -/
def parseDigits (w invalid overflow : Nat) (start : List Char) (base : Int) (str : List Char) :
    Parsed :=
  let (base, str) := chooseBase base str
  if 2 ≤ base ∧ base ≤ 36 then
    match accumulate w base.toNat 0 str with
    | none => ⟨0, start, some overflow⟩
    | some (value, rest) => ⟨value, rest, none⟩
  else ⟨0, start, some invalid⟩

def parseU64 (str : List Char) (base : Int) : Parsed :=
  if str = [] then ⟨0, str, none⟩ else parseDigits 64 1 1 str base str

def isspace (c : Char) : Bool := c = ' ' ∨ '\t'.toNat ≤ c.toNat ∧ c.toNat - '\t'.toNat < 5

def eRANGE : Nat := 72

def strtoul (str : List Char) (base : Int) : Except Stop Parsed := do
  let text := str.dropWhile isspace
  if text = [] then return ⟨0, str, none⟩
  check (text.head? ≠ some '-')
  let digits := if text.head? = some '+' then text.tail else text
  return parseDigits 32 eINVAL.toNat eRANGE str base digits

/-! ## Exact numbers -/

/-- The digits that a text begins with. -/
def digits (base : Nat) : List Char → List Nat
  | [] => []
  | c :: str =>
    match getValue c base with
    | none => []
    | some d => d :: digits base str

def value (base : Nat) (v : Nat) (ds : List Nat) : Nat := ds.foldl (fun v d => v * base + d) v

/-- The number is exact when it fits, and an overflow is reported when it does not. -/
def Exact (w base overflow : Nat) (str : List Char) (result : Parsed) : Prop :=
  let ds := digits base str
  if value base 0 ds < 2 ^ w then result = ⟨value base 0 ds, str.drop ds.length, none⟩
  else result.error = some overflow

/-- Some digit does not fit on top of the low `w` bits of `base` times the number before
it. -/
def caught (w base : Nat) : (v : Nat) → List Nat → Bool
  | _, [] => false
  | v, d :: ds => 2 ^ w ≤ v * base % 2 ^ w + d || caught w base (v * base + d) ds

/-- The number fits, or the check of some digit notices that it does not. -/
def Noticed (w base : Nat) (str : List Char) : Prop :=
  value base 0 (digits base str) < 2 ^ w ∨ caught w base 0 (digits base str) = true

theorem getValue_lt (found : getValue c base = some d) : d < base := by
  obtain ⟨-, small⟩ := Option.filter_eq_some_iff.mp found
  exact of_decide_eq_true small

theorem accumulate_eq (small : base ≤ 2 ^ w) (v : Nat) (str : List Char) :
    accumulate w base (v % 2 ^ w) str = if caught w base v (digits base str) then none
      else some (value base v (digits base str) % 2 ^ w, str.drop (digits base str).length) := by
  induction str generalizing v with
  | nil => rfl
  | cons c str ih =>
    unfold accumulate digits
    cases found : getValue c base with
    | none => rfl
    | some d =>
      have below := getValue_lt found
      dsimp only
      rw [Nat.mod_mul_mod, caught]
      by_cases wraps : 2 ^ w ≤ v * base % 2 ^ w + d
      · rw [if_pos (by omega), decide_eq_true wraps]
        rfl
      · have sum : (v * base + d) % 2 ^ w = v * base % 2 ^ w + d := by
          rw [← Nat.mod_add_mod, Nat.mod_eq_of_lt (by omega)]
        rw [if_neg (by omega), decide_eq_false wraps, ← sum, ih]
        rfl

theorem le_value (positive : 0 < base) (v : Nat) (ds : List Nat) : v ≤ value base v ds := by
  induction ds generalizing v with
  | nil => exact Nat.le_refl v
  | cons d ds ih =>
    have := Nat.le_mul_of_pos_right v positive
    exact Nat.le_trans (by omega) (ih (v * base + d))

theorem not_caught_of_fits (positive : 0 < base) (fits : value base v ds < 2 ^ w) :
    caught w base v ds = false := by
  induction ds generalizing v with
  | nil => rfl
  | cons d ds ih =>
    have first : v * base + d < 2 ^ w := (le_value positive _ ds).trans_lt fits
    rw [caught, Nat.mod_eq_of_lt (by omega), decide_eq_false (by omega), Bool.false_or]
    exact ih fits

section
variable {base : Nat} (low : 2 ≤ base) (high : base ≤ 36)
include low high

theorem parse_exact_iff (wide : 36 ≤ 2 ^ w) (invalid overflow : Nat) :
    Exact w base overflow str (if str = [] then ⟨0, str, none⟩ else
      parseDigits w invalid overflow str base str) ↔ Noticed w base str := by
  have positive : 0 < base := by omega
  split
  · rename_i empty
    subst empty
    have fits : 0 < 2 ^ w := by omega
    exact iff_of_true ((if_pos fits).mpr rfl) (.inl fits)
  · have range : 2 ≤ (base : Int) ∧ (base : Int) ≤ 36 := by omega
    have chosen : chooseBase base str = ((base : Int), str) := if_pos (by omega)
    have ran := accumulate_eq (high.trans wide) 0 str
    rw [Nat.zero_mod] at ran
    unfold parseDigits Exact Noticed
    rw [chosen]
    dsimp only
    rw [if_pos range, Int.toNat_natCast, ran]
    by_cases fits : value base 0 (digits base str) < 2 ^ w
    · rw [if_pos fits, not_caught_of_fits positive fits, Nat.mod_eq_of_lt fits]
      exact iff_of_true rfl (.inl fits)
    · rw [if_neg fits]
      cases caught w base 0 (digits base str) with
      | true => exact iff_of_true rfl (.inr rfl)
      | false => simp [fits]

/-- Both parsers give the exact number or report that it does not fit just when every
number too large for the word is noticed at one of its digits. -/
theorem parsing_exact_iff (plain : ∀ c ∈ str.head?, isspace c = false ∧ c ≠ '-' ∧ c ≠ '+') :
    (Exact 64 base 1 str (parseU64 str base) ∧
      ∃ result, strtoul str base = .ok result ∧ Exact 32 base eRANGE str result) ↔
      Noticed 64 base str ∧ Noticed 32 base str := by
  have ran : strtoul str base = .ok (if str = [] then ⟨0, str, none⟩ else
      parseDigits 32 eINVAL.toNat eRANGE str base str) := by
    cases str with
    | nil => rfl
    | cons c str =>
      obtain ⟨visible, minus, plus⟩ := plain c rfl
      unfold strtoul
      rw [List.dropWhile_cons_of_neg (by rw [visible]; decide)]
      simp [check, minus, plus]
  refine and_congr (parse_exact_iff low high (by decide) 1 1) ?_
  rw [ran, ← parse_exact_iff low high (by decide) eINVAL.toNat eRANGE]
  constructor
  · rintro ⟨result, same, exact⟩
    exact Except.ok.inj same ▸ exact
  · exact fun exact => ⟨_, rfl, exact⟩

end

theorem parsing_exact_small :
    Exact 64 10 1 ['4', '2', '/'] (parseU64 ['4', '2', '/'] 10) :=
  ((parsing_exact_iff (by decide) (by decide) (by simp [isspace])).mpr
    ⟨.inl (by decide), .inl (by decide)⟩).1

/-- Two to the 64 is read as 0. -/
theorem power_of_the_word_is_zero :
    ¬Exact 64 16 1 ('1' :: List.replicate 16 '0') (parseU64 ('1' :: List.replicate 16 '0') 16) := by
  unfold Exact
  decide +kernel

/-! ## Signed numbers -/

/-- The loop of `strtol` and `strtoll`; `none` is the return on overflow. -/
def saturate (bits base : Nat) : (ret : Nat) → List Char → Except Stop (Option (Nat × List Char))
  | ret, [] => .ok (some (ret, []))
  | ret, c :: str =>
    match getValue c base with
    | none => .ok (some (ret, c :: str))
    | some val => do
      if ret > (2 ^ (bits - 1) - 1) / base then return none
      let _ ← signed bits (ret * base : Nat)
      if ret * base > 2 ^ (bits - 1) - 1 - val then return none
      let _ ← signed bits (ret * base + val : Nat)
      saturate bits base (ret * base + val) str

/-- The text behind white space and a plus. -/
def afterSign (str : List Char) : List Char :=
  let text := str.dropWhile isspace
  if text.head? = some '+' then text.tail else text

/-- `strtol` and `strtoll`, whose results have 32 and 64 bits. -/
def parseSigned (bits : Nat) (str : List Char) (base : Int) : Except Stop Parsed := do
  let text := str.dropWhile isspace
  if text = [] then return ⟨0, str, none⟩
  check (text.head? ≠ some '-')
  let (base, text) := chooseBase base (afterSign str)
  if 2 ≤ base ∧ base ≤ 36 then
    match ← saturate bits base.toNat 0 text with
    | none => return ⟨2 ^ (bits - 1) - 1, str, some eRANGE⟩
    | some (value, rest) => return ⟨value, rest, none⟩
  else return ⟨0, str, some eINVAL.toNat⟩

def strtol : List Char → Int → Except Stop Parsed := parseSigned 32

def strtoll : List Char → Int → Except Stop Parsed := parseSigned 64

/-- The exact number and the text behind it, or the largest number and an error. -/
def saturated (bits base : Nat) (str : List Char) : Parsed :=
  let ds := digits base (afterSign str)
  if value base 0 ds < 2 ^ (bits - 1) then ⟨value base 0 ds, (afterSign str).drop ds.length, none⟩
  else ⟨2 ^ (bits - 1) - 1, str, some eRANGE⟩

theorem signed_ok (small : n < 2 ^ (bits - 1)) : signed bits (n : Nat) = .ok ↑n := by
  have : (n : Int) < 2 ^ (bits - 1) := by exact_mod_cast small
  exact if_pos ⟨by omega, this⟩

/-- Both checks together refuse just the numbers that do not fit. -/
theorem saturate_eq (room : base < 2 ^ (bits - 1)) (fits : ret < 2 ^ (bits - 1)) (str : List Char) :
    saturate bits base ret str = .ok (if value base ret (digits base str) < 2 ^ (bits - 1) then
      some (value base ret (digits base str), str.drop (digits base str).length) else none) := by
  induction str generalizing ret with
  | nil => exact congrArg Except.ok (if_pos fits).symm
  | cons c str ih =>
    unfold saturate digits
    cases found : getValue c base with
    | none => exact congrArg Except.ok (if_pos fits).symm
    | some d =>
      have below := getValue_lt found
      have positive : 0 < base := by omega
      have grows := le_value positive (ret * base + d) (digits base str)
      change _ = Except.ok (if value base (ret * base + d) (digits base str) < _ then _ else _)
      dsimp only
      by_cases times : ret * base < 2 ^ (bits - 1)
      · rw [if_neg (mt (Nat.div_lt_iff_lt_mul positive).mp (by omega)), signed_ok times, ok_then]
        by_cases plus : ret * base + d < 2 ^ (bits - 1)
        · rw [if_neg (by omega), signed_ok plus, ok_then, ih plus]
          rfl
        · rw [if_pos (by omega), if_neg (by omega)]
          rfl
      · rw [if_pos ((Nat.div_lt_iff_lt_mul positive).mpr (by omega)), if_neg (by omega)]
        rfl

section
variable {base : Nat} (low : 2 ≤ base) (high : base ≤ 36) (some : digits base (afterSign str) ≠ [])
include low high some

theorem parseSigned_eq (wide : 36 < 2 ^ (bits - 1)) :
    parseSigned bits str base = .ok (saturated bits base str) := by
  have chosen : chooseBase base (afterSign str) = ((base : Int), afterSign str) :=
    if_pos (by omega)
  have range : 2 ≤ (base : Int) ∧ (base : Int) ≤ 36 := by omega
  have nonempty : str.dropWhile isspace ≠ [] := by
    intro empty
    exact some (by rw [afterSign, empty]; rfl)
  have minus : (str.dropWhile isspace).head? ≠ .some '-' := by
    intro first
    obtain ⟨rest, text⟩ := List.head?_eq_some_iff.mp first
    exact some (by rw [afterSign, text]; rfl)
  unfold parseSigned saturated
  simp only [if_neg nonempty, check_true minus, chosen, if_pos range, Int.toNat_natCast,
    saturate_eq (high.trans_lt wide) (Nat.two_pow_pos _), ok_then]
  by_cases fits : value base 0 (digits base (afterSign str)) < 2 ^ (bits - 1)
  · rw [if_pos fits, if_pos fits]
    rfl
  · rw [if_neg fits, if_neg fits]
    rfl

/-- `strtol` and `strtoll` give every number that fits exactly and the largest one with
`ERANGE` for the others, and no arithmetic of theirs overflows. -/
theorem signed_parsing_saturates :
    strtol str base = .ok (saturated 32 base str) ∧
      strtoll str base = .ok (saturated 64 base str) :=
  ⟨parseSigned_eq low high some (by decide), parseSigned_eq low high some (by decide)⟩

end

theorem signed_parsing_saturates_six : strtol [' ', '+', '6', '!'] 7 = .ok ⟨6, ['!'], none⟩ :=
  (@signed_parsing_saturates _ 7 (by decide) (by decide) (by decide)).1

end SbOS.Kernel.ParseNum
