import SbOS.Kernel.Stop

/-! The formatter of the kernel (`libc/stdio/print.c`). It walks through the format with a flag
that says whether it is inside a conversion, and with what the characters of the conversion have
said so far. Its arguments are the words of a `va_list`. -/
namespace SbOS.Kernel.Print

def ascii (c : Char) : UInt8 := UInt8.ofNat c.toNat

/-! ## Numbers and strings -/

/-- The digits of `print_num`, the last one first. -/
def digits (charSet : List UInt8) (base : Nat) : (left n : Nat) → List UInt8
  | 0, _ => []
  | left + 1, n =>
    if n = 0 then [] else charSet.getD (n % base) 0 :: digits charSet base left (n / base)

/-- What fills a field of `width` characters (`prefix` in the source) around `length` of them. -/
def padding (width length : Int) (t : UInt8) : Except Stop (List UInt8) := do
  let missing ← signed 32 (width - length)
  return List.replicate missing.toNat t

/-- A `long long` without its sign. -/
def magnitude (n : Int) : Except Stop Int := if n < 0 then signed 64 (n * -1) else .ok n

/-- `print_num`: the characters, and the count that it returns. -/
def printNum (n : Int) (base : Nat) (charSet : List UInt8) (width : Int)
    (zeroPadding rightPadding : Bool) : Except Stop (List UInt8 × Int) := do
  let m ← magnitude n
  let str := if m = 0 then [charSet.getD 0 0] else digits charSet base 32 m.toNat
  let str := if n < 0 then str ++ [ascii '-'] else str
  let pad ← padding width str.length (if zeroPadding then ascii '0' else ascii ' ')
  return (if rightPadding then str.reverse ++ pad else pad ++ str.reverse,
    pad.length + str.length)

def decimal : List UInt8 := "0123456789".toList.map ascii

def hexadecimal : List UInt8 := "0123456789abcdef".toList.map ascii

def octal : List UInt8 := "012345678".toList.map ascii

/-- The loop of `print_string` with `bl` characters left. -/
def cut : (bl : Int) → List UInt8 → Except Stop (List UInt8)
  | _, [] => .ok []
  | bl, c :: s => do
    if bl = 0 then return []
    let rest ← cut (← signed 32 (bl - 1)) s
    return c :: rest

/-- The characters of a string that a precision lets through. -/
def upTo (precision : Int) (s : List UInt8) : Except Stop (List UInt8) :=
  if precision = -1 then .ok s else cut precision s

/-- `print_string`: the characters, and what it adds to the count. -/
def printString (s : List UInt8) (width : Int) (rightPadding : Bool) (precision : Int) :
    Except Stop (List UInt8 × Int) := do
  let body ← upTo precision s
  if rightPadding then
    check (precision = -1)
    let pad ← padding width (toInt s.length) (ascii ' ')
    return (body ++ pad, body.length + pad.length)
  else
    check (width ≠ 0 → precision = -1)
    let pad ← padding width (toInt s.length) (ascii ' ')
    return (pad ++ body, body.length + pad.length)

/-! ## The formatter -/

/-- A word of the `va_list`: a number, or a pointer to a string. -/
inductive Arg where
  | word (value : UInt32)
  | string (s : Option (List UInt8))

/-- What a conversion has said so far. -/
structure Spec where
  width : Int
  longLevel : Nat
  zeroPadding : Bool
  rightPadding : Bool
  cont : Bool
  precision : Int

structure Formatter where
  spec : Spec
  args : List Arg
  out : List UInt8
  rc : Int

abbrev FormatM := StateT Formatter (Except Stop)

def getSpec : FormatM Spec := fun f => .ok (f.spec, f)

def setSpec (spec : Spec) : FormatM Unit := fun f => .ok ((), { f with spec })

/-- Characters that are written, and the count for the return value. -/
def emit (written : List UInt8 × Int) : FormatM Unit := fun f => do
  let rc ← signed 32 (f.rc + written.2)
  return ((), { f with out := f.out ++ written.1, rc })

/-- `va_arg(ap, unsigned int)` -/
def vaArgWord : FormatM UInt32 := fun f =>
  match f.args with
  | .word value :: args => .ok (value, { f with args })
  | .string _ :: _ => .error .dangling
  | [] => .error .overrun

/-- `va_arg(ap, int)` -/
def vaArgInt : FormatM Int := do return toInt (← vaArgWord).toNat

/-- `va_arg(ap, long long)`: two words, the low one first. -/
def vaArgLongLong : FormatM Int := do
  let low ← vaArgWord
  let high ← vaArgWord
  return low.toNat + toInt high.toNat * 2 ^ 32

/-- The argument of `%d` and `%i`. -/
def vaArgSigned (longLevel : Nat) : FormatM Int :=
  if longLevel = 2 then vaArgLongLong
  else if longLevel = 1 then vaArgLongLong
  else vaArgInt

/-- `va_arg(ap, char *)` -/
def vaArgString : FormatM (Option (List UInt8)) := fun f =>
  match f.args with
  | .string s :: args => .ok (s, { f with args })
  | .word _ :: _ => .error .dangling
  | [] => .error .overrun

/-- The end of a conversion. Of the flags, `long_level` is left as it is. -/
def finish (s : Spec) : FormatM Unit :=
  setSpec { s with
    width := 0, zeroPadding := false, rightPadding := false, cont := false, precision := -1 }

/-- The characters of a conversion that do not end it, apart from `.`. -/
def convertFlag (c : UInt8) (s : Spec) : FormatM Unit := do
  if c = ascii '0' then
    let width ← signed 32 (s.width * 10)
    setSpec { s with width, zeroPadding := if width = 0 then true else s.zeroPadding }
  else if c = ascii '-' then
    check (s.width = 0)
    setSpec { s with rightPadding := true }
  else if ascii '1' ≤ c ∧ c ≤ ascii '9' then
    let width ← signed 32 (s.width * 10)
    let width ← signed 32 (width + (c.toNat - (ascii '0').toNat : Int))
    setSpec { s with width }
  else
    check (c = ascii 'l')
    check (s.longLevel + 1 ≤ 2)
    setSpec { s with longLevel := s.longLevel + 1 }

/-- `print_int` with the precision, if there is one, as the width. -/
def printSigned (n : Int) (s : Spec) : Except Stop (List UInt8 × Int) :=
  if s.precision ≠ -1 then printNum n 10 decimal s.precision true false
  else printNum n 10 decimal s.width s.zeroPadding s.rightPadding

/-- `%d` and `%i` -/
def convertInt (s : Spec) : FormatM Unit := do
  let n ← vaArgSigned s.longLevel
  emit (← printSigned n s)
  finish { s with longLevel := 0 }

/-- `%u`, `%x`, `%p` and `%o` -/
def convertWord (base : Nat) (charSet : List UInt8) (s : Spec) : FormatM Unit := do
  check (s.precision = -1)
  let n ← vaArgWord
  emit (← printNum n.toNat base charSet s.width s.zeroPadding s.rightPadding)
  finish s

/-- `%s` -/
def convertString (s : Spec) : FormatM Unit := do
  check (!s.zeroPadding)
  let a ← vaArgString
  emit (← printString (a.getD ("(NULL)".toList.map ascii)) s.width s.rightPadding s.precision)
  finish s

/-- The `switch` over a character of a conversion, apart from `.`. -/
def convert (c : UInt8) (s : Spec) : FormatM Unit := do
  if c = ascii 'd' ∨ c = ascii 'i' then convertInt s
  else if c = ascii 'u' then convertWord 10 decimal s
  else if c = ascii 's' then convertString s
  else if c = ascii 'p' ∨ c = ascii 'x' then convertWord 16 hexadecimal s
  else if c = ascii 'o' then convertWord 8 octal s
  else if c = ascii '%' then
    emit ([ascii '%'], 1)
    finish s
  else if c = ascii 'c' then
    let value ← vaArgWord
    emit ([UInt8.ofNat value.toNat], 1)
    finish s
  else convertFlag c s

/-- `parse_precision` on what follows the point: the precision, or -1 for an argument, and the
number of characters of it. The end of the format is an error of its caller. -/
def parsePrecision : (i : Nat) → (rc : Int) → List UInt8 → Except Stop (Int × Nat)
  | _, _, [] => .error .assertion
  | i, rc, c :: s => do
    if c = ascii '*' then
      check (i = 0)
      return (-1, 1)
    else if ascii '0' ≤ c ∧ c ≤ ascii '9' then
      let rc ← signed 32 (rc * 10)
      let rc ← signed 32 (rc + (c.toNat - (ascii '0').toNat : Int))
      parsePrecision (i + 1) rc s
    else return (rc, i)

/-- A precision of -1 stands for an argument. -/
def vaArgPrecision (precision : Int) : FormatM Int :=
  if precision = -1 then vaArgInt else pure precision

/-- A character outside a conversion. -/
def literal (c : UInt8) (spec : Spec) : FormatM Unit :=
  if c ≠ ascii '%' then emit ([c], 1) else setSpec { spec with cont := true }

/-- The loop of `vkcprintf`. -/
def format : List UInt8 → FormatM Unit
  | [] => pure ()
  | c :: s => do
    let spec ← getSpec
    if !spec.cont then
      literal c spec
      format s
    else if c = ascii '.' then
      let (precision, count) ← parsePrecision 0 0 s
      let precision ← vaArgPrecision precision
      setSpec { spec with precision }
      format (s.drop count)
    else
      convert c spec
      format s
termination_by s => s.length
decreasing_by all_goals simp only [List.length_drop, List.length_cons]; omega

def start (args : List Arg) : Formatter :=
  ⟨⟨0, 0, false, false, false, -1⟩, args, [], 0⟩

/-- `vkcprintf`: the state at its end. -/
def vkcprintf (fmt : List UInt8) (args : List Arg) : Except Stop Formatter := do
  let (_, f) ← format fmt (start args)
  return f

end SbOS.Kernel.Print
