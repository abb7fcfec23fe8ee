import Mathlib.Tactic.Common

/-! The shell (`minibox/utilities/sh`): the lexer, the parser and the loop that runs the nodes of
a script. -/
namespace SbOS.Shell

/-- How the front end can end other than by returning. -/
inductive Failure where
  /-- `assert(0 && "Unknown token")` -/
  | unknownToken
  /-- A field of a token that is not there. -/
  | missingToken
  /-- `exit(1)` of the parser. -/
  | exits
  | diverges
deriving DecidableEq

/-! ## The lexer -/

inductive TokenType where
  | chars | and | not | pipe | stream | streamAppend | background | equal | newline
deriving DecidableEq

structure Token where
  type : TokenType
  stringRep : List UInt8
deriving DecidableEq

def byte (c : Char) : UInt8 := c.toNat.toUInt8

/-- `is_special_char`. A `char` is signed, so `isprint` refuses the upper half of the bytes. -/
def isSpecialChar (c : UInt8) : Bool :=
  c ≤ 0x20 || 0x7F ≤ c || c == byte '>' || c == byte '|' || c == byte '&' || c == byte '='

/-- `sv_split_delim`: what stands before the delimiter, and what stands behind it. -/
def splitDelim (s : List UInt8) (delim : UInt8) : List UInt8 × List UInt8 :=
  (s.takeWhile (· ≠ delim), (s.dropWhile (· ≠ delim)).tail)

def parseChars (code : List UInt8) : Option (Token × List UInt8) :=
  if code.head? = some (byte '"') then
    let (string, code) := splitDelim code.tail (byte '"')
    some (⟨.chars, string⟩, code)
  else if isSpecialChar (code.headD 0) then none
  else
    some (⟨.chars, code.takeWhile (!isSpecialChar ·)⟩, code.dropWhile (!isSpecialChar ·))

/-- The operators in the order in which `parse_operand` tries them. -/
def operands : List (List UInt8 × TokenType) :=
  [([byte '&', byte '&'], .and), ([byte '|', byte '|'], .not), ([byte '>', byte '>'], .streamAppend),
    ([byte '>'], .stream), ([byte '|'], .pipe), ([byte '&'], .background), ([byte '='], .equal),
    ([byte '\n'], .newline)]

def parseOperand (code : List UInt8) : Option (Token × List UInt8) :=
  (operands.find? fun operand => operand.1.isPrefixOf code).map fun operand =>
    (⟨operand.2, operand.1⟩, code.drop operand.1.length)

def isBlank (c : UInt8) : Bool := c == byte ' ' || c == byte '\t' || c == byte '\r'

theorem splitDelim_length (s : List UInt8) (delim : UInt8) :
    (splitDelim s delim).2.length ≤ s.length := by
  have dropped := (List.dropWhile_suffix (p := (· ≠ delim)) (l := s)).length_le
  rw [splitDelim, List.length_tail]
  omega

/-- `skip_whitespace_and_comment` -/
def skipWhitespaceAndComment (s : List UInt8) : List UInt8 :=
  match _skipped : s.dropWhile isBlank with
  | [] => []
  | c :: rest =>
    if c = byte '#' then skipWhitespaceAndComment (splitDelim rest (byte '\n')).2 else c :: rest
termination_by s.length
decreasing_by
  have dropped := (List.dropWhile_suffix (p := isBlank) (l := s)).length_le
  have split := splitDelim_length rest (byte '\n')
  rw [_skipped, List.length_cons] at dropped
  omega

/-- The loop of `lex`, with `fuel` turns at most. -/
def lexLoop : (fuel : Nat) → (code : List UInt8) → Except Failure (List Token)
  | 0, _ => .error .diverges
  | fuel + 1, code =>
    match skipWhitespaceAndComment code with
    | [] => .ok []
    | c :: rest =>
      match (parseChars (c :: rest)).or (parseOperand (c :: rest)) with
      | none => .error .unknownToken
      | some (token, code) => (lexLoop fuel code).map (token :: ·)

def lex (code : List UInt8) : Except Failure (List Token) := lexLoop (code.length + 1) code

/-! ## The parser -/

/-- The fields of an `AST_COMMAND` but for `pipe_rhs`. -/
structure Stage where
  string : List UInt8 := []
  children : List (List UInt8) := []
  fileOut : List UInt8 := []
  fileOutAppend : Bool := false
  shouldBackground : Bool := false
deriving DecidableEq

/-- `struct AST`. A command is followed along `pipe_rhs`. -/
inductive Node where
  | command (first : Stage) (pipeRhs : List Stage)
  | set (name value : List UInt8)
  | conditionalAnd
  | conditionalNot
deriving DecidableEq

/-- `parse_set` -/
def parseSet : List Token → Option (Node × List Token)
  | ⟨.chars, word⟩ :: ⟨.chars, name⟩ :: ⟨.equal, _⟩ :: ⟨.chars, value⟩ :: ⟨.newline, _⟩ :: rest =>
    if word = "export".toList.map byte then some (.set name value, rest) else none
  | _ => none

def isChars (token : Token) : Bool := token.type = .chars

/-- `prog > file.txt`. The token behind the `>` is not looked at. -/
def parseStream (stage : Stage) : List Token → Except Failure (Stage × List Token)
  | token :: rest =>
    if token.type = .stream ∨ token.type = .streamAppend then
      match rest with
      | [] => .error .missingToken
      | file :: rest =>
        .ok ({ stage with
          fileOut := file.stringRep, fileOutAppend := token.type = .streamAppend }, rest)
    else .ok (stage, token :: rest)
  | [] => .ok (stage, [])

def parseBackground (stage : Stage) : List Token → Stage × List Token
  | ⟨.background, _⟩ :: rest => ({ stage with shouldBackground := true }, rest)
  | rest => (stage, rest)

/-- The part of `parse_command` before the pipe, behind the name of the program. -/
def parseStage (program : List UInt8) (rest : List Token) : Except Failure (Stage × List Token) :=
  (parseStream { string := program, children := (rest.takeWhile isChars).map Token.stringRep }
    (rest.dropWhile isChars)).map fun (stage, rest) => parseBackground stage rest

def skipNewline : List Token → List Token
  | ⟨.newline, _⟩ :: rest => rest
  | rest => rest

/-- `parse_command`, with the commands along the pipe. -/
def parseCommand : (fuel : Nat) → List Token →
    Except Failure (Option (Stage × List Stage × List Token))
  | 0, _ => .error .diverges
  | _ + 1, [] => .error .missingToken
  | fuel + 1, token :: rest =>
    if token.type ≠ .chars then .ok none
    else
      match parseStage token.stringRep rest with
      | .error failure => .error failure
      | .ok (stage, ⟨.pipe, _⟩ :: rest) =>
        match parseCommand fuel rest with
        | .error failure => .error failure
        | .ok none => .error .exits
        | .ok (some (next, more, rest)) => .ok (some (stage, next :: more, skipNewline rest))
      | .ok (stage, rest) => .ok (some (stage, [], skipNewline rest))

/-- A turn of the loop of `generate_ast`. A token that starts nothing leaves the node as
`allocate_ast` made it, which is a command without a name. -/
def parseNode (tokens : List Token) (token : Token) (rest : List Token) :
    Except Failure (Node × List Token) :=
  match parseSet tokens with
  | some (node, rest) => .ok (node, rest)
  | none =>
    match parseCommand tokens.length tokens with
    | .error failure => .error failure
    | .ok (some (stage, stages, rest)) => .ok (.command stage stages, rest)
    | .ok none =>
      match token.type with
      | .and => .ok (.conditionalAnd, rest)
      | .not => .ok (.conditionalNot, rest)
      | _ => .ok (.command {} [], rest)

def generateLoop : (fuel : Nat) → List Token → Except Failure (List Node)
  | _, [] => .ok []
  | 0, _ => .error .diverges
  | fuel + 1, token :: rest =>
    match parseNode (token :: rest) token rest with
    | .error failure => .error failure
    | .ok (node, rest) => (generateLoop fuel rest).map (node :: ·)

def generateAst (tokens : List Token) : Except Failure (List Node) :=
  generateLoop tokens.length tokens

/-- What is done with a script before anything is run. -/
def frontEnd (script : List UInt8) : Except Failure (List Node) := lex script >>= generateAst

/-! ## The evaluator -/

/-- The last status, what has been run, and whether the builtin `exit` has ended the shell. -/
structure Progress where
  rc : Int := -1
  ran : List Node := []
  ended : Bool := false

end SbOS.Shell
