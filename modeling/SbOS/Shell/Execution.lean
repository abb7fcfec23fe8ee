import SbOS.Shell.FrontEnd

/-! And-or lists. The evaluator of the shell is a flat loop over the nodes of a line; the meaning
of a list is that of the tree whose left side is the list without its last command. -/
namespace SbOS.Shell
open List

/-- A program with its arguments and the file that its output goes to, `true` for `>>`. -/
structure SimpleCommand where
  program : List UInt8
  arguments : List (List UInt8)
  redirection : Option (Bool × List UInt8)

def Token.word (text : List UInt8) : Token := ⟨.chars, text⟩

def SimpleCommand.redirectionTokens (c : SimpleCommand) : List Token :=
  match c.redirection with
  | none => []
  | some (false, file) => [⟨.stream, [byte '>']⟩, .word file]
  | some (true, file) => [⟨.streamAppend, [byte '>', byte '>']⟩, .word file]

/-- What is written behind the name of the program. -/
def SimpleCommand.behind (c : SimpleCommand) : List Token :=
  c.arguments.map Token.word ++ c.redirectionTokens

def SimpleCommand.stage (c : SimpleCommand) : Stage where
  string := c.program
  children := c.arguments
  fileOut := (c.redirection.map Prod.snd).getD []
  fileOutAppend := (c.redirection.map Prod.fst).getD false

/-- Simple commands with pipes between them. -/
structure Pipeline where
  first : SimpleCommand
  more : List SimpleCommand

def pipeTokens (commands : List SimpleCommand) : List Token :=
  commands.flatMap fun c => ⟨.pipe, [byte '|']⟩ :: .word c.program :: c.behind

def Pipeline.tokens (c : Pipeline) : List Token :=
  .word c.first.program :: (c.first.behind ++ pipeTokens c.more)

def Pipeline.node (c : Pipeline) : Node := .command c.first.stage (c.more.map (·.stage))

inductive Connective where
  | and | or

def Connective.token : Connective → Token
  | and => ⟨.and, [byte '&', byte '&']⟩
  | or => ⟨.not, [byte '|', byte '|']⟩

def Connective.node : Connective → Node
  | and => .conditionalAnd
  | or => .conditionalNot

/-- The right side of `&&` is run when the left side has succeeded, that of `||` when it has
failed. -/
def Connective.goesOn (rc : Int) : Connective → Bool
  | and => rc = 0
  | or => rc ≠ 0

/-- A list of pipelines with connectives between them. -/
inductive AndOr where
  | single (c : Pipeline)
  | more (left : AndOr) (op : Connective) (c : Pipeline)

namespace AndOr

def tokens : AndOr → List Token
  | single c => c.tokens
  | more left op c => left.tokens ++ op.token :: c.tokens

/-- The commands of a list in the order in which they are written. -/
def commands : AndOr → List Node
  | single c => [c.node]
  | more left _ c => left.commands ++ [c.node]

end AndOr

/-! ### The nodes of a line -/

namespace AndOr
variable {status : List Node → Node → Option Int}

def nodes : AndOr → List Node
  | single c => [c.node]
  | more left op c => left.nodes ++ [op.node, c.node]

end AndOr

/-- The token is read from its text alone, which leaves no string open. -/
def Token.plain (token : Token) : Bool :=
  match token.stringRep with
  | [] => false
  | c :: more => !isBlank c && c ≠ byte '#' && nextToken (c :: more) = some (token, []) &&
      Scan.start.run (c :: more) ≠ some .string

/-- A line with a blank in front of every token. -/
def written (tokens : List Token) : List UInt8 :=
  tokens.flatMap fun token => byte ' ' :: token.stringRep

end SbOS.Shell
