import SbOS.Shell.Syntax
import Mathlib.Data.List.TakeWhile
import Mathlib.Data.Nat.Init

/-! For which scripts the front end of the shell returns, and what comments and empty lines do to
a script. The comment takes the newline with it, and a newline that ends no command becomes a
command without a name. -/
namespace SbOS.Shell
open List hiding after

/-! ## Scanning bytes -/

/-- What the lexer is in the middle of. -/
inductive Scan where
  | start | word | string | comment
deriving DecidableEq

/-- The special characters that are blanks or start an operator. -/
def passable : List UInt8 :=
  [' ', '\t', '\r', '\n', '>', '|', '&', '='].map byte

/-- The condition on the next byte: outside strings and comments it is a character of a word, a
blank or part of an operator. -/
def Scan.next : Scan → UInt8 → Option Scan
  | .comment, c => some (if c = byte '\n' then .start else .comment)
  | .string, c => some (if c = byte '"' then .start else .string)
  | place, c =>
    if isSpecialChar c then if c ∈ passable then some .start else none
    else if place = .word then some .word
    else some (if c = byte '#' then .comment else if c = byte '"' then .string else .word)

def Scan.run (place : Scan) (code : List UInt8) : Option Scan := code.foldlM Scan.next place

theorem Scan.run_cons (place : Scan) (c : UInt8) (code : List UInt8) :
    place.run (c :: code) = (place.next c).bind (·.run code) := rfl

theorem Scan.run_append (place : Scan) (first second : List UInt8) :
    place.run (first ++ second) = (place.run first).bind (·.run second) :=
  foldlM_append ..

theorem blank_special (blank : isBlank c = true) : isSpecialChar c = true ∧ c ∈ passable := by
  simp only [isBlank, Bool.or_eq_true, beq_iff_eq] at blank
  rcases blank with (rfl | rfl) | rfl <;> decide

theorem newline_special : isSpecialChar (byte '\n') = true := by decide

open Scan

/-- Blanks do not matter where a token can start. -/
theorem Scan.run_dropWhile (code : List UInt8) :
    start.run (code.dropWhile isBlank) = start.run code := by
  induction code with
  | nil => rfl
  | cons c code ih =>
    by_cases blank : isBlank c = true
    · rw [dropWhile_cons_of_pos blank, ih, run_cons, next, if_pos (blank_special blank).1,
        if_pos (blank_special blank).2]
      · rfl
      all_goals exact noConfusion
    · rw [dropWhile_cons_of_neg blank]

/-- Strings and comments go on to their delimiter. -/
theorem Scan.run_until
    (until' : ∀ c, place.next c = some (if c = delim then .start else place)) (code : List UInt8) :
    place.run code =
      if delim ∈ code then start.run (splitDelim code delim).2 else some place := by
  induction code with
  | nil => rfl
  | cons c code ih =>
    rw [run_cons, until', Option.bind_some]
    by_cases here : c = delim
    · rw [if_pos here, if_pos (here ▸ mem_cons_self), splitDelim,
        dropWhile_cons_of_neg (by simpa using here), tail_cons]
    · rw [if_neg here, ih, splitDelim, splitDelim, dropWhile_cons_of_pos (by simpa using here)]
      simp only [mem_cons, Ne.symm here, false_or]

theorem Scan.word_next (ordinary : isSpecialChar c = false) : word.next c = some .word := by
  rw [next, if_neg (by rw [ordinary]; exact Bool.noConfusion), if_pos rfl]
  all_goals exact noConfusion

theorem Scan.next_special (special : isSpecialChar c = true) :
    word.next c = start.next c := by
  simp only [next, special, if_true]

/-- Words go on to the next special character. -/
theorem Scan.run_word (code : List UInt8) :
    word.run code = if code.dropWhile (!isSpecialChar ·) = [] then some .word
      else start.run (code.dropWhile (!isSpecialChar ·)) := by
  induction code with
  | nil => rfl
  | cons c code ih =>
    cases special : isSpecialChar c with
    | true =>
      rw [dropWhile_cons_of_neg (by simp [special]), if_neg (cons_ne_nil _ _), run_cons,
        run_cons, next_special special]
    | false =>
      rw [dropWhile_cons_of_pos (by simp [special]), run_cons, word_next special,
        Option.bind_some, ih]

/-! ## What is skipped -/

/-- What the lexer goes on with in front of `rest`. -/
def Scan.resume : Scan → (rest : List UInt8) → List UInt8
  | .comment, rest => (splitDelim rest (byte '\n')).2
  | _, rest => rest

/-- Nothing, or a blank or a newline. -/
def Opens (rest : List UInt8) : Prop := ∀ c ∈ rest.head?, isBlank c = true ∨ c = byte '\n'

theorem splitDelim_append (inside : delim ∈ text) (rest : List UInt8) :
    splitDelim (text ++ rest) delim =
      ((splitDelim text delim).1, (splitDelim text delim).2 ++ rest) := by
  induction text with
  | nil => cases inside
  | cons c text ih =>
    by_cases here : c = delim
    · simp [splitDelim, here]
    · have later := ih ((mem_cons.mp inside).resolve_left (Ne.symm here))
      simpa [splitDelim, here] using later

theorem splitDelim_append_not (outside : delim ∉ text) (rest : List UInt8) :
    (splitDelim (text ++ rest) delim).2 = (splitDelim rest delim).2 := by
  have passed : ∀ c ∈ text, decide (c ≠ delim) = true := fun c member =>
    decide_eq_true fun same => outside (same ▸ member)
  rw [splitDelim, splitDelim, dropWhile_append_of_pos passed]

theorem skip_eq (s : List UInt8) : skipWhitespaceAndComment s =
    match s.dropWhile isBlank with
    | [] => []
    | c :: rest =>
      if c = byte '#' then skipWhitespaceAndComment (splitDelim rest (byte '\n')).2
      else c :: rest := by
  rw [skipWhitespaceAndComment]
  split <;> simp only [*]

/-- Where a token starts: not at a blank or at a comment. -/
def Starts (c : UInt8) : Prop := isBlank c = false ∧ c ≠ byte '#'

theorem until_newline (c : UInt8) :
    comment.next c = some (if c = byte '\n' then .start else .comment) := rfl

theorem Scan.start_comment : start.next (byte '#') = some .comment := by decide

theorem dropWhile_blank {s : List UInt8} (skipped : s.dropWhile isBlank = c :: more) :
    isBlank c = false ∧ more.length < s.length := by
  have dropped := (dropWhile_suffix (p := isBlank) (l := s)).length_le
  have first := head?_dropWhile_not isBlank s
  rw [skipped] at first dropped
  exact ⟨by simpa using first, dropped⟩

/-- Up to the first token the scan goes on, and what is skipped of a text is skipped of
everything that starts with it. -/
theorem skip_cases (s : List UInt8) :
    (∃ place, skipWhitespaceAndComment s = [] ∧ start.run s = some place ∧
      ∀ rest, skipWhitespaceAndComment (s ++ rest) =
        skipWhitespaceAndComment (place.resume rest)) ∨
    ∃ c more, skipWhitespaceAndComment s = c :: more ∧ Starts c ∧ more.length < s.length ∧
      start.run s = start.run (c :: more) ∧
      ∀ rest, skipWhitespaceAndComment (s ++ rest) = c :: more ++ rest := by
  induction length : s.length using Nat.strong_induction_on generalizing s with
  | _ n ih =>
    cases skipped : s.dropWhile isBlank with
    | nil =>
      have blanks (rest : List UInt8) : (s ++ rest).dropWhile isBlank = rest.dropWhile isBlank :=
        dropWhile_append_of_pos fun c member => dropWhile_eq_nil_iff.mp skipped c member
      refine .inl ⟨.start, by rw [skip_eq, skipped], ?_, fun rest => ?_⟩
      · rw [← run_dropWhile, skipped]
        rfl
      · rw [skip_eq, blanks, ← skip_eq]
        rfl
    | cons c more =>
      obtain ⟨first, shorter⟩ := dropWhile_blank skipped
      have both (rest : List UInt8) : (s ++ rest).dropWhile isBlank = c :: (more ++ rest) := by
        rw [dropWhile_append, skipped]
        rfl
      by_cases comment : c = byte '#'
      · have scan := run_dropWhile s
        rw [skipped, comment, run_cons, start_comment, Option.bind_some,
          run_until until_newline] at scan
        have behind (rest : List UInt8) : skipWhitespaceAndComment (s ++ rest) =
            skipWhitespaceAndComment (splitDelim (more ++ rest) (byte '\n')).2 := by
          rw [skip_eq, both]
          exact if_pos comment
        have alone := behind []
        rw [append_nil] at alone
        by_cases closed : byte '\n' ∈ more
        · have split := splitDelim_length more (byte '\n')
          rw [if_pos closed] at scan
          simp only [splitDelim_append closed] at behind alone
          rw [append_nil] at alone
          rcases ih _ (by omega) (splitDelim more (byte '\n')).2 rfl with
            ⟨place, nothing, ended, same⟩ | ⟨d, left, found, starts, less, goesOn, same⟩
          · exact .inl ⟨place, alone.trans nothing, scan.symm.trans ended,
              fun rest => (behind rest).trans (same rest)⟩
          · exact .inr ⟨d, left, alone.trans found, starts, by omega, scan.symm.trans goesOn,
              fun rest => (behind rest).trans (same rest)⟩
        · rw [if_neg closed] at scan
          simp only [splitDelim_append_not closed] at behind alone
          exact .inl ⟨.comment, alone.trans (by rw [skip_eq]; rfl), scan.symm, behind⟩
      · refine .inr ⟨c, more, ?_, ⟨first, comment⟩, length ▸ shorter, ?_, fun rest => ?_⟩
        · rw [skip_eq, skipped]
          exact if_neg comment
        · rw [← run_dropWhile, skipped]
        · rw [skip_eq, both]
          exact if_neg comment

/-! ## Tokens -/

/-- The operator of a character, and the one of two of it. -/
def single (c : UInt8) : Option TokenType :=
  if c = byte '>' then some .stream
  else if c = byte '|' then some .pipe
  else if c = byte '&' then some .background
  else if c = byte '=' then some .equal
  else if c = byte '\n' then some .newline
  else none

def double (c : UInt8) : Option TokenType :=
  if c = byte '&' then some .and
  else if c = byte '|' then some .not
  else if c = byte '>' then some .streamAppend
  else none

theorem parseOperand_cons (c : UInt8) (more : List UInt8) :
    parseOperand (c :: more) =
      match double c with
      | some type =>
        if more.head? = some c then some (⟨type, [c, c]⟩, more.tail)
        else (single c).map fun type => (⟨type, [c]⟩, more)
      | none => (single c).map fun type => (⟨type, [c]⟩, more) := by
  have find {p : List UInt8 × TokenType → Bool} (o : List UInt8 × TokenType) (os) :
      (o :: os).find? p = if p o then some o else os.find? p := by
    split <;> simp_all
  unfold double single
  cases more with
  | nil =>
    simp only [parseOperand, operands, find, isPrefixOf, head?_nil]
    grind
  | cons d more =>
    simp only [parseOperand, operands, find, isPrefixOf, head?_cons, tail_cons]
    grind

/-- The token at the start of a text. -/
def nextToken (code : List UInt8) : Option (Token × List UInt8) :=
  (parseChars code).or (parseOperand code)

theorem nextToken_quote (more : List UInt8) : nextToken (byte '"' :: more) =
    some (⟨.chars, (splitDelim more (byte '"')).1⟩, (splitDelim more (byte '"')).2) := rfl

theorem nextToken_word (ordinary : isSpecialChar c = false) (other : c ≠ byte '"')
    (more : List UInt8) : nextToken (c :: more) =
      some (⟨.chars, (c :: more).takeWhile (!isSpecialChar ·)⟩, more.dropWhile (!isSpecialChar ·)) := by
  simp [nextToken, parseChars, other, ordinary]

theorem nextToken_special (special : isSpecialChar c = true) (more : List UInt8) :
    nextToken (c :: more) = parseOperand (c :: more) := by
  have other : c ≠ byte '"' := by
    rintro rfl
    revert special
    decide
  simp [nextToken, parseChars, other, special]

theorem single_iff (first : isBlank c = false) : (single c).isSome = true ↔ c ∈ passable := by
  simp only [isBlank, Bool.or_eq_false_iff, beq_eq_false_iff_ne] at first
  simp only [passable, map_cons, map_nil, mem_cons, not_mem_nil, single]
  grind

/-- A character that makes an operator of two is one in itself, and nothing that is skipped. -/
theorem double_single (two : double c = some type) :
    c ∈ passable ∧ isBlank c = false ∧ c ≠ byte '\n' := by
  unfold double at two
  split at two
  · subst c; decide
  · split at two
    · subst c; decide
    · split at two
      · subst c; decide
      · cases two

theorem Scan.start_special (special : isSpecialChar c = true) (pass : c ∈ passable) :
    start.next c = some .start := by
  rw [next, if_pos special, if_pos pass]
  all_goals exact noConfusion

theorem takeWhile_opens (opens : Opens rest) (text : List UInt8) :
    (text ++ rest).takeWhile (!isSpecialChar ·) = text.takeWhile (!isSpecialChar ·) ∧
      (text ++ rest).dropWhile (!isSpecialChar ·) = text.dropWhile (!isSpecialChar ·) ++ rest := by
  induction text with
  | nil =>
    cases rest with
    | nil => exact ⟨rfl, rfl⟩
    | cons c rest =>
      have special : isSpecialChar c = true := by
        rcases opens c rfl with blank | rfl
        · exact (blank_special blank).1
        · exact newline_special
      simp [special]
  | cons c text ih =>
    cases special : isSpecialChar c with
    | true => simp [special]
    | false => simpa [special] using ih

/-- The token at the start of a text: there is one if the scan can go on, the scan goes on behind
it, and it is the same one in front of a blank or a newline. -/
theorem nextToken_cases (starts : Starts c) (more : List UInt8) :
    (nextToken (c :: more) = none ∧ start.run (c :: more) = none) ∨
    ∃ token left, nextToken (c :: more) = some (token, left) ∧ left.length ≤ more.length ∧
      (start.run (c :: more) = start.run left ∨ left = [] ∧
        (start.run (c :: more) = some .word ∨ start.run (c :: more) = some .string)) ∧
      (start.run (c :: more) ≠ some .string → ∀ rest, Opens rest →
        nextToken (c :: more ++ rest) = some (token, left ++ rest)) := by
  cases special : isSpecialChar c with
  | true =>
    rw [nextToken_special special, run_cons]
    by_cases pass : c ∈ passable
    · obtain ⟨one, isOne⟩ := Option.isSome_iff_exists.mp ((single_iff starts.1).mpr pass)
      rw [start_special special pass, Option.bind_some]
      by_cases twice : ∃ type left, double c = some type ∧ more = c :: left
      · obtain ⟨type, left, two, rfl⟩ := twice
        refine .inr ⟨⟨type, [c, c]⟩, left, ?_, Nat.le_succ _, .inl ?_, fun _ rest _ => ?_⟩
        · rw [parseOperand_cons, two]
          exact if_pos rfl
        · rw [run_cons, start_special special pass, Option.bind_some]
        · rw [cons_append, nextToken_special special, parseOperand_cons, two]
          exact if_pos rfl
      · -- what follows does not make an operator of two, also behind the end of the text
        have alone : ∀ rest, Opens rest → parseOperand (c :: (more ++ rest)) =
            some (⟨one, [c]⟩, more ++ rest) := by
          intro rest opens
          rw [parseOperand_cons, isOne]
          split
          · rename_i type two
            rw [if_neg, Option.map_some]
            intro again
            cases more with
            | nil =>
              rcases opens c again with blank | newline
              · rw [starts.1] at blank
                cases blank
              · exact (double_single two).2.2 newline
            | cons d left =>
              cases again
              exact twice ⟨type, left, two, rfl⟩
          · rfl
        have here := alone [] nofun
        rw [append_nil] at here
        refine .inr ⟨⟨one, [c]⟩, more, here, le_rfl, .inl rfl, fun _ rest opens => ?_⟩
        rw [cons_append, nextToken_special special, alone rest opens]
    · have none : parseOperand (c :: more) = none := by
        have unknown : single c = none := Option.not_isSome_iff_eq_none.mp fun some =>
          pass ((single_iff starts.1).mp some)
        rw [parseOperand_cons, unknown]
        split
        · rename_i two
          exact absurd (double_single two).1 pass
        · rfl
      refine .inl ⟨none, ?_⟩
      rw [Scan.next, if_pos special, if_neg pass]
      · rfl
      all_goals exact noConfusion
  | false =>
    have enters : start.next c = some (if c = byte '"' then .string else .word) := by
      rw [Scan.next, if_neg (by rw [special]; exact Bool.noConfusion), if_neg noConfusion,
        if_neg starts.2]
      all_goals exact noConfusion
    rw [run_cons, enters, Option.bind_some]
    by_cases quote : c = byte '"'
    · subst quote
      have until' : ∀ c, string.next c = some (if c = byte '"' then .start else .string) :=
        fun _ => rfl
      rw [if_pos rfl, run_until until', nextToken_quote]
      refine .inr ⟨_, _, rfl, splitDelim_length more _, ?_, fun closed rest _ => ?_⟩
      · by_cases inside : byte '"' ∈ more
        · rw [if_pos inside]
          exact .inl rfl
        · have ended := splitDelim_append_not inside []
          rw [append_nil] at ended
          rw [if_neg inside]
          exact .inr ⟨ended, .inr rfl⟩
      · have inside : byte '"' ∈ more := by
          by_contra outside
          rw [if_neg outside] at closed
          exact closed rfl
        rw [cons_append, nextToken_quote, splitDelim_append inside]
    · rw [if_neg quote, run_word, nextToken_word special quote]
      refine .inr ⟨_, _, rfl, (dropWhile_suffix _).length_le, ?_, fun _ rest opens => ?_⟩
      · split
        · rename_i ended
          exact .inr ⟨ended, .inl rfl⟩
        · exact .inl rfl
      · rw [cons_append, nextToken_word special quote, (takeWhile_opens opens more).2,
          ← cons_append, (takeWhile_opens opens (c :: more)).1]

/-! ## The lexer -/

/-- One token, and what `later` makes of the rest. -/
def lexTurn (later : List UInt8 → Except Failure (List Token)) (code : List UInt8) :
    Except Failure (List Token) :=
  match skipWhitespaceAndComment code with
  | [] => .ok []
  | c :: more =>
    match nextToken (c :: more) with
    | none => .error .unknownToken
    | some (token, left) => (later left).map (token :: ·)

theorem lexTurn_congr (same : ∀ left, left.length < code.length → later left = later' left) :
    lexTurn later code = lexTurn later' code := by
  unfold lexTurn
  rcases skip_cases code with ⟨-, nothing, -⟩ | ⟨c, more, skipped, starts, shorter, -⟩
  · rw [nothing]
  · rw [skipped]
    dsimp only
    rcases nextToken_cases starts more with ⟨none, -⟩ | ⟨token, left, found, fits, -⟩
    · rw [none]
    · rw [found]
      dsimp only
      rw [same left (by omega)]

/-- More turns than bytes are enough. -/
theorem lexLoop_enough (enough : code.length < fuel) : lexLoop fuel code = lex code := by
  induction length : code.length using Nat.strong_induction_on generalizing code fuel with
  | _ n ih =>
    obtain ⟨fuel, rfl⟩ := Nat.exists_eq_succ_of_ne_zero (Nat.ne_zero_of_lt enough)
    refine lexTurn_congr fun left shorter => ?_
    rw [ih left.length (by omega) (by omega) rfl, ih left.length (by omega) shorter rfl]

theorem lex_eq (code : List UInt8) : lex code = lexTurn lex code :=
  lexTurn_congr fun _ shorter => lexLoop_enough shorter

/-- Every byte outside strings and comments is a character of a word, a blank or part of an
operator. -/
def CleanBytes (script : List UInt8) : Prop := (Scan.start.run script).isSome = true

theorem lex_returns_iff (script : List UInt8) :
    (∃ tokens, lex script = .ok tokens) ↔ CleanBytes script := by
  unfold CleanBytes
  induction length : script.length using Nat.strong_induction_on generalizing script with
  | _ n ih =>
    rw [lex_eq, lexTurn]
    rcases skip_cases script with ⟨place, nothing, scans, -⟩ |
      ⟨c, more, skipped, starts, shorter, scans, -⟩
    · rw [nothing, scans]
      exact iff_of_true ⟨_, rfl⟩ rfl
    · rw [skipped, scans]
      dsimp only
      rcases nextToken_cases starts more with ⟨none, stuck⟩ | ⟨token, left, found, fits, behind, -⟩
      · rw [none, stuck]
        exact iff_of_false nofun Bool.noConfusion
      · have goesOn : (start.run (c :: more)).isSome = (start.run left).isSome := by
          rcases behind with same | ⟨rfl, word | string⟩
          · rw [same]
          · rw [word]; rfl
          · rw [string]; rfl
        rw [found, goesOn, ← ih left.length (by omega) left rfl]
        dsimp only
        cases lex left with
        | error failure => exact iff_of_false nofun nofun
        | ok tokens => exact iff_of_true ⟨_, rfl⟩ ⟨_, rfl⟩

/-- The tokens of a text, in front of a blank or a newline, do not depend on what follows. -/
theorem lex_append (scanned : start.run text = some place) (outside : place ≠ .string)
    (opens : Opens rest) : ∃ tokens, lex text = .ok tokens ∧
      lex (text ++ rest) = (lex (place.resume rest)).map (tokens ++ ·) := by
  induction length : text.length using Nat.strong_induction_on generalizing text place with
  | _ n ih =>
    rcases skip_cases text with ⟨place', nothing, scans, same⟩ |
      ⟨c, more, skipped, starts, shorter, scans, both⟩
    · obtain rfl : place' = place := Option.some.inj (scans.symm.trans scanned)
      refine ⟨[], by rw [lex_eq, lexTurn, nothing], ?_⟩
      rw [lex_eq, lexTurn, same, ← lexTurn, ← lex_eq]
      cases lex (place'.resume rest) with
      | error failure => rfl
      | ok tokens => rfl
    · have go := scans.symm.trans scanned
      rw [lex_eq, lex_eq (text ++ rest), lexTurn, lexTurn, skipped, both]
      dsimp only [cons_append]
      rcases nextToken_cases starts more with ⟨-, stuck⟩ | ⟨token, left, found, fits, behind, more'⟩
      · rw [stuck] at go
        cases go
      · rw [found, ← cons_append,
          more' (by rw [go]; exact fun same => outside (Option.some.inj same)) rest opens]
        dsimp only
        -- a word that ends with the text is as good as a text that has ended before
        obtain ⟨place', scanned', outside', same⟩ : ∃ place', start.run left = some place' ∧
            place' ≠ .string ∧ place'.resume rest = place.resume rest := by
          rcases behind with same | ⟨rfl, word | string⟩
          · exact ⟨place, same.symm.trans go, outside, rfl⟩
          · rw [go] at word
            cases word
            exact ⟨.start, rfl, noConfusion, rfl⟩
          · rw [go] at string
            exact absurd (Option.some.inj string) outside
        obtain ⟨tokens, lexed, appended⟩ := ih left.length (by omega) scanned' outside' rfl
        refine ⟨token :: tokens, by rw [lexed]; rfl, ?_⟩
        rw [appended, same]
        cases lex (place.resume rest) with
        | error failure => rfl
        | ok tokens => rfl

/-! ## Scanning tokens -/

/-- What the parser has just read. -/
inductive Place where
  /-- Nothing that goes on. -/
  | between
  | words
  /-- A `>` or `>>` behind a command. -/
  | target
  | targeted
  | backgrounded
  | piped

/-- The condition on the next token: a `|` behind a command is followed by a word. -/
def Place.next : Place → TokenType → Option Place
  | .piped, type => if type = .chars then some .words else none
  | .target, _ => some .targeted
  | _, .chars => some .words
  | .words, .stream | .words, .streamAppend => some .target
  | .words, .background | .targeted, .background => some .backgrounded
  | .words, .pipe | .targeted, .pipe | .backgrounded, .pipe => some .piped
  | _, _ => some .between

/-- Every `>` behind a command is followed by a token, and every `|` by a word. -/
def Place.complete : Place → List Token → Bool
  | .target, [] | .piped, [] => false
  | _, [] => true
  | place, token :: rest =>
    match place.next token.type with
    | none => false
    | some place => place.complete rest

variable {place place' : Place} {rest : List Token}

/-- How many more newlines than other tokens there are. -/
def surplus (tokens : List Token) : Int :=
  tokens.foldr (fun token rest => (if token.type = .newline then 1 else -1) + rest) 0

theorem surplus_cons (token : Token) (rest : List Token) :
    surplus (token :: rest) = (if token.type = .newline then 1 else -1) + surplus rest := rfl

theorem surplus_le (token : Token) (rest : List Token) :
    surplus (token :: rest) ≤ 1 + surplus rest := by
  rw [surplus_cons]
  split <;> omega

theorem surplus_lt (other : token.type ≠ .newline) (rest : List Token) :
    surplus (token :: rest) = surplus rest - 1 := by
  rw [surplus_cons, if_neg other]
  omega

open Place

theorem complete_cons (step : place.next token.type = some place') (rest : List Token) :
    place.complete (token :: rest) = place'.complete rest := by
  cases place <;> simp only [Place.complete, step]

/-- Behind the `&` only a `|` goes on with the command. -/
theorem parseBackground_complete (place : Place) (stage : Stage) (rest : List Token)
    (command : place = .words ∨ place = .targeted)
    (ends : place = .words → ∀ token ∈ rest.head?,
      token.type ∉ [.chars, .stream, .streamAppend]) :
    place.complete rest = backgrounded.complete (parseBackground stage rest).2 ∧
      (parseBackground stage rest).2.length ≤ rest.length ∧
      surplus rest ≤ surplus (parseBackground stage rest).2 := by
  cases rest with
  | nil => rcases command with rfl | rfl <;> exact ⟨rfl, le_rfl, Int.le_refl _⟩
  | cons token rest =>
    obtain ⟨type, string⟩ := token
    have fewer : surplus (⟨.background, string⟩ :: rest) ≤ surplus rest := by
      rw [surplus_lt TokenType.noConfusion]
      omega
    rcases command with rfl | rfl <;> cases type <;>
      simp_all [Place.complete, Place.next, parseBackground]

theorem words_complete (rest : List Token) :
    Place.words.complete rest = Place.words.complete (rest.dropWhile isChars) ∧
      surplus rest ≤ surplus (rest.dropWhile isChars) := by
  induction rest with
  | nil => exact ⟨rfl, Int.le_refl _⟩
  | cons token rest ih =>
    by_cases word : isChars token = true
    · have type : token.type = .chars := of_decide_eq_true word
      rw [dropWhile_cons_of_pos word, surplus_lt (by rw [type]; exact TokenType.noConfusion),
        complete_cons (show Place.words.next token.type = some .words by rw [type]; rfl)]
      exact ⟨ih.1, by omega⟩
    · rw [dropWhile_cons_of_neg word]
      exact ⟨rfl, Int.le_refl _⟩

/-- A command up to its pipe. -/
theorem parseStage_cases (program : List UInt8) (rest : List Token) :
    (∃ failure, parseStage program rest = .error failure ∧ Place.words.complete rest = false) ∨
    ∃ stage left, parseStage program rest = .ok (stage, left) ∧ left.length ≤ rest.length ∧
      Place.words.complete rest = backgrounded.complete left ∧
      surplus rest ≤ surplus left := by
  have dropped := (dropWhile_suffix (p := isChars) (l := rest)).length_le
  have first := head?_dropWhile_not isChars rest
  obtain ⟨words, fewer⟩ := words_complete rest
  rw [words, parseStage]
  cases behind : rest.dropWhile isChars with
  | nil =>
    rw [behind] at fewer
    exact .inr ⟨_, [], rfl, Nat.zero_le _, rfl, fewer⟩
  | cons token left =>
    rw [behind] at first dropped fewer
    have word : token.type ≠ .chars := of_decide_eq_false first
    by_cases redirects : token.type = .stream ∨ token.type = .streamAppend
    · have step : Place.words.next token.type = some .target := by
        rcases redirects with type | type <;> rw [type] <;> rfl
      rw [complete_cons step]
      unfold parseStream
      dsimp only
      rw [if_pos redirects]
      cases left with
      | nil => exact .inl ⟨_, rfl, rfl⟩
      | cons file left =>
        obtain ⟨same, shorter, fewer'⟩ := parseBackground_complete .targeted _ left (.inr rfl)
          noConfusion
        have operator : token.type ≠ .newline := by
          rcases redirects with type | type <;> rw [type] <;> exact TokenType.noConfusion
        have target := surplus_le file left
        rw [surplus_lt operator] at fewer
        simp only [length_cons] at dropped
        exact .inr ⟨_, _, rfl, shorter.trans (by omega), (complete_cons rfl left).trans same,
          Int.le_trans (by omega) fewer'⟩
    · unfold parseStream
      dsimp only
      rw [if_neg redirects]
      obtain ⟨same, shorter, fewer'⟩ := parseBackground_complete .words _ (token :: left) (.inl rfl)
        fun _ t head => by cases head; simp [word, redirects]
      exact .inr ⟨_, _, rfl, shorter.trans dropped, same, Int.le_trans fewer fewer'⟩

theorem skipNewline_length (rest : List Token) : (skipNewline rest).length ≤ rest.length := by
  unfold skipNewline
  split <;> simp

theorem surplus_skipNewline (rest : List Token) : surplus rest ≤ 1 + surplus (skipNewline rest) := by
  unfold skipNewline
  split
  · exact surplus_le _ _
  · omega

theorem skipNewline_complete (rest : List Token) :
    between.complete (skipNewline rest) = between.complete rest := by
  unfold skipNewline
  split <;> rfl

theorem backgrounded_complete (last : ∀ token ∈ rest.head?, token.type ≠ .pipe) :
    backgrounded.complete rest = between.complete (skipNewline rest) := by
  cases rest with
  | nil => rfl
  | cons token rest =>
    obtain ⟨type, string⟩ := token
    have other := last _ rfl
    cases type <;> first | rfl | exact absurd rfl other

/-- A command with its pipes. -/
theorem parseCommand_cases (word : token.type = .chars) (enough : rest.length < fuel) :
    (∃ failure, parseCommand fuel (token :: rest) = .error failure ∧
      Place.words.complete rest = false) ∨
    ∃ stage stages left, parseCommand fuel (token :: rest) = .ok (some (stage, stages, left)) ∧
      left.length ≤ rest.length ∧ Place.words.complete rest = between.complete left ∧
      surplus rest ≤ 1 + surplus left := by
  induction fuel generalizing token rest with
  | zero => cases enough
  | succ fuel ih =>
    unfold parseCommand
    rw [if_neg (not_not.mpr word)]
    rcases parseStage_cases token.stringRep rest with ⟨failure, failed, stuck⟩ |
      ⟨stage, left, parsed, shorter, same, fewer⟩
    · rw [failed]
      exact .inl ⟨failure, rfl, stuck⟩
    rw [parsed, same]
    by_cases pipes : ∃ string more, left = ⟨.pipe, string⟩ :: more
    · obtain ⟨string, more, rfl⟩ := pipes
      rw [complete_cons (rfl : backgrounded.next .pipe = some .piped)]
      dsimp only
      cases more with
      | nil =>
        cases fuel with
        | zero => exact .inl ⟨_, rfl, rfl⟩
        | succ fuel => exact .inl ⟨_, rfl, rfl⟩
      | cons next more =>
        simp only [length_cons] at shorter
        by_cases command : next.type = .chars
        · rw [complete_cons (show Place.piped.next next.type = some .words by rw [command]; rfl)]
          rcases ih command (by omega : more.length < fuel) with ⟨failure, failed, stuck⟩ |
            ⟨stage', stages, left, parsed, shorter', same, fewer'⟩
          · rw [failed]
            exact .inl ⟨failure, rfl, stuck⟩
          · rw [parsed, same, ← skipNewline_complete]
            have := skipNewline_length left
            have := surplus_skipNewline left
            rw [surplus_lt TokenType.noConfusion,
              surplus_lt (by rw [command]; exact TokenType.noConfusion)] at fewer
            exact .inr ⟨_, _, _, rfl, by omega, rfl, by omega⟩
        · have stuck : Place.piped.complete (next :: more) = false := by
            simp [Place.complete, Place.next, command]
          have refused : parseCommand fuel (next :: more) = .ok none := by
            obtain ⟨fuel, rfl⟩ := Nat.exists_eq_succ_of_ne_zero (by omega : fuel ≠ 0)
            unfold parseCommand
            rw [if_pos command]
          rw [refused, stuck]
          exact .inl ⟨_, rfl, rfl⟩
    · have last : ∀ token ∈ left.head?, token.type ≠ .pipe := by
        intro token head type
        cases left with
        | nil => cases head
        | cons first more =>
          cases head
          exact pipes ⟨token.stringRep, more, by rw [← type]⟩
      refine .inr ⟨stage, [], skipNewline left, ?_, ?_, backgrounded_complete last, ?_⟩
      · split
        · cases ‹_ = _›
        · rename_i equal
          cases equal
          exact absurd ⟨_, _, rfl⟩ pipes
        · rename_i equal
          cases equal
          rfl
      · exact (skipNewline_length left).trans shorter
      · exact Int.le_trans fewer (surplus_skipNewline left)

theorem parseSet_complete (parsed : parseSet tokens = some (node, left)) :
    left.length + 5 = tokens.length ∧
      between.complete tokens = between.complete left ∧
      surplus tokens ≤ surplus left := by
  unfold parseSet at parsed
  split at parsed
  · split at parsed
    · cases parsed
      exact ⟨rfl, rfl, by simp only [surplus_cons]; simp; omega⟩
    · cases parsed
  · cases parsed

theorem parseNode_cases (token : Token) (rest : List Token) :
    (∃ failure, parseNode (token :: rest) token rest = .error failure ∧
      between.complete (token :: rest) = false) ∨
    ∃ node left, parseNode (token :: rest) token rest = .ok (node, left) ∧
      left.length ≤ rest.length ∧
      between.complete (token :: rest) = between.complete left ∧
      surplus (token :: rest) ≤ 1 + surplus left := by
  unfold parseNode
  cases set : parseSet (token :: rest) with
  | some parsed =>
    obtain ⟨node, left⟩ := parsed
    obtain ⟨shorter, same, fewer⟩ := parseSet_complete set
    exact .inr ⟨node, left, rfl, by rw [length_cons] at shorter; omega, same, by omega⟩
  | none =>
    by_cases word : token.type = .chars
    · rw [complete_cons (show between.next token.type = some .words by rw [word]; rfl)]
      rcases parseCommand_cases word (Nat.lt_succ_self rest.length) with ⟨failure, failed, stuck⟩ |
        ⟨stage, stages, left, parsed, shorter, same, fewer⟩
      · rw [length_cons, failed]
        exact .inl ⟨failure, rfl, stuck⟩
      · rw [length_cons, parsed, surplus_lt (by rw [word]; exact TokenType.noConfusion)]
        exact .inr ⟨_, left, rfl, shorter, same, by omega⟩
    · have refused : parseCommand (token :: rest).length (token :: rest) = .ok none := by
        rw [length_cons, parseCommand, if_pos word]
      obtain ⟨type, string⟩ := token
      cases type <;> first | exact absurd rfl word |
        exact .inr ⟨_, rest, rfl, le_rfl, rfl, surplus_le _ _⟩

theorem generateLoop_returns_iff (enough : tokens.length ≤ fuel) :
    (∃ nodes, generateLoop fuel tokens = .ok nodes) ↔ between.complete tokens = true := by
  induction fuel generalizing tokens with
  | zero =>
    rw [eq_nil_of_length_eq_zero (Nat.le_zero.mp enough)]
    exact iff_of_true ⟨[], rfl⟩ rfl
  | succ fuel ih =>
    cases tokens with
    | nil => exact iff_of_true ⟨[], rfl⟩ rfl
    | cons token rest =>
      rw [length_cons] at enough
      unfold generateLoop
      rcases parseNode_cases token rest with ⟨failure, failed, stuck⟩ |
        ⟨node, left, parsed, shorter, same, -⟩
      · rw [failed, stuck]
        exact iff_of_false nofun Bool.noConfusion
      · rw [parsed, same, ← ih (by omega : left.length ≤ fuel)]
        dsimp only
        cases generateLoop fuel left with
        | error failure =>
          exact iff_of_false nofun nofun
        | ok nodes => exact iff_of_true ⟨_, rfl⟩ ⟨_, rfl⟩

/-- Of the newlines that outnumber the other tokens every one makes a node. -/
theorem surplus_le_length (produced : generateLoop fuel tokens = .ok nodes) :
    surplus tokens ≤ nodes.length := by
  induction fuel generalizing tokens nodes with
  | zero =>
    cases tokens with
    | nil => exact Int.natCast_nonneg _
    | cons token rest => cases produced
  | succ fuel ih =>
    cases tokens with
    | nil => exact Int.natCast_nonneg _
    | cons token rest =>
      unfold generateLoop at produced
      rcases parseNode_cases token rest with ⟨failure, failed, -⟩ | ⟨node, left, parsed, -, -, fewer⟩
      · rw [failed] at produced
        cases produced
      · rw [parsed] at produced
        dsimp only at produced
        cases later : generateLoop fuel left with
        | error failure =>
          rw [later] at produced
          cases produced
        | ok nodes' =>
          rw [later] at produced
          cases produced
          have more := ih later
          rw [length_cons, Int.natCast_succ]
          omega

/-- The condition on a script: its bytes are clean, and its tokens complete. -/
def Acceptable (script : List UInt8) : Prop :=
  CleanBytes script ∧ ∀ tokens, lex script = .ok tokens → Place.between.complete tokens = true

/-- The front end returns for the acceptable scripts and for no others. -/
theorem front_end_returns_iff (script : List UInt8) :
    (∃ nodes, frontEnd script = .ok nodes) ↔ Acceptable script := by
  unfold Acceptable frontEnd
  rw [← lex_returns_iff]
  cases lexed : lex script with
  | error failure =>
    exact iff_of_false nofun nofun
  | ok tokens =>
    refine (generateLoop_returns_iff (Nat.le_refl tokens.length)).trans ⟨fun complete => ?_, ?_⟩
    · refine ⟨⟨tokens, rfl⟩, fun other same => ?_⟩
      cases same
      exact complete
    · exact fun acceptable => acceptable.2 tokens rfl

/-- A pipe without a command behind it. -/
theorem missing_command_behind_pipe :
    frontEnd ("a |".toList.map byte) = .error .missingToken ∧
      ¬ ∃ nodes, frontEnd ("a |".toList.map byte) = .ok nodes := by
  have failed : frontEnd ("a |".toList.map byte) = .error .missingToken := by decide +kernel
  refine ⟨failed, fun ⟨nodes, returned⟩ => ?_⟩
  rw [failed] at returned
  cases returned

end SbOS.Shell
