import SbOS.Shell.FrontEnd

/-! Comments and empty lines. A comment takes its newline with it, and a newline that does not end
a command becomes a command without a name: with enough empty lines, there are more nodes than
before. -/
namespace SbOS.Shell
open List

def newlines (count : Nat) : List Token := List.replicate count ⟨.newline, [byte '\n']⟩

theorem surplus_append (tokens rest : List Token) :
    surplus (tokens ++ rest) = surplus tokens + surplus rest := by
  induction tokens with
  | nil => exact (Int.zero_add _).symm
  | cons token tokens ih => rw [cons_append, surplus_cons, surplus_cons, ih, Int.add_assoc]

theorem surplus_newlines (count : Nat) : surplus (newlines count) = count := by
  induction count with
  | zero => rfl
  | succ count ih =>
    rw [newlines, replicate_succ, surplus_cons, ← newlines, ih, if_pos rfl, Int.natCast_succ,
      Int.add_comm]

/-! ### Edits of a script -/

/-- An edit that is to leave the nodes of a script: a comment behind a blank at the end of a line,
or empty lines behind a line. A line does not end inside a string. -/
inductive Edit (script : List UInt8) : List UInt8 → Prop
  | comment (pre post text : List UInt8) (place : Scan) (line : script = pre ++ post)
      (ends : post = [] ∨ post.head? = some (byte '\n'))
      (scanned : Scan.start.run pre = some place) (outside : place ≠ .string)
      (single : byte '\n' ∉ text) : Edit script (pre ++ byte ' ' :: byte '#' :: (text ++ post))
  | emptyLines (pre post : List UInt8) (place : Scan) (line : script = pre ++ byte '\n' :: post)
      (scanned : Scan.start.run pre = some place) (outside : place ≠ .string) (count : Nat) :
      Edit script (pre ++ byte '\n' :: (List.replicate count (byte '\n') ++ post))

theorem lex_newlines (count : Nat) (post : List UInt8) :
    lex (replicate count (byte '\n') ++ post) = (lex post).map (newlines count ++ ·) := by
  induction count with
  | zero =>
    change lex post = _
    cases lex post <;> rfl
  | succ count ih =>
    have skipped : skipWhitespaceAndComment (byte '\n' :: (replicate count (byte '\n') ++ post)) =
        byte '\n' :: (replicate count (byte '\n') ++ post) := skip_eq _
    have token (rest : List UInt8) :
        nextToken (byte '\n' :: rest) = some (⟨.newline, [byte '\n']⟩, rest) := by
      rfl
    rw [replicate_succ, cons_append, lex_eq, lexTurn, skipped]
    dsimp only
    rw [token]
    dsimp only
    rw [ih]
    cases lex post <;> rfl

/-- With empty lines behind a line, only the number of newlines depends on how many. -/
theorem lex_emptyLines (scanned : Scan.start.run pre = some place) (outside : place ≠ .string)
    (post : List UInt8) : ∃ tokens more, ∀ count,
      lex (pre ++ byte '\n' :: (replicate count (byte '\n') ++ post)) =
        (lex post).map fun after => tokens ++ (newlines (count + more) ++ after) := by
  have opens (count : Nat) : Opens (byte '\n' :: (replicate count (byte '\n') ++ post)) := by
    intro c head
    cases head
    exact .inr rfl
  obtain ⟨tokens, lexed, -⟩ := lex_append scanned outside (opens 0)
  have behind (count : Nat) := lex_append scanned outside (opens count)
  refine ⟨tokens, if place = .comment then 0 else 1, fun count => ?_⟩
  obtain ⟨tokens', lexed', same⟩ := behind count
  rw [lexed] at lexed'
  cases lexed'
  have resumed : lex (place.resume (byte '\n' :: (replicate count (byte '\n') ++ post))) =
      (lex post).map (newlines (count + if place = .comment then 0 else 1) ++ ·) := by
    cases place with
    | comment => exact lex_newlines count post
    | _ => exact lex_newlines (count + 1) post
  rw [same, resumed]
  cases lex post <;> rfl

theorem lex_comment (place : Scan) (single : byte '\n' ∉ text) :
    lex (place.resume (byte ' ' :: byte '#' :: text)) = .ok [] := by
  have whole {line : List UInt8} (single : byte '\n' ∉ line) :
      (splitDelim line (byte '\n')).2 = [] := by
    rw [← append_nil line, splitDelim_append_not single]
    rfl
  have skipped : skipWhitespaceAndComment (byte ' ' :: byte '#' :: text) = [] := by
    rw [skip_eq]
    change skipWhitespaceAndComment (splitDelim text (byte '\n')).2 = []
    rw [whole single, skip_eq]
    rfl
  have none : lex [] = .ok [] := by
    rw [lex_eq, lexTurn, skip_eq]
    rfl
  cases place with
  | comment =>
    change lex (splitDelim (byte ' ' :: byte '#' :: text) (byte '\n')).2 = _
    have alone : byte '\n' ∉ byte ' ' :: byte '#' :: text := by
      simp only [mem_cons, not_or]
      exact ⟨by decide, by decide, single⟩
    rw [whole alone, none]
  | _ =>
    change lex (byte ' ' :: byte '#' :: text) = _
    rw [lex_eq, lexTurn, skipped]

/-- The edits of a script leave its nodes exactly if it has no newline outside of strings. -/
theorem edits_harmless_iff (script : List UInt8) (nodes : List Node)
    (produced : frontEnd script = .ok nodes) :
    (∀ edited, Edit script edited → frontEnd edited = .ok nodes) ↔
      ∀ pre post, script = pre ++ byte '\n' :: post → Scan.start.run pre = some .string := by
  constructor
  · intro harmless pre post line
    by_contra inside
    have clean : CleanBytes script := (lex_returns_iff script).mp <| by
      unfold frontEnd at produced
      cases lexed : lex script with
      | error failure =>
        rw [lexed] at produced
        cases produced
      | ok tokens => exact ⟨tokens, rfl⟩
    rw [CleanBytes, line, Scan.run_append] at clean
    cases scanned : Scan.start.run pre with
    | none =>
      rw [scanned] at clean
      cases clean
    | some place =>
      have outside : place ≠ .string := fun same => inside (same ▸ scanned)
      obtain ⟨tokens, more, lexed⟩ := lex_emptyLines scanned outside post
      have same (count : Nat) := harmless _ (.emptyLines pre post place line scanned outside count)
      simp only [frontEnd, lexed] at same
      cases after : lex post with
      | error failure =>
        rw [after] at same
        cases same 0
      | ok after' =>
        simp only [after] at same
        have many := surplus_le_length
          (same (nodes.length + 1 + (surplus tokens).natAbs + (surplus after').natAbs))
        rw [surplus_append, surplus_append, surplus_newlines] at many
        omega
  · intro single edited edit
    cases edit with
    | comment pre post text place line ends scanned outside single' =>
      rcases ends with rfl | newline
      · rw [append_nil] at line
        subst line
        have nothing := lex_comment place single'
        have opens : Opens (byte ' ' :: byte '#' :: text) := by
          intro c head
          cases head
          exact .inl rfl
        obtain ⟨tokens, lexed, same⟩ := lex_append scanned outside opens
        rw [nothing] at same
        unfold frontEnd at produced ⊢
        rw [append_nil, same, ← produced, lexed]
        exact congrArg (· >>= generateAst) (congrArg Except.ok (append_nil tokens))
      · obtain ⟨rest, rfl⟩ := head?_eq_some_iff.mp newline
        have string := single pre rest line
        rw [scanned] at string
        exact absurd (Option.some.inj string) outside
    | emptyLines pre post place line scanned outside count =>
      have string := single pre post line
      rw [scanned] at string
      exact absurd (Option.some.inj string) outside

theorem edits_harmless_one_line :
    frontEnd ("a #b".toList.map byte) = .ok [.command { string := [byte 'a'] } []] := by
  have produced : frontEnd ("a".toList.map byte) = .ok [.command { string := [byte 'a'] } []] := by
    decide +kernel
  refine (edits_harmless_iff _ _ produced).mpr ?_ _ (.comment [byte 'a'] []
    [byte 'b'] .word rfl (.inl rfl) (by decide) Scan.noConfusion (by decide))
  intro pre post line
  have inside : byte '\n' ∈ "a".toList.map byte := by
    rw [line]
    simp
  exact absurd inside (by decide)

/-- Two lines. With a comment on the first they become one command, and with an empty line between
them there is a command without a name. -/
theorem comment_joins_lines :
    frontEnd ("a\nb".toList.map byte) =
        .ok [.command { string := [byte 'a'] } [], .command { string := [byte 'b'] } []] ∧
      (Edit ("a\nb".toList.map byte) ("a #c\nb".toList.map byte) ∧
        frontEnd ("a #c\nb".toList.map byte) =
          .ok [.command { string := [byte 'a'], children := [[byte 'b']] } []]) ∧
      Edit ("a\nb".toList.map byte) ("a\n\nb".toList.map byte) ∧
        frontEnd ("a\n\nb".toList.map byte) = .ok [.command { string := [byte 'a'] } [],
          .command {} [], .command { string := [byte 'b'] } []] := by
  refine ⟨by decide +kernel, ⟨?_, by decide +kernel⟩, ?_, by decide +kernel⟩
  · exact .comment [byte 'a'] [byte '\n', byte 'b'] [byte 'c'] .word rfl (.inr rfl) (by decide)
      Scan.noConfusion (by decide)
  · exact .emptyLines [byte 'a'] [byte 'b'] .word rfl (by decide) Scan.noConfusion 1

end SbOS.Shell
