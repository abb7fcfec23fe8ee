import SbOS.Kernel.Print

/-! What the formatter does with a part of a format depends on neither the arguments behind those
of the part nor on the output before it. Hence formats can be put together, except for what one
conversion leaves behind for the next. -/
namespace SbOS.Kernel.Print
open List hiding count after

/-- The count for the return value is right so far. -/
def Counted (f : Formatter) : Prop := f.rc = f.out.length ∧ f.rc < 2 ^ 31

/-- The same formatter with output before it and arguments behind it. -/
def Formatter.around (f : Formatter) (before : List UInt8) (behind : List Arg) : Formatter :=
  { f with args := f.args ++ behind, out := before ++ f.out, rc := before.length + f.rc }

/-- A part of the formatter that counts what it writes, and that runs as well with output before it
and arguments behind it, as long as the count fits an `int`. -/
def Framed (part : FormatM α) : Prop :=
  ∀ f a f', part f = .ok (a, f') → Counted f → Counted f' ∧ f.out.length ≤ f'.out.length ∧
    ∀ before behind, before.length + f'.out.length < 2 ^ 31 →
      part (f.around before behind) = .ok (a, f'.around before behind)

variable {part : FormatM α} {next : α → FormatM β} {value : Except Stop α}

theorem of_bind (returned : (part >>= next) f = .ok (b, f')) :
    ∃ a g, part f = .ok (a, g) ∧ next a g = .ok (b, f') := by
  obtain ⟨⟨a, g⟩, first, second⟩ := of_ok_then returned
  exact ⟨a, g, first, second⟩

theorem bind_ok (returned : part f = .ok (a, g)) (next : α → FormatM β) :
    (part >>= next) f = next a g := by
  change (part f >>= _) = _
  rw [returned]
  rfl

theorem lift_ok (returned : value = .ok a) (f : Formatter) :
    (liftM value : FormatM α) f = .ok (a, f) := by
  rw [returned]
  rfl

theorem of_lift (returned : (liftM value : FormatM α) f = .ok (a, f')) :
    value = .ok a ∧ f' = f := by
  cases value with
  | error stop => cases returned
  | ok b =>
    cases returned
    exact ⟨rfl, rfl⟩

theorem of_check [Decidable condition] (returned : check condition = .ok u) :
    condition := by
  by_contra fails
  rw [check, if_neg fails] at returned
  cases returned

namespace Framed

theorem bind (first : Framed part)
    (second : ∀ a, Framed (next a)) : Framed (part >>= next) := by
  intro f b f' returned counted
  obtain ⟨a, g, one, two⟩ := of_bind returned
  obtain ⟨counted, longer, around⟩ := first f a g one counted
  obtain ⟨counted', longer', around'⟩ := second a g b f' two counted
  refine ⟨counted', longer.trans longer', fun before behind small => ?_⟩
  rw [bind_ok (around before behind (by omega))]
  exact around' before behind small

theorem pure (a : α) : Framed (Pure.pure a) := by
  intro f b f' returned counted
  cases returned
  exact ⟨counted, le_refl _, fun _ _ _ => rfl⟩

/-- A computation that does not look at the formatter. -/
theorem lift_bind (framed : ∀ a, value = .ok a → Framed (next a)) :
    Framed ((liftM value : FormatM α) >>= next) := by
  intro f b f' returned counted
  cases value with
  | error stop => cases returned
  | ok a => exact framed a rfl f b f' returned counted

theorem lift (value : Except Stop α) : Framed (liftM value : FormatM α) := by
  intro f b f' returned counted
  cases value with
  | error stop => cases returned
  | ok a =>
    cases returned
    exact ⟨counted, le_refl _, fun _ _ _ => rfl⟩

theorem getSpec : Framed getSpec := by
  intro f b f' returned counted
  cases returned
  exact ⟨counted, le_refl _, fun _ _ _ => rfl⟩

theorem setSpec (spec : Spec) : Framed (setSpec spec) := by
  intro f b f' returned counted
  cases returned
  exact ⟨counted, le_refl _, fun _ _ _ => rfl⟩

theorem finish (spec : Spec) : Framed (finish spec) := setSpec _

theorem emit (count : written.2 = written.1.length) :
    Framed (emit written) := by
  intro f b f' returned counted
  unfold Counted at *
  obtain ⟨rc, fits, rest⟩ := of_ok_then returned
  cases rest
  unfold signed at fits
  split at fits
  · next range =>
    cases fits
    refine ⟨⟨?_, range.2⟩, ?_, fun before behind small => ?_⟩
    · rw [length_append, Nat.cast_add, counted.1, count]
    · rw [length_append]
      exact Nat.le_add_right ..
    · rw [length_append] at small
      unfold Print.emit signed Formatter.around
      dsimp only
      rw [if_pos (by omega), ok_then, append_assoc, add_assoc]
      rfl
  · cases fits

theorem vaArgWord : Framed vaArgWord := by
  intro f b f' returned counted
  unfold Print.vaArgWord at returned ⊢
  split at returned
  · next value args found =>
    cases returned
    refine ⟨counted, le_refl _, fun before behind small => ?_⟩
    unfold Formatter.around
    rw [found]
    rfl
  · cases returned
  · cases returned

theorem vaArgString : Framed vaArgString := by
  intro f b f' returned counted
  unfold Print.vaArgString at returned ⊢
  split at returned
  · next value args found =>
    cases returned
    refine ⟨counted, le_refl _, fun before behind small => ?_⟩
    unfold Formatter.around
    rw [found]
    rfl
  · cases returned
  · cases returned

theorem vaArgInt : Framed vaArgInt := vaArgWord.bind fun _ => pure _

theorem vaArgLongLong : Framed vaArgLongLong :=
  vaArgWord.bind fun _ => vaArgWord.bind fun _ => pure _

theorem vaArgSigned (longLevel : Nat) : Framed (vaArgSigned longLevel) := by
  unfold Print.vaArgSigned
  split
  · exact vaArgLongLong
  · split
    · exact vaArgLongLong
    · exact vaArgInt

theorem vaArgPrecision (precision : Int) : Framed (vaArgPrecision precision) := by
  unfold Print.vaArgPrecision
  split
  · exact vaArgInt
  · exact pure precision

theorem literal (c : UInt8) (spec : Spec) : Framed (literal c spec) := by
  unfold Print.literal
  split
  · exact emit rfl
  · exact setSpec _

end Framed

/-! ## The parts -/

theorem field_length (right : Bool) (str pad : List UInt8) :
    (if right then str.reverse ++ pad else pad ++ str.reverse).length =
      pad.length + str.length := by
  cases right with
  | true => exact length_append.trans (by rw [length_reverse, Nat.add_comm])
  | false => exact length_append.trans (by rw [length_reverse])

theorem printNum_count (returned : printNum n base charSet width zero right = .ok written) :
    written.2 = written.1.length := by
  obtain ⟨value, _, rest⟩ := of_ok_then returned
  obtain ⟨pad, _, rest⟩ := of_ok_then rest
  cases rest
  rw [field_length, Nat.cast_add]

theorem printString_count (returned : printString s width right precision = .ok written) :
    written.2 = written.1.length := by
  obtain ⟨body, _, rest⟩ := of_ok_then returned
  split at rest
  all_goals
    obtain ⟨_, rest⟩ := of_check_then rest
    obtain ⟨pad, _, rest⟩ := of_ok_then rest
    cases rest
    rw [length_append]
    omega

theorem framed_convertInt (s : Spec) : Framed (convertInt s) := by
  refine (Framed.vaArgSigned _).bind fun n => ?_
  refine Framed.lift_bind fun written printed => ?_
  refine (Framed.emit ?_).bind fun _ => .finish _
  unfold printSigned at printed
  split at printed
  · exact printNum_count printed
  · exact printNum_count printed

theorem framed_convertWord (base : Nat) (charSet : List UInt8) (s : Spec) :
    Framed (convertWord base charSet s) := by
  refine (Framed.lift _).bind fun _ => Framed.vaArgWord.bind fun n => ?_
  refine Framed.lift_bind fun written printed => ?_
  exact (Framed.emit (printNum_count printed)).bind fun _ => .finish _

theorem framed_convertString (s : Spec) : Framed (convertString s) := by
  refine (Framed.lift _).bind fun _ => Framed.vaArgString.bind fun a => ?_
  refine Framed.lift_bind fun written printed => ?_
  exact (Framed.emit (printString_count printed)).bind fun _ => .finish _

theorem framed_convertFlag (c : UInt8) (s : Spec) : Framed (convertFlag c s) := by
  unfold convertFlag
  split
  · exact (Framed.lift _).bind fun _ => .setSpec _
  · split
    · exact (Framed.lift _).bind fun _ => .setSpec _
    · split
      · exact (Framed.lift _).bind fun _ => (Framed.lift _).bind fun _ => .setSpec _
      · exact (Framed.lift _).bind fun _ => (Framed.lift _).bind fun _ => .setSpec _

theorem framed_convert (c : UInt8) (s : Spec) : Framed (convert c s) := by
  unfold convert
  split
  · exact framed_convertInt s
  · split
    · exact framed_convertWord 10 decimal s
    · split
      · exact framed_convertString s
      · split
        · exact framed_convertWord 16 hexadecimal s
        · split
          · exact framed_convertWord 8 octal s
          · split
            · exact (Framed.emit rfl).bind fun _ => .finish s
            · split
              · exact Framed.vaArgWord.bind fun _ => (Framed.emit rfl).bind fun _ => .finish s
              · exact framed_convertFlag c s

/-! ## The whole format -/

/-- A precision ends before the format does, so that it stays the same when more follows. -/
theorem parsePrecision_append
    (returned : parsePrecision i rc s = .ok (precision, count)) (more : List UInt8) :
    parsePrecision i rc (s ++ more) = .ok (precision, count) ∧ count ≤ i + s.length := by
  induction s generalizing i rc with
  | nil => cases returned
  | cons c s ih =>
    rw [cons_append]
    unfold parsePrecision at returned ⊢
    split at returned
    · next star =>
      rw [if_pos star]
      obtain ⟨first, rest⟩ := of_check_then returned
      cases rest
      refine ⟨returned, ?_⟩
      rw [length_cons]
      omega
    · next other =>
      rw [if_neg other]
      split at returned
      · next digit =>
        rw [if_pos digit]
        obtain ⟨ten, shifted, rest⟩ := of_ok_then returned
        obtain ⟨sum, added, rest⟩ := of_ok_then rest
        obtain ⟨same, bound⟩ := ih rest
        rw [shifted, ok_then, added, ok_then]
        refine ⟨same, ?_⟩
        rw [length_cons]
        omega
      · next digit =>
        rw [if_neg digit]
        cases returned
        exact ⟨rfl, Nat.le_add_right ..⟩

/-- The format is worked off piece by piece. -/
theorem format_append {fmt : List UInt8} (returned : format fmt f = .ok ((), f'))
    (more : List UInt8) : format (fmt ++ more) f = format more f' := by
  induction length : fmt.length using Nat.strong_induction_on generalizing fmt f with
  | _ n ih =>
    cases fmt with
    | nil =>
      rw [format] at returned
      cases returned
      rfl
    | cons c s =>
      rw [length_cons] at length
      rw [cons_append]
      rw [format] at returned ⊢
      obtain ⟨spec, g, got, rest⟩ := of_bind returned
      rw [bind_ok got]
      split at rest
      · next outside =>
        rw [if_pos outside]
        obtain ⟨_, h, written, rest⟩ := of_bind rest
        rw [bind_ok written]
        exact ih s.length (by omega) rest rfl
      · next inside =>
        rw [if_neg inside]
        split at rest
        · next point =>
          rw [if_pos point]
          obtain ⟨⟨precision, count⟩, h, parsed, tail⟩ := of_bind rest
          obtain ⟨found, same⟩ := of_lift parsed
          obtain ⟨again, bound⟩ := parsePrecision_append found more
          rw [bind_ok (lift_ok again g)]
          rw [same] at tail
          dsimp only at tail ⊢
          obtain ⟨value, g', taken, tail⟩ := of_bind tail
          rw [bind_ok taken]
          obtain ⟨_, h', set, tail⟩ := of_bind tail
          rw [bind_ok set, drop_append_of_le_length (by omega)]
          exact ih (s.drop count).length (by rw [length_drop]; omega) tail rfl
        · next other =>
          rw [if_neg other]
          obtain ⟨_, h, converted, rest⟩ := of_bind rest
          rw [bind_ok converted]
          exact ih s.length (by omega) rest rfl

theorem framed_format (fmt : List UInt8) : Framed (format fmt) := by
  induction length : fmt.length using Nat.strong_induction_on generalizing fmt with
  | _ n ih =>
    cases fmt with
    | nil =>
      rw [format]
      exact .pure ()
    | cons c s =>
      rw [length_cons] at length
      rw [format]
      refine Framed.getSpec.bind fun spec => ?_
      split
      · exact (Framed.literal c spec).bind fun _ => ih s.length (by omega) s rfl
      · split
        · refine (Framed.lift _).bind fun parsed => ?_
          obtain ⟨precision, count⟩ := parsed
          refine (Framed.vaArgPrecision precision).bind fun _ => (Framed.setSpec _).bind fun _ => ?_
          exact ih (s.drop count).length (by rw [length_drop]; omega) _ rfl
        · exact (framed_convert c spec).bind fun _ => ih s.length (by omega) s rfl

/-! ## What one conversion leaves for the next -/

/-- The characters that end a conversion without a look at `long_level`. -/
def plainEnds : List UInt8 :=
  [ascii 'u', ascii 's', ascii 'p', ascii 'x', ascii 'o', ascii '%', ascii 'c']

/-- The `l` that a format leaves behind: those since the last `%d` or `%i`. -/
def pendingLevel : (cont : Bool) → (level : Nat) → List UInt8 → Nat
  | _, level, [] => level
  | false, level, c :: s => pendingLevel (c = ascii '%') level s
  | true, level, c :: s =>
    if c = ascii 'd' ∨ c = ascii 'i' then pendingLevel false 0 s
    else if c ∈ plainEnds then pendingLevel false level s
    else if c = ascii 'l' then pendingLevel true (level + 1) s
    else pendingLevel true level s

/-- What is known at the start of a format and between two conversions. -/
def Spec.between (level : Nat) : Spec := ⟨0, level, false, false, false, -1⟩

/-- Outside a conversion only `long_level` is left. -/
def Spec.Rest (s : Spec) : Prop := s.cont = false → s = .between s.longLevel

theorem mem_plainEnds : c ∈ plainEnds ↔ c = ascii 'u' ∨ c = ascii 's' ∨ c = ascii 'p' ∨
    c = ascii 'x' ∨ c = ascii 'o' ∨ c = ascii '%' ∨ c = ascii 'c' := by
  simp only [plainEnds, mem_cons, not_mem_nil, or_false]

/-- The state of a conversion follows the scan of the format. -/
def Follows (level : Nat) (c : UInt8) (after : Spec) : Prop :=
  after.Rest ∧ ∀ rest, pendingLevel true level (c :: rest) =
    pendingLevel after.cont after.longLevel rest

/-- The part leaves such a spec behind, if it returns. -/
def Leaves (part : FormatM α) (post : Spec → Prop) : Prop :=
  ∀ f a f', part f = .ok (a, f') → post f'.spec

theorem Leaves.lift_bind
    (last : ∀ a, value = .ok a → Leaves (next a) post) : Leaves (liftM value >>= next) post := by
  intro f b f' returned
  obtain ⟨a, g, first, rest⟩ := of_bind returned
  exact last a (of_lift first).1 g b f' rest

theorem Leaves.bind (last : ∀ a, Leaves (next a) post) : Leaves (part >>= next) post := by
  intro f b f' returned
  obtain ⟨a, g, -, rest⟩ := of_bind returned
  exact last a g b f' rest

theorem Leaves.setSpec (holds : post spec) : Leaves (setSpec spec) post := by
  intro f a f' returned
  cases returned
  exact holds

theorem follows_between (end_ : ∀ rest, pendingLevel true level (c :: rest) =
    pendingLevel false after rest) : Follows level c (.between after) :=
  ⟨fun _ => rfl, end_⟩

theorem follows_plain (plain : c ∈ plainEnds) (other : ¬(c = ascii 'd' ∨ c = ascii 'i')) :
    Follows level c (.between level) := by
  refine follows_between fun rest => ?_
  rw [pendingLevel, if_neg other, if_pos plain]

theorem convertFlag_follows (inside : s.cont = true) (other : ¬(c = ascii 'd' ∨ c = ascii 'i'))
    (plain : c ∉ plainEnds) : Leaves (convertFlag c s) (Follows s.longLevel c) := by
  have flag (after : Spec) (still : after.cont = true) (same : after.longLevel = s.longLevel)
      (short : c ≠ ascii 'l') : Follows s.longLevel c after := by
    refine ⟨fun outside => absurd (still.symm.trans outside) (by decide), fun rest => ?_⟩
    rw [pendingLevel, if_neg other, if_neg plain, if_neg short, still, same]
  unfold convertFlag
  split
  · next zero => exact .bind fun _ => .setSpec (flag _ inside rfl (by rw [zero]; decide))
  · split
    · next dash => exact .bind fun _ => .setSpec (flag _ inside rfl (by rw [dash]; decide))
    · split
      · next digit =>
        refine .bind fun _ => .bind fun _ => .setSpec (flag _ inside rfl fun long => ?_)
        rw [long] at digit
        exact absurd digit (by decide)
      · refine .lift_bind fun _ checked => .bind fun _ => .setSpec
          ⟨fun outside => absurd (inside.symm.trans outside) (by decide), fun rest => ?_⟩
        rw [pendingLevel, if_neg other, if_neg plain, if_pos (of_check checked)]
        rw [inside]

theorem convert_follows (inside : s.cont = true) :
    Leaves (convert c s) (Follows s.longLevel c) := by
  unfold convert
  split
  · next int =>
    refine .bind fun _ => .bind fun _ => .bind fun _ => .setSpec (follows_between fun rest => ?_)
    rw [pendingLevel, if_pos int]
  · next other =>
    have ends (plain : c ∈ plainEnds) : Leaves (finish s) (Follows s.longLevel c) :=
      .setSpec (follows_plain plain other)
    have word {base : Nat} {charSet : List UInt8} (plain : c ∈ plainEnds) :
        Leaves (convertWord base charSet s) (Follows s.longLevel c) :=
      .bind fun _ => .bind fun _ => .bind fun _ => .bind fun _ => ends plain
    split
    · next u => exact word (by simp [plainEnds, u])
    · split
      · next string =>
        exact .bind fun _ => .bind fun _ => .bind fun _ => .bind fun _ =>
          ends (by simp [plainEnds, string])
      · split
        · next hex =>
          refine word ?_
          rcases hex with p | x
          · simp [plainEnds, p]
          · simp [plainEnds, x]
        · split
          · next o => exact word (by simp [plainEnds, o])
          · split
            · next percent => exact .bind fun _ => ends (by simp [plainEnds, percent])
            · split
              · next char => exact .bind fun _ => .bind fun _ => ends (by simp [plainEnds, char])
              · next u string hex o percent char =>
                refine convertFlag_follows inside other fun plain => ?_
                have := mem_plainEnds.mp plain
                tauto

/-- The characters of a precision change nothing for the scan. -/
theorem parsePrecision_pending
    (returned : parsePrecision i rc s = .ok (precision, count)) (level : Nat) :
    i ≤ count ∧ pendingLevel true level s = pendingLevel true level (s.drop (count - i)) := by
  induction s generalizing i rc with
  | nil => cases returned
  | cons c s ih =>
    unfold parsePrecision at returned
    split at returned
    · next star =>
      obtain ⟨first, rest⟩ := of_check_then returned
      cases rest
      rw [first, star]
      exact ⟨Nat.zero_le 1, rfl⟩
    · split at returned
      · next digit =>
        obtain ⟨_, _, rest⟩ := of_ok_then returned
        obtain ⟨_, _, rest⟩ := of_ok_then rest
        obtain ⟨bound, same⟩ := ih rest
        have apart {d : UInt8} (high : ¬d ≤ ascii '9' ∨ ¬ascii '0' ≤ d) : c ≠ d := by
          rintro rfl
          exact high.elim (absurd digit.2) (absurd digit.1)
        refine ⟨by omega, ?_⟩
        rw [show count - i = count - (i + 1) + 1 by omega, drop_succ_cons, ← same,
          pendingLevel, if_neg, if_neg, if_neg (apart (by decide))]
        · rw [mem_plainEnds]
          rintro (h | h | h | h | h | h | h)
          all_goals exact apart (by decide) h
        · rintro (h | h)
          all_goals exact apart (by decide) h
      · cases returned
        rw [Nat.sub_self]
        exact ⟨le_refl _, rfl⟩

theorem literal_follows (returned : literal c s f = .ok ((), f')) (here : f.spec = s)
    (outside : s.cont = false) (rest : s.Rest) :
    f'.spec.Rest ∧ ∀ more, pendingLevel false s.longLevel (c :: more) =
      pendingLevel f'.spec.cont f'.spec.longLevel more := by
  unfold literal at returned
  split at returned
  · next plain =>
    obtain ⟨_, _, tail⟩ := of_ok_then returned
    cases tail
    rw [here, outside]
    refine ⟨rest, fun more => ?_⟩
    rw [pendingLevel, decide_eq_false plain]
  · next percent =>
    cases returned
    refine ⟨nofun, fun more => ?_⟩
    rw [pendingLevel, decide_eq_true (not_not.mp percent)]

/-- The level that a format leaves behind is the one of the scan. -/
theorem format_follows {fmt : List UInt8} (returned : format fmt f = .ok ((), f'))
    (rest : f.spec.Rest) : f'.spec.Rest ∧
      pendingLevel f.spec.cont f.spec.longLevel fmt = f'.spec.longLevel := by
  induction length : fmt.length using Nat.strong_induction_on generalizing fmt f with
  | _ n ih =>
    cases fmt with
    | nil =>
      rw [format] at returned
      cases returned
      refine ⟨rest, ?_⟩
      rfl
    | cons c s =>
      rw [length_cons] at length
      rw [format] at returned
      obtain ⟨spec, g, got, tail⟩ := of_bind returned
      cases got
      cases cont : f.spec.cont with
      | false =>
        rw [if_pos (by rw [cont]; rfl)] at tail
        obtain ⟨_, h, written, tail⟩ := of_bind tail
        obtain ⟨still, same⟩ := literal_follows written rfl cont rest
        rw [same s]
        exact ih s.length (by omega) tail still rfl
      | true =>
        rw [if_neg (by rw [cont]; decide)] at tail
        split at tail
        · next point =>
          obtain ⟨⟨precision, count⟩, h, parsed, tail⟩ := of_bind tail
          obtain ⟨found, rfl⟩ := of_lift parsed
          obtain ⟨value, h', taken, tail⟩ := of_bind tail
          obtain ⟨_, h'', set, tail⟩ := of_bind tail
          cases set
          obtain ⟨_, same⟩ := parsePrecision_pending found h.spec.longLevel
          rw [point, show pendingLevel true h.spec.longLevel (ascii '.' :: s) =
            pendingLevel true h.spec.longLevel s from rfl, same]
          have inner := ih (s.drop count).length (by rw [length_drop]; omega) tail
            (fun outside => absurd (cont.symm.trans outside) (by decide)) rfl
          rw [cont] at inner
          exact inner
        · obtain ⟨_, h, converted, tail⟩ := of_bind tail
          obtain ⟨still, same⟩ := convert_follows cont _ _ _ converted
          rw [same s]
          exact ih s.length (by omega) tail still rfl

/-! ## Formats put together -/

/-- The formatter takes the whole format and all of the arguments: it writes `out` and returns
`rc`. -/
def Accepts (fmt : List UInt8) (args : List Arg) (out : List UInt8) (rc : Int) : Prop :=
  ∃ f, vkcprintf fmt args = .ok f ∧ f.spec.cont = false ∧ f.args = [] ∧ f.out = out ∧ f.rc = rc

/-- Whatever follows prints what it prints alone. The sum is to fit the `int` that is returned. -/
def Composes (fmt : List UInt8) (args : List Arg) (out : List UInt8) (rc : Int) : Prop :=
  ∀ more args' out' rc', Accepts more args' out' rc' → rc + rc' < 2 ^ 31 →
    Accepts (fmt ++ more) (args ++ args') (out ++ out') (rc + rc')

theorem of_vkcprintf (returned : vkcprintf fmt args = .ok f) :
    format fmt (start args) = .ok ((), f) := by
  obtain ⟨⟨_, g⟩, ran, rest⟩ := of_ok_then returned
  cases rest
  exact ran

theorem vkcprintf_ok (ran : format fmt (start args) = .ok ((), f)) :
    vkcprintf fmt args = .ok f := by
  unfold vkcprintf
  rw [ran]
  rfl

theorem counted_start (args : List Arg) : Counted (start args) :=
  ⟨rfl, show (0 : Int) < 2 ^ 31 by decide⟩

/-- What an accepted format leaves behind. -/
theorem format_accepted (returned : vkcprintf fmt args = .ok f) (complete : f.spec.cont = false) :
    Counted f ∧ f.spec = .between (pendingLevel false 0 fmt) := by
  have ran := of_vkcprintf returned
  obtain ⟨counted, _, _⟩ := framed_format fmt _ _ _ ran (counted_start args)
  obtain ⟨rest, level⟩ := format_follows ran fun _ => rfl
  refine ⟨counted, (rest complete).trans (congrArg Spec.between level.symm)⟩

/-- The rest of a longer format is worked off behind the output of the first part. -/
theorem format_more (returned : vkcprintf fmt args = .ok f) (used : f.args = [])
    (more : List UInt8) (args' : List Arg) :
    format (fmt ++ more) (start (args ++ args')) =
      format more (({ start args' with spec := f.spec } : Formatter).around f.out []) := by
  have ran := of_vkcprintf returned
  obtain ⟨⟨count, small⟩, _, around⟩ := framed_format fmt _ _ _ ran (counted_start args)
  have longer := around [] args' (by rw [length_nil]; omega)
  change format fmt (start (args ++ args')) = _ at longer
  rw [format_append longer]
  unfold Formatter.around start
  rw [used, count, nil_append, append_nil, append_nil]
  simp

theorem convert_long (returned : convert (ascii 'l') s f = .ok ((), f')) :
    s.longLevel + 1 ≤ 2 ∧ f'.spec = { s with longLevel := s.longLevel + 1 } := by
  change convertFlag (ascii 'l') s f = _ at returned
  unfold convertFlag at returned
  obtain ⟨_, _, _, rest⟩ := of_bind returned
  obtain ⟨_, _, checked, rest⟩ := of_bind rest
  cases rest
  exact ⟨of_check (of_lift checked).1, rfl⟩

theorem format_long (ran : format (ascii 'l' :: more) f = .ok ((), f'))
    (inside : f.spec.cont = true) :
    f.spec.longLevel + 1 ≤ 2 ∧ ∃ g, format more g = .ok ((), f') ∧
      g.spec = { f.spec with longLevel := f.spec.longLevel + 1 } := by
  rw [format] at ran
  obtain ⟨spec, g, got, tail⟩ := of_bind ran
  cases got
  rw [if_neg (by rw [inside]; decide), if_neg (by decide)] at tail
  obtain ⟨_, h, converted, tail⟩ := of_bind tail
  obtain ⟨bound, spec⟩ := convert_long converted
  exact ⟨bound, h, tail, spec⟩

/-- A conversion with two `l` finds none before them. -/
theorem long_twice (ran : format (ascii '%' :: ascii 'l' :: ascii 'l' :: more) f = .ok ((), f'))
    (outside : f.spec.cont = false) : f.spec.longLevel = 0 := by
  rw [format] at ran
  obtain ⟨spec, g, got, tail⟩ := of_bind ran
  cases got
  rw [if_pos (by rw [outside]; rfl)] at tail
  obtain ⟨_, h, begun, tail⟩ := of_bind tail
  cases begun
  obtain ⟨_, g, tail, spec⟩ := format_long tail rfl
  obtain ⟨bound, _⟩ := format_long tail (by rw [spec])
  rw [spec] at bound
  dsimp only at bound
  omega

theorem accepts_of_report (report : ((vkcprintf fmt args).toOption.map fun f =>
      (f.spec.cont, f.args.length, f.out, f.rc)) = some (false, 0, out, rc)) :
    Accepts fmt args out rc := by
  obtain ⟨f, returned, seen⟩ := of_report report
  simp only [Prod.mk.injEq] at seen
  obtain ⟨cont, used, written, count⟩ := seen
  exact ⟨f, returned, cont, eq_nil_of_length_eq_zero used, written, count⟩

def text (s : String) : List UInt8 := s.toList.map ascii

theorem accepts_longString : Accepts (text "%lls") [.string (some [])] [] 0 :=
  accepts_of_report (by decide +kernel)

/-- Formats can be put together behind one that leaves no `l` behind, and only behind such. -/
theorem formats_compose_iff (accepted : Accepts fmt args out rc) :
    Composes fmt args out rc ∧ rc = out.length ↔ pendingLevel false 0 fmt = 0 := by
  obtain ⟨f, returned, complete, used, rfl, rfl⟩ := accepted
  obtain ⟨⟨count, small⟩, spec⟩ := format_accepted returned complete
  constructor
  · rintro ⟨composes, _⟩
    obtain ⟨g, longer, _⟩ := composes _ _ _ _ accepts_longString (by omega)
    have ran := of_vkcprintf longer
    rw [format_more returned used] at ran
    have level := long_twice ran complete
    rw [spec] at level
    exact level
  · intro clear
    refine ⟨?_, count⟩
    rintro more args' out' rc' ⟨g, returned', complete', used', rfl, rfl⟩ fits
    obtain ⟨count', _⟩ := (format_accepted returned' complete').1
    obtain ⟨_, _, around⟩ :=
      framed_format more _ _ _ (of_vkcprintf returned') (counted_start args')
    have behind := around f.out [] (by omega)
    refine ⟨g.around f.out [], vkcprintf_ok ?_, complete', ?_, rfl, ?_⟩
    · rw [format_more returned used, spec, clear]
      exact behind
    · exact (append_nil _).trans used'
    · rw [count]
      rfl

/-- Behind a plain number. -/
theorem formats_compose_number :
    Accepts (text "%ld: ") [.word 7, .word 0] (text "7: ") 3 ∧
      Composes (text "%ld: ") [.word 7, .word 0] (text "7: ") 3 := by
  have accepted : Accepts (text "%ld: ") [.word 7, .word 0] (text "7: ") 3 :=
    accepts_of_report (by decide +kernel)
  exact ⟨accepted, ((formats_compose_iff accepted).mpr (by decide)).1⟩

/-- The `l` of `%lx` makes the `%d` after it take two words of the arguments. -/
theorem long_hex_breaks_next :
    Accepts (text "%lx") [.word 1] (text "1") 1 ∧ Accepts (text "%d") [.word 2] (text "2") 1 ∧
      ¬Accepts (text "%lx" ++ text "%d") ([.word 1] ++ [.word 2]) (text "1" ++ text "2") 2 := by
  refine ⟨accepts_of_report (by decide +kernel), accepts_of_report (by decide +kernel), ?_⟩
  rintro ⟨f, returned, _⟩
  have stopped : (vkcprintf (text "%lx" ++ text "%d") ([.word 1] ++ [.word 2])).toOption.isNone =
      true := by decide +kernel
  rw [returned] at stopped
  cases stopped

end SbOS.Kernel.Print
