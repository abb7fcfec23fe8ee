import SbOS.Vfs.Paths

/-! Canonicalisation against the normal form of a path. The pass and the normal
form are two stacks that take the same components. A component that the pass
keeps although the normal form drops it makes its stack the larger one, and the
two agree again only when enough `..` have brought both back to the root. -/
namespace SbOS.Vfs
open List hiding tail

/-- Neither empty nor one of the two special names. -/
def Ordinary (item : Item) : Prop := item ≠ [] ∧ item ≠ ['.'] ∧ item ≠ ['.', '.']

/-- A component on its way into the normal form, with the last one kept first. -/
def normalStep (kept : List Item) (item : Item) : List Item :=
  if item = [] ∨ item = ['.'] then kept else if item = ['.', '.'] then kept.tail else item :: kept

/-- The component list that an absolute path stands for. -/
def normalForm (path : List Char) : List Item :=
  ((path.splitOn '/').foldl normalStep []).reverse

/-- The states of the loop of `vfs_clean_path`, with `start_directory`. -/
inductive Reached (path : List Char) : Cleaning → Bool → Prop
  | first : Reached path ⟨'/' :: path.dropWhile (· == '/'), [], false⟩ false
  | turn (reached : Reached path c start) (more : c.path ≠ [])
      (next : (if start then c.startDirectory else some c) = some c') (left : c'.path = x :: rest) :
      Reached path ⟨rest, x :: c'.result, c'.insertSlash⟩ (x == '/')

/-- The canonicalisation of a path: its normal form, possibly with a slash behind
it, that stays as it is when it is cleaned again. A turn of the loop writes inside
of the buffer, and a way back ends at a slash in the buffer. -/
structure Canonicalised (path : List Char) : Prop where
  outcome : ∃ result, vfsCleanPath path = some result ∧ result.head? = some '/' ∧
    (∃ slash, (slash = [] ∨ slash = [[]]) ∧ result = absolute (normalForm path ++ slash)) ∧
    vfsCleanPath result = some result ∧ result.length ≤ path.length
  ordinary : ∀ item ∈ normalForm path, Ordinary item
  writes : ∀ c start c', Reached path c start → c.path ≠ [] →
    (if start then c.startDirectory else some c) = some c' → c'.path ≠ [] →
    c'.result.length < path.length
  back : ∀ c, Reached path c true → 2 ≤ c.result.length → '/' ∈ c.result.drop 1

/-- The components end with nothing that the pass kept and the normal form drops:
a `.` in front of another component, and an empty, `.` or `..` component that
stands behind an empty one, are made good by as many `..` as lead back to the
root. `depth` counts the components that the pass keeps. -/
def Settles (depth : Nat) (off : Bool) : List Item → Bool
  | [] => !off
  | [item] => if item = ['.', '.'] then !off || depth ≤ 1 else !off
  | [[], item] => !off && item ≠ ['.'] && item ≠ ['.', '.']
  | [] :: item :: next :: rest =>
    Settles (depth + 1) (off || item = [] || item = ['.'] || item = ['.', '.']) (next :: rest)
  | item :: next :: rest =>
    if item = ['.'] then Settles (depth + 1) true (next :: rest)
    else if item = ['.', '.'] then Settles (depth - 1) (off && 1 < depth) (next :: rest)
    else Settles (depth + 1) off (next :: rest)

/-! ### The buffer -/

theorem next_spec (next : (if start then Cleaning.startDirectory c else some c) = some c') :
    c'.result <:+ c.result ∧ c'.path.length ≤ c.path.length ∧
      (c'.result = c.result ∧ c'.path = c.path ∨ start = true ∧ (c'.result = c.result ∨
        ∀ x rest, c'.path = x :: rest → x = '/')) := by
  have back : goBack c.result <:+ c.result :=
    ((drop_suffix _ _).trans (dropWhile_suffix _)).trans (drop_suffix _ _)
  split at next
  · rename_i starts
    refine ⟨?_, Cleaning.startDirectory_length next, .inr ⟨starts, ?_⟩⟩ <;>
      (unfold Cleaning.startDirectory at next
       split at next <;> (try split at next) <;> (try split at next) <;> cases next)
    all_goals first
      | exact back | exact drop_suffix _ _ | exact suffix_rfl | exact .inl rfl
      | (refine .inr fun x rest same => ?_; cases same; try rfl)
  · cases next
    exact ⟨suffix_rfl, Nat.le_refl _, .inl ⟨rfl, rfl⟩⟩

/-- What has been written and what is to be read fit into the buffer together, and
what has been written starts with a slash. -/
theorem Reached.fits (rooted : path.head? = some '/') (reached : Reached path c start) :
    c.result.length + c.path.length ≤ path.length ∧
      (['/'] <:+ c.result ∨ c.result = [] ∧ start = false ∧ c.path.head? = some '/') := by
  induction reached with
  | first =>
    refine ⟨?_, .inr ⟨rfl, rfl, rfl⟩⟩
    obtain ⟨rest, rfl⟩ := head?_eq_some_iff.mp rooted
    have shorter : (rest.dropWhile (· == '/')).length ≤ rest.length :=
      (dropWhile_sublist _).length_le
    simpa using shorter
  | turn reached more next left ih =>
    rename_i c start c' x rest
    obtain ⟨suffix, shorter, same⟩ := next_spec next
    have less := suffix.length_le
    rw [left, length_cons] at shorter
    refine ⟨by simp only [length_cons]; omega, .inl ?_⟩
    by_cases empty : c'.result = []
    · -- the buffer is empty at the first slash and when `..` went back to it
      have slash : x = '/' := by
        rcases same with ⟨sameResult, samePath⟩ | ⟨starts, kept | slash⟩
        · rcases ih.2 with written | ⟨_, _, head⟩
          · rw [← sameResult, empty] at written
            cases eq_nil_of_suffix_nil written
          · rw [← samePath, left] at head
            exact Option.some.inj head
        · rcases ih.2 with written | ⟨_, notStart, _⟩
          · rw [← kept, empty] at written
            cases eq_nil_of_suffix_nil written
          · rw [starts] at notStart
            cases notStart
        · exact slash x rest left
      rw [empty, slash]
    · rcases ih.2 with written | ⟨nothing, _⟩
      · have inside := suffix_of_suffix_length_le written suffix
          (Nat.one_le_iff_ne_zero.mpr (by simpa using empty))
        exact inside.trans (suffix_cons _ _)
      · rw [nothing] at suffix
        exact absurd (eq_nil_of_suffix_nil suffix) empty

/-! ### The two stacks -/

/-- The component list `shown` is that of the stack `normal`, or has a slash more. -/
def Shows (shown normal : List Item) : Prop :=
  shown = normal.reverse ∨ shown = normal.reverse ++ [[]]

/-- The stack of the pass and that of the normal form. -/
structure Stacks (kept normal : List Item) (off : Bool) : Prop where
  sublist : normal.Sublist kept
  ordinary : ∀ item ∈ normal, Ordinary item
  off_iff : off = true ↔ normal.length < kept.length

section Stacks
variable {kept normal : List Item} {off : Bool}

section
variable (pair : Stacks kept normal off)
include pair

theorem Stacks.eq_iff : kept = normal ↔ (!off) = true := by
  obtain ⟨sublist, -, longer⟩ := pair
  grind [Sublist.eq_of_length_le]

theorem Stacks.slash : Shows (kept.reverse ++ [[]]) normal ↔ (!off) = true := by
  have absent : kept.reverse ++ [[]] ≠ normal.reverse := fun same =>
    (pair.ordinary [] (mem_reverse.mp (same ▸ by simp))).1 rfl
  rw [← pair.eq_iff, Shows, append_left_inj, reverse_inj]
  exact or_iff_right absent

theorem Stacks.named (ordinary : Ordinary item) :
    Shows (kept.reverse ++ [item]) (item :: normal) ↔ (!off) = true := by
  have some := ordinary.1
  rw [← pair.eq_iff, Shows]
  grind [append_inj_right', reverse_cons, reverse_inj]

theorem Stacks.keep (ordinary : Ordinary item) : Stacks (item :: kept) (item :: normal) off :=
  ⟨pair.sublist.cons_cons item, forall_mem_cons.mpr ⟨ordinary, pair.ordinary⟩,
    pair.off_iff.trans (by simp)⟩

theorem Stacks.drop : Stacks (item :: kept) normal true :=
  ⟨pair.sublist.trans (sublist_cons_self _ _), pair.ordinary,
    iff_of_true rfl (Nat.lt_succ_of_le pair.sublist.length_le)⟩

theorem Stacks.up : Stacks kept.tail normal.tail (off && 1 < kept.length) := by
  obtain ⟨sublist, ordinary, longer⟩ := pair
  refine ⟨sublist.tail, fun item member => ordinary item (mem_of_mem_tail member), ?_⟩
  simp only [Bool.and_eq_true, decide_eq_true_eq, length_tail, longer]
  omega

/-- A `..` that is kept without being looked at. -/
theorem Stacks.literal : Stacks (item :: kept) normal.tail true := by
  have shorter : Stacks kept normal.tail (decide (normal.tail.length < kept.length)) :=
    ⟨(tail_sublist _).trans pair.sublist,
      fun item member => pair.ordinary item (mem_of_mem_tail member), by simp⟩
  exact shorter.drop

end

theorem normalStep_named (ordinary : Ordinary item) : normalStep normal item = item :: normal := by
  unfold normalStep
  rw [if_neg (fun special => special.elim ordinary.1 ordinary.2.1), if_neg ordinary.2.2]

/-- A component behind an empty one, which the pass keeps as it stands. -/
theorem Stacks.skipped (pair : Stacks kept normal off) :
    Stacks (item :: kept) (normalStep normal item)
      (off || item = [] || item = ['.'] || item = ['.', '.']) := by
  unfold normalStep
  split
  · rename_i special
    have flag : (off || item = [] || item = ['.'] || item = ['.', '.']) = true := by grind
    exact flag ▸ pair.drop
  · split
    · rename_i up
      rw [decide_eq_true up, Bool.or_true]
      exact pair.literal
    · rename_i notSpecial notUp
      rw [not_or] at notSpecial
      simpa [notSpecial, notUp] using pair.keep ⟨notSpecial.1, notSpecial.2, notUp⟩

theorem Stacks.skipped_last (pair : Stacks kept normal off) :
    Shows (kept.reverse ++ [item]) (normalStep normal item) ↔
      (!off && item ≠ ['.'] && item ≠ ['.', '.']) = true := by
  have absent (special : item = ['.'] ∨ item = ['.', '.']) {other : List Item}
      (ordinary : ∀ item ∈ other, Ordinary item) : ¬ Shows (kept.reverse ++ [item]) other := by
    rintro (same | same)
    · have member : item ∈ other := mem_reverse.mp (same ▸ by simp)
      exact special.elim (ordinary item member).2.1 (ordinary item member).2.2
    · have last := append_inj_right' same rfl
      rcases special with rfl | rfl <;> cases last
  by_cases empty : item = []
  · subst empty
    simpa [normalStep] using pair.slash
  by_cases dot : item = ['.']
  · rw [normalStep, if_pos (.inr dot)]
    simpa [dot] using dot ▸ absent (.inl dot) pair.ordinary
  by_cases up : item = ['.', '.']
  · rw [normalStep, if_neg (by simp [empty, dot]), if_pos up]
    simpa [up] using up ▸ absent (.inr up) pair.up.ordinary
  · rw [normalStep_named ⟨empty, dot, up⟩]
    simpa [dot, up] using pair.named ⟨empty, dot, up⟩

/-- The pass ends with the normal form exactly if the components settle. -/
theorem shows_iff (pair : Stacks kept normal off) (nonempty : components ≠ []) :
    Shows (cleanItems kept components) (components.foldl normalStep normal) ↔
      Settles kept.length off components = true := by
  fun_induction cleanItems kept components generalizing normal off with
  | case1 => exact absurd rfl nonempty
  | case2 kept => simpa [Settles, normalStep] using pair.slash
  | case3 kept =>
    simpa [Settles, normalStep, Bool.not_and] using pair.up.slash
  | case4 kept item notDot notUp =>
    by_cases empty : item = []
    · subst empty
      simpa [Settles, normalStep] using pair.slash
    · have named := pair.named ⟨empty, notDot, notUp⟩
      rw [← @normalStep_named normal item ⟨empty, notDot, notUp⟩] at named
      simpa [Settles, notUp] using named
  | case5 kept item => simpa [Settles, normalStep] using pair.skipped_last
  | case6 kept item next rest ih =>
    have skipped := ih pair.skipped (by simp)
    have first : normalStep normal [] = normal := rfl
    rw [foldl_cons, first, foldl_cons, skipped, Settles, length_cons]
  | case7 kept item next rest notLast notSkipped ih =>
    have some := ne_nil_of_looked_at notLast notSkipped
    rw [foldl_cons, Settles.eq_5 _ _ _ _ _ notLast notSkipped]
    by_cases dot : item = ['.']
    · have dropped := @ih normal true
        (by rw [keepItem, if_pos dot]; exact pair.drop) (by simp)
      rw [if_pos dot, normalStep, if_pos (.inr dot), dropped, keepItem, if_pos dot,
        length_cons]
    by_cases up : item = ['.', '.']
    · have back := @ih normal.tail (off && 1 < kept.length)
        (by rw [keepItem, if_neg dot, if_pos up]; exact pair.up) (by simp)
      rw [if_neg dot, if_pos up, normalStep, if_neg (by simp [some, dot]), if_pos up, back, keepItem,
        if_neg dot, if_pos up, length_tail]
    · have ordinary : Ordinary item := ⟨some, dot, up⟩
      have named := @ih (item :: normal) off
        (by rw [keepItem, if_neg dot, if_neg up]; exact pair.keep ordinary) (by simp)
      rw [if_neg dot, if_neg up, normalStep_named ordinary, named, keepItem, if_neg dot, if_neg up,
        length_cons]

end Stacks

/-! ### Cleaning a path -/

/-- Slashes in front add nothing to the normal form. -/
theorem foldl_splitOn (path : List Char) :
    (path.splitOn '/').foldl normalStep [] = (items path).foldl normalStep [] := by
  unfold items
  induction path with
  | nil => rfl
  | cons x path ih =>
    by_cases slash : x = '/'
    · subst slash
      exact ih
    · rw [dropWhile_cons, if_neg (by simpa using slash)]

theorem absolute_inj (plain : ∀ item ∈ components, '/' ∉ item)
    (plain' : ∀ item ∈ components', '/' ∉ item) (some : components ≠ []) (some' : components' ≠ [])
    (same : absolute components = absolute components') : components = components' := by
  have joined := cons.inj same
  rw [← splitOn_intercalate '/' plain some, joined.2, splitOn_intercalate '/' plain' some']

theorem items_absolute (plain : ∀ item ∈ first :: rest, '/' ∉ item) (some : first ≠ []) :
    items (absolute (first :: rest)) = first :: rest := by
  have kept : (absolute (first :: rest)).dropWhile (· == '/') =
      ['/'].intercalate (first :: rest) := by
    unfold absolute
    obtain ⟨x, name, rfl⟩ := exists_cons_of_ne_nil some
    have notSlash : x ≠ '/' := fun same => plain (x :: name) mem_cons_self (by simp [same])
    cases rest with
    | nil => simp [notSlash]
    | cons next rest => simp [intercalate_cons_cons, notSlash]
  unfold items
  rw [kept, splitOn_intercalate '/' plain (by simp)]

/-- Ordinary components are kept as they stand, and so is a slash behind them. -/
theorem cleanItems_ordinary (ordinary : ∀ item ∈ names, Ordinary item)
    (slash : tail = [] ∨ tail = [[]]) (nonempty : names ++ tail ≠ []) :
    cleanItems kept (names ++ tail) = kept.reverse ++ names ++ tail := by
  induction names generalizing kept with
  | nil =>
    rcases slash with rfl | rfl
    · exact absurd rfl nonempty
    · simp [cleanItems]
  | cons item names ih =>
    obtain ⟨some, notDot, notUp⟩ := ordinary item mem_cons_self
    cases more : names ++ tail with
    | nil =>
      obtain ⟨rfl, rfl⟩ := append_eq_nil_iff.mp more
      simp [cleanItems, notDot, notUp]
    | cons next rest =>
      have later := @ih (item :: kept) (fun other member => ordinary other (by simp [member]))
        (by simp [more])
      rw [cons_append, more, cleanItems.eq_5 _ _ _ _ (fun h _ => some h) fun _ _ h _ => some h,
        keepItem, if_neg notDot, if_neg notUp, ← more, later]
      simp

theorem mem_normal {components normal : List Item}
    (member : item ∈ components.foldl normalStep normal) :
    item ∈ normal ∨ item ∈ components ∧ Ordinary item := by
  induction components generalizing normal with
  | nil => exact .inl member
  | cons next components ih =>
    rcases ih member with early | ⟨late, ordinary⟩
    · unfold normalStep at early
      split at early
      · exact .inl early
      split at early
      · exact .inl (mem_of_mem_tail early)
      · rcases mem_cons.mp early with rfl | early
        · exact .inr ⟨mem_cons_self, by unfold Ordinary; tauto⟩
        · exact .inl early
    · exact .inr ⟨mem_cons_of_mem _ late, ordinary⟩

section Path
variable {path : List Char}

theorem mem_normalForm (member : item ∈ normalForm path) : '/' ∉ item ∧ Ordinary item := by
  rcases mem_normal (mem_reverse.mp member) with none | ⟨inside, ordinary⟩
  · cases none
  · exact ⟨splitOn_plain item inside, ordinary⟩

theorem plain_normalForm (slash : tail = [] ∨ tail = [[]]) :
    ∀ item ∈ normalForm path ++ tail, '/' ∉ item := by
  intro item member
  rcases mem_append.mp member with inside | behind
  · exact (mem_normalForm inside).1
  · rcases slash with rfl | rfl <;> simp_all

theorem reverse_normal : ((items path).foldl normalStep []).reverse = normalForm path := by
  rw [← foldl_splitOn]
  rfl

theorem normalForm_shows (slash : tail = [] ∨ tail = [[]]) (nonempty : shown ≠ [])
    (plain : ∀ item ∈ shown, '/' ∉ item) (same : absolute shown = absolute (normalForm path ++ tail)) :
    Shows shown ((items path).foldl normalStep []) := by
  unfold Shows
  rw [reverse_normal]
  rcases slash with rfl | rfl
  · by_cases root : normalForm path = []
    · -- the root is its own slash
      rw [root, show absolute ([] ++ []) = absolute [[]] from rfl] at same
      rw [root]
      exact .inr (absolute_inj plain (by simp) nonempty (by simp) same)
    · rw [append_nil] at same
      exact .inl (absolute_inj plain (fun item member => (mem_normalForm member).1) nonempty root same)
  · exact .inr (absolute_inj plain (plain_normalForm (.inr rfl)) nonempty (by simp) same)

/-- A normal form is its own canonicalisation. -/
theorem vfsCleanPath_normalForm (slash : tail = [] ∨ tail = [[]])
    (nonempty : normalForm path ++ tail ≠ []) :
    vfsCleanPath (absolute (normalForm path ++ tail)) = some (absolute (normalForm path ++ tail)) := by
  have plain : ∀ item ∈ normalForm path ++ tail, '/' ∉ item := plain_normalForm slash
  have kept : items (absolute (normalForm path ++ tail)) = normalForm path ++ tail := by
    cases names : normalForm path with
    | nil =>
      rcases slash with rfl | rfl
      · exact absurd (by simp [names]) nonempty
      · rfl
    | cons first rest =>
      rw [names] at plain
      have member := names ▸ mem_cons_self
      exact items_absolute plain (mem_normalForm member).2.1
  rw [vfsCleanPath_eq rfl, kept,
    cleanItems_ordinary (fun item member => (mem_normalForm member).2) slash nonempty]
  rfl

end Path

/-- `vfs_clean_path` computes the normal form of exactly the paths that settle. -/
theorem canonicalised_iff_settles (path : List Char) (rooted : path.head? = some '/') :
    Canonicalised path ↔ Settles 0 false (items path) = true := by
  have cleaned := vfsCleanPath_eq rooted
  have pair : Stacks [] [] false := ⟨Sublist.refl _, by simp, by simp⟩
  have settles := @shows_iff [] [] false (items path) pair items_ne_nil
  have nonempty : cleanItems [] (items path) ≠ [] := cleanItems_ne_nil items_ne_nil
  have plain : ∀ item ∈ cleanItems [] (items path), '/' ∉ item := by
    intro item member
    rcases mem_cleanItems member with rfl | wrong | inside
    · simp
    · cases wrong
    · exact splitOn_plain item inside
  rw [length_nil] at settles
  rw [← settles]
  constructor
  · intro canonical
    obtain ⟨result, returned, -, ⟨tail, slash, same⟩, -⟩ := canonical.outcome
    rw [cleaned] at returned
    cases returned
    exact normalForm_shows slash nonempty plain same
  · intro shows'
    refine ⟨?_, fun item member => (mem_normalForm member).2, ?_, ?_⟩
    · obtain ⟨tail, slash, same⟩ : ∃ tail, (tail = [] ∨ tail = [[]]) ∧
          cleanItems [] (items path) = normalForm path ++ tail := by
        rcases shows' with same | same
        · exact ⟨[], .inl rfl, by rw [same, reverse_normal, append_nil]⟩
        · exact ⟨[[]], .inr rfl, by rw [same, reverse_normal]⟩
      refine ⟨_, cleaned, rfl, ⟨tail, slash, by rw [same]⟩, ?_, vfsCleanPath_length cleaned⟩
      rw [same] at nonempty ⊢
      exact vfsCleanPath_normalForm slash nonempty
    · intro c start c' reached more next left
      have fits := (reached.fits rooted).1
      obtain ⟨suffix, shorter, -⟩ := next_spec next
      have less := suffix.length_le
      have some := length_pos_iff.mpr left
      omega
    · intro c reached long
      rcases (reached.fits rooted).2 with written | ⟨-, wrong, -⟩
      · have inside := suffix_of_suffix_length_le written (drop_suffix 1 c.result)
          (by simp only [length_cons, length_nil, length_drop]; omega)
        exact inside.subset (by simp)
      · cases wrong

theorem canonicalised_up_and_back :
    Canonicalised "/usr//bin/../lib/".toList :=
  (canonicalised_iff_settles _ (by decide)).mpr (by decide)

/-- `/a/./b` becomes `/a//b`. -/
theorem dot_leaves_empty_component : ¬ Canonicalised "/a/./b".toList := by
  intro canonical
  obtain ⟨result, returned, -, ⟨tail, slash, same⟩, -⟩ := canonical.outcome
  rw [vfsCleanPath_eq (by decide)] at returned
  cases returned
  rcases slash with rfl | rfl
  all_goals exact absurd same (by decide)

end SbOS.Vfs
