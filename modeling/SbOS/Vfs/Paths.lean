import Mathlib.Data.List.Basic
import Mathlib.Data.List.Infix
import Mathlib.Tactic.Common

/-! Path strings of the virtual file system. A C string is the list of its
characters without the terminator. `vfs_clean_path` is modelled character by
character, as one pass with a read pointer and a write pointer; below it the pass
is shown to be a stack machine on the components between the slashes, which is
the form the results about paths use. -/
namespace SbOS.Vfs
open List hiding tail after

/-- What is left of the input, what has been written (last character first), and
`should_insert_slash`. -/
structure Cleaning where
  path : List Char
  result : List Char
  insertSlash : Bool
  deriving DecidableEq, Repr

/-- Two steps back and on to the slash before: that slash is the next one to be
written over. -/
def goBack (result : List Char) : List Char :=
  ((result.drop 1).dropWhile (· != '/')).drop 1

/-- The branch taken at the start of a directory name. A slash there is stepped
over without another look at what follows it. `none` is the `return 0`. -/
def Cleaning.startDirectory (c : Cleaning) : Option Cleaning :=
  match c.path with
  | '/' :: rest => some { c with path := rest }
  | ['.'] => some { c with path := [] }
  | '.' :: '/' :: rest => some { c with path := '/' :: rest }
  | ['.', '.'] =>
    if c.result.length < 2 then some { c with path := [] }
    else some { path := [], result := goBack c.result, insertSlash := true }
  | '.' :: '.' :: '/' :: rest =>
    if c.result.length < 2 then
      if c.result = [] then none
      else some { c with path := '/' :: rest, result := c.result.drop 1 }
    else some { c with path := '/' :: rest, result := goBack c.result }
  | _ => some c

theorem Cleaning.startDirectory_length (h : Cleaning.startDirectory c = some c') :
    c'.path.length ≤ c.path.length := by
  unfold Cleaning.startDirectory at h
  split at h <;> (try split at h) <;> (try split at h) <;> simp_all <;> subst h <;> simp_all

def Cleaning.finish (c : Cleaning) : List Char :=
  (if c.insertSlash then '/' :: c.result else c.result).reverse

/-- The loop of `vfs_clean_path`. -/
def cleanLoop (c : Cleaning) (startDirectory : Bool) : Option (List Char) :=
  if c.path = [] then some c.finish
  else
    match _next : if startDirectory then c.startDirectory else some c with
    | none => none
    | some c' =>
      match _left : c'.path with
      | [] => some c'.finish
      | x :: rest =>
        cleanLoop { c' with path := rest, result := x :: c'.result } (x == '/')
termination_by c.path.length
decreasing_by
  have shorter : c'.path.length ≤ c.path.length := by
    split at _next
    · exact Cleaning.startDirectory_length _next
    · cases _next
      exact Nat.le_refl _
  rw [_left] at shorter
  exact shorter

/-- Canonicalisation of an absolute path; `none` is the return value 0. -/
def vfsCleanPath (path : List Char) : Option (List Char) :=
  if path.head? = some '/' then
    cleanLoop ⟨'/' :: path.dropWhile (· == '/'), [], false⟩ false
  else none

theorem cleanLoop_nil (done : c.path = []) : cleanLoop c start = some c.finish := by
  rw [cleanLoop, if_pos done]

theorem cleanLoop_copy (path : c.path = x :: rest) :
    cleanLoop c false =
      cleanLoop { c with path := rest, result := x :: c.result } (x == '/') := by
  rw [cleanLoop, if_neg (by simp [path])]
  split
  · simp_all
  · split <;> simp_all

/-- After the branch for the start of a name the rest of the step is the same. -/
theorem cleanLoop_start (more : c.path ≠ []) (next : c.startDirectory = some c') :
    cleanLoop c true = cleanLoop c' false := by
  rw [cleanLoop, if_neg more]
  split
  · simp_all
  · rename_i found
    cases next.symm.trans found
    split
    · rename_i done
      rw [cleanLoop_nil done]
    · rename_i path
      rw [cleanLoop_copy path]

/-- A stretch without a slash is copied as it stands. -/
theorem cleanLoop_name (plain : '/' ∉ name) :
    cleanLoop ⟨name ++ rest, result, slash⟩ false =
      cleanLoop ⟨rest, name.reverse ++ result, slash⟩ false := by
  induction name generalizing result with
  | nil => rfl
  | cons x name ih =>
    simp only [mem_cons, not_or] at plain
    have notSlash : (x == '/') = false := by simpa using fun same => plain.1 same.symm
    have copied := cleanLoop_copy (c := ⟨x :: (name ++ rest), result, slash⟩) rfl
    rw [cons_append, copied, notSlash, ih plain.2]
    simp

/-- A component: what stands between two slashes. -/
abbrev Item := List Char

/-- The components of an absolute path, with its leading slashes taken as one.
Further slashes in a row show up as empty components. -/
def items (path : List Char) : List Item :=
  (path.dropWhile (· == '/')).splitOn '/'

theorem items_ne_nil : items path ≠ [] := splitOn_ne_nil _ _

/-- The absolute path with these components. -/
def absolute (components : List Item) : List Char :=
  '/' :: ['/'].intercalate components

/-- A component at the start of a name, with the written components kept last one
first. A `.` leaves an empty component behind. -/
def keepItem (kept : List Item) (item : Item) : List Item :=
  if item = ['.'] then [] :: kept else if item = ['.', '.'] then kept.tail else item :: kept

/-- What `vfs_clean_path` does to components, the written ones being kept with
the last one first. The component after an empty one is kept without being looked
at. -/
def cleanItems (kept : List Item) : List Item → List Item
  | [] => kept.reverse
  | [item] =>
    if item = ['.'] then kept.reverse ++ [[]]
    else if item = ['.', '.'] then kept.tail.reverse ++ [[]]
    else kept.reverse ++ [item]
  | [[], item] => kept.reverse ++ [item]
  | [] :: item :: next :: rest => cleanItems (item :: kept) (next :: rest)
  | item :: next :: rest => cleanItems (keepItem kept item) (next :: rest)

/-- The buffer, last character first, when the components in `kept` have been
written and a slash after each. -/
def trail : List Item → List Char
  | [] => ['/']
  | item :: kept => '/' :: (item.reverse ++ trail kept)

theorem trail_cons_tail : '/' :: (trail kept).tail = trail kept := by
  cases kept <;> rfl

theorem absolute_concat (some : components ≠ []) :
    absolute (components ++ [item]) = absolute components ++ '/' :: item := by
  unfold absolute
  congr 1
  induction components with
  | nil => exact absurd rfl some
  | cons first rest ih =>
    cases rest with
    | nil => simp [intercalate_cons_cons]
    | cons second rest =>
      rw [cons_append, cons_append, intercalate_cons_cons, ← cons_append,
        ih (by simp), intercalate_cons_cons]
      simp

theorem trail_reverse :
    (item.reverse ++ trail kept).reverse = absolute (kept.reverse ++ [item]) := by
  induction kept generalizing item with
  | nil => simp [trail, absolute]
  | cons last kept ih =>
    have before := @ih last
    rw [reverse_cons, absolute_concat (by simp), ← before]
    simp [trail]

theorem goBack_trail (plain : '/' ∉ last) : goBack (trail (last :: kept)) = (trail kept).tail := by
  have stops : (last.reverse ++ trail kept).dropWhile (· != '/') = trail kept := by
    rw [dropWhile_append_of_pos]
    · cases kept <;> simp [trail]
    · intro x member
      have inside : x ∈ last := mem_reverse.mp member
      exact bne_iff_ne.mpr fun same => plain (same ▸ inside)
  simp only [goBack, trail, drop_succ_cons, drop_zero, stops, drop_one]

/-- What can follow a component: the end of the path or a slash. -/
def Boundary (tail : List Char) : Prop := tail = [] ∨ ∃ more, tail = '/' :: more

theorem cleanLoop_skip :
    cleanLoop ⟨'/' :: rest, result, slash⟩ true = cleanLoop ⟨rest, result, slash⟩ false :=
  cleanLoop_start (by simp) rfl

theorem cleanLoop_slash :
    cleanLoop ⟨'/' :: rest, result, slash⟩ false = cleanLoop ⟨rest, '/' :: result, slash⟩ true :=
  cleanLoop_copy rfl

theorem cleanLoop_dot (boundary : Boundary tail) :
    cleanLoop ⟨'.' :: tail, result, slash⟩ true = cleanLoop ⟨tail, result, slash⟩ false := by
  rcases boundary with rfl | ⟨more, rfl⟩
  · exact cleanLoop_start (by simp) rfl
  · exact cleanLoop_start (by simp) rfl

theorem startDirectory_name (plain : '/' ∉ item) (some : item ≠ []) (notDot : item ≠ ['.'])
    (notUp : item ≠ ['.', '.']) (boundary : Boundary tail) :
    Cleaning.startDirectory ⟨item ++ tail, result, slash⟩ =
      .some ⟨item ++ tail, result, slash⟩ := by
  -- The patterns look at three characters at most, so the name is cut there.
  rcases item with _ | ⟨x, _ | ⟨y, _ | ⟨z, name⟩⟩⟩
  · exact absurd rfl some
  · rcases boundary with rfl | ⟨more, rfl⟩ <;>
      (unfold Cleaning.startDirectory; split <;> simp_all)
  · rcases boundary with rfl | ⟨more, rfl⟩ <;>
      (unfold Cleaning.startDirectory; split <;> simp_all)
  · unfold Cleaning.startDirectory
    split <;> simp_all

theorem two_le_trail : ¬ (trail (last :: kept)).length < 2 := by
  cases kept <;> simp only [trail, length_append, length_cons, length_nil] <;> omega

theorem cleanLoop_up (plain : ∀ item ∈ kept, '/' ∉ item) :
    cleanLoop ⟨'.' :: '.' :: '/' :: more, trail kept, slash⟩ true =
      cleanLoop ⟨more, trail kept.tail, slash⟩ true := by
  have back : Cleaning.startDirectory ⟨'.' :: '.' :: '/' :: more, trail kept, slash⟩ =
      some ⟨'/' :: more, (trail kept.tail).tail, slash⟩ := by
    cases kept with
    | nil => rfl
    | cons last kept =>
      rw [tail_cons, ← goBack_trail (plain last mem_cons_self)]
      exact if_neg two_le_trail
  rw [cleanLoop_start (by simp) back, cleanLoop_slash, trail_cons_tail]

theorem cleanLoop_up_end (plain : ∀ item ∈ kept, '/' ∉ item) :
    cleanLoop ⟨['.', '.'], trail kept, false⟩ true =
      some (absolute (kept.tail.reverse ++ [[]])) := by
  cases kept with
  | nil =>
    rw [cleanLoop_start (by simp) rfl, cleanLoop_nil rfl]
    rfl
  | cons last kept =>
    have back : Cleaning.startDirectory ⟨['.', '.'], trail (last :: kept), false⟩ =
        some ⟨[], (trail kept).tail, true⟩ := by
      rw [← goBack_trail (plain last mem_cons_self)]
      exact if_neg two_le_trail
    have written : ('/' :: (trail kept).tail).reverse = absolute (kept.reverse ++ [[]]) := by
      rw [trail_cons_tail]
      exact @trail_reverse kept []
    rw [cleanLoop_start (by simp) back, cleanLoop_nil rfl]
    exact congrArg some written

section
variable {item : List Char} (plain : '/' ∉ item)
include plain

/-- A component that is copied as it stands and then ends the path. -/
theorem cleanLoop_last :
    cleanLoop ⟨item, trail kept, false⟩ false = some (absolute (kept.reverse ++ [item])) := by
  have copied : cleanLoop ⟨item ++ [], trail kept, false⟩ false =
      cleanLoop ⟨[], item.reverse ++ trail kept, false⟩ false := cleanLoop_name plain
  rw [append_nil] at copied
  rw [copied, cleanLoop_nil rfl, ← trail_reverse]
  rfl

theorem cleanLoop_kept :
    cleanLoop ⟨item ++ '/' :: more, trail kept, slash⟩ false =
      cleanLoop ⟨more, trail (item :: kept), slash⟩ true := by
  rw [cleanLoop_name plain, cleanLoop_slash]
  rfl

theorem cleanLoop_named (notDot : item ≠ ['.']) (notUp : item ≠ ['.', '.'])
    (some : item ≠ []) (boundary : Boundary tail) :
    cleanLoop ⟨item ++ tail, result, slash⟩ true = cleanLoop ⟨item ++ tail, result, slash⟩ false :=
  cleanLoop_start (by simp [some]) (startDirectory_name plain some notDot notUp boundary)

theorem cleanLoop_item (nonempty : item ≠ [])
    (keptPlain : ∀ item ∈ kept, '/' ∉ item) :
    cleanLoop ⟨item ++ '/' :: more, trail kept, slash⟩ true =
      cleanLoop ⟨more, trail (keepItem kept item), slash⟩ true := by
  unfold keepItem
  by_cases dot : item = ['.']
  · subst dot
    exact (cleanLoop_dot (.inr ⟨more, rfl⟩)).trans cleanLoop_slash
  by_cases up : item = ['.', '.']
  · subst up
    exact cleanLoop_up keptPlain
  · rw [if_neg dot, if_neg up, cleanLoop_named plain dot up nonempty (.inr ⟨more, rfl⟩),
      cleanLoop_kept plain]

theorem keepItem_plain (keptPlain : ∀ item ∈ kept, '/' ∉ item) :
    ∀ other ∈ keepItem kept item, '/' ∉ other := by
  intro other member
  unfold keepItem at member
  split at member
  · rcases mem_cons.mp member with rfl | member
    · simp
    · exact keptPlain other member
  split at member
  · exact keptPlain other (mem_of_mem_tail member)
  · rcases mem_cons.mp member with rfl | member
    · exact plain
    · exact keptPlain other member

end

/-- The last case of `cleanItems` is the one of a component that is not empty. -/
theorem ne_nil_of_looked_at (notLast : item = [] → rest = [] → False)
    (notSkipped : ∀ next later, item = [] → rest = next :: later → False) : item ≠ [] := by
  intro empty
  cases rest with
  | nil => exact notLast empty rfl
  | cons next later => exact notSkipped next later empty rfl

/-- The loop computes the stack machine on components. -/
theorem cleanLoop_items (nonempty : components ≠ []) (plain : ∀ item ∈ components, '/' ∉ item)
    (keptPlain : ∀ item ∈ kept, '/' ∉ item) :
    cleanLoop ⟨['/'].intercalate components, trail kept, false⟩ true =
      some (absolute (cleanItems kept components)) := by
  fun_induction cleanItems kept components with
  | case1 => exact absurd rfl nonempty
  | case2 =>
    exact (cleanLoop_dot (.inl rfl)).trans (cleanLoop_last not_mem_nil)
  | case3 => exact cleanLoop_up_end keptPlain
  | case4 kept item notDot notUp =>
    have itemPlain := plain item mem_cons_self
    rw [intercalate_singleton]
    by_cases empty : item = []
    · subst empty
      rw [cleanLoop_nil rfl, ← trail_reverse]
      rfl
    · have named : cleanLoop ⟨item ++ [], trail kept, false⟩ true =
          cleanLoop ⟨item ++ [], trail kept, false⟩ false :=
        cleanLoop_named itemPlain notDot notUp empty (.inl rfl)
      rw [append_nil] at named
      rw [named, cleanLoop_last itemPlain]
  | case5 kept item =>
    rw [intercalate_cons_cons, intercalate_singleton]
    exact cleanLoop_skip.trans (cleanLoop_last (plain item (by simp)))
  | case6 kept item next rest ih =>
    have itemPlain := plain item (by simp)
    have skipped : ['/'].intercalate ([] :: item :: next :: rest) =
        '/' :: (item ++ '/' :: ['/'].intercalate (next :: rest)) := by
      simp [intercalate_cons_cons]
    rw [skipped, cleanLoop_skip, cleanLoop_kept itemPlain]
    exact ih (by simp) (fun other member => plain other (by simp_all))
      (fun other member => by
        rcases mem_cons.mp member with rfl | member
        · exact itemPlain
        · exact keptPlain other member)
  | case7 kept item next rest notLast notSkipped ih =>
    have itemPlain := plain item mem_cons_self
    have nonempty := ne_nil_of_looked_at notLast notSkipped
    have path : ['/'].intercalate (item :: next :: rest) =
        item ++ '/' :: ['/'].intercalate (next :: rest) := by
      simp [intercalate_cons_cons]
    rw [path, cleanLoop_item itemPlain nonempty keptPlain]
    exact ih (by simp) (fun other member => plain other (by simp_all))
      (keepItem_plain itemPlain keptPlain)

theorem splitOn_plain {path : List Char} : ∀ item ∈ path.splitOn '/', '/' ∉ item := by
  induction path with
  | nil => simp
  | cons x path ih =>
    intro item member
    rw [splitOn_cons_eq_if_modifyHead] at member
    split at member
    · rcases mem_cons.mp member with rfl | member
      · simp
      · exact ih item member
    · rename_i notSlash
      cases parts : path.splitOn '/' with
      | nil => exact absurd parts (splitOn_ne_nil _ _)
      | cons first rest =>
        rw [parts] at member ih
        rcases mem_cons.mp member with rfl | member
        · intro slash
          rcases mem_cons.mp slash with rfl | slash
          · exact notSlash (by simp)
          · exact ih first mem_cons_self slash
        · exact ih item (mem_cons_of_mem _ member)

/-- `vfs_clean_path` accepts exactly the absolute paths and works on their
components. -/
theorem vfsCleanPath_eq (rooted : path.head? = some '/') :
    vfsCleanPath path = some (absolute (cleanItems [] (items path))) := by
  have joined : path.dropWhile (· == '/') = ['/'].intercalate (items path) :=
    (intercalate_splitOn '/').symm
  have cleaned : cleanLoop ⟨['/'].intercalate (items path), trail [], false⟩ true =
      some (absolute (cleanItems [] (items path))) :=
    cleanLoop_items items_ne_nil splitOn_plain (by simp)
  rw [vfsCleanPath, if_pos rooted, cleanLoop_slash, joined]
  exact cleaned

theorem vfsCleanPath_none (unrooted : path.head? ≠ some '/') : vfsCleanPath path = none :=
  if_neg unrooted

theorem cleanItems_ne_nil (nonempty : components ≠ []) : cleanItems kept components ≠ [] := by
  fun_induction cleanItems kept components with
  | case1 => exact absurd rfl nonempty
  | case6 kept item next rest ih => exact ih (by simp)
  | case7 kept item next rest _ _ ih => exact ih (by simp)
  | _ => simp

theorem mem_keepItem (member : found ∈ keepItem kept item) :
    found = [] ∨ found ∈ kept ∨ (found = item ∧ item ≠ ['.', '.']) := by
  unfold keepItem at member
  split at member
  · rcases mem_cons.mp member with rfl | member
    · exact .inl rfl
    · exact .inr (.inl member)
  split at member
  · exact .inr (.inl (mem_of_mem_tail member))
  · rename_i notUp
    rcases mem_cons.mp member with rfl | member
    · exact .inr (.inr ⟨rfl, notUp⟩)
    · exact .inr (.inl member)

/-- Some `..` of the path comes right after an even number of slashes, so that the
pass keeps it without looking at it. -/
def LiteralUp : List Item → Prop
  | [] => False
  | [_] => False
  | [] :: item :: rest => item = ['.', '.'] ∨ LiteralUp rest
  | _ :: next :: rest => LiteralUp (next :: rest)

instance decidableLiteralUp : (components : List Item) → Decidable (LiteralUp components)
  | [] => isFalse id
  | [_] => isFalse id
  | [] :: item :: rest =>
    have := decidableLiteralUp rest
    inferInstanceAs (Decidable (item = ['.', '.'] ∨ LiteralUp rest))
  | (_ :: _) :: next :: rest => decidableLiteralUp (next :: rest)

/-- Every component of the result was there before, or is empty. -/
theorem mem_cleanItems (member : found ∈ cleanItems kept components) :
    found = [] ∨ found ∈ kept ∨ found ∈ components := by
  fun_induction cleanItems kept components with
  | case6 kept item next rest ih => grind
  | case7 kept item next rest _ _ ih =>
    rcases ih member with rfl | inKept | inRest
    · exact .inl rfl
    · rcases mem_keepItem inKept with rfl | old | ⟨rfl, -⟩
      · exact .inl rfl
      · exact .inr (.inl old)
      · exact .inr (.inr mem_cons_self)
    · exact .inr (.inr (mem_cons_of_mem _ inRest))
  | _ => grind [mem_of_mem_tail]

theorem trail_length_tail : (trail kept.tail).length ≤ (trail kept).length := by
  cases kept with
  | nil => exact le_rfl
  | cons last kept =>
    simp only [tail_cons, trail, length_cons, length_append]
    omega

theorem absolute_length :
    (absolute (kept.reverse ++ [item])).length = item.length + (trail kept).length := by
  rw [← trail_reverse]
  simp [Nat.add_comm]

theorem trail_length_keepItem :
    (trail (keepItem kept item)).length ≤ (trail kept).length + item.length + 1 := by
  unfold keepItem
  split
  · simp only [trail, length_cons, length_append, length_reverse, length_nil]
    omega
  split
  · exact trail_length_tail.trans (by omega)
  · simp only [trail, length_cons, length_append, length_reverse]
    omega

theorem absolute_cleanItems_length (nonempty : components ≠ []) :
    (absolute (cleanItems kept components)).length ≤
      (trail kept).length + (['/'].intercalate components).length := by
  fun_induction cleanItems kept components with
  | case1 => exact absurd rfl nonempty
  | case2 kept =>
    rw [absolute_length]
    simp
  | case3 kept =>
    rw [absolute_length]
    have shorter : (trail kept.tail).length ≤ (trail kept).length := trail_length_tail
    simp only [length_nil]
    omega
  | case4 kept item =>
    rw [absolute_length, intercalate_singleton]
    omega
  | case5 kept item =>
    rw [absolute_length]
    simp [intercalate_cons_cons]
    omega
  | case6 kept item next rest ih =>
    have bound := ih (by simp)
    simp only [intercalate_cons_cons, trail, length_append, length_cons,
      length_nil, length_reverse] at bound ⊢
    omega
  | case7 kept item next rest _ _ ih =>
    have bound := ih (by simp)
    have grown : (trail (keepItem kept item)).length ≤ (trail kept).length + item.length + 1 :=
      trail_length_keepItem
    simp only [intercalate_cons_cons, length_append, length_cons,
      length_nil] at bound ⊢
    omega

/-- The pass never writes more than it has read. -/
theorem vfsCleanPath_length (cleaned : vfsCleanPath path = some result) :
    result.length ≤ path.length := by
  by_cases rooted : path.head? = some '/'
  · rw [vfsCleanPath_eq rooted] at cleaned
    cases cleaned
    have bound : (absolute (cleanItems [] (items path))).length ≤
        (trail []).length + (['/'].intercalate (items path)).length :=
      absolute_cleanItems_length items_ne_nil
    have joined : ['/'].intercalate (items path) = path.dropWhile (· == '/') :=
      intercalate_splitOn '/'
    rw [joined] at bound
    cases path with
    | nil => cases rooted
    | cons x path =>
      cases rooted
      have shorter : (path.dropWhile (· == '/')).length ≤ path.length :=
        (dropWhile_sublist _).length_le
      simp only [trail, dropWhile_cons, beq_self_eq_true, if_true, length_cons,
        length_nil] at bound ⊢
      omega
  · rw [vfsCleanPath_none rooted] at cleaned
    cases cleaned

end SbOS.Vfs
