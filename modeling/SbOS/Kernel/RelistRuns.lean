import SbOS.Kernel.RelistMemory

/-! Runs of calls on sparse lists that share one heap. While allocations succeed
each list is a finite map of its own, whatever is done to the others. -/
namespace SbOS.Kernel
open Function Program Relist Option

/-- The lists that have been set up, by name, and the memory they are in. -/
structure Lists (α : Type) where
  headers : Nat → Option RelistHeader
  heap : Heap α

namespace Lists
variable {α : Type} [Zero α]

/-- The calls; those that allocate come with the outcomes of their allocations. -/
inductive Call (α : Type) where
  | init (list : Nat) (places : Outcomes) (junk : Nat → α)
  | add (list : Nat) (value : α) (places : Outcomes)
  | set (list index : Nat) (value : α)
  | remove (list index : Nat)
  | get (list index : Nat)
  | clone (source target : Nat) (places : Outcomes)

inductive Reply (α : Type) where
  | done
  | added (index : Option Nat)
  | found (value : Option α) (atEnd : Bool)
  | cloned (success : Bool)

def header (s : Lists α) (list : Nat) : Except Stop RelistHeader :=
  match s.headers list with
  | some header => .ok header
  | none => .error .dangling

/-- The state after an operation on one list. -/
def withList (s : Lists α) (list : Nat) (header : RelistHeader) (heap : Heap α) : Lists α :=
  ⟨Function.update s.headers list (some header), heap⟩

def perform : Call α → Lists α → Except Stop (Reply α × Lists α)
  | .init list places junk, s =>
    let (header, heap) := RelistHeader.init places junk s.heap
    .ok (.done, s.withList list header heap)
  | .add list value places, s => do
    let ((index, header), heap) ← (← s.header list).add places value s.heap
    return (.added index, s.withList list header heap)
  | .set list index value, s => do
    let header ← s.header list
    return (.done, s.withList list header (← header.set index value s.heap))
  | .remove list index, s => do
    let header ← s.header list
    return (.done, s.withList list header (← header.remove index s.heap))
  | .get list index, s => do
    let (value, atEnd) ← (← s.header list).get index s.heap
    return (.found value atEnd, s)
  | .clone source target places, s => do
    let ((success, header), heap) ← (← s.header source).clone places s.heap
    return (.cloned success, s.withList target header heap)

/-! ### The lists as maps -/

/-- The same calls on maps. -/
def mapStep (call : Call α) (maps : Nat → Option (SlotMap α)) :
    Reply α × (Nat → Option (SlotMap α)) :=
  match call with
  | .init list _ _ => (.done, Function.update maps list (some (.empty 64)))
  | .add list value _ =>
    let map := (maps list).getD (.empty 0)
    (.added map.least, Function.update maps list (some (map.add 64 value)))
  | .set list index value => (.done, Function.update maps list ((maps list).map (·.set index value)))
  | .remove list index => (.done, Function.update maps list ((maps list).map (·.remove index)))
  | .get list index =>
    let map := (maps list).getD (.empty 0)
    (.found (map.map index) (decide (map.capacity ≤ index)), maps)
  | .clone source target _ => (.cloned true, Function.update maps target (maps source))

/-- Both allocations for arrays of `words` words succeed. -/
structure Granted (heap : Heap α) (list : RelistHeader) (places : Outcomes) (words : Nat) :
    Prop where
  fresh : RelistHeader.Fresh heap list places
  bitmap : allocated places.bitmap wordSize words ≠ none
  entries : allocated places.entries entriesSize words ≠ none

/-- The call is on lists that have been set up, meets what the code asserts, and
gets the memory it asks for. A list is cloned into another one. -/
def Allowed (call : Call α) (s : Lists α) (maps : Nat → Option (SlotMap α)) : Prop :=
  match call with
  | .init _ places _ => Granted s.heap .null places 1
  | .add list _ places => ∃ header map, s.headers list = some header ∧ maps list = some map ∧
    (map.least = map.capacity → Granted s.heap header places (map.capacity / 64 + 1))
  | .set list index _ => ∃ map, maps list = some map ∧ index < map.capacity
  | .remove list index => ∃ map, maps list = some map ∧ map.map index ≠ none
  | .get list _ => maps list ≠ none
  | .clone source target places => source ≠ target ∧
    ∃ header, s.headers source = some header ∧
      Granted s.heap .null places header.bitmapCapacity

/-- Each list holds its map, in arrays of its own. -/
structure Represents (s : Lists α) (maps : Nat → Option (SlotMap α)) : Prop where
  lists : ∀ k, (s.headers k = none ∧ maps k = none) ∨
    ∃ header r, s.headers k = some header ∧ header.Holds s.heap r ∧ maps k = some r.slotMap
  apart : ∀ k l header header' a, k ≠ l → s.headers k = some header →
    s.headers l = some header' → header.Owns a → ¬ header'.Owns a

section Steps
variable {s : Lists α} {maps : Nat → Option (SlotMap α)} {k : Nat} {heap' : Heap α}
  {old new header : RelistHeader} {r : Relist α}

omit [Zero α] in
theorem Represents.held (represents : s.Represents maps) (known : maps k = some map) :
    ∃ header r, s.headers k = some header ∧ header.Holds s.heap r ∧ map = r.slotMap := by
  rcases represents.lists k with ⟨-, absent⟩ | ⟨header, r, at_k, holds, same⟩
  · exact absurd (absent.symm.trans known) nofun
  · exact ⟨header, r, at_k, holds, some.inj (known.symm.trans same)⟩

omit [Zero α] in
theorem Represents.holds (represents : s.Represents maps) (at_k : s.headers k = some header) :
    ∃ r, header.Holds s.heap r ∧ maps k = some r.slotMap := by
  rcases represents.lists k with ⟨absent, -⟩ | ⟨header', r, same, holds, map⟩
  · exact absurd (absent.symm.trans at_k) nofun
  · cases same.symm.trans at_k
    exact ⟨r, holds, map⟩

omit [Zero α] in
/-- A local step of one list leaves the others as they are, with arrays of their own. -/
theorem Represents.replace (represents : s.Represents maps)
    (before : s.headers k = some old ∨ old = .null) (near : RelistHeader.Local s.heap heap' old new)
    (holds : new.Holds heap' r) :
    (s.withList k new heap').Represents (update maps k (some r.slotMap)) := by
  have foreign : ∀ l header a, l ≠ k → s.headers l = some header → header.Owns a →
      ¬ old.Owns a ∧ s.heap a ≠ none := by
    intro l header a other at_l owns
    obtain ⟨r, holds, -⟩ := represents.holds at_l
    refine ⟨?_, holds.owned_live owns⟩
    rcases before with at_k | rfl
    · exact represents.apart l k header old a other at_l at_k owns
    · rintro (nothing | nothing) <;> cases nothing
  have separate : ∀ l header a, l ≠ k → s.headers l = some header → header.Owns a →
      ¬ new.Owns a := by
    intro l header a other at_l owns owned
    obtain ⟨notOld, live⟩ := foreign l header a other at_l owns
    exact (near.owned a owned).elim notOld live
  refine ⟨fun l => ?_, fun l m header header' a apart at_l at_m owns owns' => ?_⟩
  · by_cases same : l = k
    · subst same
      exact .inr ⟨new, r, update_self .., holds, update_self ..⟩
    · simp only [withList, update_of_ne same]
      refine (represents.lists l).imp_right ?_
      rintro ⟨header, r, at_l, held, map⟩
      refine ⟨header, r, at_l, held.of_frame fun a owns => ?_, map⟩
      obtain ⟨notOld, live⟩ := foreign l header a same at_l owns
      exact near.frame a notOld live
  · simp only [withList] at at_l at_m
    by_cases first : l = k
    · subst first
      rw [update_self] at at_l
      rw [update_of_ne apart.symm] at at_m
      cases at_l
      exact separate m header' a apart.symm at_m owns' owns
    · rw [update_of_ne first] at at_l
      by_cases second : m = k
      · subst second
        rw [update_self] at at_m
        cases at_m
        exact separate l header a first at_l owns owns'
      · rw [update_of_ne second] at at_m
        exact represents.apart l m header header' a apart at_l at_m owns owns'

theorem allocated_some (granted : allocated outcome nelem elsize ≠ none) :
    ∃ a, outcome = some a := by
  unfold allocated at granted
  split at granted
  · exact absurd rfl granted
  · exact ne_none_iff_exists'.mp granted

theorem allocated_entries_small (granted : allocated outcome entriesSize n ≠ none) :
    n < 2 ^ 24 := by
  rw [allocated_entries] at granted
  by_contra large
  exact granted (if_neg large)

omit [Zero α] in
theorem header_eq (at_k : s.headers k = some header) : s.header k = .ok header := by
  unfold Lists.header
  rw [at_k]

/-- One call does what it does on the maps. -/
theorem perform_refines (call : Call α) (represents : s.Represents maps)
    (allowed : Allowed call s maps) :
    ∃ s', perform call s = .ok ((mapStep call maps).1, s') ∧
      s'.Represents (mapStep call maps).2 := by
  cases call with
  | init list places junk =>
    obtain ⟨b, bitmapAt⟩ := allocated_some allowed.bitmap
    obtain ⟨e, entriesAt⟩ := allocated_some allowed.entries
    obtain ⟨heap', ran, holds, near⟩ := RelistHeader.init_ok allowed.fresh junk bitmapAt entriesAt
    refine ⟨s.withList list ⟨e, 1, b⟩ heap', by simp only [perform, ran]; rfl, ?_⟩
    have after := represents.replace (k := list) (.inr rfl) near holds
    rw [RelistHeader.slotMap_init] at after
    exact after
  | add list value places =>
    obtain ⟨header, map, at_list, known, granted⟩ := allowed
    obtain ⟨r, holds, same⟩ := represents.holds at_list
    cases known.symm.trans same
    cases found : findFreeEntry r.bitmap 0 with
    | some entry =>
      obtain ⟨heap', ran, holds', near⟩ := holds.add_found places value found
      refine ⟨s.withList list header heap', ?_, ?_⟩
      · simp only [perform, header_eq at_list, ok_then, ran, mapStep, known, getD_some,
          least_of_found found]
        rfl
      · have after := represents.replace (.inl at_list) near holds'
        rw [slotMap_add_found found] at after
        simp only [mapStep, known, getD_some]
        exact after
    | none =>
      have least := least_of_full found
      obtain ⟨fresh, bitmap, entries⟩ := granted least
      have words : r.slotMap.capacity / 64 + 1 = r.bitmap.length + 1 := by
        change r.bitmap.length * 64 / 64 + 1 = _
        omega
      rw [words] at bitmap entries
      obtain ⟨b, bitmapAt⟩ := allocated_some bitmap
      obtain ⟨e, entriesAt⟩ := allocated_some entries
      obtain ⟨heap', ran, holds', near⟩ := holds.add_full fresh value found
        (allocated_entries_small entries) bitmapAt entriesAt
      refine ⟨s.withList list ⟨e, r.bitmap.length + 1, b⟩ heap', ?_, ?_⟩
      · simp only [perform, header_eq at_list, ok_then, ran, mapStep, known, getD_some, least]
        rfl
      · have after := represents.replace (.inl at_list) near holds'
        rw [slotMap_add_full found rfl fun _ inside => if_pos inside] at after
        simp only [mapStep, known, getD_some]
        exact after
  | set list index value =>
    obtain ⟨map, known, inside⟩ := allowed
    obtain ⟨header, r, at_list, holds, rfl⟩ := represents.held known
    obtain ⟨heap', ran, holds', near⟩ := holds.set_ok inside value
    refine ⟨s.withList list header heap', ?_, ?_⟩
    · simp only [perform, header_eq at_list, ok_then, ran]
      rfl
    · have after := represents.replace (.inl at_list) near holds'
      rw [slotMap_store inside] at after
      simp only [mapStep, known, map_some]
      exact after
  | remove list index =>
    obtain ⟨map, known, used⟩ := allowed
    obtain ⟨header, r, at_list, holds, rfl⟩ := represents.held known
    obtain ⟨inside, set⟩ := used_inside used
    obtain ⟨heap', ran, holds', near⟩ := holds.remove_ok inside set
    refine ⟨s.withList list header heap', ?_, ?_⟩
    · simp only [perform, header_eq at_list, ok_then, ran]
      rfl
    · have after := represents.replace (.inl at_list) near holds'
      rw [slotMap_cleared inside] at after
      simp only [mapStep, known, map_some]
      exact after
  | get list index =>
    obtain ⟨map, known⟩ := ne_none_iff_exists'.mp allowed
    obtain ⟨header, r, at_list, holds, rfl⟩ := represents.held known
    refine ⟨s, ?_, represents⟩
    simp only [perform, header_eq at_list, ok_then, holds.get_ok, get_slotMap, mapStep, known,
      getD_some]
    rfl
  | clone source target places =>
    obtain ⟨apart, header, at_source, fresh, bitmap, entries⟩ := allowed
    obtain ⟨r, holds, map⟩ := represents.holds at_source
    obtain ⟨b, bitmapAt⟩ := allocated_some bitmap
    obtain ⟨e, entriesAt⟩ := allocated_some entries
    obtain ⟨heap', r', ran, holds', same, near⟩ := holds.clone_ok fresh bitmapAt entriesAt
    refine ⟨s.withList target ⟨e, header.bitmapCapacity, b⟩ heap', ?_, ?_⟩
    · simp only [perform, header_eq at_source, ok_then, ran]
      rfl
    · have after := represents.replace (k := target) (.inr rfl) near holds'
      rw [same, ← map] at after
      exact after

omit [Zero α] in
theorem Granted.of_unused {heap : Heap α} {list : RelistHeader} (bitmap : heap b = none)
    (entries : heap e = none) (apart : b ≠ e) (small : words < 2 ^ 24) :
    Granted heap list ⟨some b, some e⟩ words where
  fresh := ⟨fun _ same => by cases same; exact bitmap, fun _ same => by cases same; exact .inl entries,
    fun _ first second => apart (some.inj (first.trans second.symm))⟩
  bitmap := by
    rw [allocated_words _ (by omega)]
    exact nofun
  entries := by
    rw [allocated_entries, if_pos small]
    exact nofun

/-- No list is set up; the memory may be in use for other things. -/
def initial (heap : Heap α) : Lists α := ⟨fun _ => none, heap⟩

/-- In every run in which allocations succeed each call returns, with the reply of
the maps, and the lists hold the maps afterwards. -/
theorem lists_run_as_maps (heap : Heap α) (calls : List (Call α))
    (allowed : Program.ValidRun perform Program.ask mapStep Allowed calls (initial heap)
      fun _ => none) :
    ∃ s', Program.execute perform (Program.forEach Program.ask calls) (initial heap) =
        .ok ((Program.stepAll mapStep calls fun _ => none).1, s') ∧
      s'.Represents (Program.stepAll mapStep calls fun _ => none).2 := by
  have start : (initial heap).Represents fun _ => none :=
    ⟨fun _ => .inl ⟨rfl, rfl⟩, nofun⟩
  refine forEach_refines_run (fun call s maps represents fine => ?_) start allowed
  rw [execute_ask]
  exact perform_refines call represents fine

/-- Two lists, the second a copy of the first. -/
theorem lists_run_as_maps_copy :
    ∃ s', Program.execute perform (Program.forEach Program.ask
          [.init 0 ⟨some 1, some 2⟩ fun _ => 5, .add 0 7 ⟨some 3, some 4⟩,
            .clone 0 1 ⟨some 5, some 6⟩, .get 1 0]) (initial fun _ => none) =
        .ok ((Program.stepAll mapStep
          [.init 0 ⟨some 1, some 2⟩ fun _ => 5, .add 0 7 ⟨some 3, some 4⟩,
            .clone 0 1 ⟨some 5, some 6⟩, .get 1 0] fun _ => none).1, s') ∧
      s'.Represents (Program.stepAll mapStep
        [.init 0 ⟨some 1, some 2⟩ fun _ => 5, .add 0 7 ⟨some 3, some 4⟩,
          .clone 0 1 ⟨some 5, some 6⟩, .get 1 0] fun _ => none).2 := by
  refine lists_run_as_maps (fun _ => (none : Option (Allocation Nat))) _ ?_
  refine .cons (.of_unused rfl rfl (by decide) (by decide)) rfl ?_
  refine .cons ⟨_, _, rfl, rfl, fun _ => .of_unused rfl rfl (by decide) (by decide)⟩ rfl ?_
  refine .cons ⟨by decide, _, rfl, .of_unused rfl rfl (by decide) (by decide)⟩ rfl ?_
  exact ⟨nofun, fun _ _ _ => trivial⟩

/-! ### Failed insertions -/

/-- What a failed call is to leave as it was: the values of the list, its arrays, and
the replies of every later run. -/
structure Unharmed (s s' : Lists α) (list : Nat) : Prop where
  values : ∀ index, Except.map Prod.fst (perform (.get list index) s') =
    Except.map Prod.fst (perform (.get list index) s)
  arrays : ∃ header r, s'.headers list = some header ∧ header.Holds s'.heap r
  later : ∀ calls, Except.map Prod.fst (Program.execute perform (Program.forEach Program.ask calls) s') =
    Except.map Prod.fst (Program.execute perform (Program.forEach Program.ask calls) s)

/-- All slots are in use and the list has arrays; the larger bitmap gets its memory
and the larger array of values does not. -/
structure HalfGrown (header : RelistHeader) (r : Relist α) (places : Outcomes) : Prop where
  full : ∀ index < r.slots, r.isUsed index = true
  bitmap : header.bitmap ≠ none
  first : allocated places.bitmap wordSize (r.bitmap.length + 1) ≠ none
  second : allocated places.entries entriesSize (r.bitmap.length + 1) = none

omit [Zero α] in
theorem full_iff : findFreeEntry r.bitmap 0 = none ↔
    ∀ index < r.slots, r.isUsed index = true := by
  refine ⟨findFreeEntry_none, fun full => ?_⟩
  cases found : findFreeEntry r.bitmap 0 with
  | none => rfl
  | some entry =>
    obtain ⟨-, inside, free, -⟩ := findFreeEntry_free found
    rw [zero_add] at inside
    exact absurd (free.symm.trans (full entry inside)) (by decide)

theorem perform_add (at_k : s.headers k = some header)
    (ran : header.add places value s.heap = .ok (result, heap')) :
    perform (.add k value places) s = .ok (.added result.1, s.withList k result.2 heap') := by
  simp only [perform, header_eq at_k, ok_then, ran]
  rfl

omit [Zero α] in
theorem withList_self (at_k : s.headers k = some header) : s.withList k header s.heap = s := by
  unfold withList
  rw [← at_k, update_eq_self]

section
variable (at_k : s.headers k = some header) (holds : header.Holds s.heap r)
  (fresh : RelistHeader.Fresh s.heap header places)
include at_k holds fresh

/-- Without such a half growth a call that returns 0 changes nothing. -/
theorem unchanged_of_failed (whole : ¬ HalfGrown header r places)
    (ran : perform (.add k value places) s = .ok (.added none, s')) : s' = s := by
  cases found : findFreeEntry r.bitmap 0 with
  | some entry =>
    obtain ⟨heap', added, -⟩ := holds.add_found places value found
    rw [perform_add at_k added] at ran
    cases ran
  | none =>
    by_cases first : allocated places.bitmap wordSize (r.bitmap.length + 1) = none
    · rw [perform_add at_k (holds.add_none value found (holds.grow_none first))] at ran
      cases ran
      exact withList_self at_k
    · obtain ⟨b, place⟩ := allocated_some first
      by_cases second : allocated places.entries entriesSize (r.bitmap.length + 1) = none
      · have noBitmap : header.bitmap = none := by
          by_contra owned
          exact whole ⟨full_iff.mp found, owned, first, second⟩
        obtain ⟨heap', failed, -, same⟩ := holds.grow_half fresh place second
        rw [perform_add at_k (holds.add_none value found failed), same noBitmap] at ran
        cases ran
        exact withList_self at_k
      · obtain ⟨e, place'⟩ := allocated_some second
        obtain ⟨heap', added, -⟩ := holds.add_full fresh value found
          (allocated_entries_small second) place place'
        rw [perform_add at_k added] at ran
        cases ran

/-- After a half growth the list is left with a bitmap that has been freed. -/
theorem half_grown_dangles (half : HalfGrown header r places) (value : α) :
    ∃ s' a, perform (.add k value places) s = .ok (.added none, s') ∧
      s'.headers k = some header ∧ header.bitmap = some a ∧ s'.heap a = none := by
  obtain ⟨b, place⟩ := allocated_some half.first
  obtain ⟨a, owned⟩ := ne_none_iff_exists'.mp half.bitmap
  obtain ⟨heap', failed, freed, -⟩ := holds.grow_half fresh place half.second
  exact ⟨_, a, perform_add at_k (holds.add_none value (full_iff.mpr half.full) failed),
    update_self .., owned, freed a owned⟩

end

/-- A failed insertion leaves the list usable except where it fails half way through
the growth of the two arrays. -/
theorem failed_add_harmless_iff (s : Lists α) (k : Nat) (header : RelistHeader) (r : Relist α)
    (places : Outcomes) (value : α) (at_k : s.headers k = some header)
    (holds : header.Holds s.heap r) (fresh : RelistHeader.Fresh s.heap header places) :
    (∀ s', perform (.add k value places) s = .ok (.added none, s') → Unharmed s s' k) ↔
      ¬ HalfGrown header r places := by
  constructor
  · intro harmless half
    obtain ⟨s', a, ran, kept, owned, freed⟩ := half_grown_dangles at_k holds fresh half value
    obtain ⟨header', r', at_k', holds'⟩ := (harmless s' ran).arrays
    cases kept.symm.trans at_k'
    exact holds'.owned_live (.inl owned) freed
  · intro whole s' ran
    rw [unchanged_of_failed at_k holds fresh whole ran]
    exact ⟨fun _ => rfl, ⟨header, r, at_k, holds⟩, fun _ => rfl⟩

/-- A list whose 64 slots are all in use. -/
def fullList : Lists Nat where
  headers k := if k = 0 then some ⟨some 2, 1, some 1⟩ else none
  heap a := if a = 1 then some (.words [BitVec.allOnes 64])
    else if a = 2 then some (.values 64 fun i => i) else none

theorem fullList_holds : RelistHeader.Holds fullList.heap ⟨some 2, 1, some 1⟩
    ⟨fun i => i, [BitVec.allOnes 64]⟩ :=
  ⟨rfl, show 1 < 2 ^ 24 by decide, .inr ⟨1, 2, rfl, rfl, rfl, rfl⟩⟩

/-- Without memory for the bitmap the full list stays as it is. -/
theorem failed_add_harmless_full :
    ∃ s', perform (.add 0 9 ⟨none, some 3⟩) fullList = .ok (.added none, s') ∧
      Unharmed fullList s' 0 := by
  have fresh : RelistHeader.Fresh fullList.heap ⟨some 2, 1, some 1⟩ ⟨none, some 3⟩ :=
    ⟨nofun, fun a same => by cases same; exact .inl rfl, nofun⟩
  have whole : ¬ HalfGrown ⟨some 2, 1, some 1⟩
      (⟨fun i => i, [BitVec.allOnes 64]⟩ : Relist Nat) ⟨none, some 3⟩ :=
    fun half => half.first (by decide)
  have ran : perform (.add 0 9 ⟨none, some 3⟩) fullList =
      .ok (.added none, fullList.withList 0 ⟨some 2, 1, some 1⟩ fullList.heap) := rfl
  exact ⟨_, ran, (failed_add_harmless_iff fullList 0 _ _ ⟨none, some 3⟩ 9 rfl fullList_holds
    fresh).mpr whole _ ran⟩

/-- With memory for the bitmap only, the insertion returns 0 and the values of the
full list cannot be read any more. -/
theorem half_grown_list_lost :
    perform (.get 0 5) fullList = .ok (.found (some 5) false, fullList) ∧
      ∃ s', perform (.add 0 9 ⟨some 3, none⟩) fullList = .ok (.added none, s') ∧
        perform (.get 0 5) s' = .error .dangling ∧ ¬ Unharmed fullList s' 0 := by
  have ran : perform (.add 0 9 ⟨some 3, none⟩) fullList =
      .ok (.added none, _) := rfl
  refine ⟨rfl, _, ran, rfl, fun unharmed => ?_⟩
  have same := unharmed.values 5
  cases same

end Steps

end Lists

end SbOS.Kernel
