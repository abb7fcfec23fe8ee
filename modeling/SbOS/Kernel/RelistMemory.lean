import SbOS.Kernel.Relist

/-! The two arrays of a sparse list in the kernel heap: `relist_init`,
`relist_clone` and `relist_add` of `lib/relist.c` with the allocations they make,
each of which may fail, and the other operations through the same pointers. The
operations on arrays that are live refine those on lists. -/
namespace SbOS.Kernel
open Function List Option

/-- What a live allocation holds: the words of a bitmap, or `count` values. -/
inductive Allocation (α : Type) where
  | words (bitmap : List (BitVec 64))
  | values (count : Nat) (entries : Nat → α)

/-- The live allocations by address. -/
abbrev Heap (α : Type) := Nat → Option (Allocation α)

/-- `struct relist`; `none` is the null pointer. -/
structure RelistHeader where
  entries : Option Nat
  bitmapCapacity : Nat
  bitmap : Option Nat

/-- Where the two allocations of one call end up, if they succeed. -/
structure Outcomes where
  bitmap : Option Nat
  entries : Option Nat

variable {α : Type} [Zero α]

namespace Allocation

/-- The first `capacity` words, or the first 64 values to each of them, with zeros
past the end of the old allocation. -/
def resized (capacity : Nat) : Allocation α → Allocation α
  | words bitmap => words ((bitmap ++ List.replicate capacity 0).take capacity)
  | values count entries =>
    values (capacity * 64) fun i => if i < min count (capacity * 64) then entries i else 0

end Allocation

/-- The address `int_kmalloc` returns for `nelem` times `elsize` bytes. -/
def allocated (outcome : Option Nat) (nelem elsize : Nat) : Option Nat :=
  if mulOverflow nelem elsize then none else outcome

/-- `krecalloc`, where `zeroed` is what `kcalloc` makes. The old allocation is freed
after it has been copied. -/
def krecalloc (outcome ptr : Option Nat) (nelem elsize : Nat) (zeroed : Allocation α)
    (heap : Heap α) : Except Stop (Option Nat × Heap α) :=
  match allocated outcome nelem elsize with
  | none => .ok (none, heap)
  | some rc =>
    match ptr with
    | none => .ok (rc, Function.update heap rc (some zeroed))
    | some ptr =>
      match heap ptr with
      | none => .error .dangling
      | some old =>
        .ok (rc, Function.update (Function.update heap rc (some (old.resized elsize))) ptr none)

/-- `sizeof(u64)`. -/
def wordSize : Nat := 8

/-- `sizeof(void *) * sizeof(u64) * 8`. -/
def entriesSize : Nat := 4 * 8 * 8

theorem allocated_words (outcome : Option Nat) (small : n < 2 ^ 29) :
    allocated outcome wordSize n = outcome := by
  have fits : mulOverflow 8 n = false := mulOverflow_false (by omega)
  exact if_neg (by rw [wordSize, fits]; exact Bool.false_ne_true)

theorem allocated_entries (outcome : Option Nat) (n : Nat) :
    allocated outcome entriesSize n = if n < 2 ^ 24 then outcome else none := by
  have overflows : mulOverflow 256 n = decide (2 ^ 24 ≤ n) := by
    rw [Bool.eq_iff_iff, mulOverflow_iff, decide_eq_true_iff]
    omega
  unfold allocated
  rw [show entriesSize = 256 from rfl, overflows]
  by_cases small : n < 2 ^ 24
  · rw [if_pos small, if_neg (by simpa using small)]
  · rw [if_neg small, if_pos (by simpa using small)]

namespace RelistHeader

/-- The words that a loop over the bitmap reads. -/
def words (list : RelistHeader) (heap : Heap α) : Except Stop (List (BitVec 64)) :=
  if list.bitmapCapacity = 0 then .ok []
  else
    match list.bitmap.bind heap with
    | some (.words bitmap) =>
      if bitmap.length < list.bitmapCapacity then .error .overrun
      else .ok (bitmap.take list.bitmapCapacity)
    | _ => .error .dangling

/-- The bit of `index` in the bitmap. -/
def isUsed (list : RelistHeader) (heap : Heap α) (index : Nat) : Except Stop Bool :=
  match list.bitmap.bind heap with
  | some (.words bitmap) =>
    if index / 64 < bitmap.length then
      .ok ((bitmap.getD (index / 64) 0).getLsbD (index % 64))
    else .error .overrun
  | _ => .error .dangling

/-- The values that `relist_clone` copies. -/
def values (list : RelistHeader) (heap : Heap α) : Except Stop (Nat → α) :=
  if list.bitmapCapacity = 0 then .ok fun _ => 0
  else
    match list.entries.bind heap with
    | some (.values count entries) =>
      if count < list.bitmapCapacity * 64 then .error .overrun else .ok entries
    | _ => .error .dangling

/-- `list->entries[index]`. -/
def entry (list : RelistHeader) (heap : Heap α) (index : Nat) : Except Stop α :=
  match list.entries.bind heap with
  | some (.values count entries) =>
    if index < count then .ok (entries index) else .error .overrun
  | _ => .error .dangling

/-- `list->entries[index] = value`. -/
def setEntry (list : RelistHeader) (heap : Heap α) (index : Nat) (value : α) :
    Except Stop (Heap α) :=
  match list.entries with
  | none => .error .dangling
  | some ptr =>
    match heap ptr with
    | some (.values count entries) =>
      if index < count then
        .ok (Function.update heap ptr (some (.values count (Function.update entries index value))))
      else .error .overrun
    | _ => .error .dangling

/-- Replaces the word of the bitmap in which `index` has its bit. -/
def setWord (list : RelistHeader) (heap : Heap α) (index : Nat)
    (change : BitVec 64 → BitVec 64) : Except Stop (Heap α) :=
  match list.bitmap with
  | none => .error .dangling
  | some ptr =>
    match heap ptr with
    | some (.words bitmap) =>
      if index / 64 < bitmap.length then
        .ok (Function.update heap ptr (some (.words (bitmap.modify (index / 64) change))))
      else .error .overrun
    | _ => .error .dangling

/-- A list without arrays. -/
def null : RelistHeader := ⟨none, 0, none⟩

/-- `relist_init`; `junk` is what the new array of values holds. -/
def init (places : Outcomes) (junk : Nat → α) (heap : Heap α) : RelistHeader × Heap α :=
  match allocated places.bitmap wordSize 1 with
  | none => (null, heap)
  | some bitmap =>
    let heap := Function.update heap bitmap (some (.words [0]))
    match allocated places.entries entriesSize 1 with
    | none => (null, Function.update heap bitmap none)
    | some entries =>
      (⟨entries, 1, bitmap⟩, Function.update heap entries (some (.values 64 junk)))

/-- `relist_clone(source, out)` for another list `out`: whether it succeeded, and
what is in `out` then. -/
def clone (places : Outcomes) (source : RelistHeader) (heap : Heap α) :
    Except Stop ((Bool × RelistHeader) × Heap α) :=
  match allocated places.bitmap wordSize source.bitmapCapacity with
  | none => .ok ((false, null), heap)
  | some bitmap =>
    match allocated places.entries entriesSize source.bitmapCapacity with
    | none => .ok ((false, null), Function.update heap bitmap none)
    | some entries => do
      let words ← source.words heap
      let values ← source.values heap
      return ((true, ⟨entries, source.bitmapCapacity, bitmap⟩),
        Function.update (Function.update heap bitmap (some (.words words))) entries
          (some (.values (source.bitmapCapacity * 64) values)))

/-- The last lines of `relist_add`. -/
def store (list : RelistHeader) (entry : Nat) (value : α) (heap : Heap α) :
    Except Stop (Heap α) := do
  let heap ← list.setEntry heap entry value
  list.setWord heap entry (· ||| Relist.bit (entry % 64))

/-- The second half of the growth in `relist_add`: the new array of values, and the
new arrays in the list once both are there. -/
def growEntries (places : Outcomes) (list : RelistHeader) (newCapacity newAllocation : Nat)
    (heap : Heap α) : Except Stop (Option RelistHeader × Heap α) := do
  let (newEntry, heap) ← krecalloc places.entries list.entries entriesSize newCapacity
    (.values (newCapacity * 64) fun _ => 0) heap
  match newEntry with
  | none => return (none, Function.update heap newAllocation none)
  | some newEntry => return (some ⟨newEntry, newCapacity, newAllocation⟩, heap)

/-- The growth in `relist_add`: the list with its new arrays, or nothing where the
call returns 0. -/
def grow (places : Outcomes) (list : RelistHeader) (heap : Heap α) :
    Except Stop (Option RelistHeader × Heap α) := do
  let newCapacity := wrap32 (list.bitmapCapacity + 1)
  let (newAllocation, heap) ← krecalloc places.bitmap list.bitmap wordSize newCapacity
    (.words (List.replicate newCapacity 0)) heap
  match newAllocation with
  | none => return (none, heap)
  | some newAllocation => growEntries places list newCapacity newAllocation heap

/-- `relist_add`: the index, unless it returns 0. -/
def add (places : Outcomes) (list : RelistHeader) (value : α) (heap : Heap α) :
    Except Stop ((Option Nat × RelistHeader) × Heap α) := do
  match Relist.findFreeEntry (← list.words heap) 0 with
  | some entry => return ((entry, list), ← list.store entry value heap)
  | none =>
    match ← list.grow places heap with
    | (none, heap) => return ((none, list), heap)
    | (some grown, heap) =>
      match Relist.findFreeEntry (← grown.words heap) 0 with
      | none => .error .assertion
      | some entry => return ((entry, grown), ← grown.store entry value heap)

def remove (list : RelistHeader) (index : Nat) (heap : Heap α) : Except Stop (Heap α) := do
  if wrap32 (list.bitmapCapacity * 64) ≤ index then .error .assertion
  else if ← list.isUsed heap index then
    list.setWord heap index (· &&& ~~~Relist.bit (index % 64))
  else .error .assertion

def set (list : RelistHeader) (index : Nat) (value : α) (heap : Heap α) :
    Except Stop (Heap α) := do
  if wrap32 (list.bitmapCapacity * 64) ≤ index then .error .assertion
  else
    let heap ← list.setWord heap index (· ||| Relist.bit (index % 64))
    list.setEntry heap index value

def get (list : RelistHeader) (index : Nat) (heap : Heap α) : Except Stop (Option α × Bool) := do
  if wrap32 (list.bitmapCapacity * 64) ≤ index then return (none, true)
  else if ← list.isUsed heap index then return (some (← list.entry heap index), false)
  else return (none, false)

/-! ### Arrays that hold a list -/

/-- The arrays are live and as long as the capacity says, and their contents are the
list `r`. A list without arrays has no capacity. An array of values has less than
2^32 bytes, which bounds the capacity. -/
structure Holds (heap : Heap α) (list : RelistHeader) (r : Relist α) : Prop where
  capacity : list.bitmapCapacity = r.bitmap.length
  small : r.bitmap.length < 2 ^ 24
  arrays : (list.bitmap = none ∧ list.entries = none ∧ r.bitmap = []) ∨
    ∃ b e, list.bitmap = some b ∧ list.entries = some e ∧
      heap b = some (.words r.bitmap) ∧ heap e = some (.values r.slots r.entries)

/-- The array at an address belongs to the list. -/
def Owns (list : RelistHeader) (a : Nat) : Prop := list.bitmap = some a ∨ list.entries = some a

/-- A step that turns one list into another: live memory that is not the list's stays
as it is, and what the new list has was the old one's or not in use. -/
structure Local (heap heap' : Heap α) (list list' : RelistHeader) : Prop where
  frame : ∀ a, ¬ list.Owns a → heap a ≠ none → heap' a = heap a
  owned : ∀ a, list'.Owns a → list.Owns a ∨ heap a = none

omit [Zero α] in
theorem Local.trans
    (first : Local heap heap' list list') (second : Local heap' heap'' list' list'') :
    Local heap heap'' list list'' where
  frame := by
    intro a foreign live
    have same := first.frame a foreign live
    have foreign' : ¬ list'.Owns a := fun owns => (first.owned a owns).elim foreign live
    exact (second.frame a foreign' (same ▸ live)).trans same
  owned := by
    intro a owns
    rcases second.owned a owns with before | unused
    · exact first.owned a before
    · by_contra neither
      rw [not_or] at neither
      exact neither.2 (first.frame a neither.1 neither.2 ▸ unused)

namespace Holds
variable {heap heap' : Heap α} {list list' : RelistHeader} {r : Relist α} {index : Nat} {value : α}

section
variable (holds : list.Holds heap r)
include holds
omit [Zero α]

theorem live (inside : index < r.slots) :
    ∃ b e, list.bitmap = some b ∧ list.entries = some e ∧
      heap b = some (.words r.bitmap) ∧ heap e = some (.values r.slots r.entries) := by
  rcases holds.arrays with ⟨-, -, empty⟩ | live
  · simp [Relist.slots, empty] at inside
  · exact live

theorem owned_live (owns : list.Owns a) : heap a ≠ none := by
  rcases holds.arrays with ⟨noBitmap, noEntries, -⟩ | ⟨b, e, bitmap, entries, words, values⟩
  · rcases owns with owns | owns
    · exact absurd (noBitmap.symm.trans owns) nofun
    · exact absurd (noEntries.symm.trans owns) nofun
  · rcases owns with owns | owns
    · cases bitmap.symm.trans owns
      rw [words]
      exact nofun
    · cases entries.symm.trans owns
      rw [values]
      exact nofun

theorem of_frame (frame : ∀ a, list.Owns a → heap' a = heap a) :
    list.Holds heap' r where
  capacity := holds.capacity
  small := holds.small
  arrays := holds.arrays.imp_right fun ⟨b, e, bitmap, entries, words, values⟩ =>
    ⟨b, e, bitmap, entries, (frame b (.inl bitmap)).trans words,
      (frame e (.inr entries)).trans values⟩

theorem slots_eq : wrap32 (list.bitmapCapacity * 64) = r.slots := by
  have small := holds.small
  rw [holds.capacity]
  exact Nat.mod_eq_of_lt (by omega)

theorem words_ok : list.words heap = .ok r.bitmap := by
  unfold words
  rw [holds.capacity]
  rcases holds.arrays with ⟨-, -, empty⟩ | ⟨b, e, bitmap, -, words, -⟩
  · rw [empty]
    rfl
  · split
    · rename_i empty
      rw [length_eq_zero_iff.mp empty]
    · rw [bitmap, bind_some, words]
      simp

theorem values_ok [Zero α] :
    ∃ cells, list.values heap = .ok cells ∧ (r.bitmap = [] ∨ cells = r.entries) := by
  unfold values
  rw [holds.capacity]
  rcases holds.arrays with ⟨-, -, empty⟩ | ⟨b, e, -, entries, -, values⟩
  · exact ⟨_, by rw [empty]; rfl, .inl empty⟩
  · split
    · rename_i empty
      exact ⟨_, rfl, .inl (length_eq_zero_iff.mp empty)⟩
    · refine ⟨r.entries, ?_, .inr rfl⟩
      rw [entries, bind_some, values]
      simp [Relist.slots]

section
variable (inside : index < r.slots)
include inside

theorem isUsed_ok :
    list.isUsed heap index = .ok (r.isUsed index) := by
  obtain ⟨b, e, bitmap, -, words, -⟩ := holds.live inside
  unfold isUsed
  rw [bitmap, bind_some, words]
  exact if_pos (Relist.word_inside inside)

omit inside in
theorem get_ok : list.get index heap = .ok (r.get index) := by
  unfold RelistHeader.get Relist.get
  rw [holds.slots_eq]
  by_cases past : r.slots ≤ index
  · rw [if_pos past, if_pos past]
    rfl
  · obtain ⟨b, e, -, entries, -, values⟩ := holds.live (Nat.lt_of_not_le past)
    have entry : list.entry heap index = .ok (r.entries index) := by
      unfold RelistHeader.entry
      rw [entries, bind_some, values]
      exact if_pos (Nat.lt_of_not_le past)
    rw [if_neg past, if_neg past, holds.isUsed_ok (Nat.lt_of_not_le past)]
    rw [entry]
    cases r.isUsed index <;> rfl

theorem setWord_ok (change : BitVec 64 → BitVec 64) :
    ∃ heap', list.setWord heap index change = .ok heap' ∧
      list.Holds heap' { r with bitmap := r.bitmap.modify (index / 64) change } ∧
      Local heap heap' list list := by
  obtain ⟨b, e, bitmap, entries, words, values⟩ := holds.live inside
  have apart : e ≠ b := by
    rintro rfl
    rw [words] at values
    cases values
  have slots : Relist.slots { r with bitmap := r.bitmap.modify (index / 64) change } = r.slots := by
    simp [Relist.slots]
  refine ⟨update heap b (some (.words (r.bitmap.modify (index / 64) change))), ?_,
    ⟨?_, ?_, .inr ⟨b, e, bitmap, entries, ?_, ?_⟩⟩, fun a foreign live => ?_, fun a => .inl⟩
  · unfold setWord
    rw [bitmap]
    dsimp only
    rw [words]
    exact if_pos (Relist.word_inside inside)
  · rw [length_modify, holds.capacity]
  · rw [length_modify]
    exact holds.small
  · rw [update_self]
  · rw [update_of_ne apart, slots, values]
  · refine update_of_ne ?_ _ _
    rintro rfl
    exact foreign (.inl bitmap)

theorem setEntry_ok (value : α) :
    ∃ heap', list.setEntry heap index value = .ok heap' ∧
      list.Holds heap' { r with entries := update r.entries index value } ∧
      Local heap heap' list list := by
  obtain ⟨b, e, bitmap, entries, words, values⟩ := holds.live inside
  have apart : b ≠ e := by
    rintro rfl
    rw [words] at values
    cases values
  refine ⟨update heap e (some (.values r.slots (update r.entries index value))),
    ?_, ⟨holds.capacity, holds.small, .inr ⟨b, e, bitmap, entries, ?_, update_self ..⟩⟩,
    fun a foreign live => ?_, fun a => .inl⟩
  · unfold setEntry
    rw [entries]
    dsimp only
    rw [values]
    exact if_pos inside
  · rw [update_of_ne apart, words]
  · refine update_of_ne ?_ _ _
    rintro rfl
    exact foreign (.inr entries)

theorem store_ok (value : α) :
    ∃ heap', list.store index value heap = .ok heap' ∧ list.Holds heap' (r.store index value) ∧
      Local heap heap' list list := by
  obtain ⟨middle, first, holds', near⟩ := holds.setEntry_ok inside value
  obtain ⟨heap', second, holds'', near'⟩ :=
    holds'.setWord_ok inside (· ||| Relist.bit (index % 64))
  exact ⟨heap', by rw [store, first]; exact second, holds'', near.trans near'⟩

theorem set_ok (value : α) :
    ∃ heap', list.set index value heap = .ok heap' ∧ list.Holds heap' (r.store index value) ∧
      Local heap heap' list list := by
  obtain ⟨middle, first, holds', near⟩ :=
    holds.setWord_ok inside (· ||| Relist.bit (index % 64))
  obtain ⟨heap', second, holds'', near'⟩ :=
    holds'.setEntry_ok (by simpa [Relist.slots] using inside) value
  refine ⟨heap', ?_, holds'', near.trans near'⟩
  unfold RelistHeader.set
  rw [holds.slots_eq, if_neg (Nat.not_le_of_lt inside), first]
  exact second

theorem remove_ok (used : r.isUsed index = true) :
    ∃ heap', list.remove index heap = .ok heap' ∧
      list.Holds heap' { r with
        bitmap := r.bitmap.modify (index / 64) (· &&& ~~~Relist.bit (index % 64)) } ∧
      Local heap heap' list list := by
  obtain ⟨heap', ran, holds', near⟩ :=
    holds.setWord_ok inside (· &&& ~~~Relist.bit (index % 64))
  refine ⟨heap', ?_, holds', near⟩
  unfold RelistHeader.remove
  rw [holds.slots_eq, if_neg (Nat.not_le_of_lt inside), holds.isUsed_ok inside, used]
  exact ran

end

end

end Holds

/-! ### Growth -/

/-- Memory that the allocator hands out for the growth of a list is not in use; the
second allocation may get the old bitmap's place, which is free by then. -/
structure Fresh (heap : Heap α) (list : RelistHeader) (places : Outcomes) : Prop where
  bitmap : ∀ a, places.bitmap = some a → heap a = none
  entries : ∀ a, places.entries = some a → heap a = none ∨ list.bitmap = some a
  apart : ∀ a, places.bitmap = some a → places.entries ≠ some a

section Growth
variable {heap : Heap α} {list : RelistHeader} {r : Relist α} {places : Outcomes} {b e : Nat}

theorem krecalloc_null (zeroed : Allocation α)
    (granted : allocated outcome nelem elsize = some rc) :
    krecalloc outcome none nelem elsize zeroed heap =
      .ok (some rc, update heap rc (some zeroed)) := by
  unfold krecalloc
  rw [granted]

theorem krecalloc_live (zeroed : Allocation α)
    (granted : allocated outcome nelem elsize = some rc) (live : heap ptr = some old) :
    krecalloc outcome (some ptr) nelem elsize zeroed heap =
      .ok (some rc, update (update heap rc (some (old.resized elsize))) ptr
        none) := by
  unfold krecalloc
  rw [granted]
  dsimp only
  rw [live]

theorem krecalloc_none (zeroed : Allocation α)
    (failed : allocated outcome nelem elsize = none) :
    krecalloc outcome ptr nelem elsize zeroed heap = .ok (none, heap) := by
  unfold krecalloc
  rw [failed]

theorem resized_words (bitmap : List (BitVec 64)) :
    (Allocation.words bitmap : Allocation α).resized (bitmap.length + 1) =
      .words (bitmap ++ [0]) := by
  change Allocation.words (take _ _) = _
  rw [take_append, take_of_length_le (Nat.le_succ _), Nat.add_sub_cancel_left,
    take_replicate, Nat.min_eq_left (Nat.le_add_left 1 _)]
  rfl

/-- The list after its growth: zeros in the new slots. -/
def grown (r : Relist α) : Relist α where
  entries i := if i < r.slots then r.entries i else 0
  bitmap := r.bitmap ++ [0]

theorem slots_grown : (grown r).slots = (r.bitmap.length + 1) * 64 := by
  simp [grown, Relist.slots]

theorem resized_values :
    (Allocation.values r.slots r.entries).resized (r.bitmap.length + 1) =
      .values (grown r).slots (grown r).entries := by
  have more : r.slots ≤ (r.bitmap.length + 1) * 64 := by
    unfold Relist.slots
    omega
  change Allocation.values _ _ = _
  rw [min_eq_left more, slots_grown]
  rfl

omit [Zero α] in
/-- New arrays in fresh memory, with everything else but the old arrays as it was. -/
theorem Fresh.local (fresh : Fresh heap list places) (bitmapAt : places.bitmap = some b)
    (entriesAt : places.entries = some e)
    (rest : ∀ a, a ≠ b → a ≠ e → ¬ list.Owns a → heap' a = heap a) :
    Local heap heap' list ⟨e, n, b⟩ where
  frame := by
    intro a foreign live
    refine rest a ?_ ?_ foreign
    · rintro rfl
      exact live (fresh.bitmap a bitmapAt)
    · rintro rfl
      exact (fresh.entries a entriesAt).elim live fun same => foreign (.inl same)
  owned := by
    rintro a (same | same)
    · cases same
      exact .inr (fresh.bitmap b bitmapAt)
    · cases same
      exact (fresh.entries e entriesAt).symm.imp .inl id

/-- Growth without the first allocation changes nothing. -/
theorem Holds.grow_none (holds : list.Holds heap r)
    (failed : allocated places.bitmap wordSize (r.bitmap.length + 1) = none) :
    list.grow places heap = .ok (none, heap) := by
  have small := holds.small
  have plain : wrap32 (list.bitmapCapacity + 1) = r.bitmap.length + 1 := by
    rw [holds.capacity]
    exact Nat.mod_eq_of_lt (by omega)
  unfold grow
  rw [plain]
  dsimp only
  rw [krecalloc_none _ failed]
  rfl

/-- The call returns 0 exactly where the growth has failed. -/
theorem Holds.add_none (holds : list.Holds heap r) (value : α)
    (full : Relist.findFreeEntry r.bitmap 0 = none)
    (failed : list.grow places heap = .ok (none, heap')) :
    list.add places value heap = .ok ((none, list), heap') := by
  unfold add
  rw [holds.words_ok]
  simp only [ok_then, full, failed]
  rfl

theorem Holds.add_found (holds : list.Holds heap r) (places : Outcomes) (value : α)
    (found : Relist.findFreeEntry r.bitmap 0 = some index) :
    ∃ heap', list.add places value heap = .ok ((some index, list), heap') ∧
      list.Holds heap' (r.store index value) ∧ Local heap heap' list list := by
  obtain ⟨heap', stored, holds', near⟩ :=
    holds.store_ok (Relist.findFreeEntry_lookup found).1 value
  refine ⟨heap', ?_, holds', near⟩
  unfold add
  rw [holds.words_ok]
  simp only [ok_then, found, stored]
  rfl

section
variable (holds : list.Holds heap r) (fresh : Fresh heap list places)
include holds fresh

/-- The first reallocation of the growth: the new bitmap is there, and the old one is
not any more. -/
theorem Holds.grow_bitmap (bitmapAt : places.bitmap = some b) :
    ∃ middle, list.grow places heap = growEntries places list (r.bitmap.length + 1) b middle ∧
      middle b = some (.words (r.bitmap ++ [0])) ∧
      (∀ a, list.bitmap = some a → middle a = none) ∧
      ∀ a, a ≠ b → list.bitmap ≠ some a → middle a = heap a := by
  have small := holds.small
  have plain : wrap32 (list.bitmapCapacity + 1) = r.bitmap.length + 1 := by
    rw [holds.capacity]
    exact Nat.mod_eq_of_lt (by omega)
  have granted : allocated places.bitmap wordSize (r.bitmap.length + 1) = some b :=
    (allocated_words _ (by omega)).trans bitmapAt
  unfold grow
  rw [plain]
  rcases holds.arrays with ⟨noBitmap, noEntries, empty⟩ | ⟨b', e', oldBitmap, -, words, -⟩
  · rw [noBitmap]
    dsimp only
    rw [krecalloc_null _ granted]
    refine ⟨update heap b (some (.words (replicate (r.bitmap.length + 1) 0))), rfl, ?_,
      nofun, fun a other _ => update_of_ne other _ _⟩
    rw [update_self, empty]
    rfl
  · rw [oldBitmap]
    dsimp only
    rw [krecalloc_live _ granted words, resized_words]
    have apart : b ≠ b' := by
      rintro rfl
      rw [fresh.bitmap b bitmapAt] at words
      cases words
    refine ⟨update (update heap b (some (.words (r.bitmap ++ [0])))) b' none, rfl,
      ?_, ?_, fun a other foreign => ?_⟩
    · rw [update_of_ne apart, update_self]
    · rintro a same
      cases same
      exact update_self ..
    · have notOld : a ≠ b' := fun same => foreign (congrArg some same.symm)
      rw [update_of_ne notOld, update_of_ne other]

/-- Growth with both allocations. -/
theorem Holds.grow_ok (small : r.bitmap.length + 1 < 2 ^ 24) (bitmapAt : places.bitmap = some b)
    (entriesAt : places.entries = some e) :
    ∃ heap', list.grow places heap = .ok (some ⟨e, r.bitmap.length + 1, b⟩, heap') ∧
      Holds heap' ⟨e, r.bitmap.length + 1, b⟩ (grown r) ∧
      Local heap heap' list ⟨e, r.bitmap.length + 1, b⟩ := by
  have granted : allocated places.entries entriesSize (r.bitmap.length + 1) = some e :=
    (allocated_entries _ _).trans ((if_pos small).trans entriesAt)
  have length : (grown r).bitmap.length = r.bitmap.length + 1 := by simp [grown]
  have apart : b ≠ e := by
    rintro rfl
    exact fresh.apart b bitmapAt entriesAt
  obtain ⟨middle, first, words, freed, others⟩ := holds.grow_bitmap fresh bitmapAt
  rw [first]
  unfold growEntries
  rcases holds.arrays with ⟨noBitmap, noEntries, empty⟩ | ⟨b', e', oldBitmap, oldEntries, old, values⟩
  · rw [noEntries, krecalloc_null _ granted]
    have none_held : (grown r).entries = fun _ => 0 := by
      funext i
      simp [grown, Relist.slots, empty]
    refine ⟨_, rfl, ⟨length.symm, by omega, .inr ⟨b, e, rfl, rfl, ?_, ?_⟩⟩,
      fresh.local bitmapAt entriesAt fun a notB notE foreign => ?_⟩
    · rw [update_of_ne apart, words]
      rfl
    · rw [update_self, slots_grown, none_held]
    · rw [update_of_ne notE, others a notB (by rw [noBitmap]; exact some_ne_none _ ∘ Eq.symm)]
  · have notFreed : e' ≠ b' := by
      rintro rfl
      rw [old] at values
      cases values
    have notNew : e' ≠ b := by
      rintro rfl
      rw [fresh.bitmap _ bitmapAt] at values
      cases values
    have kept : middle e' = some (.values r.slots r.entries) := by
      rw [others e' notNew (by rw [oldBitmap]; exact fun same => notFreed (some.inj same).symm),
        values]
    have moved : e ≠ e' := by
      rintro rfl
      rcases fresh.entries e entriesAt with unused | same
      · rw [unused] at values
        cases values
      · exact notFreed (some.inj (same.symm.trans oldBitmap))
    rw [oldEntries, krecalloc_live _ granted kept, resized_values]
    refine ⟨_, rfl, ⟨length.symm, by omega, .inr ⟨b, e, rfl, rfl, ?_, ?_⟩⟩,
      fresh.local bitmapAt entriesAt fun a notB notE foreign => ?_⟩
    · rw [update_of_ne notNew.symm, update_of_ne apart, words]
      rfl
    · rw [update_of_ne moved, update_self]
    · rw [update_of_ne, update_of_ne notE, others a notB]
      · exact fun same => foreign (.inl same)
      · rintro rfl
        exact foreign (.inr oldEntries)

/-- Growth without the second allocation: the new bitmap is freed again, and the old
one has been freed before. -/
theorem Holds.grow_half (bitmapAt : places.bitmap = some b)
    (failed : allocated places.entries entriesSize (r.bitmap.length + 1) = none) :
    ∃ heap', list.grow places heap = .ok (none, heap') ∧
      (∀ a, list.bitmap = some a → heap' a = none) ∧ (list.bitmap = none → heap' = heap) := by
  obtain ⟨middle, first, -, freed, others⟩ := holds.grow_bitmap fresh bitmapAt
  rw [first, growEntries, krecalloc_none _ failed]
  refine ⟨update middle b none, rfl, fun a owned => ?_, fun noBitmap => ?_⟩
  · by_cases same : a = b
    · rw [same, update_self]
    · rw [update_of_ne same, freed a owned]
  · funext a
    by_cases same : a = b
    · rw [same, update_self, fresh.bitmap b bitmapAt]
    · rw [update_of_ne same, others a same (by rw [noBitmap]; exact some_ne_none _ ∘ Eq.symm)]

theorem Holds.add_full (value : α)
    (full : Relist.findFreeEntry r.bitmap 0 = none) (small : r.bitmap.length + 1 < 2 ^ 24)
    (bitmapAt : places.bitmap = some b) (entriesAt : places.entries = some e) :
    ∃ heap', list.add places value heap =
        .ok ((some r.slots, ⟨e, r.bitmap.length + 1, b⟩), heap') ∧
      Holds heap' ⟨e, r.bitmap.length + 1, b⟩ ((grown r).store r.slots value) ∧
      Local heap heap' list ⟨e, r.bitmap.length + 1, b⟩ := by
  obtain ⟨middle, ran, holds', near⟩ := holds.grow_ok fresh small bitmapAt entriesAt
  have again : Relist.findFreeEntry (grown r).bitmap 0 = some r.slots :=
    (Relist.findFreeEntry_grown full).trans (by rw [zero_add]; rfl)
  obtain ⟨heap', stored, holds'', near'⟩ :=
    holds'.store_ok (Relist.findFreeEntry_lookup again).1 value
  refine ⟨heap', ?_, holds'', near.trans near'⟩
  unfold add
  rw [holds.words_ok]
  simp only [ok_then, full, ran, holds'.words_ok, again, stored]
  rfl

end

/-! ### New lists -/

omit [Zero α] in
theorem init_ok (fresh : Fresh heap null places) (junk : Nat → α)
    (bitmapAt : places.bitmap = some b) (entriesAt : places.entries = some e) :
    ∃ heap', init places junk heap = (⟨e, 1, b⟩, heap') ∧ Holds heap' ⟨e, 1, b⟩ ⟨junk, [0]⟩ ∧
      Local heap heap' null ⟨e, 1, b⟩ := by
  have apart : b ≠ e := by
    rintro rfl
    exact fresh.apart b bitmapAt entriesAt
  have first : allocated places.bitmap wordSize 1 = some b :=
    (allocated_words _ (by decide)).trans bitmapAt
  have second : allocated places.entries entriesSize 1 = some e :=
    (allocated_entries _ _).trans entriesAt
  refine ⟨update (update heap b (some (.words [0]))) e (some (.values 64 junk)),
    ?_, ⟨rfl, show 1 < 2 ^ 24 by decide, .inr ⟨b, e, rfl, rfl, ?_, update_self ..⟩⟩,
    fresh.local bitmapAt entriesAt fun a notB notE _ => ?_⟩
  · unfold init
    rw [first, second]
  · rw [update_of_ne apart, update_self]
  · rw [update_of_ne notE, update_of_ne notB]

omit [Zero α] in
theorem slotMap_init (junk : Nat → α) :
    (⟨junk, [0]⟩ : Relist α).slotMap = SlotMap.empty 64 := by
  refine SlotMap.ext rfl (funext fun index => ?_)
  change Relist.lookup _ index = none
  rw [Relist.lookup_eq, if_neg]
  rintro ⟨inside, used⟩
  have first : index / 64 = 0 := by
    change index < 64 at inside
    omega
  simp [Relist.isUsed, first] at used

theorem Holds.clone_ok (holds : list.Holds heap r) (fresh : Fresh heap null places)
    (bitmapAt : places.bitmap = some b) (entriesAt : places.entries = some e) :
    ∃ heap' r', list.clone places heap = .ok ((true, ⟨e, list.bitmapCapacity, b⟩), heap') ∧
      Holds heap' ⟨e, list.bitmapCapacity, b⟩ r' ∧ r'.slotMap = r.slotMap ∧
      Local heap heap' null ⟨e, list.bitmapCapacity, b⟩ := by
  have small := holds.small
  have capacity := holds.capacity
  have apart : b ≠ e := by
    rintro rfl
    exact fresh.apart b bitmapAt entriesAt
  have first : allocated places.bitmap wordSize list.bitmapCapacity = some b :=
    (allocated_words _ (by omega)).trans bitmapAt
  have second : allocated places.entries entriesSize list.bitmapCapacity = some e :=
    (allocated_entries _ _).trans ((if_pos (by omega)).trans entriesAt)
  obtain ⟨cells, values, same⟩ := holds.values_ok
  refine ⟨update (update heap b (some (.words r.bitmap))) e
      (some (.values (list.bitmapCapacity * 64) cells)), ⟨cells, r.bitmap⟩, ?_,
    ⟨capacity, small, .inr ⟨b, e, rfl, rfl, ?_, ?_⟩⟩, ?_,
    fresh.local bitmapAt entriesAt fun a notB notE _ => ?_⟩
  · unfold clone
    rw [first, second]
    simp only [holds.words_ok, values, ok_then]
    rfl
  · rw [update_of_ne apart, update_self]
  · rw [update_self, capacity]
    rfl
  · rcases same with empty | same
    · refine SlotMap.ext rfl (funext fun index => ?_)
      change Relist.lookup _ index = Relist.lookup _ index
      rw [Relist.lookup_eq, Relist.lookup_eq]
      simp [Relist.slots, empty]
    · rw [same]
  · rw [update_of_ne notE, update_of_ne notB]

end Growth

end RelistHeader

end SbOS.Kernel
