import SbOS.Lib.Bitmap
import SbOS.Lib.SlotMap
import SbOS.Kernel.Stop

/-! The sparse list of `lib/relist.c`: an array of values and a bitmap of 64-bit
words that says which of them are in use. The list grows by one word, 64 slots,
when all slots are in use. Allocations are taken to succeed, and the capacity
stays below the 2^26 words at which its product with 64 would wrap. -/
namespace SbOS.Kernel
open Function List

structure Relist (α : Type) where
  entries : Nat → α
  bitmap : List (BitVec 64)

variable {α : Type} {list : Relist α} {index : Nat} {value : α}

namespace Relist

/-- The word with bit `c` set. -/
def bit (c : Nat) : BitVec 64 := 1#64 <<< c

def slots (list : Relist α) : Nat := list.bitmap.length * 64

/-- The test of one bit that every operation makes. -/
def isUsed (list : Relist α) (index : Nat) : Bool :=
  (list.bitmap.getD (index / 64) 0).getLsbD (index % 64)

/-- The value at an index and whether the index is past the end. -/
def get (list : Relist α) (index : Nat) : Option α × Bool :=
  if list.slots ≤ index then (none, true)
  else if list.isUsed index then (some (list.entries index), false)
  else (none, false)

/-- `relist_find_free_entry`, from word number `i` on. -/
def findFreeEntry : List (BitVec 64) → Nat → Option Nat
  | [], _ => none
  | word :: words, i =>
    if ~~~word = 0 then findFreeEntry words (i + 1)
    else
      match (List.range 64).find? (fun c => !word.getLsbD c) with
      | some c => some (i * 64 + c)
      | none => findFreeEntry words (i + 1)

/-- Marks a slot as used and stores its value. -/
def store (list : Relist α) (entry : Nat) (value : α) : Relist α where
  entries := Function.update list.entries entry value
  bitmap := list.bitmap.modify (entry / 64) (· ||| bit (entry % 64))

/-- The list with one more word, all of it free. -/
def grow (list : Relist α) : Relist α := { list with bitmap := list.bitmap ++ [0] }

/-- Stores a value in the first free slot, after growing the list when there is
none, and returns the index. -/
def add (list : Relist α) (value : α) : Except Stop (Nat × Relist α) :=
  match findFreeEntry list.bitmap 0 with
  | some entry => .ok (entry, list.store entry value)
  | none =>
    match findFreeEntry list.grow.bitmap 0 with
    | some entry => .ok (entry, list.grow.store entry value)
    | none => .error .assertion

def remove (list : Relist α) (index : Nat) : Except Stop (Relist α) :=
  if list.slots ≤ index then .error .assertion
  else if list.isUsed index then
    .ok { list with bitmap := list.bitmap.modify (index / 64) (· &&& ~~~bit (index % 64)) }
  else .error .assertion

def set (list : Relist α) (index : Nat) (value : α) : Except Stop (Relist α) :=
  if list.slots ≤ index then .error .assertion else .ok (list.store index value)

/-- A copy of the two arrays. -/
def clone (list : Relist α) : Relist α := ⟨list.entries, list.bitmap⟩

/-- The list as a finite map. -/
def lookup (list : Relist α) (index : Nat) : Option α := (list.get index).1

theorem word_inside (inside : index < list.slots) : index / 64 < list.bitmap.length := by
  unfold slots at inside
  omega

theorem isUsed_store (inside : entry < list.slots) :
    (list.store entry value).isUsed index = (list.isUsed index || decide (index = entry)) :=
  Bitmap.test_turnOn (by decide) (word_inside inside)

theorem slots_store : (list.store entry value).slots = list.slots := by
  simp [slots, store]

theorem lookup_eq : list.lookup index =
    if index < list.slots ∧ list.isUsed index then some (list.entries index) else none := by
  unfold lookup get
  by_cases inside : index < list.slots
  · rw [if_neg (by omega)]
    split <;> simp_all
  · rw [if_pos (by omega), if_neg (by simp [inside])]

/-- Storing in a slot changes that slot and no other. -/
theorem lookup_store (inside : entry < list.slots) :
    (list.store entry value).lookup = update list.lookup entry (some value) := by
  funext index
  rw [lookup_eq, slots_store, isUsed_store inside]
  by_cases same : index = entry
  · subst same
    simp [inside, store]
  · rw [update_of_ne same, lookup_eq]
    simp [same, store]

/-- Clearing the bit of a slot takes its value out and changes no other slot. -/
theorem lookup_cleared (inside : index < list.slots) :
    lookup { list with bitmap := list.bitmap.modify (index / 64) (· &&& ~~~bit (index % 64)) } =
      update list.lookup index none := by
  funext other
  have sameSlots : slots { list with
      bitmap := list.bitmap.modify (index / 64) (· &&& ~~~bit (index % 64)) } = list.slots := by
    simp [slots]
  have cleared : isUsed { list with
      bitmap := list.bitmap.modify (index / 64) (· &&& ~~~bit (index % 64)) } other =
      (list.isUsed other && !decide (other = index)) :=
    Bitmap.test_turnOff (by decide) (word_inside inside)
  rw [lookup_eq, sameSlots, cleared]
  by_cases same : other = index
  · subst same
    simp
  · rw [update_of_ne same, lookup_eq]
    simp [same]

theorem used_inside (used : list.lookup index ≠ none) :
    index < list.slots ∧ list.isUsed index = true := by
  by_contra unused
  exact used (by rw [lookup_eq, if_neg unused])

theorem remove_ok (used : list.lookup index ≠ none) :
    ∃ list', list.remove index = .ok list' ∧
      list'.lookup = update list.lookup index none ∧ list'.slots = list.slots := by
  have inside := used_inside used
  exact ⟨_, by rw [remove, if_neg (by omega), if_pos inside.2], lookup_cleared inside.1,
    by simp [slots]⟩

theorem set_ok (value : α) (inside : index < list.slots) :
    ∃ list', list.set index value = .ok list' ∧
      list'.lookup = update list.lookup index (some value) :=
  ⟨_, by rw [set, if_neg (by omega)], lookup_store inside⟩

theorem full_word {word : BitVec 64} (full : ~~~word = 0) (bound : c < 64) :
    word.getLsbD c = true := by
  have clear := congrArg (fun w => w.getLsbD c) full
  simpa [bound] using clear

/-- A word that is not all ones has a first free bit. -/
theorem find_free_bit (word : BitVec 64) (free : ~~~word ≠ 0) :
    ∃ c, (range 64).find? (fun c => !word.getLsbD c) = some c ∧ c < 64 ∧
      word.getLsbD c = false ∧ ∀ d < c, word.getLsbD d = true := by
  cases found : (range 64).find? (fun c => !word.getLsbD c) with
  | some c =>
    obtain ⟨clear, inside, before⟩ := find?_range_eq_some.mp found
    exact ⟨c, rfl, mem_range.mp inside, by simpa using clear,
      fun d below => by simpa using before d below⟩
  | none =>
    refine absurd (BitVec.eq_of_getLsbD_eq fun c bound => ?_) free
    have taken := find?_eq_none.mp found c (mem_range.mpr bound)
    simp [taken]

/-- The entry found lies in the list and is free, and every entry before it is used. -/
theorem findFreeEntry_free (found : findFreeEntry words i = some entry) :
    i * 64 ≤ entry ∧ entry < (i + words.length) * 64 ∧
      (words.getD (entry / 64 - i) 0).getLsbD (entry % 64) = false ∧
      ∀ j, i * 64 ≤ j → j < entry → (words.getD (j / 64 - i) 0).getLsbD (j % 64) = true := by
  induction words generalizing i with
  | nil => cases found
  | cons word words ih =>
    unfold findFreeEntry at found
    split at found
    · rename_i allUsed
      obtain ⟨low, high, free, before⟩ := ih found
      have next : entry / 64 - i = entry / 64 - (i + 1) + 1 := by omega
      refine ⟨by omega, by simp only [length_cons]; omega, ?_, fun j above below => ?_⟩
      · rw [next, getD_cons_succ]
        exact free
      · by_cases first : j < (i + 1) * 64
        · rw [show j / 64 - i = 0 by omega, getD_cons_zero]
          exact full_word allUsed (Nat.mod_lt j (by decide))
        · rw [show j / 64 - i = j / 64 - (i + 1) + 1 by omega, getD_cons_succ]
          exact before j (by omega) below
    · rename_i notFull
      obtain ⟨c, here, bound, free, before⟩ := find_free_bit word notFull
      rw [here] at found
      cases found
      have first : (i * 64 + c) / 64 - i = 0 := by omega
      have low : (i * 64 + c) % 64 = c := by omega
      refine ⟨by omega, by simp only [length_cons]; omega, ?_, fun j above below => ?_⟩
      · rw [first, low]
        exact free
      · rw [show j / 64 - i = 0 by omega, getD_cons_zero]
        exact before (j % 64) (by omega)

/-- Nothing is found only when every entry is used. -/
theorem findFreeEntry_none (full : findFreeEntry words i = none) :
    ∀ j < words.length * 64, (words.getD (j / 64) 0).getLsbD (j % 64) = true := by
  induction words generalizing i with
  | nil => simp
  | cons word words ih =>
    unfold findFreeEntry at full
    split at full
    · rename_i allUsed
      intro j below
      rw [length_cons] at below
      by_cases first : j < 64
      · rw [show j / 64 = 0 by omega, getD_cons_zero]
        exact full_word allUsed (Nat.mod_lt j (by decide))
      · have rest := ih full (j - 64) (by omega)
        rw [show j / 64 = (j - 64) / 64 + 1 by omega, getD_cons_succ,
          show j % 64 = (j - 64) % 64 by omega]
        exact rest
    · rename_i notFull
      obtain ⟨c, here, -⟩ := find_free_bit word notFull
      rw [here] at full
      cases full

theorem findFreeEntry_grown (full : findFreeEntry words i = none) :
    findFreeEntry (words ++ [0]) i = some ((i + words.length) * 64) := by
  induction words generalizing i with
  | nil =>
    have first : (range 64).find? (fun c => !(0 : BitVec 64).getLsbD c) = some 0 := by decide
    simp only [nil_append, findFreeEntry, first]
    simp
  | cons word words ih =>
    unfold findFreeEntry at full
    rw [cons_append, findFreeEntry]
    split at full
    · rename_i allUsed
      rw [if_pos allUsed, ih full, length_cons]
      congr 1
      omega
    · rename_i notFull
      obtain ⟨c, here, -⟩ := find_free_bit word notFull
      rw [here] at full
      cases full

/-- A list with one more word, all of it free, is the same map. -/
theorem lookup_extended {list' : Relist α} (bitmap : list'.bitmap = list.bitmap ++ [0])
    (entries : ∀ i < list.slots, list'.entries i = list.entries i) :
    list'.lookup = list.lookup := by
  have more : list'.slots = list.slots + 64 := by simp [slots, bitmap, add_mul]
  funext index
  rw [lookup_eq, lookup_eq, more]
  by_cases inside : index < list.slots
  · have same : list'.isUsed index = list.isUsed index := by
      simp [isUsed, bitmap, getD_eq_getElem?_getD,
        getElem?_append_left (word_inside inside)]
    rw [same, entries index inside]
    simp [inside, Nat.lt_add_right 64 inside]
  · have past : list.bitmap.length ≤ index / 64 := by
      unfold slots at inside
      omega
    have fresh : list'.isUsed index = false := by
      simp only [isUsed, bitmap, getD_eq_getElem?_getD, getElem?_append_right past]
      cases index / 64 - list.bitmap.length <;> simp
    simp [fresh, inside]

/-- The list as a map with its range of slots. -/
def slotMap (list : Relist α) : SlotMap α where
  capacity := list.slots
  map := list.lookup
  inside := by
    intro index past
    rw [lookup_eq, if_neg (by omega)]

theorem slotMap_store (inside : entry < list.slots) :
    (list.store entry value).slotMap = list.slotMap.set entry value := by
  refine SlotMap.ext slots_store ?_
  exact (lookup_store inside).trans (if_pos inside).symm

theorem slotMap_cleared (inside : index < list.slots) :
    slotMap { list with bitmap := list.bitmap.modify (index / 64) (· &&& ~~~bit (index % 64)) } =
      list.slotMap.remove index :=
  SlotMap.ext (by simp [slotMap, slots, SlotMap.remove]) (lookup_cleared inside)

theorem get_slotMap : list.get index =
    (list.slotMap.map index, decide (list.slotMap.capacity ≤ index)) := by
  change _ = (list.lookup index, decide (list.slots ≤ index))
  unfold lookup get
  split
  · rename_i past
    simp [past]
  · rename_i inside
    split <;> simp [inside]

theorem least_of_full (full : findFreeEntry list.bitmap 0 = none) :
    list.slotMap.least = list.slots := by
  refine SlotMap.least_eq (list.slotMap.inside _ le_rfl) fun j below absent => ?_
  change list.lookup j = none at absent
  rw [lookup_eq, if_pos ⟨below, findFreeEntry_none full j below⟩] at absent
  cases absent

section
variable (found : findFreeEntry list.bitmap 0 = some entry)
include found

theorem findFreeEntry_lookup :
    entry < list.slots ∧ list.lookup entry = none := by
  obtain ⟨-, inside, free, -⟩ := findFreeEntry_free found
  rw [zero_add] at inside
  refine ⟨inside, ?_⟩
  rw [lookup_eq, if_neg]
  rintro ⟨-, used⟩
  exact absurd (used.symm.trans free) (by simp)

theorem least_of_found :
    list.slotMap.least = entry := by
  obtain ⟨inside, unused⟩ := findFreeEntry_lookup found
  obtain ⟨-, -, -, before⟩ := findFreeEntry_free found
  refine SlotMap.least_eq unused fun j below absent => ?_
  have used := before j (by omega) below
  change list.lookup j = none at absent
  rw [lookup_eq, if_pos ⟨by omega, used⟩] at absent
  cases absent

theorem slotMap_add_found (value : α) :
    (list.store entry value).slotMap = list.slotMap.add 64 value := by
  obtain ⟨inside, unused⟩ := findFreeEntry_lookup found
  have least := least_of_found found
  refine SlotMap.ext ?_ ?_
  · exact slots_store.trans (if_pos (least ▸ inside : list.slotMap.least < list.slots)).symm
  · rw [slotMap_store inside, SlotMap.map_add, least]
    exact if_pos inside

end

theorem slotMap_add_full {list' : Relist α} (full : findFreeEntry list.bitmap 0 = none)
    (bitmap : list'.bitmap = list.bitmap ++ [0])
    (entries : ∀ i < list.slots, list'.entries i = list.entries i) (value : α) :
    (list'.store list.slots value).slotMap = list.slotMap.add 64 value := by
  have least := least_of_full full
  have more : list'.slots = list.slots + 64 := by simp [slots, bitmap, add_mul]
  have inside : list.slots < list'.slots := by omega
  refine SlotMap.ext ?_ ?_
  · refine slots_store.trans (more.trans (if_neg ?_).symm)
    rw [least]
    exact lt_irrefl _
  · rw [slotMap_store inside, SlotMap.map_add, least]
    refine (if_pos inside).trans ?_
    change update list'.lookup _ _ = update list.lookup _ _
    rw [lookup_extended bitmap entries]

/-- Adding takes the least unused slot; the list grows only if there is none. -/
theorem add_slotMap (list : Relist α) (value : α) :
    ∃ list', list.add value = .ok (list.slotMap.least, list') ∧
      list'.slotMap = list.slotMap.add 64 value := by
  unfold add
  cases found : findFreeEntry list.bitmap 0 with
  | some entry => exact ⟨_, by rw [least_of_found found], slotMap_add_found found value⟩
  | none =>
    have again := findFreeEntry_grown found
    rw [zero_add] at again
    have bitmap : list.grow.bitmap = list.bitmap ++ [0] := rfl
    refine ⟨list.grow.store list.slots value, ?_,
      slotMap_add_full found bitmap (fun _ _ => rfl) value⟩
    rw [least_of_full found]
    simp only [grow, again]
    rfl

/-- Adding takes a free slot and always finds one. -/
theorem add_ok (list : Relist α) (value : α) :
    ∃ entry list', list.add value = .ok (entry, list') ∧ list.lookup entry = none ∧
      list'.lookup = update list.lookup entry (some value) := by
  obtain ⟨list', added, map⟩ := list.add_slotMap value
  exact ⟨_, list', added, list.slotMap.least_unused, congrArg SlotMap.map map⟩

end Relist

end SbOS.Kernel
