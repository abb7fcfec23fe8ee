import SbOS.Ext2.BlockCache
import Mathlib.Logic.Function.Basic

/-! The block cache refines a plain array of blocks.

The logical contents of a block are its bytes in a dirty slot if there is one,
and its bytes on the device otherwise. Reads return them, writes change only
their own range of them, and neither replacement nor flushing changes them.
`ext2_flush_writes` also writes the superblock to the start of the device
without telling the cache; results about it are stated for the blocks that this
write does not touch (`covered`). -/
namespace SbOS.Ext2
open Bytes List Disk Bool

/-- The byte addresses of block `b` fit in 32 bits. -/
def Addressable (bs b : Nat) : Prop := b * bs + bs ≤ 2 ^ 32

instance : Decidable (Addressable bs b) := inferInstanceAs (Decidable (_ ≤ _))

/-- A slot whose bytes are newer than the device's. -/
def Slot.dirtyFor (b : Nat) (c : Slot) : Bool := c.isUsed && c.hasWrite && c.blockNum == b

/-- The logical contents of block `b`: the device with every dirty slot
overlaid on its block. -/
def Disk.contents (bs : Nat) (d : Disk) (b : Nat) : Bytes := fun o =>
  if o < bs then
    match d.cache.find? (Slot.dirtyFor b) with
    | some c => c.block o
    | none => d.device (b * bs + o)
  else 0

/-- The invariant of the cache. -/
structure Coherent (bs : Nat) (covered : Nat → Prop) (d : Disk) : Prop where
  nonempty : d.cache ≠ []
  addressable : ∀ c ∈ d.cache, c.isUsed = true → Addressable bs c.blockNum
  distinct : ∀ (i j : Nat) (c c' : Slot), d.cache[i]? = some c → d.cache[j]? = some c' →
    c.isUsed = true → c'.isUsed = true → c.blockNum = c'.blockNum → i = j
  clean : ∀ c ∈ d.cache, c.isUsed = true → c.hasWrite = false → covered c.blockNum →
    ∀ o < bs, c.block o = d.device (c.blockNum * bs + o)

/-! ### Blocks on the device -/

/-- Distinct blocks occupy disjoint ranges of the device. -/
theorem block_offset_apart {a b bs : Nat} (different : a ≠ b) (bound : o < bs) :
    a * bs + o < b * bs ∨ b * bs + bs ≤ a * bs + o := by
  rcases Nat.lt_or_gt_of_ne different with less | more
  · left
    have := Nat.mul_le_mul_right bs (show a + 1 ≤ b from less)
    rw [Nat.add_mul, Nat.one_mul] at this
    omega
  · right
    have := Nat.mul_le_mul_right bs (show b + 1 ≤ a from more)
    rw [Nat.add_mul, Nat.one_mul] at this
    omega

theorem u32_of_lt (small : n < 2 ^ 32) : u32 n = n := Nat.mod_eq_of_lt small

theorem Addressable.address (fits : Addressable bs b) (positive : 0 < bs) :
    u32 (b * bs) = b * bs := by
  unfold Addressable at fits
  exact u32_of_lt (by omega)

/-- Writing a whole block, seen from any block. -/
theorem device_write_block {device : Bytes} (positive : 0 < bs) (fits : Addressable bs b)
    (bound : o < bs) (src : Bytes) (a : Nat) :
    splice device (u32 (b * bs)) src bs (a * bs + o) =
      if a = b then src o else device (a * bs + o) := by
  rw [fits.address positive]
  split
  · rename_i same
    subst same
    rw [splice_inside (by omega) (by omega)]
    congr 1
    omega
  · rename_i different
    exact splice_outside (block_offset_apart different bound)

/-- Writing part of a block, seen from any block. -/
theorem device_write_range {device : Bytes} (fits : Addressable bs b)
    (room : offset + size ≤ bs) (bound : o < bs) (src : Bytes) (a : Nat) :
    splice device (u32 (b * bs + offset)) src size (a * bs + o) =
      if a = b then splice (fun i => device (b * bs + i)) offset src size o
      else device (a * bs + o) := by
  by_cases empty : size = 0
  · subst empty
    split <;> simp_all
  rw [u32_of_lt (by unfold Addressable at fits; omega)]
  split
  · rename_i same
    subst same
    simp only [splice]
    by_cases inside : offset ≤ o ∧ o < offset + size
    · rw [if_pos (by omega), if_pos inside]
      congr 1
      omega
    · rw [if_neg (by omega), if_neg inside]
  · rename_i different
    exact splice_outside (by have := block_offset_apart different bound; omega)

/-! ### The search loops -/

theorem lookup_hit (found : lookup block slots k freeFound = .hit i) :
    ∃ j c, i = k + j ∧ slots[j]? = some c ∧ c.isUsed = true ∧ c.blockNum = block := by
  induction slots generalizing k freeFound with
  | nil => cases found
  | cons c rest ih =>
    unfold lookup at found
    split at found
    · obtain ⟨j, c', place, held, rest⟩ := ih found
      exact ⟨j + 1, c', by omega, by simpa using held, rest⟩
    · rename_i used
      split at found
      · rename_i same
        cases found
        exact ⟨0, c, rfl, rfl, by simpa using used, same⟩
      · obtain ⟨j, c', place, held, rest⟩ := ih found
        exact ⟨j + 1, c', by omega, by simpa using held, rest⟩

/-- A miss means that no used slot holds the block; a free slot it reports is
really free. -/
theorem lookup_miss (missed : lookup block slots k freeFound = .miss result) :
    (∀ c ∈ slots, c.isUsed = true → c.blockNum ≠ block) ∧
      (result = freeFound ∨
        ∃ j c, result = some (k + j) ∧ slots[j]? = some c ∧ c.isUsed = false) := by
  induction slots generalizing k freeFound with
  | nil =>
    cases missed
    simp
  | cons c rest ih =>
    unfold lookup at missed
    split at missed
    · rename_i unused
      obtain ⟨absent, place⟩ := ih missed
      refine ⟨forall_mem_cons.mpr ⟨fun used => ?_, absent⟩, .inr ?_⟩
      · simp [unused] at used
      · rcases place with rfl | ⟨j, c', rfl, held, free⟩
        · exact ⟨0, c, rfl, rfl, unused⟩
        · exact ⟨j + 1, c', by simp; omega, by simpa using held, free⟩
    · split at missed
      · cases missed
      · rename_i other
        obtain ⟨absent, place⟩ := ih missed
        refine ⟨forall_mem_cons.mpr ⟨fun _ => other, absent⟩, ?_⟩
        rcases place with rfl | ⟨j, c', rfl, held, free⟩
        · exact .inl rfl
        · exact .inr ⟨j + 1, c', by simp; omega, by simpa using held, free⟩

theorem victim_place (slots : List Slot) (k least index : Nat) :
    victim slots k least index = index ∨
      ∃ j < slots.length, victim slots k least index = k + j := by
  induction slots generalizing k least index with
  | nil => exact .inl rfl
  | cons c rest ih =>
    unfold victim
    split
    · rcases ih (k + 1) c.lastUse k with same | ⟨j, bound, place⟩
      · exact .inr ⟨0, by simp, by omega⟩
      · exact .inr ⟨j + 1, by simpa using bound, by omega⟩
    · rcases ih (k + 1) least index with same | ⟨j, bound, place⟩
      · exact .inl same
      · exact .inr ⟨j + 1, by simpa using bound, by omega⟩

/-- The slot that a miss replaces exists, whatever the timestamps say. -/
theorem replaced_slot_exists (nonempty : slots ≠ [])
    (missed : lookup block slots 0 none = .miss result) :
    result.getD (victim slots 0 u32Max 0) < slots.length := by
  have positive : 0 < slots.length := length_pos_iff.mpr nonempty
  rcases (lookup_miss missed).2 with rfl | ⟨j, c, rfl, held, _⟩
  · rcases victim_place slots 0 u32Max 0 with same | ⟨j, bound, place⟩
    · simpa [same] using positive
    · simpa [place] using bound
  · have bound := (List.getElem?_eq_some_iff.mp held).choose
    simpa using bound

/-- The search of a write is the first loop, without the free slots. -/
theorem findSlot_eq (freeFound : Option Nat) : findSlot block slots k =
    match lookup block slots k freeFound with
    | .hit i => some i
    | .miss _ => none := by
  induction slots generalizing k freeFound with
  | nil => rfl
  | cons c rest ih =>
    unfold findSlot lookup
    split
    · exact ih _
    split
    · rfl
    · exact ih _

/-! ### The logical contents -/

section Contents
variable {bs i b : Nat} {covered : Nat → Prop} {d : Disk} {c : Slot}

theorem contents_outside (bound : bs ≤ o) : d.contents bs b o = 0 := by
  simp [contents, show ¬ o < bs by omega]

/-- A block without a dirty slot has the device's bytes. -/
theorem contents_device (absent : ∀ c ∈ d.cache, c.dirtyFor b = false) (bound : o < bs) :
    d.contents bs b o = d.device (b * bs + o) := by
  have none : d.cache.find? (Slot.dirtyFor b) = none := by
    apply find?_eq_none.mpr
    intro c member
    simp [absent c member]
  simp [contents, bound, none]

theorem contents_uncached (absent : ∀ c ∈ d.cache, c.isUsed = true → c.blockNum ≠ b)
    (bound : o < bs) : d.contents bs b o = d.device (b * bs + o) := by
  apply contents_device _ bound
  intro c member
  by_cases used : c.isUsed = true
  · simp [Slot.dirtyFor, absent c member used]
  · simp [Slot.dirtyFor, used]

section
variable (coherent : Coherent bs covered d) (held : d.cache[i]? = some c) (used : c.isUsed = true)
include coherent held used

/-- A block with a dirty slot has that slot's bytes: no other slot holds it. -/
theorem contents_dirty (dirty : c.hasWrite = true) (bound : o < bs) :
    d.contents bs c.blockNum o = c.block o := by
  have member : c ∈ d.cache := mem_of_getElem? held
  cases found : d.cache.find? (Slot.dirtyFor c.blockNum) with
  | none =>
    have absent := find?_eq_none.mp found c member
    simp [Slot.dirtyFor, used, dirty] at absent
  | some c' =>
    have property := find?_some found
    simp only [Slot.dirtyFor, and_eq_true, beq_iff_eq] at property
    obtain ⟨j, held'⟩ := mem_iff_getElem?.mp (mem_of_find?_eq_some found)
    have same := coherent.distinct i j c c' held held' used property.1.1 property.2.symm
    subst same
    rw [held] at held'
    cases held'
    simp [contents, bound, found]

/-- Any slot of a covered block, dirty or clean, has its logical contents. -/
theorem contents_slot (cover : covered c.blockNum) (bound : o < bs) :
    d.contents bs c.blockNum o = c.block o := by
  by_cases dirty : c.hasWrite = true
  · exact contents_dirty coherent held used dirty bound
  · have clean : c.hasWrite = false := by simpa using dirty
    rw [coherent.clean c (mem_of_getElem? held) used clean cover o bound]
    apply contents_device _ bound
    intro c' member
    by_contra dirty'
    simp only [Slot.dirtyFor, and_eq_true, beq_iff_eq, not_eq_false] at dirty'
    obtain ⟨j, held'⟩ := mem_iff_getElem?.mp member
    have same := coherent.distinct i j c c' held held' used dirty'.1.1 dirty'.2.symm
    subst same
    rw [held] at held'
    cases held'
    simp [clean] at dirty'

end

end Contents

/-! ### Replacing one slot -/

theorem find?_set_unmatched {p : α → Bool} {new : α} {l : List α} {i : Nat} (fresh : p new = false)
    (stale : ∀ old, l[i]? = some old → p old = false) : (l.set i new).find? p = l.find? p := by
  induction l generalizing i with
  | nil => rfl
  | cons head rest ih =>
    cases i with
    | zero =>
      have := stale head rfl
      simp [fresh, this]
    | succ i =>
      simp only [set_cons_succ, find?_cons]
      rw [ih (fun old held => stale old (by simpa using held))]

section Replace
variable {bs i block : Nat} {covered : Nat → Prop} {d : Disk} {new : Slot} {device : Bytes}
  {uptime : Nat → Nat}

/-- The invariant after one slot and possibly the device have changed: what the
new slot must satisfy, and what must hold of the slots left in place. -/
theorem Coherent.replace (coherent : Coherent bs covered d) (new : Slot)
    (addressable : Addressable bs new.blockNum)
    (alone : ∀ (j : Nat) c, j ≠ i → d.cache[j]? = some c → c.isUsed = true →
      c.blockNum ≠ new.blockNum)
    (clean : new.hasWrite = false → covered new.blockNum →
      ∀ o < bs, new.block o = device (new.blockNum * bs + o))
    (kept : ∀ (j : Nat) c, j ≠ i → d.cache[j]? = some c → c.isUsed = true →
      ∀ o < bs, device (c.blockNum * bs + o) = d.device (c.blockNum * bs + o)) :
    Coherent bs covered ⟨d.cache.set i new, device, uptime⟩ := by
  have slots : ∀ (j : Nat) c, (d.cache.set i new)[j]? = some c →
      (j = i ∧ c = new) ∨ (j ≠ i ∧ d.cache[j]? = some c) := by
    intro j c held
    rw [List.getElem?_set] at held
    split at held
    · rename_i same
      split at held
      · cases held
        exact .inl ⟨same.symm, rfl⟩
      · cases held
    · rename_i other
      exact .inr ⟨fun same => other same.symm, held⟩
  refine ⟨?_, ?_, ?_, ?_⟩
  · intro empty
    exact coherent.nonempty (by simpa using empty)
  · intro c member used
    obtain ⟨j, held⟩ := mem_iff_getElem?.mp member
    rcases slots j c held with ⟨rfl, rfl⟩ | ⟨_, old⟩
    · exact addressable
    · exact coherent.addressable c (mem_of_getElem? old) used
  · intro j k c c' held held' used used' same
    rcases slots j c held with ⟨rfl, rfl⟩ | ⟨other, old⟩ <;>
      rcases slots k c' held' with ⟨rfl, rfl⟩ | ⟨other', old'⟩
    · rfl
    · exact absurd same.symm (alone k c' other' old' used')
    · exact absurd same (alone j c other old used)
    · exact coherent.distinct j k c c' old old' used used' same
  · intro c member used unwritten cover o bound
    obtain ⟨j, held⟩ := mem_iff_getElem?.mp member
    rcases slots j c held with ⟨rfl, rfl⟩ | ⟨other, old⟩
    · exact clean unwritten cover o bound
    · rw [coherent.clean c (mem_of_getElem? old) used unwritten cover o bound]
      exact (kept j c other old used o bound).symm

/-- A block that neither the old nor the new slot is dirty for keeps its
contents when its device bytes stay. -/
theorem contents_replace (new : Slot) {b : Nat} (fresh : new.dirtyFor b = false)
    (stale : ∀ old, d.cache[i]? = some old → old.dirtyFor b = false)
    (same : ∀ o < bs, device (b * bs + o) = d.device (b * bs + o)) :
    contents bs ⟨d.cache.set i new, device, uptime⟩ b = d.contents bs b := by
  funext o
  by_cases bound : o < bs
  · simp only [contents, bound, ↓reduceIte]
    rw [find?_set_unmatched fresh stale, same o bound]
  · rw [contents_outside (by omega), contents_outside (by omega)]

end Replace

/-! ### Refilling a slot -/

section Operations
variable {bs i block size offset : Nat} {covered : Nat → Prop} {d : Disk}

/-- The device after a dirty slot has been written back, seen from any block. -/
theorem writeBack_device (positive : 0 < bs) (coherent : Coherent bs covered d)
    (held : d.cache[i]? = some c) (b : Nat) (bound : o < bs) :
    (writeBack bs d c).device (b * bs + o) =
      if c.dirtyFor b = true then c.block o else d.device (b * bs + o) := by
  unfold writeBack
  split
  · rename_i dirty
    have fits := coherent.addressable c (mem_of_getElem? held) dirty.1
    simp only [pwrite]
    rw [device_write_block positive fits bound]
    have matching : (c.dirtyFor b = true) ↔ b = c.blockNum := by
      simp only [Slot.dirtyFor, dirty.1, dirty.2, Bool.and_self, Bool.true_and, beq_iff_eq]
      exact eq_comm
    simp only [matching]
  · rename_i tidy
    have clean : c.dirtyFor b = false := by
      simp only [Slot.dirtyFor]
      by_contra dirty
      simp only [and_eq_true, not_eq_false] at dirty
      exact tidy dirty.1
    simp [clean]

/-- The slot that a miss loads. -/
def refilled (bs : Nat) (d : Disk) (c : Slot) (block : Nat) : Slot :=
  { isUsed := true, blockNum := block, lastUse := (writeBack bs d c).now, hasWrite := false,
    block := (writeBack bs d c).pread c.block bs (u32 (block * bs)) }

@[simp] theorem writeBack_cache (bs : Nat) (d : Disk) (c : Slot) :
    (writeBack bs d c).cache = d.cache := by
  unfold writeBack
  split <;> rfl

theorem refill_eq (held : d.cache[i]? = some c) :
    refill bs d i block = ⟨d.cache.set i (refilled bs d c block), (writeBack bs d c).device,
      (writeBack bs d c).tick.uptime⟩ := by
  have slot : d.cache.getD i default = c := by simp [getD_eq_getElem?_getD, held]
  unfold refill
  rw [slot]
  simp [refilled, tick]

/-- Loading a block keeps the invariant and every logical byte: a dirty slot
that is evicted has reached the device first. -/
theorem refill_spec (positive : 0 < bs) (coherent : Coherent bs covered d)
    (held : d.cache[i]? = some c) (fits : Addressable bs block)
    (absent : ∀ c ∈ d.cache, c.isUsed = true → c.blockNum ≠ block) :
    Coherent bs covered (refill bs d i block) ∧
      (refill bs d i block).contents bs = d.contents bs := by
  have device := fun b o bound => writeBack_device (o := o) positive coherent held b bound
  have kept : ∀ (j : Nat) c', j ≠ i → d.cache[j]? = some c' → c'.isUsed = true →
      ∀ o < bs, (writeBack bs d c).device (c'.blockNum * bs + o) =
        d.device (c'.blockNum * bs + o) := by
    intro j c' other held' used o bound
    rw [device c'.blockNum o bound]
    split
    · rename_i dirty
      simp only [Slot.dirtyFor, and_eq_true, beq_iff_eq] at dirty
      exact absurd (coherent.distinct j i c' c held' held used dirty.1.1 dirty.2.symm) other
    · rfl
  have clean : ∀ o < bs, (refilled bs d c block).block o =
      (writeBack bs d c).device (block * bs + o) := by
    intro o bound
    simp only [refilled, pread]
    rw [splice_inside (by omega) (by omega), fits.address positive]
    simp
  rw [refill_eq held]
  refine ⟨?_, ?_⟩
  · exact coherent.replace (refilled bs d c block) fits
      (fun j c' other held' used => absent c' (mem_of_getElem? held') used)
      (fun _ _ => clean) kept
  · funext b
    by_cases dirty : c.dirtyFor b = true
    · -- the evicted block: its bytes move from the slot to the device
      simp only [Slot.dirtyFor, and_eq_true, beq_iff_eq] at dirty
      obtain ⟨⟨used, written⟩, rfl⟩ := dirty
      funext o
      by_cases bound : o < bs
      · rw [contents_dirty coherent held used written bound]
        rw [contents_device _ bound]
        · rw [device _ o bound]
          simp [Slot.dirtyFor, used, written]
        · intro c' member
          obtain ⟨j, held'⟩ := mem_iff_getElem?.mp member
          rw [List.getElem?_set] at held'
          split at held'
          · split at held'
            · cases held'
              simp [Slot.dirtyFor, refilled]
            · cases held'
          · rename_i other
            by_contra again
            simp only [Slot.dirtyFor, and_eq_true, beq_iff_eq, not_eq_false] at again
            exact other (coherent.distinct i j c c' held held' used again.1.1 again.2.symm)
      · rw [contents_outside (by omega), contents_outside (by omega)]
    · have clean : c.dirtyFor b = false := by simpa using dirty
      apply contents_replace (refilled bs d c block)
      · simp [Slot.dirtyFor, refilled]
      · intro old held'
        rw [held] at held'
        cases held'
        exact clean
      · intro o bound
        rw [device b o bound, if_neg dirty]

/-! ### Reading -/

/-- A hit copies the slot's bytes and only moves its timestamp. -/
theorem read_hit (room : offset + size ≤ bs) (small : bs < 2 ^ 32)
    (coherent : Coherent bs covered d) (found : lookup block d.cache 0 none = .hit i)
    (cover : covered block) (depth : Nat) :
    ∃ d', cachedReadBlock bs (depth + 1) d block size offset =
        .ok (slice (d.contents bs block) offset size, d') ∧
      Coherent bs covered d' ∧ d'.contents bs = d.contents bs := by
  obtain ⟨j, c, place, held, used, rfl⟩ := lookup_hit found
  have same : i = j := by omega
  subst same
  have slot : d.cache.getD i default = c := by simp [getD_eq_getElem?_getD, held]
  let stamped : Slot := { c with lastUse := d.now }
  have others : ∀ (j : Nat) c', j ≠ i → d.cache[j]? = some c' → c'.isUsed = true →
      c'.blockNum ≠ c.blockNum := by
    intro j c' other held' used' same
    exact other (coherent.distinct j i c' c held' held used' used same)
  have coherent' : Coherent bs covered ⟨d.cache.set i stamped, d.device, d.tick.uptime⟩ :=
    coherent.replace stamped (coherent.addressable c (mem_of_getElem? held) used) others
      (fun unwritten => coherent.clean c (mem_of_getElem? held) used unwritten)
      (fun _ _ _ _ _ _ _ => rfl)
  refine ⟨⟨d.cache.set i stamped, d.device, d.tick.uptime⟩, ?_, coherent', ?_⟩
  · rw [cachedReadBlock, if_pos (by rw [u32_of_lt (by omega)]; exact room), found]
    simp only [slot]
    congr 2
    apply slice_congr
    intro o bound
    exact (contents_slot coherent held used cover (by omega)).symm
  · funext b
    by_cases dirty : c.dirtyFor b = true
    · simp only [Slot.dirtyFor, and_eq_true, beq_iff_eq] at dirty
      obtain ⟨⟨_, written⟩, rfl⟩ := dirty
      have bound := (List.getElem?_eq_some_iff.mp held).choose
      have held' : (d.cache.set i stamped)[i]? = some stamped := by
        rw [List.getElem?_set_self bound]
      funext o
      by_cases inside : o < bs
      · rw [contents_dirty coherent held used written inside]
        exact contents_dirty (c := stamped) coherent' held' used written inside
      · rw [contents_outside (by omega), contents_outside (by omega)]
    · apply contents_replace stamped
      · simpa [Slot.dirtyFor] using dirty
      · intro old held'
        rw [held] at held'
        cases held'
        simpa using dirty
      · exact fun _ _ => rfl

/-- A used slot of the block makes the search succeed. -/
theorem lookup_complete {slots : List Slot} {c : Slot} {j : Nat} (held : slots[j]? = some c)
    (used : c.isUsed = true) (names : c.blockNum = block) :
    ∃ i, lookup block slots 0 none = .hit i := by
  cases result : lookup block slots 0 none with
  | hit i => exact ⟨i, rfl⟩
  | miss free => exact absurd names ((lookup_miss result).1 c (mem_of_getElem? held) used)

/-- `cached_read_block` returns the logical bytes. Its call of itself after a
miss finds the block just loaded, so any depth of at least two will do. -/
theorem cachedReadBlock_spec (positive : 0 < bs) (small : bs < 2 ^ 32)
    (coherent : Coherent bs covered d) (fits : Addressable bs block)
    (room : offset + size ≤ bs) (cover : covered block) (depth : Nat) :
    ∃ d', cachedReadBlock bs (depth + 2) d block size offset =
        .ok (slice (d.contents bs block) offset size, d') ∧
      Coherent bs covered d' ∧ d'.contents bs = d.contents bs := by
  cases found : lookup block d.cache 0 none with
  | hit i =>
    obtain ⟨d', ran, after, same⟩ := read_hit room small coherent found cover (depth + 1)
    exact ⟨d', ran, after, same⟩
  | miss freeFound =>
    have bound := replaced_slot_exists coherent.nonempty found
    obtain ⟨c, held⟩ : ∃ c, d.cache[freeFound.getD (victim d.cache 0 u32Max 0)]? = some c :=
      ⟨_, List.getElem?_eq_getElem bound⟩
    obtain ⟨loaded, same⟩ :=
      refill_spec positive coherent held fits (lookup_miss found).1
    have present : (refill bs d (freeFound.getD (victim d.cache 0 u32Max 0)) block).cache[
        freeFound.getD (victim d.cache 0 u32Max 0)]? = some (refilled bs d c block) := by
      rw [refill_eq held]
      exact List.getElem?_set_self bound
    have names : (refilled bs d c block).blockNum = block := rfl
    obtain ⟨i, hit⟩ := lookup_complete present rfl names
    obtain ⟨d', ran, after, same'⟩ := read_hit room small loaded hit cover depth
    refine ⟨d', ?_, after, same'.trans same⟩
    rw [cachedReadBlock, if_pos (by rw [u32_of_lt (by omega)]; exact room), found]
    simp only
    rw [ran, same]

/-! ### Writing -/

/-- `ext2_write_block` leaves the logical contents of other blocks alone and
changes exactly its own range of a covered block. -/
theorem writeBlock_spec (small : bs < 2 ^ 32) (coherent : Coherent bs covered d)
    (fits : Addressable bs block) (room : offset + size ≤ bs) (address : Bytes) :
    ∃ d', d.writeBlock bs block address size offset = .ok d' ∧ Coherent bs covered d' ∧
      (∀ b, b ≠ block → d'.contents bs b = d.contents bs b) ∧
      (covered block → d'.contents bs block =
        splice (d.contents bs block) offset address size) := by
  unfold writeBlock
  rw [if_pos (by rw [u32_of_lt (by omega)]; exact room)]
  rw [findSlot_eq none]
  cases found : lookup block d.cache 0 none with
  | hit i =>
    -- a hit: the slot takes the bytes and becomes dirty
    obtain ⟨j, c, place, held, used, rfl⟩ := lookup_hit found
    have same : i = j := by omega
    subst same
    have slot : d.cache.getD i default = c := by simp [getD_eq_getElem?_getD, held]
    let written : Slot := { c with block := splice c.block offset address size, hasWrite := true }
    have coherent' : Coherent bs covered ⟨d.cache.set i written, d.device, d.uptime⟩ :=
      coherent.replace written fits
        (fun j c' other held' used' same =>
          other (coherent.distinct j i c' c held' held used' used same))
        (fun unwritten => by cases unwritten) (fun _ _ _ _ _ _ _ => rfl)
    refine ⟨⟨d.cache.set i written, d.device, d.uptime⟩, by simp only [slot]; rfl, coherent',
      fun b names => ?_, fun cover => ?_⟩
    · apply contents_replace written
      · simp [Slot.dirtyFor, written, Ne.symm names]
      · intro old held'
        rw [held] at held'
        cases held'
        simp [Slot.dirtyFor, Ne.symm names]
      · exact fun _ _ => rfl
    · funext o
      have held' : (d.cache.set i written)[i]? = some written :=
        List.getElem?_set_self (List.getElem?_eq_some_iff.mp held).choose
      by_cases inside : o < bs
      · have new : _ = splice c.block offset address size o :=
          contents_dirty (c := written) coherent' held' used rfl inside
        have old := contents_slot coherent held used cover inside
        simp only [splice] at new ⊢
        rw [old]
        exact new
      · rw [contents_outside (by omega), splice_outside (by omega), contents_outside (by omega)]
  | miss _ =>
    -- the bytes go straight to the device
    have absent := (lookup_miss found).1
    refine ⟨_, rfl, ⟨coherent.nonempty, coherent.addressable, coherent.distinct, ?_⟩,
      fun b names => ?_, fun _ => ?_⟩
    · intro c member used unwritten cover' o bound
      simp only [pwrite]
      rw [device_write_range fits room bound, if_neg (absent c member used)]
      exact coherent.clean c member used unwritten cover' o bound
    · funext o
      by_cases inside : o < bs
      · simp only [contents, pwrite, inside, ↓reduceIte]
        rw [device_write_range fits room inside, if_neg names]
      · rw [contents_outside (by omega), contents_outside (by omega)]
    · funext o
      by_cases inside : o < bs
      · rw [contents_uncached (d := d.pwrite address size _) absent inside]
        simp only [pwrite]
        rw [device_write_range fits room inside, if_pos rfl]
        simp only [splice]
        rw [contents_uncached absent inside]
      · rw [contents_outside (by omega), splice_outside (by omega), contents_outside (by omega)]

end Operations

/-! ### Flushing -/

/-- A slot after the flush loop has passed it. -/
def Slot.flushed (c : Slot) : Slot :=
  if c.isUsed ∧ c.hasWrite then { c with hasWrite := false } else c

open Slot

theorem Slot.flushed_fields (c : Slot) :
    c.flushed.isUsed = c.isUsed ∧ c.flushed.blockNum = c.blockNum ∧ c.flushed.block = c.block ∧
      (c.isUsed = true → c.flushed.hasWrite = false) := by
  unfold flushed
  split
  · simp
  · rename_i tidy
    refine ⟨rfl, rfl, rfl, fun used => ?_⟩
    simpa [used] using tidy

theorem flushSlots_cache (bs : Nat) (slots : List Slot) (device : Bytes) :
    (flushSlots bs slots device).1 = slots.map flushed := by
  induction slots generalizing device with
  | nil => rfl
  | cons c rest ih =>
    unfold flushSlots
    split
    · rename_i dirty
      simp [ih, flushed, dirty]
    · rename_i tidy
      simp [ih, flushed, tidy]

/-- The device after the flush loop: each dirty slot on its block. The slots
hold distinct blocks, so their order does not matter. -/
theorem flushSlots_device (positive : 0 < bs)
    (fits : ∀ c ∈ slots, c.isUsed = true → Addressable bs c.blockNum)
    (distinct : ∀ (i j : Nat) (c c' : Slot), slots[i]? = some c → slots[j]? = some c' →
      c.isUsed = true → c'.isUsed = true → c.blockNum = c'.blockNum → i = j)
    (device : Bytes) (b : Nat) (bound : o < bs) :
    (flushSlots bs slots device).2 (b * bs + o) =
      match slots.find? (dirtyFor b) with
      | some c => c.block o
      | none => device (b * bs + o) := by
  induction slots generalizing device with
  | nil => rfl
  | cons c rest ih =>
    have fitsRest := fun c' member => fits c' (mem_cons_of_mem c member)
    have distinctRest : ∀ (i j : Nat) (c c' : Slot), rest[i]? = some c → rest[j]? = some c' →
        c.isUsed = true → c'.isUsed = true → c.blockNum = c'.blockNum → i = j := by
      intro i j c₁ c₂ held held' used used' same
      have := distinct (i + 1) (j + 1) c₁ c₂ (by simpa using held) (by simpa using held')
        used used' same
      omega
    unfold flushSlots
    split
    · rename_i dirty
      rw [ih fitsRest distinctRest, find?_cons]
      rw [device_write_block positive (fits c (by simp) dirty.1) bound]
      by_cases names : b = c.blockNum
      · subst names
        have absent : rest.find? (dirtyFor c.blockNum) = none := by
          apply find?_eq_none.mpr
          intro c' member again
          simp only [dirtyFor, and_eq_true, beq_iff_eq] at again
          obtain ⟨j, held'⟩ := mem_iff_getElem?.mp member
          have := distinct 0 (j + 1) c c' rfl (by simpa using held') dirty.1 again.1.1
            again.2.symm
          omega
        simp [absent, dirtyFor, dirty.1, dirty.2]
      · have clean : c.dirtyFor b = false := by simp [dirtyFor, Ne.symm names]
        rw [clean, if_neg names]
    · rename_i tidy
      have clean : c.dirtyFor b = false := by
        by_contra dirty
        simp only [dirtyFor, and_eq_true, not_eq_false] at dirty
        exact tidy dirty.1
      rw [ih fitsRest distinctRest, find?_cons, clean]

section Flush
variable {bs : Nat} {covered : Nat → Prop} {d : Disk}

/-- After the flush loop the device holds the logical contents of every block. -/
theorem flushCache_device (positive : 0 < bs) (coherent : Coherent bs covered d) (b : Nat)
    (bound : o < bs) :
    (d.flushCache bs).device (b * bs + o) = d.contents bs b o := by
  simp only [flushCache, contents, bound, ↓reduceIte]
  exact flushSlots_device positive coherent.addressable coherent.distinct d.device b bound

theorem flushCache_cache (bs : Nat) (d : Disk) :
    (d.flushCache bs).cache = d.cache.map flushed := flushSlots_cache bs d.cache d.device

theorem flushCache_unwritten (member : c ∈ (d.flushCache bs).cache) (used : c.isUsed = true) :
    c.hasWrite = false := by
  rw [flushCache_cache] at member
  obtain ⟨old, _, rfl⟩ := mem_map.mp member
  have fields := old.flushed_fields
  exact fields.2.2.2 (fields.1 ▸ used)

/-- Flushing keeps the invariant and the logical contents. -/
theorem flushCache_spec (positive : 0 < bs) (coherent : Coherent bs covered d) :
    Coherent bs covered (d.flushCache bs) ∧
      (d.flushCache bs).contents bs = d.contents bs := by
  have origin : ∀ (i : Nat) c, (d.flushCache bs).cache[i]? = some c →
      ∃ old, d.cache[i]? = some old ∧ c = old.flushed := by
    intro i c held
    rw [flushCache_cache, List.getElem?_map] at held
    obtain ⟨old, held', rfl⟩ := Option.map_eq_some_iff.mp held
    exact ⟨old, held', rfl⟩
  refine ⟨⟨?_, ?_, ?_, ?_⟩, ?_⟩
  · rw [flushCache_cache]
    simpa using coherent.nonempty
  · intro c member used
    obtain ⟨i, held⟩ := mem_iff_getElem?.mp member
    obtain ⟨old, held', rfl⟩ := origin i c held
    have fields := old.flushed_fields
    rw [fields.2.1]
    exact coherent.addressable old (mem_of_getElem? held') (fields.1 ▸ used)
  · intro i j c c' held held' used used' same
    obtain ⟨old, place, rfl⟩ := origin i c held
    obtain ⟨old', place', rfl⟩ := origin j c' held'
    have fields := old.flushed_fields
    have fields' := old'.flushed_fields
    exact coherent.distinct i j old old' place place' (fields.1 ▸ used) (fields'.1 ▸ used')
      (by rw [← fields.2.1, ← fields'.2.1]; exact same)
  · intro c member used _ cover o bound
    obtain ⟨i, held⟩ := mem_iff_getElem?.mp member
    obtain ⟨old, place, rfl⟩ := origin i c held
    have fields := old.flushed_fields
    rw [flushCache_device positive coherent _ bound, fields.2.1, fields.2.2.1]
    exact (contents_slot coherent place (fields.1 ▸ used) (fields.2.1 ▸ cover) bound).symm
  · funext b o
    by_cases bound : o < bs
    · rw [contents_device _ bound, flushCache_device positive coherent _ bound]
      intro c member
      by_cases used : c.isUsed = true
      · simp [dirtyFor, flushCache_unwritten member used]
      · simp [dirtyFor, used]
    · rw [contents_outside (by omega), contents_outside (by omega)]

/-- A write to the start of the device that stays inside block 0 is invisible
from every other block. -/
theorem pwrite_start_spec (offset count : Nat) (uncovered : ∀ b, covered b → b ≠ 0) (room : offset + count ≤ bs)
    (coherent : Coherent bs covered d) (buf : Bytes) :
    Coherent bs covered (d.pwrite buf count offset) ∧
      ∀ b, b ≠ 0 → (d.pwrite buf count offset).contents bs b = d.contents bs b := by
  have apart : ∀ b o, b ≠ 0 → o < bs →
      (d.pwrite buf count offset).device (b * bs + o) = d.device (b * bs + o) := by
    intro b o nonzero _
    have : bs ≤ b * bs := Nat.le_mul_of_pos_left bs (Nat.pos_of_ne_zero nonzero)
    exact splice_outside (by omega)
  refine ⟨⟨coherent.nonempty, coherent.addressable, coherent.distinct, ?_⟩, ?_⟩
  · intro c member used unwritten cover o bound
    rw [apart _ o (uncovered _ cover) bound]
    exact coherent.clean c member used unwritten cover o bound
  · intro b nonzero
    funext o
    by_cases bound : o < bs
    · have same := apart b o nonzero bound
      simp only [contents, bound, ↓reduceIte]
      rw [same]
      rfl
    · rw [contents_outside (by omega), contents_outside (by omega)]

end Flush

end SbOS.Ext2
