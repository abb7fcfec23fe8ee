import SbOS.Ext2.Allocation
import SbOS.Lib.Counting

/-! The bit arithmetic of the allocator: bits of a bitmap block by position, and
the scanning loops of `get_free_blocks` and `get_free_inode` in terms of the
clear positions. -/
namespace SbOS.Ext2
open Bytes Function List

/-- Bit number `pos` of a bitmap. -/
def bitAt (bitmap : Bytes) (pos : Nat) : Bool := bitSet (bitmap (pos / 8)) (pos % 8)

/-- The bitmap with all of `positions` set. -/
def setBits (bitmap : Bytes) (positions : List Nat) : Bytes :=
  positions.foldl (fun bitmap pos => setBit bitmap (pos / 8) (pos % 8)) bitmap

/-- The clear positions of a bitmap of `count` bits, in order. -/
def clearPositions (bitmap : Bytes) (count : Nat) : List Nat :=
  (List.range count).filter fun pos => !bitAt bitmap pos

/-! ### Single bits -/

theorem bitSet_or (byte : UInt8) (small : o < 8) :
    bitSet (byte ||| UInt8.ofNat (2 ^ o)) p = (bitSet byte p || decide (p = o)) := by
  have room : 2 ^ o < 2 ^ 8 := Nat.pow_lt_pow_right (by omega) small
  simp only [bitSet, UInt8.toNat_or, UInt8.toNat_ofNat', Nat.testBit_or]
  rw [Nat.mod_eq_of_lt room, Nat.testBit_two_pow]
  simp only [eq_comm]

theorem bitSet_andNot (byte : UInt8) (small : o < 8) (bound : p < 8) :
    bitSet (byte &&& ~~~ UInt8.ofNat (2 ^ o)) p = (bitSet byte p && !decide (p = o)) := by
  have room : 2 ^ o < 2 ^ 8 := Nat.pow_lt_pow_right (by omega) small
  simp only [bitSet, UInt8.toNat_and, UInt8.toNat_not, UInt8.toNat_ofNat', Nat.testBit_and]
  rw [Nat.mod_eq_of_lt room, show UInt8.size - 1 - 2 ^ o = 2 ^ 8 - (2 ^ o + 1) by
    simp only [UInt8.size]; omega, Nat.testBit_two_pow_sub_succ room, Nat.testBit_two_pow]
  simp [bound, eq_comm]

theorem bitAt_setBit (bitmap : Bytes) (small : o < 8) :
    bitAt (setBit bitmap i o) pos = (bitAt bitmap pos || decide (pos = 8 * i + o)) := by
  unfold bitAt setBit
  by_cases same : pos / 8 = i
  · rw [same, update_self, bitSet_or _ small]
    congr 1
    apply decide_eq_decide.mpr
    omega
  · rw [update_of_ne same]
    have : pos ≠ 8 * i + o := by omega
    simp [this]

theorem bitAt_clearBit (bitmap : Bytes) (small : o < 8) :
    bitAt (clearBit bitmap i o) pos = (bitAt bitmap pos && !decide (pos = 8 * i + o)) := by
  unfold bitAt clearBit
  by_cases same : pos / 8 = i
  · rw [same, update_self, bitSet_andNot _ small (Nat.mod_lt _ (by omega))]
    congr 2
    apply decide_eq_decide.mpr
    omega
  · rw [update_of_ne same]
    have : pos ≠ 8 * i + o := by omega
    simp [this]

theorem bitAt_setBits (bitmap : Bytes) (positions : List Nat) :
    bitAt (setBits bitmap positions) pos = (bitAt bitmap pos || decide (pos ∈ positions)) := by
  induction positions generalizing bitmap with
  | nil => simp [setBits]
  | cons head rest ih =>
    change bitAt (setBits (setBit bitmap (head / 8) (head % 8)) rest) pos = _
    rw [ih, bitAt_setBit _ (Nat.mod_lt _ (by omega)), Nat.div_add_mod, Bool.or_assoc]
    congr 1
    simp

theorem bitAt_congr (same : bitmap (pos / 8) = other (pos / 8)) :
    bitAt bitmap pos = bitAt other pos := by
  rw [bitAt, same, bitAt]

/-- A byte of ones has no clear bit. -/
theorem bitSet_full : ∀ o < 8, bitSet 0xFF o = true := by decide

/-! ### The block scan -/

/-- Both inner loops of `get_free_blocks` as one loop over bit positions. -/
def scanPositions (numEntries base : Nat) : List Nat → Scan → Scan
  | [], scan => scan
  | pos :: rest, scan =>
    if scan.entries.length < numEntries then
      if bitAt scan.bitmap pos then scanPositions numEntries base rest scan
      else scanPositions numEntries base rest
        { bitmap := setBit scan.bitmap (pos / 8) (pos % 8)
          entries := scan.entries ++ [u32 (pos + base)]
          foundBlock := true }
    else scan

section Scan
variable {numEntries base : Nat}

theorem scanPositions_full (full : ¬ scan.entries.length < numEntries) (positions : List Nat) :
    scanPositions numEntries base positions scan = scan := by
  cases positions with
  | nil => rfl
  | cons pos rest => simp only [scanPositions, if_neg full]

theorem scanPositions_append (first second : List Nat) (scan : Scan) :
    scanPositions numEntries base (first ++ second) scan =
      scanPositions numEntries base second (scanPositions numEntries base first scan) := by
  induction first generalizing scan with
  | nil => rfl
  | cons pos rest ih =>
    simp only [cons_append, scanPositions]
    split
    · split <;> exact ih _
    · rename_i full
      rw [scanPositions_full full]

theorem scanPositions_set (all : ∀ pos ∈ positions, bitAt scan.bitmap pos) :
    scanPositions numEntries base positions scan = scan := by
  induction positions with
  | nil => rfl
  | cons pos rest ih =>
    simp only [scanPositions, if_pos (all pos (by simp))]
    rw [ih (fun p member => all p (by simp [member]))]
    simp

theorem scanByte_eq (index : Nat) (small : ∀ o ∈ offsets, o < 8) (scan : Scan) :
    scanByte numEntries base index offsets scan =
      scanPositions numEntries base (offsets.map (8 * index + ·)) scan := by
  induction offsets generalizing scan with
  | nil => rfl
  | cons o rest ih =>
    have bound : o < 8 := small o (by simp)
    have quotient : (8 * index + o) / 8 = index := by omega
    have remainder : (8 * index + o) % 8 = o := by omega
    have ih := ih (fun p member => small p (by simp [member]))
    simp only [scanByte, map_cons, scanPositions, bitAt, quotient, remainder,
      Nat.mul_comm index 8]
    split
    · split
      · exact ih _
      · exact ih _
    · rfl

theorem scanBitmap_eq (indices : List Nat) (scan : Scan) :
    scanBitmap numEntries base indices scan = scanPositions numEntries base
      (indices.flatMap fun index => (range 8).map (8 * index + ·)) scan := by
  induction indices generalizing scan with
  | nil => rfl
  | cons index rest ih =>
    have small : ∀ o ∈ range 8, o < 8 := fun o member => mem_range.mp member
    rw [flatMap_cons, scanPositions_append, ← scanByte_eq index small]
    simp only [scanBitmap]
    split
    · split
      · rename_i full
        have ones : ∀ pos ∈ (range 8).map (8 * index + ·), bitAt scan.bitmap pos := by
          intro pos member
          obtain ⟨o, inRange, rfl⟩ := mem_map.mp member
          have bound := small o inRange
          rw [bitAt, show (8 * index + o) / 8 = index by omega, full,
            show (8 * index + o) % 8 = o by omega, bitSet_full o bound]
        rw [ih, scanByte_eq index small, scanPositions_set ones]
      · exact ih _
    · rename_i full
      rw [scanByte_eq index small, scanPositions_full full, scanPositions_full full]

theorem range_eight (m : Nat) :
    ((range m).flatMap fun index => (range 8).map (8 * index + ·)) =
      range (8 * m) := by
  induction m with
  | zero => rfl
  | succ m ih =>
    rw [range_succ (n := m), flatMap_append, ih, Nat.mul_succ, range_add]
    simp only [flatMap_cons, flatMap_nil, append_nil]

/-- The loops take clear positions in order until enough are found. -/
theorem scanPositions_spec (nodup : positions.Nodup) (scan : Scan) :
    let taken := (positions.filter fun pos => !bitAt scan.bitmap pos).take
      (numEntries - scan.entries.length)
    scanPositions numEntries base positions scan =
      ⟨setBits scan.bitmap taken, scan.entries ++ taken.map (fun pos => u32 (pos + base)),
        scan.foundBlock || !taken.isEmpty⟩ := by
  induction positions generalizing scan with
  | nil => simp [scanPositions, setBits]
  | cons pos rest ih =>
    obtain ⟨fresh, nodup'⟩ := nodup_cons.mp nodup
    by_cases room : scan.entries.length < numEntries
    · by_cases set : bitAt scan.bitmap pos = true
      · simp only [scanPositions, if_pos room, filter_cons, set, Bool.not_true,
          Bool.false_eq_true, if_false]
        exact ih nodup' scan
      · have clear : bitAt scan.bitmap pos = false := by simpa using set
        have after : ∀ p ∈ rest, bitAt (setBit scan.bitmap (pos / 8) (pos % 8)) p =
            bitAt scan.bitmap p := by
          intro p member
          rw [bitAt_setBit _ (Nat.mod_lt _ (by omega)), Nat.div_add_mod]
          have : p ≠ pos := fun same => fresh (same ▸ member)
          simp [this]
        have left : numEntries - scan.entries.length =
            numEntries - (scan.entries.length + 1) + 1 := by omega
        simp only [scanPositions, if_pos room, if_neg set]
        rw [ih nodup']
        simp only [filter_cons, clear, Bool.not_false, if_true, length_append,
          length_singleton, left, take_succ_cons, map_cons, append_assoc,
          singleton_append, isEmpty_cons, Bool.or_true, Bool.true_or]
        rw [filter_congr fun p member => by rw [after p member]]
        rfl
    · have none' : numEntries - scan.entries.length = 0 := by omega
      rw [scanPositions_full room]
      simp [none', setBits]

/-- One group's bitmap, scanned by both loops. -/
theorem scanBitmap_spec (numEntries base m : Nat) (bitmap : Bytes) (entries : List Nat) :
    let taken := (clearPositions bitmap (8 * m)).take (numEntries - entries.length)
    scanBitmap numEntries base (range m) ⟨bitmap, entries, false⟩ =
      ⟨setBits bitmap taken, entries ++ taken.map (fun pos => u32 (pos + base)),
        !taken.isEmpty⟩ := by
  intro taken
  rw [scanBitmap_eq, range_eight, scanPositions_spec nodup_range]
  rfl

end Scan

/-! ### The inode scan -/

theorem firstClearBit_spec (byte : UInt8) (offsets : List Nat) :
    firstClearBit byte offsets = offsets.find? fun o => !bitSet byte o := by
  induction offsets with
  | nil => rfl
  | cons o rest ih =>
    simp only [firstClearBit, find?_cons]
    cases bitSet byte o <;> simp [ih]

/-- The inode loops stop at the first clear position. -/
theorem firstClear_spec (bitmap : Bytes) (m : Nat) :
    firstClear bitmap (range m) =
      (clearPositions bitmap (8 * m)).head?.map fun pos => (pos / 8, pos % 8) := by
  have general : ∀ indices : List Nat, firstClear bitmap indices =
      ((indices.flatMap fun index => (range 8).map (8 * index + ·)).find?
        fun pos => !bitAt bitmap pos).map fun pos => (pos / 8, pos % 8) := by
    intro indices
    induction indices with
    | nil => rfl
    | cons index rest ih =>
      have here : ((range 8).map (8 * index + ·)).find? (fun pos => !bitAt bitmap pos) =
          ((range 8).find? fun o => !bitSet (bitmap index) o).map (8 * index + ·) := by
        rw [find?_map]
        congr 1
        rw [← head?_filter, ← head?_filter, filter_congr]
        intro o member
        have := mem_range.mp member
        simp only [comp, bitAt, show (8 * index + o) / 8 = index by omega,
          show (8 * index + o) % 8 = o by omega]
      rw [flatMap_cons, find?_append, here, ← firstClearBit_spec]
      simp only [firstClear]
      split
      · rename_i full
        have none' : firstClearBit (bitmap index) (range 8) = none := by
          rw [full]
          decide
        rw [none', ih]
        rfl
      · cases found : firstClearBit (bitmap index) (range 8) with
        | none =>
          rw [ih]
          rfl
        | some o =>
          have bound : o < 8 := by
            rw [firstClearBit_spec] at found
            exact mem_range.mp (mem_of_find?_eq_some found)
          simp only [Option.map_some, Option.some_or, Option.some.injEq, Prod.mk.injEq]
          omega
  rw [general, range_eight, clearPositions, head?_filter]

end SbOS.Ext2
