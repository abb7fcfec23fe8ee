import SbOS.Kernel.Stop
import SbOS.Lib.Bytes

/-! The disk file of the AHCI driver (`drivers/ahci.c`). A transfer of any bytes is cut into
transfers of whole sectors, of which the controller takes up to eight at a time. -/
namespace SbOS.Drivers
open Kernel Bytes Except

/-- `num_prdt` -/
def numPrdt : Nat := 8

/-- `ahci_raw_read` into a buffer of its caller. -/
def ahciRawRead (disk : Bytes) (lba count : Nat) (buffer : Bytes) : Except Stop Bytes := do
  check (count ≤ numPrdt)
  return splice buffer 0 (skip disk (512 * lba)) (512 * count)

/-- `ahci_raw_write` -/
def ahciRawWrite (disk : Bytes) (lba count : Nat) (buffer : Bytes) : Except Stop Bytes := do
  check (count ≤ numPrdt)
  return splice disk (512 * lba) buffer (512 * count)

/-- `memcpy` of `n` bytes between two buffers of the given sizes. -/
def copy (dst : Bytes) (dstSize pos : Nat) (src : Bytes) (srcSize from' n : Nat) :
    Except Stop Bytes :=
  if dstSize < pos + n ∨ srcSize < from' + n then .error .overrun
  else .ok (splice dst pos (skip src from') n)

/-- `sector_count` at its declaration, a `u32`. -/
def sectorCount (len : Nat) : Nat :=
  let count := len / 512 % 2 ^ 32
  if len % 512 ≠ 0 then (count + 1) % 2 ^ 32 else count

/-- A subtraction in `u64`. -/
def sub64 (a b : Nat) : Nat := (a + (2 ^ 64 - b)) % 2 ^ 64

/-! ## Reading -/

/-- What the loop of `ahci_read` works on. -/
structure Reading where
  lba : Nat
  offset : Nat
  /-- the place in the buffer of the caller -/
  pos : Nat
  len : Nat
  tmp : Bytes
  buffer : Bytes

/-- The loop of `ahci_read` and what follows it; `size` is the size of the caller's buffer. -/
def readSectors (disk : Bytes) (size : Nat) (sectors : Nat) (r : Reading) : Except Stop Bytes := do
  if numPrdt ≤ sectors then
    let tmp ← ahciRawRead disk r.lba numPrdt r.tmp
    let buffer ← copy r.buffer size r.pos tmp (512 * numPrdt) r.offset (512 * numPrdt)
    readSectors disk size (sectors - numPrdt) {
      lba := (r.lba + 1) % 2 ^ 32
      offset := 0
      pos := r.pos + numPrdt * 512
      len := sub64 r.len (numPrdt * 512)
      tmp
      buffer }
  else if 0 < sectors then
    let tmp ← ahciRawRead disk r.lba sectors r.tmp
    copy r.buffer size r.pos tmp (512 * numPrdt) r.offset (r.len % 2 ^ 32)
  else .ok r.buffer
termination_by sectors
decreasing_by unfold numPrdt at *; omega

/-- `ahci_read` on port 0; `tmp` is what the stack holds. -/
def ahciRead (disk buffer : Bytes) (offset len : Nat) (tmp : Bytes) : Except Stop (Int × Bytes) := do
  let buffer ← readSectors disk len (sectorCount len) {
    lba := offset / 512 % 2 ^ 32
    offset := offset % 512
    pos := 0
    len
    tmp
    buffer }
  return (toInt len, buffer)

/-! ## Writing -/

/-- What the loop of `ahci_write` works on. -/
structure Writing where
  lba : Nat
  pos : Nat
  len : Nat
  disk : Bytes

/-- A write of whole sectors out of the caller's buffer. -/
def writeOut (data : Bytes) (size : Nat) (w : Writing) (count : Nat) : Except Stop Bytes :=
  if size < w.pos + 512 * count then .error .overrun
  else ahciRawWrite w.disk w.lba count (skip data w.pos)

/-- The loop of `ahci_write` and what follows it. The offset in the sector is 0 there. -/
def writeSectors (data : Bytes) (size : Nat) (tmp : Bytes) (sectors : Nat) (w : Writing) :
    Except Stop Bytes := do
  if numPrdt ≤ sectors then
    let disk ← writeOut data size w numPrdt
    writeSectors data size tmp (sectors - numPrdt) {
      lba := (w.lba + 1) % 2 ^ 32
      pos := w.pos + numPrdt * 512
      len := sub64 w.len (numPrdt * 512)
      disk }
  else if 0 < sectors ∧ w.len % 512 = 0 then writeOut data size w sectors
  else if 0 < sectors ∧ 0 < w.len then
    let tmp ← ahciRawRead w.disk w.lba sectors tmp
    let tmp ← copy tmp (512 * sectors) 0 data size w.pos (w.len % 2 ^ 32)
    ahciRawWrite w.disk w.lba sectors tmp
  else .ok w.disk
termination_by sectors
decreasing_by unfold numPrdt at *; omega

/-- `ahci_write` of a buffer of `len` bytes on port 0. -/
def ahciWrite (disk data : Bytes) (offset len : Nat) (tmp : Bytes) : Except Stop (Int × Bytes) := do
  let lba := offset / 512 % 2 ^ 32
  let offset := offset % 512
  if 0 < offset then
    let sector ← ahciRawRead disk lba 1 tmp
    let write := min (512 - offset) len
    let sector ← copy sector 512 offset data len 0 write
    let disk ← ahciRawWrite disk lba 1 sector
    -- the pointer into the caller's buffer stays where it is
    let disk ← writeSectors data len tmp (sub32 (sectorCount len) 1)
      { lba := (lba + 1) % 2 ^ 32, pos := 0, len := len - write, disk }
    return (toInt len, disk)
  else
    let disk ← writeSectors data len tmp (sectorCount len) { lba, pos := 0, len, disk }
    return (toInt len, disk)

/-! ## What is to hold -/

/-- `ahci_read` fills the caller's buffer with the bytes of the range. -/
def ReadsExactly (offset len : Nat) : Prop :=
  ∀ disk buffer tmp, ahciRead disk buffer offset len tmp =
    .ok (len, splice buffer 0 (skip disk offset) len)

/-- `ahci_write` replaces the bytes of the range. -/
def WritesExactly (offset len : Nat) : Prop :=
  ∀ disk data tmp, ahciWrite disk data offset len tmp = .ok (len, splice disk offset data len)

/-- A read after a write of the same range returns what was written. -/
def ReturnsWritten (offset len : Nat) : Prop :=
  ∀ disk data buffer tmp tmp', ∃ disk', ahciWrite disk data offset len tmp = .ok (len, disk') ∧
    ahciRead disk' buffer offset len tmp' = .ok (len, splice buffer 0 data len)

/-- What `ahci_read` gets right: the sectors that it counts from the length alone cover the range,
and they are fewer than one full transfer or make exactly one. -/
def Readable (offset len : Nat) : Prop :=
  len = 0 ∨ offset / 512 < 2 ^ 32 ∧ offset % 512 + len ≤ 512 * ((len + 511) / 512) ∧
    (len ≤ 7 * 512 ∨ len = 8 * 512)

/-- What `ahci_write` gets right: a part of one sector, or a range that starts with a sector and
needs fewer than one full transfer or exactly one. -/
def Writable (offset len : Nat) : Prop :=
  if len = 0 then offset % 512 = 0
  else offset / 512 < 2 ^ 32 ∧
    (offset % 512 + len ≤ 512 ∨ offset % 512 = 0 ∧ (len ≤ 7 * 512 ∨ len = 8 * 512))

/-! ## The parts of a transfer -/

section
variable (few : count ≤ numPrdt) (disk : Bytes) (lba : Nat) (buffer : Bytes)
include few disk lba buffer

theorem ahciRawRead_ok :
    ahciRawRead disk lba count buffer =
      .ok (splice buffer 0 (skip disk (512 * lba)) (512 * count)) := by
  unfold ahciRawRead
  rw [check_true few]
  rfl

theorem ahciRawWrite_ok :
    ahciRawWrite disk lba count buffer = .ok (splice disk (512 * lba) buffer (512 * count)) := by
  unfold ahciRawWrite
  rw [check_true few]
  rfl

end

theorem copy_ok (room : pos + n ≤ dstSize) (there : from' + n ≤ srcSize) (dst src : Bytes) :
    copy dst dstSize pos src srcSize from' n = .ok (splice dst pos (skip src from') n) :=
  if_neg (by omega)

theorem copy_overrun (beyond : dstSize < pos + n ∨ srcSize < from' + n) (dst src : Bytes) :
    copy dst dstSize pos src srcSize from' n = .error .overrun :=
  if_pos beyond

theorem splice_congr (same : ∀ i < n, src i = other i) (dst : Bytes) (pos : Nat) :
    splice dst pos src n = splice dst pos other n := by
  funext i
  by_cases inside : pos ≤ i ∧ i < pos + n
  · rw [splice_inside inside.1 inside.2, splice_inside inside.1 inside.2]
    exact same (i - pos) (by omega)
  · rw [splice_outside (by omega), splice_outside (by omega)]

theorem splice_skip_congr (same : ∀ i < n, src (from' + i) = other (from' + i)) (dst : Bytes)
    (pos : Nat) : splice dst pos (skip src from') n = splice dst pos (skip other from') n :=
  splice_congr same dst pos

theorem copy_congr (same : n ≤ dstSize → ∀ i < n, src (from' + i) = other (from' + i))
    (dst : Bytes) :
    copy dst dstSize pos src srcSize from' n = copy dst dstSize pos other srcSize from' n := by
  by_cases beyond : dstSize < pos + n ∨ srcSize < from' + n
  · rw [copy_overrun beyond, copy_overrun beyond]
  · unfold copy
    rw [splice_skip_congr (same (by omega)) dst pos]

/-- The sectors that a transfer of `sectors` sectors touches behind its first one: every full
transfer starts only one sector after the one before it. -/
def reach (sectors : Nat) : Nat := if sectors < numPrdt then sectors else sectors / 8 + 7

theorem reach_full (full : numPrdt ≤ sectors) :
    numPrdt ≤ reach sectors ∧ reach (sectors - numPrdt) + 1 ≤ reach sectors := by
  unfold reach numPrdt at *
  split <;> split <;> omega

/-- A write leaves what lies behind the sectors that it touches. -/
theorem writeSectors_frame (returned : writeSectors data size tmp sectors w = .ok disk)
    (behind : 512 * (w.lba + reach sectors) ≤ a) : disk a = w.disk a := by
  induction sectors using Nat.strong_induction_on generalizing w with
  | _ sectors ih =>
    have raw : ∀ {count buffer result}, count ≤ reach sectors →
        ahciRawWrite w.disk w.lba count buffer = .ok result → result a = w.disk a := by
      intro count buffer result few written
      obtain ⟨_, same⟩ := of_check_then written
      cases same
      exact splice_outside (by omega)
    have out : ∀ {count result}, count ≤ reach sectors →
        writeOut data size w count = .ok result → result a = w.disk a := by
      intro count result few written
      unfold writeOut at written
      split at written
      · cases written
      · exact raw few written
    rw [writeSectors] at returned
    split at returned
    · next full =>
      obtain ⟨batch, next⟩ := reach_full full
      obtain ⟨after, written, rest⟩ := of_ok_then returned
      rw [ih _ (by unfold numPrdt at *; omega) rest (by dsimp only; omega)]
      exact out batch written
    · next few =>
      have rest : sectors ≤ reach sectors := by
        unfold reach
        rw [if_pos (by omega)]
      split at returned
      · exact out rest returned
      · split at returned
        · obtain ⟨_, _, after⟩ := of_ok_then returned
          obtain ⟨_, _, written⟩ := of_ok_then after
          exact raw rest written
        · cases returned
          rfl

/-- A write takes as many bytes of the caller's buffer as it has sectors for. -/
theorem writeSectors_congr (same : ∀ i < Writing.pos w + 512 * sectors, data i = other i) :
    writeSectors data size tmp sectors w = writeSectors other size tmp sectors w := by
  induction sectors using Nat.strong_induction_on generalizing w with
  | _ sectors ih =>
    have out : ∀ count ≤ sectors, writeOut data size w count = writeOut other size w count := by
      intro count few
      unfold writeOut ahciRawWrite
      have agree : ∀ i < 512 * count, data (w.pos + i) = other (w.pos + i) :=
        fun i inside => same _ (by omega)
      rw [splice_skip_congr agree w.disk]
    rw [writeSectors, writeSectors]
    by_cases full : numPrdt ≤ sectors
    · rw [if_pos full, if_pos full, out numPrdt full]
      refine bind_congr fun disk => ?_
      refine ih _ (by unfold numPrdt at *; omega) fun i below => same i ?_
      dsimp only at below
      unfold numPrdt at *
      omega
    · rw [if_neg full, if_neg full, out sectors (le_refl _)]
      split
      · rfl
      · split
        · refine bind_congr fun sector => ?_
          rw [copy_congr (fun fits i inside => same _ (by omega)) sector]
        · rfl

/-! ## One transfer -/

theorem sectorCount_eq (small : len ≤ 2 ^ 40) : sectorCount len = (len + 511) / 512 := by
  unfold sectorCount
  dsimp only
  split <;> omega

theorem sectorCount_lt (len : Nat) : sectorCount len < 2 ^ 32 := by
  unfold sectorCount
  dsimp only
  split <;> omega

theorem reach_lt (small : sectors < 2 ^ 32) : reach sectors < 2 ^ 32 := by
  unfold reach numPrdt
  split <;> omega

/-- More than one full transfer does not reach the last sector of the range. -/
theorem reach_sectorCount (long : 8 * 512 < len) : 512 * reach (sectorCount len) ≤ len - 1 := by
  unfold reach numPrdt sectorCount
  dsimp only
  split <;> split <;> omega

theorem readSectors_none : readSectors disk size 0 r = .ok r.buffer := by
  rw [readSectors]
  rfl

theorem readSectors_rest (some : 0 < sectors) (few : sectors < numPrdt)
    (covered : r.offset + r.len ≤ 512 * sectors) (room : r.pos + r.len ≤ size) :
    readSectors disk size sectors r =
      .ok (splice r.buffer r.pos (skip disk (512 * r.lba + r.offset)) r.len) := by
  unfold numPrdt at few
  rw [readSectors, if_neg (by unfold numPrdt; omega), if_pos some,
    ahciRawRead_ok (by unfold numPrdt; omega), ok_then, Nat.mod_eq_of_lt (by omega),
    copy_ok room (by unfold numPrdt; omega)]
  refine congrArg ok (splice_congr (fun i inside => ?_) ..)
  rw [skip_apply, skip_apply, splice_inside (by omega) (by omega), skip_apply, add_assoc]
  rfl

theorem readSectors_full (aligned : r.offset = 0) (room : r.pos + 8 * 512 ≤ size) :
    readSectors disk size 8 r = .ok (splice r.buffer r.pos (skip disk (512 * r.lba)) (8 * 512)) := by
  rw [readSectors, if_pos (by decide), ahciRawRead_ok (le_refl _), ok_then,
    copy_ok (show r.pos + 512 * numPrdt ≤ size from room) (by rw [aligned]; decide), ok_then,
    show 8 - numPrdt = 0 from rfl, readSectors_none]
  refine congrArg ok (splice_congr (fun i inside => ?_) ..)
  rw [aligned, skip_apply, splice_inside (by omega) (by unfold numPrdt at *; omega)]
  exact congrArg (skip disk _) (by omega)

theorem reads_exactly (readable : Readable offset len) : ReadsExactly offset len := by
  intro disk buffer tmp
  unfold ahciRead
  by_cases none : len = 0
  · subst none
    rw [show sectorCount 0 = 0 from rfl, readSectors_none]
    exact congrArg (fun b => ok (0, b)) splice_empty.symm
  · obtain ⟨near, covered, short⟩ := readable.resolve_left none
    have place : 512 * (offset / 512 % 2 ^ 32) + offset % 512 = offset := by omega
    rw [sectorCount_eq (by omega), toInt_of_lt (by omega)]
    rcases short with short | rfl
    · rw [readSectors_rest (by omega) (by unfold numPrdt; omega) covered (by dsimp only; omega)]
      rw [place]
      rfl
    · rw [show (8 * 512 + 511) / 512 = 8 from rfl,
        readSectors_full (by dsimp only; omega) (by dsimp only; omega)]
      rw [show 512 * (offset / 512 % 2 ^ 32) = offset by omega]
      rfl

/-- Two disks that differ in one byte. -/
def marked (a : Nat) : Bytes := fun i => if i = a then 1 else 0

theorem marked_apart (apart : i ≠ a) : marked a i = zeros i := if_neg apart

/-- Bytes put into sectors that were read before: the rest is written as it was. -/
theorem splice_modified (inside : o + m ≤ n) (disk tmp src : Bytes) (a : Nat) :
    splice disk a (splice (splice tmp 0 (skip disk a) n) o src m) n = splice disk (a + o) src m := by
  funext i
  by_cases sector : a ≤ i ∧ i < a + n
  · rw [splice_inside sector.1 sector.2]
    by_cases range : a + o ≤ i ∧ i < a + o + m
    · rw [splice_inside (by omega) (by omega), splice_inside range.1 range.2, Nat.sub_add_eq]
    · rw [splice_outside (by omega), splice_inside (by omega) (by omega),
        splice_outside (by omega), skip_apply]
      exact congrArg disk (by omega)
  · rw [splice_outside (by omega), splice_outside (by omega)]

theorem writeSectors_none : writeSectors data size tmp 0 w = .ok w.disk := by
  rw [writeSectors]
  rfl

theorem writeOut_ok (room : w.pos + 512 * count ≤ size) (few : count ≤ numPrdt) :
    writeOut data size w count =
      .ok (splice w.disk (512 * w.lba) (skip data w.pos) (512 * count)) :=
  (if_neg (by omega)).trans (ahciRawWrite_ok few ..)

theorem writeSectors_rest (few : sectors < numPrdt) (some : 0 < w.len)
    (count : sectors = (w.len + 511) / 512) (room : w.pos + w.len ≤ size) :
    writeSectors data size tmp sectors w =
      .ok (splice w.disk (512 * w.lba) (skip data w.pos) w.len) := by
  unfold numPrdt at few
  rw [writeSectors, if_neg (by unfold numPrdt; omega)]
  by_cases whole : w.len % 512 = 0
  · have length : 512 * sectors = w.len := by omega
    rw [if_pos ⟨by omega, whole⟩, writeOut_ok (by omega) (by unfold numPrdt; omega), length]
  · rw [if_neg fun wrong => whole wrong.2, if_pos ⟨by omega, some⟩,
      ahciRawRead_ok (by unfold numPrdt; omega), ok_then, Nat.mod_eq_of_lt (by omega),
      copy_ok (by omega) (by omega), ok_then, ahciRawWrite_ok (by unfold numPrdt; omega)]
    rw [splice_modified (by omega), add_zero]

theorem writeSectors_full (room : w.pos + 8 * 512 ≤ size) :
    writeSectors data size tmp 8 w =
      .ok (splice w.disk (512 * w.lba) (skip data w.pos) (8 * 512)) := by
  rw [writeSectors, if_pos (by decide),
    writeOut_ok (show w.pos + 512 * numPrdt ≤ size from room) (le_refl _), ok_then,
    show 8 - numPrdt = 0 from rfl, writeSectors_none]
  rfl

theorem writeSectors_overrun (full : numPrdt ≤ sectors) (beyond : size < w.pos + 8 * 512) :
    writeSectors data size tmp sectors w = .error .overrun := by
  rw [writeSectors, if_pos full, writeOut, if_pos (by unfold numPrdt; omega)]
  rfl

/-! ## Whole writes -/

theorem ahciWrite_aligned (aligned : offset % 512 = 0) (disk data : Bytes) (len : Nat)
    (tmp : Bytes) :
    ahciWrite disk data offset len tmp =
      (writeSectors data len tmp (sectorCount len)
        { lba := offset / 512 % 2 ^ 32, pos := 0, len, disk } >>= fun disk =>
          .ok (toInt len, disk)) := by
  unfold ahciWrite
  rw [if_neg (by omega)]
  rfl

theorem ahciWrite_unaligned (inside : 0 < offset % 512) (disk data : Bytes) (len : Nat)
    (tmp : Bytes) :
    ahciWrite disk data offset len tmp =
      (writeSectors data len tmp (sub32 (sectorCount len) 1)
        { lba := (offset / 512 % 2 ^ 32 + 1) % 2 ^ 32
          pos := 0
          len := len - min (512 - offset % 512) len
          disk := splice disk (512 * (offset / 512 % 2 ^ 32) + offset % 512) (skip data 0)
            (min (512 - offset % 512) len) } >>= fun disk => .ok (toInt len, disk)) := by
  unfold ahciWrite
  dsimp only
  rw [if_pos inside, ahciRawRead_ok (by decide), ok_then, copy_ok (by omega) (by omega), ok_then,
    ahciRawWrite_ok (by decide), ok_then, splice_modified (by omega)]
  rfl

theorem skip_zero (data : Bytes) : skip data 0 = data :=
  funext fun i => congrArg data (zero_add i)

theorem writes_exactly (writable : Writable offset len) : WritesExactly offset len := by
  intro disk data tmp
  unfold Writable at writable
  by_cases none : len = 0
  · subst none
    rw [ahciWrite_aligned writable, show sectorCount 0 = 0 from rfl, writeSectors_none,
      splice_empty]
    rfl
  · rw [if_neg none] at writable
    obtain ⟨near, range⟩ := writable
    have count : len ≤ 8 * 512 → sectorCount len = (len + 511) / 512 :=
      fun _ => sectorCount_eq (by omega)
    by_cases aligned : offset % 512 = 0
    · have place : 512 * (offset / 512 % 2 ^ 32) = offset := by omega
      rw [ahciWrite_aligned aligned, count (by omega), toInt_of_lt (by omega)]
      rcases (by omega : len ≤ 7 * 512 ∨ len = 8 * 512) with short | rfl
      · rw [writeSectors_rest (by unfold numPrdt; omega) (by dsimp only; omega) (by dsimp only)
          (by dsimp only; omega)]
        rw [place, skip_zero]
        rfl
      · rw [show (8 * 512 + 511) / 512 = 8 from rfl, writeSectors_full (by dsimp only; omega)]
        rw [place, skip_zero]
        rfl
    · have place : 512 * (offset / 512 % 2 ^ 32) + offset % 512 = offset := by omega
      rw [ahciWrite_unaligned (by omega), count (by omega), toInt_of_lt (by omega),
        show (len + 511) / 512 = 1 by omega, show sub32 1 1 = 0 from rfl, writeSectors_none, place,
        skip_zero, min_eq_right (by omega)]
      rfl

/-- A write that leaves the last byte of its range. -/
theorem not_writesExactly_of_kept (some : 0 < len)
    (kept : ∀ rc disk, ahciWrite zeros (fun _ => 1) offset len zeros = .ok (rc, disk) →
      disk (offset + len - 1) = 0) : ¬WritesExactly offset len := by
  intro exact_
  have last := kept _ _ (exact_ zeros (fun _ => 1) zeros)
  rw [splice_inside (by omega) (by omega)] at last
  cases last

/-- A write that does not take the last byte of the caller's buffer. -/
theorem not_writesExactly_of_unused (some : 0 < len)
    (unused : ahciWrite zeros (marked (len - 1)) offset len zeros =
      ahciWrite zeros zeros offset len zeros) : ¬WritesExactly offset len := by
  intro exact_
  rw [exact_, exact_] at unused
  have last := congrArg (fun r => r.toOption.map fun r => r.2 (offset + (len - 1))) unused
  simp only [Except.toOption, Option.map_some, Option.some_inj] at last
  rw [splice_inside (by omega) (by omega), splice_inside (by omega) (by omega),
    Nat.add_sub_cancel_left, marked, if_pos rfl] at last
  cases last

/-- A write that starts inside a sector and goes beyond it takes the bytes for the next sectors
from the start of the caller's buffer again. -/
theorem not_writesExactly_beyond (inside : 0 < offset % 512) (beyond : 512 < offset % 512 + len) :
    ¬WritesExactly offset len := by
  have bound : 512 * sub32 (sectorCount len) 1 ≤ len - 1 := by
    unfold sub32 wrap32 sectorCount
    dsimp only
    split <;> omega
  refine not_writesExactly_of_unused (by omega) ?_
  rw [ahciWrite_unaligned inside, ahciWrite_unaligned inside,
    splice_skip_congr (fun i below => marked_apart (by omega)) zeros,
    writeSectors_congr fun i below => marked_apart (by dsimp only at below; omega)]

theorem writes_exactly_iff (offset len : Nat) :
    WritesExactly offset len ↔ Writable offset len := by
  refine ⟨fun exact_ => ?_, writes_exactly⟩
  unfold Writable
  by_cases aligned : offset % 512 = 0
  · by_cases none : len = 0
    · rw [if_pos none]
      exact aligned
    · rw [if_neg none]
      have reached :
          offset + len - 1 < 512 * (offset / 512 % 2 ^ 32 + reach (sectorCount len)) := by
        by_contra short
        refine not_writesExactly_of_kept (by omega) (fun rc disk returned => ?_) exact_
        rw [ahciWrite_aligned aligned] at returned
        obtain ⟨after, written, rest⟩ := of_ok_then returned
        cases rest
        exact writeSectors_frame written (by dsimp only; omega)
      have bounded := reach_lt (sectorCount_lt len)
      have limit : len ≤ 8 * 512 := by
        by_contra long
        have := reach_sectorCount (by omega : 8 * 512 < len)
        omega
      have count : sectorCount len = (len + 511) / 512 := sectorCount_eq (by omega)
      refine ⟨by omega, .inr ⟨aligned, ?_⟩⟩
      by_contra other
      have stopped := exact_ zeros zeros zeros
      rw [ahciWrite_aligned aligned, writeSectors_overrun
        (by rw [count]; unfold numPrdt; omega) (by omega)] at stopped
      cases stopped
  · by_cases none : len = 0
    · -- the count of sectors falls below 0
      have stopped := exact_ zeros zeros zeros
      rw [ahciWrite_unaligned (by omega), none, show sectorCount 0 = 0 from rfl,
        writeSectors_overrun (by decide) (by dsimp only; omega)] at stopped
      cases stopped
    · rw [if_neg none]
      have one : offset % 512 + len ≤ 512 := by
        by_contra beyond
        exact not_writesExactly_beyond (by omega) (by omega) exact_
      refine ⟨?_, .inl one⟩
      by_contra far
      refine not_writesExactly_of_kept (by omega) (fun rc disk returned => ?_) exact_
      rw [ahciWrite_unaligned (by omega), sectorCount_eq (by omega),
        show (len + 511) / 512 = 1 by omega, show sub32 1 1 = 0 from rfl,
        writeSectors_none] at returned
      cases returned
      exact splice_outside (by omega)

theorem Writable.readable (writable : Writable offset len) : Readable offset len := by
  unfold Writable at writable
  by_cases none : len = 0
  · exact .inl none
  · rw [if_neg none] at writable
    obtain ⟨near, range⟩ := writable
    exact .inr ⟨near, by omega, by omega⟩

/-- The disk file is an array of bytes for exactly the ranges that a write handles. -/
theorem disk_file_exact_iff (offset len : UInt64) :
    ReadsExactly offset.toNat len.toNat ∧ WritesExactly offset.toNat len.toNat ∧
        ReturnsWritten offset.toNat len.toNat ↔ Writable offset.toNat len.toNat := by
  constructor
  · rintro ⟨_, writes, _⟩
    exact (writes_exactly_iff _ _).mp writes
  · intro writable
    have reads := reads_exactly writable.readable
    refine ⟨reads, writes_exactly writable, fun disk data buffer tmp tmp' => ?_⟩
    refine ⟨_, writes_exactly writable disk data tmp, (reads _ _ _).trans ?_⟩
    refine congrArg (fun result => ok (_, result)) (splice_congr (fun i inside => ?_) ..)
    rw [skip_apply, splice_inside (by omega) (by omega), Nat.add_sub_cancel_left]

/-- A transfer of 512 bytes from the middle of a sector. -/
theorem unaligned_transfer_inexact : ¬ReadsExactly 256 512 ∧ ¬WritesExactly 256 512 := by
  refine ⟨fun exact_ => ?_, not_writesExactly_beyond (by decide) (by decide)⟩
  -- the last byte of the range is in the sector that is not read
  have lost : (ahciRead (marked 767) zeros 256 512 zeros).toOption.map (·.2 511) = some 0 := by
    decide +kernel
  rw [exact_] at lost
  exact absurd lost (by decide)

end SbOS.Drivers
