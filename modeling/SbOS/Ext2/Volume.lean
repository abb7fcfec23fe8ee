import SbOS.Ext2.BlockArray

/-! The driver over a plain array of blocks. `Volume` answers the same requests
as the real cache and device, so that file-level proofs never meet a cache
slot; `World.run_of_volume` transfers what they show.

Block 0 is left out of the array: `ext2_flush_writes` and `get_free_inode` put
the superblock there behind the cache's back. What driver code gets from block
0 is not specified, and neither is access through an address that does not fit
in 32 bits. -/
namespace SbOS.Ext2
open Bytes Function Program World

/-- A block of the array. -/
def Visible (bs b : Nat) : Prop := b ≠ 0 ∧ Addressable bs b

instance : Decidable (Visible bs b) := inferInstanceAs (Decidable (_ ∧ _))

structure Volume where
  globals : Globals
  blocks : Nat → Bytes

namespace Volume

/-- `block_byte_size`. -/
abbrev bs (v : Volume) : Nat := v.globals.blockByteSize

/-- Replace the contents of one block. -/
def put (v : Volume) (b : Nat) (bytes : Bytes) : Volume :=
  { v with blocks := Function.update v.blocks b bytes }

/-- The requests on a plain array; `.error none` where nothing is specified. -/
def handle : Program.Handler Call Reply Volume (Option Stop)
  | .stop reason, _ => .error (some reason)
  | .readBlock block size offset, v =>
    if v.bs < u32 (offset + size) then .error (some .assertion)
    else if Visible v.bs block ∧ offset + size ≤ v.bs then
      .ok (slice (v.blocks block) offset size, v)
    else .error none
  | .writeBlock block address size offset, v =>
    if v.bs < u32 (offset + size) then .error (some .assertion)
    else if Visible v.bs block ∧ offset + size ≤ v.bs then
      .ok ((), v.put block (splice (v.blocks block) offset address size))
    else .error none
  | .flushWrites, v => .ok ((), { v with globals := { v.globals with superblockChanged := false } })
  | .rawPwrite _ count offset, v =>
    -- the superblock is only ever written at the start of the device, once it has changed
    if v.globals.superblockChanged = true ∧ offset = 0 ∧ count = 2 * sectorSize then .ok ((), v)
    else .error none
  | .getGlobals, v => .ok (v.globals, v)
  | .setGlobals globals, v =>
    if globals.blockByteSize = v.bs ∧
        (v.globals.superblockChanged = true → globals.superblockChanged = true) then
      .ok ((), { v with globals })
    else .error none

theorem handle_setGlobals {globals : Globals} {v : Volume}
    (same : globals.blockByteSize = v.bs ∧
      (v.globals.superblockChanged = true → globals.superblockChanged = true)) :
    handle (.setGlobals globals) v = .ok ((), { v with globals }) := if_pos same

theorem handle_setGlobals_other {globals : Globals} {v : Volume}
    (other : ¬ (globals.blockByteSize = v.bs ∧
      (v.globals.superblockChanged = true → globals.superblockChanged = true))) :
    handle (.setGlobals globals) v = .error none := if_neg other

theorem handle_rawPwrite
    (due : v.globals.superblockChanged = true ∧ offset = 0 ∧ count = 2 * sectorSize) :
    handle (.rawPwrite buf count offset) v = .ok ((), v) := if_pos due

theorem handle_rawPwrite_other
    (other : ¬ (v.globals.superblockChanged = true ∧ offset = 0 ∧ count = 2 * sectorSize)) :
    handle (.rawPwrite buf count offset) v = .error none := if_neg other

/-- A range that leaves the block fails the assertion of either access. -/
theorem handle_read_assertion (outside : v.bs < u32 (offset + size)) :
    handle (.readBlock block size offset) v = .error (some .assertion) := if_pos outside

theorem handle_write_assertion (outside : v.bs < u32 (offset + size)) :
    handle (.writeBlock block address size offset) v = .error (some .assertion) := if_pos outside

section
variable {v : Volume} (inside : ¬ v.bs < u32 (offset + size))
include inside

theorem handle_read (visible : Visible v.bs block ∧ offset + size ≤ v.bs) :
    handle (.readBlock block size offset) v = .ok (slice (v.blocks block) offset size, v) :=
  (if_neg inside).trans (if_pos visible)

theorem handle_read_none (hidden : ¬ (Visible v.bs block ∧ offset + size ≤ v.bs)) :
    handle (.readBlock block size offset) v = .error none := (if_neg inside).trans (if_neg hidden)

theorem handle_write (visible : Visible v.bs block ∧ offset + size ≤ v.bs) :
    handle (.writeBlock block address size offset) v =
      .ok ((), v.put block (splice (v.blocks block) offset address size)) :=
  (if_neg inside).trans (if_pos visible)

theorem handle_write_none (hidden : ¬ (Visible v.bs block ∧ offset + size ≤ v.bs)) :
    handle (.writeBlock block address size offset) v = .error none :=
  (if_neg inside).trans (if_neg hidden)

end

/-- Run driver code on the plain array. -/
def run (code : Driver α) (v : Volume) : Except (Option Stop) (α × Volume) :=
  Program.execute handle code v

/-! ### Running code -/

section Run
variable {v v' : Volume} {α β : Type} {next : β → Driver α}

@[simp] theorem run_pure (value : α) : v.run (pure value) = .ok (value, v) := rfl

theorem run_bind (ran : v.run code = .ok (value, v')) :
    v.run (code >>= next) = v'.run (next value) := execute_bind_ok ran

@[simp] theorem run_stop (reason : Stop) : v.run (stop reason : Driver α) = .error (some reason) :=
  rfl

@[simp] theorem run_getGlobals (next : Globals → Driver α) :
    v.run (getGlobals >>= next) = v.run (next v.globals) := rfl

section
variable {globals : Globals} (same : globals.blockByteSize = v.bs ∧
  (v.globals.superblockChanged = true → globals.superblockChanged = true))
include same

theorem run_setGlobals_last : v.run (setGlobals globals) = .ok ((), { v with globals }) := by
  simp only [run, setGlobals, execute, handle_setGlobals same]

/-- Assigning variables; a pending superblock write is not forgotten. -/
theorem run_setGlobals {next : Unit → Driver α} :
    v.run (setGlobals globals >>= next) = run (next ()) { v with globals } :=
  run_bind (run_setGlobals_last same)

end

theorem run_assert {condition : Prop} [Decidable condition] {next : Unit → Driver α}
    (holds : condition) : v.run (assert condition >>= next) = v.run (next ()) := by
  simp only [assert, if_pos holds]
  rfl

section
variable (small : v.bs < 2 ^ 32) (visible : Visible v.bs block) (room : offset + size ≤ v.bs)
include small visible room

theorem run_read :
    v.run (ext2ReadBlock block size offset) = .ok (slice (v.blocks block) offset size, v) := by
  simp only [run, ext2ReadBlock, execute, handle_read
    (by rw [u32_of_lt (by omega)]; omega) ⟨visible, room⟩]

theorem run_write :
    v.run (ext2WriteBlock block address size offset) =
      .ok ((), v.put block (splice (v.blocks block) offset address size)) := by
  simp only [run, ext2WriteBlock, execute, handle_write
    (by rw [u32_of_lt (by omega)]; omega) ⟨visible, room⟩]

end

theorem run_rawPwrite (changed : v.globals.superblockChanged = true) :
    v.run (ask (Call.rawPwrite buf (2 * sectorSize) 0)) = .ok ((), v) := by
  rw [run, execute_ask, handle_rawPwrite ⟨changed, rfl, rfl⟩]

/-- `ext2_flush_writes` only takes back the mark of a changed superblock. -/
theorem run_flushWrites : v.run ext2FlushWrites =
    .ok ((), { v with globals := { v.globals with superblockChanged := false } }) := rfl

end Run

@[simp] theorem put_same (v : Volume) : (v.put b bytes).blocks b = bytes := Function.update_self ..

theorem put_other (v : Volume) (other : c ≠ b) : (v.put b bytes).blocks c = v.blocks c :=
  update_of_ne other ..

end Volume

/-- The array that a cache and a device stand for. -/
def World.volume (w : World) : Volume where
  globals := w.globals
  blocks := fun b =>
    if Visible w.globals.blockByteSize b then w.disk.contents w.globals.blockByteSize b else zeros

/-- A world in working order that stands for the array `v`. -/
structure Shows (w : World) (v : Volume) : Prop where
  size : BlockByteSize w.globals.blockByteSize
  coherent : Coherent w.globals.blockByteSize (· ≠ 0) w.disk
  volume : w.volume = v

/-- Two worlds with the same variables and the same visible blocks stand for
the same array. -/
theorem volume_congr {w w' : World} (globals : w'.globals = w.globals)
    (same : ∀ b, Visible w.globals.blockByteSize b →
      w'.disk.contents w.globals.blockByteSize b = w.disk.contents w.globals.blockByteSize b) :
    w'.volume = w.volume := by
  simp only [volume, globals]
  congr 1
  funext b
  split
  · rename_i visible
    exact same b visible
  · rfl

/-- The cache and the device simulate the array, request by request. -/
theorem world_simulates_volume : Simulates Shows handle Volume.handle := by
  intro call w v shows
  obtain ⟨size, coherent, rfl⟩ := shows
  have positive : 0 < w.globals.blockByteSize := by have := size.le; omega
  cases call with
  | stop reason => rfl
  | getGlobals => exact ⟨w, rfl, size, coherent, rfl⟩
  | setGlobals globals =>
    by_cases same : globals.blockByteSize = w.volume.bs ∧
      (w.volume.globals.superblockChanged = true → globals.superblockChanged = true)
    · rw [Volume.handle_setGlobals same]
      have sized : globals.blockByteSize = w.globals.blockByteSize := same.1
      refine ⟨{ w with globals }, rfl, ?_, ?_, ?_⟩
      · simpa only [sized] using size
      · simpa only [sized] using coherent
      · simp only [volume, sized]
    · rw [Volume.handle_setGlobals_other same]
      trivial
  | flushWrites =>
    obtain ⟨coherent', same⟩ := flushCache_spec positive coherent
    refine ⟨_, rfl, ?_⟩
    unfold flushWrites
    by_cases changed : w.globals.superblockChanged = true
    · have room : 0 + 2 * sectorSize ≤ w.globals.blockByteSize := by
        have := size.le
        simp only [sectorSize]
        omega
      obtain ⟨coherent'', same'⟩ := pwrite_start_spec 0 (2 * sectorSize) (fun _ cover => cover)
        room coherent' w.globals.superblock
      rw [if_pos changed]
      refine ⟨size, coherent'', ?_⟩
      simp only [volume]
      congr 1
      funext b
      split
      · rename_i visible
        rw [same' b visible.1, same]
      · rfl
    · have unchanged : w.globals.superblockChanged = false := by simpa using changed
      rw [if_neg changed]
      refine ⟨size, coherent', ?_⟩
      simp only [volume, same]
      rw [← unchanged]
  | rawPwrite buf count offset =>
    by_cases due : w.volume.globals.superblockChanged = true ∧ offset = 0 ∧ count = 2 * sectorSize
    · rw [Volume.handle_rawPwrite due]
      obtain ⟨_, rfl, rfl⟩ := due
      have room : 0 + 2 * sectorSize ≤ w.globals.blockByteSize := by
        have := size.le
        simp only [sectorSize]
        omega
      obtain ⟨coherent', same⟩ := pwrite_start_spec 0 (2 * sectorSize) (fun _ cover => cover)
        room coherent buf
      refine ⟨_, rfl, size, coherent', volume_congr rfl fun b visible => same b visible.1⟩
    · rw [Volume.handle_rawPwrite_other due]
      trivial
  | readBlock block len offset =>
    by_cases outside : w.globals.blockByteSize < u32 (offset + len)
    · rw [Volume.handle_read_assertion (v := w.volume) outside]
      simp only [Matches, handle, readDepth, cachedReadBlock]
      rw [if_neg (by omega)]
    by_cases inside : Visible w.globals.blockByteSize block ∧ offset + len ≤ w.globals.blockByteSize
    · obtain ⟨d', ran, coherent', same⟩ := cachedReadBlock_spec positive size.lt coherent
        inside.1.2 inside.2 inside.1.1 0
      rw [Volume.handle_read (v := w.volume) outside inside]
      refine ⟨{ w with disk := d' }, ?_, size, coherent', volume_congr rfl fun b _ => by rw [same]⟩
      simp only [handle, readDepth, ran, volume, if_pos inside.1]
    · rw [Volume.handle_read_none (v := w.volume) outside inside]
      trivial
  | writeBlock block address len offset =>
    by_cases outside : w.globals.blockByteSize < u32 (offset + len)
    · rw [Volume.handle_write_assertion (v := w.volume) outside]
      simp only [Matches, handle, Disk.writeBlock]
      rw [if_neg (by omega)]
    by_cases inside : Visible w.globals.blockByteSize block ∧ offset + len ≤ w.globals.blockByteSize
    · obtain ⟨d', ran, coherent', others, own⟩ := writeBlock_spec size.lt coherent
        inside.1.2 inside.2 address
      rw [Volume.handle_write (v := w.volume) outside inside]
      refine ⟨{ w with disk := d' }, ?_, size, coherent', ?_⟩
      · simp only [handle, ran]
      · simp only [volume, Volume.put]
        congr 1
        funext b
        by_cases names : b = block
        · subst names
          rw [update_self, if_pos inside.1, if_pos inside.1, own inside.1.1]
        · rw [update_of_ne names]
          simp only [others b names]
    · rw [Volume.handle_write_none (v := w.volume) outside inside]
      trivial

/-- What driver code does on the array it does on the cache and the device. -/
theorem World.run_of_volume (shows : Shows w v)
    (ran : v.run code = .ok (value, v')) :
    ∃ w', w.run code = .ok (value, w') ∧ Shows w' v' :=
  execute_simulates_ok world_simulates_volume shows ran

end SbOS.Ext2
