import SbOS.Ext2.BlockCacheProofs

/-! What the block cache is for: behaving like an array of blocks. The array is
the abstract machine; runs of `ext2_read_block`, `ext2_write_block` and
`ext2_flush_writes` refine it, whatever the timer returns. -/
namespace SbOS.Ext2
open Bytes Function Program

/-- `block_byte_size` as `parse_superblock` computes it from a shift that stays
inside 32 bits. -/
def BlockByteSize (bs : Nat) : Prop := ∃ k ≤ 21, bs = 1024 <<< k

section
variable (size : BlockByteSize bs)
include size

theorem BlockByteSize.le : 1024 ≤ bs := by
  obtain ⟨k, _, rfl⟩ := size
  rw [Nat.shiftLeft_eq]
  exact Nat.le_mul_of_pos_right 1024 (Nat.two_pow_pos k)

theorem BlockByteSize.lt : bs < 2 ^ 32 := by
  obtain ⟨k, bound, rfl⟩ := size
  rw [Nat.shiftLeft_eq]
  calc 1024 * 2 ^ k ≤ 1024 * 2 ^ 21 := by gcongr; omega
    _ < 2 ^ 32 := by decide

/-- Blocks never straddle the end of the 32-bit address range. -/
theorem BlockByteSize.addressable (fits : b * bs < 2 ^ 32) : Addressable bs b := by
  obtain ⟨k, bound, rfl⟩ := size
  rw [Nat.shiftLeft_eq] at fits ⊢
  have whole : 2 ^ 32 = 2 ^ (22 - k) * (1024 * 2 ^ k) := by
    rw [show 1024 = 2 ^ 10 from rfl, ← pow_add, ← pow_add]
    congr 1
    omega
  unfold Addressable
  rw [whole] at fits ⊢
  have less : b < 2 ^ (22 - k) := Nat.lt_of_mul_lt_mul_right fits
  calc b * (1024 * 2 ^ k) + 1024 * 2 ^ k = (b + 1) * (1024 * 2 ^ k) := by ring
    _ ≤ 2 ^ (22 - k) * (1024 * 2 ^ k) := Nat.mul_le_mul_right _ less

end

/-! ### The abstract machine -/

/-- A call of one of the three entry points. -/
inductive CacheCall where
  | read (block size offset : Nat)
  | write (block : Nat) (address : Bytes) (size offset : Nat)
  | flush

/-- The driver code of a call; only reads have something to return. -/
def CacheCall.code : CacheCall → Driver Bytes
  | .read block size offset => ext2ReadBlock block size offset
  | .write block address size offset => do
    ext2WriteBlock block address size offset
    return zeros
  | .flush => do
    ext2FlushWrites
    return zeros

/-- The same call on a plain array of blocks. -/
def arrayStep : CacheCall → (Nat → Bytes) → Bytes × (Nat → Bytes)
  | .read block size offset, blocks => (slice (blocks block) offset size, blocks)
  | .write block address size offset, blocks =>
    (zeros, Function.update blocks block (splice (blocks block) offset address size))
  | .flush, blocks => (zeros, blocks)

/-- The blocks that the superblock write at the end of a flush leaves alone:
all of them as long as no such write is due, else all but block 0. -/
def World.covered (w : World) (b : Nat) : Prop :=
  w.globals.superblockChanged = false ∨ b ≠ 0

/-- A call on a covered block whose byte address fits in 32 bits, with any
range inside the block. -/
def CacheCall.Inside (bs : Nat) (covered : Nat → Prop) : CacheCall → Prop
  | .read block size offset | .write block _ size offset =>
    block * bs < 2 ^ 32 ∧ offset + size ≤ bs ∧ covered block
  | .flush => True

/-- The cache holds the array, on the covered blocks. -/
structure Holds (bs : Nat) (covered : Nat → Prop) (w : World) (blocks : Nat → Bytes) : Prop where
  size : w.globals.blockByteSize = bs
  untouched : w.globals.superblockChanged = true → ∀ b, covered b → b ≠ 0
  coherent : Coherent bs covered w.disk
  same : ∀ b, covered b → w.disk.contents bs b = blocks b

section Refinement
variable {bs : Nat} {covered : Nat → Prop} {w : World} {blocks : Nat → Bytes}

theorem run_flush (w : World) : w.run ext2FlushWrites = .ok ((), w.flushWrites) := rfl

theorem flush_holds (size : BlockByteSize bs) (holds : Holds bs covered w blocks) :
    ∃ w', w.run ext2FlushWrites = .ok ((), w') ∧ Holds bs covered w' blocks ∧
      ∀ b, covered b → ∀ o < bs, w'.disk.device (b * bs + o) = w'.disk.contents bs b o := by
  have positive : 0 < bs := by have := size.le; omega
  obtain ⟨coherent, same⟩ := flushCache_spec positive holds.coherent
  have written := fun b o bound => flushCache_device (o := o) positive holds.coherent b bound
  have sized := holds.size
  subst sized
  refine ⟨_, run_flush w, ?_⟩
  unfold World.flushWrites
  by_cases changed : w.globals.superblockChanged = true
  · -- the superblock write is due: it stays below every covered block
    have uncovered := holds.untouched changed
    rw [if_pos changed]
    obtain ⟨coherent', same'⟩ := pwrite_start_spec 0 (2 * sectorSize)
      uncovered (by have := size.le; simp only [sectorSize]; omega) coherent w.globals.superblock
    refine ⟨⟨rfl, (fun flag => by cases flag), coherent', fun b cover => ?_⟩, ?_⟩
    · rw [same' b (uncovered b cover), same, holds.same b cover]
    · intro b cover o bound
      have nonzero := uncovered b cover
      rw [same' b nonzero, same, ← written b o bound]
      have : w.globals.blockByteSize ≤ b * w.globals.blockByteSize :=
        Nat.le_mul_of_pos_left _ (Nat.pos_of_ne_zero nonzero)
      have := size.le
      exact splice_outside (by simp only [sectorSize]; omega)
  · rw [if_neg changed]
    refine ⟨⟨rfl, fun flag => absurd flag changed, coherent, fun b cover => ?_⟩, ?_⟩
    · rw [same, holds.same b cover]
    · intro b _ o bound
      rw [same]
      exact written b o bound

/-- One call refines one step of the array. -/
theorem call_refines (size : BlockByteSize bs) (call : CacheCall)
    (holds : Holds bs covered w blocks) (inside : call.Inside bs covered) :
    ∃ w', w.run call.code = .ok ((arrayStep call blocks).1, w') ∧
      Holds bs covered w' (arrayStep call blocks).2 := by
  have positive : 0 < bs := by have := size.le; omega
  have sized := holds.size
  subst sized
  cases call with
  | read block len offset =>
    obtain ⟨fits, room, cover⟩ := inside
    obtain ⟨d', ran, coherent, same⟩ := cachedReadBlock_spec positive size.lt holds.coherent
      (size.addressable fits) room cover 0
    refine ⟨{ w with disk := d' }, ?_, ⟨rfl, holds.untouched, coherent, ?_⟩⟩
    · simp only [CacheCall.code, ext2ReadBlock, World.run, execute, World.handle, readDepth,
        ran, arrayStep]
      rw [holds.same block cover]
    · intro b cover'
      change d'.contents _ b = blocks b
      rw [same, holds.same b cover']
  | write block address len offset =>
    obtain ⟨fits, room, cover⟩ := inside
    obtain ⟨d', ran, coherent, others, own⟩ := writeBlock_spec size.lt holds.coherent
      (size.addressable fits) room address
    refine ⟨{ w with disk := d' }, ?_, ⟨rfl, holds.untouched, coherent, ?_⟩⟩
    · simp [World.run, CacheCall.code, ext2WriteBlock, execute_bind, execute,
        World.handle, ran, arrayStep]
    · intro b cover'
      simp only [arrayStep]
      by_cases names : b = block
      · subst names
        rw [update_self, own cover, holds.same b cover]
      · rw [update_of_ne names, others b names, holds.same b cover']
  | flush =>
    obtain ⟨w', ran, after, _⟩ := flush_holds size holds
    refine ⟨w', ?_, after⟩
    simp only [CacheCall.code, World.run] at ran ⊢
    rw [execute_bind_ok ran]
    rfl

end Refinement

/-- The replies and the final array of a run on the array. -/
abbrev arrayRun (calls : List CacheCall) (blocks : Nat → Bytes) : List Bytes × (Nat → Bytes) :=
  Program.stepAll arrayStep calls blocks

/-- The cache as `ext2_mount` leaves it, every slot unused, is coherent. -/
theorem unused_coherent (bs : Nat) (covered : Nat → Prop) (d : Disk) (nonempty : d.cache ≠ [])
    (unused : ∀ c ∈ d.cache, c.isUsed = false) : Coherent bs covered d := by
  refine ⟨nonempty, ?_, ?_, ?_⟩
  · intro c member used
    simp [unused c member] at used
  · intro i j c c' held _ used
    simp [unused c (List.mem_of_getElem? held)] at used
  · intro c member used
    simp [unused c member] at used

/-- **The block cache refines a plain array of blocks.** For every run of reads,
writes and flushes, each read returns the array's bytes and the logical
contents stay the array's; the cache stays coherent (no two used slots hold one
block, a clean slot equals its device block); and a flush at the end of any run
brings the array to the device. -/
theorem block_cache_refines_block_array (w : World) (calls : List CacheCall)
    (size : BlockByteSize w.globals.blockByteSize)
    (coherent : Coherent w.globals.blockByteSize w.covered w.disk)
    (inside : ∀ call ∈ calls, call.Inside w.globals.blockByteSize w.covered) :
    let bs := w.globals.blockByteSize
    let array := arrayRun calls (w.disk.contents bs)
    ∃ w', w.run (Program.forEach CacheCall.code calls) = .ok (array.1, w') ∧
      (∀ b, w.covered b → w'.disk.contents bs b = array.2 b) ∧
      Coherent bs w.covered w'.disk ∧
      ∃ w'', w'.run ext2FlushWrites = .ok ((), w'') ∧
        ∀ b, w.covered b → ∀ o < bs, w''.disk.device (b * bs + o) = array.2 b o := by
  intro bs array
  have start : Holds bs w.covered w (w.disk.contents bs) :=
    ⟨rfl, fun changed b cover => by simpa [World.covered, changed] using cover, coherent,
      fun _ _ => rfl⟩
  have allowed : ValidAll arrayStep (fun call _ => call.Inside bs w.covered) calls
      (w.disk.contents bs) := .of_forall (fun call member _ => inside call member) _
  obtain ⟨w', ran, holds⟩ := forEach_refines_run
    (fun call _ _ => call_refines size call) start (allowed.run _)
  obtain ⟨w'', flushed, after, written⟩ := flush_holds size holds
  refine ⟨w', ran, holds.same, holds.coherent, w'', flushed, ?_⟩
  intro b cover o bound
  rw [written b cover o bound, after.same b cover]

/-- A driver with an empty cache of `num_block_cache` slots. -/
def emptyCacheWorld (bs : Nat) (device : Bytes) : World where
  globals :=
    { superblock := zeros, blockByteSize := bs, inodeSize := 128, superblockChanged := false,
      lastInodeRead := minusOne, lastInode := zeros, filesHead := [],
      milliseconds := fun _ => 0, garbage := fun _ _ => 0 }
  disk := { cache := List.replicate 4 Slot.unused, device, uptime := fun _ => 0 }

theorem block_cache_refines_block_array_run :
    let w := emptyCacheWorld 1024 zeros
    let calls : List CacheCall := [.read 7 16 0, .write 7 (fun _ => 1) 4 2, .write 9 (fun _ => 2) 4 0,
      .read 8 1 0, .read 9 8 0, .read 10 1 0, .read 11 1 0, .flush, .read 7 8 0]
    ∃ w', w.run (Program.forEach CacheCall.code calls) =
      .ok ((arrayRun calls (w.disk.contents 1024)).1, w') := by
  intro w calls
  obtain ⟨w', ran, _⟩ := block_cache_refines_block_array w calls ⟨0, by decide, by decide⟩
    (unused_coherent _ _ _ (by decide) (by simp [w, emptyCacheWorld, Slot.unused]))
    (by simp [calls, CacheCall.Inside, World.covered, w, emptyCacheWorld])
  exact ⟨w', ran⟩

end SbOS.Ext2
