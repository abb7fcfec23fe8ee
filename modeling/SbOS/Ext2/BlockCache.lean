import SbOS.Ext2.State

/-! The block cache between the driver and the device. These are the functions
of `ext2.c` that touch `cache` and `mount_fd`, and the handler that answers
the driver's requests with them. -/
namespace SbOS.Ext2
open Bytes

/-- `raw_vfs_pread` on the device, into `buf`. -/
def Disk.pread (d : Disk) (buf : Bytes) (count offset : Nat) : Bytes :=
  splice buf 0 (skip d.device offset) count

/-- `raw_vfs_pwrite` on the device. -/
def Disk.pwrite (d : Disk) (buf : Bytes) (count offset : Nat) : Disk :=
  { d with device := splice d.device offset buf count }

/-- `timer_get_uptime()`, stored into a `u32`. -/
def Disk.now (d : Disk) : Nat := u32 (d.uptime 0)

def Disk.tick (d : Disk) : Disk := { d with uptime := fun n => d.uptime (n + 1) }

/-- Outcome of the first loop of `cached_read_block`. -/
inductive Lookup where
  | hit (index : Nat)
  | miss (freeFound : Option Nat)
deriving DecidableEq

/-- The first loop: stop at the slot of `block`, remember the last free slot. -/
def lookup (block : Nat) : List Slot → Nat → Option Nat → Lookup
  | [], _, freeFound => .miss freeFound
  | c :: rest, i, freeFound =>
    if c.isUsed = false then lookup block rest (i + 1) (some i)
    else if c.blockNum = block then .hit i
    else lookup block rest (i + 1) freeFound

/-- The second loop: the slot with the smallest `last_use`. -/
def victim : List Slot → Nat → Nat → Nat → Nat
  | [], _, _, minIndex => minIndex
  | c :: rest, i, minLastUsed, minIndex =>
    if c.lastUse < minLastUsed then victim rest (i + 1) c.lastUse i
    else victim rest (i + 1) minLastUsed minIndex

/-- Write the slot chosen for replacement back to the device if it is dirty. -/
def writeBack (blockByteSize : Nat) (d : Disk) (c : Slot) : Disk :=
  if c.isUsed ∧ c.hasWrite then d.pwrite c.block blockByteSize (u32 (c.blockNum * blockByteSize))
  else d

/-- Load `block` into slot `i`, as the miss path of `cached_read_block` does. -/
def refill (blockByteSize : Nat) (d : Disk) (i block : Nat) : Disk :=
  let c := d.cache.getD i default
  let d := writeBack blockByteSize d c
  let fresh : Slot :=
    { isUsed := true, blockNum := block, lastUse := d.now, hasWrite := false,
      block := d.pread c.block blockByteSize (u32 (block * blockByteSize)) }
  { d.tick with cache := d.cache.set i fresh }

/-- `cached_read_block`, with a bound on the depth of its call of itself; the
bytes copied to `address` are the result. -/
def cachedReadBlock (blockByteSize : Nat) :
    Nat → Disk → (block size offset : Nat) → Except Stop (Bytes × Disk)
  | 0, _, _, _, _ => .error .diverged
  | depth + 1, d, block, size, offset =>
    if u32 (offset + size) ≤ blockByteSize then
      match lookup block d.cache 0 none with
      | .hit i =>
        let c := d.cache.getD i default
        .ok (slice c.block offset size,
          { d.tick with cache := d.cache.set i { c with lastUse := d.now } })
      | .miss freeFound =>
        let i := freeFound.getD (victim d.cache 0 u32Max 0)
        cachedReadBlock blockByteSize depth (refill blockByteSize d i block) block size offset
    else .error .assertion

/-- The loop of `ext2_flush_writes` over the slots. -/
def flushSlots (blockByteSize : Nat) : List Slot → Bytes → List Slot × Bytes
  | [], device => ([], device)
  | c :: rest, device =>
    if c.isUsed ∧ c.hasWrite then
      let device := splice device (u32 (c.blockNum * blockByteSize)) c.block blockByteSize
      let (rest, device) := flushSlots blockByteSize rest device
      ({ c with hasWrite := false } :: rest, device)
    else
      let (rest, device) := flushSlots blockByteSize rest device
      (c :: rest, device)

def Disk.flushCache (blockByteSize : Nat) (d : Disk) : Disk :=
  let (cache, device) := flushSlots blockByteSize d.cache d.device
  { d with cache, device }

/-- The search loop of `ext2_write_block`. -/
def findSlot (block : Nat) : List Slot → Nat → Option Nat
  | [], _ => none
  | c :: rest, i =>
    if c.isUsed = false then findSlot block rest (i + 1)
    else if c.blockNum = block then some i
    else findSlot block rest (i + 1)

/-- The effect of `ext2_write_block` on cache and device. -/
def Disk.writeBlock (blockByteSize : Nat) (d : Disk) (block : Nat) (address : Bytes)
    (size offset : Nat) : Except Stop Disk :=
  if u32 (offset + size) ≤ blockByteSize then
    match findSlot block d.cache 0 with
    | some i =>
      let c := d.cache.getD i default
      .ok { d with cache :=
        d.cache.set i { c with block := splice c.block offset address size, hasWrite := true } }
    | none => .ok (d.pwrite address size (u32 (block * blockByteSize + offset)))
  else .error .assertion

/-- `ext2_flush_writes`: the dirty slots, then the superblock if it changed. -/
def World.flushWrites (w : World) : World :=
  let disk := w.disk.flushCache w.globals.blockByteSize
  if w.globals.superblockChanged then
    { globals := { w.globals with superblockChanged := false }
      disk := disk.pwrite w.globals.superblock (2 * sectorSize) 0 }
  else { w with disk }

/-- `cached_read_block` calls itself once, after a miss. -/
def readDepth : Nat := 2

/-- The driver's requests, answered by the cache and the device. -/
def World.handle : Program.Handler Call Reply World Stop
  | .stop reason, _ => .error reason
  | .readBlock block size offset, w =>
    match cachedReadBlock w.globals.blockByteSize readDepth w.disk block size offset with
    | .ok (bytes, disk) => .ok (bytes, { w with disk })
    | .error reason => .error reason
  | .writeBlock block address size offset, w =>
    match w.disk.writeBlock w.globals.blockByteSize block address size offset with
    | .ok disk => .ok ((), { w with disk })
    | .error reason => .error reason
  | .flushWrites, w => .ok ((), w.flushWrites)
  | .rawPwrite buf count offset, w => .ok ((), { w with disk := w.disk.pwrite buf count offset })
  | .getGlobals, w => .ok (w.globals, w)
  | .setGlobals globals, w => .ok ((), { w with globals })

/-- Run driver code on the real cache and device. -/
def World.run (code : Driver α) (w : World) : Except Stop (α × World) :=
  Program.execute World.handle code w

/-! ### The driver's entry points to the cache -/

/-- `ext2_read_block`. -/
def ext2ReadBlock (block size offset : Nat) : Driver Bytes := .request (.readBlock block size offset) .done

/-- `ext2_write_block`. -/
def ext2WriteBlock (block : Nat) (address : Bytes) (size offset : Nat) : Driver Unit :=
  .request (.writeBlock block address size offset) .done

/-- `ext2_flush_writes`. -/
def ext2FlushWrites : Driver Unit := .request .flushWrites .done

end SbOS.Ext2
