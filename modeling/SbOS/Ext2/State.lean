import SbOS.Lib.Bytes
import SbOS.Lib.Program

/-! The state of the ext2 driver (`kernel/fs/ext2.c`): its file-scope variables,
the block cache, the device below it, and the requests through which every
driver function reaches them.

Integers are natural numbers with the wrap-around of the C type written out
(`u32`, `u64`). An `int` that only carries block or inode numbers is kept as
its 32-bit pattern, so `-1` is `minusOne`. Packed structures are byte buffers
read through the field offsets of `ext2.h`. -/
namespace SbOS.Ext2
open Bytes

/-- `u32` arithmetic. -/
def u32 (n : Nat) : Nat := n % 2 ^ 32

/-- `u64` arithmetic. -/
def u64 (n : Nat) : Nat := n % 2 ^ 64

/-- `U32_MAX`, also the bit pattern of the `int` value `-1`. -/
def u32Max : Nat := 2 ^ 32 - 1

abbrev minusOne : Nat := u32Max

/-- `SECTOR_SIZE` of `drivers/ata.h`. -/
def sectorSize : Nat := 512

/-- `EXT2_SUPERBLOCK_SECTOR`. -/
def ext2SuperblockSector : Nat := 2

/-- `BLOCKS_REQUIRED(a, b)`. -/
def blocksRequired (a b : Nat) : Nat := a / b + if a % b ≠ 0 then 1 else 0

/-! ### `superblock_t` -/

namespace Superblock

def numInodes (sb : Bytes) : Nat := le32 sb 0
def numBlocks (sb : Bytes) : Nat := le32 sb 4
def numBlocksUnallocated (sb : Bytes) : Nat := le32 sb 12
def numInodesUnallocated (sb : Bytes) : Nat := le32 sb 16
def blockSize (sb : Bytes) : Nat := le32 sb 24
def numBlocksInGroup (sb : Bytes) : Nat := le32 sb 32
def numInodesInGroup (sb : Bytes) : Nat := le32 sb 40
def ext2Signature (sb : Bytes) : Nat := le16 sb 56
def majorVersion (sb : Bytes) : Nat := le32 sb 76

/-- `inode_size` of `ext_superblock_t`, the extended view of the same bytes. -/
def inodeSize (sb : Bytes) : Nat := le16 sb 88

def setNumBlocksUnallocated (sb : Bytes) (n : Nat) : Bytes := put32 sb 12 n
def setNumInodesUnallocated (sb : Bytes) (n : Nat) : Bytes := put32 sb 16 n

end Superblock

/-! ### `bgdt_t` -/

namespace Bgdt

/-- `sizeof(bgdt_t)`. -/
def size : Nat := 32

def blockUsageBitmap (d : Bytes) : Nat := le32 d 0
def inodeUsageBitmap (d : Bytes) : Nat := le32 d 4
def startingInodeTable (d : Bytes) : Nat := le32 d 8
def numUnallocatedBlocksInGroup (d : Bytes) : Nat := le16 d 12
def numUnallocatedInodesInGroup (d : Bytes) : Nat := le16 d 14

def setNumUnallocatedBlocksInGroup (d : Bytes) (n : Nat) : Bytes := put16 d 12 n
def setNumUnallocatedInodesInGroup (d : Bytes) (n : Nat) : Bytes := put16 d 14 n

end Bgdt

/-! ### `inode_t` -/

namespace Inode

/-- `sizeof(inode_t)`: `os_specific2` is declared as one `u32`, so the
structure ends eight bytes before the 128 bytes of the on-disk format. -/
def size : Nat := 120

def low32Size (h : Bytes) : Nat := le32 h 4
def numHardLinks (h : Bytes) : Nat := le16 h 26
def numDiskSectors (h : Bytes) : Nat := le32 h 28
def blockPointers (h : Bytes) (i : Nat) : Nat := le32 h (40 + 4 * i)
def singleIndirectBlockPointer (h : Bytes) : Nat := le32 h 88
def doubleIndirectBlockPointer (h : Bytes) : Nat := le32 h 92
def upper32Size (h : Bytes) : Nat := le32 h 108

def setTypesPermissions (h : Bytes) (v : Nat) : Bytes := put16 h 0 v
def setLow32Size (h : Bytes) (v : Nat) : Bytes := put32 h 4 v
def setDeletionTime (h : Bytes) (v : Nat) : Bytes := put32 h 20 v
def setNumHardLinks (h : Bytes) (v : Nat) : Bytes := put16 h 26 v
def setNumDiskSectors (h : Bytes) (v : Nat) : Bytes := put32 h 28 v
def setBlockPointer (h : Bytes) (i v : Nat) : Bytes := put32 h (40 + 4 * i) v
def setSingleIndirect (h : Bytes) (v : Nat) : Bytes := put32 h 88 v
def setDoubleIndirect (h : Bytes) (v : Nat) : Bytes := put32 h 92 v
def setUpper32Size (h : Bytes) (v : Nat) : Bytes := put32 h 108 v

/-- The 64-bit file size spread over two fields. -/
def fileSize (h : Bytes) : Nat := upper32Size h * 2 ^ 32 + low32Size h

end Inode

/-! ### The driver's variables -/

/-- `struct block_cache`. -/
structure Slot where
  isUsed : Bool
  lastUse : Nat
  blockNum : Nat
  block : Bytes
  hasWrite : Bool

/-- A slot as `kcalloc` leaves it. -/
def Slot.unused : Slot := ⟨false, 0, 0, zeros, false⟩

instance : Inhabited Slot := ⟨Slot.unused⟩

/-- The cache, the device behind `mount_fd`, and the values that later calls
of `timer_get_uptime` will return. -/
structure Disk where
  cache : List Slot
  device : Bytes
  uptime : Nat → Nat

/-- One entry of the list of open inodes. -/
structure OpenFile where
  inodeNum : Nat
  references : Nat
  isRemoved : Bool
deriving DecidableEq

/-- The remaining variables of the driver. `milliseconds` and `garbage` hold
what later calls of `timer_get_ms` return and what later uninitialised stack
arrays happen to contain. -/
structure Globals where
  superblock : Bytes
  blockByteSize : Nat
  inodeSize : Nat
  superblockChanged : Bool
  lastInodeRead : Nat
  lastInode : Bytes
  filesHead : List OpenFile
  milliseconds : Nat → Nat
  garbage : Nat → Nat → Nat

structure World where
  globals : Globals
  disk : Disk

/-- Why a call into the driver never returns: a failed `assert`, a halt by the
kernel's undefined-behaviour sanitizer, an automatic array larger than the
address space, or endless recursion. -/
inductive Stop where
  | assertion
  | sanitizer
  | stackArray
  | diverged
deriving DecidableEq

/-! ### Requests -/

/-- What driver code can ask of the state below it. -/
inductive Call where
  | stop (reason : Stop)
  | readBlock (block size offset : Nat)
  | writeBlock (block : Nat) (address : Bytes) (size offset : Nat)
  | flushWrites
  | rawPwrite (buf : Bytes) (count offset : Nat)
  | getGlobals
  | setGlobals (globals : Globals)

@[reducible] def Reply : Call → Type
  | .stop _ => Empty
  | .readBlock .. => Bytes
  | .getGlobals => Globals
  | _ => Unit

/-- A driver function body. -/
abbrev Driver (α : Type) := Program Call Reply α

def stop (reason : Stop) : Driver α := .request (.stop reason) Empty.elim

/-- The kernel's `assert`: a false condition never returns. -/
def assert (condition : Prop) [Decidable condition] : Driver Unit :=
  if condition then pure () else stop .assertion

def getGlobals : Driver Globals := .request .getGlobals .done

def setGlobals (globals : Globals) : Driver Unit := .request (.setGlobals globals) .done

/-- `timer_get_ms()`. -/
def timerGetMs : Driver Nat := do
  let g ← getGlobals
  setGlobals { g with milliseconds := fun n => g.milliseconds (n + 1) }
  return g.milliseconds 0

/-- The contents of a freshly declared stack array. -/
def uninitialised : Driver (Nat → Nat) := do
  let g ← getGlobals
  setGlobals { g with garbage := fun n => g.garbage (n + 1) }
  return g.garbage 0

end SbOS.Ext2
