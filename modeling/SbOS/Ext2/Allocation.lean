import SbOS.Ext2.Groups

/-! Allocation and release of blocks and inodes in the group bitmaps. -/
namespace SbOS.Ext2
open Bytes

/-- `byte & (1 << offset)`. -/
def bitSet (byte : UInt8) (offset : Nat) : Bool := byte.toNat.testBit offset

/-- `bitmap[index] |= (1 << offset)`. -/
def setBit (bitmap : Bytes) (index offset : Nat) : Bytes :=
  Function.update bitmap index (bitmap index ||| UInt8.ofNat (2 ^ offset))

/-- `bitmap[index] &= ~(1 << offset)`. -/
def clearBit (bitmap : Bytes) (index offset : Nat) : Bytes :=
  Function.update bitmap index (bitmap index &&& ~~~ UInt8.ofNat (2 ^ offset))

/-! ### Blocks -/

/-- The variables of `get_free_blocks` that its inner loops change. -/
structure Scan where
  bitmap : Bytes
  entries : List Nat
  foundBlock : Bool

/-- The loop over the bits of one byte. -/
def scanByte (numEntries base index : Nat) : List Nat → Scan → Scan
  | [], scan => scan
  | offset :: rest, scan =>
    if scan.entries.length < numEntries then
      if bitSet (scan.bitmap index) offset then scanByte numEntries base index rest scan
      else scanByte numEntries base index rest
        { bitmap := setBit scan.bitmap index offset
          entries := scan.entries ++ [u32 (index * 8 + offset + base)]
          foundBlock := true }
    else scan

/-- The loop over the bytes of one group's bitmap. -/
def scanBitmap (numEntries base : Nat) : List Nat → Scan → Scan
  | [], scan => scan
  | index :: rest, scan =>
    if scan.entries.length < numEntries then
      if scan.bitmap index = 0xFF then scanBitmap numEntries base rest scan
      else scanBitmap numEntries base rest (scanByte numEntries base index (List.range 8) scan)
    else scan

/-- The loop over the groups. -/
def freeBlocksInGroups (allocate : Bool) (numEntries : Nat) :
    List Nat → List Nat → Driver (List Nat)
  | [], entries => return entries
  | group :: rest, entries => do
    if entries.length < numEntries then
      let g ← getGlobals
      let blocksInGroup := Superblock.numBlocksInGroup g.superblock
      let blockGroup ← getGroupDescriptor group
      if Bgdt.numUnallocatedBlocksInGroup blockGroup = 0 then
        freeBlocksInGroups allocate numEntries rest entries
      else
        let bitmap ← ext2ReadBlock (Bgdt.blockUsageBitmap blockGroup) (blocksInGroup / 8) 0
        let scan := scanBitmap numEntries (group * blocksInGroup) (List.range (blocksInGroup / 8))
          ⟨bitmap, entries, false⟩
        if allocate ∧ scan.foundBlock then
          ext2WriteBlock (Bgdt.blockUsageBitmap blockGroup) scan.bitmap (blocksInGroup / 8) 0
          -- one less per group, however many bits the loops above have taken
          writeGroupDescriptor group (Bgdt.setNumUnallocatedBlocksInGroup blockGroup
            (Bgdt.numUnallocatedBlocksInGroup blockGroup + (2 ^ 16 - 1)))
          let g ← getGlobals
          setGlobals { g with
            superblock := Superblock.setNumBlocksUnallocated g.superblock
              (Superblock.numBlocksUnallocated g.superblock + (2 ^ 32 - 1))
            superblockChanged := true }
        freeBlocksInGroups allocate numEntries rest scan.entries
    else return entries

/-- `get_free_blocks`: the entries it has filled in. No variable that
`num_block_groups` reads changes during the loop. -/
def getFreeBlocks (allocate : Bool) (numEntries : Nat) : Driver (List Nat) := do
  let g ← getGlobals
  if Superblock.numBlocksUnallocated g.superblock < numEntries then
    return []
  assert (0 = Superblock.numBlocksInGroup g.superblock % 8)
  let groups ← numBlockGroups
  freeBlocksInGroups allocate numEntries (List.range groups) []

/-- `get_free_block`. -/
def getFreeBlock (allocate : Bool) : Driver Nat := do
  let entries ← getFreeBlocks allocate 1
  return entries.headD minusOne

/-! ### Single bits -/

/-- Which of the two bitmaps of a group. -/
inductive BitmapKind where
  | block
  | inode
deriving DecidableEq

namespace BitmapKind

def perGroup : BitmapKind → Bytes → Nat
  | .block => Superblock.numBlocksInGroup
  | .inode => Superblock.numInodesInGroup

def bitmap : BitmapKind → Bytes → Nat
  | .block => Bgdt.blockUsageBitmap
  | .inode => Bgdt.inodeUsageBitmap

def unallocated : BitmapKind → Bytes → Nat
  | .block => Superblock.numBlocksUnallocated
  | .inode => Superblock.numInodesUnallocated

def setUnallocated : BitmapKind → Bytes → Nat → Bytes
  | .block => Superblock.setNumBlocksUnallocated
  | .inode => Superblock.setNumInodesUnallocated

def unallocatedInGroup : BitmapKind → Bytes → Nat
  | .block => Bgdt.numUnallocatedBlocksInGroup
  | .inode => Bgdt.numUnallocatedInodesInGroup

def setUnallocatedInGroup : BitmapKind → Bytes → Nat → Bytes
  | .block => Bgdt.setNumUnallocatedBlocksInGroup
  | .inode => Bgdt.setNumUnallocatedInodesInGroup

end BitmapKind

/-- Set (`value`) or clear bit `num` and adjust both counters. -/
def writeToBitmap (kind : BitmapKind) (num : Nat) (value : Bool) : Driver Unit := do
  let g ← getGlobals
  let perGroup := kind.perGroup g.superblock
  let blockGroup ← getGroupDescriptor (num / perGroup)
  let bitmap ← ext2ReadBlock (kind.bitmap blockGroup) (perGroup / 8) 0
  let index := num % perGroup
  -- decrements are written as additions modulo the width of the counter
  let (bitmap, less16, less32) :=
    if value then (setBit bitmap (index / 8) (index % 8), 2 ^ 16 - 1, 2 ^ 32 - 1)
    else (clearBit bitmap (index / 8) (index % 8), 1, 1)
  let g ← getGlobals
  setGlobals { g with
    superblock := kind.setUnallocated g.superblock (kind.unallocated g.superblock + less32)
    superblockChanged := true }
  ext2WriteBlock (kind.bitmap blockGroup) bitmap (perGroup / 8) 0
  writeGroupDescriptor (num / perGroup)
    (kind.setUnallocatedInGroup blockGroup (kind.unallocatedInGroup blockGroup + less16))

/-- `write_to_block_bitmap`. -/
def writeToBlockBitmap (blockNum : Nat) (value : Bool) : Driver Unit :=
  writeToBitmap .block blockNum value

/-- `write_to_inode_bitmap`; the first inode has number 0 here. -/
def writeToInodeBitmap (inodeNum : Nat) (value : Bool) : Driver Unit :=
  writeToBitmap .inode inodeNum value

/-! ### Inodes -/

/-- The loop over the bits of one byte. -/
def firstClearBit (byte : UInt8) : List Nat → Option Nat
  | [] => none
  | offset :: rest => if bitSet byte offset then firstClearBit byte rest else some offset

/-- The loop over the bytes of one group's inode bitmap: the byte and the bit
of the first clear entry. -/
def firstClear (bitmap : Bytes) : List Nat → Option (Nat × Nat)
  | [] => none
  | index :: rest =>
    if bitmap index = 0xFF then firstClear bitmap rest
    else
      match firstClearBit (bitmap index) (List.range 8) with
      | some offset => some (index, offset)
      | none => firstClear bitmap rest

/-- The loop over the groups. -/
def freeInodeInGroups (allocate : Bool) : List Nat → Driver Nat
  | [] => return minusOne
  | group :: rest => do
    let g ← getGlobals
    let inodesInGroup := Superblock.numInodesInGroup g.superblock
    let blockGroup ← getGroupDescriptor group
    if Bgdt.numUnallocatedInodesInGroup blockGroup = 0 then
      freeInodeInGroups allocate rest
    else
      let bitmap ← ext2ReadBlock (Bgdt.inodeUsageBitmap blockGroup) (inodesInGroup / 8) 0
      match firstClear bitmap (List.range (inodesInGroup / 8)) with
      | none => freeInodeInGroups allocate rest
      | some (index, offset) =>
        if allocate then
          ext2WriteBlock (Bgdt.inodeUsageBitmap blockGroup) (setBit bitmap index offset)
            (inodesInGroup / 8) 0
          writeGroupDescriptor group (Bgdt.setNumUnallocatedInodesInGroup blockGroup
            (Bgdt.numUnallocatedInodesInGroup blockGroup + (2 ^ 16 - 1)))
          let g ← getGlobals
          let superblock := Superblock.setNumInodesUnallocated g.superblock
            (Superblock.numInodesUnallocated g.superblock + (2 ^ 32 - 1))
          setGlobals { g with superblock, superblockChanged := true }
          Program.ask (Call.rawPwrite superblock (2 * sectorSize) 0)
        return u32 (index * 8 + offset + group * inodesInGroup + 1)

/-- `get_free_inode`. -/
def getFreeInode (allocate : Bool) : Driver Nat := do
  let g ← getGlobals
  if Superblock.numInodesUnallocated g.superblock = 0 then
    return minusOne
  assert (0 = Superblock.numInodesInGroup g.superblock % 8)
  let groups ← numBlockGroups
  freeInodeInGroups allocate (List.range groups)

end SbOS.Ext2
