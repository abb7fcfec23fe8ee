import SbOS.Ext2.Allocation

/-! File contents: the block tree of an inode, reading, writing, truncating and
removing a file. -/
namespace SbOS.Ext2
open Bytes

/-! ### The block tree -/

/-- `get_singly_block_index`. -/
def getSinglyBlockIndex (singlyBlockPtr i : Nat) : Driver Nat := do
  let g ← getGlobals
  let block ← ext2ReadBlock singlyBlockPtr g.blockByteSize 0
  return le32 block (4 * i)

/-- `get_from_all_blocks`: block `i` of a numbering in which the indirect
blocks have numbers of their own. -/
def getFromAllBlocks (inode : Bytes) (i : Nat) : Driver Nat := do
  if i < 12 then
    return Inode.blockPointers inode i
  let g ← getGlobals
  let i := i - 12
  let singly := g.blockByteSize / 4
  let double := u32 (singly * singly)
  if i = 0 then
    return Inode.singleIndirectBlockPointer inode
  let i := i - 1
  if i < singly then
    getSinglyBlockIndex (Inode.singleIndirectBlockPointer inode) i
  else if i < double then
    let i := i - singly
    if i = 0 then
      return Inode.doubleIndirectBlockPointer inode
    let i := i - 1
    let singlyEntry ← getSinglyBlockIndex (Inode.doubleIndirectBlockPointer inode) (i / singly)
    let offsetInEntry := i % singly
    if offsetInEntry = 0 then
      return singlyEntry
    getSinglyBlockIndex singlyEntry (offsetInEntry - 1)
  else stop .assertion

/-- `get_block`: data block `i` of a file. -/
def getBlock (inode : Bytes) (i : Nat) : Driver Nat := do
  if i < 12 then
    return Inode.blockPointers inode i
  let g ← getGlobals
  let i := i - 12
  let singly := g.blockByteSize / 4
  let double := u32 (singly * singly)
  if i < singly then
    getSinglyBlockIndex (Inode.singleIndirectBlockPointer inode) i
  else if i < double then
    let i := i - singly
    let singlyEntry ← getSinglyBlockIndex (Inode.doubleIndirectBlockPointer inode) (i / singly)
    getSinglyBlockIndex singlyEntry (i % singly)
  else stop .assertion

/-- `write_to_indirect_block`. -/
def writeToIndirectBlock (indirectBlock index newBlock : Nat) : Driver Unit := do
  let g ← getGlobals
  let index := index % (g.blockByteSize / 4)
  ext2WriteBlock indirectBlock (encode newBlock) 4 (u32 (index * 4))

/-- The part of `ext2_allocate_block` that sees to the double-indirect block;
`index` counts from the end of the single-indirect range. -/
def ensureDouble (inode : Bytes) (index : Nat) : Driver (Option Bytes) := do
  if index = 0 then
    let n ← getFreeBlock true
    if n = minusOne then
      return none
    return some (Inode.setDoubleIndirect inode n)
  return some inode

/-- `ext2_allocate_block`: the inode with data block `index` set to `block`, or
nothing when an indirect block it needs cannot be had. -/
def ext2AllocateBlock (inode : Bytes) (index block : Nat) : Driver (Option Bytes) := do
  if index < 12 then
    return some (Inode.setBlockPointer inode index block)
  let g ← getGlobals
  let capacity := g.blockByteSize / 4
  let index := index - 12
  if index < capacity then
    if index = 0 then
      let n ← getFreeBlock true
      if n = minusOne then
        return none
      writeToIndirectBlock n index block
      return some (Inode.setSingleIndirect inode n)
    writeToIndirectBlock (Inode.singleIndirectBlockPointer inode) index block
    return some inode
  let index := index - capacity
  if index < u32 (capacity * capacity) then
    match ← ensureDouble inode index with
    | none => return none
    | some inode =>
      if index % capacity = 0 then
        let n ← getFreeBlock true
        if n = minusOne then
          return none
        writeToIndirectBlock (Inode.doubleIndirectBlockPointer inode) (index / capacity) n
        writeToIndirectBlock n index block
        return some inode
      let value ← getSinglyBlockIndex (Inode.doubleIndirectBlockPointer inode) (index / capacity)
      writeToIndirectBlock value index block
      return some inode
  return none

/-! ### Writing -/

/-- `num_blocks_used` of `write_inode` and `remove_inode`. -/
def numBlocksUsed (blockByteSize : Nat) (inode : Bytes) : Nat :=
  Inode.numDiskSectors inode / (blockByteSize / sectorSize)

/-- The file size after a write of `size` bytes at `offset`. -/
def sizeAfterWrite (fsize size offset : Nat) : Nat :=
  if fsize < u64 (size + offset) then u64 (size + offset) else fsize

/-- `num_blocks_required` for a file of `fsize` bytes. -/
def numBlocksRequired (blockByteSize fsize : Nat) : Nat := u32 (blocksRequired fsize blockByteSize)

/-- `delta`, the number of blocks `write_inode` asks the allocator for. -/
def blocksRequested (required used : Nat) : Nat := u32 (required + (2 ^ 32 - used))

/-- The allocation loop of `write_inode`; `blocks` is its array. -/
def allocateBlocks (blocks : Nat → Nat) (used : Nat) : List Nat → Bytes → Driver Bytes
  | [], inode => return inode
  | i :: rest, inode => do
    match ← ext2AllocateBlock inode i (blocks (i - used)) with
    | some inode => allocateBlocks blocks used rest inode
    | none => stop .assertion

/-- The array `blocks` of `write_inode` after the call of `get_free_blocks`:
what was not filled in is what the stack held before. -/
def filledArray (entries : List Nat) (garbage : Nat → Nat) (k : Nat) : Nat :=
  entries.getD k (u32 (garbage k))

/-- The first half of `write_inode`: give the inode blocks up to `required`. -/
def growInode (inode : Bytes) (used required : Nat) : Driver Bytes := do
  let delta := blocksRequested required used
  if 0 < delta then
    -- `int blocks[delta]` cannot exist when it exceeds the address space: the size wraps, to
    -- nothing at all for a `delta` of -1 to -3, and the entries go over the stack
    if 2 ^ 32 ≤ delta * 4 then
      stop .stackArray
    let garbage ← uninitialised
    let entries ← getFreeBlocks true delta
    allocateBlocks (filledArray entries garbage) used (List.range' used (required - used)) inode
  else return inode

/-- The copy loop of `write_inode`. Every iteration writes at least one byte,
so `fuel` above `size` never runs out. -/
def writeBlocks (inode data : Bytes) : (fuel i size blockOffset bytesWritten : Nat) → Driver Nat
  | 0, _, _, _, _ => stop .diverged
  | fuel + 1, i, size, blockOffset, bytesWritten => do
    if size = 0 then
      return bytesWritten
    let g ← getGlobals
    let block ← getBlock inode i
    if block = 0 then
      return bytesWritten
    let writeLen := if g.blockByteSize < u64 (size + blockOffset) then g.blockByteSize - blockOffset
      else size
    ext2WriteBlock block (skip data bytesWritten) writeLen blockOffset
    -- `bytes_written` is an `int`, its overflow is trapped
    if 2 ^ 31 ≤ bytesWritten + writeLen then
      stop .sanitizer
    writeBlocks inode data fuel (i + 1) (size - writeLen) 0 (bytesWritten + writeLen)

/-- The second half of `write_inode`: copy the data, then write the inode back. -/
def storeData (inodeNum : Nat) (inode data : Bytes) (size offset fsize required : Nat) :
    Driver Nat := do
  let g ← getGlobals
  let bs := g.blockByteSize
  let inode := Inode.setNumDiskSectors inode (required * (bs / sectorSize))
  let bytesWritten ← writeBlocks inode data (size + 1) (u32 (offset / bs)) size (offset % bs) 0
  let inode := Inode.setUpper32Size (Inode.setLow32Size inode fsize) (fsize / 2 ^ 32)
  ext2WriteInode inodeNum inode
  ext2FlushWrites
  return bytesWritten

/-- `write_inode`: the number of bytes written. -/
def writeInode (inodeNum : Nat) (data : Bytes) (size offset : Nat) (append : Bool) :
    Driver Nat := do
  let inode ← ext2GetInodeHeader inodeNum
  let g ← getGlobals
  let bs := g.blockByteSize
  let fsize := Inode.fileSize inode
  let offset := if append then fsize else offset
  let fsize := sizeAfterWrite fsize size offset
  let required := numBlocksRequired bs fsize
  let inode ← growInode inode (numBlocksUsed bs inode) required
  storeData inodeNum inode data size offset fsize required

/-! ### Reading -/

/-- What `read_inode` returns: its result, the bytes it has stored in `data`,
and the file size. -/
structure ReadResult where
  count : Nat
  data : Bytes
  fileSize : Nat

/-- The copy loop of `read_inode`. -/
def readBlocks (inode : Bytes) :
    (fuel i size blockOffset bytesRead : Nat) → Bytes → Driver (Nat × Bytes)
  | 0, _, _, _, _, _ => stop .diverged
  | fuel + 1, i, size, blockOffset, bytesRead, data => do
    if size = 0 then
      return (bytesRead, data)
    let g ← getGlobals
    let readLen := if g.blockByteSize < u64 (size + blockOffset) then g.blockByteSize - blockOffset
      else size
    let block ← getBlock inode i
    let bytes ← if block = 0 then pure zeros else ext2ReadBlock block readLen blockOffset
    if 2 ^ 31 ≤ bytesRead + readLen then
      stop .sanitizer
    readBlocks inode fuel (i + 1) (size - readLen) 0 (bytesRead + readLen)
      (splice data bytesRead bytes readLen)

/-- The length `read_inode` is left with after its first test. -/
def clippedLength (fsize size offset : Nat) : Nat :=
  if u64 (fsize + (2 ^ 64 - offset)) < size then
    u64 (size + (2 ^ 64 - u64 (size + offset + (2 ^ 64 - fsize))))
  else size

/-- `read_inode`. -/
def readInode (inodeNum size offset : Nat) : Driver ReadResult := do
  let inode ← ext2GetInodeHeader inodeNum
  let g ← getGlobals
  let bs := g.blockByteSize
  let fsize := Inode.fileSize inode
  let size := clippedLength fsize size offset
  if size = 0 then
    return ⟨0, zeros, fsize⟩
  if fsize < offset then
    return ⟨0, zeros, fsize⟩
  let (count, data) ← readBlocks inode (size + 1) (u32 (offset / bs)) size (offset % bs) 0 zeros
  return ⟨count, data, fsize⟩

/-! ### Creation, truncation and removal -/

/-- The inode that `ext2_create_file` writes. -/
def newFileInode : Bytes := Inode.setNumHardLinks (Inode.setTypesPermissions zeros 0x8000) 1

/-- `ext2_truncate`. -/
def ext2Truncate (inodeNum length : Nat) : Driver Unit := do
  let inode ← ext2GetInodeHeader inodeNum
  ext2WriteInode inodeNum (Inode.setLow32Size (Inode.setUpper32Size inode 0) length)

/-- The loop of `remove_inode`. -/
def releaseBlocks (inode : Bytes) : List Nat → Driver Unit
  | [] => return ()
  | i :: rest => do
    let block ← getFromAllBlocks inode i
    if block = 0 then
      releaseBlocks inode rest
    else
      writeToBlockBitmap block false
      releaseBlocks inode rest

/-- `remove_inode`. -/
def removeInode (inodeNum : Nat) : Driver Unit := do
  let inode ← ext2GetInodeHeader inodeNum
  let links := Inode.numHardLinks inode - 1
  if links ≠ 0 then
    -- the decremented count stays in the local copy
    return ()
  let inode := Inode.setNumHardLinks inode 0
  let g ← getGlobals
  releaseBlocks inode (List.range (numBlocksUsed g.blockByteSize inode))
  let ms ← timerGetMs
  let inode := Inode.setNumDiskSectors (Inode.setDeletionTime inode (ms / 1000)) 0
  ext2WriteInode inodeNum inode
  writeToInodeBitmap (inodeNum - 1) false

/-! ### Open files -/

/-- `remove_possibly_open_inode`. -/
def removePossiblyOpenInode (inodeNum : Nat) : Driver Unit := do
  let g ← getGlobals
  if g.filesHead.any (·.inodeNum = inodeNum) then
    setGlobals { g with filesHead := g.filesHead.map fun f =>
      if f.inodeNum = inodeNum then { f with isRemoved := true } else f }
  else removeInode inodeNum

end SbOS.Ext2
