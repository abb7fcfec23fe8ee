import SbOS.Ext2.BlockCache

/-! Block groups: their descriptors, and where an inode lives on disk. Divisors
read from the superblock are nonzero on every volume that can be mounted. -/
namespace SbOS.Ext2
open Bytes

/-- The block that holds the group descriptors. -/
def startingBlock (blockByteSize : Nat) : Nat := if blockByteSize = 1024 then 2 else 1

/-- `write_group_descriptor`. -/
def writeGroupDescriptor (groupIndex : Nat) (blockGroup : Bytes) : Driver Unit := do
  let g ← getGlobals
  ext2WriteBlock (startingBlock g.blockByteSize) blockGroup Bgdt.size (u32 (groupIndex * Bgdt.size))

/-- `get_group_descriptor`. -/
def getGroupDescriptor (groupIndex : Nat) : Driver Bytes := do
  let g ← getGlobals
  ext2ReadBlock (startingBlock g.blockByteSize) Bgdt.size (u32 (groupIndex * Bgdt.size))

/-- `num_block_groups`: both ways of counting the groups have to agree. -/
def numBlockGroups : Driver Nat := do
  let g ← getGlobals
  let b := blocksRequired (Superblock.numBlocks g.superblock)
    (Superblock.numBlocksInGroup g.superblock)
  let i := blocksRequired (Superblock.numInodes g.superblock)
    (Superblock.numInodesInGroup g.superblock)
  assert (i = b)
  return i

/-- `ext2_block_containing_inode`: the block of an inode and the offset in it. -/
def ext2BlockContainingInode (inodeIndex : Nat) : Driver (Nat × Nat) := do
  assert (0 ≠ inodeIndex)
  let g ← getGlobals
  let perGroup := Superblock.numInodesInGroup g.superblock
  let blockGroup ← getGroupDescriptor ((inodeIndex - 1) / perGroup)
  let fullOffset := u32 ((inodeIndex - 1) % perGroup * g.inodeSize)
  let blockIndex := u32 (Bgdt.startingInodeTable blockGroup +
    fullOffset >>> (Superblock.blockSize g.superblock + 10))
  return (blockIndex, fullOffset &&& (g.blockByteSize - 1))

/-- `ext2_get_inode_header`: the `inode_size` bytes it leaves in `data`. When
the inode is the one read last, only `sizeof(inode_t)` of them are copied and
the rest stays zero. -/
def ext2GetInodeHeader (inodeIndex : Nat) : Driver Bytes := do
  let g ← getGlobals
  if g.lastInodeRead = inodeIndex then
    return splice zeros 0 g.lastInode Inode.size
  let (blockIndex, blockOffset) ← ext2BlockContainingInode inodeIndex
  let memBlock ← ext2ReadBlock blockIndex g.inodeSize blockOffset
  let g ← getGlobals
  setGlobals { g with lastInode := slice memBlock 0 Inode.size, lastInodeRead := inodeIndex }
  return memBlock

/-- `ext2_write_inode`. -/
def ext2WriteInode (inodeIndex : Nat) (data : Bytes) : Driver Unit := do
  let g ← getGlobals
  if g.lastInodeRead = inodeIndex then
    setGlobals { g with lastInodeRead := minusOne }
  let (blockIndex, blockOffset) ← ext2BlockContainingInode inodeIndex
  ext2WriteBlock blockIndex data g.inodeSize blockOffset

end SbOS.Ext2
