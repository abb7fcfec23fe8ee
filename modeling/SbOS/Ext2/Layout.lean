import SbOS.Ext2.Volume
import SbOS.Ext2.Files

/-! Where an ext2 volume keeps its metadata, and the group descriptor and inode
functions of the driver in terms of it.

`Geometry` holds what formatting fixed once and for all: sizes, counts and the
places of bitmaps and inode tables. A volume is `Formatted` by a geometry when
its superblock and descriptors say so. Everything that changes (bits, inode
headers, counters) is a view of the blocks at these places. -/
namespace SbOS.Ext2
open Bytes Volume
open Nat (add_mul div_add_mod mod_lt)

/-- A metadata block of the volume. -/
inductive MetaNode where
  | descriptors (k : Nat)
  | blockBitmap (group : Nat)
  | inodeBitmap (group : Nat)
  | inodeTable (group k : Nat)
deriving DecidableEq

/-- The fixed part of a valid volume. -/
structure Geometry where
  log : Nat
  inodeSize : Nat
  blocksPerGroup : Nat
  inodesPerGroup : Nat
  numBlocks : Nat
  numInodes : Nat
  groups : Nat
  blockBitmap : Nat → Nat
  inodeBitmap : Nat → Nat
  inodeTable : Nat → Nat
  log_le : log ≤ 6
  inodeSize_ge : Inode.size ≤ inodeSize
  inodeSize_dvd : inodeSize ∣ 1024 * 2 ^ log
  blocksPerGroup_pos : 0 < blocksPerGroup
  blocksPerGroup_eight : blocksPerGroup % 8 = 0
  blocksPerGroup_le : blocksPerGroup ≤ 8 * (1024 * 2 ^ log)
  inodesPerGroup_pos : 0 < inodesPerGroup
  inodesPerGroup_eight : inodesPerGroup % 8 = 0
  inodesPerGroup_le : inodesPerGroup ≤ 8 * (1024 * 2 ^ log)
  numBlocks_lt : numBlocks < 2 ^ 32
  numInodes_lt : numInodes < 2 ^ 32 - 1
  groups_of_blocks : blocksRequired numBlocks blocksPerGroup = groups
  groups_of_inodes : blocksRequired numInodes inodesPerGroup = groups

namespace Geometry
variable (G : Geometry)

/-- The block size in bytes. -/
def bs : Nat := 1024 * 2 ^ G.log

/-- The first block of the group descriptors. -/
def gdt : Nat := startingBlock G.bs

/-- Blocks taken by the group descriptors. -/
def gdtBlocks : Nat := blocksRequired (Bgdt.size * G.groups) G.bs

/-- Blocks taken by the inode table of one group. -/
def tableBlocks : Nat := blocksRequired (G.inodesPerGroup * G.inodeSize) G.bs

/-- The metadata blocks that exist. -/
def IsMeta : MetaNode → Prop
  | .descriptors k => k < G.gdtBlocks
  | .blockBitmap group | .inodeBitmap group => group < G.groups
  | .inodeTable group k => group < G.groups ∧ k < G.tableBlocks

/-- Where they are. -/
def metaBlock : MetaNode → Nat
  | .descriptors k => G.gdt + k
  | .blockBitmap group => G.blockBitmap group
  | .inodeBitmap group => G.inodeBitmap group
  | .inodeTable group k => G.inodeTable group + k

/-- The metadata blocks lie on the volume, apart from each other; the group
descriptors, right after the superblock, come first. -/
structure Sound : Prop where
  after : ∀ node, G.IsMeta node → G.gdt ≤ G.metaBlock node
  inside : ∀ node, G.IsMeta node → G.metaBlock node < G.numBlocks
  apart : ∀ node node', G.IsMeta node → G.IsMeta node' → G.metaBlock node = G.metaBlock node' →
    node = node'

/-- What this driver can handle: `get_group_descriptor` looks at one block of
descriptors only, and byte addresses are computed in 32 bits. -/
structure Supported : Prop where
  oneBlock : Bgdt.size * G.groups ≤ G.bs
  addressable : G.numBlocks * G.bs ≤ 2 ^ 32

/-- The driver can get at the descriptor of a group. -/
structure Reaches (g : Nat) : Prop where
  room : Bgdt.size * g + Bgdt.size ≤ G.bs
  addressable : G.numBlocks * G.bs ≤ 2 ^ 32

/-- The descriptor of a group. -/
def desc (blocks : Nat → Bytes) (group : Nat) : Bytes :=
  slice (blocks (G.gdt + Bgdt.size * group / G.bs)) (Bgdt.size * group % G.bs) Bgdt.size

/-- The block of an inode, and its offset there. -/
def inodeBlock (n : Nat) : Nat :=
  G.inodeTable ((n - 1) / G.inodesPerGroup) + (n - 1) % G.inodesPerGroup * G.inodeSize / G.bs

def inodeOffset (n : Nat) : Nat := (n - 1) % G.inodesPerGroup * G.inodeSize % G.bs

/-- The numbers of the inodes of the volume. -/
def IsInode (n : Nat) : Prop := 1 ≤ n ∧ n ≤ G.numInodes

/-- The bytes of an inode on disk. -/
def header (blocks : Nat → Bytes) (n : Nat) : Bytes :=
  slice (blocks (G.inodeBlock n)) (G.inodeOffset n) G.inodeSize

/-- Bit `n` of the bitmaps that `place` gives for each group. -/
def bit (place : Nat → Nat) (perGroup : Nat) (blocks : Nat → Bytes) (n : Nat) : Bool :=
  bitSet (blocks (place (n / perGroup)) (n % perGroup / 8)) (n % perGroup % 8)

/-- Block `b` is marked used. -/
def blockUsed (blocks : Nat → Bytes) (b : Nat) : Bool :=
  bit G.blockBitmap G.blocksPerGroup blocks b

end Geometry

/-- The superblock and the descriptors of `v` describe the geometry. -/
structure Formatted (G : Geometry) (v : Volume) : Prop where
  size : v.globals.blockByteSize = G.bs
  inodeSize : v.globals.inodeSize = G.inodeSize
  log : Superblock.blockSize v.globals.superblock = G.log
  numBlocks : Superblock.numBlocks v.globals.superblock = G.numBlocks
  numInodes : Superblock.numInodes v.globals.superblock = G.numInodes
  blocksPerGroup : Superblock.numBlocksInGroup v.globals.superblock = G.blocksPerGroup
  inodesPerGroup : Superblock.numInodesInGroup v.globals.superblock = G.inodesPerGroup
  blockBitmap : ∀ group < G.groups,
    Bgdt.blockUsageBitmap (G.desc v.blocks group) = G.blockBitmap group
  inodeBitmap : ∀ group < G.groups,
    Bgdt.inodeUsageBitmap (G.desc v.blocks group) = G.inodeBitmap group
  inodeTable : ∀ group < G.groups,
    Bgdt.startingInodeTable (G.desc v.blocks group) = G.inodeTable group

/-! ### Arithmetic of the geometry -/

namespace Geometry
variable {G : Geometry}

theorem blockByteSize : BlockByteSize G.bs :=
  ⟨G.log, by have := G.log_le; omega, by rw [Nat.shiftLeft_eq]; rfl⟩

theorem bs_ge : 1024 ≤ G.bs := blockByteSize.le

theorem bs_pos : 0 < G.bs := Nat.lt_of_lt_of_le (by decide) G.bs_ge

theorem bs_le : G.bs ≤ 65536 := by
  calc 1024 * 2 ^ G.log ≤ 1024 * 2 ^ 6 := by gcongr; exacts [by decide, G.log_le]
    _ = 65536 := by decide

theorem blocksRequired_le (positive : 0 < b) : n ≤ blocksRequired n b * b := by
  unfold blocksRequired
  have := div_add_mod n b
  rw [mul_comm] at this
  split
  · rw [add_mul]
    have := mod_lt n positive
    omega
  · rw [add_zero]
    omega

theorem lt_blocksRequired (positive : 0 < b) (below : k * b < n) : k < blocksRequired n b := by
  have := blocksRequired_le (n := n) positive
  exact Nat.lt_of_mul_lt_mul_right (below.trans_le this)

/-- Every block of the volume belongs to one of its groups. -/
theorem group_of_block (inside : b < G.numBlocks) : b / G.blocksPerGroup < G.groups := by
  rw [← G.groups_of_blocks]
  apply lt_blocksRequired G.blocksPerGroup_pos
  have := Nat.div_mul_le_self b G.blocksPerGroup
  omega

theorem group_of_inode (inode : G.IsInode n) : (n - 1) / G.inodesPerGroup < G.groups := by
  rw [← G.groups_of_inodes]
  apply lt_blocksRequired G.inodesPerGroup_pos
  have := Nat.div_mul_le_self (n - 1) G.inodesPerGroup
  obtain ⟨low, high⟩ := inode
  omega

theorem gdt_pos (G : Geometry) : 0 < G.gdt := by
  unfold gdt startingBlock
  split <;> omega

theorem Sound.nonzero (sound : G.Sound) (node : MetaNode) (isMeta : G.IsMeta node) :
    G.metaBlock node ≠ 0 := by
  have := sound.after node isMeta
  have := G.gdt_pos
  omega

theorem visible (sound : G.Sound) (fits : G.numBlocks * G.bs ≤ 2 ^ 32) (isMeta : G.IsMeta node) :
    Visible G.bs (G.metaBlock node) := by
  refine ⟨sound.nonzero node isMeta, ?_⟩
  have := sound.inside node isMeta
  have := Nat.mul_le_mul_right G.bs (show G.metaBlock node + 1 ≤ G.numBlocks from this)
  rw [add_mul] at this
  unfold Addressable
  omega

theorem visible_of_lt (supported : G.Supported) (nonzero : b ≠ 0) (inside : b < G.numBlocks) :
    Visible G.bs b := by
  refine ⟨nonzero, ?_⟩
  have := Nat.mul_le_mul_right G.bs (show b + 1 ≤ G.numBlocks from inside)
  rw [add_mul] at this
  have := supported.addressable
  unfold Addressable
  omega

theorem gdtBlocks_pos (group : g < G.groups) : G.IsMeta (.descriptors 0) := by
  apply lt_blocksRequired G.bs_pos
  simp only [Bgdt.size]
  omega

theorem Supported.reaches (supported : G.Supported) (group : g < G.groups) : G.Reaches g := by
  have := supported.oneBlock
  refine ⟨?_, supported.addressable⟩
  simp only [Bgdt.size] at *
  omega

/-- The descriptors within reach are in the first block of descriptors. -/
theorem desc_eq (reaches : G.Reaches g) (blocks : Nat → Bytes) :
    G.desc blocks g = slice (blocks G.gdt) (Bgdt.size * g) Bgdt.size := by
  have := reaches.room
  have below : Bgdt.size * g < G.bs := by simp only [Bgdt.size] at *; omega
  simp only [desc, Nat.div_eq_of_lt below, Nat.mod_eq_of_lt below, add_zero]

/-- An inode never crosses a block boundary. -/
theorem inodeOffset_room (n : Nat) : G.inodeOffset n + G.inodeSize ≤ G.bs := by
  obtain ⟨k, whole⟩ := G.inodeSize_dvd
  have same : G.bs = G.inodeSize * k := whole
  unfold inodeOffset
  rw [same, Nat.mul_comm _ G.inodeSize, Nat.mul_mod_mul_left]
  have kpos : 0 < k := by
    rcases Nat.eq_zero_or_pos k with rfl | h
    · have := G.bs_ge
      omega
    · exact h
  have := mod_lt ((n - 1) % G.inodesPerGroup) kpos
  calc G.inodeSize * ((n - 1) % G.inodesPerGroup % k) + G.inodeSize
      = G.inodeSize * ((n - 1) % G.inodesPerGroup % k + 1) := by ring
    _ ≤ G.inodeSize * k := Nat.mul_le_mul_left _ this

/-- The block of an inode is a block of its group's table. -/
theorem inodeBlock_meta (inode : G.IsInode n) :
    ∃ k, G.IsMeta (.inodeTable ((n - 1) / G.inodesPerGroup) k) ∧
      G.inodeBlock n = G.metaBlock (.inodeTable ((n - 1) / G.inodesPerGroup) k) ∧
      k = (n - 1) % G.inodesPerGroup * G.inodeSize / G.bs := by
  refine ⟨_, ⟨group_of_inode inode, ?_⟩, rfl, rfl⟩
  apply lt_blocksRequired G.bs_pos
  have := mod_lt (n - 1) G.inodesPerGroup_pos
  have positive : 0 < G.inodeSize := by
    have := G.inodeSize_ge
    simp only [Inode.size] at this
    omega
  calc _ ≤ (n - 1) % G.inodesPerGroup * G.inodeSize := Nat.div_mul_le_self _ _
    _ < G.inodesPerGroup * G.inodeSize := Nat.mul_lt_mul_of_pos_right this positive

/-- Two inodes share no byte. -/
theorem inode_apart (sound : G.Sound) (inode : G.IsInode n) (inode' : G.IsInode m)
    (different : n ≠ m) (same : G.inodeBlock n = G.inodeBlock m) :
    G.inodeOffset n + G.inodeSize ≤ G.inodeOffset m ∨
      G.inodeOffset m + G.inodeSize ≤ G.inodeOffset n := by
  obtain ⟨k, isMeta, place, kEq⟩ := inodeBlock_meta inode
  obtain ⟨k', isMeta', place', kEq'⟩ := inodeBlock_meta inode'
  have equal := sound.apart _ _ isMeta isMeta' (by rw [← place, ← place', same])
  injection equal with groupEq sameK
  have slots : (n - 1) % G.inodesPerGroup ≠ (m - 1) % G.inodesPerGroup := by
    intro slotEq
    apply different
    have dn := div_add_mod (n - 1) G.inodesPerGroup
    have dm := div_add_mod (m - 1) G.inodesPerGroup
    rw [groupEq, slotEq] at dn
    obtain ⟨low, _⟩ := inode
    obtain ⟨low', _⟩ := inode'
    omega
  have offN := div_add_mod ((n - 1) % G.inodesPerGroup * G.inodeSize) G.bs
  have offM := div_add_mod ((m - 1) % G.inodesPerGroup * G.inodeSize) G.bs
  rw [← kEq] at offN
  rw [← kEq', ← sameK] at offM
  change _ + G.inodeOffset n = _ at offN
  change _ + G.inodeOffset m = _ at offM
  rcases Nat.lt_or_gt_of_ne slots with less | more
  · left
    have := Nat.mul_le_mul_right G.inodeSize (show _ + 1 ≤ _ from less)
    rw [add_mul] at this
    omega
  · right
    have := Nat.mul_le_mul_right G.inodeSize (show _ + 1 ≤ _ from more)
    rw [add_mul] at this
    omega

end Geometry

/-! ### Changing blocks -/

namespace Geometry
variable {G : Geometry} {v : Volume}

section
variable (sound : G.Sound) (fits : G.numBlocks * G.bs ≤ 2 ^ 32)
include sound fits

theorem gdt_visible (group : g < G.groups) :
    Visible G.bs G.gdt := visible sound fits (gdtBlocks_pos group)

theorem inodeBlock_visible (inode : G.IsInode n) : Visible G.bs (G.inodeBlock n) := by
  obtain ⟨k, isMeta, place, _⟩ := inodeBlock_meta inode
  rw [place]
  exact visible sound fits isMeta

end

theorem inodeBlock_ne_gdt (sound : G.Sound) (inode : G.IsInode n) : G.inodeBlock n ≠ G.gdt := by
  obtain ⟨k, isMeta, place, _⟩ := inodeBlock_meta inode
  intro same
  have := sound.apart _ _ isMeta (gdtBlocks_pos (group_of_inode inode)) (place ▸ same)
  cases this

/-- Replace the descriptor of one group. -/
def putDesc (G : Geometry) (v : Volume) (group : Nat) (d : Bytes) : Volume :=
  v.put G.gdt (splice (v.blocks G.gdt) (Bgdt.size * group) d Bgdt.size)

/-- Replace the bytes of one inode. -/
def putHeader (G : Geometry) (v : Volume) (n : Nat) (data : Bytes) : Volume :=
  v.put (G.inodeBlock n) (splice (v.blocks (G.inodeBlock n)) (G.inodeOffset n) data G.inodeSize)

theorem desc_putDesc (supported : G.Supported) (group : g < G.groups) (group' : g' < G.groups) :
    G.desc (G.putDesc v g d).blocks g' =
      if g' = g then slice d 0 Bgdt.size else G.desc v.blocks g' := by
  rw [desc_eq (supported.reaches group'), putDesc, put_same]
  split
  · rename_i same
    subst same
    exact slice_splice_same
  · rename_i other
    rw [desc_eq (supported.reaches group')]
    apply slice_splice_disjoint
    simp only [Bgdt.size]
    omega

theorem desc_put (supported : G.Supported) (group : g < G.groups) (other : b ≠ G.gdt) :
    G.desc (v.put b bytes).blocks g = G.desc v.blocks g := by
  rw [desc_eq (supported.reaches group), desc_eq (supported.reaches group), put_other v other.symm]

theorem header_putHeader_same :
    G.header (G.putHeader v n data).blocks n = slice data 0 G.inodeSize := by
  rw [header, putHeader, put_same]
  exact slice_splice_same

theorem header_putHeader_other (sound : G.Sound) (inode : G.IsInode n) (inode' : G.IsInode m)
    (different : m ≠ n) :
    G.header (G.putHeader v n data).blocks m = G.header v.blocks m := by
  by_cases same : G.inodeBlock m = G.inodeBlock n
  · rw [header, putHeader, same, put_same, header, same]
    apply slice_splice_disjoint
    have := inode_apart sound inode inode' different.symm same.symm
    omega
  · rw [putHeader, header, put_other v same, header]

end Geometry

/-- The descriptors keep the places they name, whatever else changes in them. -/
theorem Formatted.of_desc (formatted : Formatted G v)
    (superblock : v'.globals.superblock = v.globals.superblock)
    (size : v'.globals.blockByteSize = v.globals.blockByteSize)
    (inodeSize : v'.globals.inodeSize = v.globals.inodeSize)
    (same : ∀ g < G.groups, ∀ i < 12, G.desc v'.blocks g i = G.desc v.blocks g i) :
    Formatted G v' := by
  have field : ∀ g < G.groups, ∀ o, o + 4 ≤ 12 →
      le32 (G.desc v'.blocks g) o = le32 (G.desc v.blocks g) o := by
    intro g group o room
    exact le32_congr fun i bound => same g group (o + i) (by omega)
  constructor
  · rw [size, formatted.size]
  · rw [inodeSize, formatted.inodeSize]
  · rw [superblock, formatted.log]
  · rw [superblock, formatted.numBlocks]
  · rw [superblock, formatted.numInodes]
  · rw [superblock, formatted.blocksPerGroup]
  · rw [superblock, formatted.inodesPerGroup]
  · intro g group
    exact (field g group 0 (by decide)).trans (formatted.blockBitmap g group)
  · intro g group
    exact (field g group 4 (by decide)).trans (formatted.inodeBitmap g group)
  · intro g group
    exact (field g group 8 (by decide)).trans (formatted.inodeTable g group)

/-! ### Running the group and inode functions -/

section Run
variable {G : Geometry} {v : Volume}

section
variable (formatted : Formatted G v)
include formatted

theorem Formatted.small : v.bs < 2 ^ 32 := by
  have := G.bs_le
  rw [Volume.bs, formatted.size]
  omega

section
variable (visible : Visible G.bs block) (room : offset + len ≤ G.bs)
include visible room

theorem Formatted.run_read :
    v.run (ext2ReadBlock block len offset) = .ok (slice (v.blocks block) offset len, v) := by
  have sized := formatted.size
  exact Volume.run_read formatted.small (by rwa [Volume.bs, sized]) (by rwa [Volume.bs, sized])

theorem Formatted.run_write (address : Bytes) :
    v.run (ext2WriteBlock block address len offset) =
      .ok ((), v.put block (splice (v.blocks block) offset address len)) := by
  have sized := formatted.size
  exact Volume.run_write formatted.small (by rwa [Volume.bs, sized]) (by rwa [Volume.bs, sized])

end

end

/-- Descriptors within reach are read and written at offsets without wrap-around. -/
theorem desc_offset (reaches : G.Reaches g) : u32 (g * Bgdt.size) = Bgdt.size * g := by
  have room := reaches.room
  have bound := G.bs_le
  simp only [Bgdt.size] at room ⊢
  rw [u32_of_lt (by omega), mul_comm]

theorem run_getGroupDescriptor_of_reaches (sound : G.Sound) (formatted : Formatted G v)
    (reaches : G.Reaches g) (group : g < G.groups) :
    v.run (getGroupDescriptor g) = .ok (G.desc v.blocks g, v) := by
  unfold getGroupDescriptor
  rw [run_getGlobals, formatted.size, desc_offset reaches, Geometry.desc_eq reaches]
  exact formatted.run_read (G.gdt_visible sound reaches.addressable group) reaches.room

section
variable (sound : G.Sound) (supported : G.Supported) (formatted : Formatted G v)
  (group : g < G.groups)
include sound supported formatted group

theorem run_getGroupDescriptor : v.run (getGroupDescriptor g) = .ok (G.desc v.blocks g, v) :=
  run_getGroupDescriptor_of_reaches sound formatted (supported.reaches group) group

theorem run_writeGroupDescriptor (d : Bytes) :
    v.run (writeGroupDescriptor g d) = .ok ((), G.putDesc v g d) := by
  have reaches := supported.reaches group
  unfold writeGroupDescriptor
  rw [run_getGlobals, formatted.size, desc_offset reaches]
  exact formatted.run_write (G.gdt_visible sound supported.addressable group) reaches.room d

end

theorem run_numBlockGroups (formatted : Formatted G v) :
    v.run numBlockGroups = .ok (G.groups, v) := by
  unfold numBlockGroups
  rw [run_getGlobals, formatted.numBlocks, formatted.numInodes, formatted.blocksPerGroup,
    formatted.inodesPerGroup, G.groups_of_blocks, G.groups_of_inodes, run_assert rfl,
    run_pure]

/-- The offset of an inode in its table is computed without wrap-around. -/
theorem tableOffset_lt (sound : G.Sound) (fits : G.numBlocks * G.bs ≤ 2 ^ 32)
    (inode : G.IsInode n) :
    (n - 1) % G.inodesPerGroup * G.inodeSize < 2 ^ 32 := by
  obtain ⟨k, isMeta, place, kEq⟩ := G.inodeBlock_meta inode
  have inside := sound.inside _ isMeta
  have bound : k < G.numBlocks := by
    simp only [Geometry.metaBlock] at inside
    omega
  have := Nat.mul_le_mul_right G.bs (show k + 1 ≤ G.numBlocks from bound)
  rw [add_mul] at this
  have split := div_add_mod ((n - 1) % G.inodesPerGroup * G.inodeSize) G.bs
  rw [← kEq, Nat.mul_comm] at split
  have := mod_lt ((n - 1) % G.inodesPerGroup * G.inodeSize)
    G.bs_pos
  omega

theorem run_ext2BlockContainingInode_of_reaches (sound : G.Sound) (formatted : Formatted G v)
    (inode : G.IsInode n) (reaches : G.Reaches ((n - 1) / G.inodesPerGroup)) :
    v.run (ext2BlockContainingInode n) = .ok ((G.inodeBlock n, G.inodeOffset n), v) := by
  have group := G.group_of_inode inode
  have table := tableOffset_lt sound reaches.addressable inode
  have fits := (G.inodeBlock_visible sound reaches.addressable inode).2
  have large := G.bs_ge
  have mask : G.bs - 1 = 2 ^ (10 + G.log) - 1 := by
    rw [Nat.pow_add]
    rfl
  unfold ext2BlockContainingInode
  rw [run_assert (by have := inode.1; omega), run_getGlobals]
  rw [formatted.inodesPerGroup,
    run_bind (run_getGroupDescriptor_of_reaches sound formatted reaches group)]
  rw [formatted.inodeSize, formatted.log, formatted.size, u32_of_lt table,
    formatted.inodeTable _ group, mask]
  dsimp only
  rw [Nat.and_two_pow_sub_one_eq_mod, Nat.shiftRight_eq_div_pow, add_comm G.log 10,
    show 2 ^ (10 + G.log) = G.bs by rw [Nat.pow_add]; rfl, run_pure]
  have whole : G.inodeTable ((n - 1) / G.inodesPerGroup) +
      (n - 1) % G.inodesPerGroup * G.inodeSize / G.bs = G.inodeBlock n := rfl
  rw [whole, u32_of_lt (by
    unfold Addressable at fits
    have := Nat.le_mul_of_pos_right (G.inodeBlock n) (show 0 < G.bs by omega)
    omega)]
  rfl

theorem run_ext2BlockContainingInode (sound : G.Sound) (supported : G.Supported)
    (formatted : Formatted G v) (inode : G.IsInode n) :
    v.run (ext2BlockContainingInode n) = .ok ((G.inodeBlock n, G.inodeOffset n), v) :=
  run_ext2BlockContainingInode_of_reaches sound formatted inode
    (supported.reaches (G.group_of_inode inode))

/-! ### The inode header cache -/

/-- The cached header, if there is one, is that of the inode on disk. -/
def HeaderCoherent (G : Geometry) (v : Volume) : Prop :=
  ∀ n, G.IsInode n → v.globals.lastInodeRead = n →
    ∀ i < Inode.size, v.globals.lastInode i = G.header v.blocks n i

/-- What `ext2_get_inode_header` returns and leaves: the first `sizeof(inode_t)`
bytes are those on disk; the rest is too on a miss, and zero on a hit. -/
structure HeaderRead (G : Geometry) (v : Volume) (n : Nat) (data : Bytes) (v' : Volume) : Prop where
  blocks : v'.blocks = v.blocks
  globals : ∃ lastInode, v'.globals = { v.globals with lastInode, lastInodeRead := n }
  coherent : HeaderCoherent G v'
  formatted : Formatted G v'
  data : data = if v.globals.lastInodeRead = n then
    splice zeros 0 (G.header v.blocks n) Inode.size else G.header v.blocks n

theorem run_ext2GetInodeHeader_of_reaches (sound : G.Sound) (formatted : Formatted G v)
    (coherent : HeaderCoherent G v) (inode : G.IsInode n)
    (reaches : G.Reaches ((n - 1) / G.inodesPerGroup)) :
    ∃ data v', v.run (ext2GetInodeHeader n) = .ok (data, v') ∧ HeaderRead G v n data v' := by
  unfold ext2GetInodeHeader
  rw [run_getGlobals]
  by_cases hit : v.globals.lastInodeRead = n
  · rw [if_pos hit]
    refine ⟨_, v, rfl, rfl, ⟨v.globals.lastInode, by rw [← hit]⟩, coherent, formatted, ?_⟩
    rw [if_pos hit]
    funext i
    by_cases bound : i < Inode.size
    · rw [splice_inside (by omega) (by omega), splice_inside (by omega) (by omega)]
      exact coherent n inode hit _ (by omega)
    · rw [splice_outside (by omega), splice_outside (by omega)]
  · rw [if_neg hit, run_bind (run_ext2BlockContainingInode_of_reaches sound formatted inode
      reaches), formatted.inodeSize, run_bind (formatted.run_read
      (G.inodeBlock_visible sound reaches.addressable inode) (G.inodeOffset_room n)),
      run_getGlobals, run_setGlobals]
    swap
    · exact ⟨rfl, id⟩
    refine ⟨_, _, rfl, rfl, ⟨_, rfl⟩, ?_, formatted.of_desc rfl rfl rfl fun _ _ _ _ => rfl, ?_⟩
    · intro m inode' same i bound
      subst same
      change slice (G.header v.blocks n) 0 Inode.size i = G.header v.blocks n i
      rw [slice_inside bound, zero_add]
    · rw [if_neg hit]
      rfl

theorem run_ext2GetInodeHeader (sound : G.Sound) (supported : G.Supported)
    (formatted : Formatted G v) (coherent : HeaderCoherent G v) (inode : G.IsInode n) :
    ∃ data v', v.run (ext2GetInodeHeader n) = .ok (data, v') ∧ HeaderRead G v n data v' :=
  run_ext2GetInodeHeader_of_reaches sound formatted coherent inode
    (supported.reaches (G.group_of_inode inode))

/-- The volume after `ext2_write_inode`: new bytes for one inode, which is also
dropped from the header cache. -/
def Geometry.writeHeader (G : Geometry) (v : Volume) (n : Nat) (data : Bytes) : Volume :=
  G.putHeader
    ⟨{ v.globals with
        lastInodeRead := if v.globals.lastInodeRead = n then minusOne else v.globals.lastInodeRead },
      v.blocks⟩ n data

section
variable (sound : G.Sound) (supported : G.Supported) (formatted : Formatted G v)
  (inode : G.IsInode n)
include sound supported formatted inode

theorem run_ext2WriteInode (data : Bytes) :
    v.run (ext2WriteInode n data) = .ok ((), G.writeHeader v n data) := by
  have visible := G.inodeBlock_visible sound supported.addressable inode
  unfold ext2WriteInode Geometry.writeHeader
  rw [run_getGlobals]
  by_cases hit : v.globals.lastInodeRead = n
  · rw [if_pos hit, if_pos hit, run_setGlobals]
    swap
    · exact ⟨rfl, id⟩
    have formatted' : Formatted G { v with globals := { v.globals with lastInodeRead := minusOne } } :=
      formatted.of_desc rfl rfl rfl fun _ _ _ _ => rfl
    rw [run_bind (run_ext2BlockContainingInode sound supported formatted' inode),
      formatted.inodeSize]
    exact formatted'.run_write visible (G.inodeOffset_room n) data
  · rw [if_neg hit, if_neg hit]
    rw [run_bind (run_ext2BlockContainingInode sound supported formatted inode),
      formatted.inodeSize]
    exact formatted.run_write visible (G.inodeOffset_room n) data

theorem writeHeader_formatted : Formatted G (G.writeHeader v n data) :=
  formatted.of_desc rfl rfl rfl fun _ group _ _ => by
    rw [Geometry.writeHeader, Geometry.putHeader,
      G.desc_put supported group (G.inodeBlock_ne_gdt sound inode)]

end

theorem writeHeader_coherent (sound : G.Sound) (coherent : HeaderCoherent G v)
    (inode : G.IsInode n) : HeaderCoherent G (G.writeHeader v n data) := by
  intro m inode' same i bound
  change (if v.globals.lastInodeRead = n then minusOne else v.globals.lastInodeRead) = m at same
  split at same
  · -- no inode has the number that marks the cache as empty
    have := G.numInodes_lt
    have := inode'.2
    simp only [u32Max] at same
    omega
  · have different : m ≠ n := by omega
    rw [Geometry.writeHeader, G.header_putHeader_other sound inode inode' different]
    exact coherent m inode' same i bound

end Run

/-! ### Mounted volumes -/

/-- A driver in working order on a sound volume: the cache is coherent, and the
blocks it stands for are formatted by the geometry. -/
structure Mounted (G : Geometry) (w : World) : Prop where
  sound : G.Sound
  formatted : Formatted G w.volume
  coherent : Coherent w.globals.blockByteSize (· ≠ 0) w.disk

namespace Mounted
variable {G : Geometry} {w : World}

theorem shows (mounted : Mounted G w) : Shows w w.volume := by
  refine ⟨?_, mounted.coherent, rfl⟩
  have size : w.globals.blockByteSize = G.bs := mounted.formatted.size
  rw [size]
  exact G.blockByteSize

/-- Driver code on a mounted volume does what it does on the array of blocks. -/
theorem run (mounted : Mounted G w) (ran : w.volume.run code = .ok (value, v'))
    (formatted : Formatted G v') :
    ∃ w', w.run code = .ok (value, w') ∧ Mounted G w' ∧ w'.volume = v' := by
  obtain ⟨w', ran', shows⟩ := World.run_of_volume mounted.shows ran
  exact ⟨w', ran', ⟨mounted.sound, shows.volume ▸ formatted, shows.coherent⟩, shows.volume⟩

end Mounted

end SbOS.Ext2
