import SbOS.Ext2.FileContents

/-! `write_inode` and `read_inode` on a file of a consistent volume. -/
namespace SbOS.Ext2
open Bytes PointerTree List
open Volume (run_bind run_pure)

/-- The blocks of inode `n` are `own`, at `loc`. -/
structure File (G : Geometry) (v : Volume) (n : Nat) (own : Set FileNode) (loc : FileNode → Nat) :
    Prop where
  inode : G.IsInode n
  stored : Stored (fileShape G.capacity) (pointers v.blocks (G.header v.blocks n)) own loc
  solid : Solid G v.blocks own loc

theorem File.tree (file : File G v n own loc) :
    Tree G v.blocks (G.header v.blocks n) own loc :=
  ⟨file.stored, fun table member => file.solid.inUse table member.1,
    file.solid.apart.mono fun _ member => member.1⟩

namespace Geometry
variable (G : Geometry)

/-- The size of a file in bytes. -/
def sizeOf (v : Volume) (n : Nat) : Nat := Inode.fileSize (G.header v.blocks n)

/-- The number of blocks that a file's sector count amounts to. -/
def sectorBlocks (v : Volume) (n : Nat) : Nat := numBlocksUsed G.bs (G.header v.blocks n)

/-- The block of a node of a file. -/
def blockOf (v : Volume) (n : Nat) : FileNode → Nat :=
  pointer G.capacity v.blocks (G.header v.blocks n)

end Geometry

/-- The pointers on disk say where the blocks of a file are. -/
theorem File.blockOf (file : File G v n own loc) (member : node ∈ own) :
    G.blockOf v n node = loc node :=
  (pointer_stored file.stored.closed).unique file.stored member

/-! ### Inode headers in memory -/

section Headers
variable {G : Geometry} {v v' : Volume}

/-- Header fields only depend on `sizeof(inode_t)` bytes. -/
theorem fileSize_congr (same : ∀ i < Inode.size, h' i = h i) :
    Inode.fileSize h' = Inode.fileSize h := by
  simp only [Inode.size] at same
  unfold Inode.fileSize Inode.upper32Size Inode.low32Size
  rw [le32_congr fun i bound => same (108 + i) (by omega),
    le32_congr fun i bound => same (4 + i) (by omega)]

theorem numBlocksUsed_congr (same : ∀ i < Inode.size, h' i = h i) :
    numBlocksUsed bs h' = numBlocksUsed bs h := by
  simp only [Inode.size] at same
  unfold numBlocksUsed Inode.numDiskSectors
  rw [le32_congr fun i bound => same (28 + i) (by omega)]

/-- The part of a header that the driver has a structure for. -/
theorem HeaderRead.same (read : HeaderRead G v n h v') (bound : i < Inode.size) :
    h i = G.header v.blocks n i := by
  rw [read.data]
  split
  · rw [splice_inside (by omega) (by omega), Nat.sub_zero]
  · rfl

theorem HeaderRead.consistent (read : HeaderRead G v n h v') (before : Consistent G v) :
    Consistent G v' := by
  obtain ⟨lastInode, globals⟩ := read.globals
  refine ⟨read.formatted, before.generous.congr ?_ ?_ ?_, ?_, read.coherent⟩
  · rw [globals]
  · intro g _
    rw [read.blocks]
  · intro g _
    rw [read.blocks]
  · rw [read.blocks]
    exact before.reserved

theorem header_writeHeader (bound : i < Inode.size) :
    G.header (G.writeHeader v n h).blocks n i = h i := by
  have := G.inodeSize_ge
  rw [Geometry.writeHeader, G.header_putHeader_same, slice_inside (by omega), zero_add]

theorem writeHeader_other (other : b ≠ G.inodeBlock n) :
    (G.writeHeader v n h).blocks b = v.blocks b := by
  rw [Geometry.writeHeader, Geometry.putHeader, Volume.put_other _ other]

theorem Consistent.writeHeader (consistent : Consistent G v) (sound : G.Sound)
    (supported : G.Supported) (inode : G.IsInode n) (h : Bytes) :
    Consistent G (G.writeHeader v n h) := by
  have bitmaps : ∀ g < G.groups, (G.writeHeader v n h).blocks (G.place .block g) =
      v.blocks (G.place .block g) :=
    fun g group => writeHeader_other (G.inodeBlock_ne_place sound inode group).symm
  refine ⟨writeHeader_formatted sound supported consistent.formatted inode,
    consistent.generous.congr rfl (fun g group => ?_) bitmaps, fun b inside clear => ?_,
    writeHeader_coherent sound consistent.coherent inode⟩
  · rw [Geometry.writeHeader, Geometry.putHeader,
      G.desc_put supported group (G.inodeBlock_ne_gdt sound inode)]
  · have same := Geometry.used_congr bitmaps inside
    exact consistent.reserved b inside (same.symm.trans clear)

/-- `ext2_flush_writes` as the array of blocks sees it. -/
def Volume.flushed (v : Volume) : Volume :=
  { v with globals := { v.globals with superblockChanged := false } }

theorem Consistent.flushed (consistent : Consistent G v) : Consistent G v.flushed :=
  ⟨consistent.formatted.of_desc rfl rfl rfl fun _ _ _ _ => rfl,
    consistent.generous.congr rfl (fun _ _ => rfl) fun _ _ => rfl, consistent.reserved,
    consistent.coherent⟩

end Headers

/-! ### The tree after the allocation loop -/

section Grown
variable {G : Geometry} {d d' : Draft} {more : Set FileNode}

section
variable (grown : Grown G more d used required entries extra d')
  (full : entries.length = required - used) (member : node ∈ Live G.capacity required ∪ more)
  (outside : node ∉ Live G.capacity used ∪ more)
include grown full member outside

/-- With an entry for every new data block, all new nodes are in new blocks. -/
theorem Grown.new_mem :
    (∃ i, node = .data i ∧ used ≤ i ∧ entries[i - used]? = some (d'.loc node)) ∨
      node.IsTable ∧ d'.loc node ∈ extra := by
  cases node with
  | data i =>
    have low : used ≤ i := not_lt.mp fun below => outside (Or.inl below)
    have high : i < required := member.resolve_right fun further => outside (Or.inr further)
    have inside : i - used < entries.length := by omega
    refine Or.inl ⟨i, rfl, low, ?_⟩
    rw [grown.placed i low high, filledArray, getD_eq_getElem?_getD,
      List.getElem?_eq_getElem inside, Option.getD_some]
  | single | double | inner => exact Or.inr ⟨trivial, grown.fresh _ ⟨member, trivial⟩ outside⟩

theorem Grown.fresh_mem : d'.loc node ∈ entries ++ extra := by
  rw [mem_append]
  rcases grown.new_mem full member outside with ⟨i, _, _, entry⟩ | ⟨_, taken⟩
  · exact Or.inl (mem_of_getElem? entry)
  · exact Or.inr taken

end

/-- The new blocks of the grown file are its own, with those it had before. -/
theorem Grown.solid_among (grown : Grown G more d used required entries extra d')
    (consistent : Consistent G d.volume) (full : entries.length = required - used)
    (own : Set FileNode) (solid : Solid G d.volume.blocks own d.loc) :
    Solid G d'.volume.blocks {node | node ∈ Live G.capacity required ∪ more ∧
      (node ∈ Live G.capacity used ∪ more → node ∈ own)} d'.loc := by
  have grows := grown.growth.grows
  have old := grown.growth.kept
  have nodup := nodup_append.mp grows.nodup
  constructor
  · rintro node ⟨member, known⟩
    by_cases before : node ∈ Live G.capacity used ∪ more
    · rw [old node before]
      exact grows.dataBlock (solid.inUse node (known before))
    · exact grows.new_dataBlock consistent (grown.fresh_mem full member before)
  · rintro a ⟨memberA, knownA⟩ b ⟨memberB, knownB⟩ same
    by_cases beforeA : a ∈ Live G.capacity used ∪ more <;>
      by_cases beforeB : b ∈ Live G.capacity used ∪ more
    · rw [old a beforeA, old b beforeB] at same
      exact solid.apart (knownA beforeA) (knownB beforeB) same
    · rw [old a beforeA] at same
      exact absurd same.symm (grows.new_ne (solid.inUse a (knownA beforeA))
        (grown.fresh_mem full memberB beforeB))
    · rw [old b beforeB] at same
      exact absurd same (grows.new_ne (solid.inUse b (knownB beforeB))
        (grown.fresh_mem full memberA beforeA))
    · rcases grown.new_mem full memberA beforeA with ⟨i, rfl, low, entry⟩ | ⟨tableA, takenA⟩ <;>
        rcases grown.new_mem full memberB beforeB with ⟨k, rfl, low', entry'⟩ | ⟨tableB, takenB⟩
      · have inside := (List.getElem?_eq_some_iff.mp entry).1
        have equal : i - used = k - used :=
          (List.getElem?_inj inside nodup.1).mp (entry.trans (by rw [entry', same]))
        congr 1
        omega
      · exact absurd same (nodup.2.2 _ (mem_of_getElem? entry) _ takenB)
      · exact absurd same.symm (nodup.2.2 _ (mem_of_getElem? entry') _ takenA)
      · exact grown.growth.tree.solid.apart ⟨memberA, tableA⟩ ⟨memberB, tableB⟩ same

/-- All blocks of the grown file are blocks of its own. -/
theorem Grown.solid (grown : Grown G more d used required entries extra d')
    (consistent : Consistent G d.volume) (full : entries.length = required - used)
    (solid : Solid G d.volume.blocks (Live G.capacity used ∪ more) d.loc) :
    Solid G d'.volume.blocks (Live G.capacity required ∪ more) d'.loc := by
  have whole := grown.solid_among consistent full _ solid
  refine ⟨fun node member => whole.inUse node ⟨member, id⟩, fun a memberA b memberB same => ?_⟩
  exact whole.apart ⟨memberA, id⟩ ⟨memberB, id⟩ same

end Grown

/-! ### Writing -/

theorem blocksRequired_le_of (positive : 0 < b) (fits : n ≤ k * b) : blocksRequired n b ≤ k := by
  by_contra more
  have whole := Nat.div_add_mod n b
  rw [Nat.mul_comm] at whole
  unfold blocksRequired at more
  split at more
  · have := Nat.mul_le_mul_right b (show k ≤ n / b by omega)
    omega
  · have := Nat.mul_le_mul_right b (show k + 1 ≤ n / b by omega)
    rw [Nat.add_mul] at this
    omega

namespace Geometry
variable (G : Geometry)

/-- The number of blocks a file needs once `size` bytes at `offset` are written. -/
def blocksAfter (v : Volume) (n offset size : Nat) : Nat :=
  blocksRequired (max (G.sizeOf v n) (offset + size)) G.bs

/-- The largest file that `get_block` can address, in bytes. -/
def maxSize : Nat := (12 + G.capacity * G.capacity) * G.bs

/-- The number of blocks of a file with `n` data blocks, indirect blocks included. -/
def blocksFor (n : Nat) : Nat := n + indirectBlocks G.capacity n

theorem maxSize_lt : G.maxSize < 2 ^ 64 := by
  have square := G.capacity_square.2
  have size := G.bs_le
  calc (12 + G.capacity * G.capacity) * G.bs ≤ (12 + 2 ^ 28) * 65536 := by gcongr
    _ < 2 ^ 64 := by decide

end Geometry

/-- What a write of `size` bytes of `data` at `offset` does to a file with blocks
up to `used`, and `more` further on. -/
structure Wrote (G : Geometry) (more : Set FileNode) (n used required offset size : Nat)
    (data : Bytes) (v : Volume) (loc : FileNode → Nat) (new : List Nat) (v' : Volume)
    (loc' : FileNode → Nat) : Prop where
  consistent : Consistent G v'
  file : File G v' n (Live G.capacity required ∪ more) loc'
  newSize : G.sizeOf v' n = max (G.sizeOf v n) (offset + size)
  blocks : G.sectorBlocks v' n = required
  kept : ∀ node ∈ Live G.capacity used ∪ more, loc' node = loc node
  fresh : ∀ node ∈ Live G.capacity required ∪ more, node ∉ Live G.capacity used ∪ more →
    loc' node ∈ new
  contents : ∀ p < required * G.bs,
    G.contents v'.blocks loc' p = splice (G.contents v.blocks loc') offset data size p
  frame : ∀ b, G.IsData b → (∀ node ∈ Live G.capacity required ∪ more, loc' node ≠ b) →
    v'.blocks b = v.blocks b
  headers : ∀ m, G.IsInode m → m ≠ n → G.header v'.blocks m = G.header v.blocks m
  links : Inode.numHardLinks (G.header v'.blocks n) = Inode.numHardLinks (G.header v.blocks n)
  news : ∀ b ∈ new, b / G.blocksPerGroup < G.groups ∧ G.blockUsed v.blocks b = false
  marks : ∀ b, b / G.blocksPerGroup < G.groups →
    G.blockUsed v'.blocks b = (G.blockUsed v.blocks b || decide (b ∈ new))
  count : G.clearTotal .block v'.blocks + new.length = G.clearTotal .block v.blocks
  length : new.length + G.blocksFor used = G.blocksFor required

section Write
variable {G : Geometry} {v v' : Volume} {loc : FileNode → Nat} {more : Set FileNode}

/-- A volume has room for its files. -/
theorem Solid.le_numBlocks (solid : Solid G blocks (Live G.capacity n ∪ more) loc) :
    n ≤ G.numBlocks := by
  have maps : ∀ i ∈ Finset.range n, loc (.data i) ∈ Finset.range G.numBlocks := by
    intro i member
    rw [Finset.mem_range] at member ⊢
    exact (solid.inUse (.data i) (Or.inl member)).isData.inside
  have apart : Set.InjOn (fun i => loc (.data i)) (Finset.range n : Set Nat) := by
    intro i member k member' same
    rw [Finset.mem_coe, Finset.mem_range] at member member'
    have equal := solid.apart (Or.inl member) (Or.inl member') same
    injection equal
  simpa using Finset.card_le_card_of_injOn _ maps apart

/-- The sector count that `write_inode` stores stands for the blocks required. -/
theorem sectors_eq (supported : G.Supported) (few : required ≤ G.numBlocks) :
    required * (G.bs / sectorSize) % 2 ^ 32 / (G.bs / sectorSize) = required := by
  have size := G.bs_ge
  have room := supported.addressable
  have fits : required * (G.bs / sectorSize) < 2 ^ 32 := by
    have : required * (G.bs / sectorSize) * 2 ≤ required * G.bs := by
      rw [Nat.mul_assoc]
      apply Nat.mul_le_mul_left
      simp only [sectorSize]
      omega
    have := Nat.mul_le_mul_right G.bs few
    omega
  rw [Nat.mod_eq_of_lt fits, Nat.mul_div_cancel]
  simp only [sectorSize]
  omega

/-- The copy loop touches the covered blocks only. -/
theorem Copied.grows (copied : Copied G loc data done i off size v v') (supported : G.Supported)
    (consistent : Consistent G v)
    (isData : ∀ k, Covered G i off size k → G.IsData (loc (.data k))) :
    Grows G {b | ∃ k, Covered G i off size k ∧ loc (.data k) = b} v [] v' := by
  have bitmaps : ∀ g < G.groups, v'.blocks (G.place .block g) = v.blocks (G.place .block g) :=
    fun g group => copied.frame _ fun k covered => (isData k covered).ne_place .block group
  have descs : ∀ g < G.groups, G.desc v'.blocks g = G.desc v.blocks g := by
    intro g group
    rw [G.desc_eq (supported.reaches group), G.desc_eq (supported.reaches group),
      copied.frame _ fun k covered => (isData k covered).ne_gdt]
  constructor
  case formatted => exact copied.formatted
  case generous => exact consistent.generous.congr (by rw [copied.globals]) descs bitmaps
  case globals => rw [copied.globals]
  case frame =>
    intro b _ _ outside
    exact copied.frame b fun k covered same => outside ⟨k, covered, same⟩
  case nodup => exact nodup_nil
  case fresh => simp
  case used =>
    intro b inside
    have same := Geometry.used_congr bitmaps inside
    change G.used .block v'.blocks b = (G.used .block v.blocks b || _)
    rw [same]
    simp
  case count => rw [length_nil, add_zero, Geometry.clearTotal_congr bitmaps]

/-- The inode that `write_inode` writes back. -/
def finalInode (bs required fsize : Nat) (inode : Bytes) : Bytes :=
  Inode.setUpper32Size (Inode.setLow32Size (Inode.setNumDiskSectors inode
    (required * (bs / sectorSize))) fsize) (fsize / 2 ^ 32)

/-- Outside its size and its sector count the inode stays as it is. -/
theorem finalInode_other (other : (i < 4 ∨ 8 ≤ i) ∧ (i < 28 ∨ 32 ≤ i) ∧ (i < 108 ∨ 112 ≤ i)) :
    finalInode bs required fsize inode i = inode i := by
  unfold finalInode Inode.setUpper32Size Inode.setLow32Size Inode.setNumDiskSectors put32
  rw [splice_outside (by omega), splice_outside (by omega), splice_outside (by omega)]

theorem finalInode_fileSize (small : fsize < 2 ^ 64) :
    Inode.fileSize (finalInode bs required fsize inode) = fsize := by
  unfold Inode.fileSize Inode.upper32Size Inode.low32Size finalInode Inode.setUpper32Size
    Inode.setLow32Size
  rw [le32_put32_same, le32_put32_apart (by omega), le32_put32_same]
  omega

theorem finalInode_sectors : Inode.numDiskSectors (finalInode bs required fsize inode) =
    required * (bs / sectorSize) % 2 ^ 32 := by
  unfold Inode.numDiskSectors finalInode Inode.setUpper32Size Inode.setLow32Size
    Inode.setNumDiskSectors
  rw [le32_put32_apart (by omega), le32_put32_apart (by omega), le32_put32_same]

/-- The second half of `write_inode` writes up to the first null pointer. -/
theorem run_storeData_until (data : Bytes) (fsize : Nat) (sound : G.Sound)
    (supported : G.Supported) (formatted : Formatted G v)
    (inode : G.IsInode n) (range : required ≤ 12 + G.capacity * G.capacity)
    (path : Path G v.blocks h required loc) (fits : offset + size ≤ required * G.bs)
    (small : size < 2 ^ 31)
    (writable : ∀ k, Covered G (offset / G.bs) (offset % G.bs) size k → loc (.data k) ≠ 0 →
      Writable G required loc (loc (.data k))) :
    ∃ count v', v.run (storeData n h data size offset fsize required) =
        .ok (count, (G.writeHeader v' n (finalInode G.bs required fsize h)).flushed) ∧
      Copied G loc data 0 (offset / G.bs) (offset % G.bs) count v v' ∧ count ≤ size ∧
      (count < size → ∃ k, Covered G (offset / G.bs) (offset % G.bs) size k ∧
        loc (.data k) = 0) := by
  have positive := G.bs_pos
  have whole := Nat.div_add_mod' offset G.bs
  have square := G.capacity_square.2
  have start : offset / G.bs ≤ required := Nat.div_le_of_le_mul (by rw [mul_comm]; omega)
  have path' : Path G v.blocks (Inode.setNumDiskSectors h (required * (G.bs / sectorSize))) required
      loc := path.of_inode fun i low high => splice_outside (by omega)
  obtain ⟨count, v', ran, copied⟩ := run_writeBlocks_until data 0 supported range
    formatted path' (Nat.mod_lt offset positive) (by omega) (Nat.lt_succ_self size) (by omega)
    writable
  rw [zero_add] at ran
  refine ⟨count, v', ?_, copied⟩
  unfold storeData
  rw [Volume.run_getGlobals, formatted.size]
  dsimp only
  rw [u32_of_lt (by omega), run_bind ran,
    run_bind (run_ext2WriteInode sound supported copied.1.formatted inode _),
    run_bind Volume.run_flushWrites, run_pure]
  rfl

/-- The second half of `write_inode` when every block it needs is there. -/
theorem run_storeData (sound : G.Sound) (supported : G.Supported) (formatted : Formatted G v)
    (inode : G.IsInode n) (range : required ≤ 12 + G.capacity * G.capacity)
    (path : Path G v.blocks h required loc) (fits : offset + size ≤ required * G.bs)
    (small : size < 2 ^ 31)
    (writable : ∀ k, Covered G (offset / G.bs) (offset % G.bs) size k →
      Writable G required loc (loc (.data k))) :
    ∃ v', v.run (storeData n h data size offset fsize required) =
        .ok (size, (G.writeHeader v' n (finalInode G.bs required fsize h)).flushed) ∧
      Copied G loc data 0 (offset / G.bs) (offset % G.bs) size v v' := by
  obtain ⟨count, v', ran, copied, most, short⟩ := run_storeData_until data fsize sound
    supported formatted inode range path fits small fun k covered _ => writable k covered
  have full : count = size := by
    by_contra less
    obtain ⟨k, covered, null⟩ := short (by omega)
    exact (writable k covered).visible.1 null
  rw [full] at ran copied
  exact ⟨v', ran, copied⟩

/-- The sizes that `write_inode` computes, without wrap-around. -/
theorem sizeAfterWrite_eq (small : offset + size < 2 ^ 64) :
    sizeAfterWrite fsize size offset = max fsize (offset + size) := by
  unfold sizeAfterWrite
  rw [show u64 (size + offset) = offset + size by rw [add_comm]; exact Nat.mod_eq_of_lt small]
  split <;> omega

/-- `write_inode` reads the header, lets the file grow and stores the data. -/
theorem run_writeInode_eq (sound : G.Sound) (consistent : Consistent G v) (inode : G.IsInode n)
    (reaches : G.Reaches ((n - 1) / G.inodesPerGroup))
    (at' : offset = if append then G.sizeOf v n else position)
    (range : max (G.sizeOf v n) (offset + size) ≤ G.maxSize) (data : Bytes) :
    ∃ h v', HeaderRead G v n h v' ∧ v.run (writeInode n data size position append) =
      v'.run (growInode h (G.sectorBlocks v n) (G.blocksAfter v n offset size) >>= fun inode =>
        storeData n inode data size offset (max (G.sizeOf v n) (offset + size))
          (G.blocksAfter v n offset size)) := by
  obtain ⟨h, v', ran, read⟩ := run_ext2GetInodeHeader_of_reaches sound consistent.formatted
    consistent.coherent inode reaches
  refine ⟨h, v', read, ?_⟩
  have square := G.capacity_square.2
  have positive := G.bs_pos
  have bound := G.maxSize_lt
  have few := blocksRequired_le_of positive range
  have fsize : Inode.fileSize h = G.sizeOf v n := fileSize_congr fun i below => read.same below
  have used : numBlocksUsed G.bs h = G.sectorBlocks v n :=
    numBlocksUsed_congr fun i below => read.same below
  unfold writeInode
  rw [run_bind ran, Volume.run_getGlobals, read.formatted.size, fsize]
  dsimp only
  rw [used, ← at', sizeAfterWrite_eq (by omega)]
  have required : numBlocksRequired G.bs (max (G.sizeOf v n) (offset + size)) =
      G.blocksAfter v n offset size := by
    exact u32_of_lt (few.trans_lt (by omega))
  rw [required]

/-- Writing the inode back leaves the pointers in place. -/
theorem stored_writeHeader (inode : G.IsInode n)
    (stored : Stored (fileShape G.capacity) (pointers v.blocks h) nodes loc)
    (isData : ∀ table ∈ tables nodes, G.IsData (loc table))
    (same : ∀ i, 40 ≤ i → i < 96 → h' i = h i) :
    Stored (fileShape G.capacity) (pointers (G.writeHeader v n h').flushed.blocks
      (G.header (G.writeHeader v n h').flushed.blocks n)) nodes loc := by
  refine stored_congr stored (fun i low high => ?_) fun node member above parent => ?_
  · rw [← same i low high]
    exact header_writeHeader (by simp only [Inode.size]; omega)
  · have table := isData above ⟨stored.closed node member above parent, FileNode.parent_isTable parent⟩
    exact writeHeader_other (table.ne_inodeBlock inode)

/-- Writing the inode back leaves the tree in place. -/
theorem File.writeHeader (inode : G.IsInode n)
    (stored : Stored (fileShape G.capacity) (pointers v.blocks h) own loc)
    (solid : Solid G v.blocks own loc) (sound : G.Sound)
    (same : ∀ i, 40 ≤ i → i < 96 → h' i = h i) :
    File G (G.writeHeader v n h').flushed n own loc := by
  have bitmaps : ∀ g < G.groups, (G.writeHeader v n h').blocks (G.place .block g) =
      v.blocks (G.place .block g) :=
    fun g group => writeHeader_other (G.inodeBlock_ne_place sound inode group).symm
  refine ⟨inode, ?_, fun node member => ⟨(solid.inUse node member).isData, ?_⟩, solid.apart⟩
  · exact stored_writeHeader inode stored (fun table member => (solid.inUse table member.1).isData) same
  · have group := G.group_of_block (solid.inUse node member).isData.inside
    have kept := Geometry.used_congr bitmaps group
    exact kept.trans (solid.inUse node member).used

/-- What the three stages of `write_inode` amount to: growing, copying, and
writing the inode back. -/
theorem wrote_of_stages (sound : G.Sound) (supported : G.Supported) (inode : G.IsInode n)
    (read : HeaderRead G v n h v₀) (consistent₀ : Consistent G v₀)
    (grown : Grown G more ⟨v₀, h, loc⟩ used required entries extra d')
    (full : entries.length = required - used) (order : used ≤ required)
    (solid : Solid G d'.volume.blocks (Live G.capacity required ∪ more) d'.loc)
    (range : max (G.sizeOf v n) (offset + size) ≤ G.maxSize)
    (fits : offset + size ≤ required * G.bs)
    (covered : ∀ k, Covered G (offset / G.bs) (offset % G.bs) size k → k < required)
    (copied : Copied G d'.loc data 0 (offset / G.bs) (offset % G.bs) size d'.volume v₂) :
    Wrote G more n used required offset size data v loc (entries ++ extra)
      (G.writeHeader v₂ n (finalInode G.bs required (max (G.sizeOf v n) (offset + size))
        d'.inode)).flushed d'.loc := by
  have consistent₁ := grown.growth.consistent sound consistent₀
  have isData : ∀ k, Covered G (offset / G.bs) (offset % G.bs) size k → G.IsData (d'.loc (.data k)) :=
    fun k cover => (solid.inUse _ (Or.inl (covered k cover))).isData
  have grows₂ := copied.grows supported consistent₁ isData
  have untouched : ∀ node ∈ tables (Live G.capacity required ∪ more),
      d'.loc node ∉ {b | ∃ k, Covered G (offset / G.bs) (offset % G.bs) size k ∧
        d'.loc (.data k) = b} := by
    rintro node ⟨member, isTable⟩ ⟨k, cover, same⟩
    have := solid.apart (Or.inl (covered k cover)) member same
    subst this
    exact isTable
  have tree₂ := grown.growth.tree.grows grows₂ untouched
  have solid₂ := solid.grows grows₂
  have grows : Grows G {b | ∃ node ∈ Live G.capacity required ∪ more, d'.loc node = b} v₀
      (entries ++ extra) v₂ := by
    rw [← append_nil (entries ++ extra)]
    refine (grown.growth.grows.mono ?_).trans (grows₂.mono ?_)
    · rintro b ⟨table, member, rfl⟩
      exact ⟨table, member.1, rfl⟩
    · rintro b ⟨k, cover, rfl⟩
      exact ⟨.data k, Or.inl (covered k cover), rfl⟩
  have touched : ∀ b ∈ {b | ∃ node ∈ Live G.capacity required ∪ more, d'.loc node = b},
      G.IsData b := by
    rintro b ⟨node, member, rfl⟩
    exact (solid.inUse node member).isData
  have consistent₂ := grows.consistent sound touched consistent₀
  have small := range.trans_lt G.maxSize_lt
  let inode' := finalInode G.bs required (max (G.sizeOf v n) (offset + size)) d'.inode
  let v' := (G.writeHeader v₂ n inode').flushed
  have header : ∀ i < Inode.size, G.header v'.blocks n i = inode' i :=
    fun i bound => header_writeHeader bound
  have back : ∀ b, G.IsData b → v'.blocks b = v₂.blocks b :=
    fun b isData => writeHeader_other (isData.ne_inodeBlock inode)
  have bitmaps : ∀ g < G.groups, v'.blocks (G.place .block g) = v₂.blocks (G.place .block g) :=
    fun g group => writeHeader_other (G.inodeBlock_ne_place sound inode group).symm
  have same : v₀.blocks = v.blocks := read.blocks
  constructor
  case consistent => exact (consistent₂.writeHeader sound supported inode _).flushed
  case file =>
    exact .writeHeader inode tree₂.stored solid₂ sound fun i low high => finalInode_other (by omega)
  case newSize =>
    rw [Geometry.sizeOf, fileSize_congr header, finalInode_fileSize small]
  case blocks =>
    rw [Geometry.sectorBlocks, numBlocksUsed_congr header, numBlocksUsed, finalInode_sectors,
      sectors_eq supported solid.le_numBlocks]
  case kept => exact grown.growth.kept
  case fresh => exact fun node => grown.fresh_mem full
  case contents =>
    intro p below
    obtain ⟨k, o, bound, rfl, _, _⟩ := split_position G p
    have inside : k < required := Nat.lt_of_mul_lt_mul_right (a := G.bs) (by omega)
    have whole := Nat.div_add_mod' offset G.bs
    have apart : ∀ k < required, ∀ k' < required, d'.loc (.data k) = d'.loc (.data k') → k = k' := by
      intro k below k' below' equal
      have := solid.apart (Or.inl below) (Or.inl below') equal
      injection this
    have block := solid.inUse (.data k) (Or.inl inside)
    have written := copied.contents_eq apart (by omega) below
    rw [whole, contents_at bound] at written
    rw [contents_at bound, back _ block.isData, written]
    -- no data block of the file is touched while it grows
    have kept : d'.volume.blocks (d'.loc (.data k)) = v.blocks (d'.loc (.data k)) := by
      rw [← same]
      refine grown.growth.grows.data_frame block.isData ?_
      rintro ⟨table, member, equal⟩
      have := solid.apart member.1 (Or.inl inside) equal
      subst this
      exact member.2
    unfold splice
    rw [contents_at bound, contents_at bound, kept]
  case frame =>
    intro b isData outside
    rw [back b isData, grows.data_frame isData fun ⟨node, member, equal⟩ => outside node member equal,
      same]
  case headers =>
    intro m inode' different
    rw [← same, ← grows.header sound touched inode']
    exact G.header_putHeader_other sound inode inode' different
  case links =>
    apply le16_congr
    intro i bound
    rw [header _ (by simp only [Inode.size]; omega),
      show inode' _ = _ from finalInode_other (by omega), grown.growth.inode _ (by omega)]
    exact read.same (by simp only [Inode.size]; omega)
  case news => exact same ▸ grows.fresh
  case marks =>
    intro b inside
    have kept := Geometry.used_congr bitmaps inside
    rw [← same, ← grows.used b inside]
    exact kept
  case count =>
    rw [Geometry.clearTotal_congr bitmaps, grows.count, same]
  case length =>
    have := grown.count
    rw [length_append]
    unfold Geometry.blocksFor
    omega

theorem Covered.lt (cover : Covered G (offset / G.bs) (offset % G.bs) size k)
    (fits : offset + size ≤ n * G.bs) : k < n := by
  have := cover.2
  have whole := Nat.div_add_mod' offset G.bs
  exact Nat.lt_of_mul_lt_mul_right (a := G.bs) (by omega)

/-- The copy loop may write to a data block among blocks of their own. -/
theorem Solid.writable (solid : Solid G blocks nodes loc) (supported : G.Supported)
    (among : tables (Live G.capacity n) ⊆ nodes) (member : .data k ∈ nodes) :
    Writable G n loc (loc (.data k)) := by
  have isData := (solid.inUse _ member).isData
  refine ⟨isData.visible supported, isData.ne_gdt, fun table below same => ?_⟩
  have equal : table = .data k := solid.apart (among below) member same
  subst equal
  exact below.2

/-- `write_inode` up to the copy loop, with enough free blocks for a tree that
has its indirect blocks up to the sector count. -/
theorem run_writeInode_grown (sound : G.Sound) (supported : G.Supported)
    (consistent : Consistent G v) (inode : G.IsInode n)
    (tree : Tree G v.blocks (G.header v.blocks n) (Live G.capacity (G.sectorBlocks v n) ∪ more) loc)
    (at' : offset = if append then G.sizeOf v n else position)
    (range : max (G.sizeOf v n) (offset + size) ≤ G.maxSize)
    (order : G.sectorBlocks v n ≤ G.blocksAfter v n offset size)
    (late : ∀ node ∈ more, G.blocksAfter v n offset size ≤ node.first G.capacity)
    (space : G.blocksFor (G.blocksAfter v n offset size) ≤
      G.clearTotal .block v.blocks + G.blocksFor (G.sectorBlocks v n)) (data : Bytes) :
    ∃ h v₀ entries extra d', HeaderRead G v n h v₀ ∧
      Grown G more ⟨v₀, h, loc⟩ (G.sectorBlocks v n) (G.blocksAfter v n offset size) entries extra d' ∧
      entries.length = G.blocksAfter v n offset size - G.sectorBlocks v n ∧
      v.run (writeInode n data size position append) = d'.volume.run (storeData n d'.inode data size
        offset (max (G.sizeOf v n) (offset + size)) (G.blocksAfter v n offset size)) := by
  obtain ⟨h, v₀, read, code⟩ := run_writeInode_eq sound consistent inode
    (supported.reaches (G.group_of_inode inode)) at' range data
  have few : G.blocksAfter v n offset size ≤ 12 + G.capacity * G.capacity :=
    blocksRequired_le_of G.bs_pos range
  have tree₀ : Tree G v₀.blocks h (Live G.capacity (G.sectorBlocks v n) ∪ more) loc := by
    rw [read.blocks]
    exact tree.of_inode fun i low high => read.same (by simp only [Inode.size]; omega)
  have free : G.clearTotal .block v₀.blocks = G.clearTotal .block v.blocks := by rw [read.blocks]
  have mono := indirectBlocks_mono G.capacity_pos order
  unfold Geometry.blocksFor at space
  rcases run_growInode (d := ⟨v₀, h, loc⟩) sound supported (read.consistent consistent) order
    (by omega) late tree₀ with ⟨lack, _⟩ | ⟨entries, extra, d', ran, grown, enough⟩
  · change G.clearTotal .block v₀.blocks + _ + _ < _ at lack
    omega
  · refine ⟨h, v₀, entries, extra, d', read, grown, enough ?_, ?_⟩
    · change _ ≤ G.clearTotal .block v₀.blocks
      omega
    · rw [code, run_bind ran]

/-- `write_inode` on a file with blocks up to its sector count, with enough free
blocks for the rest. -/
theorem run_writeInode (sound : G.Sound) (supported : G.Supported) (consistent : Consistent G v)
    (file : File G v n (Live G.capacity (G.sectorBlocks v n) ∪ more) loc)
    (at' : offset = if append then G.sizeOf v n else position)
    (range : max (G.sizeOf v n) (offset + size) ≤ G.maxSize) (small : size < 2 ^ 31)
    (order : G.sectorBlocks v n ≤ G.blocksAfter v n offset size)
    (late : ∀ node ∈ more, G.blocksAfter v n offset size ≤ node.first G.capacity)
    (space : G.blocksFor (G.blocksAfter v n offset size) ≤
      G.clearTotal .block v.blocks + G.blocksFor (G.sectorBlocks v n)) (data : Bytes) :
    ∃ new v' loc', v.run (writeInode n data size position append) = .ok (size, v') ∧
      Wrote G more n (G.sectorBlocks v n) (G.blocksAfter v n offset size) offset size data v loc new
        v' loc' := by
  have positive := G.bs_pos
  obtain ⟨h, v₀, entries, extra, d', read, grown, full, code⟩ := run_writeInode_grown sound supported
    consistent file.inode file.tree at' range order late space data
  generalize required_def : G.blocksAfter v n offset size = required at *
  generalize used_def : G.sectorBlocks v n = used at *
  have fits : max (G.sizeOf v n) (offset + size) ≤ required * G.bs :=
    required_def ▸ Geometry.blocksRequired_le positive
  have few : required ≤ 12 + G.capacity * G.capacity :=
    required_def ▸ blocksRequired_le_of positive range
  have consistent₀ := read.consistent consistent
  have solid₀ : Solid G v₀.blocks (Live G.capacity used ∪ more) loc := by
    rw [read.blocks]
    exact file.solid
  have solid := grown.solid consistent₀ full solid₀
  have consistent₁ := grown.growth.consistent sound consistent₀
  have covered : ∀ k, Covered G (offset / G.bs) (offset % G.bs) size k → k < required :=
    fun k cover => cover.lt (by omega)
  have writable : ∀ k, Covered G (offset / G.bs) (offset % G.bs) size k →
      Writable G required d'.loc (d'.loc (.data k)) :=
    fun k cover => solid.writable supported (fun _ member => Or.inl member.1)
      (Or.inl (covered k cover))
  obtain ⟨v₂, ran₂, copied⟩ : ∃ v', d'.volume.run (storeData n d'.inode data size offset
      (max (G.sizeOf v n) (offset + size)) required) = .ok (size, (G.writeHeader v' n
        (finalInode G.bs required (max (G.sizeOf v n) (offset + size)) d'.inode)).flushed) ∧
      Copied G d'.loc data 0 (offset / G.bs) (offset % G.bs) size d'.volume v' :=
    run_storeData sound supported consistent₁.formatted file.inode few
      (grown.growth.tree.path Set.subset_union_left) (by omega) small writable
  have wrote := wrote_of_stages sound supported file.inode read consistent₀ grown full order solid
    range (by omega) covered copied
  refine ⟨_, _, _, ?_, wrote⟩
  rw [code, ran₂]

end Write

/-! ### Reading -/

theorem fileSize_lt (h : Bytes) : Inode.fileSize h < 2 ^ 64 := by
  have := le32_lt h 108
  have := le32_lt h 4
  unfold Inode.fileSize Inode.upper32Size Inode.low32Size
  omega

/-- `read_inode` clips a length at the end of the file. -/
theorem clippedLength_eq (inside : offset ≤ fsize) (fits : fsize < 2 ^ 64) (small : size < 2 ^ 64) :
    clippedLength fsize size offset = min size (fsize - offset) := by
  unfold clippedLength u64
  split
  · omega
  · omega

section Read
variable {G : Geometry} {v : Volume} {loc : FileNode → Nat} {more : Set FileNode}

/-- `read_inode` returns the contents of the file, up to its end; what it cannot
find through the tree must be a hole. -/
theorem run_readInode (sound : G.Sound) (supported : G.Supported) (consistent : Consistent G v)
    (hidden : v.blocks 0 = zeros) (inode : G.IsInode n)
    (path : Path G v.blocks (G.header v.blocks n) reach loc)
    (isData : ∀ k < reach, loc (.data k) = 0 ∨ G.IsData (loc (.data k)))
    (range : reach ≤ 12 + G.capacity * G.capacity) (full : G.sizeOf v n ≤ reach * G.bs)
    (size_lt : size < 2 ^ 64) (small : min size (G.sizeOf v n - offset) < 2 ^ 31) :
    ∃ v', v.run (readInode n size offset) =
        .ok (⟨min size (G.sizeOf v n - offset), slice (G.contents v.blocks loc) offset
          (min size (G.sizeOf v n - offset)), G.sizeOf v n⟩, v') ∧
      v'.blocks = v.blocks ∧ Consistent G v' := by
  obtain ⟨h, v', ran, read⟩ := run_ext2GetInodeHeader sound supported consistent.formatted
    consistent.coherent inode
  have positive := G.bs_pos
  have fsize : Inode.fileSize h = G.sizeOf v n := fileSize_congr fun i below => read.same below
  have whole := Nat.div_add_mod' offset G.bs
  have square := G.capacity_square.2
  have path' : Path G v'.blocks h reach loc := by
    rw [read.blocks]
    exact path.of_inode fun i low high => read.same (by simp only [Inode.size]; omega)
  have visible : ∀ k < reach, loc (.data k) = 0 ∨ Visible G.bs (loc (.data k)) :=
    fun k below => (isData k below).imp_right fun isData => isData.visible supported
  unfold readInode
  rw [run_bind ran, Volume.run_getGlobals, read.formatted.size, fsize]
  dsimp only
  refine ⟨v', ?_, read.blocks, read.consistent consistent⟩
  by_cases past : G.sizeOf v n < offset
  · -- whatever the length is clipped to, nothing is read past the end
    rw [if_pos past, ite_self, run_pure, Nat.sub_eq_zero_of_le past.le,
      Nat.min_zero, slice_zero]
  have inside : offset ≤ G.sizeOf v n := not_lt.mp past
  have start : offset / G.bs ≤ reach := Nat.div_le_of_le_mul (by rw [mul_comm]; omega)
  rw [clippedLength_eq inside (fileSize_lt _) size_lt]
  by_cases none' : min size (G.sizeOf v n - offset) = 0
  · rw [none', if_pos rfl, run_pure, slice_zero]
  · rw [if_neg none', if_neg past, u32_of_lt (by omega)]
    have copied := run_readBlocks supported range read.formatted path' (by rw [read.blocks, hidden])
      (Nat.mod_lt offset positive)
      (show offset / G.bs * G.bs + offset % G.bs + min size (G.sizeOf v n - offset) ≤ _ by omega)
      (Nat.lt_succ_self _) (show 0 + min size (G.sizeOf v n - offset) < _ by omega) visible zeros
    rw [run_bind copied, run_pure, whole, read.blocks, zero_add]
    congr 3
    funext j
    dsimp only
    by_cases bound : j < min size (G.sizeOf v n - offset)
    · rw [splice_inside (by omega) (by omega), slice_inside bound, skip_apply, Nat.sub_zero]
    · rw [splice_outside (by omega), slice_outside (by omega), zeros_apply]

/-- Reading after a write. -/
theorem Wrote.run_readInode
    (wrote : Wrote G more n used (G.blocksAfter v n offset size) offset size data v loc new v' loc')
    (sound : G.Sound) (supported : G.Supported) (hidden : v'.blocks 0 = zeros)
    (range : max (G.sizeOf v n) (offset + size) ≤ G.maxSize) (len_lt : len < 2 ^ 64)
    (small : min len (G.sizeOf v' n - start) < 2 ^ 31) :
    ∃ v'', v'.run (readInode n len start) =
        .ok (⟨min len (G.sizeOf v' n - start), slice (G.contents v'.blocks loc') start
          (min len (G.sizeOf v' n - start)), G.sizeOf v' n⟩, v'') ∧
      v''.blocks = v'.blocks ∧ Consistent G v'' := by
  have positive := G.bs_pos
  refine Ext2.run_readInode sound supported wrote.consistent hidden wrote.file.inode
    (wrote.file.tree.path Set.subset_union_left)
    (fun k below => Or.inr (wrote.file.solid.inUse (.data k) (Or.inl below)).isData)
    (blocksRequired_le_of positive range) ?_ len_lt small
  rw [wrote.newSize]
  exact Geometry.blocksRequired_le positive

end Read

end SbOS.Ext2
