import SbOS.Ext2.FileRuns
import Mathlib.Order.Interval.Finset.Nat

/-! `write_inode` on any file of a consistent volume, whoever made it.

`write_inode` takes the number of blocks a file has from its sector count, and
gives new blocks to the indices from there on. This is right when the sector
count stands for the data blocks the file has among those it needs, and if its
indirect blocks are in place only then. -/
namespace SbOS.Ext2
open Bytes PointerTree Finset

open Classical in
/-- The data blocks that a file with blocks `own` lacks for a size of `required`
blocks. -/
noncomputable def missing (own : Set FileNode) (required : Nat) : Finset Nat :=
  {i ∈ Finset.range required | FileNode.data i ∉ own}

/-- A run of `write_inode` from `w` to `w'` was correct. -/
structure WroteWell (G : Geometry) (w w' : World) (n : Nat) (own : Set FileNode)
    (loc : FileNode → Nat) (required : Nat) : Prop where
  /-- Every data block that was missing is in a block the run took from the free ones. -/
  given : ∀ i ∈ missing own required,
    G.blockUsed w.volume.blocks (G.blockOf w'.volume n (.data i)) = false ∧
      G.blockUsed w'.volume.blocks (G.blockOf w'.volume n (.data i)) = true
  /-- The run took as many blocks as the missing ones need, with the indirect
  blocks for them. -/
  taken : G.clearTotal .block w'.volume.blocks + G.blocksFor required =
    G.clearTotal .block w.volume.blocks + G.blocksFor (required - (missing own required).card)
  /-- No block of the file was replaced. -/
  spared : ∀ node ∈ own, G.blockOf w'.volume n node = loc node

/-- A write is correct: it returns, takes the blocks that are missing and no
others, replaces no block, and can be read back. -/
def WritesWell (G : Geometry) (w : World) (n : Nat) (own : Set FileNode) (loc : FileNode → Nat)
    (data : Bytes) (size position : Nat) (append : Bool) (offset : Nat) : Prop :=
  ∃ w' result w'', w.run (writeInode n data size position append) = .ok (size, w') ∧
    WroteWell G w w' n own loc (G.blocksAfter w.volume n offset size) ∧
    w'.run (readInode n size offset) = .ok (result, w'') ∧ result.count = size ∧
    result.data = slice data 0 size

/-- The sector count of a file stands for its blocks among those it needs. -/
structure Counted (G : Geometry) (v : Volume) (n : Nat) (own : Set FileNode) (required : Nat) :
    Prop where
  order : G.sectorBlocks v n ≤ required
  blocks : ∀ node ∈ Live G.capacity required, node ∈ own ↔ node ∈ Live G.capacity (G.sectorBlocks v n)

/-- Up to its sector count, a file has its indirect blocks, and null pointers to
the data blocks it does not have. -/
structure Charted (G : Geometry) (v : Volume) (n : Nat) (own : Set FileNode) : Prop where
  tables : tables (Live G.capacity (G.sectorBlocks v n)) ⊆ own
  null : ∀ i < G.sectorBlocks v n, FileNode.data i ∉ own → G.blockOf v n (.data i) = 0

section Counting
variable {G : Geometry} {v : Volume} {own : Set FileNode}

theorem mem_missing : i ∈ missing own required ↔ i < required ∧ FileNode.data i ∉ own := by
  simp [missing]

/-- Every node of a file is needed by the data block it comes first for. -/
theorem live_subset_of_data (closed : ∀ node ∈ own, ∀ above,
      FileNode.parent G.capacity node = some above → above ∈ own)
    (data : ∀ i < used, FileNode.data i ∈ own) : Live G.capacity used ⊆ own := by
  have positive := G.capacity_pos
  have inner : ∀ j, FileNode.inner j ∈ Live G.capacity used → FileNode.inner j ∈ own := by
    intro j member
    have below : 12 + G.capacity + j * G.capacity < used := member
    refine closed _ (data _ below) _ ?_
    rw [parent_double, Nat.mul_div_cancel _ positive]
  intro node member
  cases node with
  | data i => exact data i member
  | single =>
    refine closed _ (data 12 member) _ ?_
    simp only [FileNode.parent]
    rw [if_neg (by omega), if_pos (by omega)]
  | inner j => exact inner j member
  | double =>
    have first : FileNode.inner 0 ∈ Live G.capacity used := by
      simpa [Live, FileNode.first] using member
    exact closed _ (inner 0 first) _ rfl

/-- The rest of such a file lies past the blocks that it needs. -/
theorem Counted.whole (counted : Counted G v n own required) :
    own = Live G.capacity (G.sectorBlocks v n) ∪ (own \ Live G.capacity required) := by
  ext node
  by_cases live : node ∈ Live G.capacity required
  · simp [counted.blocks node live, live]
  · have : node ∉ Live G.capacity (G.sectorBlocks v n) :=
      fun had => live (live_mono counted.order had)
    simp [live, this]

end Counting

/-! ### Files whose sector count says something else -/

section Miscounted
variable {G : Geometry} {v : Volume} {own : Set FileNode} {loc : FileNode → Nat}

theorem sectorBlocks_lt (G : Geometry) (v : Volume) (n : Nat) : G.sectorBlocks v n < 2 ^ 31 := by
  have sectors : Inode.numDiskSectors (G.header v.blocks n) < 2 ^ 32 := le32_lt _ _
  have : 2 ≤ G.bs / sectorSize := by
    have := G.bs_ge
    simp only [sectorSize]
    omega
  unfold Geometry.sectorBlocks numBlocksUsed
  rw [Nat.div_lt_iff_lt_mul (by omega)]
  omega

/-- A sector count above the blocks required makes the difference wrap. -/
theorem run_writeInode_wrapped (sound : G.Sound) (supported : G.Supported)
    (consistent : Consistent G v) (inode : G.IsInode n)
    (at' : offset = if append then G.sizeOf v n else position)
    (range : max (G.sizeOf v n) (offset + size) ≤ G.maxSize)
    (more : G.blocksAfter v n offset size < G.sectorBlocks v n) (data : Bytes) :
    v.run (writeInode n data size position append) = .error (some .stackArray) := by
  obtain ⟨h, v₀, _, code⟩ := run_writeInode_eq sound consistent inode
    (supported.reaches (G.group_of_inode inode)) at' range data
  have bound := sectorBlocks_lt G v n
  have wrapped : 2 ^ 32 ≤
      blocksRequested (G.blocksAfter v n offset size) (G.sectorBlocks v n) * 4 := by
    unfold blocksRequested u32
    omega
  rw [code]
  unfold growInode
  rw [if_pos (by omega), if_pos wrapped]
  rfl

theorem File.solid_blockOf (file : File G v n own loc) : Solid G v.blocks own (G.blockOf v n) := by
  refine ⟨fun node owned => ?_, fun a ownA b ownB same => ?_⟩
  · rw [file.blockOf owned]
    exact file.solid.inUse node owned
  · rw [file.blockOf ownA, file.blockOf ownB] at same
    exact file.solid.apart ownA ownB same

theorem File.tree_charted (file : File G v n own loc) (charted : Charted G v n own) :
    Tree G v.blocks (G.header v.blocks n) (Live G.capacity (G.sectorBlocks v n) ∪ ∅)
      (G.blockOf v n) := by
  rw [Set.union_empty]
  exact ⟨pointer_stored fun _ member _ => live_closed member,
    fun table member => file.solid_blockOf.inUse table (charted.tables member),
    file.solid_blockOf.apart.mono charted.tables⟩

/-- On a charted file the allocation loop passes over what is missing below the
sector count, and takes a free block for every node from there on. -/
theorem run_writeInode_charted (sound : G.Sound) (supported : G.Supported)
    (consistent : Consistent G v) (file : File G v n own loc) (charted : Charted G v n own)
    (at' : offset = if append then G.sizeOf v n else position)
    (range : max (G.sizeOf v n) (offset + size) ≤ G.maxSize) (small : size < 2 ^ 31)
    (order : G.sectorBlocks v n ≤ G.blocksAfter v n offset size)
    (space : G.blocksFor (G.blocksAfter v n offset size) ≤
      G.clearTotal .block v.blocks + G.blocksFor (G.sectorBlocks v n)) (data : Bytes) :
    ∃ count v', v.run (writeInode n data size position append) = .ok (count, v') ∧
      (∀ i < G.sectorBlocks v n, FileNode.data i ∉ own → G.blockOf v' n (.data i) = 0) ∧
      ∀ node ∈ Live G.capacity (G.blocksAfter v n offset size),
        node ∉ Live G.capacity (G.sectorBlocks v n) →
          G.blockUsed v.blocks (G.blockOf v' n node) = false := by
  have positive := G.bs_pos
  obtain ⟨h, v₀, entries, extra, d', read, grown, full, code⟩ := run_writeInode_grown sound supported
    consistent file.inode (file.tree_charted charted) at' range order (fun _ member => member.elim)
    space data
  have null := charted.null
  have tables_own := charted.tables
  generalize required_def : G.blocksAfter v n offset size = required at *
  generalize used_def : G.sectorBlocks v n = used at *
  have fits : max (G.sizeOf v n) (offset + size) ≤ required * G.bs :=
    required_def ▸ Geometry.blocksRequired_le positive
  have few : required ≤ 12 + G.capacity * G.capacity :=
    required_def ▸ blocksRequired_le_of positive range
  have same : v₀.blocks = v.blocks := read.blocks
  have consistent₀ := read.consistent consistent
  have solid := grown.solid_among consistent₀ full own
    (show Solid G v₀.blocks own (G.blockOf v n) from same.symm ▸ file.solid_blockOf)
  have kept : ∀ i < used, FileNode.data i ∉ own → d'.loc (.data i) = 0 := by
    intro i below lacks
    rw [grown.growth.kept (.data i) (Or.inl below)]
    exact null i below lacks
  have writable : ∀ k, Covered G (offset / G.bs) (offset % G.bs) size k → d'.loc (.data k) ≠ 0 →
      Writable G required d'.loc (d'.loc (.data k)) := by
    intro k cover there
    refine solid.writable supported (fun table member => ⟨Or.inl member.1,
      fun had => tables_own ⟨had.resolve_right id, member.2⟩⟩)
      ⟨Or.inl (cover.lt (by omega)), fun had => ?_⟩
    by_contra lacks
    exact there (kept k (had.resolve_right id) lacks)
  have path := grown.growth.tree.path (n := required) Set.subset_union_left
  obtain ⟨count, v₂, ran, copied, most, _⟩ := run_storeData_until data
    (max (G.sizeOf v n) (offset + size)) sound supported
    (grown.growth.consistent sound consistent₀).formatted file.inode few path (by omega) small writable
  have path₂ : Path G v₂.blocks d'.inode required d'.loc := by
    refine path.congr fun table member => copied.frame _ fun k cover equal => ?_
    by_cases none : d'.loc (.data k) = 0
    · exact ((path.isData table member).visible supported).1 (equal ▸ none)
    · exact (writable k ⟨cover.1, by have := cover.2; omega⟩ none).noTable table member equal.symm
  have found : ∀ node ∈ Live G.capacity required, G.blockOf (G.writeHeader v₂ n (finalInode G.bs
      required (max (G.sizeOf v n) (offset + size)) d'.inode)).flushed n node = d'.loc node :=
    fun node member => (pointer_stored path₂.stored.closed).unique (stored_writeHeader file.inode
      path₂.stored path₂.isData fun i low high => finalInode_other (by omega)) member
  refine ⟨count, _, code.trans ran, fun i below lacks => ?_, fun node live new => ?_⟩
  · rw [found _ (show i < required by omega), kept i below lacks]
  · rw [found node live, ← same]
    exact (grown.growth.grows.fresh _ (grown.fresh_mem full (Or.inl live)
      fun had => new (had.resolve_right id))).2

section
variable {w : World} {position : Nat} {append : Bool} (supported : G.Supported) (mounted : Mounted G w)
  (consistent : Consistent G w.volume) (file : File G w.volume n own loc)
  (at' : offset = if append then G.sizeOf w.volume n else position)
  (range : max (G.sizeOf w.volume n) (offset + size) ≤ G.maxSize) (small : size < 2 ^ 31)
  (space : G.blocksFor (G.blocksAfter w.volume n offset size) ≤
    G.clearTotal .block w.volume.blocks + G.blocksFor (G.sectorBlocks w.volume n))
include supported mounted consistent file at' range small space

/-- Only a file whose sector count stands for its blocks is written well. -/
theorem WritesWell.counted (charted : Charted G w.volume n own)
    (well : WritesWell G w n own loc data size position append offset) :
    Counted G w.volume n own (G.blocksAfter w.volume n offset size) := by
  obtain ⟨w', _, _, ran, wrote, _⟩ := well
  have order : G.sectorBlocks w.volume n ≤ G.blocksAfter w.volume n offset size := by
    by_contra more
    have stops := Program.execute_simulates world_simulates_volume (writeInode n data size
      position append) mounted.shows
    rw [show Program.execute Volume.handle _ _ = _ from run_writeInode_wrapped mounted.sound supported
      consistent file.inode at' range (by omega) data] at stops
    have stopped : w.run (writeInode n data size position append) = .error .stackArray := stops
    rw [stopped] at ran
    contradiction
  obtain ⟨count, v', runs, holes, news⟩ := run_writeInode_charted mounted.sound supported consistent
    file charted at' range small order space data
  obtain ⟨w₁, ran₁, shows⟩ := World.run_of_volume mounted.shows runs
  have same : w' = w₁ := by
    rw [ran] at ran₁
    injection ran₁ with equal
    exact congrArg Prod.snd equal
  subst same
  rw [← shows.volume] at holes news
  -- a hole below the sector count is still there after the run
  have whole : ∀ i < G.sectorBlocks w.volume n, FileNode.data i ∈ own := by
    intro i below
    by_contra lacks
    have free := (wrote.given i (mem_missing.mpr ⟨by omega, lacks⟩)).1
    rw [holes i below lacks] at free
    have group : 0 / G.blocksPerGroup < G.groups := by
      rw [Nat.zero_div]
      exact Nat.zero_lt_of_lt (G.group_of_inode file.inode)
    exact ((consistent.reserved 0 group free).visible supported).1 rfl
  refine ⟨order, fun node live => ⟨fun owned => ?_, fun had => ?_⟩⟩
  · by_contra new
    have free := news node live new
    rw [wrote.spared node owned, (file.solid.inUse node owned).used] at free
    contradiction
  · exact live_subset_of_data file.stored.closed whole had

end

end Miscounted

end SbOS.Ext2
