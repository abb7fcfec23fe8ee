import SbOS.Ext2.BlockTree

/-! How the allocator and `ext2_allocate_block` let the tree of a file grow. -/
namespace SbOS.Ext2
open Bytes PointerTree Function Shape FileNode Set
open Volume (run run_bind run_getGlobals run_pure)
open List hiding count after

/-! ### Consistent volumes -/

/-- A volume in working order: what is marked free can be used, the counters do
not hide it, and the cached inode header is the one on disk. -/
structure Consistent (G : Geometry) (v : Volume) : Prop where
  formatted : Formatted G v
  generous : Generous G v
  reserved : ∀ b, b / G.blocksPerGroup < G.groups → G.blockUsed v.blocks b = false → G.IsData b
  coherent : HeaderCoherent G v

/-- Blocks `new` have been allocated, and of the rest of the volume only
counters and the contents of `touched` blocks have changed. -/
structure Grows (G : Geometry) (touched : Set Nat) (v : Volume) (new : List Nat) (v' : Volume) :
    Prop where
  formatted : Formatted G v'
  generous : Generous G v'
  globals : v'.globals =
    { v.globals with
      superblock := v'.globals.superblock
      superblockChanged := v'.globals.superblockChanged
      garbage := v'.globals.garbage }
  frame : ∀ b, b ≠ G.gdt → (∀ g < G.groups, b ≠ G.blockBitmap g) → b ∉ touched →
    v'.blocks b = v.blocks b
  nodup : new.Nodup
  fresh : ∀ b ∈ new, b / G.blocksPerGroup < G.groups ∧ G.blockUsed v.blocks b = false
  used : ∀ b, b / G.blocksPerGroup < G.groups →
    G.blockUsed v'.blocks b = (G.blockUsed v.blocks b || decide (b ∈ new))
  count : G.clearTotal .block v'.blocks + new.length = G.clearTotal .block v.blocks

/-- Blocks that keep their bitmap keep their bits. -/
theorem Geometry.used_congr {G : Geometry} (same : ∀ g < G.groups, blocks' (G.place kind g) =
    blocks (G.place kind g)) (inside : b / G.perGroup kind < G.groups) :
    G.used kind blocks' b = G.used kind blocks b := by
  rw [used_eq, used_eq, same _ inside]

theorem Geometry.clearTotal_congr {G : Geometry} (same : ∀ g < G.groups, blocks' (G.place kind g) =
    blocks (G.place kind g)) : G.clearTotal kind blocks' = G.clearTotal kind blocks := by
  apply Finset.sum_congr rfl
  intro g member
  rw [clearIn, clearList, same g (Finset.mem_range.mp member), clearIn, clearList]

/-- Blocks that keep descriptors and bitmaps keep the counters as they are. -/
theorem Generous.congr {G : Geometry} {v v' : Volume} (generous : Generous G v)
    (superblock : v'.globals.superblock = v.globals.superblock)
    (descs : ∀ g < G.groups, G.desc v'.blocks g = G.desc v.blocks g)
    (same : ∀ g < G.groups, v'.blocks (G.blockBitmap g) = v.blocks (G.blockBitmap g)) :
    Generous G v' := by
  constructor
  · intro g group
    rw [Geometry.clearIn, Geometry.clearList, Geometry.groupFree, descs g group]
    change (clearPositions (v'.blocks (G.blockBitmap g)) _).length ≤ _
    rw [same g group]
    exact generous.group g group
  · rw [Geometry.clearTotal_congr same, Volume.totalFree, superblock]
    exact generous.total

namespace Grows
variable {G : Geometry} {v v' v'' : Volume}

theorem refl (consistent : Consistent G v) (touched : Set Nat) : Grows G touched v [] v :=
  ⟨consistent.formatted, consistent.generous, rfl, fun _ _ _ _ => rfl, nodup_nil, by simp,
    by simp, rfl⟩

/-- An allocation, perhaps after taking an uninitialised stack array. -/
theorem of_allocated (garbage : Nat → Nat → Nat)
    (allocated : Allocated G ⟨{ v.globals with garbage }, v.blocks⟩ new v')
    (generous : Generous G v') : Grows G ∅ v new v' where
  formatted := allocated.formatted
  generous := generous
  globals := by rw [allocated.globals]
  frame b other names _ := allocated.frame b other names
  nodup := allocated.nodup
  fresh := allocated.fresh
  used := allocated.used
  count := allocated.count

/-- Writing to a block that files may use. -/
theorem put (supported : G.Supported) (consistent : Consistent G v) (isData : G.IsData b)
    (bytes : Bytes) : Grows G {b} v [] (v.put b bytes) := by
  have bitmaps : ∀ g < G.groups, (v.put b bytes).blocks (G.place .block g) =
      v.blocks (G.place .block g) :=
    fun g group => Volume.put_other v (isData.ne_place .block group).symm
  have descs : ∀ g < G.groups, G.desc (v.put b bytes).blocks g = G.desc v.blocks g :=
    fun g group => G.desc_put supported group isData.ne_gdt
  constructor
  case formatted =>
    exact consistent.formatted.of_desc rfl rfl rfl fun g group _ _ => by rw [descs g group]
  case generous => exact consistent.generous.congr rfl descs bitmaps
  case globals => rfl
  case frame =>
    intro c _ _ other
    exact Volume.put_other v other
  case nodup => exact nodup_nil
  case fresh => simp
  case used =>
    intro c inside
    have same := Geometry.used_congr bitmaps inside
    change G.used .block (v.put b bytes).blocks c = (G.used .block v.blocks c || _)
    rw [same]
    simp
  case count => rw [length_nil, add_zero, Geometry.clearTotal_congr bitmaps]

theorem mono (grows : Grows G touched v new v') (more : touched ⊆ touched') :
    Grows G touched' v new v' :=
  { grows with
    frame := fun b other names outside =>
      grows.frame b other names fun member => outside (more member) }

theorem trans (first : Grows G touched v new v') (second : Grows G touched v' new' v'') :
    Grows G touched v (new ++ new') v'' := by
  have later : ∀ b ∈ new', b ∉ new ∧ G.blockUsed v.blocks b = false := by
    intro b member
    obtain ⟨inside, clear⟩ := second.fresh b member
    rw [first.used b inside] at clear
    simpa [and_comm] using clear
  refine ⟨second.formatted, second.generous, ?_, ?_, ?_, ?_, ?_, ?_⟩
  · rw [second.globals, first.globals]
  · intro b other names out
    rw [second.frame b other names out, first.frame b other names out]
  · refine nodup_append.mpr ⟨first.nodup, second.nodup, ?_⟩
    rintro a old b young rfl
    exact (later a young).1 old
  · intro b member
    rcases mem_append.mp member with old | young
    · exact first.fresh b old
    · exact ⟨(second.fresh b young).1, (later b young).2⟩
  · intro b inside
    rw [second.used b inside, first.used b inside, Bool.or_assoc]
    simp [Bool.decide_or]
  · rw [length_append]
    have := first.count
    have := second.count
    omega

section
variable (grows : Grows G touched v new v')
include grows

/-- Blocks that files may use change only when touched. -/
theorem data_frame (isData : G.IsData b) (outside : b ∉ touched) : v'.blocks b = v.blocks b :=
  grows.frame b isData.ne_gdt (fun _ group => isData.ne_place .block group) outside

theorem dataBlock (block : G.DataBlock v.blocks b) : G.DataBlock v'.blocks b := by
  refine ⟨block.isData, ?_⟩
  rw [grows.used b (G.group_of_block block.isData.inside), block.used, Bool.true_or]

theorem new_dataBlock (consistent : Consistent G v)
    (member : b ∈ new) : G.DataBlock v'.blocks b := by
  obtain ⟨inside, clear⟩ := grows.fresh b member
  refine ⟨consistent.reserved b inside clear, ?_⟩
  rw [grows.used b inside]
  simp [member]

/-- What was in use before is not among the new blocks. -/
theorem new_ne (block : G.DataBlock v.blocks b) (member : c ∈ new) : c ≠ b := by
  rintro rfl
  have := (grows.fresh c member).2
  rw [block.used] at this
  cases this

section
variable (sound : G.Sound) (data : ∀ b ∈ touched, G.IsData b)
include sound data

theorem header (inode : G.IsInode n) : G.header v'.blocks n = G.header v.blocks n := by
  rw [Geometry.header, Geometry.header, grows.frame]
  · exact G.inodeBlock_ne_gdt sound inode
  · intro g group
    have apart : G.inodeBlock n ≠ G.place .block g := G.inodeBlock_ne_place sound inode group
    exact apart
  · exact fun member => (data _ member).ne_inodeBlock inode rfl

theorem consistent (before : Consistent G v) : Consistent G v' := by
  refine ⟨grows.formatted, grows.generous, ?_, ?_⟩
  · intro b inside clear
    apply before.reserved b inside
    rw [grows.used b inside] at clear
    simp_all
  · intro n inode cached i bound
    rw [grows.header sound data inode]
    rw [grows.globals] at cached ⊢
    exact before.coherent n inode cached i bound

end

end

end Grows

/-! ### Growing trees -/

/-- The inode has fourteen pointers. -/
theorem FileNode.slot_lt (top : parent capacity node = none) : slot capacity node < 14 := by
  cases node with
  | data i =>
    simp only [parent, slot] at top ⊢
    split at top
    · rw [if_pos ‹_›]
      omega
    · split at top <;> cases top
  | single => simp [slot]
  | double => simp [slot]
  | inner j => cases top

/-- Only the pointers of the inode matter. -/
theorem stored_of_inode (stored : Stored (fileShape capacity) (pointers blocks inode) nodes loc)
    (same : ∀ i, 40 ≤ i → i < 96 → inode' i = inode i) :
    Stored (fileShape capacity) (pointers blocks inode') nodes loc := by
  refine stored.congr fun node member => ?_
  cases parent : FileNode.parent capacity node with
  | none =>
    have low := slot_lt parent
    rw [read_root parent, read_root parent]
    apply le32_congr
    intro i bound
    change inode' (40 + 4 * FileNode.slot capacity node + i) = _
    rw [same _ (by omega) (by omega)]
    rfl
  | some above => rw [read_entry parent, read_entry parent]; rfl

/-- What matters for the tree of a file: its pointers and its indirect blocks. -/
theorem stored_congr (stored : Stored (fileShape capacity) (pointers blocks inode) nodes loc)
    (header : ∀ i, 40 ≤ i → i < 96 → inode' i = inode i)
    (same : ∀ node ∈ nodes, ∀ above, FileNode.parent capacity node = some above →
      blocks' (loc above) = blocks (loc above)) :
    Stored (fileShape capacity) (pointers blocks' inode') nodes loc := by
  refine stored_of_inode (stored.congr fun node member => ?_) header
  cases parent : FileNode.parent capacity node with
  | none => rw [read_root parent, read_root parent]; rfl
  | some above =>
    rw [read_entry parent, read_entry parent]
    simp only [pointers, same node member above parent]

theorem Solid.grows (solid : Solid G v.blocks nodes loc)
    (grows : Grows G touched v new v') : Solid G v'.blocks nodes loc :=
  ⟨fun node member => grows.dataBlock (solid.inUse node member), solid.apart⟩

namespace Tree
variable {G : Geometry} {v v' : Volume} {nodes : Set FileNode} {loc : FileNode → Nat}

/-- The parent of a node is an indirect block of the tree. -/
theorem parent_mem (tree : Tree G blocks inode nodes loc) (member : node ∈ nodes)
    (under : FileNode.parent G.capacity node = some above) : above ∈ tables nodes :=
  ⟨tree.stored.closed node member above under, parent_isTable under⟩

theorem grows (tree : Tree G v.blocks inode nodes loc) (grows : Grows G touched v new v')
    (outside : ∀ node ∈ tables nodes, loc node ∉ touched) : Tree G v'.blocks inode nodes loc := by
  refine ⟨tree.stored.congr fun node member => ?_, tree.solid.grows grows⟩
  cases parent : FileNode.parent G.capacity node with
  | none => rw [read_root parent, read_root parent]; rfl
  | some above =>
    have table := tree.parent_mem member parent
    have same := grows.data_frame (tree.solid.inUse above table).isData (outside above table)
    rw [read_entry parent, read_entry parent]
    simp only [pointers, same]

theorem of_inode (tree : Tree G blocks inode nodes loc)
    (same : ∀ i, 40 ≤ i → i < 96 → inode' i = inode i) : Tree G blocks inode' nodes loc :=
  ⟨stored_of_inode tree.stored same, tree.solid⟩

/-- The indirect blocks after one more node, in a block that may serve as one. -/
theorem solid_insert (solid : Solid G blocks (tables nodes) loc) (fresh : node ∉ nodes)
    (own : node.IsTable → G.DataBlock blocks b ∧ ∀ table ∈ tables nodes, loc table ≠ b) :
    Solid G blocks (tables (insert node nodes)) (update loc node b) := by
  have old : ∀ other ∈ tables nodes, update loc node b other = loc other :=
    fun other member => update_of_ne (ne_of_mem_of_not_mem member.1 fresh) ..
  constructor
  · rintro other ⟨rfl | member, isTable⟩
    · rw [update_self]
      exact (own isTable).1
    · rw [old other ⟨member, isTable⟩]
      exact solid.inUse other ⟨member, isTable⟩
  · rintro a ⟨rfl | member, isTable⟩ c ⟨rfl | member', isTable'⟩ same
    · rfl
    · rw [update_self, old c ⟨member', isTable'⟩] at same
      exact absurd same.symm ((own isTable).2 c ⟨member', isTable'⟩)
    · rw [update_self, old a ⟨member, isTable⟩] at same
      exact absurd same ((own isTable').2 a ⟨member, isTable⟩)
    · rw [old a ⟨member, isTable⟩, old c ⟨member', isTable'⟩] at same
      exact solid.apart ⟨member, isTable⟩ ⟨member', isTable'⟩ same

/-- A pointer of the inode is set. -/
theorem attachRoot (tree : Tree G blocks inode nodes loc) (fresh : node ∉ nodes)
    (top : FileNode.parent G.capacity node = none) (small : b < 2 ^ 32)
    (own : node.IsTable → G.DataBlock blocks b ∧ ∀ table ∈ tables nodes, loc table ≠ b) :
    Tree G blocks (put32 inode (40 + 4 * FileNode.slot G.capacity node) b) (insert node nodes)
      (update loc node b) := by
  refine ⟨?_, solid_insert tree.solid fresh own⟩
  rw [pointers_put32 blocks inode small]
  apply tree.stored.attach fresh
  · intro above under
    cases top.symm.trans under
  · rw [read_root top, Store.setRoot_root]
    exact if_pos rfl
  · intro other member
    exact read_setRoot top (ne_of_mem_of_not_mem member fresh)

/-- A pointer of an indirect block is set. -/
theorem attachEntry (tree : Tree G v.blocks inode nodes loc) (supported : G.Supported)
    (consistent : Consistent G v) (fresh : node ∉ nodes)
    (under : FileNode.parent G.capacity node = some above) (member : above ∈ nodes)
    (small : b < 2 ^ 32)
    (own : node.IsTable → G.DataBlock v.blocks b ∧ ∀ table ∈ tables nodes, loc table ≠ b) :
    Tree G (v.put (loc above) (splice (v.blocks (loc above)) (4 * FileNode.slot G.capacity node)
      (encode b) 4)).blocks inode (insert node nodes) (update loc node b) := by
  have table : above ∈ tables nodes := ⟨member, parent_isTable under⟩
  have written := Grows.put supported consistent (tree.solid.inUse above table).isData
    (splice (v.blocks (loc above)) (4 * FileNode.slot G.capacity node) (encode b) 4)
  refine ⟨?_, (solid_insert tree.solid fresh own).grows written⟩
  rw [pointers_put v inode small]
  apply tree.stored.attach fresh
  · intro above' under'
    cases under.symm.trans under'
    exact member
  · rw [read_entry under, Store.setEntry_entry]
    exact if_pos ⟨rfl, rfl⟩
  · intro other member'
    apply read_setEntry under (ne_of_mem_of_not_mem member' fresh)
    intro above' under' same
    exact tree.solid.apart (tree.parent_mem member' under') table same

end Tree

/-! ### Running the functions below `ext2_allocate_block` -/

section Run
variable {G : Geometry} {v : Volume}

/-- `get_free_block` finds a block unless none is free. -/
theorem run_getFreeBlock (sound : G.Sound) (supported : G.Supported) (consistent : Consistent G v) :
    (G.clearTotal .block v.blocks = 0 ∧ ∃ v', v.run (getFreeBlock true) = .ok (minusOne, v')) ∨
      ∃ b v', v.run (getFreeBlock true) = .ok (b, v') ∧ b ≠ minusOne ∧ Grows G ∅ v [b] v' := by
  obtain ⟨new, v', ran, allocated, generous, enough, most⟩ :=
    run_getFreeBlocks_generous sound supported consistent.formatted consistent.generous 1
  have ran' : v.run (getFreeBlock true) = .ok (new.headD minusOne, v') := by
    unfold getFreeBlock
    rw [run_bind ran, run_pure]
  cases new with
  | nil =>
    refine Or.inl ⟨?_, v', ran'⟩
    by_contra some'
    cases enough (by omega)
  | cons b rest =>
    have last : rest = [] := by
      apply eq_nil_of_length_eq_zero
      simp only [length_cons] at most
      omega
    subst last
    refine Or.inr ⟨b, v', ran', ?_, .of_allocated v.globals.garbage allocated generous⟩
    obtain ⟨inside, clear⟩ := allocated.fresh b (by simp)
    have := (consistent.reserved b inside clear).lt supported
    simp only [u32Max]
    omega

theorem run_getSinglyBlockIndex (inode : Bytes) (formatted : Formatted G v) (visible : Visible G.bs t)
    (room : k < G.capacity) :
    v.run (getSinglyBlockIndex t k) = .ok ((pointers v.blocks inode).entry t k, v) := by
  have := G.four_capacity
  unfold getSinglyBlockIndex
  rw [run_getGlobals, formatted.size, run_bind (formatted.run_read visible (by omega)),
    run_pure, le32_slice (by omega), zero_add]
  rfl

theorem run_writeToIndirectBlock (formatted : Formatted G v) (visible : Visible G.bs t) :
    v.run (writeToIndirectBlock t k b) =
      .ok ((), v.put t (splice (v.blocks t) (4 * (k % G.capacity)) (encode b) 4)) := by
  have four := G.four_capacity
  have below := Nat.mod_lt k G.capacity_pos
  have size := G.bs_le
  unfold writeToIndirectBlock
  rw [run_getGlobals, formatted.size]
  change v.run (ext2WriteBlock t (encode b) 4 (u32 (k % G.capacity * 4))) = _
  rw [u32_of_lt (by omega), mul_comm _ 4, formatted.run_write visible (by omega)]

end Run

/-! ### One more data block -/

/-- A file that grows: the volume, the inode in memory, and the blocks of the
tree. -/
structure Draft where
  volume : Volume
  inode : Bytes
  loc : FileNode → Nat

/-- From `nodes` to `nodes'`, with the blocks `new` for the added tables. -/
structure Growth (G : Geometry) (nodes : Set FileNode) (d : Draft) (new : List Nat)
    (nodes' : Set FileNode) (d' : Draft) : Prop where
  more : nodes ⊆ nodes'
  tree : Tree G d'.volume.blocks d'.inode nodes' d'.loc
  grows : Grows G {b | ∃ table ∈ tables nodes', d'.loc table = b} d.volume new d'.volume
  kept : ∀ node ∈ nodes, d'.loc node = d.loc node
  fresh : ∀ table ∈ tables nodes', table ∉ nodes → d'.loc table ∈ new
  inode : ∀ i, i < 40 ∨ 96 ≤ i → d'.inode i = d.inode i

namespace Growth
variable {G : Geometry} {d d' d'' : Draft} {nodes nodes' nodes'' : Set FileNode} {node : FileNode}
  {new : List Nat} {v' : Volume}

theorem refl (consistent : Consistent G d.volume)
    (tree : Tree G d.volume.blocks d.inode nodes d.loc) : Growth G nodes d [] nodes d :=
  ⟨Subset.rfl, tree, .refl consistent _, fun _ _ => rfl,
    fun _ member outside => absurd member.1 outside, fun _ _ => rfl⟩

theorem trans (first : Growth G nodes d new nodes' d') (second : Growth G nodes' d' new' nodes'' d'') :
    Growth G nodes d (new ++ new') nodes'' d'' := by
  refine ⟨first.more.trans second.more, second.tree, ?_, ?_, ?_, ?_⟩
  · refine (first.grows.mono ?_).trans second.grows
    rintro b ⟨table, member, rfl⟩
    exact ⟨table, ⟨second.more member.1, member.2⟩, second.kept table member.1⟩
  · intro node member
    rw [second.kept node (first.more member), first.kept node member]
  · intro table member outside
    rw [mem_append]
    by_cases old : table ∈ nodes'
    · rw [second.kept table old]
      exact Or.inl (first.fresh table ⟨old, member.2⟩ outside)
    · exact Or.inr (second.fresh table member old)
  · intro i outside
    rw [second.inode i outside, first.inode i outside]

theorem touched_isData (growth : Growth G nodes d new nodes' d') :
    ∀ b ∈ {b | ∃ table ∈ tables nodes', d'.loc table = b}, G.IsData b := by
  rintro b ⟨table, member, rfl⟩
  exact (growth.tree.solid.inUse table member).isData

theorem consistent (growth : Growth G nodes d new nodes' d') (sound : G.Sound)
    (before : Consistent G d.volume) : Consistent G d'.volume :=
  growth.grows.consistent sound growth.touched_isData before

/-- The tree after an allocation for a node that is about to join it. -/
theorem tree_allocated (tree : Tree G d.volume.blocks d.inode nodes d.loc)
    (consistent : Consistent G d.volume) (grows : Grows G ∅ d.volume new v')
    (taken : node.IsTable → b ∈ new) :
    Tree G v'.blocks d.inode nodes d.loc ∧
      (node.IsTable → G.DataBlock v'.blocks b ∧ ∀ table ∈ tables nodes, d.loc table ≠ b) := by
  refine ⟨tree.grows grows fun _ _ => notMem_empty _, fun isTable => ?_⟩
  refine ⟨grows.new_dataBlock consistent (taken isTable), fun table member => ?_⟩
  exact (grows.new_ne (tree.solid.inUse table member) (taken isTable)).symm

theorem fresh_insert (taken : node.IsTable → b ∈ new) :
    ∀ table ∈ tables (insert node nodes), table ∉ nodes →
      update d.loc node b table ∈ new := by
  rintro table ⟨rfl | member, isTable⟩ outside
  · rw [update_self]
    exact taken isTable
  · exact absurd member outside

theorem kept_insert (fresh : node ∉ nodes) :
    ∀ other ∈ nodes, update d.loc node b other = d.loc other :=
  fun _ member => update_of_ne (ne_of_mem_of_not_mem member fresh) ..

/-- An allocation alone adds no node. -/
theorem allocate (tree : Tree G d.volume.blocks d.inode nodes d.loc)
    (grows : Grows G ∅ d.volume new v') : Growth G nodes d new nodes ⟨v', d.inode, d.loc⟩ :=
  ⟨Subset.rfl, tree.grows grows fun _ _ => notMem_empty _, grows.mono (empty_subset _),
    fun _ _ => rfl, fun _ member outside => absurd member.1 outside, fun _ _ => rfl⟩

/-- A node joins at the root. -/
theorem root (node : FileNode) (tree : Tree G d.volume.blocks d.inode nodes d.loc)
    (consistent : Consistent G d.volume) (grows : Grows G ∅ d.volume new v')
    (fresh : node ∉ nodes) (top : FileNode.parent G.capacity node = none) (small : b < 2 ^ 32)
    (taken : node.IsTable → b ∈ new) :
    Growth G nodes d new (insert node nodes)
      ⟨v', put32 d.inode (40 + 4 * FileNode.slot G.capacity node) b,
        update d.loc node b⟩ := by
  obtain ⟨tree', own⟩ := tree_allocated tree consistent grows taken
  refine ⟨subset_insert _ _, tree'.attachRoot fresh top small own,
    grows.mono (empty_subset _), kept_insert fresh, fresh_insert taken, fun i outside => ?_⟩
  have := slot_lt top
  exact splice_outside (by omega)

/-- A node joins below an indirect block. -/
theorem entry (node : FileNode) (tree : Tree G d.volume.blocks d.inode nodes d.loc) (sound : G.Sound)
    (supported : G.Supported) (consistent : Consistent G d.volume)
    (grows : Grows G ∅ d.volume new v') (fresh : node ∉ nodes)
    (under : FileNode.parent G.capacity node = some above) (member : above ∈ nodes)
    (small : b < 2 ^ 32) (taken : node.IsTable → b ∈ new) :
    Growth G nodes d new (insert node nodes)
      ⟨v'.put (d.loc above) (splice (v'.blocks (d.loc above))
          (4 * FileNode.slot G.capacity node) (encode b) 4), d.inode,
        update d.loc node b⟩ := by
  obtain ⟨tree', own⟩ := tree_allocated tree consistent grows taken
  have consistent' := grows.consistent sound (by simp) consistent
  have table : above ∈ tables nodes := ⟨member, parent_isTable under⟩
  have written := Grows.put supported consistent' (tree'.solid.inUse above table).isData
    (splice (v'.blocks (d.loc above)) (4 * FileNode.slot G.capacity node) (encode b) 4)
  refine ⟨subset_insert _ _, tree'.attachEntry supported consistent' fresh under member small
    own, ?_, kept_insert fresh, fresh_insert taken, fun _ _ => rfl⟩
  have both := (grows.mono (empty_subset {d.loc above})).trans written
  rw [append_nil] at both
  refine both.mono ?_
  rintro _ rfl
  exact ⟨above, ⟨Or.inr member, table.2⟩, kept_insert fresh above member⟩

end Growth

section Allocate
variable {G : Geometry} {d : Draft} {i e : Nat} {more : Set FileNode}

/-- One more data block: its pointer is set, after those to the indirect blocks
it is the first to need. The file may have `more` blocks further on. -/
def Extended (G : Geometry) (more : Set FileNode) (d : Draft) (i e : Nat) (new : List Nat)
    (d' : Draft) : Prop :=
  d.volume.run (ext2AllocateBlock d.inode i e) = .ok (some d'.inode, d'.volume) ∧
    Growth G (Live G.capacity i ∪ more) d new (Live G.capacity (i + 1) ∪ more) d' ∧
    d'.loc (.data i) = e ∧ new.length = newTables G.capacity i

/-- The data block `i` joins, or there are too few blocks for the tables that it needs. -/
def Extends (G : Geometry) (more : Set FileNode) (d : Draft) (i e : Nat) : Prop :=
  (G.clearTotal .block d.volume.blocks < newTables G.capacity i ∧
      ∃ v', d.volume.run (ext2AllocateBlock d.inode i e) = .ok (none, v')) ∨
    ∃ new d', Extended G more d i e new d'

/-- The file has its first `i` data blocks, and the nodes `more` are further on. -/
structure Upto (G : Geometry) (more : Set FileNode) (d : Draft) (i : Nat) : Prop where
  late : ∀ node ∈ more, i < node.first G.capacity
  tree : Tree G d.volume.blocks d.inode (Live G.capacity i ∪ more) d.loc

/-- A block that is first needed now is neither among the blocks so far nor
among those further on. -/
theorem not_live_or_more (late : ∀ node ∈ more, i < node.first G.capacity)
    (now : node.first G.capacity = i) : node ∉ Live G.capacity i ∪ more := by
  rintro (early | further)
  · exact absurd early (by simp [Live, now])
  · have := late node further
    omega

theorem extended_direct (consistent : Consistent G d.volume) (upto : Upto G more d i) (low : i < 12)
    (small : e < 2 ^ 32) :
    Extended G more d i e [] ⟨d.volume, Inode.setBlockPointer d.inode i e,
      update d.loc (.data i) e⟩ := by
  have top : FileNode.parent G.capacity (.data i) = none := if_pos low
  have slot : FileNode.slot G.capacity (.data i) = i := if_pos low
  have plain : Live G.capacity (i + 1) = insert (.data i) (Live G.capacity i) :=
    live_plain (by omega) fun j => by omega
  refine ⟨?_, ?_, update_self .., ?_⟩
  · unfold ext2AllocateBlock
    rw [if_pos low, run_pure]
  · have step := Growth.root (.data i) upto.tree consistent (.refl consistent ∅)
      (not_live_or_more upto.late rfl) top small False.elim
    rw [slot, ← insert_union, ← plain] at step
    exact step
  · simp only [newTables, length_nil]
    rw [if_neg (by omega), if_neg (by omega), if_neg (by omega)]

/-- `ext2_allocate_block` beyond the single-indirect range. -/
theorem run_ext2AllocateBlock_double (consistent : Consistent G d.volume)
    (high : index < G.capacity * G.capacity) :
    d.volume.run (ext2AllocateBlock d.inode (12 + G.capacity + index) e) =
      d.volume.run (ensureDouble d.inode index >>= fun inode => match inode with
        | none => pure none
        | some inode =>
          if index % G.capacity = 0 then do
            let n ← getFreeBlock true
            if n = minusOne then
              return none
            writeToIndirectBlock (Inode.doubleIndirectBlockPointer inode) (index / G.capacity) n
            writeToIndirectBlock n index e
            return some inode
          else do
            let value ← getSinglyBlockIndex (Inode.doubleIndirectBlockPointer inode)
              (index / G.capacity)
            writeToIndirectBlock value index e
            return some inode) := by
  unfold ext2AllocateBlock
  rw [if_neg (by omega), run_getGlobals, consistent.formatted.size]
  rw [show G.bs / 4 = G.capacity from rfl]
  dsimp only
  rw [show 12 + G.capacity + index - 12 - G.capacity = index by omega, if_neg (by omega),
    G.capacity_square.1]
  exact congrArg (fun program => run program d.volume) (if_pos high)

/-- The parent and the slot of a data block in the double-indirect range. -/
theorem parent_double : FileNode.parent capacity (.data (12 + capacity + index)) =
    some (.inner (index / capacity)) := by
  simp only [FileNode.parent]
  rw [if_neg (by omega), if_neg (by omega), show 12 + capacity + index - 12 - capacity = index by
    omega]

theorem slot_double : FileNode.slot capacity (.data (12 + capacity + index)) = index % capacity := by
  simp only [FileNode.slot]
  rw [if_neg (by omega), if_neg (by omega), show 12 + capacity + index - 12 - capacity = index by
    omega]

theorem newTables_double (positive : 0 < capacity) : newTables capacity (12 + capacity + index) =
    (if index = 0 then 1 else 0) + if index % capacity = 0 then 1 else 0 := by
  unfold newTables
  rw [if_neg (by omega), show 12 + capacity + index - 12 - capacity = index by omega, zero_add]
  simp

/-- The nodes before a further indirect block joins. -/
def beforeInner (capacity : Nat) (more : Set FileNode) (j : Nat) : Set FileNode :=
  if j = 0 then insert .double (Live capacity (12 + capacity + j * capacity) ∪ more)
  else Live capacity (12 + capacity + j * capacity) ∪ more

theorem double_mem_beforeInner (positive : 0 < capacity) (j : Nat) :
    double ∈ beforeInner capacity more j := by
  unfold beforeInner
  split
  · exact Or.inl rfl
  · have := Nat.mul_pos (show 0 < j by omega) positive
    refine Or.inl ?_
    change 12 + capacity < _
    omega

theorem not_mem_beforeInner
    (late : ∀ node ∈ more, 12 + G.capacity + j * G.capacity < node.first G.capacity)
    (now : node.first G.capacity = 12 + G.capacity + j * G.capacity) (other : node ≠ .double) :
    node ∉ beforeInner G.capacity more j := by
  have outside := not_live_or_more late now
  unfold beforeInner
  split
  · exact fun member => member.elim other outside
  · exact outside

/-- All nodes once a further indirect block and the data block below it joined. -/
theorem insert_beforeInner (positive : 0 < capacity) (j : Nat) :
    insert (.data (12 + capacity + j * capacity)) (insert (.inner j) (beforeInner capacity more j)) =
      Live capacity (12 + capacity + j * capacity + 1) ∪ more := by
  unfold beforeInner
  rw [live_inner positive, insert_union, insert_union]
  congr 2
  split
  · rw [insert_union]
  · rfl

section
variable (sound : G.Sound) (supported : G.Supported) (consistent : Consistent G d.volume)
include sound supported consistent

theorem extended_single (upto : Upto G more d i) (low : 12 < i) (high : i < 12 + G.capacity)
    (small : e < 2 ^ 32) : ∃ d', Extended G more d i e [] d' := by
  obtain ⟨late, tree⟩ := upto
  have under : FileNode.parent G.capacity (.data i) = some .single := by
    simp only [FileNode.parent]
    rw [if_neg (by omega), if_pos high]
  have slot : FileNode.slot G.capacity (.data i) = i - 12 := by
    simp only [FileNode.slot]
    rw [if_neg (by omega), if_pos high]
  have member : single ∈ Live G.capacity i ∪ more := Or.inl low
  have pointer : Inode.singleIndirectBlockPointer d.inode = d.loc .single :=
    tree.stored.found .single member
  have visible := (tree.solid.inUse .single ⟨member, trivial⟩).isData.visible supported
  have plain : Live G.capacity (i + 1) = insert (.data i) (Live G.capacity i) :=
    live_plain (by omega) fun j => by omega
  have step := Growth.entry (.data i) tree sound supported consistent (.refl consistent ∅)
    (not_live_or_more late rfl) under member small False.elim
  rw [← insert_union, ← plain, slot] at step
  refine ⟨_, ?_, step, update_self .., ?_⟩
  · unfold ext2AllocateBlock
    rw [if_neg (by omega), run_getGlobals, consistent.formatted.size]
    change d.volume.run (if i - 12 < G.capacity then _ else _) = _
    rw [if_pos (by omega), if_neg (by omega), pointer,
      run_bind (run_writeToIndirectBlock consistent.formatted visible), run_pure,
      Nat.mod_eq_of_lt (show i - 12 < G.capacity by omega)]
  · simp only [newTables, length_nil]
    rw [if_neg (by omega), if_neg (by omega), if_neg (by omega)]

/-- The first block found through the single-indirect block needs that block. -/
theorem extended_single_first (upto : Upto G more d 12) (small : e < 2 ^ 32) :
    Extends G more d 12 e := by
  obtain ⟨late, tree⟩ := upto
  have positive := G.capacity_pos
  have one : newTables G.capacity 12 = 1 := by
    simp [newTables, Nat.pos_iff_ne_zero.mp positive]
  have code : d.volume.run (ext2AllocateBlock d.inode 12 e) =
      d.volume.run (getFreeBlock true >>= fun n =>
        if n = minusOne then pure none
        else writeToIndirectBlock n 0 e >>= fun _ =>
          pure (some (Inode.setSingleIndirect d.inode n))) := by
    unfold ext2AllocateBlock
    rw [if_neg (by omega), run_getGlobals, consistent.formatted.size]
    exact congrArg d.volume.run (if_pos positive)
  rw [Extends, one, code]
  rcases run_getFreeBlock sound supported consistent with ⟨none', v', ran⟩ | ⟨b, v', ran, some', grows⟩
  · refine Or.inl ⟨by omega, v', ?_⟩
    rw [run_bind ran, if_pos rfl, run_pure]
  · have isData := (grows.new_dataBlock consistent (mem_singleton_self b)).isData
    have first := Growth.root .single tree consistent grows (not_live_or_more late rfl) rfl
      (by have := isData.lt supported; omega) fun _ => mem_singleton_self b
    have consistent' := first.consistent sound consistent
    have under : FileNode.parent G.capacity (.data 12) = some .single := by
      simp [FileNode.parent, positive]
    have slot : FileNode.slot G.capacity (.data 12) = 0 := by simp [FileNode.slot, positive]
    have second := Growth.entry (.data 12) first.tree sound supported consistent'
      (.refl consistent' ∅)
      (by
        rintro (same | member)
        · cases same
        · exact not_live_or_more late rfl member)
      under (Or.inl rfl) small False.elim
    have both := first.trans second
    rw [← insert_union, ← insert_union, ← live_single positive, slot] at both
    refine Or.inr ⟨_, _, ?_, both, by simp only [update_self], one.symm⟩
    rw [code, run_bind ran, if_neg some', run_bind (run_writeToIndirectBlock
      grows.formatted (isData.visible supported)), run_pure, Nat.zero_mod]
    rfl

/-- The double-indirect block is taken together with the first block below it. -/
theorem run_ensureDouble (upto : Upto G more d (12 + G.capacity + j * G.capacity)) :
    (G.clearTotal .block d.volume.blocks < (if j = 0 then 1 else 0) ∧
        ∃ v', d.volume.run (ensureDouble d.inode (j * G.capacity)) = .ok (none, v')) ∨
      ∃ new d', d.volume.run (ensureDouble d.inode (j * G.capacity)) =
          .ok (some d'.inode, d'.volume) ∧
        Growth G (Live G.capacity (12 + G.capacity + j * G.capacity) ∪ more) d new
          (beforeInner G.capacity more j) d' ∧
        new.length = if j = 0 then 1 else 0 := by
  obtain ⟨late, tree⟩ := upto
  have positive := G.capacity_pos
  unfold ensureDouble beforeInner
  rcases Nat.eq_zero_or_pos j with rfl | more
  · simp only [zero_mul, if_true]
    rcases run_getFreeBlock sound supported consistent with
      ⟨none', v', ran⟩ | ⟨b, v', ran, some', grows⟩
    · refine Or.inl ⟨by omega, v', ?_⟩
      rw [run_bind ran, if_pos rfl, run_pure]
    · have isData := (grows.new_dataBlock consistent (mem_singleton_self b)).isData
      have first := Growth.root .double tree consistent grows
        (not_live_or_more late (by simp [FileNode.first])) rfl
        (by have := isData.lt supported; omega) fun _ => mem_singleton_self b
      rw [zero_mul] at first
      refine Or.inr ⟨_, _, ?_, first, rfl⟩
      rw [run_bind ran, if_neg some', run_pure]
      rfl
  · have nonzero : j ≠ 0 := by omega
    have nonzero' : j * G.capacity ≠ 0 := Nat.mul_ne_zero nonzero (by omega)
    rw [if_neg nonzero', if_neg nonzero, if_neg nonzero]
    exact Or.inr ⟨[], d, run_pure _, .refl consistent tree, rfl⟩

/-- The first block found through a further indirect block needs that block,
and the very first needs the double-indirect block too. -/
theorem extended_inner_first (high : j < G.capacity)
    (upto : Upto G more d (12 + G.capacity + j * G.capacity)) (small : e < 2 ^ 32) :
    Extends G more d (12 + G.capacity + j * G.capacity) e := by
  have late := upto.late
  have positive := G.capacity_pos
  have inside : j * G.capacity < G.capacity * G.capacity := Nat.mul_lt_mul_of_pos_right high positive
  have quotient : j * G.capacity / G.capacity = j := Nat.mul_div_cancel _ positive
  have rest : j * G.capacity % G.capacity = 0 := Nat.mul_mod_left _ _
  have count : newTables G.capacity (12 + G.capacity + j * G.capacity) =
      (if j = 0 then 1 else 0) + 1 := by
    rw [newTables_double positive, rest, if_pos rfl]
    congr 1
    simp [Nat.pos_iff_ne_zero.mp positive]
  rw [Extends, count, run_ext2AllocateBlock_double consistent inside]
  rcases run_ensureDouble sound supported consistent upto with
    ⟨few, v', ran⟩ | ⟨new, d', ran, first, length⟩
  · refine Or.inl ⟨by omega, v', ?_⟩
    rw [run_bind ran, run_pure]
  have consistent' := first.consistent sound consistent
  have free := first.grows.count
  rcases run_getFreeBlock sound supported consistent' with
    ⟨none', v', ran'⟩ | ⟨b, v', ran', some', grows⟩
  · refine Or.inl ⟨by omega, v', ?_⟩
    rw [run_bind ran]
    dsimp only
    rw [rest, if_pos rfl, run_bind ran', if_pos rfl, run_pure]
  · have isData := (grows.new_dataBlock consistent' (mem_singleton_self b)).isData
    have second := Growth.entry (.inner j) first.tree sound supported consistent' grows
      (not_mem_beforeInner late rfl (by simp)) rfl (double_mem_beforeInner positive j)
      (by have := isData.lt supported; omega) fun _ => mem_singleton_self b
    have consistent'' := second.consistent sound consistent'
    have doubleIn : double ∈ beforeInner G.capacity more j :=
      double_mem_beforeInner positive j
    have visible := (first.tree.solid.inUse .double ⟨doubleIn, trivial⟩).isData.visible supported
    have pointer : Inode.doubleIndirectBlockPointer d'.inode = d'.loc .double :=
      first.tree.stored.found .double doubleIn
    have under : FileNode.parent G.capacity (.data (12 + G.capacity + j * G.capacity)) =
        some (.inner j) := by rw [parent_double, quotient]
    have third := Growth.entry (.data (12 + G.capacity + j * G.capacity)) second.tree sound supported
      consistent'' (.refl consistent'' ∅)
      (by
        rintro (same | member)
        · cases same
        · exact not_mem_beforeInner late rfl (by simp) member)
      under (Or.inl rfl) small False.elim
    have all := (first.trans second).trans third
    rw [insert_beforeInner positive, slot_double, rest] at all
    refine Or.inr ⟨_, _, ?_, all, by simp only [update_self], ?_⟩
    · simp only [update_self]
      have last : run (writeToIndirectBlock b (j * G.capacity) e)
          (v'.put (d'.loc .double) (splice (v'.blocks (d'.loc .double)) (4 * j) (encode b) 4)) = _ :=
        run_writeToIndirectBlock consistent''.formatted (isData.visible supported)
      rw [run_ext2AllocateBlock_double consistent inside, run_bind ran]
      dsimp only
      rw [rest, if_pos rfl, run_bind ran', if_neg some', pointer, quotient,
        run_bind (run_writeToIndirectBlock grows.formatted visible), Nat.mod_eq_of_lt high,
        run_bind last, run_pure, rest]
      rfl
    · rw [count]
      simp [length]

theorem extended_inner (high : index < G.capacity * G.capacity) (inner : index % G.capacity ≠ 0)
    (upto : Upto G more d (12 + G.capacity + index)) (small : e < 2 ^ 32) :
    ∃ d', Extended G more d (12 + G.capacity + index) e [] d' := by
  obtain ⟨late, tree⟩ := upto
  have positive := G.capacity_pos
  have whole := Nat.div_add_mod index G.capacity
  rw [mul_comm] at whole
  have quotient := Nat.div_lt_of_lt_mul high
  have doubleIn : double ∈ Live G.capacity (12 + G.capacity + index) ∪ more := by
    refine Or.inl ?_
    change 12 + G.capacity < _
    omega
  have innerIn : FileNode.inner (index / G.capacity) ∈
      Live G.capacity (12 + G.capacity + index) ∪ more := by
    refine Or.inl ?_
    change 12 + G.capacity + index / G.capacity * G.capacity < _
    omega
  have pointer : Inode.doubleIndirectBlockPointer d.inode = d.loc .double :=
    tree.stored.found .double doubleIn
  have pointer' : (pointers d.volume.blocks d.inode).entry (d.loc .double) (index / G.capacity) =
      d.loc (.inner (index / G.capacity)) := tree.stored.found _ innerIn
  have visible := (tree.solid.inUse .double ⟨doubleIn, trivial⟩).isData.visible supported
  have visible' := (tree.solid.inUse _ ⟨innerIn, trivial⟩).isData.visible supported
  have plain : Live G.capacity (12 + G.capacity + index + 1) =
      insert (.data (12 + G.capacity + index)) (Live G.capacity (12 + G.capacity + index)) := by
    refine live_plain (by omega) fun j same => inner ?_
    rw [show index = j * G.capacity by omega, Nat.mul_mod_left]
  have step := Growth.entry (.data (12 + G.capacity + index)) tree sound supported consistent
    (.refl consistent ∅) (not_live_or_more late rfl) parent_double innerIn small False.elim
  rw [← insert_union, ← plain, slot_double] at step
  refine ⟨_, ?_, step, update_self .., ?_⟩
  · have ensured : d.volume.run (ensureDouble d.inode index) = .ok (some d.inode, d.volume) := by
      unfold ensureDouble
      rw [if_neg (by rintro rfl; exact inner (Nat.zero_mod _)), run_pure]
    rw [run_ext2AllocateBlock_double consistent high, run_bind ensured]
    dsimp only
    rw [if_neg inner, pointer, run_bind (run_getSinglyBlockIndex d.inode
      consistent.formatted visible quotient), pointer',
      run_bind (run_writeToIndirectBlock consistent.formatted visible'), run_pure]
  · rw [newTables_double positive, if_neg inner, if_neg (by rintro rfl; exact inner (Nat.zero_mod _))]
    rfl

/-- `ext2_allocate_block` on the next data block of a file: it sets the
pointers, or gives up for want of indirect blocks. -/
theorem run_ext2AllocateBlock (range : i < 12 + G.capacity + G.capacity * G.capacity)
    (upto : Upto G more d i) (small : e < 2 ^ 32) : Extends G more d i e := by
  rcases lt_trichotomy i 12 with low | rfl | beyond
  · exact Or.inr ⟨_, _, extended_direct consistent upto low small⟩
  · exact extended_single_first sound supported consistent upto small
  rcases lt_or_ge i (12 + G.capacity) with low | high
  · exact Or.inr ⟨_, extended_single sound supported consistent upto beyond low small⟩
  obtain ⟨index, rfl⟩ := Nat.exists_eq_add_of_le high
  have inside : index < G.capacity * G.capacity := by omega
  by_cases boundary : index % G.capacity = 0
  · obtain ⟨j, rfl⟩ := Nat.dvd_of_mod_eq_zero boundary
    rw [mul_comm G.capacity j] at upto inside ⊢
    exact extended_inner_first sound supported consistent (Nat.lt_of_mul_lt_mul_right inside) upto
      small
  · exact Or.inr ⟨_, extended_inner sound supported consistent inside boundary upto small⟩

end

/-- The allocation loop of `write_inode`: every data block gets its entry of the
array, or the assertion on `ext2_allocate_block` fails. -/
theorem run_allocateBlocks (sound : G.Sound) (supported : G.Supported) (array : Nat → Nat)
    (small : ∀ k, array k < 2 ^ 32) (used : Nat) (consistent : Consistent G d.volume)
    (range : i + count ≤ 12 + G.capacity + G.capacity * G.capacity)
    (late : ∀ node ∈ more, i + count ≤ node.first G.capacity)
    (tree : Tree G d.volume.blocks d.inode (Live G.capacity i ∪ more) d.loc) :
    (G.clearTotal .block d.volume.blocks + indirectBlocks G.capacity i <
          indirectBlocks G.capacity (i + count) ∧
        d.volume.run (allocateBlocks array used (range' i count) d.inode) =
          .error (some .assertion)) ∨
      ∃ new d', d.volume.run (allocateBlocks array used (range' i count) d.inode) =
          .ok (d'.inode, d'.volume) ∧
        Growth G (Live G.capacity i ∪ more) d new (Live G.capacity (i + count) ∪ more) d' ∧
        (∀ k, i ≤ k → k < i + count → d'.loc (.data k) = array (k - used)) ∧
        new.length + indirectBlocks G.capacity i = indirectBlocks G.capacity (i + count) := by
  have positive := G.capacity_pos
  induction count generalizing i d with
  | zero =>
    exact Or.inr ⟨[], d, run_pure _, .refl consistent tree, fun k _ _ => by omega, by simp⟩
  | succ count ih =>
    have step := indirectBlocks_succ positive i
    have shift : i + (count + 1) = i + 1 + count := by omega
    have mono : indirectBlocks G.capacity (i + 1) ≤ indirectBlocks G.capacity (i + 1 + count) :=
      indirectBlocks_mono positive (by omega)
    rw [range'_succ, allocateBlocks, shift]
    rcases run_ext2AllocateBlock sound supported consistent (by omega)
      ⟨fun node member => by have := late node member; omega, tree⟩ (small (i - used)) with
      ⟨few, v', ran⟩ | ⟨new, d', ran, growth, placed, length⟩
    · refine Or.inl ⟨by omega, ?_⟩
      rw [run_bind ran, Volume.run_stop]
    · have free := growth.grows.count
      rcases ih (growth.consistent sound consistent) (by omega)
        (fun node member => by have := late node member; omega) growth.tree with
        ⟨few, ran'⟩ | ⟨new', d'', ran', growth', placed', length'⟩
      · refine Or.inl ⟨by omega, ?_⟩
        rw [run_bind ran]
        exact ran'
      · refine Or.inr ⟨new ++ new', d'', ?_, growth.trans growth', ?_, ?_⟩
        · rw [run_bind ran]
          exact ran'
        · intro k low high
          rcases Nat.eq_or_lt_of_le low with rfl | later
          · rw [growth'.kept _ (Or.inl (Nat.lt_succ_self i)), placed]
          · exact placed' k later high
        · rw [length_append]
          omega

end Allocate

/-- `get_free_blocks` and the allocation loop together. -/
structure Grown (G : Geometry) (more : Set FileNode) (d : Draft) (used required : Nat)
    (entries extra : List Nat) (d' : Draft) : Prop where
  growth : Growth G (Live G.capacity used ∪ more) d (entries ++ extra)
    (Live G.capacity required ∪ more) d'
  fresh : ∀ table ∈ tables (Live G.capacity required ∪ more), table ∉ Live G.capacity used ∪ more →
    d'.loc table ∈ extra
  placed : ∀ i, used ≤ i → i < required →
    d'.loc (.data i) = filledArray entries (d.volume.globals.garbage 0) (i - used)
  most : entries.length ≤ required - used
  count : extra.length + indirectBlocks G.capacity used = indirectBlocks G.capacity required

theorem filledArray_lt (small : ∀ b ∈ entries, b < 2 ^ 32) : filledArray entries garbage k < 2 ^ 32 := by
  unfold filledArray
  rw [getD_eq_getElem?_getD]
  cases found : entries[k]? with
  | none => exact Nat.mod_lt _ (by decide)
  | some b => exact small b (mem_of_getElem? found)

/-- `delta` is the difference as long as it is not negative. -/
theorem blocksRequested_eq (more : used ≤ required) (small : required < 2 ^ 32) :
    blocksRequested required used = required - used := by
  unfold blocksRequested u32
  omega

/-- Taking an uninitialised stack array changes nothing on the volume. -/
theorem Consistent.uninitialised (consistent : Consistent G v)
    (garbage : Nat → Nat → Nat) :
    Consistent G ⟨{ v.globals with garbage }, v.blocks⟩ where
  formatted := consistent.formatted.of_desc rfl rfl rfl fun _ _ _ _ => rfl
  generous := consistent.generous.congr rfl (fun _ _ => rfl) fun _ _ => rfl
  reserved := consistent.reserved
  coherent := consistent.coherent

theorem Volume.run_uninitialised {v : Volume} {next : (Nat → Nat) → Driver α} :
    v.run (uninitialised >>= next) = run (next (v.globals.garbage 0))
      ⟨{ v.globals with garbage := fun n => v.globals.garbage (n + 1) }, v.blocks⟩ := by
  have ran : v.run uninitialised = .ok (v.globals.garbage 0,
      ⟨{ v.globals with garbage := fun n => v.globals.garbage (n + 1) }, v.blocks⟩) := by
    unfold uninitialised
    rw [run_getGlobals, run_setGlobals]
    · rfl
    · exact ⟨rfl, id⟩
  exact run_bind ran

section Grow
variable {G : Geometry} {d : Draft} {more : Set FileNode}

/-- The first half of `write_inode` on a file whose `used` blocks are all there:
the tree reaches `required` data blocks, or the assertion on
`ext2_allocate_block` fails. -/
theorem run_growInode (sound : G.Sound) (supported : G.Supported)
    (consistent : Consistent G d.volume) (order : used ≤ required)
    (range : required ≤ 12 + G.capacity + G.capacity * G.capacity)
    (late : ∀ node ∈ more, required ≤ node.first G.capacity)
    (tree : Tree G d.volume.blocks d.inode (Live G.capacity used ∪ more) d.loc) :
    (G.clearTotal .block d.volume.blocks + used + indirectBlocks G.capacity used <
          required + indirectBlocks G.capacity required ∧
        indirectBlocks G.capacity used < indirectBlocks G.capacity required ∧
        d.volume.run (growInode d.inode used required) = .error (some .assertion)) ∨
      ∃ entries extra d', d.volume.run (growInode d.inode used required) =
          .ok (d'.inode, d'.volume) ∧ Grown G more d used required entries extra d' ∧
        (required - used ≤ G.clearTotal .block d.volume.blocks →
          entries.length = required - used) := by
  have square := G.capacity_square.2
  have low : G.capacity ≤ 2 ^ 14 := by
    have := G.bs_le
    unfold Geometry.capacity
    omega
  have delta := blocksRequested_eq order (by omega)
  unfold growInode
  rw [delta]
  rcases Nat.eq_or_lt_of_le order with rfl | less
  · rw [if_neg (by omega)]
    refine Or.inr ⟨[], [], d, run_pure _, ⟨.refl consistent tree, ?_, ?_, by simp, by simp⟩,
      by simp⟩
    · exact fun table member outside => absurd member.1 outside
    · intro i low high
      omega
  · rw [if_pos (by omega), if_neg (by omega), Volume.run_uninitialised]
    have consistent' := consistent.uninitialised fun n => d.volume.globals.garbage (n + 1)
    obtain ⟨entries, v', ran, allocated, generous, enough, most⟩ :=
      run_getFreeBlocks_generous sound supported consistent'.formatted consistent'.generous
        (required - used)
    have grows := Grows.of_allocated _ allocated generous
    have first := Growth.allocate tree grows
    have free := grows.count
    have below : ∀ b ∈ entries, b < 2 ^ 32 := fun b member => by
      have := (grows.new_dataBlock consistent member).isData.lt supported
      omega
    have whole : used + (required - used) = required := by omega
    rw [run_bind ran]
    rcases run_allocateBlocks sound supported (filledArray entries (d.volume.globals.garbage 0))
      (fun k => filledArray_lt below) used (first.consistent sound consistent)
      (show used + (required - used) ≤ _ by omega)
      (fun node member => by have := late node member; omega) first.tree
      with ⟨few, ran'⟩ | ⟨extra, d', ran', growth, placed, count⟩
    · rw [whole] at few
      change G.clearTotal .block v'.blocks + _ < _ at few
      exact Or.inl ⟨by omega, by omega, ran'⟩
    · rw [whole] at growth placed count
      refine Or.inr ⟨entries, extra, d', ran', ⟨first.trans growth, growth.fresh, placed, most,
        count⟩, enough⟩

end Grow

end SbOS.Ext2
