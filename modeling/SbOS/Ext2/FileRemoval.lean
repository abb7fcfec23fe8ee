import SbOS.Ext2.FileRuns

/-! Deleting a file. `remove_inode` walks over the blocks of a file through the
numbering of `get_from_all_blocks`, in which indirect blocks have numbers of
their own, but stops at the number of data blocks. -/
namespace SbOS.Ext2
open Bytes PointerTree Volume List
open FileNode (first parent)

/-- The block that has number `k` in `get_from_all_blocks`. -/
def enumerated (capacity k : Nat) : FileNode :=
  if k < 12 then .data k
  else if k = 12 then .single
  else if k < 13 + capacity then .data (k - 1)
  else if k = 13 + capacity then .double
  else if (k - 14 - capacity) % capacity = 0 then .inner ((k - 14 - capacity) / capacity)
  else .data (k - 3)

/-- The numbers below the number of data blocks lead to blocks of the file. -/
theorem enumerated_live (below : k < n) : enumerated capacity k ∈ Live capacity n := by
  unfold enumerated
  split
  · exact below
  split
  · exact Nat.lt_of_le_of_lt (by simp [first]; omega) below
  split
  · exact Nat.lt_of_le_of_lt (by simp [first]) below
  split
  · exact Nat.lt_of_le_of_lt (by simp [first]; omega) below
  split
  · have := Nat.div_mul_le_self (k - 14 - capacity) capacity
    exact Nat.lt_of_le_of_lt (by simp only [first]; omega) below
  · exact Nat.lt_of_le_of_lt (by simp [first]) below

/-- The last data block of a file with indirect blocks is not reached. -/
theorem enumerated_ne_last (below : k < n) (indirect : 12 < n) :
    enumerated capacity k ≠ .data (n - 1) := by
  unfold enumerated
  split_ifs <;> simp <;> omega

section Run
variable {G : Geometry} {v v' : Volume} {loc : FileNode → Nat}

section
variable (supported : G.Supported) (formatted : Formatted G v) (path : Path G v.blocks inode n loc)
include supported formatted path

/-- An entry of an indirect block of the file. -/
theorem run_tableEntry (member : node ∈ Live G.capacity n)
    (under : parent G.capacity node = some table)
    (room : FileNode.slot G.capacity node < G.capacity) :
    v.run (getSinglyBlockIndex (loc table) (FileNode.slot G.capacity node)) =
      .ok (loc node, v) := by
  have isData := path.isData table ⟨live_closed member under, FileNode.parent_isTable under⟩
  rw [run_getSinglyBlockIndex inode formatted (isData.visible supported) room,
    ← path.stored.found node member, Shape.read_entry under]
  rfl

/-- The entry that `get_from_all_blocks` looks up behind the double-indirect
block: each indirect block is followed by all of its entries but the last. -/
theorem run_innerEntry (range : n ≤ 12 + G.capacity * G.capacity)
    (below : 14 + G.capacity + m < n) :
    v.run (do
      let singlyEntry ← getSinglyBlockIndex (loc .double) (m / G.capacity)
      let offsetInEntry := m % G.capacity
      if offsetInEntry = 0 then
        return singlyEntry
      getSinglyBlockIndex singlyEntry (offsetInEntry - 1)) =
      .ok (loc (if m % G.capacity = 0 then .inner (m / G.capacity)
        else .data (11 + G.capacity + m)), v) := by
  have positive := G.capacity_pos
  have innerIn : FileNode.inner (m / G.capacity) ∈ Live G.capacity n := by
    have := Nat.div_mul_le_self m G.capacity
    exact Nat.lt_of_le_of_lt (by simp only [first]; omega) below
  have room : FileNode.slot G.capacity (.inner (m / G.capacity)) < G.capacity :=
    Nat.div_lt_of_lt_mul (by omega)
  have inner := run_tableEntry supported formatted path innerIn rfl room
  change v.run (getSinglyBlockIndex (loc .double) (m / G.capacity)) = _ at inner
  rw [run_bind inner]
  by_cases head : m % G.capacity = 0
  · rw [if_pos head, if_pos head]
    rfl
  · have whole := Nat.div_add_mod m G.capacity
    have small := Nat.mod_lt m positive
    have entry : 11 + G.capacity + m = 12 + G.capacity + (m - 1) := by omega
    have split : m - 1 = G.capacity * (m / G.capacity) + (m % G.capacity - 1) := by omega
    have quotient : (m - 1) / G.capacity = m / G.capacity := by
      rw [split, Nat.mul_add_div positive, Nat.div_eq_of_lt (show m % G.capacity - 1 < G.capacity by
        omega), add_zero]
    have remainder : (m - 1) % G.capacity = m % G.capacity - 1 := by
      rw [split, Nat.mul_add_mod, Nat.mod_eq_of_lt (by omega)]
    have under : parent G.capacity (.data (11 + G.capacity + m)) =
        some (.inner (m / G.capacity)) := by
      rw [entry, parent_double, quotient]
    have slot : FileNode.slot G.capacity (.data (11 + G.capacity + m)) = m % G.capacity - 1 := by
      rw [entry, slot_double, remainder]
    have member : FileNode.data (11 + G.capacity + m) ∈ Live G.capacity n :=
      Nat.lt_of_le_of_lt (by simp only [first]; omega) below
    rw [if_neg head, if_neg head, ← slot]
    exact run_tableEntry supported formatted path member under (by omega)

/-- `get_from_all_blocks` on a file whose blocks can be found. -/
theorem run_getFromAllBlocks (range : n ≤ 12 + G.capacity * G.capacity)
    (below : k < n) :
    v.run (getFromAllBlocks inode k) = .ok (loc (enumerated G.capacity k), v) := by
  have member : enumerated G.capacity k ∈ Live G.capacity n := enumerated_live below
  unfold getFromAllBlocks
  unfold enumerated at member ⊢
  by_cases direct : k < 12
  · rw [if_pos direct] at member ⊢
    have found := path.stored.found _ member
    rw [Shape.read_root (show parent G.capacity (.data k) = none from if_pos direct)] at found
    have slot : FileNode.slot G.capacity (.data k) = k := if_pos direct
    rw [if_pos direct, run_pure, ← found]
    change _ = Except.ok (le32 inode (40 + 4 * FileNode.slot G.capacity (.data k)), v)
    rw [slot]
    rfl
  rw [if_neg direct] at member ⊢
  rw [if_neg direct, run_getGlobals, formatted.size]
  rw [show G.bs / 4 = G.capacity from rfl]
  by_cases single : k = 12
  · rw [if_pos single] at member ⊢
    have pointer : Inode.singleIndirectBlockPointer inode = loc .single :=
      path.stored.found .single member
    rw [if_pos (by omega), pointer]
    rfl
  rw [if_neg single] at member ⊢
  rw [if_neg (by omega)]
  by_cases low : k < 13 + G.capacity
  · rw [if_pos low] at member ⊢
    have under : parent G.capacity (.data (k - 1)) = some .single := by
      simp only [parent]
      rw [if_neg (by omega), if_pos (by omega)]
    have slot : FileNode.slot G.capacity (.data (k - 1)) = k - 12 - 1 := by
      simp only [FileNode.slot]
      rw [if_neg (by omega), if_pos (by omega)]
      omega
    have pointer : Inode.singleIndirectBlockPointer inode = loc .single :=
      path.stored.found .single (live_closed member under)
    rw [if_pos (by omega), pointer, ← slot]
    exact run_tableEntry supported formatted path member under (by omega)
  rw [if_neg low, if_neg (by omega), G.capacity_square.1, if_pos (by omega)]
  -- every block numbered from here on is at or below the double-indirect block
  have pointer : Inode.doubleIndirectBlockPointer inode = loc .double :=
    path.stored.found .double (Nat.lt_of_le_of_lt (by simp only [first]; omega) below)
  by_cases first : k = 13 + G.capacity
  · rw [if_pos first, if_pos (by omega), pointer]
    rfl
  obtain ⟨m, rfl⟩ := Nat.exists_eq_add_of_le (show 14 + G.capacity ≤ k by omega)
  rw [if_neg first, if_neg (by omega), pointer,
    show 14 + G.capacity + m - 12 - 1 - G.capacity - 1 = m by omega,
    show 14 + G.capacity + m - 14 - G.capacity = m by omega,
    show 14 + G.capacity + m - 3 = 11 + G.capacity + m by omega]
  exact run_innerEntry supported formatted path range below

end

/-! ### Clearing bits -/

/-- A free changes one bit of one bitmap. -/
theorem release_used (sound : G.Sound) (inside : num / G.perGroup kind < G.groups)
    (inside' : num' / G.perGroup kind' < G.groups) :
    G.used kind' (G.release kind v num).blocks num' = true ↔
      G.used kind' v.blocks num' = true ∧ ¬ (kind' = kind ∧ num' = num) := by
  by_cases here : kind' = kind ∧ num' / G.perGroup kind' = num / G.perGroup kind
  · obtain ⟨rfl, group⟩ := here
    have bound := Nat.mod_lt num' (G.perGroup_pos kind')
    have eight : num % G.perGroup kind' % 8 < 8 := Nat.mod_lt _ (by omega)
    have same : num' = num ↔ num' % G.perGroup kind' = num % G.perGroup kind' := by
      refine ⟨fun same => by rw [same], fun same => ?_⟩
      rw [← Nat.div_add_mod num' (G.perGroup kind'), group, same, Nat.div_add_mod]
    rw [G.used_eq, group, Geometry.release, G.mark_bitAt sound inside bound, bitAt_clearBit _ eight,
      Nat.div_add_mod, bitAt_slice bound, G.used_eq, group]
    simp [same]
  · have other : ¬ (kind' = kind ∧ num' = num) := by
      rintro ⟨rfl, rfl⟩
      exact here ⟨rfl, rfl⟩
    rw [G.used_eq, Geometry.release, G.mark_place_other sound inside inside' here, ← G.used_eq]
    simp [other]

/-- The blocks `freed` have been released one after another. Bitmaps and
counters aside, nothing has changed. -/
structure Released (G : Geometry) (v v' : Volume) (freed : List Nat) : Prop where
  formatted : Formatted G v'
  coherent : HeaderCoherent G v'
  data : ∀ b, G.IsData b → v'.blocks b = v.blocks b
  header : ∀ n, G.IsInode n → G.header v'.blocks n = G.header v.blocks n
  block : ∀ b, b / G.blocksPerGroup < G.groups →
    (G.used .block v'.blocks b = true ↔ G.used .block v.blocks b = true ∧ b ∉ freed)
  inode : ∀ i, i / G.inodesPerGroup < G.groups →
    (G.used .inode v'.blocks i = true ↔ G.used .inode v.blocks i = true)
  counted : v'.totalFree .block = (v.totalFree .block + freed.length) % 2 ^ 32

theorem Released.refl (formatted : Formatted G v) (coherent : HeaderCoherent G v) :
    Released G v v [] where
  formatted := formatted
  coherent := coherent
  data _ _ := rfl
  header _ _ := rfl
  block b _ := by simp
  inode _ _ := Iff.rfl
  counted := (Nat.mod_eq_of_lt (BitmapKind.unallocated_lt _)).symm

/-- One more block, in front of those released already. -/
theorem Released.cons (sound : G.Sound) (isData : G.IsData b)
    (rest : Released G (G.release .block v b) v' freed) : Released G v v' (b :: freed) := by
  have inside := G.group_of_block isData.inside
  refine ⟨rest.formatted, rest.coherent, fun c isData' => ?_, fun n inode => ?_, fun c inside' => ?_,
    fun i inside' => ?_, ?_⟩
  · rw [rest.data c isData']
    exact G.mark_other (isData'.ne_place .block inside) isData'.ne_gdt
  · rw [rest.header n inode]
    exact G.mark_header sound inside inode
  · rw [rest.block c inside', release_used sound inside inside']
    simp only [mem_cons, not_or, true_and, and_assoc]
  · rw [rest.inode i inside', release_used sound inside inside']
    simp
  · rw [rest.counted, Geometry.release, G.mark_totalFree, if_pos rfl, Nat.mod_add_mod,
      length_cons]
    congr 1
    omega

/-- Reading the header first makes no difference. -/
theorem Released.of_read (released : Released G v₁ v' freed) (read : HeaderRead G v n h v₁) :
    Released G v v' freed := by
  obtain ⟨lastInode, globals⟩ := read.globals
  have counter : v₁.totalFree .block = v.totalFree .block := by
    unfold totalFree
    rw [globals]
  obtain ⟨formatted, coherent, data, header, block, inode, counted⟩ := released
  rw [read.blocks] at data header block inode
  rw [counter] at counted
  exact ⟨formatted, coherent, data, header, block, inode, counted⟩

theorem release_coherent (sound : G.Sound) (coherent : HeaderCoherent G v)
    (inside : num / G.perGroup kind < G.groups) : HeaderCoherent G (G.release kind v num) := by
  intro n inode same i bound
  rw [Geometry.release, G.mark_header sound inside inode]
  exact coherent n inode same i bound

/-- The loop of `remove_inode` releases the blocks with the given numbers. -/
theorem run_releaseBlocks (sound : G.Sound) (supported : G.Supported) (formatted : Formatted G v)
    (coherent : HeaderCoherent G v) (path : Path G v.blocks inode n loc)
    (isData : ∀ node ∈ Live G.capacity n, G.IsData (loc node))
    (range : n ≤ 12 + G.capacity * G.capacity) (numbers : List Nat) (below : ∀ k ∈ numbers, k < n) :
    ∃ v', v.run (releaseBlocks inode numbers) = .ok ((), v') ∧
      Released G v v' (numbers.map fun k => loc (enumerated G.capacity k)) := by
  induction numbers generalizing v with
  | nil => exact ⟨v, rfl, .refl formatted coherent⟩
  | cons k numbers ih =>
    have low := below k (mem_cons_self ..)
    have block := isData _ (enumerated_live low)
    have inside := G.group_of_block block.inside
    obtain ⟨v', ran, released⟩ := ih (v := G.release .block v (loc (enumerated G.capacity k)))
      (G.mark_formatted sound supported formatted inside) (release_coherent sound coherent inside)
      (path.congr fun table member => G.mark_other
        ((path.isData table member).ne_place .block inside) (path.isData table member).ne_gdt)
      (fun k' member => below k' (mem_cons_of_mem _ member))
    refine ⟨v', ?_, released.cons sound block⟩
    unfold releaseBlocks
    rw [run_bind (run_getFromAllBlocks supported formatted path range low),
      if_neg block.nonzero, writeToBlockBitmap,
      run_bind (run_writeToBitmap sound supported formatted .block inside), ran]

/-! ### `remove_inode` -/

/-- Inode `n` has been removed, and the blocks `freed` with it. -/
structure Removed (G : Geometry) (v v' : Volume) (n : Nat) (freed : List Nat) : Prop where
  formatted : Formatted G v'
  coherent : HeaderCoherent G v'
  data : ∀ b, G.IsData b → v'.blocks b = v.blocks b
  header : ∀ m, G.IsInode m → m ≠ n → G.header v'.blocks m = G.header v.blocks m
  block : ∀ b, b / G.blocksPerGroup < G.groups →
    (G.used .block v'.blocks b = true ↔ G.used .block v.blocks b = true ∧ b ∉ freed)
  inode : ∀ i, i / G.inodesPerGroup < G.groups →
    (G.used .inode v'.blocks i = true ↔ G.used .inode v.blocks i = true ∧ i ≠ n - 1)
  counted : v'.totalFree .block = (v.totalFree .block + freed.length) % 2 ^ 32

/-- The last steps: the inode is rewritten and its bit cleared. -/
theorem Released.removed (sound : G.Sound) (supported : G.Supported) (inode : G.IsInode n)
    (released : Released G v v' freed) (h : Bytes) (milliseconds : Nat → Nat) :
    Removed G v (G.release .inode (G.writeHeader
      { v' with globals := { v'.globals with milliseconds } } n h) (n - 1)) n freed := by
  have inside := G.group_of_inode inode
  obtain ⟨u, same⟩ : ∃ u, u = G.writeHeader
    { v' with globals := { v'.globals with milliseconds } } n h := ⟨_, rfl⟩
  have formatted : Formatted G { v' with globals := { v'.globals with milliseconds } } :=
    released.formatted.of_desc rfl rfl rfl fun _ _ _ _ => rfl
  have places : ∀ kind, ∀ g < G.groups, u.blocks (G.place kind g) = v'.blocks (G.place kind g) := by
    intro kind g group
    rw [same]
    exact writeHeader_other (G.inodeBlock_ne_place sound inode group).symm
  rw [← same]
  refine ⟨G.mark_formatted sound supported ?_ inside, release_coherent sound ?_ inside,
    fun b isData => ?_, fun m inode' other => ?_, fun b inside' => ?_, fun i inside' => ?_, ?_⟩
  · rw [same]
    exact writeHeader_formatted sound supported formatted inode
  · rw [same]
    exact writeHeader_coherent sound released.coherent inode
  · rw [← released.data b isData]
    refine (G.mark_other (isData.ne_place .inode inside) isData.ne_gdt).trans ?_
    rw [same]
    exact writeHeader_other (isData.ne_inodeBlock inode)
  · rw [← released.header m inode']
    refine (G.mark_header sound inside inode').trans ?_
    rw [same, Geometry.writeHeader, G.header_putHeader_other sound inode inode' other]
  · rw [release_used sound inside inside', Geometry.used_congr (places .block) inside',
      released.block b inside']
    simp
  · rw [release_used sound inside inside', Geometry.used_congr (places .inode) inside',
      released.inode i inside']
    simp
  · rw [← released.counted, Geometry.release, G.mark_totalFree, if_neg (by decide), same]
    rfl

theorem Volume.run_timerGetMs (v : Volume) : v.run timerGetMs = .ok (v.globals.milliseconds 0,
    { v with globals := { v.globals with
      milliseconds := fun n => v.globals.milliseconds (n + 1) } }) := by
  unfold timerGetMs
  rw [run_getGlobals, run_setGlobals]
  · rfl
  · exact ⟨rfl, id⟩

/-- The pointers in a header do not depend on the link count. -/
theorem setNumHardLinks_pointers (low : 40 ≤ i) :
    Inode.setNumHardLinks h links i = h i := by
  exact splice_outside (by omega)

/-- Deleting a file that has only blocks of a file with `used` data blocks, as
its sector count says. -/
theorem run_removeInode (sound : G.Sound) (supported : G.Supported) (formatted : Formatted G v)
    (coherent : HeaderCoherent G v) (file : File G v n (Live G.capacity (G.sectorBlocks v n)) loc)
    (range : G.sectorBlocks v n ≤ 12 + G.capacity * G.capacity)
    (last : Inode.numHardLinks (G.header v.blocks n) ≤ 1) :
    ∃ v', v.run (removeInode n) = .ok ((), v') ∧ Removed G v v' n
      ((List.range (G.sectorBlocks v n)).map fun k => loc (enumerated G.capacity k)) := by
  obtain ⟨h, v₁, ran, read⟩ := run_ext2GetInodeHeader sound supported formatted coherent file.inode
  have links : Inode.numHardLinks h - 1 = 0 := by
    have same : Inode.numHardLinks h = Inode.numHardLinks (G.header v.blocks n) :=
      le16_congr fun i bound => read.same (by simp only [Inode.size]; omega)
    omega
  have count : numBlocksUsed v₁.globals.blockByteSize (Inode.setNumHardLinks h 0) =
      G.sectorBlocks v n := by
    rw [read.formatted.size, Geometry.sectorBlocks, ← numBlocksUsed_congr fun i => read.same]
    unfold numBlocksUsed Inode.numDiskSectors Inode.setNumHardLinks put16
    rw [le32_splice_outside (by omega)]
  have path : Path G v₁.blocks (Inode.setNumHardLinks h 0) (G.sectorBlocks v n) loc := by
    rw [read.blocks]
    exact (file.tree.path fun _ member => member).of_inode fun i low high => by
      rw [setNumHardLinks_pointers low, read.same (by simp only [Inode.size]; omega)]
  obtain ⟨v₂, ran', released⟩ := run_releaseBlocks sound supported read.formatted read.coherent path
    (fun node member => (file.solid.inUse node member).isData) range
    (List.range (G.sectorBlocks v n)) fun k => List.mem_range.mp
  unfold removeInode
  rw [run_bind ran]
  rw [if_neg (by rw [links]; decide), run_getGlobals, count, run_bind ran',
    run_bind (run_timerGetMs v₂)]
  have formatted' : Formatted G { v₂ with globals := { v₂.globals with
      milliseconds := fun k => v₂.globals.milliseconds (k + 1) } } :=
    released.formatted.of_desc rfl rfl rfl fun _ _ _ _ => rfl
  rw [run_bind (run_ext2WriteInode sound supported formatted' file.inode _),
    writeToInodeBitmap, run_writeToBitmap sound supported
      (writeHeader_formatted sound supported formatted' file.inode) .inode
      (G.group_of_inode file.inode)]
  exact ⟨_, rfl, (released.of_read read).removed sound supported file.inode _ _⟩

end Run

/-! ### What a deletion gives back -/

/-- The bits that deleting file `n` clears are those of its data blocks and its
indirect blocks, and the counter of free blocks goes up by one for each. -/
def GivesBack (G : Geometry) (w : World) (n : Nat) : Prop :=
  ∃ w', w.run (removeInode n) = .ok ((), w') ∧
    (∀ b, b / G.blocksPerGroup < G.groups → (G.used .block w'.volume.blocks b = true ↔
      G.used .block w.volume.blocks b = true ∧
        ¬ ∃ node ∈ Live G.capacity (G.sectorBlocks w.volume n), G.blockOf w.volume n node = b)) ∧
    w'.volume.totalFree .block =
      (w.volume.totalFree .block + G.blocksFor (G.sectorBlocks w.volume n)) % 2 ^ 32

section GivesBack
variable {G : Geometry} {w : World}

/-- Without indirect blocks, the numbers of `get_from_all_blocks` are those of
the data blocks. -/
theorem mem_enumerated_direct (few : n ≤ 12) :
    (∃ k < n, enumerated capacity k = node) ↔ node ∈ Live capacity n := by
  constructor
  · rintro ⟨k, below, rfl⟩
    exact enumerated_live below
  · intro member
    have below : node.first capacity < n := member
    cases node with
    | data k =>
      have below : k < n := below
      exact ⟨k, below, if_pos (by omega)⟩
    | single | double | inner => simp only [first] at below; omega

section
variable (supported : G.Supported) (mounted : Mounted G w) (coherent : HeaderCoherent G w.volume)
  (file : File G w.volume n (Live G.capacity (G.sectorBlocks w.volume n)) (G.blockOf w.volume n))
include supported mounted coherent file

theorem givesBack_of_direct (last : Inode.numHardLinks (G.header w.volume.blocks n) ≤ 1)
    (few : G.sectorBlocks w.volume n ≤ 12) : GivesBack G w n := by
  obtain ⟨v', ran, removed⟩ := run_removeInode mounted.sound supported mounted.formatted coherent file
    (by omega) last
  obtain ⟨w', ran', _, rfl⟩ := mounted.run ran removed.formatted
  refine ⟨w', ran', fun b inside => ?_, ?_⟩
  · rw [removed.block b inside]
    simp only [mem_map, List.mem_range, ← mem_enumerated_direct few]
    simp
  · rw [removed.counted, length_map, length_range, Geometry.blocksFor, indirectBlocks,
      if_neg (by omega), if_neg (by omega)]
    rfl

theorem not_givesBack_of_indirect (range : G.sectorBlocks w.volume n ≤ 12 + G.capacity * G.capacity)
    (last : Inode.numHardLinks (G.header w.volume.blocks n) ≤ 1)
    (many : 12 < G.sectorBlocks w.volume n) : ¬ GivesBack G w n := by
  obtain ⟨v', ran, removed⟩ := run_removeInode mounted.sound supported mounted.formatted coherent file
    range last
  obtain ⟨w', ran', _, rfl⟩ := mounted.run ran removed.formatted
  rintro ⟨w'', ran'', cleared, _⟩
  rw [ran'] at ran''
  cases ran''
  -- the last data block keeps its bit
  have member : FileNode.data (G.sectorBlocks w.volume n - 1) ∈
      Live G.capacity (G.sectorBlocks w.volume n) := Nat.sub_lt (by omega) (by decide)
  have block := file.solid.inUse _ member
  have inside := G.group_of_block block.isData.inside
  have kept := (removed.block _ inside).mpr ⟨block.used, fun freed => by
    obtain ⟨k, low, same⟩ := mem_map.mp freed
    have below := List.mem_range.mp low
    exact enumerated_ne_last below many (file.solid.apart (enumerated_live below) member same)⟩
  exact ((cleared _ inside).mp kept).2 ⟨_, member, rfl⟩

end

end GivesBack

/-- A new file after a first write from its start. -/
theorem Created.written (supported : G.Supported) (mounted : Mounted G w)
    (consistent : Consistent G w.volume) (created : Created G w.volume n) (size : Nat)
    (range : size ≤ G.maxSize) (small : size < 2 ^ 31)
    (space : G.blocksFor (blocksRequired size G.bs) ≤ G.clearTotal .block w.volume.blocks)
    (data : Bytes) :
    ∃ w', w.run (writeInode n data size 0 false) = .ok (size, w') ∧ Mounted G w' ∧
      HeaderCoherent G w'.volume ∧ G.sectorBlocks w'.volume n = blocksRequired size G.bs ∧
      File G w'.volume n (Live G.capacity (G.sectorBlocks w'.volume n)) (G.blockOf w'.volume n) ∧
      Inode.numHardLinks (G.header w'.volume.blocks n) = 1 := by
  have keeps := created.keeps
  have required : G.blocksAfter w.volume n 0 size = blocksRequired size G.bs := by
    unfold Geometry.blocksAfter
    rw [keeps.size]
    simp [ByteFile.empty]
  have links : Inode.numHardLinks (G.header w.volume.blocks n) = 1 :=
    (le16_congr fun i bound => created.header _ (by simp only [Inode.size]; omega)).trans
      (show Inode.numHardLinks newFileInode = 1 by decide)
  have whole : File G w.volume n (Live G.capacity (G.sectorBlocks w.volume n) ∪ ∅)
      (G.blockOf w.volume n) := by
    rw [Set.union_empty, keeps.sectors]
    exact keeps.file
  obtain ⟨new, v', loc', ran, wrote⟩ := run_writeInode mounted.sound supported consistent whole
    (show 0 = if false then _ else 0 from rfl)
    (by rw [keeps.size]; simpa [ByteFile.empty] using range) small
    (by rw [keeps.sectors]; exact Nat.zero_le _) (fun _ member => member.elim)
    (by rw [required]; omega) data
  obtain ⟨w', ran', mounted', rfl⟩ := mounted.run ran wrote.consistent.formatted
  have sectors := wrote.blocks.trans required
  have file := wrote.file
  rw [Set.union_empty, required, ← sectors] at file
  exact ⟨w', ran', mounted', wrote.consistent.coherent, sectors, file.canonical,
    wrote.links.trans links⟩

/-- A file with the blocks that its sector count stands for gets all of them back
if and only if they are all found in its inode. -/
theorem deletion_gives_back_blocks_iff (G : Geometry) (w : World) (n : Nat)
    (supported : G.Supported) (mounted : Mounted G w) (coherent : HeaderCoherent G w.volume)
    (file : File G w.volume n (Live G.capacity (G.sectorBlocks w.volume n)) (G.blockOf w.volume n))
    (range : G.sectorBlocks w.volume n ≤ 12 + G.capacity * G.capacity)
    (last : Inode.numHardLinks (G.header w.volume.blocks n) ≤ 1) :
    GivesBack G w n ↔ G.sectorBlocks w.volume n ≤ 12 := by
  constructor
  · intro back
    by_contra many
    exact not_givesBack_of_indirect supported mounted coherent file range last (by omega) back
  · exact givesBack_of_direct supported mounted coherent file last

/-- A file of 3000 bytes has two blocks. -/
theorem deletion_gives_back_blocks_iff_two :
    ∃ w, ((newFilesImage 0).world smallGeometry).run (writeInode 11 (fun _ => 7) 3000 0 false) =
      .ok (3000, w) ∧ GivesBack smallGeometry w 11 := by
  obtain ⟨w, ran, mounted, coherent, sectors, file, links⟩ := (newFilesImage_created 0 11
    (Or.inl rfl)).written smallGeometry_supported (newFilesImage_mounted 0)
    (newFilesImage_consistent 0) 3000 (by decide) (by decide)
    (by rw [newFilesImage_free]; decide) (fun _ => 7)
  have two : smallGeometry.sectorBlocks w.volume 11 = 2 := sectors.trans (by decide)
  exact ⟨w, ran, (deletion_gives_back_blocks_iff smallGeometry w 11 smallGeometry_supported mounted
    coherent file (by rw [two]; decide) (by rw [links])).mpr (by rw [two]; decide)⟩

/-- A new file of 13 blocks is written and deleted: its last data block stays
marked. -/
theorem deletion_keeps_last_block :
    ∃ w, ((newFilesImage 0).world smallGeometry).run
      (writeInode 11 (fun _ => 7) (13 * 2048) 0 false) = .ok (13 * 2048, w) ∧
      Inode.numHardLinks (smallGeometry.header w.volume.blocks 11) = 1 ∧
      ¬ GivesBack smallGeometry w 11 := by
  obtain ⟨w, ran, mounted, coherent, sectors, file, links⟩ := (newFilesImage_created 0 11
    (Or.inl rfl)).written smallGeometry_supported (newFilesImage_mounted 0)
    (newFilesImage_consistent 0) (13 * 2048) (by decide) (by decide)
    (by rw [newFilesImage_free]; decide) (fun _ => 7)
  have thirteen : smallGeometry.sectorBlocks w.volume 11 = 13 := sectors.trans (by decide)
  exact ⟨w, ran, links, not_givesBack_of_indirect smallGeometry_supported mounted coherent file
    (by rw [thirteen]; decide) (by rw [links]) (by rw [thirteen]; decide)⟩

/-! ### Link counts -/

/-- `m` names of an inode are removed one after another. -/
def removeNames (inodeNum : Nat) : Nat → Driver Unit
  | 0 => return ()
  | m + 1 => do
    removePossiblyOpenInode inodeNum
    removeNames inodeNum m

/-- The inode and the blocks of file `n` are marked used, and `links` names are
left according to the disk. -/
structure NamesLeft (G : Geometry) (v : Volume) (n : Nat) (own : Set FileNode) (loc : FileNode → Nat)
    (links : Nat) : Prop where
  inode : G.used .inode v.blocks (n - 1) = true
  blocks : ∀ node ∈ own, G.used .block v.blocks (loc node) = true
  links : Inode.numHardLinks (G.header v.blocks n) = links

/-- Every removal but the last leaves the file allocated with one link less, and
the last one frees its inode. -/
def CountsLinks (G : Geometry) (w : World) (n : Nat) : Prop :=
  ∀ m ≤ Inode.numHardLinks (G.header w.volume.blocks n), ∃ w', w.run (removeNames n m) = .ok ((), w') ∧
    if m < Inode.numHardLinks (G.header w.volume.blocks n) then
      NamesLeft G w'.volume n (Live G.capacity (G.sectorBlocks w.volume n)) (G.blockOf w.volume n)
        (Inode.numHardLinks (G.header w.volume.blocks n) - m)
    else G.used .inode w'.volume.blocks (n - 1) = false

section Links
variable {G : Geometry} {w : World} {v : Volume}

/-- With other names left, `remove_inode` only reads. -/
theorem run_removeInode_shared (sound : G.Sound) (supported : G.Supported)
    (formatted : Formatted G v) (coherent : HeaderCoherent G v) (inode : G.IsInode n)
    (shared : 1 < Inode.numHardLinks (G.header v.blocks n)) :
    ∃ h v', v.run (removeInode n) = .ok ((), v') ∧ HeaderRead G v n h v' := by
  obtain ⟨h, v', ran, read⟩ := run_ext2GetInodeHeader sound supported formatted coherent inode
  have same : Inode.numHardLinks h = Inode.numHardLinks (G.header v.blocks n) :=
    le16_congr fun i bound => read.same (by simp only [Inode.size]; omega)
  refine ⟨h, v', ?_, read⟩
  unfold removeInode
  rw [run_bind ran]
  rw [if_pos (by omega), run_pure]

section
variable (closed : ∀ f ∈ v.globals.filesHead, f.inodeNum ≠ n)
include closed

/-- The removal of a name of an inode that is not open. -/
theorem run_removePossiblyOpenInode :
    v.run (removePossiblyOpenInode n) = v.run (removeInode n) := by
  have none : ¬ (v.globals.filesHead.any (·.inodeNum = n)) = true := by simpa using closed
  unfold removePossiblyOpenInode
  rw [run_getGlobals, if_neg none]

theorem run_removeNames_one (ran : v.run (removeInode n) = .ok ((), v')) : v.run
    (removeNames n 1) = .ok ((), v') := by
  unfold removeNames removeNames
  rw [run_bind ((run_removePossiblyOpenInode closed).trans ran), run_pure]

end

theorem not_countsLinks_of_shared (supported : G.Supported) (mounted : Mounted G w)
    (coherent : HeaderCoherent G w.volume) (inode : G.IsInode n)
    (closed : ∀ f ∈ w.globals.filesHead, f.inodeNum ≠ n)
    (shared : 1 < Inode.numHardLinks (G.header w.volume.blocks n)) : ¬ CountsLinks G w n := by
  intro counts
  obtain ⟨h, v', ran, read⟩ := run_removeInode_shared mounted.sound supported mounted.formatted
    coherent inode shared
  obtain ⟨w', ran', _, rfl⟩ := mounted.run (run_removeNames_one closed ran) read.formatted
  obtain ⟨w'', ran'', linked⟩ := counts 1 (by omega)
  rw [ran'] at ran''
  cases ran''
  -- the count on disk is still the old one
  rw [if_pos shared] at linked
  have same := linked.links
  rw [read.blocks] at same
  omega

end Links

/-- The small volume with an empty file 11 that has the given number of names. -/
def linkedImage (links : Nat) : Image where
  used := fun kind n => match kind with
    | .block => n < 5
    | .inode => n < 11
  header := fun _ => Inode.setNumHardLinks newFileInode links
  data := fun _ => zeros
  garbage := fun _ _ => 0

section LinkedImage
variable (links : Nat)

theorem linkedImage_mounted : Mounted smallGeometry ((linkedImage links).world smallGeometry) :=
  Image.world_mounted _ smallGeometry_sound smallGeometry_supported.addressable

theorem linkedImage_coherent :
    HeaderCoherent smallGeometry ((linkedImage links).world smallGeometry).volume := by
  rw [Image.world_volume]
  exact Image.volume_headerCoherent _ _

theorem linkedImage_header (bound : i < Inode.size) :
    smallGeometry.header ((linkedImage links).world smallGeometry).volume.blocks 11 i =
      Inode.setNumHardLinks newFileInode links i := by
  rw [Image.world_volume, Image.volume_header _ smallGeometry_sound
    smallGeometry_supported.addressable ⟨by decide, by decide⟩,
    slice_inside (bound.trans_le (by decide)), zero_add]
  rfl

theorem linkedImage_links : Inode.numHardLinks
    (smallGeometry.header ((linkedImage links).world smallGeometry).volume.blocks 11) =
      links % 2 ^ 16 :=
  (le16_congr fun i bound => linkedImage_header links (by simp only [Inode.size]; omega)).trans
    le16_put16_same

theorem linkedImage_sectors :
    smallGeometry.sectorBlocks ((linkedImage links).world smallGeometry).volume 11 = 0 := by
  refine (numBlocksUsed_congr fun i bound => linkedImage_header links bound).trans ?_
  unfold numBlocksUsed Inode.numDiskSectors Inode.setNumHardLinks
  rw [le32_put16_apart (by decide), show le32 newFileInode 28 = 0 by decide, Nat.zero_div]

theorem linkedImage_allocated : smallGeometry.used .inode
    ((linkedImage links).world smallGeometry).volume.blocks (11 - 1) = true := by
  rw [Image.world_volume, Image.volume_used _ smallGeometry_sound
    smallGeometry_supported.addressable (by decide)]
  rfl

end LinkedImage

/-- Removing the names of a closed file one by one counts its links down on disk
if and only if there is one name. -/
theorem names_are_counted_iff (G : Geometry) (w : World) (n : Nat) (supported : G.Supported)
    (mounted : Mounted G w) (coherent : HeaderCoherent G w.volume)
    (file : File G w.volume n (Live G.capacity (G.sectorBlocks w.volume n)) (G.blockOf w.volume n))
    (range : G.sectorBlocks w.volume n ≤ 12 + G.capacity * G.capacity)
    (closed : ∀ f ∈ w.globals.filesHead, f.inodeNum ≠ n)
    (allocated : G.used .inode w.volume.blocks (n - 1) = true)
    (linked : 1 ≤ Inode.numHardLinks (G.header w.volume.blocks n)) :
    CountsLinks G w n ↔ Inode.numHardLinks (G.header w.volume.blocks n) = 1 := by
  constructor
  · intro counts
    by_contra more
    exact not_countsLinks_of_shared supported mounted coherent file.inode closed (by omega) counts
  · intro one m few
    rcases Nat.lt_or_ge m 1 with none | all
    · obtain rfl : m = 0 := by omega
      refine ⟨w, rfl, ?_⟩
      rw [if_pos (by omega)]
      exact ⟨allocated, fun node member => (file.solid.inUse node member).used, rfl⟩
    · obtain rfl : m = 1 := by omega
      obtain ⟨v', ran, removed⟩ := run_removeInode mounted.sound supported mounted.formatted coherent
        file range (by omega)
      obtain ⟨w', ran', _, rfl⟩ := mounted.run (run_removeNames_one closed ran) removed.formatted
      refine ⟨w', ran', ?_⟩
      rw [if_neg (by omega)]
      have freed := mt (removed.inode (n - 1) (G.group_of_inode file.inode)).mp
        fun both => both.2 rfl
      simpa using freed

/-- The only name of an empty file. -/
theorem names_are_counted_iff_one :
    CountsLinks smallGeometry ((linkedImage 1).world smallGeometry) 11 := by
  have sectors := linkedImage_sectors 1
  refine (names_are_counted_iff smallGeometry _ 11 smallGeometry_supported (linkedImage_mounted 1)
    (linkedImage_coherent 1) ?_ (by rw [sectors]; exact Nat.zero_le _) nofun
    (linkedImage_allocated 1) (by rw [linkedImage_links]; decide)).mpr (linkedImage_links 1)
  exact ⟨⟨by decide, by decide⟩, pointer_stored fun _ live _ => live_closed live,
    fun _ live => absurd live (Nat.not_lt_zero _), fun _ live => absurd live (Nat.not_lt_zero _)⟩

/-- The first of two names is removed: the disk still counts two. -/
theorem removed_name_is_still_counted :
    ¬ CountsLinks smallGeometry ((linkedImage 2).world smallGeometry) 11 :=
  not_countsLinks_of_shared smallGeometry_supported (linkedImage_mounted 2) (linkedImage_coherent 2)
    ⟨by decide, by decide⟩ nofun (by rw [linkedImage_links]; decide)

end SbOS.Ext2
