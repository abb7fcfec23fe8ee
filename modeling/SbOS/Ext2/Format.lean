import SbOS.Ext2.AllocationProofs

/-! Formatting. Every sound geometry has volumes, with any choice of used bits,
inodes and data; their counters are exact as far as the descriptors' 16 bits
reach. What is proved about formatted volumes is thus about something, and the
examples of this development are volumes made here. -/
namespace SbOS.Ext2
open Bytes Geometry

/-! ### From an array to a device -/

/-- An array as a device can hold it: whole blocks, none of them hidden. -/
def Volume.clip (v : Volume) : Volume where
  globals := v.globals
  blocks := fun b => if Visible v.bs b then slice (v.blocks b) 0 v.bs else zeros

/-- A device that holds the array, behind the cache that `ext2_mount` sets up. -/
def World.fresh (v : Volume) : World where
  globals := v.globals
  disk :=
    { cache := List.replicate 4 Slot.unused
      device := fun a => v.blocks (a / v.bs) (a % v.bs)
      uptime := fun _ => 0 }

theorem World.fresh_shows (v : Volume) (size : BlockByteSize v.bs) :
    Shows (World.fresh v) v.clip := by
  have positive : 0 < v.bs := by have := size.le; omega
  refine ⟨size, unused_coherent _ _ _ (by simp [World.fresh]) ?_, ?_⟩
  · simp [World.fresh, Slot.unused]
  · simp only [World.volume, Volume.clip]
    congr 1
    funext b
    change (if Visible v.bs b then _ else _) = _
    split
    · funext o
      by_cases bound : o < v.bs
      · have clean : ∀ c ∈ (World.fresh v).disk.cache, c.dirtyFor b = false := by
          simp [World.fresh, Slot.unused, Slot.dirtyFor]
        rw [slice_inside bound, zero_add]
        refine (contents_device clean bound).trans ?_
        change v.blocks ((b * v.bs + o) / v.bs) ((b * v.bs + o) % v.bs) = _
        rw [mul_comm, Nat.mul_add_div positive, Nat.div_eq_of_lt bound, Nat.mul_add_mod,
          Nat.mod_eq_of_lt bound, add_zero]
      · rw [contents_outside (by exact not_lt.mp bound), slice_outside (by omega)]
    · rfl

/-! ### The bytes of a formatted volume -/

/-- Bits packed into the bytes of a bitmap. -/
def packBits (f : Nat → Bool) : Bytes :=
  fun i => UInt8.ofNat (Nat.ofBits fun j : Fin 8 => f (8 * i + j))

theorem bitAt_packBits (f : Nat → Bool) (pos : Nat) : bitAt (packBits f) pos = f pos := by
  have small : pos % 8 < 8 := Nat.mod_lt _ (by omega)
  rw [bitAt, packBits, bitSet, UInt8.toNat_ofNat', Nat.mod_eq_of_lt (Nat.ofBits_lt_two_pow _),
    Nat.testBit_ofBits_lt _ _ small]
  congr 1
  exact Nat.div_add_mod pos 8

/-- What can be chosen when a volume is made. -/
structure Image where
  used : BitmapKind → Nat → Bool
  header : Nat → Bytes
  data : Nat → Bytes
  garbage : Nat → Nat → Nat

namespace Image
variable (image : Image) (G : Geometry)

/-- The clear bits of one group. -/
def freeIn (kind : BitmapKind) (group : Nat) : Nat :=
  countBelow (G.perGroup kind) fun i => !image.used kind (group * G.perGroup kind + i)

def freeTotal (kind : BitmapKind) : Nat := ∑ group ∈ Finset.range G.groups, image.freeIn G kind group

def descriptor (group : Nat) : Bytes :=
  put16 (put16 (put32 (put32 (put32 zeros 0 (G.blockBitmap group)) 4 (G.inodeBitmap group)) 8
    (G.inodeTable group)) 12 (image.freeIn G .block group)) 14 (image.freeIn G .inode group)

def superblock : Bytes :=
  slice (put16 (put32 (put16 (put32 (put32 (put32 (put32 (put32 (put32 (put32 zeros 0 G.numInodes)
    4 G.numBlocks) 12 (image.freeTotal G .block)) 16 (image.freeTotal G .inode)) 24 G.log)
    32 G.blocksPerGroup) 40 G.inodesPerGroup) 56 0xEF53) 76 1) 88 G.inodeSize) 0 (2 * sectorSize)

/-- The metadata blocks of the geometry. -/
def metaNodes : List MetaNode :=
  (List.range G.gdtBlocks).map .descriptors ++
    (List.range G.groups).flatMap fun group =>
      [.blockBitmap group, .inodeBitmap group] ++ (List.range G.tableBlocks).map (.inodeTable group)

/-- The contents of a metadata block. -/
def metaBytes : MetaNode → Bytes
  | .descriptors k => fun i =>
    image.descriptor G ((k * G.bs + i) / Bgdt.size) ((k * G.bs + i) % Bgdt.size)
  | .blockBitmap group => packBits fun i => image.used .block (group * G.blocksPerGroup + i)
  | .inodeBitmap group => packBits fun i => image.used .inode (group * G.inodesPerGroup + i)
  | .inodeTable group k => fun i =>
    image.header (group * G.inodesPerGroup + (k * G.bs + i) / G.inodeSize + 1)
      ((k * G.bs + i) % G.inodeSize)

/-- The driver's variables right after mounting, and all blocks. -/
def rawVolume : Volume where
  globals :=
    { superblock := image.superblock G, blockByteSize := G.bs, inodeSize := G.inodeSize,
      superblockChanged := false, lastInodeRead := minusOne, lastInode := zeros, filesHead := [],
      milliseconds := fun _ => 0, garbage := image.garbage }
  blocks := fun b o =>
    -- the superblock has its fixed place on the device
    if 1024 ≤ b * G.bs + o ∧ b * G.bs + o < 2048 then image.superblock G (b * G.bs + o - 1024)
    else
      match (metaNodes G).find? (fun node => G.metaBlock node = b) with
      | some node => image.metaBytes G node o
      | none => image.data b o

/-- The formatted volume. -/
def volume : Volume := (image.rawVolume G).clip

/-- The driver on a device with the formatted volume. -/
def world : World := World.fresh (image.rawVolume G)

variable {G}

theorem mem_metaNodes : node ∈ metaNodes G ↔ G.IsMeta node := by
  cases node <;> simp [metaNodes, IsMeta]

section Blocks
variable (sound : G.Sound) (fits : G.numBlocks * G.bs ≤ 2 ^ 32)

/-- Everything from the descriptors on lies behind the superblock. -/
theorem past_superblock (low : G.gdt ≤ b) (o : Nat) : 2048 ≤ b * G.bs + o := by
  have : 2048 ≤ G.gdt * G.bs := by
    unfold gdt startingBlock
    split
    · omega
    · have : G.bs ≠ 1024 := ‹_›
      have : 2048 ≤ G.bs := by
        unfold bs at this ⊢
        rcases Nat.eq_zero_or_pos G.log with zero | positive
        · rw [zero] at this
          simp at this
        · calc 2048 = 1024 * 2 ^ 1 := by decide
            _ ≤ 1024 * 2 ^ G.log := Nat.mul_le_mul_left _ (Nat.pow_le_pow_right (by decide) positive)
      omega
  have := Nat.mul_le_mul_right G.bs low
  omega

include sound fits in
theorem volume_meta (isMeta : G.IsMeta node) :
    (image.volume G).blocks (G.metaBlock node) = slice (image.metaBytes G node) 0 G.bs := by
  have inside := sound.inside node isMeta
  have visible : Visible G.bs (G.metaBlock node) := by
    refine ⟨sound.nonzero node isMeta, ?_⟩
    have := Nat.mul_le_mul_right G.bs (show G.metaBlock node + 1 ≤ G.numBlocks from inside)
    rw [Nat.add_mul] at this
    unfold Addressable
    omega
  have found : (metaNodes G).find? (fun node' => G.metaBlock node' = G.metaBlock node) =
      some node := by
    cases result : (metaNodes G).find? (fun node' => G.metaBlock node' = G.metaBlock node) with
    | none =>
      have := List.find?_eq_none.mp result node (mem_metaNodes.mpr isMeta)
      simp at this
    | some node' =>
      have same := List.find?_some result
      have member := mem_metaNodes.mp (List.mem_of_find?_eq_some result)
      rw [sound.apart node' node member isMeta (by simpa using same)]
  change (if Visible G.bs _ then _ else _) = _
  rw [if_pos visible]
  apply slice_congr
  intro o _
  have := past_superblock (sound.after node isMeta) (0 + o)
  simp only [rawVolume, found]
  rw [if_neg (by omega)]

/-- Blocks that hold no metadata hold the chosen data. -/
theorem volume_data (visible : Visible G.bs b) (low : G.gdt ≤ b)
    (apart : ∀ node, G.IsMeta node → G.metaBlock node ≠ b) :
    (image.volume G).blocks b = slice (image.data b) 0 G.bs := by
  have absent : (metaNodes G).find? (fun node => G.metaBlock node = b) = none := by
    apply List.find?_eq_none.mpr
    intro node member
    simpa using apart node (mem_metaNodes.mp member)
  change (if Visible G.bs b then _ else _) = _
  rw [if_pos visible]
  apply slice_congr
  intro o _
  have := past_superblock low (0 + o)
  simp only [rawVolume, absent]
  rw [if_neg (by omega)]

include sound fits in
/-- The descriptor of a group, whichever block it is in. -/
theorem volume_desc (group : g < G.groups) :
    G.desc (image.volume G).blocks g = slice (image.descriptor G g) 0 Bgdt.size := by
  have large := G.bs_ge
  have whole : Bgdt.size ∣ G.bs := by
    refine ⟨32 * 2 ^ G.log, ?_⟩
    simp only [bs, Bgdt.size]
    ring
  have row : Bgdt.size * g / G.bs * G.bs + Bgdt.size * g % G.bs = Bgdt.size * g :=
    Nat.div_add_mod' _ _
  have room : Bgdt.size * g % G.bs + Bgdt.size ≤ G.bs := by
    obtain ⟨k, same⟩ := whole
    have kpos : 0 < k := by
      rcases Nat.eq_zero_or_pos k with rfl | h
      · omega
      · exact h
    have := Nat.mod_lt g kpos
    rw [same, Nat.mul_mod_mul_left]
    calc _ = Bgdt.size * (g % k + 1) := by ring
      _ ≤ Bgdt.size * k := Nat.mul_le_mul_left _ this
  have isMeta : G.IsMeta (.descriptors (Bgdt.size * g / G.bs)) := by
    apply lt_blocksRequired (by omega)
    have : Bgdt.size * g < Bgdt.size * G.groups := by
      simp only [Bgdt.size]
      omega
    omega
  rw [desc, show G.gdt + Bgdt.size * g / G.bs =
    G.metaBlock (.descriptors (Bgdt.size * g / G.bs)) from rfl, image.volume_meta sound fits isMeta]
  apply slice_congr
  intro i bound
  rw [slice_inside (by omega), Nat.zero_add]
  simp only [metaBytes]
  have split : Bgdt.size * g / G.bs * G.bs + (Bgdt.size * g % G.bs + i) = Bgdt.size * g + i := by
    omega
  rw [split, Nat.mul_add_div (by decide), Nat.mul_add_mod, Nat.div_eq_of_lt bound,
    Nat.mod_eq_of_lt bound]
  simp

include sound fits in
theorem volume_formatted : Formatted G (image.volume G) := by
  have lowBlocks := G.numBlocks_lt
  have lowInodes := G.numInodes_lt
  have large := G.bs_ge
  have bpg : G.blocksPerGroup ≤ 8 * G.bs := G.blocksPerGroup_le
  have ipg : G.inodesPerGroup ≤ 8 * G.bs := G.inodesPerGroup_le
  have upper := G.bs_le
  have small : ∀ node, G.IsMeta node → G.metaBlock node % 2 ^ 32 = G.metaBlock node := by
    intro node isMeta
    have := sound.inside node isMeta
    exact Nat.mod_eq_of_lt (by omega)
  have table : ∀ g < G.groups, G.IsMeta (.inodeTable g 0) := by
    intro g group
    refine ⟨group, lt_blocksRequired (by omega) ?_⟩
    have := G.inodesPerGroup_pos
    have : 0 < G.inodeSize := Nat.lt_of_lt_of_le (by decide) G.inodeSize_ge
    rw [zero_mul]
    exact Nat.mul_pos ‹_› ‹_›
  have field : ∀ value < 2 ^ 32, value % 2 ^ 32 = value := fun _ => Nat.mod_eq_of_lt
  constructor
  case size | inodeSize => rfl
  case log | numBlocks | numInodes | blocksPerGroup | inodesPerGroup =>
    have := G.log_le
    simp (disch := first | decide | omega) only [volume, Volume.clip, rawVolume, superblock,
      Superblock.blockSize, Superblock.numBlocks, Superblock.numInodes,
      Superblock.numBlocksInGroup, Superblock.numInodesInGroup, le32_slice, le32_put16_apart,
      le32_put32_apart, le32_put32_same, field]
  case blockBitmap | inodeBitmap | inodeTable =>
    intro g group
    rw [image.volume_desc sound fits group]
    simp (disch := decide) only [Bgdt.blockUsageBitmap, Bgdt.inodeUsageBitmap,
      Bgdt.startingInodeTable, le32_slice, descriptor, le32_put16_apart, le32_put32_apart,
      le32_put32_same]
    first
      | exact small (.blockBitmap g) group
      | exact small (.inodeBitmap g) group
      | exact small (.inodeTable g 0) (table g group)

theorem world_volume : (image.world G).volume = image.volume G :=
  (World.fresh_shows (image.rawVolume G) G.blockByteSize).volume

include sound fits in
theorem world_mounted : Mounted G (image.world G) :=
  ⟨sound, image.world_volume ▸ image.volume_formatted sound fits,
    (World.fresh_shows (image.rawVolume G) G.blockByteSize).coherent⟩

/-! ### Its bits, counters and inodes -/

include sound fits in
theorem volume_bitAt (group : g < G.groups) (bound : i < G.perGroup kind) :
    bitAt ((image.volume G).blocks (G.place kind g)) i =
      image.used kind (g * G.perGroup kind + i) := by
  have eight := G.perGroup_eight kind
  have room := G.perGroup_room kind
  have block : (image.volume G).blocks (G.place kind g) =
      slice (packBits fun i => image.used kind (g * G.perGroup kind + i)) 0 G.bs := by
    cases kind
    · exact image.volume_meta sound fits (show G.IsMeta (.blockBitmap g) from group)
    · exact image.volume_meta sound fits (show G.IsMeta (.inodeBitmap g) from group)
  rw [block]
  refine (bitAt_congr ?_).trans (bitAt_packBits (fun i => image.used kind (g * G.perGroup kind + i)) i)
  rw [slice_inside (by omega), zero_add]

include sound fits in
theorem volume_used (inside : n / G.perGroup kind < G.groups) :
    G.used kind (image.volume G).blocks n = image.used kind n := by
  rw [G.used_eq, image.volume_bitAt sound fits inside (Nat.mod_lt _ (G.perGroup_pos kind)),
    Nat.div_add_mod']

include sound fits in
theorem volume_clearIn (group : g < G.groups) :
    G.clearIn kind (image.volume G).blocks g = image.freeIn G kind g := by
  rw [clearIn, clearList, clearPositions, ← countBelow_eq_length]
  exact countBelow_congr fun i bound => by rw [image.volume_bitAt sound fits group bound]

include sound fits in
theorem volume_clearTotal :
    G.clearTotal kind (image.volume G).blocks = image.freeTotal G kind :=
  Finset.sum_congr rfl fun _ member => image.volume_clearIn sound fits (Finset.mem_range.mp member)

include sound fits in
theorem volume_groupFree (group : g < G.groups) :
    G.groupFree kind (image.volume G).blocks g = image.freeIn G kind g % 2 ^ 16 := by
  rw [groupFree, image.volume_desc sound fits group]
  cases kind
  · simp only [BitmapKind.unallocatedInGroup, Bgdt.numUnallocatedBlocksInGroup, descriptor]
    rw [le16_slice (by decide), le16_put16_apart (by decide), le16_put16_same]
  · simp only [BitmapKind.unallocatedInGroup, Bgdt.numUnallocatedInodesInGroup, descriptor]
    rw [le16_slice (by decide), le16_put16_same]

theorem volume_totalFree : (image.volume G).totalFree kind = image.freeTotal G kind % 2 ^ 32 := by
  change kind.unallocated (image.superblock G) = _
  cases kind
  all_goals
    simp (disch := decide) only [BitmapKind.unallocated, Superblock.numBlocksUnallocated,
      Superblock.numInodesUnallocated, superblock, le32_slice, le32_put16_apart, le32_put32_apart,
      le32_put32_same]

include sound fits in
theorem volume_header (inode : G.IsInode n) :
    G.header (image.volume G).blocks n = slice (image.header n) 0 G.inodeSize := by
  obtain ⟨k, isMeta, placed, kEq⟩ := G.inodeBlock_meta inode
  have room := G.inodeOffset_room n
  have positive : 0 < G.inodeSize := Nat.lt_of_lt_of_le (by decide) G.inodeSize_ge
  have split := Nat.div_add_mod' ((n - 1) % G.inodesPerGroup * G.inodeSize) G.bs
  rw [← kEq] at split
  change _ + G.inodeOffset n = _ at split
  rw [Geometry.header, placed, image.volume_meta sound fits isMeta]
  apply slice_congr
  intro i bound
  rw [slice_inside (by omega), zero_add, zero_add]
  simp only [metaBytes]
  rw [show k * G.bs + (G.inodeOffset n + i) = G.inodeSize * ((n - 1) % G.inodesPerGroup) + i by
    rw [mul_comm G.inodeSize]; omega, Nat.mul_add_div positive, Nat.mul_add_mod,
    Nat.div_eq_of_lt bound, Nat.mod_eq_of_lt bound, add_zero]
  have := inode.1
  have := Nat.div_add_mod' (n - 1) G.inodesPerGroup
  congr 1
  omega

/-- Nothing is cached right after mounting. -/
theorem volume_headerCoherent (G : Geometry) : HeaderCoherent G (image.volume G) := by
  intro n inode same
  have := G.numInodes_lt
  have := inode.2
  change u32Max = n at same
  simp only [u32Max] at same
  omega

end Blocks

end Image

/-! ### A small geometry -/

/-- One group of 64 blocks of 2048 bytes: boot block and superblock in block 0,
then descriptors, bitmaps and one block of 16 inodes; blocks 5 to 63 are free
for data. -/
def smallGeometry : Geometry where
  log := 1
  inodeSize := 128
  blocksPerGroup := 64
  inodesPerGroup := 16
  numBlocks := 64
  numInodes := 16
  groups := 1
  blockBitmap := fun _ => 2
  inodeBitmap := fun _ => 3
  inodeTable := fun _ => 4
  log_le := by decide
  inodeSize_ge := by decide
  inodeSize_dvd := by decide
  blocksPerGroup_pos := by decide
  blocksPerGroup_eight := by decide
  blocksPerGroup_le := by decide
  inodesPerGroup_pos := by decide
  inodesPerGroup_eight := by decide
  inodesPerGroup_le := by decide
  numBlocks_lt := by decide
  numInodes_lt := by decide
  groups_of_blocks := by decide
  groups_of_inodes := by decide

/-- Its metadata blocks, one by one. -/
theorem smallGeometry_meta (isMeta : smallGeometry.IsMeta node) :
    (node = .descriptors 0 ∧ smallGeometry.metaBlock node = 1) ∨
      (node = .blockBitmap 0 ∧ smallGeometry.metaBlock node = 2) ∨
      (node = .inodeBitmap 0 ∧ smallGeometry.metaBlock node = 3) ∨
      (node = .inodeTable 0 0 ∧ smallGeometry.metaBlock node = 4) := by
  cases node with
  | descriptors k =>
    have : k < 1 := isMeta
    have : k = 0 := by omega
    subst this
    exact Or.inl ⟨rfl, rfl⟩
  | blockBitmap g =>
    have : g < 1 := isMeta
    have : g = 0 := by omega
    subst this
    exact Or.inr (Or.inl ⟨rfl, rfl⟩)
  | inodeBitmap g =>
    have : g < 1 := isMeta
    have : g = 0 := by omega
    subst this
    exact Or.inr (Or.inr (Or.inl ⟨rfl, rfl⟩))
  | inodeTable g k =>
    obtain ⟨group, below⟩ : g < 1 ∧ k < 1 := isMeta
    have : g = 0 := by omega
    have : k = 0 := by omega
    subst_vars
    exact Or.inr (Or.inr (Or.inr ⟨rfl, rfl⟩))

theorem smallGeometry_sound : smallGeometry.Sound := by
  refine ⟨fun node isMeta => ?_, fun node isMeta => ?_, fun node node' isMeta isMeta' same => ?_⟩
  · have := smallGeometry_meta isMeta
    change 1 ≤ _
    omega
  · have := smallGeometry_meta isMeta
    change _ < 64
    omega
  · rcases smallGeometry_meta isMeta with ⟨rfl, at'⟩ | ⟨rfl, at'⟩ | ⟨rfl, at'⟩ | ⟨rfl, at'⟩ <;>
      rcases smallGeometry_meta isMeta' with ⟨rfl, at''⟩ | ⟨rfl, at''⟩ | ⟨rfl, at''⟩ | ⟨rfl, at''⟩ <;>
      first | rfl | omega

theorem smallGeometry_supported : smallGeometry.Supported := ⟨by decide, by decide⟩

end SbOS.Ext2
