import SbOS.Ext2.Layout
import SbOS.Ext2.Bitmaps

/-! What the allocator does to a formatted volume. Every change it makes is a
`mark`: new bits in one group's bitmap, a new counter in that group's
descriptor, a new counter in the superblock. `Takes` says which marks one call
of `get_free_blocks` makes; all later facts about allocation are read off it. -/
namespace SbOS.Ext2
open Bytes List

namespace Geometry
variable (G : Geometry)

/-- The block of a group's bitmap. -/
def place : BitmapKind → Nat → Nat
  | .block => G.blockBitmap
  | .inode => G.inodeBitmap

/-- The number of bits in a group's bitmap. -/
def perGroup : BitmapKind → Nat
  | .block => G.blocksPerGroup
  | .inode => G.inodesPerGroup

/-- Bit `n` of the volume's bitmaps of one kind. -/
def used (kind : BitmapKind) (blocks : Nat → Bytes) (n : Nat) : Bool :=
  bit (G.place kind) (G.perGroup kind) blocks n

/-- The clear bits of one group's bitmap, in order. -/
def clearList (kind : BitmapKind) (blocks : Nat → Bytes) (group : Nat) : List Nat :=
  clearPositions (blocks (G.place kind group)) (G.perGroup kind)

/-- The number of clear bits of one group's bitmap. -/
def clearIn (kind : BitmapKind) (blocks : Nat → Bytes) (group : Nat) : Nat :=
  (G.clearList kind blocks group).length

/-- The number of clear bits of all bitmaps of one kind. -/
def clearTotal (kind : BitmapKind) (blocks : Nat → Bytes) : Nat :=
  ∑ group ∈ Finset.range G.groups, G.clearIn kind blocks group

/-- The counter in a group's descriptor. -/
def groupFree (kind : BitmapKind) (blocks : Nat → Bytes) (group : Nat) : Nat :=
  kind.unallocatedInGroup (G.desc blocks group)

/-- New bits in one bitmap, with both counters raised by the given amounts. -/
def mark (kind : BitmapKind) (v : Volume) (group : Nat) (bitmap : Bytes) (more16 more32 : Nat) :
    Volume where
  globals :=
    { v.globals with
      superblock := kind.setUnallocated v.globals.superblock
        (kind.unallocated v.globals.superblock + more32)
      superblockChanged := true }
  blocks := (G.putDesc (v.put (G.place kind group) (splice (v.blocks (G.place kind group)) 0 bitmap
    (G.perGroup kind / 8))) group (kind.setUnallocatedInGroup (G.desc v.blocks group)
      (G.groupFree kind v.blocks group + more16))).blocks

end Geometry

/-- The counter in the superblock. -/
def Volume.totalFree (kind : BitmapKind) (v : Volume) : Nat :=
  kind.unallocated v.globals.superblock

/-! ### Fields of the counters -/

namespace BitmapKind
variable {kind kind' : BitmapKind}

theorem unallocatedInGroup_lt (d : Bytes) : kind.unallocatedInGroup d < 2 ^ 16 := by
  cases kind <;> exact le16_lt _ _

theorem unallocated_lt (sb : Bytes) : kind.unallocated sb < 2 ^ 32 := by
  cases kind <;> exact le32_lt _ _

theorem unallocatedInGroup_set (d : Bytes) :
    kind'.unallocatedInGroup (slice (kind.setUnallocatedInGroup d n) 0 Bgdt.size) =
      if kind' = kind then n % 2 ^ 16 else kind'.unallocatedInGroup d := by
  cases kind <;> cases kind' <;> simp only [unallocatedInGroup, setUnallocatedInGroup,
    Bgdt.numUnallocatedBlocksInGroup, Bgdt.numUnallocatedInodesInGroup, Bgdt.size,
    Bgdt.setNumUnallocatedBlocksInGroup, Bgdt.setNumUnallocatedInodesInGroup, reduceCtorEq,
    if_true, if_false]
  all_goals rw [le16_slice (by decide)]
  · exact le16_put16_same
  · exact le16_put16_apart (by decide)
  · exact le16_put16_apart (by decide)
  · exact le16_put16_same

theorem unallocated_set (sb : Bytes) :
    kind'.unallocated (kind.setUnallocated sb n) =
      if kind' = kind then n % 2 ^ 32 else kind'.unallocated sb := by
  cases kind <;> cases kind' <;> simp only [unallocated, setUnallocated,
    Superblock.numBlocksUnallocated, Superblock.numInodesUnallocated,
    Superblock.setNumBlocksUnallocated, Superblock.setNumInodesUnallocated, reduceCtorEq,
    if_true, if_false]
  · exact le32_put32_same
  · exact le32_put32_apart (by decide)
  · exact le32_put32_apart (by decide)
  · exact le32_put32_same

end BitmapKind

/-- The counters of the superblock are no part of the geometry. -/
theorem Formatted.setCounter (formatted : Formatted G v)
    (kind : BitmapKind) (n : Nat) (changed : Bool) :
    Formatted G
      ⟨{ v.globals with
          superblock := kind.setUnallocated v.globals.superblock n
          superblockChanged := changed }, v.blocks⟩ := by
  have field : ∀ o, (o + 4 ≤ 12 ∨ 20 ≤ o) →
      le32 (kind.setUnallocated v.globals.superblock n) o = le32 v.globals.superblock o := by
    intro o apart
    refine le32_congr fun i bound => ?_
    cases kind <;> exact splice_outside (by omega)
  exact ⟨formatted.size, formatted.inodeSize, (field 24 (by decide)).trans formatted.log,
    (field 4 (by decide)).trans formatted.numBlocks,
    (field 0 (by decide)).trans formatted.numInodes,
    (field 32 (by decide)).trans formatted.blocksPerGroup,
    (field 40 (by decide)).trans formatted.inodesPerGroup, formatted.blockBitmap,
    formatted.inodeBitmap, formatted.inodeTable⟩

/-! ### The places of the bitmaps -/

namespace Geometry
variable {G : Geometry} {kind kind' : BitmapKind}

theorem place_meta (kind : BitmapKind) (group : g < G.groups) :
    ∃ node, G.IsMeta node ∧ G.metaBlock node = G.place kind g ∧
      node = (match kind with | .block => .blockBitmap g | .inode => .inodeBitmap g) := by
  cases kind
  · exact ⟨.blockBitmap g, group, rfl, rfl⟩
  · exact ⟨.inodeBitmap g, group, rfl, rfl⟩

section
variable (sound : G.Sound)
include sound

theorem place_ne_gdt (group : g < G.groups) : G.place kind g ≠ G.gdt := by
  obtain ⟨node, isMeta, placed, rfl⟩ := place_meta kind group
  intro same
  have := sound.apart _ _ isMeta (gdtBlocks_pos group) (placed.trans same)
  cases kind <;> cases this

theorem place_inj (group : g < G.groups) (group' : g' < G.groups)
    (same : G.place kind g = G.place kind' g') : kind = kind' ∧ g = g' := by
  obtain ⟨node, isMeta, placed, rfl⟩ := place_meta kind group
  obtain ⟨node', isMeta', placed', rfl⟩ := place_meta kind' group'
  have := sound.apart _ _ isMeta isMeta' (placed.trans (same.trans placed'.symm))
  cases kind <;> cases kind' <;> cases this <;> exact ⟨rfl, rfl⟩

theorem inodeBlock_ne_place (inode : G.IsInode n) (group : g < G.groups) :
    G.inodeBlock n ≠ G.place kind g := by
  obtain ⟨k, isMeta, placed, _⟩ := inodeBlock_meta inode
  obtain ⟨node', isMeta', placed', rfl⟩ := place_meta kind group
  intro same
  have := sound.apart _ _ isMeta isMeta' (placed.symm.trans (same.trans placed'.symm))
  cases kind <;> cases this

theorem place_visible (supported : G.Supported) (group : g < G.groups) :
    Visible G.bs (G.place kind g) := by
  obtain ⟨node, isMeta, placed, _⟩ := place_meta kind group
  exact placed ▸ visible sound supported.addressable isMeta

end

theorem perGroup_pos (G : Geometry) (kind : BitmapKind) : 0 < G.perGroup kind := by
  cases kind
  · exact G.blocksPerGroup_pos
  · exact G.inodesPerGroup_pos

theorem perGroup_eight (G : Geometry) (kind : BitmapKind) :
    8 * (G.perGroup kind / 8) = G.perGroup kind := by
  have : G.perGroup kind % 8 = 0 := by
    cases kind
    · exact G.blocksPerGroup_eight
    · exact G.inodesPerGroup_eight
  omega

theorem perGroup_room (G : Geometry) (kind : BitmapKind) : G.perGroup kind / 8 ≤ G.bs := by
  have : G.perGroup kind ≤ 8 * G.bs := by
    cases kind
    · exact G.blocksPerGroup_le
    · exact G.inodesPerGroup_le
  omega

theorem mem_clearList :
    i ∈ G.clearList kind blocks g ↔ i < G.perGroup kind ∧ bitAt (blocks (G.place kind g)) i = false := by
  simp [clearList, clearPositions]

theorem nodup_clearList : (G.clearList kind blocks g).Nodup := nodup_range.filter _

/-- The position of a bit inside its group. -/
theorem used_eq (n : Nat) : G.used kind blocks n =
    bitAt (blocks (G.place kind (n / G.perGroup kind))) (n % G.perGroup kind) := rfl

theorem clearIn_le : G.clearIn kind blocks g ≤ G.perGroup kind := by
  rw [clearIn, clearList, clearPositions, ← countBelow_eq_length]
  exact countBelow_le _ _

/-- Reading a bitmap block only as far as its bits go. -/
theorem clearPositions_slice (G : Geometry) (kind : BitmapKind) (bitmap : Bytes) :
    clearPositions (slice bitmap 0 (G.perGroup kind / 8)) (8 * (G.perGroup kind / 8)) =
      clearPositions bitmap (G.perGroup kind) := by
  rw [perGroup_eight]
  apply filter_congr
  intro pos member
  have := mem_range.mp member
  have := G.perGroup_eight kind
  rw [bitAt, slice_inside (by omega), zero_add, bitAt]

/-! ### Marking bits -/

section Mark
variable {v : Volume} {bitmap : Bytes} {more16 more32 : Nat}

theorem mark_other (names : b ≠ G.place kind g) (other : b ≠ G.gdt) :
    (G.mark kind v g bitmap more16 more32).blocks b = v.blocks b := by
  simp only [mark, putDesc]
  rw [Volume.put_other _ other, Volume.put_other _ names]

theorem mark_place (sound : G.Sound) (group : g < G.groups) :
    (G.mark kind v g bitmap more16 more32).blocks (G.place kind g) =
      splice (v.blocks (G.place kind g)) 0 bitmap (G.perGroup kind / 8) := by
  simp only [mark, putDesc]
  rw [Volume.put_other _ (place_ne_gdt sound group), Volume.put_same]

section
variable (sound : G.Sound) (supported : G.Supported) (group : g < G.groups) (group' : g' < G.groups)
include sound supported group group'

theorem mark_desc :
    G.desc (G.mark kind v g bitmap more16 more32).blocks g' =
      if g' = g then slice (kind.setUnallocatedInGroup (G.desc v.blocks g)
        (G.groupFree kind v.blocks g + more16)) 0 Bgdt.size
      else G.desc v.blocks g' := by
  simp only [mark]
  rw [desc_putDesc supported group group', desc_put supported group' (place_ne_gdt sound group)]

theorem mark_groupFree :
    G.groupFree kind' (G.mark kind v g bitmap more16 more32).blocks g' =
      if kind' = kind ∧ g' = g then (G.groupFree kind v.blocks g + more16) % 2 ^ 16
      else G.groupFree kind' v.blocks g' := by
  rw [groupFree, mark_desc sound supported group group']
  by_cases same : g' = g
  · subst same
    rw [if_pos rfl, BitmapKind.unallocatedInGroup_set]
    by_cases names : kind' = kind
    · rw [if_pos names, if_pos ⟨names, rfl⟩]
    · rw [if_neg names, if_neg (fun both => names both.1), groupFree]
  · rw [if_neg same, if_neg (fun both => same both.2), groupFree]

end

theorem mark_totalFree :
    (G.mark kind v g bitmap more16 more32).totalFree kind' =
      if kind' = kind then (v.totalFree kind + more32) % 2 ^ 32 else v.totalFree kind' :=
  BitmapKind.unallocated_set _

section
variable (sound : G.Sound) (group : g < G.groups)
include sound group

theorem mark_header (inode : G.IsInode n) :
    G.header (G.mark kind v g bitmap more16 more32).blocks n = G.header v.blocks n := by
  rw [header, mark_other (inodeBlock_ne_place sound inode group) (inodeBlock_ne_gdt sound inode),
    header]

/-- The bits of the marked bitmap come from `bitmap`. -/
theorem mark_bitAt (bound : i < G.perGroup kind) :
    bitAt ((G.mark kind v g bitmap more16 more32).blocks (G.place kind g)) i = bitAt bitmap i := by
  have := G.perGroup_eight kind
  rw [mark_place sound group]
  apply bitAt_congr
  rw [splice_inside (by omega) (by omega), Nat.sub_zero]

section
variable (group' : g' < G.groups) (other : ¬ (kind' = kind ∧ g' = g))
include group' other

/-- All other bitmaps stay as they are. -/
theorem mark_place_other :
    (G.mark kind v g bitmap more16 more32).blocks (G.place kind' g') =
      v.blocks (G.place kind' g') :=
  mark_other (fun same => other (place_inj sound group' group same)) (place_ne_gdt sound group')

theorem mark_clearIn_other :
    G.clearIn kind' (G.mark kind v g bitmap more16 more32).blocks g' = G.clearIn kind' v.blocks g' := by
  rw [clearIn, clearList, mark_place_other sound group group' other, clearIn, clearList]

end

end

theorem mark_formatted (sound : G.Sound) (supported : G.Supported) (formatted : Formatted G v)
    (group : g < G.groups) : Formatted G (G.mark kind v g bitmap more16 more32) := by
  have counted := formatted.setCounter kind (kind.unallocated v.globals.superblock + more32) true
  refine counted.of_desc rfl rfl rfl fun g' group' i bound => ?_
  rw [mark_desc sound supported group group']
  split
  · rename_i same
    subst same
    rw [slice_inside (by simp only [Bgdt.size]; omega), zero_add]
    cases kind <;> exact splice_outside (by omega)
  · rfl

end Mark

end Geometry

/-! ### Taking blocks -/

namespace Geometry
variable (G : Geometry)

/-- The bits `positions` of one group are taken; the counters go down by one. -/
def take (v : Volume) (group : Nat) (positions : List Nat) : Volume :=
  G.mark .block v group
    (setBits (slice (v.blocks (G.blockBitmap group)) 0 (G.blocksPerGroup / 8)) positions)
    (2 ^ 16 - 1) (2 ^ 32 - 1)

end Geometry

/-- What the loop over `groups` in `get_free_blocks` does when `wanted` entries
are missing: the entries it adds and the volume it leaves. -/
inductive Takes (G : Geometry) : List Nat → Nat → Volume → List Nat → Volume → Prop where
  | enough : Takes G groups 0 v [] v
  | done : Takes G [] wanted v [] v
  | skip {v v' : Volume} {group wanted : Nat} {groups new : List Nat}
      (nothing : G.groupFree .block v.blocks group = 0 ∨ G.clearIn .block v.blocks group = 0)
      (rest : Takes G groups wanted v new v') : Takes G (group :: groups) wanted v new v'
  | take {v v' : Volume} {group wanted : Nat} {groups new positions : List Nat}
      (positive : 0 < wanted) (counted : G.groupFree .block v.blocks group ≠ 0)
      (found : 0 < G.clearIn .block v.blocks group)
      (taken : positions = (G.clearList .block v.blocks group).take wanted)
      (rest : Takes G groups (wanted - positions.length) (G.take v group positions) new v') :
      Takes G (group :: groups) wanted v
        (positions.map (group * G.blocksPerGroup + ·) ++ new) v'

section Run
variable {G : Geometry} {v : Volume}

/-- The bits of all groups have 32-bit numbers. -/
theorem bits_lt (supported : G.Supported) (group : g < G.groups) :
    (g + 1) * G.blocksPerGroup < 2 ^ 31 := by
  have bound : g * G.blocksPerGroup ≤ G.numBlocks := by
    have := G.groups_of_blocks
    have positive := G.blocksPerGroup_pos
    by_contra more
    have : blocksRequired G.numBlocks G.blocksPerGroup ≤ g := by
      unfold blocksRequired
      have split := Nat.div_add_mod G.numBlocks G.blocksPerGroup
      split
      · rename_i rest
        have : G.numBlocks / G.blocksPerGroup < g := by
          apply Nat.lt_of_mul_lt_mul_left (a := G.blocksPerGroup)
          rw [Nat.mul_comm _ g]
          omega
        omega
      · have : G.numBlocks / G.blocksPerGroup ≤ g := by
          apply Nat.le_of_mul_le_mul_left _ positive
          rw [Nat.mul_comm _ g]
          omega
        omega
    omega
  have small : G.numBlocks * 1024 ≤ 2 ^ 32 :=
    Nat.le_trans (Nat.mul_le_mul_left _ G.bs_ge) supported.addressable
  have := G.blocksPerGroup_le
  have large : G.bs ≤ 65536 := G.bs_le
  unfold Geometry.bs at large
  rw [Nat.add_mul]
  omega

section
variable (kind : BitmapKind) (sound : G.Sound) (supported : G.Supported) (formatted : Formatted G v)
  (group : g < G.groups)
include kind sound supported formatted group

theorem run_readBitmap :
    v.run (ext2ReadBlock (G.place kind g) (G.perGroup kind / 8) 0) =
      .ok (slice (v.blocks (G.place kind g)) 0 (G.perGroup kind / 8), v) :=
  formatted.run_read (G.place_visible sound supported group)
    (by rw [zero_add]; exact G.perGroup_room kind)

theorem run_writeBitmap (bitmap : Bytes) :
    v.run (ext2WriteBlock (G.place kind g) bitmap (G.perGroup kind / 8) 0) =
      .ok ((), v.put (G.place kind g) (splice (v.blocks (G.place kind g)) 0 bitmap
        (G.perGroup kind / 8))) :=
  formatted.run_write (G.place_visible sound supported group)
    (by rw [zero_add]; exact G.perGroup_room kind) bitmap

end

theorem Formatted.put_place (sound : G.Sound) (supported : G.Supported) (formatted : Formatted G v)
    (group : g < G.groups) : Formatted G (v.put (G.place kind g) bytes) :=
  formatted.of_desc rfl rfl rfl fun _ group' _ _ => by
    rw [G.desc_put supported group' (G.place_ne_gdt sound group)]

/-- The loop over the groups, one `take` or nothing for each of them. -/
theorem run_freeBlocksInGroups (sound : G.Sound) (supported : G.Supported) (numEntries : Nat)
    (groups : List Nat) (inside : ∀ g ∈ groups, g < G.groups) (entries : List Nat)
    (formatted : Formatted G v) :
    ∃ new v', v.run (freeBlocksInGroups true numEntries groups entries) =
        .ok (entries ++ new, v') ∧ Takes G groups (numEntries - entries.length) v new v' := by
  induction groups generalizing v entries with
  | nil => exact ⟨[], v, by simp [freeBlocksInGroups], .done⟩
  | cons g rest ih =>
    have group := inside g (by simp)
    have ih := fun {v : Volume} => ih (v := v) (fun g member => inside g (by simp [member]))
    by_cases room : entries.length < numEntries
    · simp only [freeBlocksInGroups, if_pos room]
      rw [Volume.run_getGlobals, formatted.blocksPerGroup,
        Volume.run_bind (run_getGroupDescriptor sound supported formatted group)]
      by_cases empty : Bgdt.numUnallocatedBlocksInGroup (G.desc v.blocks g) = 0
      · obtain ⟨new, v', ran, takes⟩ := ih entries formatted
        rw [if_pos empty]
        exact ⟨new, v', ran, .skip (Or.inl empty) takes⟩
      have read : v.run (ext2ReadBlock (G.blockBitmap g) (G.blocksPerGroup / 8) 0) =
          .ok (slice (v.blocks (G.blockBitmap g)) 0 (G.blocksPerGroup / 8), v) :=
        run_readBitmap .block sound supported formatted group
      have scanned := scanBitmap_spec numEntries (g * G.blocksPerGroup)
        (G.blocksPerGroup / 8) (slice (v.blocks (G.blockBitmap g)) 0 (G.blocksPerGroup / 8)) entries
      rw [show clearPositions (slice (v.blocks (G.blockBitmap g)) 0 (G.blocksPerGroup / 8))
        (8 * (G.blocksPerGroup / 8)) = G.clearList .block v.blocks g
        from G.clearPositions_slice .block _] at scanned
      generalize takenEq : (G.clearList .block v.blocks g).take (numEntries - entries.length) =
        taken at scanned
      have small : taken.map (fun pos => u32 (pos + g * G.blocksPerGroup)) =
          taken.map (g * G.blocksPerGroup + ·) := by
        apply map_congr_left
        intro pos member
        have bound : pos < G.blocksPerGroup :=
          (G.mem_clearList.mp (mem_of_mem_take (takenEq ▸ member))).1
        have := bits_lt supported group
        rw [add_mul] at this
        rw [u32_of_lt (by omega), add_comm]
      have count : taken.length = min (numEntries - entries.length) (G.clearIn .block v.blocks g) := by
        rw [← takenEq, length_take, Geometry.clearIn]
      rw [if_neg empty, formatted.blockBitmap g group, Volume.run_bind read, scanned, small]
      by_cases none' : taken = []
      · subst none'
        obtain ⟨new, v', ran, takes⟩ := ih entries formatted
        refine ⟨new, v', by simpa using ran, .skip (Or.inr ?_) takes⟩
        simp only [length_nil] at count
        omega
      · have some' : 0 < taken.length := length_pos_iff.mpr none'
        have written := run_writeBitmap .block sound supported formatted group
          (setBits (slice (v.blocks (G.blockBitmap g)) 0 (G.blocksPerGroup / 8)) taken)
        change v.run (ext2WriteBlock (G.blockBitmap g) _ (G.blocksPerGroup / 8) 0) = _ at written
        rw [if_pos (by simp [none']), Volume.run_bind written,
          Volume.run_bind (run_writeGroupDescriptor sound supported
            (formatted.put_place sound supported group) group _), Volume.run_getGlobals,
          Volume.run_setGlobals]
        swap
        · exact ⟨rfl, fun _ => rfl⟩
        obtain ⟨new, v', ran, takes⟩ := ih (v := G.take v g taken)
          (entries ++ taken.map (g * G.blocksPerGroup + ·))
          (G.mark_formatted sound supported formatted group)
        refine ⟨taken.map (g * G.blocksPerGroup + ·) ++ new, v', ?_, ?_⟩
        · rw [← append_assoc, ← ran]
          rfl
        · rw [length_append, length_map, ← Nat.sub_sub] at takes
          exact .take (by omega) empty (by omega) takenEq.symm takes
    · simp only [freeBlocksInGroups, if_neg room]
      refine ⟨[], v, by simp, ?_⟩
      rw [show numEntries - entries.length = 0 by omega]
      exact .enough

end Run

/-! ### What an allocation changes -/

/-- Blocks `new` have been allocated and nothing else has changed, counters
apart. -/
structure Allocated (G : Geometry) (v : Volume) (new : List Nat) (v' : Volume) : Prop where
  formatted : Formatted G v'
  globals : v'.globals =
    { v.globals with
      superblock := v'.globals.superblock
      superblockChanged := v'.globals.superblockChanged }
  superblock : ∀ i, i < 12 ∨ 16 ≤ i → v'.globals.superblock i = v.globals.superblock i
  frame : ∀ b, b ≠ G.gdt → (∀ g < G.groups, b ≠ G.blockBitmap g) → v'.blocks b = v.blocks b
  descs : ∀ g < G.groups, ∀ i, i < 12 ∨ 14 ≤ i → G.desc v'.blocks g i = G.desc v.blocks g i
  nodup : new.Nodup
  fresh : ∀ b ∈ new, b / G.blocksPerGroup < G.groups ∧ G.blockUsed v.blocks b = false
  used : ∀ b, b / G.blocksPerGroup < G.groups →
    G.blockUsed v'.blocks b = (G.blockUsed v.blocks b || decide (b ∈ new))
  count : G.clearTotal .block v'.blocks + new.length = G.clearTotal .block v.blocks

namespace Allocated
variable {G : Geometry} {v v' v'' : Volume}

theorem refl (formatted : Formatted G v) : Allocated G v [] v :=
  ⟨formatted, rfl, fun _ _ => rfl, fun _ _ _ => rfl, fun _ _ _ _ => rfl, nodup_nil, by simp,
    by simp, rfl⟩

theorem trans (first : Allocated G v new v') (second : Allocated G v' new' v'') :
    Allocated G v (new ++ new') v'' := by
  have later : ∀ b ∈ new', b ∉ new ∧ G.blockUsed v.blocks b = false := by
    intro b member
    obtain ⟨inside, clear⟩ := second.fresh b member
    rw [first.used b inside] at clear
    simpa [and_comm] using clear
  refine ⟨second.formatted, ?_, ?_, ?_, ?_, ?_, ?_, ?_, ?_⟩
  · rw [second.globals, first.globals]
  · intro i outside
    rw [second.superblock i outside, first.superblock i outside]
  · intro b other names
    rw [second.frame b other names, first.frame b other names]
  · intro g group i outside
    rw [second.descs g group i outside, first.descs g group i outside]
  · refine nodup_append.mpr ⟨first.nodup, second.nodup, ?_⟩
    rintro a old b young rfl
    exact (later a young).1 old
  · intro b member
    rcases mem_append.mp member with old | young
    · exact first.fresh b old
    · exact ⟨(second.fresh b young).1, (later b young).2⟩
  · intro b inside
    rw [second.used b inside, first.used b inside, Bool.or_assoc]
    simp [Bool.decide_or]
  · rw [length_append]
    have := first.count
    have := second.count
    omega

end Allocated

namespace Geometry
variable {G : Geometry} {v : Volume}

section Take
variable {positions : List Nat}

theorem take_bitAt (v : Volume) (positions : List Nat) (sound : G.Sound) (group : g < G.groups)
    (bound : i < G.blocksPerGroup) :
    bitAt ((G.take v g positions).blocks (G.blockBitmap g)) i =
      (bitAt (v.blocks (G.blockBitmap g)) i || decide (i ∈ positions)) := by
  have := G.perGroup_eight .block
  change 8 * (G.blocksPerGroup / 8) = G.blocksPerGroup at this
  rw [take, show G.blockBitmap g = G.place .block g from rfl, G.mark_bitAt sound group bound,
    bitAt_setBits]
  congr 1
  apply bitAt_congr
  rw [slice_inside (by omega), zero_add]

section
variable (sound : G.Sound) (group : g < G.groups)
  (taken : positions = (G.clearList .block v.blocks g).take wanted)
include sound group taken

theorem take_clearList :
    G.clearList .block (G.take v g positions).blocks g =
      (G.clearList .block v.blocks g).drop wanted := by
  rw [clearList, clearPositions, clearList, clearPositions, ← filter_take_removed nodup_range]
  apply filter_congr
  intro i member
  have bit := take_bitAt v positions sound group (mem_range.mp member)
  change bitAt ((G.take v g positions).blocks (G.place .block g)) i = _ at bit
  rw [bit, Bool.not_or, taken]
  rfl

/-- A `take` lowers the number of clear bits of its group by what it takes. -/
theorem take_clearIn :
    G.clearIn .block (G.take v g positions).blocks g + positions.length =
      G.clearIn .block v.blocks g := by
  rw [clearIn, take_clearList sound group taken, length_drop, taken, length_take, clearIn]
  omega

theorem take_clearTotal :
    G.clearTotal .block (G.take v g positions).blocks + positions.length =
      G.clearTotal .block v.blocks := by
  have update := sum_range_update (f := G.clearIn .block v.blocks)
    (h := G.clearIn .block (G.take v g positions).blocks) group fun g' group' other =>
      G.mark_clearIn_other sound group group' (fun both => other both.2)
  have := take_clearIn sound group taken
  simp only [clearTotal]
  omega

end

/-- The numbers of the blocks taken from one group. -/
theorem mem_taken (small : ∀ i ∈ positions, i < G.blocksPerGroup) :
    b ∈ positions.map (g * G.blocksPerGroup + ·) ↔
      b / G.blocksPerGroup = g ∧ b % G.blocksPerGroup ∈ positions := by
  have positive := G.blocksPerGroup_pos
  constructor
  · intro member
    obtain ⟨i, inside, rfl⟩ := mem_map.mp member
    have := small i inside
    rw [mul_comm, Nat.mul_add_div positive, Nat.div_eq_of_lt this, Nat.mul_add_mod,
      Nat.mod_eq_of_lt this]
    exact ⟨rfl, inside⟩
  · rintro ⟨rfl, inside⟩
    exact mem_map.mpr ⟨_, inside, by rw [mul_comm]; exact Nat.div_add_mod b _⟩

theorem take_allocated (sound : G.Sound) (supported : G.Supported) (formatted : Formatted G v)
    (group : g < G.groups) (taken : positions = (G.clearList .block v.blocks g).take wanted) :
    Allocated G v (positions.map (g * G.blocksPerGroup + ·)) (G.take v g positions) := by
  have clear : ∀ i ∈ positions, i < G.blocksPerGroup ∧
      bitAt (v.blocks (G.blockBitmap g)) i = false := by
    intro i member
    exact G.mem_clearList.mp (mem_of_mem_take (taken ▸ member))
  have small := fun i member => (clear i member).1
  constructor
  case formatted => exact G.mark_formatted sound supported formatted group
  case globals => rfl
  case superblock =>
    intro i outside
    exact splice_outside (by omega)
  case frame =>
    intro b other names
    exact G.mark_other (names g group) other
  case descs =>
    intro g' group' i outside
    rw [take, G.mark_desc sound supported group group']
    split
    · rename_i same
      subst same
      by_cases inside : i < Bgdt.size
      · rw [slice_inside inside, zero_add]
        exact splice_outside (by omega)
      · rw [slice_outside (by omega), desc, slice_outside (by omega)]
    · rfl
  case nodup =>
    apply Nodup.map (fun a b same => by simpa using same)
    rw [taken]
    exact nodup_clearList.sublist (take_sublist _ _)
  case fresh =>
    intro b member
    obtain ⟨rfl, inside⟩ := (mem_taken small).mp member
    exact ⟨group, (clear _ inside).2⟩
  case used =>
    intro b inside
    simp only [mem_taken small]
    by_cases same : b / G.blocksPerGroup = g
    · subst same
      have bound := Nat.mod_lt b G.blocksPerGroup_pos
      have bit := take_bitAt v positions sound group bound
      change G.blockUsed (G.take v _ positions).blocks b = (G.blockUsed v.blocks b || _) at bit
      rw [bit]
      simp
    · have kept : (G.take v g positions).blocks (G.blockBitmap (b / G.blocksPerGroup)) =
          v.blocks (G.blockBitmap _) :=
        G.mark_place_other sound group inside fun (both : BitmapKind.block = _ ∧ _) => same both.2
      rw [blockUsed, bit, kept]
      simp [same, blockUsed, bit]
  case count =>
    rw [length_map]
    exact take_clearTotal sound group taken

end Take

end Geometry

section Takes
variable {G : Geometry} {v v' : Volume}

/-- The loop over the groups allocates what it returns. -/
theorem Takes.allocated (sound : G.Sound) (supported : G.Supported) (formatted : Formatted G v)
    (takes : Takes G groups wanted v new v') (inside : ∀ g ∈ groups, g < G.groups) :
    Allocated G v new v' := by
  induction takes with
  | enough => exact .refl formatted
  | done => exact .refl formatted
  | skip _ _ ih => exact ih formatted fun g member => inside g (by simp [member])
  | take _ _ _ taken _ ih =>
    have first := G.take_allocated sound supported formatted (inside _ (by simp)) taken
    exact first.trans (ih first.formatted fun g member => inside g (by simp [member]))

/-- The counters promise at least as many blocks as there are clear bits. -/
structure Generous (G : Geometry) (v : Volume) : Prop where
  group : ∀ g < G.groups, G.clearIn .block v.blocks g ≤ G.groupFree .block v.blocks g
  total : G.clearTotal .block v.blocks ≤ v.totalFree .block

theorem take_generous (sound : G.Sound) (supported : G.Supported) (generous : Generous G v)
    (group : g < G.groups) (counted : G.groupFree .block v.blocks g ≠ 0)
    (counted' : v.totalFree .block ≠ 0) (some' : 0 < positions.length)
    (taken : positions = (G.clearList .block v.blocks g).take wanted) :
    Generous G (G.take v g positions) ∧
      (G.take v g positions).totalFree .block = v.totalFree .block - 1 := by
  have here := G.take_clearIn sound group taken
  have all := G.take_clearTotal sound group taken
  have low : G.groupFree .block v.blocks g < 2 ^ 16 := BitmapKind.unallocatedInGroup_lt _
  have low' : v.totalFree .block < 2 ^ 32 := BitmapKind.unallocated_lt _
  have total : (G.take v g positions).totalFree .block = v.totalFree .block - 1 := by
    rw [Geometry.take, G.mark_totalFree, if_pos rfl]
    omega
  refine ⟨⟨fun g' group' => ?_, ?_⟩, total⟩
  · rw [Geometry.take, G.mark_groupFree sound supported group group']
    have before := generous.group g' group'
    by_cases same : g' = g
    · subst same
      rw [if_pos ⟨rfl, rfl⟩]
      change G.clearIn .block (G.take v g' positions).blocks g' ≤ _
      omega
    · rw [if_neg (fun both => same both.2),
        G.mark_clearIn_other sound group group' (fun both => same both.2)]
      exact before
  · have := generous.total
    omega

/-- As long as the counters are generous, the loop finds as many blocks as there
are, up to what is wanted, and leaves the counters generous. -/
theorem Takes.generous (sound : G.Sound) (supported : G.Supported) (generous : Generous G v)
    (takes : Takes G groups wanted v new v') (inside : ∀ g ∈ groups, g < G.groups)
    (nodup : groups.Nodup) (counted : wanted ≤ v.totalFree .block) :
    Generous G v' ∧ new.length = min wanted (groups.map (G.clearIn .block v.blocks)).sum := by
  induction takes with
  | enough => exact ⟨generous, by simp⟩
  | done => exact ⟨generous, by simp⟩
  | @skip v v' g wanted groups new nothing _ ih =>
    obtain ⟨generous', length⟩ := ih generous (fun g member => inside g (by simp [member]))
      (nodup_cons.mp nodup).2 counted
    have := generous.group g (inside g (by simp))
    refine ⟨generous', ?_⟩
    rw [length, map_cons, sum_cons]
    omega
  | @take v v' g wanted groups new positions positive counted' found taken _ ih =>
    have group := inside g (by simp)
    have length : positions.length = min wanted (G.clearIn .block v.blocks g) := by
      rw [taken, length_take, Geometry.clearIn]
    obtain ⟨generous', total⟩ := take_generous sound supported generous group counted' (by omega)
      (by omega) taken
    obtain ⟨generous'', more⟩ := ih generous' (fun g member => inside g (by simp [member]))
      (nodup_cons.mp nodup).2 (by omega)
    refine ⟨generous'', ?_⟩
    have others : groups.map (G.clearIn .block (G.take v g positions).blocks) =
        groups.map (G.clearIn .block v.blocks) := by
      apply map_congr_left
      intro g' member
      exact G.mark_clearIn_other sound group (inside g' (by simp [member]))
        (fun both => (nodup_cons.mp nodup).1 (both.2 ▸ member))
    rw [length_append, length_map, more, others, map_cons, sum_cons]
    omega

end Takes

/-! ### The allocator's functions -/

section Run
variable {G : Geometry} {v : Volume}

/-- `get_free_blocks` refuses when the superblock's counter is too low, and
otherwise walks over all groups. -/
theorem run_getFreeBlocks (sound : G.Sound) (supported : G.Supported) (formatted : Formatted G v)
    (n : Nat) :
    ∃ new v', v.run (getFreeBlocks true n) = .ok (new, v') ∧
      ((v.totalFree .block < n ∧ new = [] ∧ v' = v) ∨
        (n ≤ v.totalFree .block ∧ Takes G (range G.groups) n v new v')) := by
  unfold getFreeBlocks
  change ∃ new v', v.run (if v.totalFree .block < n then _ else _) = _ ∧ _
  by_cases few : v.totalFree .block < n
  · rw [if_pos few]
    exact ⟨[], v, rfl, Or.inl ⟨few, rfl, rfl⟩⟩
  · rw [if_neg few, Volume.run_assert (by rw [formatted.blocksPerGroup, G.blocksPerGroup_eight]),
      Volume.run_bind (run_numBlockGroups formatted)]
    obtain ⟨new, v', ran, takes⟩ := run_freeBlocksInGroups sound supported n (range G.groups)
      (fun g member => mem_range.mp member) [] formatted
    exact ⟨new, v', ran, Or.inr ⟨by omega, takes⟩⟩

/-- With generous counters `get_free_blocks` allocates exactly `n` blocks if
there are as many, and fewer otherwise. -/
theorem run_getFreeBlocks_generous (sound : G.Sound) (supported : G.Supported)
    (formatted : Formatted G v) (generous : Generous G v) (n : Nat) :
    ∃ new v', v.run (getFreeBlocks true n) = .ok (new, v') ∧ Allocated G v new v' ∧
      Generous G v' ∧ (n ≤ G.clearTotal .block v.blocks → new.length = n) ∧
      new.length ≤ n := by
  obtain ⟨new, v', ran, outcome⟩ := run_getFreeBlocks sound supported formatted n
  have total := generous.total
  rcases outcome with ⟨few, rfl, rfl⟩ | ⟨enough, outcome⟩
  · exact ⟨[], v', ran, .refl formatted, generous, by omega, by simp⟩
  · have inside : ∀ g ∈ range G.groups, g < G.groups := fun g member => mem_range.mp member
    obtain ⟨generous', length⟩ := outcome.generous sound supported generous inside nodup_range
      (by omega)
    have sum : ((range G.groups).map (G.clearIn .block v.blocks)).sum =
        G.clearTotal .block v.blocks := rfl
    exact ⟨new, v', ran, outcome.allocated sound supported formatted inside, generous', by omega,
      by omega⟩

end Run

end SbOS.Ext2
