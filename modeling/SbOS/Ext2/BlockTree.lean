import SbOS.Lib.PointerTree
import SbOS.Ext2.AllocationProofs

/-! The blocks of a file as a tree: data blocks, the single-indirect block, the
double-indirect block and the indirect blocks below it, and the functions that
read and extend the tree. -/
namespace SbOS.Ext2
open Bytes PointerTree Function

/-- A block of a file. -/
inductive FileNode where
  | data (i : Nat)
  | single
  | double
  | inner (j : Nat)
deriving DecidableEq

namespace FileNode

/-- Indirect blocks, which hold pointers. -/
def IsTable : FileNode → Prop
  | .data _ => False
  | _ => True

/-- The table with the pointer to a block, if it is not in the inode. -/
def parent (capacity : Nat) : FileNode → Option FileNode
  | .data i =>
    if i < 12 then none
    else if i < 12 + capacity then some .single
    else some (.inner ((i - 12 - capacity) / capacity))
  | .single | .double => none
  | .inner _ => some .double

/-- The place of the pointer in its table, or among the pointers of the inode. -/
def slot (capacity : Nat) : FileNode → Nat
  | .data i =>
    if i < 12 then i
    else if i < 12 + capacity then i - 12
    else (i - 12 - capacity) % capacity
  | .single => 12
  | .double => 13
  | .inner j => j

def rank : FileNode → Nat
  | .data _ => 2
  | .single | .double => 0
  | .inner _ => 1

/-- No two blocks of a file share a pointer. -/
theorem parent_slot_inj (sameParent : parent capacity a = parent capacity b)
    (sameSlot : slot capacity a = slot capacity b) : a = b := by
  cases a <;> cases b <;> simp only [parent, slot] at sameParent sameSlot
  case data.data i k =>
    congr 1
    split at sameParent <;> split at sameParent <;> (try split at sameParent) <;>
      (try split at sameParent) <;> simp_all
    · omega
    · rename_i below below' _ _
      have whole := Nat.div_add_mod (i - 12 - capacity) capacity
      have whole' := Nat.div_add_mod (k - 12 - capacity) capacity
      rw [sameParent, sameSlot] at whole
      omega
  case inner.inner => rw [sameSlot]
  all_goals grind

/-- The first data block that cannot do without this block. -/
def first (capacity : Nat) : FileNode → Nat
  | .data i => i
  | .single => 12
  | .double => 12 + capacity
  | .inner j => 12 + capacity + j * capacity

section
variable (under : parent capacity node = some above)
include under

theorem parent_isTable : above.IsTable := by
  cases node with
  | data i =>
    simp only [parent] at under
    split at under
    · cases under
    · split at under <;> cases under <;> trivial
  | inner j => cases under; trivial
  | single => cases under
  | double => cases under

theorem parent_rank : rank above < rank node := by
  cases node with
  | data i =>
    simp only [parent] at under
    split at under
    · cases under
    · split at under <;> cases under <;> simp [rank]
  | inner j => cases under; simp [rank]
  | single => cases under
  | double => cases under

theorem parent_first :
    first capacity above ≤ first capacity node := by
  cases node with
  | data i =>
    simp only [parent] at under
    split at under
    · cases under
    · split at under <;> cases under <;> simp only [first]
      · omega
      · have := Nat.div_mul_le_self (i - 12 - capacity) capacity
        omega
  | inner j =>
    cases under
    exact Nat.le_add_right _ _
  | single => cases under
  | double => cases under

end

end FileNode

/-- Where the pointers to the blocks of a file are. -/
def fileShape (capacity : Nat) : Shape FileNode where
  parent := FileNode.parent capacity
  slot := FileNode.slot capacity
  rank := FileNode.rank
  descends := FileNode.parent_rank
  separate := FileNode.parent_slot_inj

/-- The blocks of a file with `n` data blocks. -/
def Live (capacity n : Nat) : Set FileNode := {node | node.first capacity < n}

theorem live_mono (more : n ≤ m) : Live capacity n ⊆ Live capacity m :=
  fun _ member => member.trans_le more

theorem live_closed (member : node ∈ Live capacity n)
    (under : FileNode.parent capacity node = some above) : above ∈ Live capacity n :=
  (FileNode.parent_first under).trans_lt member

theorem live_succ : node ∈ Live capacity (n + 1) ↔
    node ∈ Live capacity n ∨ node.first capacity = n := by
  change node.first capacity < n + 1 ↔ node.first capacity < n ∨ _
  omega

/-- The blocks that data block `i` is the first to need. -/
theorem first_eq_cases {node : FileNode} (same : node.first capacity = i) :
    node = .data i ∨ (node = .single ∧ i = 12) ∨ (node = .double ∧ i = 12 + capacity) ∨
      ∃ j, node = .inner j ∧ i = 12 + capacity + j * capacity := by
  cases node with
  | data k => exact Or.inl (congrArg _ same)
  | single => exact Or.inr (Or.inl ⟨rfl, same.symm⟩)
  | double => exact Or.inr (Or.inr (Or.inl ⟨rfl, same.symm⟩))
  | inner j => exact Or.inr (Or.inr (Or.inr ⟨j, rfl, same.symm⟩))

/-- A data block that needs no new indirect block. -/
theorem live_plain (first : i ≠ 12) (boundary : ∀ j, i ≠ 12 + capacity + j * capacity) :
    Live capacity (i + 1) = insert (.data i) (Live capacity i) := by
  ext node
  rw [live_succ, Set.mem_insert_iff, or_comm]
  apply or_congr_left
  constructor
  · intro same
    rcases first_eq_cases same with rfl | ⟨_, here⟩ | ⟨_, here⟩ | ⟨j, _, here⟩
    · rfl
    · exact absurd here first
    · exact absurd here (by simpa using boundary 0)
    · exact absurd here (boundary j)
  · rintro rfl
    rfl

/-- The first block found through the single-indirect block. -/
theorem live_single (positive : 0 < capacity) :
    Live capacity 13 = insert (.data 12) (insert .single (Live capacity 12)) := by
  ext node
  rw [live_succ, Set.mem_insert_iff, Set.mem_insert_iff]
  constructor
  · rintro (old | same)
    · exact Or.inr (Or.inr old)
    · rcases first_eq_cases same with rfl | ⟨rfl, _⟩ | ⟨_, here⟩ | ⟨j, _, here⟩
      · exact Or.inl rfl
      · exact Or.inr (Or.inl rfl)
      · omega
      · omega
  · rintro (rfl | rfl | old)
    · exact Or.inr rfl
    · exact Or.inr rfl
    · exact Or.inl old

/-- The first block found through a further indirect block. -/
theorem live_inner (positive : 0 < capacity) :
    Live capacity (12 + capacity + j * capacity + 1) =
      insert (.data (12 + capacity + j * capacity)) (insert (.inner j)
        (if j = 0 then insert .double (Live capacity (12 + capacity + j * capacity))
          else Live capacity (12 + capacity + j * capacity))) := by
  ext node
  rw [live_succ, Set.mem_insert_iff, Set.mem_insert_iff]
  constructor
  · rintro (old | same)
    · refine Or.inr (Or.inr ?_)
      split
      · exact Or.inr old
      · exact old
    · rcases first_eq_cases same with rfl | ⟨_, here⟩ | ⟨rfl, here⟩ | ⟨k, rfl, here⟩
      · exact Or.inl rfl
      · omega
      · have : j = 0 := by
          rcases Nat.eq_zero_or_pos j with zero | more
          · exact zero
          · have := Nat.mul_pos more positive
            omega
        rw [if_pos this]
        exact Or.inr (Or.inr (Or.inl rfl))
      · have : j = k := Nat.eq_of_mul_eq_mul_right positive (by omega)
        exact Or.inr (Or.inl (by rw [this]))
  · rintro (rfl | rfl | old)
    · exact Or.inr rfl
    · exact Or.inr rfl
    · split at old
      · rename_i zero
        subst zero
        rcases old with rfl | old
        · exact Or.inr (by simp [FileNode.first])
        · exact Or.inl old
      · exact Or.inl old

/-- The number of indirect blocks of a file with `n` data blocks. -/
def indirectBlocks (capacity n : Nat) : Nat :=
  (if 12 < n then 1 else 0) +
    if 12 + capacity < n then 1 + blocksRequired (n - 12 - capacity) capacity else 0

/-- The number of indirect blocks that data block `i` is the first to need. -/
def newTables (capacity i : Nat) : Nat :=
  (if i = 12 then 1 else 0) +
    ((if i = 12 + capacity then 1 else 0) +
      if 12 + capacity ≤ i ∧ (i - 12 - capacity) % capacity = 0 then 1 else 0)

theorem blocksRequired_succ (positive : 0 < b) :
    blocksRequired (n + 1) b = blocksRequired n b + if n % b = 0 then 1 else 0 := by
  have whole := Nat.div_add_mod n b
  have below := Nat.mod_lt n positive
  unfold blocksRequired
  by_cases last : n % b + 1 = b
  · have quotient : (n + 1) / b = n / b + 1 := by
      rw [show n + 1 = b * (n / b + 1) by rw [mul_add]; omega, Nat.mul_div_cancel_left _ positive]
    have rest : (n + 1) % b = 0 := by
      rw [show n + 1 = b * (n / b + 1) by rw [mul_add]; omega, Nat.mul_mod_right]
    rw [quotient, rest]
    rcases Nat.eq_zero_or_pos (n % b) with zero | more
    · simp [zero]
    · simp [Nat.pos_iff_ne_zero.mp more]
  · have quotient : (n + 1) / b = n / b := by
      rw [show n + 1 = b * (n / b) + (n % b + 1) by omega, Nat.mul_add_div positive,
        Nat.div_eq_of_lt (show n % b + 1 < b by omega), add_zero]
    have rest : (n + 1) % b = n % b + 1 := by
      rw [show n + 1 = b * (n / b) + (n % b + 1) by omega, Nat.mul_add_mod, Nat.mod_eq_of_lt]
      omega
    rw [quotient, rest]
    by_cases zero : n % b = 0 <;> simp [zero]

theorem indirectBlocks_succ (positive : 0 < capacity) (n : Nat) :
    indirectBlocks capacity (n + 1) = indirectBlocks capacity n + newTables capacity n := by
  unfold indirectBlocks newTables
  by_cases low : n < 12 + capacity
  · simp only [show ¬ 12 + capacity < n + 1 by omega, show ¬ 12 + capacity < n by omega,
      show ¬ n = 12 + capacity by omega, show ¬ 12 + capacity ≤ n by omega, false_and, if_false]
    split <;> split <;> split <;> omega
  · have step := blocksRequired_succ (n := n - 12 - capacity) positive
    rw [show n - 12 - capacity + 1 = n + 1 - 12 - capacity by omega] at step
    rw [step]
    simp only [show 12 < n + 1 by omega, show 12 < n by omega, show 12 + capacity < n + 1 by omega,
      show ¬ n = 12 by omega, show 12 + capacity ≤ n by omega, true_and, if_true, if_false]
    rcases Nat.eq_or_lt_of_le (show 12 + capacity ≤ n by omega) with same | more
    · subst same
      simp [blocksRequired]
    · simp only [if_pos more, show ¬ n = 12 + capacity by omega, if_false]
      omega

theorem indirectBlocks_mono (positive : 0 < capacity) (more : n ≤ m) :
    indirectBlocks capacity n ≤ indirectBlocks capacity m := by
  induction more with
  | refl => exact le_rfl
  | step _ ih =>
    rw [indirectBlocks_succ positive]
    omega

/-! ### Pointers on disk -/

namespace Geometry

/-- `INDIRECT_BLOCK_CAPACITY`. -/
def capacity (G : Geometry) : Nat := G.bs / 4

variable {G : Geometry}

theorem four_capacity : 4 * G.capacity = G.bs := by
  have : G.bs = 4 * (256 * 2 ^ G.log) := by unfold bs; ring
  unfold capacity
  omega

theorem capacity_pos : 0 < G.capacity := by
  have := G.bs_ge
  unfold capacity
  omega

/-- The product that `get_block` computes in 32 bits does not wrap. -/
theorem capacity_square : u32 (G.capacity * G.capacity) = G.capacity * G.capacity ∧
    G.capacity * G.capacity ≤ 2 ^ 28 := by
  have bound : G.capacity ≤ 2 ^ 14 := by
    have := G.bs_le
    unfold capacity
    omega
  have square : G.capacity * G.capacity ≤ 2 ^ 28 :=
    calc G.capacity * G.capacity ≤ 2 ^ 14 * 2 ^ 14 := Nat.mul_le_mul bound bound
      _ = 2 ^ 28 := by decide
  exact ⟨u32_of_lt (by omega), square⟩

end Geometry

/-- The pointers in an inode header and in the indirect blocks. -/
def pointers (blocks : Nat → Bytes) (inode : Bytes) : Store where
  root k := le32 inode (40 + 4 * k)
  entry b k := le32 (blocks b) (4 * k)

/-- The block of a node: follow the pointers from the inode. -/
def pointer (capacity : Nat) (blocks : Nat → Bytes) (inode : Bytes) : FileNode → Nat
  | .single => Inode.singleIndirectBlockPointer inode
  | .double => Inode.doubleIndirectBlockPointer inode
  | .inner j => le32 (blocks (Inode.doubleIndirectBlockPointer inode)) (4 * j)
  | .data i =>
    if i < 12 then Inode.blockPointers inode i
    else if i < 12 + capacity then
      le32 (blocks (Inode.singleIndirectBlockPointer inode)) (4 * (i - 12))
    else
      le32 (blocks (le32 (blocks (Inode.doubleIndirectBlockPointer inode))
        (4 * ((i - 12 - capacity) / capacity)))) (4 * ((i - 12 - capacity) % capacity))

theorem read_pointer (node : FileNode) :
    (fileShape capacity).read (pointers blocks inode) (pointer capacity blocks inode) node =
      pointer capacity blocks inode node := by
  cases node with
  | data i =>
    by_cases direct : i < 12
    · rw [Shape.read_root (show FileNode.parent capacity (.data i) = none from if_pos direct)]
      simp only [pointers, fileShape, FileNode.slot, pointer, Inode.blockPointers, if_pos direct]
    by_cases single : i < 12 + capacity
    · rw [Shape.read_entry (show FileNode.parent capacity (.data i) = some .single by
        simp only [FileNode.parent, if_neg direct, if_pos single])]
      simp only [pointers, fileShape, FileNode.slot, pointer, if_neg direct, if_pos single]
    · rw [Shape.read_entry (show FileNode.parent capacity (.data i) =
          some (.inner ((i - 12 - capacity) / capacity)) by
        simp only [FileNode.parent, if_neg direct, if_neg single])]
      simp only [pointers, fileShape, FileNode.slot, pointer, if_neg direct, if_neg single]
  | single => rfl
  | double => rfl
  | inner j => rfl

theorem pointer_stored (closed : ∀ node ∈ nodes, ∀ above,
    FileNode.parent capacity node = some above → above ∈ nodes) :
    Stored (fileShape capacity) (pointers blocks inode) nodes (pointer capacity blocks inode) :=
  ⟨closed, fun node _ => read_pointer node⟩

/-- Setting a pointer of the inode. -/
theorem pointers_put32 (blocks : Nat → Bytes) (inode : Bytes) (small : b < 2 ^ 32) :
    pointers blocks (put32 inode (40 + 4 * k) b) = (pointers blocks inode).setRoot k b := by
  unfold pointers Store.setRoot
  congr 1
  funext k'
  rw [update_apply]
  split
  · rename_i same
    rw [same, le32_put32_same, Nat.mod_eq_of_lt small]
  · exact le32_put32_apart (by omega)

/-- Setting a pointer of an indirect block. -/
theorem pointers_put (v : Volume) (inode : Bytes) (small : b < 2 ^ 32) :
    pointers (v.put t (splice (v.blocks t) (4 * k) (encode b) 4)).blocks inode =
      (pointers v.blocks inode).setEntry t k b := by
  unfold pointers Store.setEntry
  congr 1
  funext t' k'
  by_cases same : t' = t
  · subst same
    rw [Volume.put_same, update_self, update_apply]
    split
    · rename_i slot
      rw [slot, le32_splice_inside (by omega) (by omega), Nat.sub_self, le32_encode,
        Nat.mod_eq_of_lt small]
    · exact le32_splice_outside (by omega)
  · rw [Volume.put_other v same, update_of_ne same]

/-! ### Blocks in use -/

/-- A block that files may use. -/
structure Geometry.IsData (G : Geometry) (b : Nat) : Prop where
  nonzero : b ≠ 0
  inside : b < G.numBlocks
  apart : ∀ node, G.IsMeta node → G.metaBlock node ≠ b

/-- A block that files may use and that is marked used. -/
structure Geometry.DataBlock (G : Geometry) (blocks : Nat → Bytes) (b : Nat) : Prop where
  isData : G.IsData b
  used : G.blockUsed blocks b = true

/-- Nodes kept in blocks of their own. -/
structure Solid (G : Geometry) (blocks : Nat → Bytes) (nodes : Set FileNode)
    (loc : FileNode → Nat) : Prop where
  inUse : ∀ node ∈ nodes, G.DataBlock blocks (loc node)
  apart : Set.InjOn loc nodes

/-- The indirect blocks among the nodes. -/
def tables (nodes : Set FileNode) : Set FileNode := {node | node ∈ nodes ∧ node.IsTable}

/-- The nodes are found from the inode, through indirect blocks of their own. -/
structure Tree (G : Geometry) (blocks : Nat → Bytes) (inode : Bytes) (nodes : Set FileNode)
    (loc : FileNode → Nat) : Prop where
  stored : Stored (fileShape G.capacity) (pointers blocks inode) nodes loc
  solid : Solid G blocks (tables nodes) loc

namespace Geometry
variable {G : Geometry}

section
variable (isData : G.IsData b)
include isData

theorem IsData.visible (supported : G.Supported) : Visible G.bs b :=
  visible_of_lt supported isData.nonzero isData.inside

theorem IsData.ne_gdt : b ≠ G.gdt := by
  intro same
  have group := group_of_block isData.inside
  exact isData.apart _ (gdtBlocks_pos group) same.symm

theorem IsData.ne_place (kind : BitmapKind) (group : g < G.groups) : b ≠ G.place kind g := by
  obtain ⟨node, isMeta, placed, _⟩ := place_meta kind group
  intro same
  exact isData.apart node isMeta (placed.trans same.symm)

theorem IsData.ne_inodeBlock (inode : G.IsInode n) : b ≠ G.inodeBlock n := by
  obtain ⟨k, isMeta, placed, _⟩ := inodeBlock_meta inode
  intro same
  exact isData.apart _ isMeta (placed.symm.trans same.symm)

theorem IsData.lt (supported : G.Supported) : b < 2 ^ 31 := by
  have := (isData.visible supported).2
  have := Nat.mul_le_mul_left b G.bs_ge
  unfold Addressable at *
  omega

end

end Geometry

end SbOS.Ext2
