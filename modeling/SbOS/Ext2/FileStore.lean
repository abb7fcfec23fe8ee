import SbOS.Ext2.FileWrite
import SbOS.Lib.ByteFile

/-! The files of a volume as byte arrays.

A `FileStore` says what the files of a volume contain, how many data blocks each
has been given and how many blocks are free. `Stores` relates it to a volume;
`write_inode`, `read_inode` and `ext2_truncate` are steps of the store. -/
namespace SbOS.Ext2
open Bytes PointerTree Function

/-! ### The store -/

structure FileStore where
  files : Nat → ByteFile
  blocks : Nat → Nat
  free : Nat

/-- Calls on files. -/
inductive FileCall where
  | write (file : Nat) (data : Bytes) (size position : Nat) (append : Bool)
  | truncate (file length : Nat)
  | read (file size offset : Nat)

inductive FileReply where
  | wrote (count : Nat)
  | truncated
  | read (result : ReadResult)

/-- The driver functions behind the calls. -/
def FileCall.code : FileCall → Driver FileReply
  | .write n data size position append => do
    let count ← writeInode n data size position append
    return .wrote count
  | .truncate n length => do
    ext2Truncate n length
    return .truncated
  | .read n size offset => do
    let result ← readInode n size offset
    return .read result

namespace FileStore

/-- Where a write takes place. -/
def offset (store : FileStore) (n position : Nat) (append : Bool) : Nat :=
  if append then (store.files n).size else position

/-- A file after a write. -/
def written (store : FileStore) (n : Nat) (data : Bytes) (size position : Nat) (append : Bool) :
    ByteFile :=
  (store.files n).write data size (store.offset n position append)

/-- Replace a file, and take the blocks it needs. -/
def put (G : Geometry) (store : FileStore) (n : Nat) (file : ByteFile) : FileStore where
  files := Function.update store.files n file
  blocks := Function.update store.blocks n (blocksRequired file.size G.bs)
  free := store.free + G.blocksFor (store.blocks n) - G.blocksFor (blocksRequired file.size G.bs)

/-- Replace a file, with the blocks it has. -/
def resize (store : FileStore) (n length : Nat) : FileStore :=
  { store with files := Function.update store.files n ((store.files n).resize length) }

/-- What a read returns. -/
def read (store : FileStore) (n size offset : Nat) : ReadResult :=
  ⟨(store.files n).available size offset, (store.files n).read size offset, (store.files n).size⟩

/-- What the calls do. -/
def step (G : Geometry) : FileCall → FileStore → FileReply × FileStore
  | .write n data size position append, store =>
    (.wrote size, store.put G n (store.written n data size position append))
  | .truncate n length, store => (.truncated, store.resize n length)
  | .read n size offset, store => (.read (store.read n size offset), store)

end FileStore

/-! ### The store of a volume -/

/-- Inode `n` is the file `f`. It is kept in `used` data blocks of its own; past
these it may have holes, as long as no further indirect block is needed. -/
structure Keeps (G : Geometry) (v : Volume) (n : Nat) (f : ByteFile) (used : Nat) : Prop where
  sectors : G.sectorBlocks v n = used
  size : G.sizeOf v n = f.size
  range : f.size ≤ G.maxSize
  file : File G v n (Live G.capacity used) (G.blockOf v n)
  bytes : ∀ p < f.size, p < used * G.bs → G.contents v.blocks (G.blockOf v n) p = f.bytes p
  zero : ∀ p, used * G.bs ≤ p → f.bytes p = 0
  tables : tables (Live G.capacity (blocksRequired f.size G.bs)) ⊆ Live G.capacity used
  holes : ∀ k, used ≤ k → k < blocksRequired f.size G.bs → G.blockOf v n (.data k) = 0

/-- The files `F` of the volume are those of the store. -/
structure Stores (G : Geometry) (F : Set Nat) (v : Volume) (store : FileStore) : Prop where
  consistent : Consistent G v
  free : G.clearTotal .block v.blocks = store.free
  keeps : ∀ n ∈ F, Keeps G v n (store.files n) (store.blocks n)
  apart : ∀ n ∈ F, ∀ m ∈ F, n ≠ m → ∀ a ∈ Live G.capacity (store.blocks n),
    ∀ b ∈ Live G.capacity (store.blocks m), G.blockOf v n a ≠ G.blockOf v m b

/-! ### Steps that leave a file alone -/

/-- The pointers, the blocks and the marks of a file are the same after a step. -/
structure Kept (G : Geometry) (v v' : Volume) (n : Nat) (own : Set FileNode) : Prop where
  header : ∀ i, 40 ≤ i → i < 96 → G.header v'.blocks n i = G.header v.blocks n i
  blocks : ∀ node ∈ own, v'.blocks (G.blockOf v n node) = v.blocks (G.blockOf v n node)
  marked : ∀ node ∈ own, G.blockUsed v'.blocks (G.blockOf v n node) = true

section Frame
variable {G : Geometry} {v v' : Volume} {own : Set FileNode}

theorem File.canonical (file : File G v n own loc) : File G v n own (G.blockOf v n) := by
  refine ⟨file.inode, pointer_stored file.stored.closed, fun node member => ?_, ?_⟩
  · rw [file.blockOf member]
    exact file.solid.inUse node member
  · exact file.solid.apart.congr fun node member => (file.blockOf member).symm

/-- Pointers in blocks of the file stay as they are, even if they point nowhere. -/
theorem Kept.blockOf (kept : Kept G v v' n own) (file : File G v n own (G.blockOf v n))
    (under : ∀ above, FileNode.parent G.capacity node = some above → above ∈ own) :
    G.blockOf v' n node = G.blockOf v n node := by
  have closed : ∀ other ∈ insert node own, ∀ above,
      FileNode.parent G.capacity other = some above → above ∈ own := by
    rintro other (rfl | member) above parent
    · exact under above parent
    · exact file.stored.closed other member above parent
  have closed' : ∀ other ∈ insert node own, ∀ above,
      FileNode.parent G.capacity other = some above → above ∈ insert node own :=
    fun other member above parent => Or.inr (closed other member above parent)
  have stored := stored_congr (pointer_stored closed') kept.header
    fun other member above parent => kept.blocks above (closed other member above parent)
  exact (pointer_stored closed').unique stored (Or.inl rfl)

theorem Kept.file (kept : Kept G v v' n own) (file : File G v n own (G.blockOf v n)) :
    File G v' n own (G.blockOf v' n) := by
  have moved : File G v' n own (G.blockOf v n) :=
    ⟨file.inode, stored_congr file.stored kept.header fun node member above parent =>
      kept.blocks above (file.stored.closed node member above parent), fun node member =>
      ⟨(file.solid.inUse node member).isData, kept.marked node member⟩, file.solid.apart⟩
  exact moved.canonical

theorem block_lt {p n b : Nat} (below : p < n * b) : p / b < n :=
  Nat.div_lt_of_lt_mul (by rwa [mul_comm])

section
variable (kept : Kept G v v' n (Live G.capacity used))
  (file : File G v n (Live G.capacity used) (G.blockOf v n))
include kept file

theorem Kept.contents (below : p < used * G.bs) :
    G.contents v'.blocks (G.blockOf v' n) p = G.contents v.blocks (G.blockOf v n) p := by
  have member := block_lt below
  unfold Geometry.contents
  rw [kept.blockOf file (file.stored.closed _ member), kept.blocks _ member]

/-- Holes stay holes as long as their indirect blocks are the file's own. -/
theorem Kept.hole (under : tables (Live G.capacity reach) ⊆ Live G.capacity used) (below :
    k < reach) :
    G.blockOf v' n (.data k) = G.blockOf v n (.data k) :=
  kept.blockOf file fun _ parent => under
    ⟨live_closed (show FileNode.data k ∈ Live G.capacity _ from below) parent,
      FileNode.parent_isTable parent⟩

end

/-- A file that a step leaves alone is the same file after it. -/
theorem Keeps.kept (keeps : Keeps G v n f used) (kept : Kept G v v' n (Live G.capacity used))
    (header : ∀ i < Inode.size, G.header v'.blocks n i = G.header v.blocks n i) :
    Keeps G v' n f used := by
  have sectors : G.sectorBlocks v' n = G.sectorBlocks v n := numBlocksUsed_congr header
  have size := fileSize_congr header
  refine ⟨sectors.trans keeps.sectors, size.trans keeps.size, keeps.range, kept.file keeps.file,
    fun p inside below => ?_, keeps.zero, keeps.tables, fun k past below => ?_⟩
  · rw [kept.contents keeps.file below, keeps.bytes p inside below]
  · rw [kept.hole keeps.file keeps.tables below, keeps.holes k past below]

end Frame

/-! ### Writing -/

/-- Every byte of file `n` that `size` bytes written at `offset` make readable
without writing them is zero on disk: those past its end in blocks it has, and
those of free blocks it may be given. -/
def Geometry.CleanWrite (G : Geometry) (v : Volume) (n offset size : Nat) : Prop :=
  ∀ p < max (G.sizeOf v n) (offset + size), p < offset ∨ offset + size ≤ p →
    (G.sizeOf v n ≤ p → p < G.sectorBlocks v n * G.bs →
      G.contents v.blocks (G.blockOf v n) p = 0) ∧
    (G.sectorBlocks v n * G.bs ≤ p → ∀ b, b / G.blocksPerGroup < G.groups →
      G.blockUsed v.blocks b = false → v.blocks b (p % G.bs) = 0)

section Write
variable {G : Geometry} {v v' : Volume} {loc loc' : FileNode → Nat} {own : Set FileNode}

section
variable (wrote : Wrote G ∅ n used required offset size data v loc new v' loc')
  (file : File G v m own (G.blockOf v m))
include wrote file

/-- A file that grows stays apart from the others. -/
theorem Wrote.ne_other (apart : ∀ a ∈ Live G.capacity used, ∀ b ∈ own, loc a ≠ G.blockOf v m b)
    (live : a ∈ Live G.capacity required) (member : b ∈ own) : loc' a ≠ G.blockOf v m b := by
  intro same
  by_cases old : a ∈ Live G.capacity used
  · rw [wrote.kept a (Or.inl old)] at same
    exact apart a old b member same
  · -- a new block was free, this one is not
    have := (wrote.news _ (wrote.fresh a (Or.inl live) (by simpa using old))).2
    rw [same, (file.solid.inUse b member).used] at this
    cases this

/-- A write leaves the files with other blocks alone. -/
theorem Wrote.kept_other (different : m ≠ n)
    (apart : ∀ a ∈ Live G.capacity used, ∀ b ∈ own, loc a ≠ G.blockOf v m b) :
    Kept G v v' m own := by
  refine ⟨fun i _ _ => by rw [wrote.headers m file.inode different], fun node member => ?_,
    fun node member => ?_⟩
  · refine wrote.frame _ (file.solid.inUse node member).isData fun other live => ?_
    rw [Set.union_empty] at live
    exact wrote.ne_other file apart live member
  · have block := file.solid.inUse node member
    rw [wrote.marks _ (G.group_of_block block.isData.inside), block.used, Bool.true_or]

end

/-- The file after a write. -/
theorem Wrote.keeps (wrote : Wrote G ∅ n used (blocksRequired (f.write data size offset).size G.bs)
      offset size data v (G.blockOf v n) new v' loc')
    (before : Keeps G v n f used) (range : (f.write data size offset).size ≤ G.maxSize)
    (clean : G.CleanWrite v n offset size) :
    Keeps G v' n (f.write data size offset) (blocksRequired (f.write data size offset).size G.bs) := by
  have positive := G.bs_pos
  have grown : (f.write data size offset).size = max f.size (offset + size) := rfl
  have all : (f.write data size offset).size ≤ blocksRequired (f.write data size offset).size G.bs *
    G.bs := Geometry.blocksRequired_le positive
  have file := wrote.file
  rw [Set.union_empty] at file
  refine ⟨wrote.blocks, ?_, range, file.canonical, fun p inside below => ?_, fun p past => ?_,
    fun _ member => member.1, fun k past below => absurd past (by omega)⟩
  · rw [wrote.newSize, before.size, grown]
  · have member := block_lt below
    have place : G.contents v'.blocks (G.blockOf v' n) p = G.contents v'.blocks loc' p := by
      unfold Geometry.contents
      rw [file.blockOf member]
    rw [place, wrote.contents p below]
    change splice _ offset data size p = splice f.bytes offset data size p
    by_cases covered : offset ≤ p ∧ p < offset + size
    · rw [splice_inside covered.1 covered.2, splice_inside covered.1 covered.2]
    rw [splice_outside (by omega), splice_outside (by omega)]
    obtain ⟨old, fresh⟩ := clean p (by rw [before.size]; exact inside) (by omega)
    rw [before.sectors] at old fresh
    by_cases had : p < used * G.bs
    · -- a byte of a block the file had
      have live := block_lt had
      have same : G.contents v.blocks loc' p = G.contents v.blocks (G.blockOf v n) p := by
        unfold Geometry.contents
        rw [wrote.kept _ (Or.inl live)]
      rw [same]
      by_cases readable : p < f.size
      · exact before.bytes p readable had
      · rw [old (by rw [before.size]; omega) had, f.beyond p (by omega)]
    · -- a byte of a block it was given
      have given : loc' (.data (p / G.bs)) ∈ new := by
        refine wrote.fresh _ (Or.inl member) ?_
        rintro (live | none')
        · exact had ((Nat.div_lt_iff_lt_mul positive).mp live)
        · exact none'
      obtain ⟨inside', clear⟩ := wrote.news _ given
      rw [before.zero p (by omega)]
      exact fresh (by omega) _ inside' clear
  · exact (f.write data size offset).beyond p (by omega)

/-- `write_inode` is a step of the store. -/
theorem Stores.write (stores : Stores G F v store) (sound : G.Sound)
    (supported : G.Supported) (member : n ∈ F) (small : size < 2 ^ 31)
    (range : (store.written n data size position append).size ≤ G.maxSize)
    (order : store.blocks n ≤
      blocksRequired (store.written n data size position append).size G.bs)
    (space : G.blocksFor (blocksRequired (store.written n data size position append).size G.bs) ≤
      store.free + G.blocksFor (store.blocks n))
    (clean : G.CleanWrite v n (store.offset n position append) size) :
    ∃ v', v.run (writeInode n data size position append) = .ok (size, v') ∧
      Stores G F v' (store.put G n (store.written n data size position append)) := by
  have before := stores.keeps n member
  have required : G.blocksAfter v n (store.offset n position append) size =
      blocksRequired (store.written n data size position append).size G.bs := by
    unfold Geometry.blocksAfter
    rw [before.size]
    rfl
  have file : File G v n (Live G.capacity (G.sectorBlocks v n) ∪ ∅) (G.blockOf v n) := by
    rw [Set.union_empty, before.sectors]
    exact before.file
  obtain ⟨new, v', loc', ran, wrote⟩ := run_writeInode sound supported stores.consistent file
    (show store.offset n position append = if append then G.sizeOf v n else position by
      rw [before.size]; rfl) (by rw [before.size]; exact range) small
    (by rw [before.sectors, required]; exact order) (by simp)
    (by rw [required, before.sectors, stores.free]; exact space) data
  rw [required, before.sectors] at wrote
  have file' := wrote.file
  rw [Set.union_empty] at file'
  have apart : ∀ m ∈ F, m ≠ n → ∀ a ∈ Live G.capacity (store.blocks n),
      ∀ b ∈ Live G.capacity (store.blocks m), G.blockOf v n a ≠ G.blockOf v m b :=
    fun m member' different => stores.apart n member m member' different.symm
  have others : ∀ m ∈ F, m ≠ n → Kept G v v' m (Live G.capacity (store.blocks m)) :=
    fun m member' different => wrote.kept_other (stores.keeps m member').file different
      (apart m member' different)
  have pointers : ∀ m ∈ F, m ≠ n → ∀ b ∈ Live G.capacity (store.blocks m),
      G.blockOf v' m b = G.blockOf v m b := by
    intro m member' different b live
    exact (others m member' different).blockOf (stores.keeps m member').file fun _ => live_closed live
  have apart' : ∀ m ∈ F, m ≠ n → ∀ a ∈ Live G.capacity (blocksRequired
      (store.written n data size position append).size G.bs),
      ∀ b ∈ Live G.capacity (store.blocks m), G.blockOf v' n a ≠ G.blockOf v' m b := by
    intro m member' different a live b live'
    rw [file'.blockOf live, pointers m member' different b live']
    exact wrote.ne_other (stores.keeps m member').file (apart m member' different) live live'
  refine ⟨v', ran, wrote.consistent, ?_, fun m member' => ?_, fun m member' k member'' different => ?_⟩
  · have := wrote.count
    have := wrote.length
    change _ = store.free + _ - _
    rw [← stores.free]
    omega
  · by_cases same : m = n
    · subst same
      simp only [FileStore.put, update_self]
      exact wrote.keeps before range clean
    · simp only [FileStore.put, update_of_ne same]
      exact (stores.keeps m member').kept (others m member' same) fun i _ => by
        rw [wrote.headers m (stores.keeps m member').file.inode same]
  · by_cases first : m = n
    · subst first
      have second : k ≠ m := Ne.symm different
      simp only [FileStore.put, update_self, update_of_ne second]
      exact apart' k member'' second
    by_cases second : k = n
    · subst second
      simp only [FileStore.put, update_self, update_of_ne first]
      exact fun a live b live' => (apart' m member' first b live' a live).symm
    · simp only [FileStore.put, update_of_ne first, update_of_ne second]
      intro a live b live'
      rw [pointers m member' first a live, pointers k member'' second b live']
      exact stores.apart m member' k member'' different a live b live'

end Write

/-! ### Reading -/

section Read
variable {G : Geometry} {v v' : Volume}

/-- All bytes of a file are found through its pointers, if a hole counts as zeros. -/
theorem Keeps.contents (keeps : Keeps G v n f used) (hidden : v.blocks 0 = zeros)
    (inside : p < f.size) : G.contents v.blocks (G.blockOf v n) p = f.bytes p := by
  have positive := G.bs_pos
  by_cases had : p < used * G.bs
  · exact keeps.bytes p inside had
  · have past : used ≤ p / G.bs := (Nat.le_div_iff_mul_le positive).mpr (by omega)
    have below := block_lt (inside.trans_le (Geometry.blocksRequired_le positive))
    unfold Geometry.contents
    rw [keeps.holes _ past below, hidden, keeps.zero p (by omega), zeros_apply]

theorem Keeps.path (keeps : Keeps G v n f used) :
    Path G v.blocks (G.header v.blocks n) (blocksRequired f.size G.bs) (G.blockOf v n) :=
  ⟨pointer_stored fun _ member _ => live_closed member, fun table member =>
    (keeps.file.solid.inUse table (keeps.tables member)).isData⟩

/-- Steps that change no block change no file. -/
theorem Stores.of_blocks (stores : Stores G F v store) (same : v'.blocks = v.blocks)
    (consistent : Consistent G v') : Stores G F v' store := by
  have pointers : ∀ m, G.blockOf v' m = G.blockOf v m := by
    intro m
    unfold Geometry.blockOf
    rw [same]
  refine ⟨consistent, by rw [same, stores.free], fun n member => ?_, ?_⟩
  · have keeps := stores.keeps n member
    refine keeps.kept ⟨fun _ _ _ => by rw [same], fun _ _ => by rw [same], fun node live => ?_⟩
      fun _ _ => by rw [same]
    rw [same]
    exact (keeps.file.solid.inUse node live).used
  · intro n member m member' different a live b live'
    rw [pointers, pointers]
    exact stores.apart n member m member' different a live b live'

/-- `read_inode` is a step of the store. -/
theorem Stores.read (stores : Stores G F v store) (sound : G.Sound)
    (supported : G.Supported) (hidden : v.blocks 0 = zeros) (member : n ∈ F) (size_lt : size < 2 ^ 64)
    (small : (store.files n).available size offset < 2 ^ 31) :
    ∃ v', v.run (readInode n size offset) = .ok (store.read n size offset, v') ∧
      Stores G F v' store := by
  have positive := G.bs_pos
  have keeps := stores.keeps n member
  have isData : ∀ k < blocksRequired (store.files n).size G.bs,
      G.blockOf v n (.data k) = 0 ∨ G.IsData (G.blockOf v n (.data k)) := by
    intro k below
    rcases lt_or_ge k (store.blocks n) with had | past
    · exact Or.inr (keeps.file.solid.inUse (.data k) had).isData
    · exact Or.inl (keeps.holes k past below)
  obtain ⟨v', ran, same, consistent⟩ := run_readInode sound supported stores.consistent hidden
    keeps.file.inode keeps.path isData (blocksRequired_le_of positive keeps.range)
    (by rw [keeps.size]; exact Geometry.blocksRequired_le positive) size_lt
    (show min size (G.sizeOf v n - offset) < _ by rw [keeps.size]; exact small)
  refine ⟨v', ran.trans ?_, stores.of_blocks same consistent⟩
  rw [keeps.size, slice_congr fun i bound => keeps.contents hidden (by omega)]
  rfl

end Read

/-! ### Truncation -/

/-- Every byte of file `n` that the length `length` makes readable is zero on
disk: those in blocks the file has, and further blocks are holes that need no
indirect block. -/
structure Geometry.CleanResize (G : Geometry) (v : Volume) (n length : Nat) : Prop where
  old : ∀ p, G.sizeOf v n ≤ p → p < length → p < G.sectorBlocks v n * G.bs →
    G.contents v.blocks (G.blockOf v n) p = 0
  tables : tables (Live G.capacity (blocksRequired length G.bs)) ⊆
    Live G.capacity (G.sectorBlocks v n)
  holes : ∀ k, G.sectorBlocks v n ≤ k → k < blocksRequired length G.bs →
    G.blockOf v n (.data k) = 0

section Truncate
variable {G : Geometry} {v : Volume}

/-- `ext2_truncate` changes the size and nothing else. -/
theorem run_ext2Truncate (sound : G.Sound) (supported : G.Supported)
    (consistent : Consistent G v) (inode : G.IsInode n) (length : Nat) :
    ∃ h v', HeaderRead G v n h v' ∧ v.run (ext2Truncate n length) =
      .ok ((), G.writeHeader v' n (Inode.setLow32Size (Inode.setUpper32Size h 0) length)) := by
  obtain ⟨h, v', ran, read⟩ := run_ext2GetInodeHeader sound supported consistent.formatted
    consistent.coherent inode
  refine ⟨h, v', read, ?_⟩
  unfold ext2Truncate
  rw [Volume.run_bind ran]
  exact run_ext2WriteInode sound supported read.formatted inode _

/-- A new inode leaves the blocks of all files alone. -/
theorem Kept.of_writeHeader (sound : G.Sound)
    (file : File G v m own (G.blockOf v m)) (inode : G.IsInode n) (same : v₀.blocks = v.blocks)
    (header : ∀ i, 40 ≤ i → i < 96 →
      G.header (G.writeHeader v₀ n h).blocks m i = G.header v.blocks m i) :
    Kept G v (G.writeHeader v₀ n h) m own := by
  refine ⟨header, fun node member => ?_, fun node member => ?_⟩
  · rw [writeHeader_other ((file.solid.inUse node member).isData.ne_inodeBlock inode), same]
  · have block := file.solid.inUse node member
    have bitmaps : ∀ g < G.groups, (G.writeHeader v₀ n h).blocks (G.place .block g) =
        v.blocks (G.place .block g) := fun g group => by
      rw [writeHeader_other (G.inodeBlock_ne_place sound inode group).symm, same]
    exact (Geometry.used_congr bitmaps (G.group_of_block block.isData.inside)).trans block.used

/-- A file whose size alone has changed. -/
theorem Keeps.resize (before : Keeps G v n f used)
    (kept : Kept G v v' n (Live G.capacity used))
    (other : ∀ i < Inode.size, (i < 4 ∨ 8 ≤ i) ∧ (i < 108 ∨ 112 ≤ i) →
      G.header v'.blocks n i = G.header v.blocks n i)
    (size : G.sizeOf v' n = length) (range : length ≤ G.maxSize)
    (clean : G.CleanResize v n length) : Keeps G v' n (f.resize length) used := by
  have sectors : G.sectorBlocks v' n = G.sectorBlocks v n := by
    unfold Geometry.sectorBlocks numBlocksUsed Inode.numDiskSectors
    rw [le32_congr fun i bound => other (28 + i) (by simp only [Inode.size]; omega) (by omega)]
  obtain ⟨old, tables, holes⟩ := clean
  rw [before.sectors] at sectors old tables holes
  refine ⟨sectors, size, range, kept.file before.file, fun p inside below => ?_, fun p past => ?_,
    tables, fun k past below => ?_⟩
  · have inside' : p < length := inside
    rw [kept.contents before.file below]
    change _ = slice f.bytes 0 length p
    rw [slice_inside inside', zero_add]
    by_cases readable : p < f.size
    · exact before.bytes p readable below
    · rw [old p (by rw [before.size]; omega) inside' below, f.beyond p (by omega)]
  · change slice f.bytes 0 length p = 0
    by_cases inside : p < length
    · rw [slice_inside inside, zero_add, before.zero p past]
    · exact slice_outside (by omega)
  · rw [kept.hole before.file tables below, holes k past below]

/-- `ext2_truncate` is a step of the store. -/
theorem Stores.truncate (stores : Stores G F v store) (sound : G.Sound)
    (supported : G.Supported) (member : n ∈ F) (small : length < 2 ^ 32)
    (range : length ≤ G.maxSize) (clean : G.CleanResize v n length) :
    ∃ v', v.run (ext2Truncate n length) = .ok ((), v') ∧ Stores G F v' (store.resize n length) := by
  have before := stores.keeps n member
  have inode := before.file.inode
  obtain ⟨h, v₀, read, ran⟩ := run_ext2Truncate sound supported stores.consistent inode length
  generalize new : Inode.setLow32Size (Inode.setUpper32Size h 0) length = h' at ran
  have own : ∀ i < Inode.size, (i < 4 ∨ 8 ≤ i) ∧ (i < 108 ∨ 112 ≤ i) →
      G.header (G.writeHeader v₀ n h').blocks n i = G.header v.blocks n i := by
    intro i bound other
    rw [header_writeHeader bound, ← new, ← read.same bound]
    unfold Inode.setLow32Size Inode.setUpper32Size put32
    rw [splice_outside (by omega), splice_outside (by omega)]
  have header_size : G.sizeOf (G.writeHeader v₀ n h') n = length := by
    refine (fileSize_congr fun i bound => header_writeHeader bound).trans ?_
    rw [← new]
    unfold Inode.fileSize Inode.upper32Size Inode.low32Size Inode.setLow32Size Inode.setUpper32Size
    rw [le32_put32_apart (by omega), le32_put32_same, le32_put32_same]
    omega
  have others : ∀ m ∈ F, m ≠ n → G.header (G.writeHeader v₀ n h').blocks m = G.header v.blocks m := by
    intro m member' different
    rw [← read.blocks]
    exact G.header_putHeader_other sound inode (stores.keeps m member').file.inode different
  have kept : ∀ m ∈ F, Kept G v (G.writeHeader v₀ n h') m (Live G.capacity (store.blocks m)) := by
    intro m member'
    refine .of_writeHeader sound (stores.keeps m member').file inode read.blocks fun i low high => ?_
    by_cases same : m = n
    · subst same
      exact own i (by simp only [Inode.size]; omega) (by omega)
    · rw [others m member' same]
  refine ⟨_, ran, ?_, ?_, fun m member' => ?_, fun m member' k member'' different a live b live' => ?_⟩
  · exact (read.consistent stores.consistent).writeHeader sound supported inode h'
  · have bitmaps : ∀ g < G.groups, (G.writeHeader v₀ n h').blocks (G.place .block g) =
        v.blocks (G.place .block g) := fun g group => by
      rw [writeHeader_other (G.inodeBlock_ne_place sound inode group).symm, read.blocks]
    exact (Geometry.clearTotal_congr bitmaps).trans stores.free
  · by_cases same : m = n
    · subst same
      simp only [FileStore.resize, update_self]
      exact before.resize (kept m member) own header_size range clean
    · simp only [FileStore.resize, update_of_ne same]
      exact (stores.keeps m member').kept (kept m member') fun i _ => by rw [others m member' same]
  · rw [(kept m member').blockOf (stores.keeps m member').file fun _ => live_closed live,
      (kept k member'').blockOf (stores.keeps k member'').file fun _ => live_closed live']
    exact stores.apart m member' k member'' different a live b live'

end Truncate

end SbOS.Ext2
