import SbOS.Ext2.TreeGrowth

/-! The copy loops of `write_inode` and `read_inode` on a file whose blocks are
known: the data blocks one after another are a byte array. -/
namespace SbOS.Ext2
open Bytes PointerTree FileNode
open Nat (add_mul mul_le_mul_right one_mul)
open Volume (put_other run_bind run_pure)

/-- The blocks of a file can be found, through indirect blocks that are not
metadata. -/
structure Path (G : Geometry) (blocks : Nat → Bytes) (inode : Bytes) (n : Nat)
    (loc : FileNode → Nat) : Prop where
  stored : Stored (fileShape G.capacity) (pointers blocks inode) (Live G.capacity n) loc
  isData : ∀ table ∈ tables (Live G.capacity n), G.IsData (loc table)

section Run
variable {G : Geometry} {v : Volume} {loc : FileNode → Nat}

theorem Tree.path (tree : Tree G blocks inode nodes loc) (live : Live G.capacity n ⊆ nodes) :
    Path G blocks inode n loc :=
  ⟨⟨fun _ member _ => live_closed member, fun node member => tree.stored.found node (live member)⟩,
    fun table member => (tree.solid.inUse table ⟨live member.1, member.2⟩).isData⟩

/-- Blocks that are no indirect blocks of the file may change. -/
theorem Path.congr (path : Path G blocks inode n loc)
    (same : ∀ table ∈ tables (Live G.capacity n), blocks' (loc table) = blocks (loc table)) :
    Path G blocks' inode n loc :=
  ⟨stored_congr path.stored (fun _ _ _ => rfl) fun _ member above parent =>
    same above ⟨live_closed member parent, parent_isTable parent⟩, path.isData⟩

/-- Only the pointers of the inode matter. -/
theorem Path.of_inode (path : Path G blocks inode n loc)
    (same : ∀ i, 40 ≤ i → i < 96 → inode' i = inode i) : Path G blocks inode' n loc :=
  ⟨stored_of_inode path.stored same, path.isData⟩

/-- `get_block` follows the tree. -/
theorem run_getBlock (supported : G.Supported) (formatted : Formatted G v)
    (path : Path G v.blocks inode n loc)
    (range : n ≤ 12 + G.capacity * G.capacity) (below : i < n) :
    v.run (getBlock inode i) = .ok (loc (.data i), v) := by
  have member : FileNode.data i ∈ Live G.capacity n := below
  have found := path.stored.found _ member
  have positive := G.capacity_pos
  unfold getBlock
  by_cases direct : i < 12
  · have slot : FileNode.slot G.capacity (.data i) = i := if_pos direct
    rw [Shape.read_root (show parent G.capacity (.data i) = none from if_pos direct)] at found
    rw [if_pos direct, run_pure, ← found]
    change _ = Except.ok (le32 inode (40 + 4 * FileNode.slot G.capacity (.data i)), v)
    rw [slot]
    rfl
  rw [if_neg direct, Volume.run_getGlobals, formatted.size]
  rw [show G.bs / 4 = G.capacity from rfl]
  rcases lt_or_ge i (12 + G.capacity) with single | high
  · have under : parent G.capacity (.data i) = some .single := by
      simp only [parent]
      rw [if_neg direct, if_pos single]
    have slot : FileNode.slot G.capacity (.data i) = i - 12 := by
      simp only [FileNode.slot]
      rw [if_neg direct, if_pos single]
    have table : FileNode.single ∈ tables (Live G.capacity n) :=
      ⟨live_closed member under, trivial⟩
    have pointer : Inode.singleIndirectBlockPointer inode = loc .single :=
      path.stored.found .single table.1
    rw [if_pos (by omega), pointer, run_getSinglyBlockIndex inode formatted
      ((path.isData _ table).visible supported) (by omega), ← found,
      Shape.read_entry under]
    change _ = Except.ok ((pointers v.blocks inode).entry _ (FileNode.slot G.capacity (.data i)), v)
    rw [slot]
  · obtain ⟨index, rfl⟩ := Nat.exists_eq_add_of_le high
    have small : index < G.capacity * G.capacity := by omega
    have under := @parent_double G.capacity index
    have inner : inner _ ∈ tables (Live G.capacity n) := ⟨live_closed member under, trivial⟩
    have double : double ∈ tables (Live G.capacity n) := ⟨live_closed inner.1 rfl, trivial⟩
    have pointer : Inode.doubleIndirectBlockPointer inode = loc .double :=
      path.stored.found .double double.1
    have pointer' : (pointers v.blocks inode).entry (loc .double) (index / G.capacity) =
        loc (.inner (index / G.capacity)) := path.stored.found _ inner.1
    rw [if_neg (by omega), G.capacity_square.1, if_pos (by omega),
      show 12 + G.capacity + index - 12 - G.capacity = index by omega, pointer,
      run_bind (run_getSinglyBlockIndex inode formatted
        ((path.isData _ double).visible supported) (Nat.div_lt_of_lt_mul small)),
      pointer', run_getSinglyBlockIndex inode formatted
        ((path.isData _ inner).visible supported) (Nat.mod_lt _ positive), ← found,
      Shape.read_entry under]
    change _ = Except.ok ((pointers v.blocks inode).entry _ (FileNode.slot G.capacity (.data _)), v)
    rw [slot_double]

end Run

/-! ### The copy loop of `write_inode` -/

/-- Block `k` of a file holds one of `size` bytes from offset `off` of block `i` on. -/
def Covered (G : Geometry) (i off size k : Nat) : Prop :=
  i ≤ k ∧ k * G.bs < i * G.bs + off + size

/-- `size` bytes of `data`, from byte `done` on, were copied to the file from
offset `off` of its block `i` on. -/
structure Copied (G : Geometry) (loc : FileNode → Nat) (data : Bytes) (done i off size : Nat)
    (v v' : Volume) : Prop where
  globals : v'.globals = v.globals
  formatted : Formatted G v'
  frame : ∀ b, (∀ k, Covered G i off size k → loc (.data k) ≠ b) → v'.blocks b = v.blocks b
  contents : (∀ k k', Covered G i off size k → Covered G i off size k' →
      loc (.data k) = loc (.data k') → k = k') →
    ∀ k, Covered G i off size k → ∀ o < G.bs, v'.blocks (loc (.data k)) o =
      if i * G.bs + off ≤ k * G.bs + o ∧ k * G.bs + o < i * G.bs + off + size then
        data (done + (k * G.bs + o - (i * G.bs + off)))
      else v.blocks (loc (.data k)) o

section Copy
variable {G : Geometry} {v v' : Volume} {loc : FileNode → Nat} {data : Bytes}

/-- After the bytes for one block come those for the next. -/
theorem covered_next (inside : off < G.bs)
    (chunk : len = if G.bs < size + off then G.bs - off else size) :
    Covered G (i + 1) 0 (size - len) k ↔ Covered G i off size k ∧ i < k := by
  unfold Covered
  rw [add_mul, one_mul]
  have step : i + 1 ≤ k → i * G.bs + G.bs ≤ k * G.bs := by
    intro more
    have := mul_le_mul_right G.bs more
    rwa [add_mul, one_mul] at this
  split at chunk
  · constructor
    · rintro ⟨low, high⟩
      exact ⟨⟨by omega, by omega⟩, by omega⟩
    · rintro ⟨⟨_, high⟩, less⟩
      exact ⟨by omega, by omega⟩
  · constructor
    · rintro ⟨low, high⟩
      omega
    · rintro ⟨⟨_, high⟩, less⟩
      omega

/-- The write of one block followed by the rest. -/
theorem Copied.cons (inside : off < G.bs) (some' : 0 < size)
    (chunk : len = if G.bs < size + off then G.bs - off else size)
    (rest : Copied G loc data (done + len) (i + 1) 0 (size - len)
      (v.put (loc (.data i)) (splice (v.blocks (loc (.data i))) off (skip data done) len)) v') :
    Copied G loc data done i off size v v' := by
  have next := fun k => @covered_next G off len size i k inside chunk
  have here : Covered G i off size i := ⟨le_rfl, by omega⟩
  refine ⟨rest.globals, rest.formatted, ?_, ?_⟩
  · intro b untouched
    rw [rest.frame b fun k covered => untouched k ((next k).mp covered).1,
      put_other v (untouched i here).symm]
  · intro apart k covered o bound
    rcases Nat.eq_or_lt_of_le covered.1 with rfl | later
    · rw [rest.frame _ fun k' covered' same => by
        have := apart k' i ((next k').mp covered').1 here same
        have := ((next k').mp covered').2
        omega]
      rw [Volume.put_same]
      by_cases written : off ≤ o ∧ o < off + size
      · rw [splice_inside written.1 (by split at chunk <;> omega), if_pos (by omega), skip_apply]
        congr 1
        omega
      · rw [splice_outside (by split at chunk <;> omega), if_neg (by omega)]
    · have covered' := (next k).mpr ⟨covered, later⟩
      rw [rest.contents (fun a b ca cb same => apart a b ((next a).mp ca).1 ((next b).mp cb).1 same) k
        covered' o bound]
      have other : loc (.data k) ≠ loc (.data i) := fun same => by
        have := apart k i covered here same
        omega
      have whole : (i + 1) * G.bs = i * G.bs + G.bs := by ring
      have order : i * G.bs + G.bs ≤ k * G.bs := by
        have := mul_le_mul_right G.bs (show i + 1 ≤ k from later)
        rwa [whole] at this
      have filled : len = G.bs - off := by
        have := covered.2
        rw [chunk, if_pos (by omega)]
      rw [put_other v other, whole]
      by_cases written : k * G.bs + o < i * G.bs + off + size
      · rw [if_pos (by omega), if_pos (by omega)]
        congr 1
        omega
      · rw [if_neg (by omega), if_neg (by omega)]

/-- Blocks that the copy loop can write to without harm to the tree. -/
structure Writable (G : Geometry) (n : Nat) (loc : FileNode → Nat) (b : Nat) : Prop where
  visible : Visible G.bs b
  noDescriptor : b ≠ G.gdt
  noTable : ∀ table ∈ tables (Live G.capacity n), loc table ≠ b

/-- The copy loop of `write_inode` writes up to the first null pointer. -/
theorem run_writeBlocks_until (data : Bytes) (done : Nat) (supported : G.Supported)
    (range : n ≤ 12 + G.capacity * G.capacity)
    (formatted : Formatted G v) (path : Path G v.blocks inode n loc) (inside : off < G.bs)
    (fits : i * G.bs + off + size ≤ n * G.bs) (enough : size < fuel) (small : done + size < 2 ^ 31)
    (writable : ∀ k, Covered G i off size k → loc (.data k) ≠ 0 →
      Writable G n loc (loc (.data k))) :
    ∃ count v', v.run (writeBlocks inode data fuel i size off done) = .ok (done + count, v') ∧
      Copied G loc data done i off count v v' ∧ count ≤ size ∧
      (count < size → ∃ k, Covered G i off size k ∧ loc (.data k) = 0) := by
  induction fuel generalizing v i size off done with
  | zero => omega
  | succ fuel ih =>
    have nothing : Copied G loc data done i off 0 v v :=
      ⟨rfl, formatted, fun _ _ => rfl, fun _ k covered o bound => by rw [if_neg (by omega)]⟩
    unfold writeBlocks
    rcases Nat.eq_zero_or_pos size with rfl | some'
    · exact ⟨0, v, run_pure _, nothing, le_rfl, by omega⟩
    have here : Covered G i off size i := ⟨le_rfl, by omega⟩
    have below : i < n := Nat.lt_of_mul_lt_mul_right (a := G.bs) (by omega)
    rw [if_neg (by omega), Volume.run_getGlobals, formatted.size,
      run_bind (run_getBlock supported formatted path range below)]
    by_cases null : loc (.data i) = 0
    · rw [if_pos null]
      exact ⟨0, v, run_pure _, nothing, Nat.zero_le _, fun _ => ⟨i, here, null⟩⟩
    obtain ⟨visible, noDescriptor, noTable⟩ := writable i here null
    have size_le := G.bs_le
    obtain ⟨len, chunk⟩ : ∃ len, len = if G.bs < size + off then G.bs - off else size := ⟨_, rfl⟩
    have room : off + len ≤ G.bs := by split at chunk <;> omega
    have progress : 0 < len ∧ len ≤ size := by split at chunk <;> omega
    have formatted' : Formatted G (v.put (loc (.data i))
        (splice (v.blocks (loc (.data i))) off (skip data done) len)) :=
      formatted.of_desc rfl rfl rfl fun g group _ _ => by rw [G.desc_put supported group noDescriptor]
    have path' : Path G (v.put (loc (.data i))
        (splice (v.blocks (loc (.data i))) off (skip data done) len)).blocks inode n loc :=
      path.congr fun table member => put_other v (noTable table member)
    have next := fun k => @covered_next G off len size i k inside chunk
    obtain ⟨count, v', ran, copied, most, short⟩ := ih (done + len) formatted' path' (by omega)
      (by
        have := mul_le_mul_right G.bs (show i + 1 ≤ n from below)
        rw [add_mul, one_mul] at this ⊢
        split at chunk <;> omega)
      (by omega) (by omega)
      (fun k covered => writable k ((next k).mp covered).1)
    -- the first block takes as much of what is written as of what is asked for
    have chunk' : len = if G.bs < len + count + off then G.bs - off else len + count := by
      split at chunk <;> split <;> omega
    have rest : len + count - len = count := by omega
    refine ⟨len + count, v', ?_, Copied.cons inside (by omega) chunk' (rest.symm ▸ copied),
      by omega, fun less => ?_⟩
    · rw [if_neg null, show u64 (size + off) = size + off from Nat.mod_eq_of_lt (by omega),
        ← chunk, run_bind (formatted.run_write visible room (skip data done)),
        if_neg (by omega), ran, show done + len + count = done + (len + count) by omega]
    · obtain ⟨k, covered, null'⟩ := short (by omega)
      exact ⟨k, ((next k).mp covered).1, null'⟩

end Copy

/-! ### Files as byte arrays -/

/-- The data blocks of a file, one after another. -/
def Geometry.contents (G : Geometry) (blocks : Nat → Bytes) (loc : FileNode → Nat) : Bytes :=
  fun p => blocks (loc (.data (p / G.bs))) (p % G.bs)

section Contents
variable {G : Geometry} {v v' : Volume} {loc : FileNode → Nat} {data : Bytes}

theorem contents_at (bound : o < G.bs) :
    G.contents blocks loc (k * G.bs + o) = blocks (loc (.data k)) o := by
  have positive : 0 < G.bs := by omega
  unfold Geometry.contents
  rw [mul_comm, Nat.mul_add_div positive, Nat.div_eq_of_lt bound, add_zero,
    Nat.mul_add_mod, Nat.mod_eq_of_lt bound]

/-- A byte position as a block and an offset in it. -/
theorem split_position (G : Geometry) (p : Nat) :
    ∃ k o, o < G.bs ∧ p = k * G.bs + o ∧ k = p / G.bs ∧ o = p % G.bs := by
  have positive := G.bs_pos
  refine ⟨p / G.bs, p % G.bs, Nat.mod_lt _ positive, ?_, rfl, rfl⟩
  rw [mul_comm]
  exact (Nat.div_add_mod p G.bs).symm

/-- Copying to a file whose data blocks are all different changes exactly the
bytes of the range. -/
theorem Copied.contents_eq (copied : Copied G loc data 0 i off size v v')
    (apart : ∀ k < n, ∀ k' < n, loc (.data k) = loc (.data k') → k = k')
    (fits : i * G.bs + off + size ≤ n * G.bs) (below : p < n * G.bs) :
    G.contents v'.blocks loc p = splice (G.contents v.blocks loc) (i * G.bs + off) data size p := by
  obtain ⟨k, o, bound, rfl, _, _⟩ := split_position G p
  have inside : ∀ k', Covered G i off size k' → k' < n := fun k' covered =>
    Nat.lt_of_mul_lt_mul_right (a := G.bs) (covered.2.trans_le fits)
  have low : k < n := Nat.lt_of_mul_lt_mul_right (a := G.bs) (by omega)
  rw [contents_at bound]
  by_cases covered : Covered G i off size k
  · rw [copied.contents (fun a b ca cb => apart a (inside a ca) b (inside b cb)) k covered o bound]
    unfold splice
    rw [zero_add, contents_at bound]
  · rw [copied.frame _ fun k' covered' same => covered (by
      rwa [apart k' (inside k' covered') k low same] at covered')]
    rw [splice_outside, contents_at bound]
    by_contra range
    apply covered
    refine ⟨?_, by omega⟩
    by_contra before
    have := mul_le_mul_right G.bs (show k + 1 ≤ i by omega)
    rw [add_mul] at this
    omega

/-- Reading one block and then the rest. -/
theorem splice_contents_next (inside : off < G.bs)
    (chunk : len = if G.bs < size + off then G.bs - off else size) :
    splice (splice out done (slice (blocks (loc (.data i))) off len) len) (done + len)
        (skip (G.contents blocks loc) ((i + 1) * G.bs + 0)) (size - len) =
      splice out done (skip (G.contents blocks loc) (i * G.bs + off)) size := by
  have whole : (i + 1) * G.bs = i * G.bs + G.bs := by ring
  funext j
  by_cases before : done ≤ j ∧ j < done + len
  · rw [splice_outside (by omega), splice_inside before.1 before.2, slice_inside (by omega),
      splice_inside before.1 (by split at chunk <;> omega), skip_apply, add_assoc,
      contents_at (by split at chunk <;> omega)]
  · by_cases later : done + len ≤ j ∧ j < done + size
    · rw [splice_inside later.1 (by omega), splice_inside (by omega) later.2, skip_apply, skip_apply]
      congr 1
      split at chunk <;> omega
    · rw [splice_outside (by split at chunk <;> omega), splice_outside (by omega),
        splice_outside (by split at chunk <;> omega)]

/-- The copy loop of `read_inode`; a hole reads as zeros. -/
theorem run_readBlocks (supported : G.Supported) (range : n ≤ 12 + G.capacity * G.capacity)
    (formatted : Formatted G v) (path : Path G v.blocks inode n loc) (hidden : v.blocks 0 = zeros)
    (inside : off < G.bs)
    (fits : i * G.bs + off + size ≤ n * G.bs) (enough : size < fuel) (small : done + size < 2 ^ 31)
    (visible : ∀ k < n, loc (.data k) = 0 ∨ Visible G.bs (loc (.data k))) (out : Bytes) :
    v.run (readBlocks inode fuel i size off done out) =
      .ok ((done + size, splice out done (skip (G.contents v.blocks loc) (i * G.bs + off)) size),
        v) := by
  induction fuel generalizing i size off done out with
  | zero => omega
  | succ fuel ih =>
    unfold readBlocks
    rcases Nat.eq_zero_or_pos size with rfl | some'
    · rw [if_pos rfl, run_pure, splice_empty, add_zero]
    have below : i < n := Nat.lt_of_mul_lt_mul_right (a := G.bs) (by omega)
    have size_le := G.bs_le
    obtain ⟨len, chunk⟩ : ∃ len, len = if G.bs < size + off then G.bs - off else size := ⟨_, rfl⟩
    have room : off + len ≤ G.bs := by split at chunk <;> omega
    have progress : 0 < len ∧ len ≤ size := by split at chunk <;> omega
    have rest : v.run (readBlocks inode fuel (i + 1) (size - len) 0 (done + len)
        (splice out done (slice (v.blocks (loc (.data i))) off len) len)) =
          .ok ((done + size, splice out done (skip (G.contents v.blocks loc) (i * G.bs + off)) size),
            v) := by
      rw [ih (by omega) _ (by omega) (by omega),
        show done + len + (size - len) = done + size by omega, splice_contents_next inside chunk]
      have := mul_le_mul_right G.bs (show i + 1 ≤ n from below)
      rw [add_mul, one_mul] at this ⊢
      split at chunk <;> omega
    rw [if_neg (by omega), Volume.run_getGlobals, formatted.size,
      show u64 (size + off) = size + off from Nat.mod_eq_of_lt (by omega)]
    dsimp only
    rw [← chunk, run_bind (run_getBlock supported formatted path range below)]
    rcases visible i below with hole | visible
    · rw [hole, hidden, slice_zeros] at rest
      rw [if_pos hole, run_bind (run_pure zeros), if_neg (by omega), rest]
    · rw [if_neg visible.1, run_bind (formatted.run_read visible room), if_neg (by omega), rest]

end Contents

end SbOS.Ext2
