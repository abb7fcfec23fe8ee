import SbOS.Ext2.Format

/-! Free-space accounting. The counters of the superblock and of the group
descriptors are meant to equal the numbers of clear bits. Single allocations
and frees keep them equal; `get_free_blocks` counts one block per group, so a
request served with several blocks of one group breaks the equality. -/
namespace SbOS.Ext2
open Bytes Volume List

/-! ### Frees and inode allocation -/

namespace Geometry
variable (G : Geometry)

/-- Bit `num` is cleared; the counters go up by one. -/
def release (kind : BitmapKind) (v : Volume) (num : Nat) : Volume :=
  G.mark kind v (num / G.perGroup kind)
    (clearBit (slice (v.blocks (G.place kind (num / G.perGroup kind))) 0 (G.perGroup kind / 8))
      (num % G.perGroup kind / 8) (num % G.perGroup kind % 8)) 1 1

/-- Inode bit `pos` of a group is set; the counters go down by one. -/
def takeInode (v : Volume) (group pos : Nat) : Volume :=
  G.mark .inode v group
    (setBit (slice (v.blocks (G.inodeBitmap group)) 0 (G.inodesPerGroup / 8)) (pos / 8) (pos % 8))
    (2 ^ 16 - 1) (2 ^ 32 - 1)

end Geometry

/-- What the loop over the groups in `get_free_inode` returns and leaves: the
first clear bit of the first group that has one according to its counter. -/
inductive FindsInode (G : Geometry) (v : Volume) : List Nat → Nat → Volume → Prop where
  | done : FindsInode G v [] minusOne v
  | skip (nothing : G.groupFree .inode v.blocks group = 0 ∨ G.clearIn .inode v.blocks group = 0)
      (rest : FindsInode G v groups value v') : FindsInode G v (group :: groups) value v'
  | take (counted : G.groupFree .inode v.blocks group ≠ 0)
      (first : (G.clearList .inode v.blocks group).head? = some pos) :
      FindsInode G v (group :: groups) (u32 (pos + group * G.inodesPerGroup + 1))
        (G.takeInode v group pos)

section Run
variable {G : Geometry} {v : Volume}

theorem Formatted.kind_bitmap (formatted : Formatted G v) (kind : BitmapKind) (group : g < G.groups) :
    kind.bitmap (G.desc v.blocks g) = G.place kind g := by
  cases kind
  · exact formatted.blockBitmap g group
  · exact formatted.inodeBitmap g group

theorem Formatted.kind_perGroup (formatted : Formatted G v) (kind : BitmapKind) :
    kind.perGroup v.globals.superblock = G.perGroup kind := by
  cases kind
  · exact formatted.blocksPerGroup
  · exact formatted.inodesPerGroup

section
variable (sound : G.Sound) (supported : G.Supported) (formatted : Formatted G v)
include sound supported formatted

/-- `write_to_block_bitmap` and `write_to_inode_bitmap` with value 0. -/
theorem run_writeToBitmap (kind : BitmapKind) (inside : num / G.perGroup kind < G.groups) :
    v.run (writeToBitmap kind num false) = .ok ((), G.release kind v num) := by
  unfold writeToBitmap
  rw [run_getGlobals, formatted.kind_perGroup,
    run_bind (run_getGroupDescriptor sound supported formatted inside),
    formatted.kind_bitmap kind inside,
    run_bind (run_readBitmap kind sound supported formatted inside)]
  simp only [Bool.false_eq_true, if_false]
  rw [run_getGlobals, run_setGlobals]
  swap
  · exact ⟨rfl, fun _ => rfl⟩
  -- the counter of the superblock is written first; the rest does not depend on it
  have formatted' := formatted.setCounter kind (kind.unallocated v.globals.superblock + 1) true
  rw [run_bind (run_writeBitmap kind sound supported formatted' inside _)]
  exact run_writeGroupDescriptor sound supported (formatted'.put_place sound supported inside) inside _

/-- The loop over the groups in `get_free_inode`. -/
theorem run_freeInodeInGroups (groups : List Nat) (inside : ∀ g ∈ groups, g < G.groups) :
    ∃ value v', v.run (freeInodeInGroups true groups) = .ok (value, v') ∧
      FindsInode G v groups value v' := by
  induction groups with
  | nil => exact ⟨minusOne, v, rfl, .done⟩
  | cons g rest ih =>
    have group := inside g (by simp)
    obtain ⟨value, v', ran, finds⟩ := ih fun g member => inside g (by simp [member])
    have read : v.run (ext2ReadBlock (G.inodeBitmap g) (G.inodesPerGroup / 8) 0) =
        .ok (slice (v.blocks (G.inodeBitmap g)) 0 (G.inodesPerGroup / 8), v) :=
      run_readBitmap .inode sound supported formatted group
    have scanned := firstClear_spec (slice (v.blocks (G.inodeBitmap g)) 0 (G.inodesPerGroup / 8))
      (G.inodesPerGroup / 8)
    rw [show clearPositions (slice (v.blocks (G.inodeBitmap g)) 0 (G.inodesPerGroup / 8))
      (8 * (G.inodesPerGroup / 8)) = G.clearList .inode v.blocks g
      from G.clearPositions_slice .inode _] at scanned
    simp only [freeInodeInGroups]
    rw [run_getGlobals, formatted.inodesPerGroup,
      run_bind (run_getGroupDescriptor sound supported formatted group)]
    by_cases empty : Bgdt.numUnallocatedInodesInGroup (G.desc v.blocks g) = 0
    · rw [if_pos empty]
      exact ⟨value, v', ran, .skip (Or.inl empty) finds⟩
    rw [if_neg empty, formatted.inodeBitmap g group, run_bind read, scanned]
    cases head : (G.clearList .inode v.blocks g).head? with
    | none =>
      refine ⟨value, v', ran, .skip (Or.inr ?_) finds⟩
      rw [Geometry.clearIn, head?_eq_none_iff.mp head]
      rfl
    | some pos =>
      have written := run_writeBitmap .inode sound supported formatted group
        (setBit (slice (v.blocks (G.inodeBitmap g)) 0 (G.inodesPerGroup / 8)) (pos / 8) (pos % 8))
      change v.run (ext2WriteBlock (G.inodeBitmap g) _ (G.inodesPerGroup / 8) 0) = _ at written
      refine ⟨_, G.takeInode v g pos, ?_, .take empty head⟩
      simp only [Option.map_some, if_true]
      rw [run_bind written, run_bind (run_writeGroupDescriptor sound supported
        (formatted.put_place sound supported group) group _), run_getGlobals,
        run_setGlobals]
      swap
      · exact ⟨rfl, fun _ => rfl⟩
      rw [run_bind (run_rawPwrite rfl)]
      rw [run_pure, show pos / 8 * 8 + pos % 8 = pos by omega]
      rfl

/-- `get_free_inode`: nothing when the superblock counts no free inode. -/
theorem run_getFreeInode :
    ∃ value v', v.run (getFreeInode true) = .ok (value, v') ∧
      ((v.totalFree .inode = 0 ∧ v' = v) ∨
        (v.totalFree .inode ≠ 0 ∧ FindsInode G v (range G.groups) value v')) := by
  unfold getFreeInode
  change ∃ value v', v.run (if v.totalFree .inode = 0 then _ else _) = _ ∧ _
  by_cases few : v.totalFree .inode = 0
  · rw [if_pos few]
    exact ⟨minusOne, v, rfl, Or.inl ⟨few, rfl⟩⟩
  · rw [if_neg few, run_assert (by rw [formatted.inodesPerGroup, G.inodesPerGroup_eight]),
      run_bind (run_numBlockGroups formatted)]
    obtain ⟨value, v', ran, finds⟩ := run_freeInodeInGroups sound supported formatted
      (range G.groups) (fun g member => mem_range.mp member)
    exact ⟨value, v', ran, Or.inr ⟨few, finds⟩⟩

end

end Run

/-! ### Exact counters -/

/-- Every counter equals the number of clear bits it stands for. -/
structure Exact (G : Geometry) (v : Volume) : Prop where
  group : ∀ kind, ∀ g < G.groups, G.groupFree kind v.blocks g = G.clearIn kind v.blocks g
  total : ∀ kind, v.totalFree kind = G.clearTotal kind v.blocks

section Exact
variable {G : Geometry} {v v' : Volume} {kind : BitmapKind} {bitmap : Bytes}

theorem Exact.clearIn_lt (exact : Exact G v) (kind : BitmapKind) (group : g < G.groups) :
    G.clearIn kind v.blocks g < 2 ^ 16 := by
  rw [← exact.group kind g group]
  exact BitmapKind.unallocatedInGroup_lt _

theorem clearTotal_lt (supported : G.Supported) (kind : BitmapKind) (blocks : Nat → Bytes) :
    G.clearTotal kind blocks < 2 ^ 31 := by
  have perGroup : G.perGroup kind ≤ 2 ^ 19 := by
    have := G.perGroup_room kind
    have := G.perGroup_eight kind
    have := G.bs_le
    omega
  have groups : G.groups ≤ 2 ^ 11 := by
    have room := supported.oneBlock
    have := G.bs_le
    simp only [Bgdt.size] at room
    omega
  calc G.clearTotal kind blocks
      ≤ ∑ _g ∈ Finset.range G.groups, G.perGroup kind := Finset.sum_le_sum fun _ _ => G.clearIn_le
    _ = G.groups * G.perGroup kind := by simp
    _ ≤ 2 ^ 11 * 2 ^ 19 := Nat.mul_le_mul groups perGroup
    _ < 2 ^ 31 := by decide

theorem mark_clearTotal (sound : G.Sound) (group : g < G.groups) :
    G.clearTotal kind (G.mark kind v g bitmap more16 more32).blocks + G.clearIn kind v.blocks g =
      G.clearTotal kind v.blocks +
        G.clearIn kind (G.mark kind v g bitmap more16 more32).blocks g :=
  sum_range_update group fun _ group' other =>
    G.mark_clearIn_other sound group group' fun both => other both.2

theorem mark_clearIn (sound : G.Sound) (group : g < G.groups) :
    G.clearIn kind (G.mark kind v g bitmap more16 more32).blocks g =
      countBelow (G.perGroup kind) fun i => !bitAt bitmap i := by
  rw [Geometry.clearIn, Geometry.clearList, clearPositions, ← countBelow_eq_length]
  exact countBelow_congr fun i bound => by rw [G.mark_bitAt sound group bound]

theorem bitAt_slice (bound : i < G.perGroup kind) :
    bitAt (slice bitmap 0 (G.perGroup kind / 8)) i = bitAt bitmap i := by
  have := G.perGroup_eight kind
  apply bitAt_congr
  rw [slice_inside (by omega), Nat.zero_add]

theorem clearIn_eq : G.clearIn kind v.blocks g =
    countBelow (G.perGroup kind) fun i => !bitAt (v.blocks (G.place kind g)) i := by
  rw [Geometry.clearIn, Geometry.clearList, clearPositions, ← countBelow_eq_length]

/-- Freeing a used bit leaves one clear bit more. -/
theorem release_clearIn (sound : G.Sound) (inside : num / G.perGroup kind < G.groups)
    (used : G.used kind v.blocks num = true) :
    G.clearIn kind (G.release kind v num).blocks (num / G.perGroup kind) =
      G.clearIn kind v.blocks (num / G.perGroup kind) + 1 := by
  have bound := Nat.mod_lt num (G.perGroup_pos kind)
  have eight : num % G.perGroup kind % 8 < 8 := Nat.mod_lt _ (by omega)
  rw [Geometry.release, mark_clearIn sound inside, clearIn_eq]
  apply countBelow_flip bound
  · simpa [G.used_eq] using used
  · rw [bitAt_clearBit _ eight, Nat.div_add_mod]
    simp
  · intro i below other
    rw [bitAt_clearBit _ eight, Nat.div_add_mod, bitAt_slice below]
    simp [other]

section
variable (sound : G.Sound) (supported : G.Supported) (exact : Exact G v)
include sound supported exact

/-- After a mark, only the counters of the marked bitmap can be wrong. -/
theorem mark_exact_iff (group : g < G.groups) :
    Exact G (G.mark kind v g bitmap more16 more32) ↔
      (G.clearIn kind v.blocks g + more16) % 2 ^ 16 =
          G.clearIn kind (G.mark kind v g bitmap more16 more32).blocks g ∧
        (G.clearTotal kind v.blocks + more32) % 2 ^ 32 =
          G.clearTotal kind (G.mark kind v g bitmap more16 more32).blocks := by
  have here := exact.group kind g group
  have all := exact.total kind
  constructor
  · intro exact'
    have group' := exact'.group kind g group
    have total' := exact'.total kind
    rw [G.mark_groupFree sound supported group group, if_pos ⟨rfl, rfl⟩, here] at group'
    rw [G.mark_totalFree, if_pos rfl, all] at total'
    exact ⟨group', total'⟩
  · rintro ⟨counted, counted'⟩
    refine ⟨fun kind' g' group' => ?_, fun kind' => ?_⟩
    · rw [G.mark_groupFree sound supported group group']
      by_cases same : kind' = kind ∧ g' = g
      · rw [if_pos same, here]
        obtain ⟨rfl, rfl⟩ := same
        exact counted
      · rw [if_neg same, G.mark_clearIn_other sound group group' same]
        exact exact.group kind' g' group'
    · rw [G.mark_totalFree]
      by_cases same : kind' = kind
      · subst same
        rw [if_pos rfl, all, counted']
      · rw [if_neg same, exact.total kind']
        refine Finset.sum_congr rfl fun g' member => ?_
        exact (G.mark_clearIn_other sound group (Finset.mem_range.mp member)
          fun both => same both.1).symm

/-- A free keeps the counters exact unless the group's 16 bits overflow. -/
theorem release_exact_iff (inside : num / G.perGroup kind < G.groups) (used :
    G.used kind v.blocks num = true) :
    Exact G (G.release kind v num) ↔
      G.clearIn kind v.blocks (num / G.perGroup kind) + 1 < 2 ^ 16 := by
  have more := release_clearIn sound inside used
  have bound := clearTotal_lt supported kind v.blocks
  have total : G.clearTotal kind (G.release kind v num).blocks + _ =
      _ + G.clearIn kind (G.release kind v num).blocks _ := mark_clearTotal sound inside
  rw [Geometry.release, mark_exact_iff sound supported exact inside, ← Geometry.release]
  constructor
  · intro both
    omega
  · intro small
    exact ⟨by omega, by omega⟩

/-- Taking an inode always keeps the counters exact. -/
theorem takeInode_exact (group : g < G.groups) (first :
    (G.clearList .inode v.blocks g).head? = some pos) :
    Exact G (G.takeInode v g pos) := by
  have member := mem_of_head? first
  obtain ⟨bound, clear⟩ := G.mem_clearList.mp member
  have eight : pos % 8 < 8 := Nat.mod_lt _ (by omega)
  have less : G.clearIn .inode v.blocks g =
      G.clearIn .inode (G.takeInode v g pos).blocks g + 1 := by
    rw [Geometry.takeInode, mark_clearIn sound group, clearIn_eq]
    apply countBelow_flip bound
    · rw [bitAt_setBit _ eight, Nat.div_add_mod]
      simp
    · simp [clear]
    · intro i below other
      rw [bitAt_setBit _ eight, Nat.div_add_mod,
        show G.inodesPerGroup / 8 = G.perGroup .inode / 8 from rfl, bitAt_slice below]
      simp [other, Geometry.place]
  have upper := clearTotal_lt supported .inode v.blocks
  have small := exact.clearIn_lt .inode group
  have total : G.clearTotal .inode (G.takeInode v g pos).blocks + _ =
      _ + G.clearIn .inode (G.takeInode v g pos).blocks g := mark_clearTotal sound group
  rw [Geometry.takeInode, mark_exact_iff sound supported exact group, ← Geometry.takeInode]
  omega

end

end Exact

/-! ### Requests for several blocks -/

/-- Walking over the groups in order, every group reached has at most one clear
bit or is asked for at most one block. -/
def OnePerGroup (clear : Nat → Nat) : List Nat → Nat → Prop
  | [], _ => True
  | group :: rest, wanted => min wanted (clear group) ≤ 1 ∧ OnePerGroup clear rest (wanted - clear group)

theorem OnePerGroup.congr (same : ∀ g ∈ groups, clear g = clear' g) (wanted : Nat) :
    OnePerGroup clear groups wanted ↔ OnePerGroup clear' groups wanted := by
  induction groups generalizing wanted with
  | nil => rfl
  | cons g rest ih =>
    simp only [OnePerGroup, same g (by simp)]
    rw [ih fun g member => same g (by simp [member])]

theorem OnePerGroup.zero (clear : Nat → Nat) (groups : List Nat) : OnePerGroup clear groups 0 := by
  induction groups with
  | nil => trivial
  | cons g rest ih => exact ⟨by omega, by simpa using ih⟩

/-- A single block never overcharges a group. -/
theorem OnePerGroup.one (clear : Nat → Nat) (groups : List Nat) : OnePerGroup clear groups 1 := by
  induction groups with
  | nil => trivial
  | cons g rest ih =>
    refine ⟨by omega, ?_⟩
    rcases Nat.eq_zero_or_pos (clear g) with none' | some'
    · rwa [none']
    · rw [show 1 - clear g = 0 by omega]
      exact .zero clear rest

section Takes
variable {G : Geometry} {v v' : Volume}

section
variable (sound : G.Sound) (supported : G.Supported)
include sound supported

theorem Takes.untouched (takes : Takes G groups wanted v new v') (inside :
    ∀ g ∈ groups, g < G.groups)
    (group : g < G.groups) (other : g ∉ groups) :
    G.groupFree .block v'.blocks g = G.groupFree .block v.blocks g ∧
      G.clearIn .block v'.blocks g = G.clearIn .block v.blocks g := by
  induction takes with
  | enough => exact ⟨rfl, rfl⟩
  | done => exact ⟨rfl, rfl⟩
  | skip _ _ ih =>
    exact ih (fun g member => inside g (by simp [member])) (fun member => other (by simp [member]))
  | @take v v' g' wanted groups new positions _ _ _ _ _ ih =>
    obtain ⟨counter, clear⟩ := ih (fun g member => inside g (by simp [member]))
      (fun member => other (by simp [member]))
    have apart : ¬ (BitmapKind.block = .block ∧ g = g') := fun both => other (by simp [both.2])
    rw [counter, clear, Geometry.take, G.mark_groupFree sound supported (inside _ (by simp)) group,
      if_neg apart, G.mark_clearIn_other sound (inside _ (by simp)) group apart]
    exact ⟨rfl, rfl⟩

/-- One `take` keeps the counters exact only if it takes a single block. -/
theorem take_exact_iff (exact : Exact G v)
    (group : g < G.groups) (some' : 0 < positions.length)
    (taken : positions = (G.clearList .block v.blocks g).take wanted) :
    Exact G (G.take v g positions) ↔ positions.length = 1 := by
  have here := G.take_clearIn sound group taken
  have all := G.take_clearTotal sound group taken
  have upper := clearTotal_lt supported .block v.blocks
  have small := exact.clearIn_lt .block group
  rw [Geometry.take, mark_exact_iff sound supported exact group, ← Geometry.take]
  omega

/-- The loop over the groups keeps the counters exact if and only if it takes at
most one block of each group. -/
theorem Takes.exact_iff (exact : Exact G v)
    (takes : Takes G groups wanted v new v') (inside : ∀ g ∈ groups, g < G.groups)
    (nodup : groups.Nodup) :
    Exact G v' ↔ OnePerGroup (G.clearIn .block v.blocks) groups wanted := by
  induction takes with
  | enough => exact ⟨fun _ => .zero _ _, fun _ => exact⟩
  | done => exact ⟨fun _ => trivial, fun _ => exact⟩
  | @skip v v' g wanted groups new nothing _ ih =>
    have none' : G.clearIn .block v.blocks g = 0 := by
      have := exact.group .block g (inside g (by simp))
      omega
    rw [ih exact (fun g member => inside g (by simp [member])) (nodup_cons.mp nodup).2]
    simp [OnePerGroup, none']
  | @take v v' g wanted groups new positions positive counted found taken rest ih =>
    have group := inside g (by simp)
    have inside' : ∀ g ∈ groups, g < G.groups := fun g member => inside g (by simp [member])
    obtain ⟨apart, nodup'⟩ := nodup_cons.mp nodup
    have length : positions.length = min wanted (G.clearIn .block v.blocks g) := by
      rw [taken, length_take, Geometry.clearIn]
    have single := take_exact_iff sound supported exact group (by omega) taken
    have others : ∀ g' ∈ groups, G.clearIn .block (G.take v g positions).blocks g' =
        G.clearIn .block v.blocks g' := fun g' member =>
      G.mark_clearIn_other sound group (inside' g' member) fun both => apart (both.2 ▸ member)
    simp only [OnePerGroup]
    by_cases one : positions.length = 1
    · rw [ih (single.mpr one) inside' nodup', OnePerGroup.congr others, length,
        show wanted - min wanted (G.clearIn .block v.blocks g) =
          wanted - G.clearIn .block v.blocks g by omega]
      exact ⟨fun rest => ⟨by omega, rest⟩, fun both => both.2⟩
    · -- the group's counter is off by now, and nothing later repairs it
      constructor
      · intro exact'
        obtain ⟨counter, clear⟩ := rest.untouched sound supported inside' group apart
        have here := G.take_clearIn sound group taken
        have wrong := exact'.group .block g group
        rw [counter, clear, Geometry.take, G.mark_groupFree sound supported group group,
          if_pos ⟨rfl, rfl⟩, exact.group .block g group, ← Geometry.take] at wrong
        have small := exact.clearIn_lt .block group
        omega
      · intro both
        omega

end

end Takes

/-! ### Runs -/

/-- A call that allocates or frees. -/
inductive SpaceCall where
  | getFreeBlocks (numEntries : Nat)
  | freeBlock (block : Nat)
  | getFreeInode
  | freeInode (inode : Nat)

namespace SpaceCall

/-- The driver code of a call, its result dropped. -/
def code : SpaceCall → Driver Unit
  | .getFreeBlocks numEntries => do
    let _ ← Ext2.getFreeBlocks true numEntries
    return ()
  | .freeBlock block => writeToBlockBitmap block false
  | .getFreeInode => do
    let _ ← Ext2.getFreeInode true
    return ()
  | .freeInode inode => writeToInodeBitmap inode false

/-- Only what is allocated is freed. -/
def Legal (G : Geometry) (v : Volume) : SpaceCall → Prop
  | .getFreeBlocks _ | .getFreeInode => True
  | .freeBlock block => block / G.blocksPerGroup < G.groups ∧ G.used .block v.blocks block = true
  | .freeInode inode => inode / G.inodesPerGroup < G.groups ∧ G.used .inode v.blocks inode = true

/-- The calls that the counters follow. -/
def Accounted (G : Geometry) (v : Volume) : SpaceCall → Prop
  | .getFreeBlocks numEntries => v.totalFree .block < numEntries ∨
    OnePerGroup (G.clearIn .block v.blocks) (List.range G.groups) numEntries
  | .freeBlock block => G.clearIn .block v.blocks (block / G.blocksPerGroup) + 1 < 2 ^ 16
  | .getFreeInode => True
  | .freeInode inode => G.clearIn .inode v.blocks (inode / G.inodesPerGroup) + 1 < 2 ^ 16

end SpaceCall

section Runs
variable {G : Geometry} {v : Volume}

section
variable (sound : G.Sound) (supported : G.Supported)
include sound supported

theorem FindsInode.formatted (formatted : Formatted G v) (finds : FindsInode G v groups value v')
    (inside : ∀ g ∈ groups, g < G.groups) : Formatted G v' := by
  induction finds with
  | done => exact formatted
  | skip _ _ ih => exact ih fun g member => inside g (by simp [member])
  | @take g _ _ _ _ => exact G.mark_formatted sound supported formatted (inside g (by simp))

theorem FindsInode.exact (exact : Exact G v)
    (finds : FindsInode G v groups value v') (inside : ∀ g ∈ groups, g < G.groups) :
    Exact G v' := by
  induction finds with
  | done => exact exact
  | skip _ _ ih => exact ih fun g member => inside g (by simp [member])
  | @take g _ _ _ first => exact takeInode_exact sound supported exact (inside g (by simp)) first

/-- One call on a volume with exact counters: it returns, and the counters are
exact afterwards if and only if the call is one that they follow. -/
theorem space_call_exact_iff (formatted : Formatted G v) (exact : Exact G v) (call : SpaceCall)
    (legal : call.Legal G v) :
    ∃ v', v.run call.code = .ok ((), v') ∧ Formatted G v' ∧ (Exact G v' ↔ call.Accounted G v) := by
  have inside : ∀ g ∈ range G.groups, g < G.groups := fun g member => mem_range.mp member
  cases call with
  | getFreeBlocks numEntries =>
    obtain ⟨new, v', ran, outcome⟩ := run_getFreeBlocks sound supported formatted numEntries
    refine ⟨v', by rw [SpaceCall.code, run_bind ran, run_pure], ?_⟩
    rcases outcome with ⟨few, rfl, rfl⟩ | ⟨enough, takes⟩
    · exact ⟨formatted, fun _ => Or.inl few, fun _ => exact⟩
    · refine ⟨(takes.allocated sound supported formatted inside).formatted, ?_⟩
      rw [takes.exact_iff sound supported exact inside nodup_range]
      exact ⟨Or.inr, fun accounted => accounted.resolve_left (by omega)⟩
  | freeBlock block =>
    exact ⟨_, run_writeToBitmap sound supported formatted .block legal.1,
      G.mark_formatted sound supported formatted legal.1,
      release_exact_iff sound supported exact legal.1 legal.2⟩
  | getFreeInode =>
    obtain ⟨value, v', ran, outcome⟩ := run_getFreeInode sound supported formatted
    refine ⟨v', by rw [SpaceCall.code, run_bind ran, run_pure], ?_⟩
    rcases outcome with ⟨_, rfl⟩ | ⟨_, finds⟩
    · exact ⟨formatted, fun _ => trivial, fun _ => exact⟩
    · exact ⟨finds.formatted sound supported formatted inside, fun _ => trivial,
        fun _ => finds.exact sound supported exact inside⟩
  | freeInode inode =>
    exact ⟨_, run_writeToBitmap sound supported formatted .inode legal.1,
      G.mark_formatted sound supported formatted legal.1,
      release_exact_iff sound supported exact legal.1 legal.2⟩

end

/-- The states reached by legal calls that the counters follow. -/
inductive SpaceRun (G : Geometry) (w : World) : World → Prop where
  | start : SpaceRun G w w
  | call {w' w'' : World} {call : SpaceCall} (before : SpaceRun G w w')
      (legal : call.Legal G w'.volume) (accounted : call.Accounted G w'.volume)
      (ran : w'.run call.code = .ok ((), w'')) : SpaceRun G w w''

theorem SpaceRun.invariant (supported : G.Supported) (mounted : Mounted G w)
    (exact : Exact G w.volume) (run : SpaceRun G w w') : Mounted G w' ∧ Exact G w'.volume := by
  induction run with
  | start => exact ⟨mounted, exact⟩
  | @call w' w'' call _ legal accounted ran ih =>
    obtain ⟨mounted', exact'⟩ := ih
    obtain ⟨v', step, formatted, kept⟩ := space_call_exact_iff mounted'.sound supported
      mounted'.formatted exact' call legal
    obtain ⟨final, ran', mounted'', rfl⟩ := mounted'.run step formatted
    rw [ran'] at ran
    cases ran
    exact ⟨mounted'', kept.mpr accounted⟩

/-- **Free-space accounting.** On a mounted volume with exact counters, every
run of legal calls that take at most one block of each group and overflow no
group counter keeps all counters exact. In every state so reached each further
legal call returns, and leaves the counters exact if and only if it is again
such a call. -/
theorem free_space_accounting (G : Geometry) (w w' : World) (supported : G.Supported)
    (mounted : Mounted G w) (exact : Exact G w.volume) (run : SpaceRun G w w') :
    Exact G w'.volume ∧ ∀ call : SpaceCall, call.Legal G w'.volume →
      ∃ w'', w'.run call.code = .ok ((), w'') ∧
        (Exact G w''.volume ↔ call.Accounted G w'.volume) := by
  obtain ⟨mounted', exact'⟩ := run.invariant supported mounted exact
  refine ⟨exact', fun call legal => ?_⟩
  obtain ⟨v', step, formatted, kept⟩ := space_call_exact_iff mounted'.sound supported
    mounted'.formatted exact' call legal
  obtain ⟨w'', ran, _, rfl⟩ := mounted'.run step formatted
  exact ⟨w'', ran, kept⟩

end Runs

/-- The small volume with its metadata blocks in use and nothing else. -/
def emptyImage : Image where
  used := fun _ n => n < 5
  header := fun _ => zeros
  data := fun _ => zeros
  garbage := fun _ _ => 0

/-- Right after formatting, the counters are exact. -/
theorem Image.volume_exact (image : Image) (sound : G.Sound)
    (supported : G.Supported) (small : ∀ kind, ∀ g < G.groups, image.freeIn G kind g < 2 ^ 16) :
    Exact G (image.volume G) := by
  refine ⟨fun kind g group => ?_, fun kind => ?_⟩
  · rw [image.volume_groupFree sound supported.addressable group,
      image.volume_clearIn sound supported.addressable group,
      Nat.mod_eq_of_lt (small kind g group)]
  · have := clearTotal_lt supported kind (image.volume G).blocks
    rw [image.volume_totalFree, ← image.volume_clearTotal sound supported.addressable]
    omega

theorem emptyImage_exact : Exact smallGeometry (emptyImage.volume smallGeometry) := by
  apply emptyImage.volume_exact smallGeometry_sound smallGeometry_supported
  intro kind g group
  refine Nat.lt_of_le_of_lt (countBelow_le _ _) ?_
  cases kind <;> decide

theorem free_space_accounting_single :
    ∃ w, (emptyImage.world smallGeometry).run (SpaceCall.code (.getFreeBlocks 1)) = .ok ((), w) ∧
      Exact smallGeometry w.volume := by
  have mounted := emptyImage.world_mounted smallGeometry_sound smallGeometry_supported.addressable
  obtain ⟨_, each⟩ := free_space_accounting smallGeometry (emptyImage.world smallGeometry)
    (emptyImage.world smallGeometry) smallGeometry_supported mounted
    (emptyImage.world_volume ▸ emptyImage_exact) .start
  obtain ⟨w, ran, kept⟩ := each (.getFreeBlocks 1) trivial
  exact ⟨w, ran, kept.mpr (Or.inr (.one _ _))⟩

/-- Two blocks of one group are counted as one. -/
theorem two_blocks_counted_once :
    Exact smallGeometry (emptyImage.world smallGeometry).volume ∧
      ∃ w, (emptyImage.world smallGeometry).run (SpaceCall.code (.getFreeBlocks 2)) = .ok ((), w) ∧
        ¬ Exact smallGeometry w.volume := by
  obtain ⟨⟨_, w⟩, ran, report⟩ := of_report (show ((emptyImage.world smallGeometry).run
    (SpaceCall.code (.getFreeBlocks 2))).toOption.map (fun done =>
      (smallGeometry.groupFree .block done.2.volume.blocks 0,
        smallGeometry.clearIn .block done.2.volume.blocks 0)) = some (58, 57) by decide +kernel)
  refine ⟨emptyImage.world_volume ▸ emptyImage_exact, w, ran, fun exact => ?_⟩
  have counted := exact.group .block 0 (by decide)
  rw [(Prod.mk.inj report).1, (Prod.mk.inj report).2] at counted
  cases counted

end SbOS.Ext2
