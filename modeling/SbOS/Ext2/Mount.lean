import SbOS.Ext2.Accounting

/-! Mounting, and what a later mount sees of the superblock. `parse_superblock`
reads the superblock at byte 1024 of the device, while `ext2_flush_writes` and
`get_free_inode` write it at byte 0: an allocation or a free never reaches the
place it is read back from, and the boot area is overwritten. -/
namespace SbOS.Ext2
open Bytes

/-- `num_block_cache` slots as `kcalloc` leaves them. -/
def emptyCache : List Slot := List.replicate 4 Slot.unused

/-- `parse_superblock`: the variables it sets, or an endless loop on a device
without the ext2 signature. -/
def parseSuperblock (g : Globals) (d : Disk) : Except Stop (Globals × Disk) :=
  let superblock := d.pread zeros (2 * sectorSize) (ext2SuperblockSector * sectorSize)
  let blockByteSize := u32 (1024 <<< Superblock.blockSize superblock)
  if Superblock.ext2Signature superblock ≠ 0xEF53 then .error .diverged
  else
    let inodeSize :=
      if 1 ≤ Superblock.majorVersion superblock then Superblock.inodeSize superblock
      else g.inodeSize
    .ok ({ g with superblock, blockByteSize, inodeSize }, { d with cache := emptyCache })

/-- A driver right after `parse_superblock` on some device. -/
def JustMounted (w : World) : Prop :=
  w.globals.superblockChanged = false ∧ ∃ g d, parseSuperblock g d = .ok (w.globals, w.disk)

/-- `parse_superblock` leaves an empty cache and the bytes at its fixed place. -/
theorem parseSuperblock_ok (parsed : parseSuperblock g d = .ok (g', d')) :
    d'.cache = emptyCache ∧ d'.device = d.device ∧
      g'.superblock = d.pread zeros (2 * sectorSize) (ext2SuperblockSector * sectorSize) ∧
      Superblock.ext2Signature g'.superblock = 0xEF53 := by
  unfold parseSuperblock at parsed
  dsimp only at parsed
  split at parsed
  · cases parsed
  · rename_i signature
    cases parsed
    exact ⟨rfl, rfl, rfl, by simpa using signature⟩

theorem JustMounted.clean (fresh : JustMounted w) (b : Nat) :
    ∀ c ∈ w.disk.cache, c.dirtyFor b = false := by
  obtain ⟨_, g, d, parsed⟩ := fresh
  intro c member
  rw [(parseSuperblock_ok parsed).1] at member
  obtain ⟨_, rfl⟩ := List.mem_replicate.mp member
  rfl

/-- A later mount from a device with the same superblock reads the same one. -/
theorem JustMounted.again (fresh : JustMounted w) (g : Globals) (d : Disk)
    (same : ∀ i < 2 * sectorSize, d.device (ext2SuperblockSector * sectorSize + i) =
      w.disk.device (ext2SuperblockSector * sectorSize + i)) :
    ∃ g' d', parseSuperblock g d = .ok (g', d') ∧ g'.superblock = w.globals.superblock := by
  obtain ⟨_, g₀, d₀, parsed⟩ := fresh
  obtain ⟨_, device, superblock, signature⟩ := parseSuperblock_ok parsed
  have read : d.pread zeros (2 * sectorSize) (ext2SuperblockSector * sectorSize) =
      w.globals.superblock := by
    rw [superblock, Disk.pread, Disk.pread, ← device]
    funext i
    by_cases bound : i < 2 * sectorSize
    · rw [splice_inside (by omega) (by omega), splice_inside (by omega) (by omega), Nat.sub_zero]
      exact same i bound
    · rw [splice_outside (by omega), splice_outside (by omega)]
  unfold parseSuperblock
  rw [read]
  rw [if_neg (by simpa using signature)]
  exact ⟨_, _, rfl, rfl⟩

/-! ### The bytes outside the array of blocks -/

/-- What driver code without a flush leaves of the bytes that no block of the
array shows: the boot area until the superblock changes, and the rest of it. -/
structure Aside (device : Bytes) (w : World) : Prop where
  boot : w.globals.superblockChanged = false → ∀ o < 2 * sectorSize,
    w.disk.contents w.globals.blockByteSize 0 o = device o
  rest : ∀ b, ∀ o < w.globals.blockByteSize, ¬ Visible w.globals.blockByteSize b →
    (b = 0 → 2 * sectorSize ≤ o) →
    w.disk.contents w.globals.blockByteSize b o = device (b * w.globals.blockByteSize + o)

/-- The superblock write at the start of the device stays below byte 1024. -/
theorem contents_pwrite_high (d : Disk) (buf : Bytes) (high : b = 0 → count ≤ o)
    (large : count ≤ bs) : (d.pwrite buf count 0).contents bs b o = d.contents bs b o := by
  unfold Disk.contents
  split
  · simp only [Disk.pwrite]
    cases d.cache.find? (Slot.dirtyFor b) with
    | some c => rfl
    | none =>
      rcases Nat.eq_zero_or_pos b with rfl | positive
      · exact splice_outside (by have := high rfl; omega)
      · have : bs ≤ b * bs := Nat.le_mul_of_pos_left bs positive
        exact splice_outside (by omega)
  · rfl

/-- Requests other than a flush leave the bytes aside. -/
theorem aside_step (shows : Shows w v) (aside : Aside device w) (noFlush : call ≠ .flushWrites)
    (spoken : Volume.handle call v = .ok (value, v')) (ran : World.handle call w = .ok (value, w')) :
    Aside device w' := by
  obtain ⟨size, coherent, rfl⟩ := shows
  have positive : 0 < w.globals.blockByteSize := by have := size.le; omega
  cases call with
  | stop reason => exact value.elim
  | flushWrites => exact absurd rfl noFlush
  | getGlobals =>
    cases ran
    exact aside
  | setGlobals globals =>
    by_cases same : globals.blockByteSize = w.volume.bs ∧
      (w.volume.globals.superblockChanged = true → globals.superblockChanged = true)
    · cases ran
      have sized := same.1
      refine ⟨fun unchanged o bound => ?_, fun b o bound hidden high => ?_⟩
      · have before : w.globals.superblockChanged = false := by
          cases flag : w.globals.superblockChanged with
          | false => rfl
          | true =>
            have := same.2 flag
            rw [this] at unchanged
            cases unchanged
        simp only [sized]
        exact aside.boot before o bound
      · simp only [sized] at bound hidden ⊢
        exact aside.rest b o bound hidden high
    · rw [Volume.handle_setGlobals_other same] at spoken
      cases spoken
  | rawPwrite buf count offset =>
    by_cases due : w.volume.globals.superblockChanged = true ∧ offset = 0 ∧ count = 2 * sectorSize
    · cases ran
      obtain ⟨changed, rfl, rfl⟩ := due
      have room : 2 * sectorSize ≤ w.globals.blockByteSize := by
        have := size.le
        simp only [sectorSize]
        omega
      refine ⟨fun unchanged => ?_, fun b o bound hidden high => ?_⟩
      · have changed : w.globals.superblockChanged = true := changed
        rw [changed] at unchanged
        cases unchanged
      · rw [contents_pwrite_high w.disk buf high room]
        exact aside.rest b o bound hidden high
    · rw [Volume.handle_rawPwrite_other due] at spoken
      cases spoken
  | readBlock block len offset =>
    by_cases outside : w.volume.bs < u32 (offset + len)
    · rw [Volume.handle_read_assertion outside] at spoken
      cases spoken
    by_cases inside : Visible w.volume.bs block ∧ offset + len ≤ w.volume.bs
    · obtain ⟨d', read, _, same⟩ := cachedReadBlock_spec positive size.lt coherent
        inside.1.2 inside.2 inside.1.1 0
      simp only [World.handle, readDepth, read] at ran
      cases ran
      exact ⟨fun unchanged o bound => by rw [same]; exact aside.boot unchanged o bound,
        fun b o bound hidden high => by rw [same]; exact aside.rest b o bound hidden high⟩
    · rw [Volume.handle_read_none outside inside] at spoken
      cases spoken
  | writeBlock block address len offset =>
    by_cases outside : w.volume.bs < u32 (offset + len)
    · rw [Volume.handle_write_assertion outside] at spoken
      cases spoken
    by_cases inside : Visible w.volume.bs block ∧ offset + len ≤ w.volume.bs
    · obtain ⟨d', written, _, others, _⟩ := writeBlock_spec size.lt coherent inside.1.2 inside.2
        address
      simp only [World.handle, written] at ran
      cases ran
      refine ⟨fun unchanged o bound => ?_, fun b o bound hidden high => ?_⟩
      · rw [others 0 inside.1.1.symm]
        exact aside.boot unchanged o bound
      · have other : b ≠ block := fun same => hidden (same ▸ inside.1)
        rw [others b other]
        exact aside.rest b o bound hidden high
    · rw [Volume.handle_write_none outside inside] at spoken
      cases spoken

/-- Code without a flush, run on the array, leaves the bytes aside on the device. -/
theorem World.run_aside (within : Program.Within (· ≠ Call.flushWrites) code) (shows : Shows w v)
    (aside : Aside device w) (ran : v.run code = .ok (value, v')) :
    ∃ w', w.run code = .ok (value, w') ∧ Shows w' v' ∧ Aside device w' := by
  have simulates : ∀ call w v, call ≠ .flushWrites → (Shows w v ∧ Aside device w) →
      Program.Matches (fun w v => Shows w v ∧ Aside device w) (World.handle call w)
        (Volume.handle call v) := by
    intro call w v allowed both
    have simulated := world_simulates_volume call w v both.1
    cases spoken : Volume.handle call v with
    | ok result =>
      rw [spoken] at simulated
      obtain ⟨w', ran, shows'⟩ := simulated
      exact ⟨w', ran, shows', aside_step both.1 both.2 allowed spoken ran⟩
    | error stop =>
      rw [spoken] at simulated
      cases stop with
      | none => trivial
      | some stop => exact simulated
  have step := Program.execute_simulates_within simulates within ⟨shows, aside⟩
  rw [show Program.execute Volume.handle code v = _ from ran] at step
  exact step

/-! ### The allocator never flushes -/

section Within
open Program

theorem within_setGlobals (g : Globals) : Within (· ≠ Call.flushWrites) (setGlobals g) :=
  .request (by simp) fun _ => .done _

theorem within_getGlobals : Within (· ≠ Call.flushWrites) getGlobals := .request (by simp) fun _ => .done _

theorem within_assert (condition : Prop) [Decidable condition] :
    Within (· ≠ Call.flushWrites) (assert condition) := by
  unfold assert
  split
  · exact .pure _
  · exact .request (by simp) fun reply => reply.elim

theorem within_read (block size offset : Nat) :
    Within (· ≠ Call.flushWrites) (ext2ReadBlock block size offset) :=
  .request (by simp) fun _ => .done _

theorem within_write (block : Nat) (address : Bytes) (size offset : Nat) :
    Within (· ≠ Call.flushWrites) (ext2WriteBlock block address size offset) :=
  .request (by simp) fun _ => .done _

theorem within_getGroupDescriptor (group : Nat) :
    Within (· ≠ Call.flushWrites) (getGroupDescriptor group) :=
  within_getGlobals.bind fun _ => within_read _ _ _

theorem within_writeGroupDescriptor (group : Nat) (d : Bytes) :
    Within (· ≠ Call.flushWrites) (writeGroupDescriptor group d) :=
  within_getGlobals.bind fun _ => within_write _ _ _ _

theorem within_numBlockGroups : Within (· ≠ Call.flushWrites) numBlockGroups :=
  within_getGlobals.bind fun _ => (within_assert _).bind fun _ => .pure _

theorem within_freeBlocksInGroups (allocate : Bool) (numEntries : Nat) (groups : List Nat) :
    ∀ entries, Within (· ≠ Call.flushWrites)
      (freeBlocksInGroups allocate numEntries groups entries) := by
  induction groups with
  | nil => exact fun _ => .pure _
  | cons group rest ih =>
    intro entries
    simp only [freeBlocksInGroups]
    split
    · refine within_getGlobals.bind fun _ => (within_getGroupDescriptor _).bind fun _ => ?_
      split
      · exact ih _
      · refine (within_read _ _ _).bind fun _ => ?_
        split
        · exact (within_write _ _ _ _).bind fun _ => (within_writeGroupDescriptor _ _).bind fun _ =>
            within_getGlobals.bind fun _ => (within_setGlobals _).bind fun _ => ih _
        · exact ih _
    · exact .pure _

theorem within_getFreeBlocks (allocate : Bool) (numEntries : Nat) :
    Within (· ≠ Call.flushWrites) (getFreeBlocks allocate numEntries) := by
  refine within_getGlobals.bind fun _ => ?_
  split
  · exact .pure _
  · exact (within_assert _).bind fun _ => within_numBlockGroups.bind fun _ =>
      within_freeBlocksInGroups _ _ _ _

theorem within_freeInodeInGroups (allocate : Bool) (groups : List Nat) :
    Within (· ≠ Call.flushWrites) (freeInodeInGroups allocate groups) := by
  induction groups with
  | nil => exact .pure _
  | cons group rest ih =>
    refine within_getGlobals.bind fun _ => (within_getGroupDescriptor _).bind fun _ => ?_
    split
    · exact ih
    · refine (within_read _ _ _).bind fun _ => ?_
      split
      · exact ih
      · split
        · refine (within_write _ _ _ _).bind fun _ => (within_writeGroupDescriptor _ _).bind fun _ =>
            within_getGlobals.bind fun _ => (within_setGlobals _).bind fun _ =>
            Within.bind (.request (by simp) fun _ => .done _) fun _ => .pure _
        · exact .pure _

theorem within_getFreeInode (allocate : Bool) :
    Within (· ≠ Call.flushWrites) (getFreeInode allocate) := by
  refine within_getGlobals.bind fun _ => ?_
  split
  · exact .pure _
  · exact (within_assert _).bind fun _ => within_numBlockGroups.bind fun _ =>
      within_freeInodeInGroups _ _

theorem within_writeToBitmap (kind : BitmapKind) (num : Nat) (value : Bool) :
    Within (· ≠ Call.flushWrites) (writeToBitmap kind num value) := by
  refine within_getGlobals.bind fun _ => (within_getGroupDescriptor _).bind fun _ =>
    (within_read _ _ _).bind fun _ => ?_
  split <;> exact within_getGlobals.bind fun _ => (within_setGlobals _).bind fun _ =>
    (within_write _ _ _ _).bind fun _ => within_writeGroupDescriptor _ _

theorem SpaceCall.within (call : SpaceCall) : Within (· ≠ Call.flushWrites) call.code := by
  cases call with
  | getFreeBlocks n => exact (within_getFreeBlocks _ _).bind fun _ => .pure _
  | freeBlock b => exact within_writeToBitmap .block b false
  | getFreeInode => exact (within_getFreeInode _).bind fun _ => .pure _
  | freeInode i => exact within_writeToBitmap .inode i false

end Within

/-! ### Calls that change nothing -/

/-- A call that neither allocates nor frees anything. -/
def SpaceCall.Idle (G : Geometry) (v : Volume) : SpaceCall → Prop
  | .getFreeBlocks numEntries => v.totalFree .block < numEntries ∨ numEntries = 0 ∨
    ∀ g < G.groups, G.groupFree .block v.blocks g = 0 ∨ G.clearIn .block v.blocks g = 0
  | .getFreeInode => v.totalFree .inode = 0 ∨
    ∀ g < G.groups, G.groupFree .inode v.blocks g = 0 ∨ G.clearIn .inode v.blocks g = 0
  | .freeBlock _ | .freeInode _ => False

section Idle
variable {G : Geometry} {v v' : Volume}

theorem Takes.idle (takes : Takes G groups wanted v new v')
    (nothing : wanted = 0 ∨ ∀ g ∈ groups,
      G.groupFree .block v.blocks g = 0 ∨ G.clearIn .block v.blocks g = 0) : v' = v := by
  induction takes with
  | enough => rfl
  | done => rfl
  | skip _ _ ih => exact ih (nothing.imp_right fun all g member => all g (by simp [member]))
  | @take v v' g wanted groups new positions positive counted found _ _ _ =>
    rcases nothing with none' | all
    · omega
    · have := all g (by simp)
      omega

/-- Taking anything lowers the counter of the superblock. -/
theorem Takes.totalFree_lt (takes : Takes G groups wanted v new v')
    (counted : wanted ≤ v.totalFree .block) :
    v'.totalFree .block ≤ v.totalFree .block ∧
      (¬ (wanted = 0 ∨ ∀ g ∈ groups,
        G.groupFree .block v.blocks g = 0 ∨ G.clearIn .block v.blocks g = 0) →
        v'.totalFree .block < v.totalFree .block) := by
  induction takes with
  | enough => exact ⟨le_rfl, fun busy => absurd (Or.inl rfl) busy⟩
  | done => exact ⟨le_rfl, fun busy => absurd (Or.inr (by simp)) busy⟩
  | skip nothing _ ih =>
    obtain ⟨le, lt⟩ := ih counted
    refine ⟨le, fun busy => lt fun idle => busy (idle.imp_right fun all => ?_)⟩
    simpa using ⟨nothing, all⟩
  | @take v v' g wanted groups new positions positive _ found taken _ ih =>
    have low : v.totalFree .block < 2 ^ 32 := BitmapKind.unallocated_lt _
    have less : (G.take v g positions).totalFree .block = v.totalFree .block - 1 := by
      rw [Geometry.take, G.mark_totalFree, if_pos rfl]
      omega
    have length : positions.length = min wanted (G.clearIn .block v.blocks g) := by
      rw [taken, List.length_take, Geometry.clearIn]
    obtain ⟨le, _⟩ := ih (by omega)
    exact ⟨by omega, fun _ => by omega⟩

section
variable (finds : FindsInode G v groups value v')
include finds

theorem FindsInode.idle (nothing :
    ∀ g ∈ groups, G.groupFree .inode v.blocks g = 0 ∨ G.clearIn .inode v.blocks g = 0) :
    v' = v := by
  induction finds with
  | done => rfl
  | skip _ _ ih => exact ih fun g member => nothing g (by simp [member])
  | @take g pos groups counted first =>
    rcases nothing g (by simp) with zero | zero
    · exact absurd zero counted
    · rw [Geometry.clearIn, List.length_eq_zero_iff] at zero
      rw [zero] at first
      cases first

theorem FindsInode.totalFree_ne (busy :
    ¬ ∀ g ∈ groups, G.groupFree .inode v.blocks g = 0 ∨ G.clearIn .inode v.blocks g = 0) :
    v'.totalFree .inode ≠ v.totalFree .inode := by
  induction finds with
  | done => exact absurd (by simp) busy
  | skip nothing _ ih => exact ih fun all => busy (by simpa using ⟨nothing, all⟩)
  | take =>
    rw [Geometry.takeInode, G.mark_totalFree, if_pos rfl]
    omega

/-- A block that is neither a descriptor block nor a bitmap. -/
def Geometry.OutsideMaps (G : Geometry) (b : Nat) : Prop :=
  b ≠ G.gdt ∧ ∀ kind, ∀ g < G.groups, b ≠ G.place kind g

theorem FindsInode.frame (inside : ∀ g ∈ groups, g < G.groups) (outside : G.OutsideMaps b) :
    v'.blocks b = v.blocks b := by
  induction finds with
  | done => rfl
  | skip _ _ ih => exact ih fun g member => inside g (by simp [member])
  | @take g _ _ _ _ => exact G.mark_other (outside.2 .inode g (inside g (by simp))) outside.1

end

/-- One legal call: it changes nothing if it is idle and a counter of the
superblock if not; either way it keeps to the descriptors and bitmaps. -/
theorem space_call_idle (sound : G.Sound) (supported : G.Supported) (formatted : Formatted G v)
    (call : SpaceCall) (legal : call.Legal G v) :
    ∃ v', v.run call.code = .ok ((), v') ∧ Formatted G v' ∧
      (∀ b, G.OutsideMaps b → v'.blocks b = v.blocks b) ∧ (call.Idle G v → v' = v) ∧
      (¬ call.Idle G v → ∃ kind, v'.totalFree kind ≠ v.totalFree kind) := by
  have inside : ∀ g ∈ List.range G.groups, g < G.groups := fun g member => List.mem_range.mp member
  have free : ∀ kind num, num / G.perGroup kind < G.groups →
      Formatted G (G.release kind v num) ∧
      (∀ b, G.OutsideMaps b → (G.release kind v num).blocks b = v.blocks b) ∧
      (G.release kind v num).totalFree kind ≠ v.totalFree kind := by
    intro kind num group
    refine ⟨G.mark_formatted sound supported formatted group,
      fun b outside => G.mark_other (outside.2 kind _ group) outside.1, ?_⟩
    rw [Geometry.release, G.mark_totalFree, if_pos rfl]
    omega
  cases call with
  | getFreeBlocks numEntries =>
    obtain ⟨new, v', ran, outcome⟩ := run_getFreeBlocks sound supported formatted numEntries
    refine ⟨v', by rw [SpaceCall.code, Volume.run_bind ran, Volume.run_pure], ?_⟩
    rcases outcome with ⟨few, rfl, rfl⟩ | ⟨enough, takes⟩
    · exact ⟨formatted, fun _ _ => rfl, fun _ => rfl, fun busy => absurd (Or.inl few) busy⟩
    · have allocated := takes.allocated sound supported formatted inside
      refine ⟨allocated.formatted, fun b outside => allocated.frame b outside.1 (outside.2 .block),
        fun idle => takes.idle ?_, fun busy => ⟨.block, ?_⟩⟩
      · rcases idle with few | rest
        · omega
        · exact rest.imp_right fun all g member => all g (List.mem_range.mp member)
      · refine Nat.ne_of_lt ((takes.totalFree_lt enough).2 fun idle => busy (Or.inr ?_))
        exact idle.imp_right fun all g group => all g (List.mem_range.mpr group)
  | freeBlock block =>
    obtain ⟨formatted', frame, differs⟩ := free .block block legal.1
    exact ⟨_, run_writeToBitmap sound supported formatted .block legal.1, formatted', frame,
      False.elim, fun _ => ⟨.block, differs⟩⟩
  | getFreeInode =>
    obtain ⟨value, v', ran, outcome⟩ := run_getFreeInode sound supported formatted
    refine ⟨v', by rw [SpaceCall.code, Volume.run_bind ran, Volume.run_pure], ?_⟩
    rcases outcome with ⟨few, rfl⟩ | ⟨enough, finds⟩
    · exact ⟨formatted, fun _ _ => rfl, fun _ => rfl, fun busy => absurd (Or.inl few) busy⟩
    · refine ⟨finds.formatted sound supported formatted inside,
        fun b outside => finds.frame inside outside, fun idle => finds.idle ?_,
        fun busy => ⟨.inode, finds.totalFree_ne fun all => busy (Or.inr ?_)⟩⟩
      · exact fun g member => (idle.resolve_left enough) g (List.mem_range.mp member)
      · exact fun g group => all g (List.mem_range.mpr group)
  | freeInode inode =>
    obtain ⟨formatted', frame, differs⟩ := free .inode inode legal.1
    exact ⟨_, run_writeToBitmap sound supported formatted .inode legal.1, formatted', frame,
      False.elim, fun _ => ⟨.inode, differs⟩⟩

end Idle

/-! ### Remounting -/

/-- What a flush owes to the next mount: `parse_superblock` reads back the
superblock in memory, and no byte of the device has changed except in the place
of the superblock and in the blocks that allocation writes through the cache. -/
structure SurvivesRemount (G : Geometry) (w w' : World) : Prop where
  superblock : ∃ g d, parseSuperblock w'.globals w'.disk = .ok (g, d) ∧
    ∀ i < 2 * sectorSize, g.superblock i = w'.globals.superblock i
  device : ∀ a, ¬ (ext2SuperblockSector * sectorSize ≤ a ∧
      a < ext2SuperblockSector * sectorSize + 2 * sectorSize) →
    G.OutsideMaps (a / G.bs) → w'.disk.device a = w.disk.device a

/-- The states reached from a mounted volume by legal calls that change nothing. -/
inductive IdleRun (G : Geometry) (w : World) : World → Prop where
  | start : IdleRun G w w
  | call {w' w'' : World} {call : SpaceCall} (before : IdleRun G w w')
      (legal : call.Legal G w'.volume) (idle : call.Idle G w'.volume)
      (ran : w'.run call.code = .ok ((), w'')) : IdleRun G w w''

section Remount
variable {G : Geometry} {w w₁ w₂ : World}

/-- What is known of a driver after calls from `w`: the array is formatted and
changed only in the maps, and the bytes aside are those of the device. -/
structure Since (G : Geometry) (w w' : World) : Prop where
  mounted : Mounted G w'
  aside : Aside w.disk.device w'
  frame : ∀ b, G.OutsideMaps b → w'.volume.blocks b = w.volume.blocks b

theorem JustMounted.since (fresh : JustMounted w) (mounted : Mounted G w) : Since G w w := by
  have large : 2 * sectorSize ≤ w.globals.blockByteSize := by
    have size : w.globals.blockByteSize = G.bs := mounted.formatted.size
    have := G.bs_ge
    simp only [sectorSize]
    omega
  refine ⟨mounted, ⟨fun _ o bound => ?_, fun b o bound _ _ => contents_device (fresh.clean b) bound⟩,
    fun _ _ => rfl⟩
  rw [contents_device (fresh.clean 0) (by omega), zero_mul, zero_add]

/-- A legal call after `w`. -/
theorem Since.call (supported : G.Supported) (since : Since G w w₁) (call : SpaceCall)
    (legal : call.Legal G w₁.volume) :
    ∃ w₂, w₁.run call.code = .ok ((), w₂) ∧ Since G w w₂ ∧
      (call.Idle G w₁.volume → w₂.volume = w₁.volume) ∧
      (¬ call.Idle G w₁.volume → ∃ kind, w₂.volume.totalFree kind ≠ w₁.volume.totalFree kind) := by
  obtain ⟨v', ran, formatted, frame, idle, busy⟩ := space_call_idle since.mounted.sound supported
    since.mounted.formatted call legal
  obtain ⟨w₂, ran', shows, aside⟩ := World.run_aside call.within since.mounted.shows since.aside ran
  have same := shows.volume
  subst same
  exact ⟨w₂, ran', ⟨⟨since.mounted.sound, formatted, shows.coherent⟩, aside,
    fun b outside => (frame b outside).trans (since.frame b outside)⟩, idle, busy⟩

/-- The device after a flush, byte by byte. -/
theorem flush_device (mounted : Mounted G w) (bound : o < G.bs) (b : Nat) :
    w.flushWrites.disk.device (b * G.bs + o) =
      if w.globals.superblockChanged = true ∧ b * G.bs + o < 2 * sectorSize then
        w.globals.superblock (b * G.bs + o)
      else w.disk.contents G.bs b o := by
  have size : w.globals.blockByteSize = G.bs := mounted.formatted.size
  have positive : 0 < G.bs := by omega
  have coherent := mounted.coherent
  rw [size] at coherent
  have flushed := flushCache_device positive coherent b bound
  unfold World.flushWrites
  rw [size]
  by_cases changed : w.globals.superblockChanged = true
  · rw [if_pos changed]
    change splice _ 0 _ _ _ = _
    by_cases low : b * G.bs + o < 2 * sectorSize
    · rw [splice_inside (by omega) (by omega), if_pos ⟨changed, low⟩, Nat.sub_zero]
    · rw [splice_outside (by omega), if_neg (fun both => low both.2), flushed]
  · rw [if_neg changed, if_neg (fun both => changed both.1)]
    exact flushed

/-- After calls and a flush, every byte outside the boot area and the maps is
the one that was mounted. -/
theorem Since.flush_device (fresh : JustMounted w) (mounted : Mounted G w)
    (since : Since G w w₁) (high : 2 * sectorSize ≤ a) (outside : G.OutsideMaps (a / G.bs)) :
    w₁.flushWrites.disk.device a = w.disk.device a := by
  have positive := G.bs_pos
  have bound : a % G.bs < G.bs := Nat.mod_lt a positive
  have split := Nat.div_add_mod' a G.bs
  have size := mounted.formatted.size
  have size₁ : w₁.globals.blockByteSize = G.bs := since.mounted.formatted.size
  have flushed := Ext2.flush_device since.mounted bound (a / G.bs)
  rw [split, if_neg (by omega)] at flushed
  rw [flushed]
  by_cases visible : Visible G.bs (a / G.bs)
  · have shown : ∀ w' : World, w'.globals.blockByteSize = G.bs →
        w'.disk.contents G.bs (a / G.bs) = w'.volume.blocks (a / G.bs) := by
      intro w' sized
      simp only [World.volume, sized, if_pos visible]
    rw [shown w₁ size₁, since.frame _ outside, ← shown w size]
    rw [contents_device (fresh.clean _) bound, split]
  · have rest := since.aside.rest (a / G.bs) (a % G.bs)
    rw [size₁] at rest
    rw [rest bound visible (fun zero => by rw [zero, zero_mul] at split; omega), split]

/-- The place of the superblock lies before the group descriptors. -/
theorem superblock_outside (sound : G.Sound) (low : a < 2048) : G.OutsideMaps (a / G.bs) := by
  have before : a / G.bs < G.gdt := by
    by_contra after
    have := Image.past_superblock (not_lt.mp after) 0
    have := Nat.div_mul_le_self a G.bs
    omega
  refine ⟨by omega, fun kind g group => ?_⟩
  obtain ⟨node, isMeta, placed, _⟩ := G.place_meta kind group
  have := sound.after node isMeta
  omega

/-- After calls from a fresh mount and a flush, the next mount still reads the
superblock of the first. -/
theorem Since.reads_old (fresh : JustMounted w) (mounted : Mounted G w) (since : Since G w w₁)
    (g : Globals) :
    ∃ g' d', parseSuperblock g w₁.flushWrites.disk = .ok (g', d') ∧
      g'.superblock = w.globals.superblock := by
  refine fresh.again g _ fun i bound => ?_
  simp only [ext2SuperblockSector, sectorSize] at bound ⊢
  exact since.flush_device fresh mounted (by simp only [sectorSize]; omega)
    (superblock_outside mounted.sound (by omega))

theorem flushWrites_superblock (w : World) :
    w.flushWrites.globals.superblock = w.globals.superblock := by
  unfold World.flushWrites
  split <;> rfl

theorem IdleRun.since (supported : G.Supported) (fresh : JustMounted w) (mounted : Mounted G w)
    (run : IdleRun G w w₁) : Since G w w₁ ∧ w₁.volume = w.volume := by
  induction run with
  | start => exact ⟨fresh.since mounted, rfl⟩
  | @call w' w'' call _ legal idle ran ih =>
    obtain ⟨since, same⟩ := ih
    obtain ⟨final, ran', since', unchanged, _⟩ := since.call supported call legal
    rw [ran'] at ran
    cases ran
    exact ⟨since', (unchanged idle).trans same⟩

section
variable (fresh : JustMounted w) (mounted : Mounted G w) (since : Since G w w₁)
include fresh mounted since

/-- Nothing has changed: a flush leaves all that the next mount needs. -/
theorem Since.survives (same : w₁.volume = w.volume) : SurvivesRemount G w w₁.flushWrites := by
  have globals : w₁.globals = w.globals := congrArg Volume.globals same
  refine ⟨?_, fun a outside maps => ?_⟩
  · obtain ⟨g', d', parsed, old⟩ := since.reads_old fresh mounted w₁.flushWrites.globals
    exact ⟨g', d', parsed, fun i _ => by rw [old, flushWrites_superblock, globals]⟩
  · by_cases high : 2 * sectorSize ≤ a
    · exact since.flush_device fresh mounted high maps
    · have positive : a < G.bs := by
        have := G.bs_ge
        simp only [sectorSize] at high
        omega
      have unchanged : w₁.globals.superblockChanged = false := by rw [globals, fresh.1]
      have size : w₁.globals.blockByteSize = G.bs := since.mounted.formatted.size
      have flushed := Ext2.flush_device since.mounted positive 0
      have boot := since.aside.boot unchanged a (by omega)
      rw [size] at boot
      rw [zero_mul, zero_add, if_neg (by simp [unchanged]), boot] at flushed
      exact flushed

/-- A changed counter is not what the next mount reads. -/
theorem Since.forgets (kind : BitmapKind) (differs :
    w₁.volume.totalFree kind ≠ w.volume.totalFree kind) :
    ¬ SurvivesRemount G w w₁.flushWrites := by
  rintro ⟨⟨g, d, parsed, same⟩, _⟩
  obtain ⟨g', d', parsed', old⟩ := since.reads_old fresh mounted w₁.flushWrites.globals
  rw [parsed] at parsed'
  cases parsed'
  apply differs
  have bytes : ∀ i < 2 * sectorSize, w₁.globals.superblock i = w.globals.superblock i := by
    intro i bound
    rw [← flushWrites_superblock, ← same i bound, old]
  simp only [sectorSize] at bytes
  cases kind
  · exact le32_congr fun i _ => bytes (12 + i) (by omega)
  · exact le32_congr fun i _ => bytes (16 + i) (by omega)

end

/-- **The superblock and remounting.** As long as no call allocates or frees
anything, a flush leaves a device from which `parse_superblock` reads back the
superblock in memory, with nothing overwritten. In every state so reached a
further legal call, followed by a flush, leaves such a device if and only if
the call again allocates and frees nothing. -/
theorem superblock_survives_remount_iff_idle (G : Geometry) (w w₁ : World)
    (supported : G.Supported) (mounted : Mounted G w) (fresh : JustMounted w)
    (run : IdleRun G w w₁) :
    (∃ w', w₁.run ext2FlushWrites = .ok ((), w') ∧ SurvivesRemount G w w') ∧
      ∀ call : SpaceCall, call.Legal G w₁.volume →
        ∃ w₂ w', w₁.run call.code = .ok ((), w₂) ∧ w₂.run ext2FlushWrites = .ok ((), w') ∧
          (SurvivesRemount G w w' ↔ call.Idle G w₁.volume) := by
  obtain ⟨since, same⟩ := run.since supported fresh mounted
  refine ⟨⟨_, run_flush w₁, since.survives fresh mounted same⟩, fun call legal => ?_⟩
  obtain ⟨w₂, ran, since', idle, busy⟩ := since.call supported call legal
  refine ⟨w₂, w₂.flushWrites, ran, run_flush w₂, ?_, fun nothing => ?_⟩
  · intro survives
    by_contra active
    obtain ⟨kind, differs⟩ := busy active
    exact since'.forgets fresh mounted kind (same ▸ differs) survives
  · exact since'.survives fresh mounted ((idle nothing).trans same)

end Remount

/-- The driver on a formatted device is as `parse_superblock` leaves it. -/
theorem emptyImage_justMounted : JustMounted (emptyImage.world smallGeometry) := by
  have read : (emptyImage.world smallGeometry).disk.pread zeros (2 * sectorSize)
      (ext2SuperblockSector * sectorSize) = emptyImage.superblock smallGeometry := by
    funext i
    unfold Disk.pread
    by_cases bound : i < 2 * sectorSize
    · rw [splice_inside (by omega) (by omega), Nat.sub_zero]
      simp only [sectorSize] at bound
      change (emptyImage.rawVolume smallGeometry).blocks ((1024 + i) / smallGeometry.bs)
        ((1024 + i) % smallGeometry.bs) = _
      have split := Nat.div_add_mod' (1024 + i) smallGeometry.bs
      simp only [Image.rawVolume, split]
      rw [if_pos (by omega), Nat.add_sub_cancel_left]
    · rw [splice_outside (by omega), Image.superblock, slice_outside (by omega)]
      rfl
  refine ⟨rfl, (emptyImage.world smallGeometry).globals, (emptyImage.world smallGeometry).disk, ?_⟩
  unfold parseSuperblock
  rw [read]
  rfl

/-- A request for more blocks than are free is refused, and nothing is lost. -/
theorem superblock_survives_remount_idle :
    ∃ w w', (emptyImage.world smallGeometry).run (SpaceCall.code (.getFreeBlocks 100)) =
        .ok ((), w) ∧ w.run ext2FlushWrites = .ok ((), w') ∧
      SurvivesRemount smallGeometry (emptyImage.world smallGeometry) w' := by
  obtain ⟨⟨_, w⟩, ran, _⟩ := of_report (show ((emptyImage.world smallGeometry).run
    (SpaceCall.code (.getFreeBlocks 100))).toOption.map Prod.fst = some () by decide +kernel)
  have idle : SpaceCall.Idle smallGeometry (emptyImage.world smallGeometry).volume
      (.getFreeBlocks 100) := Or.inl (by decide +kernel)
  obtain ⟨w', flushed, survives⟩ := (superblock_survives_remount_iff_idle smallGeometry
    (emptyImage.world smallGeometry) w smallGeometry_supported
    (emptyImage.world_mounted smallGeometry_sound smallGeometry_supported.addressable)
    emptyImage_justMounted (.call .start (show SpaceCall.Legal _ _ (.getFreeBlocks 100) from trivial)
      idle ran)).1
  exact ⟨w, w', ran, flushed, survives⟩

/-- One allocated inode, and the next mount reads a stale superblock. -/
theorem remount_forgets_inode :
    JustMounted (emptyImage.world smallGeometry) ∧
      ∃ w w', (emptyImage.world smallGeometry).run (SpaceCall.code .getFreeInode) = .ok ((), w) ∧
        w.run ext2FlushWrites = .ok ((), w') ∧
        ¬ SurvivesRemount smallGeometry (emptyImage.world smallGeometry) w' := by
  -- the low byte of the count of free inodes, as it is read again and as it was
  obtain ⟨⟨_, w⟩, ran, report⟩ := of_report (show ((emptyImage.world smallGeometry).run
    (SpaceCall.code .getFreeInode)).toOption.map (fun done =>
      (done.2.run ext2FlushWrites).toOption.map fun flushed =>
        ((parseSuperblock flushed.2.globals flushed.2.disk).toOption.map (·.1.superblock 16),
          flushed.2.globals.superblock 16)) = some (some (some 11, 10)) by decide +kernel)
  obtain ⟨⟨_, w'⟩, flushed, report⟩ := of_report report
  refine ⟨emptyImage_justMounted, w, w', ran, flushed, fun ⟨⟨g, d, parsed, same⟩, _⟩ => ?_⟩
  rw [parsed] at report
  have stale := (Option.some.inj (Prod.mk.inj report).1).symm.trans (same 16 (by decide))
  exact absurd (stale.trans (Prod.mk.inj report).2) (by decide)

end SbOS.Ext2
