import SbOS.Ext2.Format

/-! The one-entry inode header cache, compared with a driver that has none. A
hit copies `sizeof(inode_t)` bytes and leaves the rest of the header zero, so
the cache shows as soon as an inode on disk has something there. -/
namespace SbOS.Ext2
open Bytes

/-- `ext2_get_inode_header` without its fast path. -/
def uncachedInodeHeader (inodeIndex : Nat) : Driver Bytes := do
  let g ← getGlobals
  let (blockIndex, blockOffset) ← ext2BlockContainingInode inodeIndex
  ext2ReadBlock blockIndex g.inodeSize blockOffset

/-- A call of one of the two header functions. -/
inductive HeaderCall where
  | get (inodeIndex : Nat)
  | write (inodeIndex : Nat) (data : Bytes)

namespace HeaderCall

def inodeIndex : HeaderCall → Nat
  | .get n | .write n _ => n

/-- The driver code of a call; only `get` has something to return. -/
def code : HeaderCall → Driver Bytes
  | .get n => ext2GetInodeHeader n
  | .write n data => do
    ext2WriteInode n data
    return zeros

end HeaderCall

/-- Read a header, assign some of its fields, write it back. -/
def modifyInodeHeader (inodeIndex : Nat) (assign : Bytes → Bytes) : Driver Unit := do
  let inode ← ext2GetInodeHeader inodeIndex
  ext2WriteInode inodeIndex (assign inode)

/-- The cache does not show at inode `n`: its header is the one read without the
cache, and assigning fields of `inode_t` changes nothing else on disk. -/
structure Transparent (G : Geometry) (w : World) (n : Nat) : Prop where
  same : ∃ data w₁ w₂, w.run (ext2GetInodeHeader n) = .ok (data, w₁) ∧
    w.run (uncachedInodeHeader n) = .ok (data, w₂)
  keeps : ∀ (fields : Nat → Prop) (assign : Bytes → Bytes), (∀ i, fields i → i < Inode.size) →
    (∀ h i, ¬ fields i → assign h i = h i) →
    ∃ w', w.run (modifyInodeHeader n assign) = .ok ((), w') ∧
      ∀ i < G.inodeSize, ¬ fields i →
        G.header w'.volume.blocks n i = G.header w.volume.blocks n i

/-- Inode `n` is not the cached one, or it is all zero after `inode_t`. -/
def TailClear (G : Geometry) (v : Volume) (n : Nat) : Prop :=
  v.globals.lastInodeRead ≠ n ∨
    ∀ i, Inode.size ≤ i → i < G.inodeSize → G.header v.blocks n i = 0

section Run
variable {G : Geometry} {v : Volume}

theorem run_uncachedInodeHeader (sound : G.Sound) (supported : G.Supported)
    (formatted : Formatted G v) (inode : G.IsInode n) :
    v.run (uncachedInodeHeader n) = .ok (G.header v.blocks n, v) := by
  unfold uncachedInodeHeader
  rw [Volume.run_getGlobals, formatted.inodeSize,
    Volume.run_bind (run_ext2BlockContainingInode sound supported formatted inode)]
  exact formatted.run_read (G.inodeBlock_visible sound supported.addressable inode) (G.inodeOffset_room n)

/-- The bytes of a hit are those on disk exactly when the tail is clear. -/
theorem hit_eq_iff : splice zeros 0 (G.header v.blocks n) Inode.size = G.header v.blocks n ↔
    ∀ i, Inode.size ≤ i → i < G.inodeSize → G.header v.blocks n i = 0 := by
  constructor
  · intro same i low _
    have := congrFun same i
    rw [splice_outside (by omega)] at this
    exact this.symm
  · intro clear
    funext i
    by_cases low : i < Inode.size
    · rw [splice_inside (by omega) (by omega), Nat.sub_zero]
    · rw [splice_outside (by omega)]
      by_cases bound : i < G.inodeSize
      · exact (clear i (by omega) bound).symm
      · rw [Geometry.header, slice_outside (by omega)]
        rfl

/-- Formatted, with a header cache that agrees with the disk. -/
structure HeaderReady (G : Geometry) (w : World) : Prop extends Mounted G w where
  header : HeaderCoherent G w.volume

section
variable (supported : G.Supported) (ready : HeaderReady G w)
include supported ready

/-- One header call returns and keeps the driver ready. -/
theorem header_call_ready (call : HeaderCall)
    (inode : G.IsInode call.inodeIndex) :
    ∃ reply w', w.run call.code = .ok (reply, w') ∧ HeaderReady G w' := by
  have formatted := ready.formatted
  cases call with
  | get n =>
    obtain ⟨data, v', ran, read⟩ :=
      run_ext2GetInodeHeader ready.sound supported formatted ready.header inode
    obtain ⟨w', ran', mounted, rfl⟩ := ready.run ran read.formatted
    exact ⟨data, w', ran', mounted, read.coherent⟩
  | write n data =>
    have inode : G.IsInode n := inode
    have ran : w.volume.run (HeaderCall.code (.write n data)) =
        .ok (zeros, G.writeHeader w.volume n data) := by
      rw [HeaderCall.code, Volume.run_bind (run_ext2WriteInode ready.sound supported formatted
        inode data), Volume.run_pure]
    obtain ⟨w', ran', mounted, same⟩ := ready.run ran
      (writeHeader_formatted ready.sound supported formatted inode)
    exact ⟨zeros, w', ran', mounted,
      same ▸ writeHeader_coherent ready.sound ready.header inode⟩

theorem header_calls_ready (calls : List HeaderCall) (inodes :
    ∀ call ∈ calls, G.IsInode call.inodeIndex) :
    ∃ replies w', w.run (Program.forEach HeaderCall.code calls) = .ok (replies, w') ∧
      HeaderReady G w' := by
  induction calls generalizing w with
  | nil => exact ⟨[], w, rfl, ready⟩
  | cons call rest ih =>
    obtain ⟨reply, middle, first, ready'⟩ := header_call_ready supported ready call
      (inodes call (by simp))
    obtain ⟨replies, final, others, ready''⟩ := ih ready' fun c member => inodes c (by simp [member])
    refine ⟨reply :: replies, final, ?_, ready''⟩
    simp only [World.run, Program.forEach] at first others ⊢
    rw [Program.execute_bind_ok first, Program.execute_bind_ok others]
    rfl

/-- In a ready state the cache is transparent at an inode exactly when the tail
is clear there. -/
theorem transparent_iff (inode : G.IsInode n) :
    Transparent G w n ↔ TailClear G w.volume n := by
  have formatted := ready.formatted
  obtain ⟨data, v', ran, read⟩ :=
    run_ext2GetInodeHeader ready.sound supported formatted ready.header inode
  have formatted' := read.formatted
  obtain ⟨w₁, ran₁, _⟩ := ready.run ran formatted'
  obtain ⟨w₂, ran₂, _⟩ := ready.run
    (run_uncachedInodeHeader ready.sound supported formatted inode) formatted
  have shown : data = G.header w.volume.blocks n ↔ TailClear G w.volume n := by
    rw [read.data, TailClear, ← hit_eq_iff]
    split
    · rename_i hit
      simp [hit]
    · rename_i miss
      simp [miss]
  constructor
  · rintro ⟨⟨data', _, _, cached, uncached⟩, _⟩
    rw [ran₁] at cached
    rw [ran₂] at uncached
    cases cached
    cases uncached
    exact shown.mp rfl
  · intro clear
    have same := shown.mpr clear
    refine ⟨⟨data, w₁, w₂, ran₁, by rw [ran₂, same]⟩, fun fields assign _ untouched => ?_⟩
    have step : w.volume.run (modifyInodeHeader n assign) =
        .ok ((), G.writeHeader v' n (assign data)) := by
      rw [modifyInodeHeader, Volume.run_bind ran]
      exact run_ext2WriteInode ready.sound supported formatted' inode _
    obtain ⟨w', ran', _, final⟩ := ready.run step
      (writeHeader_formatted ready.sound supported formatted' inode)
    refine ⟨w', ran', fun i bound kept => ?_⟩
    rw [final, Geometry.writeHeader, G.header_putHeader_same, slice_inside bound, Nat.zero_add,
      untouched data i kept, same]

end

end Run

/-- **When the inode header cache shows.** After every sequence of header reads
and writes on any inodes, reading an inode through the cache equals reading it
without, and a read-modify-write keeps every byte it does not assign, if and
only if the inode is not the cached one or its bytes after `sizeof(inode_t)`
are zero on disk. -/
theorem inode_header_cache_transparent_iff (G : Geometry) (w : World) (calls : List HeaderCall)
    (supported : G.Supported) (mounted : Mounted G w) (header : HeaderCoherent G w.volume)
    (inodes : ∀ call ∈ calls, G.IsInode call.inodeIndex) :
    ∃ replies w', w.run (Program.forEach HeaderCall.code calls) = .ok (replies, w') ∧
      ∀ n, G.IsInode n → (Transparent G w' n ↔ TailClear G w'.volume n) := by
  obtain ⟨replies, w', ran, ready⟩ := header_calls_ready supported ⟨mounted, header⟩ calls inodes
  exact ⟨replies, w', ran, fun n inode => transparent_iff supported ready inode⟩

/-- A volume whose inodes, except inode 2, use the bytes after `inode_t`, as other
implementations of the on-disk format do. -/
def longInodeImage : Image where
  used := fun _ n => n < 5
  header := fun n i => if i < 120 then 2 else if n = 2 then 0 else 1
  data := fun _ => zeros
  garbage := fun _ _ => 0

theorem longInodeImage_ready :
    HeaderReady smallGeometry (longInodeImage.world smallGeometry) :=
  ⟨longInodeImage.world_mounted smallGeometry_sound smallGeometry_supported.addressable,
    longInodeImage.world_volume ▸ longInodeImage.volume_headerCoherent smallGeometry⟩

/-- Inode 2 is read, and then again from the cache. -/
theorem inode_header_cache_transparent_iff_hit :
    ∃ replies w', (longInodeImage.world smallGeometry).run
        (Program.forEach HeaderCall.code [.get 1, .get 2]) = .ok (replies, w') ∧
      w'.volume.globals.lastInodeRead = 2 ∧ Transparent smallGeometry w' 2 := by
  have ready := longInodeImage_ready
  obtain ⟨replies, w', ran, each⟩ := inode_header_cache_transparent_iff smallGeometry
    (longInodeImage.world smallGeometry) [.get 1, .get 2] smallGeometry_supported ready.toMounted
    ready.header (by simp only [List.forall_mem_cons]; exact
      ⟨⟨by decide, by decide⟩, ⟨by decide, by decide⟩, List.forall_mem_nil _⟩)
  obtain ⟨⟨_, _⟩, ran', report⟩ := of_report (show ((longInodeImage.world smallGeometry).run
    (Program.forEach HeaderCall.code [.get 1, .get 2])).toOption.map (fun result : List Bytes × World =>
      (result.2.volume.globals.lastInodeRead, (List.range 8).map fun i =>
        smallGeometry.header result.2.volume.blocks 2 (120 + i))) =
      some (2, (List.range 8).map fun _ => 0) by decide +kernel)
  cases ran'.symm.trans ran
  obtain ⟨cached, clear⟩ := Prod.mk.inj report
  refine ⟨replies, w', ran, cached, (each 2 ⟨by decide, by decide⟩).mpr
    (.inr fun i low high => ?_)⟩
  have inside : 120 ≤ i ∧ i < 128 := ⟨low, high⟩
  have byte := List.map_inj_left.mp clear (i - 120) (List.mem_range.mpr (by omega))
  rwa [Nat.add_sub_cancel' inside.1] at byte

/-- Reading the same inode twice, the second time from the cache. -/
theorem second_read_loses_tail :
    ∃ first w, (longInodeImage.world smallGeometry).run (ext2GetInodeHeader 1) = .ok (first, w) ∧
      ¬ Transparent smallGeometry w 1 := by
  obtain ⟨⟨first, w⟩, ran, report⟩ := of_report (show ((longInodeImage.world smallGeometry).run
    (ext2GetInodeHeader 1)).toOption.map (fun read =>
      ((read.2.run (ext2GetInodeHeader 1)).toOption.map (·.1 120),
        (read.2.run (uncachedInodeHeader 1)).toOption.map (·.1 120))) = some (some 0, some 1) by
          decide +kernel)
  refine ⟨first, w, ran, fun transparent => ?_⟩
  obtain ⟨data, w₁, w₂, cached, uncached⟩ := transparent.same
  rw [cached, uncached] at report
  cases (Prod.mk.inj report).1.symm.trans (Prod.mk.inj report).2

end SbOS.Ext2
