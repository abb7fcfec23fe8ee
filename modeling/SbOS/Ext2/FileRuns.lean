import SbOS.Ext2.FileStore
import SbOS.Ext2.Accounting

/-! Runs of calls on files made by the driver, on the real cache and device. -/
namespace SbOS.Ext2
open Bytes PointerTree Program Finset

/-! ### New files -/

/-- Inode `n` is as `ext2_create_file` leaves it. -/
structure Created (G : Geometry) (v : Volume) (n : Nat) : Prop where
  inode : G.IsInode n
  header : ∀ i < Inode.size, G.header v.blocks n i = newFileInode i

/-- Empty files only. -/
def FileStore.fresh (free : Nat) : FileStore := ⟨fun _ => .empty, fun _ => 0, free⟩

section Created
variable {G : Geometry} {v : Volume}

theorem Created.keeps (created : Created G v n) : Keeps G v n .empty 0 := by
  have sectors : G.sectorBlocks v n = 0 := by
    refine (numBlocksUsed_congr created.header).trans ?_
    rw [numBlocksUsed, show Inode.numDiskSectors newFileInode = 0 by decide, Nat.zero_div]
  have size : G.sizeOf v n = 0 := (fileSize_congr created.header).trans (by decide)
  have none' : blocksRequired ByteFile.empty.size G.bs = 0 := by
    simp [blocksRequired, ByteFile.empty]
  refine ⟨sectors, size, Nat.zero_le _, ⟨created.inode, pointer_stored fun _ live _ => live_closed live,
    fun node live => absurd live (Nat.not_lt_zero _), fun a live => absurd live (Nat.not_lt_zero _)⟩,
    fun p inside => absurd inside (Nat.not_lt_zero p), fun _ _ => rfl, ?_, fun k _ below => ?_⟩
  · rw [none']
    exact fun _ member => member.1
  · rw [none'] at below
    exact absurd below (Nat.not_lt_zero k)

/-- A consistent volume with new files on it. -/
theorem Stores.of_created (consistent : Consistent G v)
    (created : ∀ n ∈ F, Created G v n) :
    Stores G F v (.fresh (G.clearTotal .block v.blocks)) :=
  ⟨consistent, rfl, fun n member => (created n member).keeps,
    fun _ _ _ _ _ _ live => absurd live (Nat.not_lt_zero _)⟩

end Created

/-! ### Formatted volumes with files -/

section Images
variable {G : Geometry} (image : Image) (sound : G.Sound) (fits : G.numBlocks * G.bs ≤ 2 ^ 32)

include sound fits in
theorem Image.volume_consistent (small : ∀ g < G.groups, image.freeIn G .block g < 2 ^ 16)
    (total : image.freeTotal G .block < 2 ^ 32)
    (reserved : ∀ b, b / G.blocksPerGroup < G.groups → image.used .block b = false → G.IsData b) :
    Consistent G (image.volume G) := by
  refine ⟨image.volume_formatted sound fits, ⟨fun g group => ?_, ?_⟩, fun b inside clear => ?_,
    image.volume_headerCoherent G⟩
  · rw [image.volume_clearIn sound fits group, image.volume_groupFree sound fits group,
      Nat.mod_eq_of_lt (small g group)]
  · rw [image.volume_clearTotal sound fits, image.volume_totalFree, Nat.mod_eq_of_lt total]
  · have same : G.used .block (image.volume G).blocks b = image.used .block b :=
      image.volume_used sound fits inside
    exact reserved b inside (same.symm.trans clear)

include sound fits in
theorem Image.created (inode : G.IsInode n) (header : image.header n = newFileInode) :
    Created G (image.volume G) n := by
  refine ⟨inode, fun i bound => ?_⟩
  have := G.inodeSize_ge
  rw [image.volume_header sound fits inode, header, slice_inside (by omega), zero_add]

end Images

/-- The small volume with its metadata blocks in use and new files 11 and 12;
its free blocks are full of one byte. -/
def newFilesImage (fill : UInt8) : Image where
  used := fun _ n => n < 5
  header := fun n => if n = 11 ∨ n = 12 then newFileInode else zeros
  data := fun _ _ => fill
  garbage := fun _ _ => 0

theorem smallGeometry_isData (low : 5 ≤ b) (high : b < 64) : smallGeometry.IsData b := by
  refine ⟨by omega, high, fun node isMeta same => ?_⟩
  have := smallGeometry_meta isMeta
  omega

section NewFiles
variable (fill : UInt8)

theorem newFilesImage_consistent :
    Consistent smallGeometry ((newFilesImage fill).world smallGeometry).volume := by
  rw [Image.world_volume]
  refine Image.volume_consistent _ smallGeometry_sound smallGeometry_supported.addressable
    (fun g group => ?_) ?_ fun b inside clear => ?_
  · exact (countBelow_le _ _).trans_lt (by decide)
  · change (newFilesImage 0).freeTotal smallGeometry .block < 2 ^ 32
    decide
  · have inside' : b / 64 < 1 := inside
    have clear' : decide (b < 5) = false := clear
    exact smallGeometry_isData (by simpa using clear') (by omega)

theorem newFilesImage_mounted : Mounted smallGeometry ((newFilesImage fill).world smallGeometry) :=
  Image.world_mounted _ smallGeometry_sound smallGeometry_supported.addressable

theorem newFilesImage_created : ∀ n ∈ ({11, 12} : Set Nat),
    Created smallGeometry ((newFilesImage fill).world smallGeometry).volume n := by
  have fits := smallGeometry_supported.addressable
  rw [Image.world_volume]
  rintro n (rfl | rfl)
  · exact Image.created _ smallGeometry_sound fits ⟨by decide, by decide⟩ rfl
  · exact Image.created _ smallGeometry_sound fits ⟨by decide, by decide⟩ rfl

theorem newFilesImage_free :
    smallGeometry.clearTotal .block ((newFilesImage fill).world smallGeometry).volume.blocks = 59 := by
  rw [Image.world_volume, Image.volume_clearTotal _ smallGeometry_sound
    smallGeometry_supported.addressable]
  change (newFilesImage 0).freeTotal smallGeometry .block = 59
  decide

/-- A free block. -/
theorem newFilesImage_clear (inside : b / smallGeometry.blocksPerGroup < smallGeometry.groups)
    (clear : smallGeometry.blockUsed ((newFilesImage fill).world smallGeometry).volume.blocks b = false) :
    ((newFilesImage fill).world smallGeometry).volume.blocks b = slice (fun _ => fill) 0 2048 := by
  have isData := (newFilesImage_consistent fill).reserved b inside clear
  have := isData.nonzero
  rw [Image.world_volume]
  exact Image.volume_data _ (isData.visible smallGeometry_supported) (show 1 ≤ b by omega) isData.apart

end NewFiles

/-! ### The driver serves the store -/

/-- A driver in working order on a volume with the files of the store. -/
structure Serves (G : Geometry) (F : Set Nat) (w : World) (store : FileStore) : Prop where
  mounted : Mounted G w
  stores : Stores G F w.volume store

namespace FileStore
variable (G : Geometry) (store : FileStore)

/-- File `n` can become `file`: it stays within the range of `get_block`, and
there are enough free blocks for what it lacks. -/
structure Fits (n : Nat) (file : ByteFile) : Prop where
  range : file.size ≤ G.maxSize
  space : G.blocksFor (blocksRequired file.size G.bs) ≤ store.free + G.blocksFor (store.blocks n)

/-- `read_inode` can count the bytes in an `int`. -/
structure Readable (n size offset : Nat) : Prop where
  size_lt : size < 2 ^ 64
  small : (store.files n).available size offset < 2 ^ 31

end FileStore

section Serves
variable {G : Geometry} {F : Set Nat} {w : World} {store : FileStore}

theorem World.volume_hidden (w : World) : w.volume.blocks 0 = zeros := by
  have hidden : ¬ Visible w.globals.blockByteSize 0 := fun visible => visible.1 rfl
  simp only [World.volume, if_neg hidden]

/-- A call that is a step of the store on the array of blocks is one on the
cache and the device. -/
theorem Serves.step (serves : Serves G F w store) {code : Driver α}
    (ran : ∃ v', w.volume.run code = .ok (value, v') ∧ Stores G F v' store') (reply : α → β) :
    ∃ w', w.run (code >>= fun result => pure (reply result)) = .ok (reply value, w') ∧
      Serves G F w' store' := by
  obtain ⟨v', ran, stores⟩ := ran
  have whole : w.volume.run (code >>= fun result => pure (reply result)) = .ok (reply value, v') := by
    rw [Volume.run_bind ran, Volume.run_pure]
  obtain ⟨w', ran', mounted, rfl⟩ := serves.mounted.run whole stores.consistent.formatted
  exact ⟨w', ran', mounted, stores⟩

section
variable (serves : Serves G F w store) (supported : G.Supported) (member : n ∈ F)
include serves supported member

theorem Serves.write (small : size < 2 ^ 31) (fits : store.Fits G n
    (store.written n data size position append))
    (order : store.blocks n ≤
      blocksRequired (store.written n data size position append).size G.bs)
    (clean : G.CleanWrite w.volume n (store.offset n position append) size) :
    ∃ w', w.run (FileCall.code (.write n data size position append)) = .ok (.wrote size, w') ∧
      Serves G F w' (store.put G n (store.written n data size position append)) :=
  serves.step (serves.stores.write serves.mounted.sound supported member small fits.range order
    fits.space clean) FileReply.wrote

theorem Serves.read (readable : store.Readable n size offset) :
    ∃ w', w.run (FileCall.code (.read n size offset)) =
        .ok (.read (store.read n size offset), w') ∧ Serves G F w' store :=
  serves.step (serves.stores.read serves.mounted.sound supported w.volume_hidden member
    readable.size_lt readable.small) FileReply.read

theorem Serves.truncate (small : length < 2 ^ 32) (range : length ≤ G.maxSize)
    (clean : G.CleanResize w.volume n length) :
    ∃ w', w.run (FileCall.code (.truncate n length)) = .ok (.truncated, w') ∧
      Serves G F w' (store.resize n length) :=
  serves.step (serves.stores.truncate serves.mounted.sound supported member small range clean)
    fun _ => FileReply.truncated

end

end Serves

/-! ### Writing within files -/

/-- A read, or a write that starts inside the file or at its end. -/
def WithinFile (G : Geometry) (F : Set Nat) : FileCall → FileStore → Prop
  | .write n data size position append, store => n ∈ F ∧ size < 2 ^ 31 ∧
    store.offset n position append ≤ (store.files n).size ∧
    store.Fits G n (store.written n data size position append)
  | .truncate _ _, _ => False
  | .read n size offset, store => n ∈ F ∧ store.Readable n size offset

/-- Every file has exactly the blocks its size needs. -/
def FileStore.Full (G : Geometry) (store : FileStore) : Prop :=
  ∀ n, store.blocks n = blocksRequired (store.files n).size G.bs

theorem blocksRequired_mono (more : a ≤ b) (positive : 0 < c) :
    blocksRequired a c ≤ blocksRequired b c :=
  blocksRequired_le_of positive (more.trans (Geometry.blocksRequired_le positive))

/-- Full files have nothing to expose. -/
theorem Stores.clean_of_full (stores : Stores G F v store) (full : store.Full G) (member : n ∈ F)
    (inside : offset ≤ (store.files n).size) : G.CleanWrite v n offset size := by
  have keeps := stores.keeps n member
  have room : (store.files n).size ≤ store.blocks n * G.bs := by
    rw [full n]
    exact Geometry.blocksRequired_le G.bs_pos
  intro p below outside
  rw [keeps.size] at below
  rw [keeps.size, keeps.sectors]
  exact ⟨fun past => by omega, fun past => by omega⟩

theorem FileStore.Full.fresh (G : Geometry) (free : Nat) : (FileStore.fresh free).Full G := by
  simp [Full, FileStore.fresh, ByteFile.empty, blocksRequired]

theorem FileStore.Full.put (full : FileStore.Full G store) (n : Nat) (file : ByteFile) :
    FileStore.Full G (store.put G n file) := by
  intro m
  by_cases same : m = n
  · subst same
    simp only [FileStore.put, Function.update_self]
  · simp only [FileStore.put, Function.update_of_ne same]
    exact full m

/-- One call within files is a step of the store. -/
theorem Serves.within
    (supported : G.Supported) (serves : Serves G F w store) (full : store.Full G) (call : FileCall)
    (within : WithinFile G F call store) :
    ∃ w', w.run call.code = .ok ((FileStore.step G call store).1, w') ∧
      Serves G F w' (FileStore.step G call store).2 ∧ (FileStore.step G call store).2.Full G := by
  cases call with
  | write n data size position append =>
    obtain ⟨member, small, inside, fits⟩ := within
    have order : store.blocks n ≤
        blocksRequired (store.written n data size position append).size G.bs := by
      rw [full n]
      exact blocksRequired_mono (le_max_left _ _) G.bs_pos
    obtain ⟨w', ran, serves'⟩ := serves.write supported member small fits order
      (serves.stores.clean_of_full full member inside)
    exact ⟨w', ran, serves', full.put n _⟩
  | truncate n length => exact within.elim
  | read n size offset =>
    obtain ⟨member, readable⟩ := within
    obtain ⟨w', ran, serves'⟩ := serves.read supported member readable
    exact ⟨w', ran, serves', full⟩

/-- Files made by the driver are byte arrays: in every interleaving of reads and
of writes that start within the file, each write returns its full length and
each read returns what the writes before it have stored in that file. -/
theorem driver_files_are_byte_arrays (G : Geometry) (F : Set Nat) (w : World)
    (calls : List FileCall) (supported : G.Supported) (mounted : Mounted G w)
    (consistent : Consistent G w.volume) (created : ∀ n ∈ F, Created G w.volume n)
    (within : Program.ValidAll (FileStore.step G) (WithinFile G F) calls
      (.fresh (G.clearTotal .block w.volume.blocks))) :
    ∃ w', w.run (Program.forEach FileCall.code calls) =
      .ok ((Program.stepAll (FileStore.step G) calls
        (.fresh (G.clearTotal .block w.volume.blocks))).1, w') := by
  obtain ⟨w', ran, _⟩ := forEach_refines_run
    (fun call w store (serving : Serves G F w store ∧ store.Full G) legal =>
      serving.1.within supported serving.2 call legal)
    ⟨⟨mounted, .of_created consistent created⟩, .fresh G _⟩ (within.run w)
  exact ⟨w', ran⟩

attribute [local simp] FileStore.step FileStore.put FileStore.written FileStore.offset
  FileStore.read FileStore.fresh ByteFile.write ByteFile.read ByteFile.available ByteFile.empty

/-- Two files, written in turns: each read returns what was written to its file. -/
theorem driver_files_are_byte_arrays_two :
    ∃ w', ((newFilesImage 0).world smallGeometry).run (Program.forEach FileCall.code
        [.write 11 (fun _ => 7) 3000 0 false, .write 12 (fun _ => 8) 10 0 true,
          .write 11 (fun _ => 9) 1 2999 false, .read 11 4000 2998]) =
      .ok ([.wrote 3000, .wrote 10, .wrote 1,
        .read ⟨2, slice (splice (splice zeros 0 (fun _ => 7) 3000) 2999 (fun _ => 9) 1) 2998 2, 3000⟩],
        w') := by
  obtain ⟨w', ran⟩ := driver_files_are_byte_arrays smallGeometry {11, 12}
    ((newFilesImage 0).world smallGeometry)
    [.write 11 (fun _ => 7) 3000 0 false, .write 12 (fun _ => 8) 10 0 true,
      .write 11 (fun _ => 9) 1 2999 false, .read 11 4000 2998] smallGeometry_supported
    (newFilesImage_mounted 0) (newFilesImage_consistent 0) (newFilesImage_created 0) (by
      rw [newFilesImage_free]
      exact ⟨⟨by simp, by decide, by decide, by decide, by decide⟩,
        ⟨by simp, by decide, by decide, by decide, by decide⟩,
        ⟨by simp, by decide, by decide, by decide, by decide⟩,
        ⟨by simp, by decide, by decide⟩, trivial⟩)
  refine ⟨w', ran.trans ?_⟩
  simp [stepAll]

/-! ### Bytes that were never written -/

/-- A call that makes no byte readable that it does not write, unless that byte
is zero on disk. -/
def CleanCall (G : Geometry) (F : Set Nat) : FileCall → World → FileStore → Prop
  | .write n data size position append, w, store => n ∈ F ∧ size < 2 ^ 31 ∧
    store.Fits G n (store.written n data size position append) ∧
    store.blocks n ≤ blocksRequired (store.written n data size position append).size G.bs ∧
    G.CleanWrite w.volume n (store.offset n position append) size
  | .truncate n length, w, _ => n ∈ F ∧ length < 2 ^ 32 ∧ length ≤ G.maxSize ∧
    G.CleanResize w.volume n length
  | .read n size offset, _, store => n ∈ F ∧ store.Readable n size offset

/-- One clean call is a step of the store. -/
theorem Serves.clean (supported : G.Supported) (serves : Serves G F w store) (call : FileCall)
    (clean : CleanCall G F call w store) :
    ∃ w', w.run call.code = .ok ((FileStore.step G call store).1, w') ∧
      Serves G F w' (FileStore.step G call store).2 := by
  cases call with
  | write n data size position append =>
    obtain ⟨member, small, fits, order, clean⟩ := clean
    exact serves.write supported member small fits order clean
  | truncate n length =>
    obtain ⟨member, small, range, clean⟩ := clean
    exact serves.truncate supported member small range clean
  | read n size offset =>
    obtain ⟨member, readable⟩ := clean
    exact serves.read supported member readable

/-- Files behave as byte arrays that are zero where nothing was written, also
past gaps and after truncation, in every run of clean calls. -/
theorem unwritten_bytes_read_as_zero (G : Geometry) (F : Set Nat) (w : World)
    (calls : List FileCall) (supported : G.Supported) (mounted : Mounted G w)
    (consistent : Consistent G w.volume) (created : ∀ n ∈ F, Created G w.volume n)
    (clean : Program.ValidRun World.handle FileCall.code (FileStore.step G) (CleanCall G F) calls w
      (.fresh (G.clearTotal .block w.volume.blocks))) :
    ∃ w', w.run (Program.forEach FileCall.code calls) =
      .ok ((Program.stepAll (FileStore.step G) calls
        (.fresh (G.clearTotal .block w.volume.blocks))).1, w') := by
  obtain ⟨w', ran, _⟩ := forEach_refines_run
    (fun call w store (serves : Serves G F w store) legal => serves.clean supported call legal)
    ⟨mounted, .of_created consistent created⟩ clean
  exact ⟨w', ran⟩

/-- On a disk full of zeros a gap reads as zeros. -/
theorem unwritten_bytes_read_as_zero_gap :
    ∃ w', ((newFilesImage 0).world smallGeometry).run (Program.forEach FileCall.code
        [.write 11 (fun _ => 7) 1 5000 false, .read 11 10 0]) =
      .ok ([.wrote 1, .read ⟨10, zeros, 5001⟩], w') := by
  have created := newFilesImage_created 0 11 (Or.inl rfl)
  have clean : smallGeometry.CleanWrite ((newFilesImage 0).world smallGeometry).volume 11 5000 1 := by
    intro p _ _
    rw [created.keeps.sectors]
    refine ⟨fun _ below => ?_, fun _ b inside clear => ?_⟩
    · omega
    · rw [newFilesImage_clear 0 inside clear]
      exact congrFun slice_zeros _
  obtain ⟨w', ran⟩ := unwritten_bytes_read_as_zero smallGeometry {11, 12}
    ((newFilesImage 0).world smallGeometry) [.write 11 (fun _ => 7) 1 5000 false, .read 11 10 0]
    smallGeometry_supported (newFilesImage_mounted 0) (newFilesImage_consistent 0)
    (newFilesImage_created 0) (by
      rw [newFilesImage_free]
      exact ⟨⟨by simp, by decide, ⟨by decide, by decide⟩, by decide, clean⟩, fun _ _ _ =>
        ⟨⟨by simp, by decide, by decide⟩, fun _ _ _ => trivial⟩⟩)
  refine ⟨w', ran.trans ?_⟩
  simp [stepAll]
  rw [slice_splice_disjoint (by omega), slice_zeros]

/-- A byte has been written, and a seven read. -/
def exposesSeven : Except Stop (List FileReply × World) → Bool
  | .ok ([.wrote 1, .read result], _) => result.count = 1 && result.data 0 = 7
  | _ => false

/-- The bytes in front of a write past the end of a new file are those that its
block held before. -/
theorem gap_exposes_old_block :
    Created smallGeometry ((newFilesImage 7).world smallGeometry).volume 11 ∧
      ∃ result w', ((newFilesImage 7).world smallGeometry).run (Program.forEach FileCall.code
          [.write 11 zeros 1 1 false, .read 11 1 0]) = .ok ([.wrote 1, .read result], w') ∧
        result.count = 1 ∧ result.data 0 = 7 := by
  refine ⟨newFilesImage_created 7 11 (Or.inl rfl), ?_⟩
  have seen : exposesSeven (((newFilesImage 7).world smallGeometry).run (forEach
      FileCall.code [.write 11 zeros 1 1 false, .read 11 1 0])) = true := by decide +kernel
  unfold exposesSeven at seen
  split at seen
  · rename_i result w' ran
    exact ⟨result, w', ran, by simpa using seen⟩
  · cases seen

/-! ### Volumes with more descriptors than one block holds -/

/-- 65 groups of 256 blocks of 2048 bytes, one descriptor more than fits into a
block; each group starts with its bitmaps and its inode table. -/
def wideGeometry : Geometry where
  log := 1
  inodeSize := 128
  blocksPerGroup := 256
  inodesPerGroup := 16
  numBlocks := 16640
  numInodes := 1040
  groups := 65
  blockBitmap := fun g => 256 * g + 3
  inodeBitmap := fun g => 256 * g + 4
  inodeTable := fun g => 256 * g + 5
  log_le := smallGeometry.log_le
  inodeSize_ge := smallGeometry.inodeSize_ge
  inodeSize_dvd := smallGeometry.inodeSize_dvd
  blocksPerGroup_pos := by decide
  blocksPerGroup_eight := by decide
  blocksPerGroup_le := by decide
  inodesPerGroup_pos := smallGeometry.inodesPerGroup_pos
  inodesPerGroup_eight := smallGeometry.inodesPerGroup_eight
  inodesPerGroup_le := smallGeometry.inodesPerGroup_le
  numBlocks_lt := by decide
  numInodes_lt := by decide
  groups_of_blocks := by decide
  groups_of_inodes := by decide

/-- Its metadata blocks. -/
theorem wideGeometry_meta (isMeta : wideGeometry.IsMeta node) :
    (∃ k < 2, node = .descriptors k ∧ wideGeometry.metaBlock node = 1 + k) ∨
      (∃ g < 65, node = .blockBitmap g ∧ wideGeometry.metaBlock node = 256 * g + 3) ∨
      (∃ g < 65, node = .inodeBitmap g ∧ wideGeometry.metaBlock node = 256 * g + 4) ∨
      ∃ g < 65, node = .inodeTable g 0 ∧ wideGeometry.metaBlock node = 256 * g + 5 := by
  cases node with
  | descriptors k => exact Or.inl ⟨k, isMeta, rfl, rfl⟩
  | blockBitmap g => exact Or.inr (Or.inl ⟨g, isMeta, rfl, rfl⟩)
  | inodeBitmap g => exact Or.inr (Or.inr (Or.inl ⟨g, isMeta, rfl, rfl⟩))
  | inodeTable g k =>
    obtain ⟨group, below⟩ : g < 65 ∧ k < 1 := isMeta
    have : k = 0 := by omega
    subst this
    exact Or.inr (Or.inr (Or.inr ⟨g, group, rfl, rfl⟩))

theorem wideGeometry_range (isMeta : wideGeometry.IsMeta node) :
    1 ≤ wideGeometry.metaBlock node ∧ wideGeometry.metaBlock node < 16390 := by
  rcases wideGeometry_meta isMeta with ⟨k, _, rfl, at'⟩ | ⟨k, _, rfl, at'⟩ | ⟨k, _, rfl, at'⟩ |
    ⟨k, _, rfl, at'⟩ <;> omega

theorem wideGeometry_sound : wideGeometry.Sound := by
  refine ⟨fun node isMeta => (wideGeometry_range isMeta).1, fun node isMeta =>
    Nat.lt_trans (wideGeometry_range isMeta).2 (by decide),
    fun node node' isMeta isMeta' same => ?_⟩
  · rcases wideGeometry_meta isMeta with ⟨k, _, rfl, at'⟩ | ⟨k, _, rfl, at'⟩ | ⟨k, _, rfl, at'⟩ |
      ⟨k, _, rfl, at'⟩ <;>
    rcases wideGeometry_meta isMeta' with ⟨m, _, rfl, at''⟩ | ⟨m, _, rfl, at''⟩ |
      ⟨m, _, rfl, at''⟩ | ⟨m, _, rfl, at''⟩ <;>
    first
      | (obtain rfl : k = m := by omega)
        rfl
      | omega

/-- All blocks of the first 64 groups are in use, and file 11 is new. -/
def fullGroupsImage : Image where
  used := fun kind n => match kind with
    | .block => n < 16390
    | .inode => n < 11
  header := fun n => if n = 11 then newFileInode else zeros
  data := fun _ => zeros
  garbage := fun _ _ => 0

theorem fullGroupsImage_freeIn (below : g < 64) :
    fullGroupsImage.freeIn wideGeometry .block g = 0 := by
  apply List.countP_eq_zero.mpr
  intro i member
  have bound : i < 256 := List.mem_range.mp member
  have used : fullGroupsImage.used .block (g * 256 + i) = true := decide_eq_true (by omega)
  change ¬ (!fullGroupsImage.used .block (g * 256 + i)) = true
  rw [used]
  decide

theorem fullGroupsImage_freeTotal : fullGroupsImage.freeTotal wideGeometry .block = 250 := by
  change ∑ g ∈ range 65, fullGroupsImage.freeIn wideGeometry .block g = 250
  rw [sum_range_succ, sum_eq_zero fun g member =>
    fullGroupsImage_freeIn (mem_range.mp member), zero_add]
  decide +kernel

theorem fullGroupsImage_consistent :
    Consistent wideGeometry (fullGroupsImage.volume wideGeometry) := by
  refine fullGroupsImage.volume_consistent wideGeometry_sound (by decide) (fun g group => ?_)
    (by rw [fullGroupsImage_freeTotal]; decide) fun b inside clear => ?_
  · exact (countBelow_le _ _).trans_lt (by decide)
  · have inside' : b / 256 < 65 := inside
    have clear' : decide (b < 16390) = false := clear
    have low : 16390 ≤ b := by simpa using clear'
    refine ⟨by omega, show b < 16640 by omega, fun node isMeta same => ?_⟩
    have := (wideGeometry_range isMeta).2
    omega

def stopsAtAssertion : Except Stop (FileReply × World) → Bool
  | .error .assertion => true
  | _ => false

theorem of_stopsAtAssertion (stopped : stopsAtAssertion result = true) :
    result = .error .assertion := by
  unfold stopsAtAssertion at stopped
  split at stopped
  · rfl
  · cases stopped

/-- One byte written to a new file fails an assertion, with 250 blocks free. -/
theorem write_stops_at_group_64 :
    Mounted wideGeometry (fullGroupsImage.world wideGeometry) ∧
      Consistent wideGeometry (fullGroupsImage.world wideGeometry).volume ∧
      Created wideGeometry (fullGroupsImage.world wideGeometry).volume 11 ∧
      WithinFile wideGeometry {11} (.write 11 zeros 1 0 false)
        (.fresh (wideGeometry.clearTotal .block (fullGroupsImage.world wideGeometry).volume.blocks)) ∧
      (fullGroupsImage.world wideGeometry).run (FileCall.code (.write 11 zeros 1 0 false)) =
        .error .assertion := by
  have fits : wideGeometry.numBlocks * wideGeometry.bs ≤ 2 ^ 32 := by decide
  have mounted := fullGroupsImage.world_mounted wideGeometry_sound fits
  have created := fullGroupsImage.created wideGeometry_sound fits (n := 11) ⟨by decide, by decide⟩ rfl
  have free : wideGeometry.clearTotal .block (fullGroupsImage.volume wideGeometry).blocks = 250 := by
    rw [fullGroupsImage.volume_clearTotal wideGeometry_sound fits, fullGroupsImage_freeTotal]
  have stopped : stopsAtAssertion ((fullGroupsImage.world wideGeometry).run
      (FileCall.code (.write 11 zeros 1 0 false))) = true := by decide +kernel
  refine ⟨mounted, ?_⟩
  rw [fullGroupsImage.world_volume]
  refine ⟨fullGroupsImage_consistent, created, ?_, ?_⟩
  · rw [free]
    exact ⟨rfl, by decide, by decide, by decide, by decide⟩
  · exact of_stopsAtAssertion stopped

end SbOS.Ext2
