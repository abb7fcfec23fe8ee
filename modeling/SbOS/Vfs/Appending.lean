import SbOS.Ext2.FileRuns
import SbOS.Kernel.Stop

/-! Writing through descriptors that were opened with `O_APPEND`. A descriptor of an
ext2 file carries the size the file had when it was opened (`file_size` of the
`vfs_inode_t` made by `ext2_open`), and that is where `vfs_write` seeks to before it
writes. -/
namespace SbOS.Vfs
open Bytes Ext2 Kernel Function
open List hiding count after

def oWRITE : Nat := 2

def oAPPEND : Nat := 5

/-- A `vfs_fd_t` for a regular file of ext2, neither a directory nor a link, with
the fields of its inode that writing reads. -/
structure OpenFile where
  offset : Nat
  flags : Nat
  inodeNum : Nat
  fileSize : Nat

inductive Whence where
  | set
  | cur
  | «end»
  deriving DecidableEq, Repr

namespace OpenFile

/-- `vfs_lseek`. The offset is a `size_t` of 32 bits. -/
def vfsLseek (fd : OpenFile) (offset : Int) (whence : Whence) : OpenFile :=
  let target : Int := match whence with
    | .set => offset
    | .cur => fd.offset + offset
    | .end => fd.fileSize + offset
  { fd with offset := (target % 2 ^ 32).toNat }

/-- `fd_ptr->offset += rc`. -/
def advance (fd : OpenFile) (rc : Int) : OpenFile :=
  { fd with offset := ((fd.offset + rc) % 2 ^ 32).toNat }

/-- `vfs_write` on such a descriptor; `ext2_write` passes the offset on to
`write_inode` and never blocks. -/
def vfsWrite (fd : OpenFile) (data : Bytes) (count : Nat) : Driver (Int × OpenFile) := do
  let fd := if fd.flags.testBit oAPPEND then fd.vfsLseek 0 .end else fd
  if fd.flags.testBit oWRITE then
    let rc ← writeInode fd.inodeNum data count fd.offset false
    return ((rc : Int), fd.advance rc)
  else
    return (-eBADF, fd.advance (-eBADF))

end OpenFile

/-- One call of `vfs_write`, through the descriptor with a number. -/
structure Append where
  fd : Nat
  data : Bytes
  size : Nat

/-- The calls one after the other; the descriptors may belong to several processes. -/
def vfsWrites (fds : Nat → OpenFile) : List Append → Driver (List Int × (Nat → OpenFile))
  | [] => return ([], fds)
  | call :: calls => do
    let (rc, fd) ← (fds call.fd).vfsWrite call.data call.size
    let (rcs, fds) ← vfsWrites (Function.update fds call.fd fd) calls
    return (rc :: rcs, fds)

/-- The file after the calls: each writes where the snapshot of its descriptor ends,
or, in the file that the calls are meant to leave, at the end. -/
def overwritten (fds : Nat → OpenFile) (c : ByteFile) (calls : List Append) : ByteFile :=
  calls.foldl (fun f call => f.write call.data call.size (u32 (fds call.fd).fileSize)) c

def appended (c : ByteFile) (calls : List Append) : ByteFile :=
  calls.foldl (fun f call => f.append call.data call.size) c

theorem appended_size (c : ByteFile) (calls : List Append) :
    (appended c calls).size = c.size + (calls.map (·.size)).sum := by
  induction calls generalizing c with
  | nil => rfl
  | cons call calls ih =>
    have rest := ih (c.append call.data call.size)
    rw [ByteFile.append_size] at rest
    exact rest.trans (add_assoc _ _ _)

/-- No call writes past the longest one when no snapshot is longer than `bound`. -/
theorem overwritten_size (start : f.size ≤ bound + most)
    (each : ∀ call ∈ calls, u32 (fds call.fd).fileSize ≤ bound ∧ call.size ≤ most) :
    (overwritten fds f calls).size ≤ bound + most := by
  induction calls generalizing f with
  | nil => exact start
  | cons call calls ih =>
    obtain ⟨snapshot, short⟩ := each call mem_cons_self
    refine ih ?_ fun other member => each other (mem_cons_of_mem _ member)
    exact Nat.max_le.mpr ⟨start, by omega⟩

/-- Calls that write nothing change nothing. -/
theorem overwritten_filter (snapshots : ∀ call ∈ calls, u32 (fds call.fd).fileSize ≤ f.size) :
    overwritten fds f calls = overwritten fds f (calls.filter (·.size ≠ 0)) := by
  induction calls generalizing f with
  | nil => rfl
  | cons call calls ih =>
    have here := snapshots call mem_cons_self
    have later : ∀ other ∈ calls, u32 (fds other.fd).fileSize ≤
        (f.write call.data call.size (u32 (fds call.fd).fileSize)).size := fun other member =>
      (snapshots other (mem_cons_of_mem _ member)).trans (le_max_left _ _)
    have rest := ih later
    by_cases nothing : call.size = 0
    · rw [filter_cons_of_neg (by simpa using nothing)]
      rw [nothing, f.write_nothing here] at rest
      change overwritten fds (f.write call.data call.size _) calls = _
      rw [nothing, f.write_nothing here, rest]
    · rw [filter_cons_of_pos (by simpa using nothing)]
      exact rest

theorem appended_filter (f : ByteFile) (calls : List Append) :
    appended f calls = appended f (calls.filter (·.size ≠ 0)) := by
  induction calls generalizing f with
  | nil => rfl
  | cons call calls ih =>
    have rest := ih (f.append call.data call.size)
    by_cases nothing : call.size = 0
    · rw [filter_cons_of_neg (by simpa using nothing)]
      rw [nothing, f.append_nothing] at rest
      change appended (f.append call.data call.size) calls = _
      rw [nothing, f.append_nothing, rest]
    · rw [filter_cons_of_pos (by simpa using nothing)]
      exact rest

theorem add_length_le_sum {sizes : List Nat} (positive : ∀ x ∈ sizes, 1 ≤ x)
    (member : size ∈ sizes) : size + sizes.length ≤ sizes.sum + 1 := by
  have rest := length_le_sum_of_one_le (sizes.erase size) fun x inside =>
    positive x (mem_of_mem_erase inside)
  rw [length_erase_of_mem member] at rest
  have total := sum_erase member
  omega

/-- At most one call writes anything, and it goes through a descriptor that knows the
size of the file. -/
def OneAppend (fds : Nat → OpenFile) (c : ByteFile) (calls : List Append) : Prop :=
  match calls.filter (·.size ≠ 0) with
  | [] => True
  | [call] => u32 (fds call.fd).fileSize = c.size
  | _ => False

theorem overwritten_eq_appended_iff
    (snapshots : ∀ call ∈ calls, u32 (fds call.fd).fileSize ≤ c.size) :
    overwritten fds c calls = appended c calls ↔ OneAppend fds c calls := by
  have writing : ∀ call ∈ calls.filter (·.size ≠ 0),
      u32 (fds call.fd).fileSize ≤ c.size ∧ call.size ≠ 0 := fun call member =>
    ⟨snapshots call (mem_of_mem_filter member), by simpa using (mem_filter.mp member).2⟩
  rw [overwritten_filter snapshots, appended_filter, OneAppend]
  generalize calls.filter (·.size ≠ 0) = busy at writing
  match busy with
  | [] => exact iff_of_true rfl trivial
  | [call] =>
    obtain ⟨snapshot, busy⟩ := writing call mem_cons_self
    constructor
    · intro same
      have size : max c.size (u32 (fds call.fd).fileSize + call.size) = c.size + call.size :=
        (congrArg ByteFile.size same).trans c.append_size
      omega
    · intro fresh
      change c.write call.data call.size (u32 (fds call.fd).fileSize) = c.append call.data call.size
      rw [show u32 (fds call.fd).fileSize = c.size from fresh]
      rfl
  | first :: second :: rest =>
    refine iff_of_false (fun same => ?_) id
    -- The file grows by less than the calls write.
    let sizes := (first :: second :: rest).map (·.size)
    have positive : ∀ size ∈ sizes, 1 ≤ size := by
      intro size member
      obtain ⟨call, inside, rfl⟩ := mem_map.mp member
      exact Nat.one_le_iff_ne_zero.mpr (writing call inside).2
    have two : 2 ≤ sizes.length := by simp [sizes]
    have bound : (overwritten fds c (first :: second :: rest)).size ≤ c.size + (sizes.sum - 1) := by
      refine overwritten_size (Nat.le_add_right _ _) fun call member => ?_
      have most := add_length_le_sum positive (mem_map_of_mem member)
      exact ⟨(writing call member).1, by omega⟩
    have least := length_le_sum_of_one_le _ positive
    rw [same, appended_size] at bound
    change c.size + sizes.sum ≤ _ at bound
    omega

/-! ### The calls on the driver -/

/-- A descriptor of inode `n` for appending. -/
structure OpenFile.AppendsTo (fd : OpenFile) (n : Nat) : Prop where
  inode : fd.inodeNum = n
  append : fd.flags.testBit oAPPEND
  write : fd.flags.testBit oWRITE

variable {G : Geometry} {F : Set Nat} {w : World} {store : FileStore} {fds : Nat → OpenFile}
  {fd : OpenFile}

/-- Where the call writes, and what it does to the descriptor. -/
theorem vfsWrite_appends (appends : fd.AppendsTo n) :
    fd.vfsWrite data count =
      writeInode n data count (u32 fd.fileSize) false >>= fun rc =>
        pure ((rc : Int), (fd.vfsLseek 0 .end).advance rc) := by
  have offset : (fd.vfsLseek 0 .end).offset = u32 fd.fileSize := by
    simp only [OpenFile.vfsLseek, u32]
    omega
  have inode : (fd.vfsLseek 0 .end).inodeNum = n := appends.inode
  have flags : (fd.vfsLseek 0 .end).flags = fd.flags := rfl
  simp only [OpenFile.vfsWrite, appends.append, if_true, flags, appends.write, offset, inode]

/-- Room for every call: the file stays within the range of `get_block` and enough
blocks are free. -/
def Roomy (G : Geometry) (n : Nat) (fds : Nat → OpenFile) : List Append → FileStore → Prop
  | [], _ => True
  | call :: calls, store =>
    let written := store.written n call.data call.size (u32 (fds call.fd).fileSize) false
    call.size < 2 ^ 31 ∧ store.Fits G n written ∧ Roomy G n fds calls (store.put G n written)

theorem Roomy.congr (same : ∀ k, (fds' k).fileSize = (fds k).fileSize)
    (roomy : Roomy G n fds calls store) : Roomy G n fds' calls store := by
  induction calls generalizing store with
  | nil => trivial
  | cons call calls ih =>
    obtain ⟨small, fits, later⟩ := roomy
    rw [← same call.fd] at fits later
    exact ⟨small, fits, ih later⟩

/-- The calls return their full lengths and leave the file overwritten where the
snapshots say. -/
theorem run_vfsWrites (supported : G.Supported) (member : n ∈ F)
    (serves : Serves G F w store) (full : store.Full G)
    (appending : ∀ call ∈ calls, (fds call.fd).AppendsTo n)
    (snapshots : ∀ call ∈ calls, u32 (fds call.fd).fileSize ≤ (store.files n).size)
    (roomy : Roomy G n fds calls store) :
    ∃ w' fds' store', w.run (vfsWrites fds calls) =
        .ok ((calls.map fun call => (call.size : Int), fds'), w') ∧
      Serves G F w' store' ∧ store'.files n = overwritten fds (store.files n) calls := by
  induction calls generalizing w store fds with
  | nil => exact ⟨w, fds, store, rfl, serves, rfl⟩
  | cons call calls ih =>
    obtain ⟨small, fits, later⟩ := roomy
    have inside := snapshots call mem_cons_self
    have appends := appending call mem_cons_self
    have order : store.blocks n ≤ blocksRequired
        (store.written n call.data call.size (u32 (fds call.fd).fileSize) false).size G.bs := by
      rw [full n]
      exact blocksRequired_mono (le_max_left _ _) G.bs_pos
    obtain ⟨w₁, ran₁, serves₁⟩ := serves.step (serves.stores.write serves.mounted.sound supported
      member small fits.range order fits.space (serves.stores.clean_of_full full member inside))
      fun rc => ((rc : Int), ((fds call.fd).vfsLseek 0 .end).advance rc)
    rw [← vfsWrite_appends appends] at ran₁
    generalize fd₁ : ((fds call.fd).vfsLseek 0 .end).advance call.size = moved at ran₁
    have same : ∀ k, (update fds call.fd moved k).fileSize = (fds k).fileSize := by
      intro k
      by_cases here : k = call.fd
      · subst here
        rw [update_self, ← fd₁]
        rfl
      · rw [update_of_ne here]
    have appending₁ : ∀ other ∈ calls, (update fds call.fd moved other.fd).AppendsTo n := by
      intro other inCalls
      by_cases here : other.fd = call.fd
      · rw [here, update_self, ← fd₁]
        exact ⟨appends.inode, appends.append, appends.write⟩
      · rw [update_of_ne here]
        exact appending other (mem_cons_of_mem _ inCalls)
    have file₁ : (store.put G n (store.written n call.data call.size
        (u32 (fds call.fd).fileSize) false)).files n = _ := update_self ..
    obtain ⟨w₂, fds₂, store₂, ran₂, serves₂, files₂⟩ := ih serves₁ (full.put n _) appending₁
      (fun other inCalls => by
        rw [same, file₁]
        exact (snapshots other (mem_cons_of_mem _ inCalls)).trans (le_max_left _ _))
      (later.congr same)
    refine ⟨w₂, fds₂, store₂, ?_, serves₂, ?_⟩
    · exact (Program.execute_bind_ok ran₁).trans (Program.execute_bind_ok ran₂)
    · simp only [files₂, file₁, overwritten, same]
      rfl

/-- On a file that has not become shorter since its descriptors were opened, a
sequence of complete writes through them leaves its contents followed by the data in
order exactly when at most one of them writes anything, through a descriptor that
was opened when the file had its present size. -/
theorem appends_in_order_iff (supported : G.Supported) (member : n ∈ F)
    (serves : Serves G F w store) (full : store.Full G)
    (appending : ∀ call ∈ calls, (fds call.fd).AppendsTo n)
    (snapshots : ∀ call ∈ calls, u32 (fds call.fd).fileSize ≤ (store.files n).size)
    (roomy : Roomy G n fds calls store) :
    ∃ w' fds' store', w.run (vfsWrites fds calls) =
        .ok ((calls.map fun call => (call.size : Int), fds'), w') ∧
      Serves G F w' store' ∧
      (store'.files n = appended (store.files n) calls ↔
        OneAppend fds (store.files n) calls) := by
  obtain ⟨w', fds', store', ran, serves', file⟩ :=
    run_vfsWrites supported member serves full appending snapshots roomy
  refine ⟨w', fds', store', ran, serves', ?_⟩
  rw [file]
  exact overwritten_eq_appended_iff snapshots

/-- A descriptor of file 11, opened while it was empty. -/
def emptyOnOpen : Nat → OpenFile := fun _ => ⟨0, 36, 11, 0⟩

theorem newFiles_serve :
    Serves smallGeometry {11, 12} ((newFilesImage 0).world smallGeometry)
      (.fresh (smallGeometry.clearTotal .block
        ((newFilesImage 0).world smallGeometry).volume.blocks)) :=
  ⟨newFilesImage_mounted 0, .of_created (newFilesImage_consistent 0) (newFilesImage_created 0)⟩

theorem emptyOnOpen_appends (k : Nat) : (emptyOnOpen k).AppendsTo 11 :=
  ⟨rfl, show Nat.testBit 36 5 = true by decide, show Nat.testBit 36 2 = true by decide⟩

theorem appends_in_order_iff_one :
    ∃ w' fds' store', ((newFilesImage 0).world smallGeometry).run
        (vfsWrites emptyOnOpen [⟨0, fun _ => 7, 3000⟩]) = .ok (([3000], fds'), w') ∧
      Serves smallGeometry {11, 12} w' store' ∧
      store'.files 11 = ByteFile.empty.append (fun _ => 7) 3000 := by
  obtain ⟨w', fds', store', ran, serves, exactly⟩ := appends_in_order_iff smallGeometry_supported
    (show 11 ∈ ({11, 12} : Set Nat) by simp) newFiles_serve (.fresh _ _)
    (fun _ _ => emptyOnOpen_appends _) (fun _ _ => Nat.zero_le _)
    (show Roomy _ _ _ [⟨0, fun _ => 7, 3000⟩] _ by
      exact ⟨by decide, ⟨by decide, by decide⟩, trivial⟩)
  exact ⟨w', fds', store', ran, serves, exactly.mpr rfl⟩

/-- Two writes of one byte through a descriptor that was opened while the file was
empty: both return 1, and the second byte replaces the first. -/
theorem second_append_overwrites :
    ∃ w' fds' store', ((newFilesImage 0).world smallGeometry).run
        (vfsWrites emptyOnOpen [⟨0, fun _ => 7, 1⟩, ⟨0, fun _ => 8, 1⟩]) =
          .ok (([1, 1], fds'), w') ∧
      Serves smallGeometry {11, 12} w' store' ∧
      (store'.files 11).size = 1 ∧ (store'.files 11).bytes 0 = 8 ∧
      store'.files 11 ≠ appended .empty [⟨0, fun _ => 7, 1⟩, ⟨0, fun _ => 8, 1⟩] := by
  obtain ⟨w', fds', store', ran, serves, file⟩ := run_vfsWrites smallGeometry_supported
    (show 11 ∈ ({11, 12} : Set Nat) by simp) newFiles_serve (.fresh _ _)
    (fun _ _ => emptyOnOpen_appends _) (fun _ _ => Nat.zero_le _)
    (show Roomy _ _ _ [⟨0, fun _ => 7, 1⟩, ⟨0, fun _ => 8, 1⟩] _ by
      exact ⟨by decide, ⟨by decide, by decide⟩, by decide, ⟨by decide, by decide⟩, trivial⟩)
  have size : (store'.files 11).size = 1 := congrArg ByteFile.size file
  refine ⟨w', fds', store', ran, serves, size, congrArg (·.bytes 0) file, fun same => ?_⟩
  rw [same, appended_size] at size
  cases size

end SbOS.Vfs
