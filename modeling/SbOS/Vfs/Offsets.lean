import SbOS.Vfs.Appending

/-! The offset of a descriptor over calls of `vfs_read` and `vfs_write`. Both add to it
whatever the inode's operation has returned, also an error code. -/
namespace SbOS.Vfs
open Kernel Option

def oNONBLOCK : Nat := 0

def oREAD : Nat := 1

def eINTR : Int := 27

/-- A call of the inode's operation and, in case the caller waits because of its result, the
calls of `poll` it waits with: what each returns and whether the descriptor is ready. -/
structure Attempt where
  rc : Int
  polls : List (Int × Bool)
  isInt : -2 ^ 31 ≤ rc ∧ rc < 2 ^ 31

/-- The loop around `poll`, left with `true` when the descriptor is ready and with `false`
when a signal comes. -/
def awaitReady : List (Int × Bool) → Option Bool
  | [] => none
  | (rc, ready) :: polls =>
    if rc = -eINTR then some false else if ready then some true else awaitReady polls

/-- `vfs_pread` and `vfs_pwrite` on a descriptor that allows the access. `blocks` tells
whether the call waits after `-EAGAIN`; then it starts over. -/
def transfer (blocks : Bool) : List Attempt → Option Int
  | [] => none
  | attempt :: attempts =>
    if attempt.rc = -eAGAIN ∧ blocks then do
      if ← awaitReady attempt.polls then transfer blocks attempts else some (-eINTR)
    else some attempt.rc

/-- What `vfs_pread` and `vfs_pwrite` have in common; for `-EBADF` no call waits. -/
def access (allowed blocks : Bool) (attempts : List Attempt) : Option Int :=
  if allowed then transfer blocks attempts else some (-eBADF)

/-- A call of `vfs_read` or `vfs_write`, with what happens below it. -/
inductive Transfer where
  | read (count : Nat) (attempts : List Attempt)
  | write (count : Nat) (attempts : List Attempt)

namespace Transfer

def vfsPread (fd : OpenFile) (count : Nat) (attempts : List Attempt) : Option Int :=
  access (fd.flags.testBit oREAD) (0 < count && !fd.flags.testBit oNONBLOCK) attempts

def vfsPwrite (fd : OpenFile) (attempts : List Attempt) : Option Int :=
  access (fd.flags.testBit oWRITE) (!fd.flags.testBit oNONBLOCK) attempts

/-- What `vfs_read` or `vfs_write` returns and the descriptor after it, unless the call
waits for ever. -/
def perform (fd : OpenFile) : Transfer → Option (Int × OpenFile)
  | read count attempts => do
    let rc ← vfsPread fd count attempts
    return (rc, fd.advance rc)
  | write _ attempts => do
    let fd := if fd.flags.testBit oAPPEND then fd.vfsLseek 0 .end else fd
    let rc ← vfsPwrite fd attempts
    return (rc, fd.advance rc)

end Transfer

/-- A call that has returned. -/
structure Transferred where
  before : OpenFile
  rc : Int
  after : OpenFile

/-- The calls one after the other. -/
def transfers (fd : OpenFile) : List Transfer → Option (List Transferred × OpenFile)
  | [] => some ([], fd)
  | call :: calls => do
    let (rc, after) ← call.perform fd
    let (done, last) ← transfers after calls
    return (⟨fd, rc, after⟩ :: done, last)

/-- The sum of the return values that are not errors. -/
def amount (done : List Transferred) : Int := done.foldr (fun call sum => max call.rc 0 + sum) 0

/-- The last of a list of attempts transfers something or nothing but does not fail, and after
each one before it the descriptor becomes ready. -/
def Completes (blocks : Bool) : List Attempt → Prop
  | [] => False
  | attempt :: attempts => 0 ≤ attempt.rc ∨ attempt.rc = -eAGAIN ∧ blocks = true ∧
    awaitReady attempt.polls = some true ∧ Completes blocks attempts

/-- The descriptor allows the access and the attempts complete. -/
def Transfer.Succeeds (flags : Nat) : Transfer → Prop
  | read count attempts => flags.testBit oREAD = true ∧
    Completes (0 < count && !flags.testBit oNONBLOCK) attempts
  | write _ attempts => flags.testBit oWRITE = true ∧
    Completes (!flags.testBit oNONBLOCK) attempts

theorem transfer_returns (returned : transfer blocks attempts = some rc) :
    -2 ^ 31 ≤ rc ∧ rc < 2 ^ 31 ∧ (0 ≤ rc ↔ Completes blocks attempts) := by
  induction attempts with
  | nil => cases returned
  | cons attempt attempts ih =>
    unfold transfer at returned
    unfold Completes
    split at returned
    · rename_i waits
      obtain ⟨ready, ended, returned⟩ := bind_eq_some_iff.mp returned
      rw [waits.1, ended]
      cases ready with
      | true => simpa [eAGAIN, waits.2] using ih returned
      | false =>
        cases returned
        simp [eAGAIN, eINTR]
    · rename_i plain
      cases returned
      refine ⟨attempt.isInt.1, attempt.isInt.2, .inl, ?_⟩
      rintro (done | ⟨again, waits, -⟩)
      · exact done
      · exact absurd ⟨again, waits⟩ plain

theorem access_returns (returned : access allowed blocks attempts = some rc) :
    -2 ^ 31 ≤ rc ∧ rc < 2 ^ 31 ∧ (0 ≤ rc ↔ allowed = true ∧ Completes blocks attempts) := by
  cases allowed with
  | true => simpa using transfer_returns returned
  | false =>
    cases returned
    simp [eBADF]

theorem Transfer.perform_returns {call : Transfer} (plain : ¬ fd.flags.testBit oAPPEND = true)
    (returned : call.perform fd = some (rc, fd')) :
    fd' = fd.advance rc ∧ -2 ^ 31 ≤ rc ∧ rc < 2 ^ 31 ∧ (0 ≤ rc ↔ call.Succeeds fd.flags) := by
  cases call with
  | read count attempts =>
    obtain ⟨rc, result, same⟩ := bind_eq_some_iff.mp returned
    cases same
    exact ⟨rfl, access_returns result⟩
  | write count attempts =>
    unfold perform at returned
    rw [if_neg plain] at returned
    obtain ⟨rc, result, same⟩ := bind_eq_some_iff.mp returned
    cases same
    exact ⟨rfl, access_returns result⟩

/-- The offset moves by the sum of the return values that are not errors, and stays where it
is when a call fails, exactly in the runs in which no call fails. -/
theorem offset_moves_by_amount_iff (fd : OpenFile) (calls : List Transfer)
    (done : List Transferred) (last : OpenFile) (small : fd.offset < 2 ^ 32)
    (plain : ¬ fd.flags.testBit oAPPEND = true) (ran : transfers fd calls = some (done, last)) :
    ((last.offset : Int) = (fd.offset + amount done) % 2 ^ 32 ∧
        ∀ call ∈ done, call.rc < 0 → call.after.offset = call.before.offset) ↔
      ∀ call ∈ calls, call.Succeeds fd.flags := by
  induction calls generalizing fd done with
  | nil =>
    cases ran
    simp [amount]
    omega
  | cons call calls ih =>
    obtain ⟨⟨rc, after⟩, returned, ran⟩ := bind_eq_some_iff.mp ran
    obtain ⟨⟨rest, _⟩, ran, same⟩ := bind_eq_some_iff.mp ran
    cases same
    obtain ⟨rfl, low, high, succeeds⟩ := Transfer.perform_returns plain returned
    have moved : ((fd.advance rc).offset : Int) = (fd.offset + rc) % 2 ^ 32 :=
      Int.toNat_of_nonneg (Int.emod_nonneg _ (by decide))
    have later : _ ↔ ∀ call ∈ calls, call.Succeeds fd.flags :=
      ih (fd.advance rc) rest (by omega) plain ran
    rw [List.forall_mem_cons, List.forall_mem_cons, ← succeeds, ← later, moved]
    by_cases failed : rc < 0
    · have away : (fd.advance rc).offset ≠ fd.offset := by omega
      exact iff_of_false (fun both => away (both.2.1 failed)) fun both => absurd both.1 (by omega)
    · have sum : amount (⟨fd, rc, fd.advance rc⟩ :: rest) = rc + amount rest := by
        simp [amount, Int.not_lt.mp failed]
      rw [sum, Int.emod_add_emod, Int.add_assoc]
      simp [failed, Int.not_lt.mp failed]

/-- A read that waits once and gets three bytes, and a write of two. -/
def fiveBytes : List Transfer :=
  [.read 8 [⟨-6, [(0, false), (1, true)], by decide⟩, ⟨3, [], by decide⟩],
    .write 2 [⟨2, [], by decide⟩]]

theorem offset_moves_by_amount_iff_five :
    ∃ done last, transfers ⟨100, 6, 0, 0⟩ fiveBytes = some (done, last) ∧
      (last.offset : Int) = (100 + amount done) % 2 ^ 32 := by
  refine ⟨_, _, rfl, ((offset_moves_by_amount_iff ⟨100, 6, 0, 0⟩ fiveBytes _ _ (by decide)
    (by decide) rfl).mpr ?_).1⟩
  simp [fiveBytes, Transfer.Succeeds, Completes]
  decide

/-- A failed read moves the offset back by the error code. -/
theorem failed_read_moves_offset :
    ∃ done last, transfers ⟨100, 2, 0, 0⟩ [.read 1 [⟨-1, [], by decide⟩]] = some (done, last) ∧
      last.offset = 99 ∧ ¬ ((last.offset : Int) = (100 + amount done) % 2 ^ 32 ∧
        ∀ call ∈ done, call.rc < 0 → call.after.offset = call.before.offset) :=
  ⟨_, _, rfl, by decide, fun both => absurd both.1 (by decide)⟩

end SbOS.Vfs
