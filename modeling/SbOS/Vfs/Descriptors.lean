import SbOS.Kernel.Relist
import SbOS.Lib.References

/-! Descriptor tables and the file objects they share. Every process has a table
of slots (`file_descriptors`) that refer to file objects (`vfs_fd_t`), and a file
object is freed when its `reference_count` reaches zero. File objects are named by
numbers that are not used twice, so that a freed object keeps its name. A count is
at most the number of slots in all tables, which memory keeps far below 2^31. -/
namespace SbOS.Vfs
open Kernel Function

structure Descriptors where
  /-- `reference_count` of the file objects that have not been freed. -/
  references : Nat → Option Nat
  /-- Whether the inode of a file object has a `close` callback. -/
  closes : Nat → Bool
  /-- How often that callback has been run for a file object. -/
  closed : Nat → Nat
  nextFile : Nat
  /-- The tables of the live processes. -/
  table : Nat → Option (Relist Nat)
  nextPid : Nat

/-- A C `int`. The functions of the list take it as a `u32`. -/
abbrev CInt := BitVec 32

def getVfsFd (table : Relist Nat) (fd : CInt) : Option Nat :=
  if fd.toInt < 0 then none else table.lookup fd.toNat

namespace Descriptors

/-- The state in which the kernel's own process is alone. -/
def boot (entries : Nat → Nat) : Descriptors where
  references _ := none
  closes _ := false
  closed _ := 0
  nextFile := 0
  table pid := if pid = 0 then some ⟨entries, [0]⟩ else none
  nextPid := 1

def setTable (s : Descriptors) (pid : Nat) (table : Relist Nat) : Descriptors :=
  { s with table := Function.update s.table pid (some table) }

def setReferences (s : Descriptors) (file count : Nat) : Descriptors :=
  { s with references := Function.update s.references file (some count) }

/-- The `close` callback, if there is one, and the two `kfree`. -/
def release (s : Descriptors) (file : Nat) : Descriptors :=
  { s with
    references := Function.update s.references file none
    closed := if s.closes file then Function.update s.closed file (s.closed file + 1)
      else s.closed }

/-- `vfs_create_fd` for a new file object. -/
def vfsCreateFd (s : Descriptors) (pid : Nat) (table : Relist Nat) (closes : Bool) :
    Except Stop (Int × Descriptors) := do
  let file := s.nextFile
  let s := { s with nextFile := file + 1, closes := Function.update s.closes file closes }
  let (slot, table) ← table.add file
  .ok (slot, (s.setReferences file 1).setTable pid table)

def vfsCloseProcess (s : Descriptors) (pid : Nat) (table : Relist Nat) (fd : CInt) :
    Except Stop (Int × Descriptors) :=
  match getVfsFd table fd with
  | none => .ok (-1, s)
  | some file =>
    match s.references file with
    | none => .error .dangling
    | some count => do
      check (0 < count)
      let table ← table.remove fd.toNat
      let s := s.setTable pid table
      if count - 1 = 0 then .ok (0, s.release file)
      else .ok (0, s.setReferences file (count - 1))

def vfsDup (s : Descriptors) (pid : Nat) (table : Relist Nat) (fd : CInt) :
    Except Stop (Int × Descriptors) :=
  match getVfsFd table fd with
  | none => .ok (-eBADF, s)
  | some file =>
    match s.references file with
    | none => .error .dangling
    | some count => do
      let (slot, table) ← table.add file
      .ok (slot, (s.setTable pid table).setReferences file (count + 1))

/-- `new_fd` is closed first, whether or not `org_fd` is open. -/
def vfsDup2 (s : Descriptors) (pid : Nat) (table : Relist Nat) (orgFd newFd : CInt) :
    Except Stop (Int × Descriptors) :=
  if orgFd = newFd then .ok (-eINVAL, s)
  else do
    let (_, s) ← s.vfsCloseProcess pid table newFd
    match s.table pid with
    | none => .error .dangling
    | some table =>
      match table.lookup orgFd.toNat with
      | none => .error .assertion
      | some file =>
        match s.references file with
        | none => .error .dangling
        | some count => do
          check (1 ≤ count)
          let table ← table.set newFd.toNat file
          let s := (s.setTable pid table).setReferences file (count + 1)
          check (2 ≤ count + 1)
          .ok (1, s)

/-- One round of the loop in `create_process` over the copied table. -/
def addReference (table : Relist Nat) (s : Descriptors) (slot : Nat) : Except Stop Descriptors :=
  match table.lookup slot with
  | none => .ok s
  | some file =>
    match s.references file with
    | none => .error .dangling
    | some count => .ok (s.setReferences file (count + 1))

/-- The state after `next_pid++`. -/
def takePid (s : Descriptors) : Descriptors := { s with nextPid := s.nextPid + 1 }

/-- Where `create_process` runs out of memory. -/
inductive ForkMemory where
  | noProcess
  | noTable
  | noDirectory
  | enough
  deriving DecidableEq, Repr

/-- The descriptor part of `create_process` with a parent. When `clone_directory`
fails, the references taken for the copied table are not given back. -/
def createProcess (s : Descriptors) (table : Relist Nat) (memory : ForkMemory) :
    Except Stop (Option Nat × Descriptors) :=
  if memory = .noProcess then .ok (none, s)
  else
    let pid := s.nextPid
    let s := s.takePid
    if memory = .noTable then .ok (none, s)
    else do
      let copy := table.clone
      let s ← (List.range copy.slots).foldlM (addReference copy) s
      if memory = .noDirectory then .ok (none, s)
      else .ok (some pid, s.setTable pid copy)

/-- One round of the loop in `free_process`. -/
def closeSlot (pid : Nat) (s : Descriptors) (slot : Nat) : Except Stop Descriptors :=
  match s.table pid with
  | none => .error .dangling
  | some table => do
    let (_, s) ← s.vfsCloseProcess pid table (.ofNat 32 slot)
    .ok s

/-- `exit_process`: `free_process` closes the descriptors below 100 and frees the
table. -/
def exitProcess (s : Descriptors) (pid : Nat) : Except Stop Descriptors := do
  check (pid ≠ 1)
  let s ← (List.range 100).foldlM (closeSlot pid) s
  .ok { s with table := Function.update s.table pid none }

/-- What a live process can do to descriptors. -/
inductive Call where
  | create (closes : Bool)
  | dup (fd : CInt)
  | dup2 (orgFd newFd : CInt)
  | close (fd : CInt)
  | fork (memory : ForkMemory)
  | exit
  deriving DecidableEq, Repr

/-- A call made by a process; a process that is not there makes none. -/
def step (s : Descriptors) (pid : Nat) (call : Call) : Except Stop Descriptors :=
  match s.table pid with
  | none => .ok s
  | some table =>
    match call with
    | .create closes => (·.2) <$> s.vfsCreateFd pid table closes
    | .dup fd => (·.2) <$> s.vfsDup pid table fd
    | .dup2 orgFd newFd => (·.2) <$> s.vfsDup2 pid table orgFd newFd
    | .close fd => (·.2) <$> s.vfsCloseProcess pid table fd
    | .fork memory => (·.2) <$> s.createProcess table memory
    | .exit => s.exitProcess pid

def run (s : Descriptors) (calls : List (Nat × Call)) : Except Stop Descriptors :=
  calls.foldlM (fun s call => s.step call.1 call.2) s

/-- What the slot with a number of a process refers to. -/
def refers (s : Descriptors) (place : Nat × Nat) : Option Nat :=
  (s.table place.1).bind (·.lookup place.2)

/-- The counts are the numbers of slots of live processes, and a file object's
`close` has been run once when no slot is left and never before. -/
structure Exact (s : Descriptors) : Prop where
  counted : Counted s.references s.refers
  freshFile : ∀ file, s.nextFile ≤ file → s.references file = none
  freshPid : ∀ pid, s.nextPid ≤ pid → s.table pid = none
  closed : ∀ file, s.closed file =
    if file < s.nextFile ∧ s.references file = none ∧ s.closes file then 1 else 0

/-- What keeps a call of a process with this table harmless: `dup2` is given an open
descriptor and one that the table has a slot for (a negative number would have to
be a free slot of a table with more than 2^31 of them), `fork` does not run out of
memory after it has counted copied references, and no process exits with a
descriptor above 99, nor does process 1 exit at all. -/
def Harmless (pid : Nat) (table : Relist Nat) : Call → Prop
  | .dup2 orgFd newFd => orgFd = newFd ∨
      table.lookup orgFd.toNat ≠ none ∧ newFd.toNat < table.slots ∧
        (newFd.toInt < 0 → table.lookup newFd.toNat = none)
  | .fork memory => memory = .noDirectory → ∀ slot, table.lookup slot = none
  | .exit => pid ≠ 1 ∧ ∀ slot, 100 ≤ slot → table.lookup slot = none
  | _ => True

variable {s s₁ : Descriptors} {table : Relist Nat} {fd orgFd newFd : CInt}

theorem boot_refers : (boot entries).refers = fun _ => none := by
  funext ⟨pid, slot⟩
  unfold refers boot
  by_cases first : pid = 0
  · simp only [first, if_true, Option.bind_some]
    rw [Relist.lookup_eq, if_neg]
    rintro ⟨-, used⟩
    have word : [(0 : BitVec 64)].getD (slot / 64) 0 = 0 := by
      cases slot / 64 <;> simp
    rw [Relist.isUsed, word] at used
    simp at used
  · simp [first]

theorem boot_exact : (boot entries).Exact where
  counted := by
    rw [boot_refers]
    exact Counted.empty
  freshFile _ _ := rfl
  freshPid pid later := by
    have notFirst : pid ≠ 0 := fun zero => by simp [zero, boot] at later
    simp [boot, notFirst]
  closed file := by simp [boot]

theorem refers_of_table (there : s.table pid = some table) :
    s.refers (pid, slot) = table.lookup slot := by
  simp [refers, there]

theorem refers_setTable (there : s.table pid = some table)
    (changed : table'.lookup = update table.lookup slot value) :
    (s.setTable pid table').refers = update s.refers (pid, slot) value := by
  funext ⟨otherPid, otherSlot⟩
  by_cases samePid : otherPid = pid
  · subst samePid
    have now : (s.setTable otherPid table').refers (otherPid, otherSlot) =
        table'.lookup otherSlot := refers_of_table (update_self ..)
    rw [now, changed]
    by_cases sameSlot : otherSlot = slot
    · subst sameSlot
      simp
    · have apart : (otherPid, otherSlot) ≠ (otherPid, slot) := by simp [sameSlot]
      rw [update_of_ne sameSlot, update_of_ne apart, refers_of_table there]
  · simp [refers, setTable, samePid]

section
variable (exact : s.Exact) (there : s.references file = some count)
include exact there

/-- An object that stays has its `close` still to come. -/
theorem setReferences_closed :
    ∀ other, s.closed other =
      if other < s.nextFile ∧ update s.references file (some count') other = none ∧
        s.closes other then 1 else 0 := by
  intro other
  have before := exact.closed other
  by_cases same : other = file
  · subst same
    simp [before, there]
  · simp [before, same]

theorem lt_nextFile : file < s.nextFile := by
  by_contra later
  rw [exact.freshFile file (by omega)] at there
  cases there

theorem setReferences_freshFile :
    ∀ other, s.nextFile ≤ other → (s.setReferences file count').references other = none := by
  intro other later
  have apart : other ≠ file := by
    rintro rfl
    exact absurd (lt_nextFile exact there) (by omega)
  exact (update_of_ne apart _ _).trans (exact.freshFile other later)

end

theorem refers_of_getVfsFd (there : s.table pid = some table)
    (found : getVfsFd table fd = some file) : s.refers (pid, fd.toNat) = some file := by
  rw [refers_of_table there]
  unfold getVfsFd at found
  split at found
  · cases found
  · exact found

/-- Different descriptors have different slots. -/
theorem refers_after_close (apart : orgFd ≠ newFd)
    (after : s₁.refers = if newFd.toInt < 0 then s.refers
      else update s.refers (pid, newFd.toNat) none) :
    s₁.refers (pid, orgFd.toNat) = s.refers (pid, orgFd.toNat) := by
  have otherSlot : ((pid, orgFd.toNat) : Nat × Nat) ≠ (pid, newFd.toNat) := fun eq =>
    apart (BitVec.eq_of_toNat_eq (Prod.ext_iff.mp eq).2)
  rw [after]
  split
  · rfl
  · rw [update_of_ne otherSlot]

/-- The references after the loop of `create_process` has gone over the slots below
`k` of the copy, when those of the child are counted in. -/
def copied (s : Descriptors) (child : Nat) (copy : Relist Nat) (k : Nat) (place : Nat × Nat) :
    Option Nat :=
  if place.1 = child then if place.2 < k then copy.lookup place.2 else none else s.refers place

theorem copied_zero (unused : s.table child = none) : s.copied child copy 0 = s.refers := by
  funext ⟨pid, slot⟩
  by_cases same : pid = child
  · subst same
    simp [copied, refers, unused]
  · simp [copied, same]

theorem copied_succ :
    s.copied child copy (k + 1) =
      update (s.copied child copy k) (child, k) (copy.lookup k) := by
  funext ⟨pid, slot⟩
  by_cases same : pid = child
  · subst same
    by_cases here : slot = k
    · subst here
      simp [copied]
    · have order : slot < k + 1 ↔ slot < k := by omega
      simp [copied, here, order]
  · simp [copied, same]

theorem copied_all (references : Nat → Option Nat) :
    ({ s with references }.setTable child copy).refers = s.copied child copy copy.slots := by
  funext ⟨pid, slot⟩
  by_cases same : pid = child
  · subst same
    have now : ({ s with references }.setTable pid copy).refers (pid, slot) = copy.lookup slot :=
      refers_of_table (update_self ..)
    rw [now]
    by_cases inside : slot < copy.slots
    · simp [copied, inside]
    · rw [Relist.lookup_eq, if_neg (by simp [inside])]
      simp [copied, inside]
  · simp [refers, copied, setTable, same]

/-- The parts of `Exact` that a change of counts which frees nothing leaves alone. -/
theorem closed_of_same {references : Nat → Option Nat} (exact : s.Exact)
    (same : ∀ file, references file = none ↔ s.references file = none) :
    ∀ file, s.closed file =
      if file < s.nextFile ∧ references file = none ∧ s.closes file then 1 else 0 := by
  intro file
  rw [exact.closed file]
  simp only [same file]

theorem takePid_exact (exact : s.Exact) : s.takePid.Exact where
  counted := exact.counted
  freshFile := exact.freshFile
  freshPid other later := exact.freshPid other (Nat.le_of_succ_le later)
  closed := exact.closed

/-- A failed `clone_directory` leaves the references of a child that is not there. -/
theorem abandoned_exact_iff {references : Nat → Option Nat} (exact : s.Exact)
    (unused : s.table child = none) (counted : Counted references (s.copied child table table.slots))
    (same : ∀ file, references file = none ↔ s.references file = none) :
    { s with references }.Exact ↔ ∀ slot, table.lookup slot = none := by
  constructor
  · intro exact' slot
    have counted' := exact'.counted
    have fewer : ∀ place file, s.refers place = some file →
        s.copied child table table.slots place = some file := by
      rintro ⟨other, slot⟩ file held
      have apart : other ≠ child := by
        rintro rfl
        simp [refers, unused] at held
      simpa [copied, apart] using held
    have equal := congrFun (counted.eq_of_le counted' fewer) (child, slot)
    by_cases inside : slot < table.slots
    · simpa [copied, refers, unused, inside] using equal.symm
    · rw [Relist.lookup_eq, if_neg (by simp [inside])]
  · intro closed
    have start : s.copied child table 0 = s.refers := copied_zero unused
    have nothing : s.copied child table table.slots = s.refers := by
      rw [← start]
      funext ⟨other, slot⟩
      simp [copied, closed]
    rw [nothing] at counted
    have closedNow := closed_of_same exact same
    exact ⟨counted, fun file later => (same file).mpr (exact.freshFile file later),
      exact.freshPid, closedNow⟩

theorem ofNat_slot (small : slot < 100) :
    ¬ (BitVec.ofNat 32 slot).toInt < 0 ∧ (BitVec.ofNat 32 slot).toNat = slot := by
  have value : (BitVec.ofNat 32 slot).toNat = slot := by
    rw [BitVec.toNat_ofNat]
    omega
  refine ⟨?_, value⟩
  rw [BitVec.toInt_eq_toNat_cond, value]
  split <;> omega

/-- Freeing the table of a process that still has slots in use loses references. -/
theorem freed_exact_iff (exact : s.Exact) :
    { s with table := update s.table pid none }.Exact ↔
      ∀ slot, s.refers (pid, slot) = none := by
  have gone : ∀ place, ({ s with table := update s.table pid none } : Descriptors).refers
      place = if place.1 = pid then none else s.refers place := by
    rintro ⟨other, slot⟩
    by_cases same : other = pid
    · subst same
      simp [refers]
    · simp [refers, same]
  constructor
  · intro exact' slot
    have fewer : ∀ place file, ({ s with table := update s.table pid none } :
        Descriptors).refers place = some file → s.refers place = some file := by
      intro place file held
      rw [gone] at held
      split at held
      · cases held
      · exact held
    have equal := congrFun (exact.counted.eq_of_le exact'.counted fewer) (pid, slot)
    rw [gone] at equal
    simpa using equal.symm
  · intro empty
    have same : ({ s with table := update s.table pid none } : Descriptors).refers =
        s.refers := by
      funext ⟨other, slot⟩
      rw [gone]
      split
      · rename_i here
        change other = pid at here
        rw [here, empty slot]
      · rfl
    refine ⟨by rw [same]; exact exact.counted, exact.freshFile, fun other later => ?_,
      exact.closed⟩
    by_cases here : other = pid
    · subst here
      exact update_self ..
    · exact (update_of_ne here _ _).trans (exact.freshPid other later)

theorem map_snd_ok {α : Type} {result : Except Stop (α × Descriptors)} :
    (∃ s', (·.2) <$> result = .ok s' ∧ s'.Exact) ↔ ∃ code s', result = .ok (code, s') ∧ s'.Exact := by
  cases result with
  | error stop =>
    refine iff_of_false ?_ ?_
    · rintro ⟨s', ran, -⟩
      cases ran
    · rintro ⟨code, s', ran, -⟩
      cases ran
  | ok pair =>
    constructor
    · rintro ⟨s', ran, exact⟩
      cases ran
      exact ⟨pair.1, pair.2, rfl, exact⟩
    · rintro ⟨code, s', ran, exact⟩
      cases ran
      exact ⟨s', rfl, exact⟩

section
variable {pid : Nat} (exact : s.Exact) (there : s.table pid = some table)
include exact there

theorem setTable_freshPid :
    ∀ other, s.nextPid ≤ other → (s.setTable pid table').table other = none := by
  intro other later
  have apart : other ≠ pid := by
    rintro rfl
    rw [exact.freshPid other later] at there
    cases there
  exact (update_of_ne apart _ _).trans (exact.freshPid other later)

theorem create_exact :
    ∃ slot s', s.vfsCreateFd pid table hasClose = .ok (slot, s') ∧ s'.Exact := by
  obtain ⟨slot, table', added, free, changed⟩ := table.add_ok s.nextFile
  refine ⟨slot, _, by rw [vfsCreateFd, added]; rfl, ?_⟩
  have unused : s.references s.nextFile = none := exact.freshFile _ le_rfl
  refine ⟨?_, fun file later => ?_, setTable_freshPid exact there, fun file => ?_⟩
  · have taken := exact.counted.take (i := (pid, slot)) (o := s.nextFile)
      ((refers_of_table there).trans free)
    rw [unused, ← refers_setTable there changed] at taken
    exact taken
  · change s.nextFile + 1 ≤ file at later
    have apart : file ≠ s.nextFile := by omega
    exact (update_of_ne apart _ _).trans (exact.freshFile file (by omega))
  · have before := exact.closed file
    by_cases new : file = s.nextFile
    · subst new
      simp [setTable, setReferences, before]
    · have order : file < s.nextFile + 1 ↔ file < s.nextFile := by omega
      simp [setTable, setReferences, before, new, order]

theorem dup_exact :
    ∃ code s', s.vfsDup pid table fd = .ok (code, s') ∧ s'.Exact := by
  unfold vfsDup
  cases found : getVfsFd table fd with
  | none => exact ⟨_, s, rfl, exact⟩
  | some file =>
    have held := refers_of_getVfsFd there found
    obtain ⟨n, counted⟩ := exact.counted.live held
    obtain ⟨slot, table', added, free, changed⟩ := table.add_ok file
    refine ⟨slot, (s.setTable pid table').setReferences file (n + 1 + 1), ?_, ?_⟩
    · simp only [counted, added]
      rfl
    · refine ⟨?_, setReferences_freshFile exact counted, setTable_freshPid exact there,
        setReferences_closed exact counted⟩
      have taken := exact.counted.take (i := (pid, slot)) (o := file)
        ((refers_of_table there).trans free)
      rw [counted, ← refers_setTable there changed] at taken
      exact taken

/-- Closing empties the slot of a descriptor that is not negative and changes no
other. -/
theorem close_exact (fd : CInt) :
    ∃ code s' table', s.vfsCloseProcess pid table fd = .ok (code, s') ∧ s'.Exact ∧
      s'.table pid = some table' ∧ table'.slots = table.slots ∧
      s'.refers = if fd.toInt < 0 then s.refers else update s.refers (pid, fd.toNat) none := by
  unfold vfsCloseProcess
  cases found : getVfsFd table fd with
  | none =>
    refine ⟨_, s, table, rfl, exact, there, rfl, ?_⟩
    split
    · rfl
    · rename_i positive
      rw [getVfsFd, if_neg positive, ← refers_of_table there] at found
      rw [← found, update_eq_self]
  | some file =>
    have held := refers_of_getVfsFd there found
    have positive : ¬ fd.toInt < 0 := by
      intro negative
      rw [getVfsFd, if_pos negative] at found
      cases found
    obtain ⟨n, counted⟩ := exact.counted.live held
    have used : table.lookup fd.toNat ≠ none := by
      rw [← refers_of_table there, held]
      simp
    obtain ⟨table', removed, changed, slots⟩ := Relist.remove_ok used
    have dropped := exact.counted.drop held counted
    rw [← refers_setTable there changed] at dropped
    have inside := lt_nextFile exact counted
    by_cases last : n = 0
    · subst last
      refine ⟨0, (s.setTable pid table').release file, table', ?_, ?_, ?_, slots, ?_⟩
      · simp only [counted, removed]
        rfl
      · refine ⟨dropped, fun other later => ?_, setTable_freshPid exact there, fun other => ?_⟩
        · have apart : other ≠ file := by rintro rfl; exact absurd inside (not_lt.mpr later)
          exact (update_of_ne apart _ _).trans (exact.freshFile other later)
        · have before := exact.closed other
          by_cases same : other = file
          · subst same
            rw [counted] at before
            by_cases callback : s.closes other = true <;>
              simp [release, setTable, callback, before, inside]
          · by_cases callback : s.closes file = true <;>
              simp [release, setTable, callback, before, same]
      · exact update_self ..
      · rw [if_neg positive]
        exact refers_setTable there changed
    · refine ⟨0, (s.setTable pid table').setReferences file n, table', ?_, ?_, ?_, slots, ?_⟩
      · simp only [counted, removed, check_true (Nat.succ_pos n)]
        exact if_neg last
      · rw [if_neg last] at dropped
        exact ⟨dropped, setReferences_freshFile exact counted, setTable_freshPid exact there,
          setReferences_closed exact counted⟩
      · exact update_self ..
      · rw [if_neg positive]
        exact refers_setTable there changed

/-- `dup2` of an open descriptor onto a slot of the table. The original is still open
after the first close. -/
theorem dup2_runs (apart : orgFd ≠ newFd)
    (found : table.lookup orgFd.toNat = some file) (inside : newFd.toNat < table.slots) :
    ∃ s', s.vfsDup2 pid table orgFd newFd = .ok (1, s') ∧
      (s'.Exact ↔ (newFd.toInt < 0 → table.lookup newFd.toNat = none)) := by
  obtain ⟨code, s₁, table₁, closed, exact₁, there₁, slots₁, refers₁⟩ :=
    close_exact exact there newFd
  have held : s₁.refers (pid, orgFd.toNat) = some file := by
    rw [refers_after_close apart refers₁, refers_of_table there, found]
  have found₁ : table₁.lookup orgFd.toNat = some file := by rw [← refers_of_table there₁, held]
  obtain ⟨n, counted⟩ := exact₁.counted.live held
  obtain ⟨table₂, stored, changed⟩ :=
    Relist.set_ok file (slots₁.symm ▸ inside : newFd.toNat < table₁.slots)
  have free : s₁.refers (pid, newFd.toNat) = none ↔
      (newFd.toInt < 0 → table.lookup newFd.toNat = none) := by
    rw [refers₁]
    split
    · rename_i negative
      rw [refers_of_table there]
      exact ⟨fun free _ => free, fun free => free negative⟩
    · rename_i positive
      exact iff_of_true (update_self ..) fun negative => absurd negative positive
  refine ⟨(s₁.setTable pid table₂).setReferences file (n + 1 + 1), ?_, ?_⟩
  · rw [vfsDup2, if_neg apart, closed]
    simp only [there₁, found₁, counted, stored, bind, Except.bind,
      check_true (show 1 ≤ n + 1 by omega), check_true (show 2 ≤ n + 1 + 1 by omega)]
  · rw [← free]
    constructor
    · intro exact₂
      have taken := exact₂.counted
      change Counted (update s₁.references file _) (s₁.setTable pid table₂).refers at taken
      rw [refers_setTable there₁ changed] at taken
      exact exact₁.counted.free_of_take counted taken
    · intro empty
      refine ⟨?_, setReferences_freshFile exact₁ counted, setTable_freshPid exact₁ there₁,
        setReferences_closed exact₁ counted⟩
      have taken := exact₁.counted.take (i := (pid, newFd.toNat)) (o := file) empty
      rw [counted, ← refers_setTable there₁ changed] at taken
      exact taken

theorem dup2_stops (apart : orgFd ≠ newFd)
    (bad : table.lookup orgFd.toNat = none ∨ table.slots ≤ newFd.toNat) :
    s.vfsDup2 pid table orgFd newFd = .error .assertion := by
  obtain ⟨code, s₁, table₁, closed, exact₁, there₁, slots₁, refers₁⟩ :=
    close_exact exact there newFd
  rw [vfsDup2, if_neg apart, closed]
  simp only [there₁, bind, Except.bind]
  cases found : table₁.lookup orgFd.toNat with
  | none => rfl
  | some file =>
    have held : s₁.refers (pid, orgFd.toNat) = some file := by rw [refers_of_table there₁, found]
    obtain ⟨n, counted⟩ := exact₁.counted.live held
    have before : table.lookup orgFd.toNat ≠ none := by
      rw [← refers_of_table there, ← refers_after_close apart refers₁, held]
      simp
    have outside := slots₁.symm ▸ bad.resolve_left before
    simp only [counted, check_true (show 1 ≤ n + 1 by omega), Relist.set, if_pos outside]

theorem dup2_exact_iff :
    (∃ code s', s.vfsDup2 pid table orgFd newFd = .ok (code, s') ∧ s'.Exact) ↔
      Harmless pid table (.dup2 orgFd newFd) := by
  by_cases same : orgFd = newFd
  · exact iff_of_true ⟨_, s, if_pos same, exact⟩ (.inl same)
  by_cases bad : table.lookup orgFd.toNat = none ∨ table.slots ≤ newFd.toNat
  · have stops := dup2_stops exact there same bad
    refine iff_of_false ?_ ?_
    · rintro ⟨code, s', ran, -⟩
      rw [stops] at ran
      cases ran
    · rintro (eq | ⟨opened, inside, -⟩)
      · exact same eq
      · rcases bad with closed | outside
        · exact opened closed
        · exact absurd inside (by omega)
  · obtain ⟨opened, inside⟩ := not_or.mp bad
    obtain ⟨file, found⟩ := Option.ne_none_iff_exists'.mp opened
    obtain ⟨s', ran, exactIff⟩ := dup2_runs exact there same found (by omega)
    constructor
    · rintro ⟨code, s'', ran', exact'⟩
      rw [ran] at ran'
      cases ran'
      exact .inr ⟨opened, by omega, exactIff.mp exact'⟩
    · rintro (eq | ⟨-, -, free⟩)
      · exact absurd eq same
      · exact ⟨1, s', ran, exactIff.mpr free⟩

/-- The loop counts one reference for each slot of the copy. -/
theorem copy_loop (unused : s.table child = none) (k : Nat) :
    ∃ references, (List.range k).foldlM (addReference table) s = .ok { s with references } ∧
      Counted references (s.copied child table k) ∧
      ∀ file, references file = none ↔ s.references file = none := by
  have notChild : pid ≠ child := by
    rintro rfl
    rw [unused] at there
    cases there
  induction k with
  | zero => exact ⟨s.references, rfl, by rw [copied_zero unused]; exact exact.counted, by simp⟩
  | succ k ih =>
    obtain ⟨references, ran, counted, same⟩ := ih
    rw [List.range_succ, List.foldlM_append, ran, copied_succ]
    change ∃ references', addReference table { s with references } k >>= pure = _ ∧ _
    have free : s.copied child table k (child, k) = none := by simp [copied]
    cases found : table.lookup k with
    | none =>
      refine ⟨references, ?_, ?_, same⟩
      · simp only [addReference, found]
        rfl
      · rw [← free, update_eq_self]
        exact counted
    | some file =>
      have held : s.copied child table k (pid, k) = some file := by
        simp [copied, notChild, refers_of_table there, found]
      obtain ⟨n, count⟩ := counted.live held
      have taken := counted.take (i := (child, k)) (o := file) free
      refine ⟨_, ?_, taken, fun other => ?_⟩
      · simp only [addReference, found, count]
        rfl
      · by_cases here : other = file
        · subst here
          rw [← same other, count]
          simp
        · rw [update_of_ne here]
          exact same other

theorem fork_exact_iff :
    (∃ child s', s.createProcess table memory = .ok (child, s') ∧ s'.Exact) ↔
      Harmless pid table (.fork memory) := by
  have unused : s.table s.nextPid = none := exact.freshPid _ le_rfl
  have exact₁ := takePid_exact exact
  have unused₁ : s.takePid.table s.nextPid = none := unused
  have there₁ : s.takePid.table pid = some table := there
  obtain ⟨references, ran, counted, same⟩ := copy_loop exact₁ there₁ unused₁ table.slots
  cases memory with
  | noProcess => exact iff_of_true ⟨_, s, rfl, exact⟩ (fun eq => by cases eq)
  | noTable => exact iff_of_true ⟨_, s.takePid, rfl, exact₁⟩ (fun eq => by cases eq)
  | noDirectory =>
    have result : s.createProcess table .noDirectory =
        .ok (none, { s.takePid with references }) := by
      change (List.range table.slots).foldlM (addReference table) s.takePid >>= _ = _
      rw [ran]
      rfl
    have exactIff := abandoned_exact_iff exact₁ unused₁ counted same
    constructor
    · rintro ⟨child, s', ran', exact'⟩ -
      rw [result] at ran'
      cases ran'
      exact exactIff.mp exact'
    · intro harmless
      exact ⟨none, _, result, exactIff.mpr (harmless rfl)⟩
  | enough =>
    refine iff_of_true ⟨some s.nextPid,
      ({ s.takePid with references } : Descriptors).setTable s.nextPid table, ?_, ?_⟩
      (fun eq => by cases eq)
    · change (List.range table.slots).foldlM (addReference table) s.takePid >>= _ = _
      rw [ran]
      rfl
    · have closedNow := closed_of_same exact₁ same
      refine ⟨?_, fun file later => (same file).mpr (exact.freshFile file later),
        fun other later => ?_, closedNow⟩
      · rw [copied_all references]
        exact counted
      · change s.nextPid + 1 ≤ other at later
        have apart : other ≠ s.nextPid := by omega
        exact (update_of_ne apart _ _).trans (exact.freshPid other (by omega))

/-- The loop of `free_process` empties the slots it goes over. -/
theorem close_loop (small : k ≤ 100) :
    ∃ s' table', (List.range k).foldlM (closeSlot pid) s = .ok s' ∧ s'.Exact ∧
      s'.table pid = some table' ∧
      ∀ place, s'.refers place = if place.1 = pid ∧ place.2 < k then none else s.refers place := by
  induction k with
  | zero => exact ⟨s, table, rfl, exact, there, by simp⟩
  | succ k ih =>
    obtain ⟨s₁, table₁, ran, exact₁, there₁, refers₁⟩ := ih (by omega)
    obtain ⟨code, s₂, table₂, closed, exact₂, there₂, -, refers₂⟩ :=
      close_exact exact₁ there₁ (.ofNat 32 k)
    obtain ⟨positive, value⟩ := ofNat_slot (show k < 100 by omega)
    rw [if_neg positive, value] at refers₂
    refine ⟨s₂, table₂, ?_, exact₂, there₂, ?_⟩
    · rw [List.range_succ, List.foldlM_append, ran]
      change closeSlot pid s₁ k >>= pure = _
      simp only [closeSlot, there₁, closed]
      rfl
    · rintro ⟨other, slot⟩
      rw [refers₂]
      by_cases here : (other, slot) = (pid, k)
      · cases here
        simp
      · rw [update_of_ne here, refers₁]
        have order : (other = pid ∧ slot < k + 1) ↔ (other = pid ∧ slot < k) := by
          constructor
          · rintro ⟨rfl, below⟩
            exact ⟨rfl, by
              have apart : slot ≠ k := fun eq => here (by rw [eq])
              omega⟩
          · rintro ⟨rfl, below⟩
            exact ⟨rfl, by omega⟩
        simp only [order]

theorem exit_exact_iff :
    (∃ s', s.exitProcess pid = .ok s' ∧ s'.Exact) ↔ Harmless pid table .exit := by
  unfold exitProcess
  by_cases first : pid = 1
  · subst first
    exact iff_of_false (by rintro ⟨s', ran, -⟩; cases ran) (fun harmless => harmless.1 rfl)
  obtain ⟨s₁, table₁, ran, exact₁, there₁, refers₁⟩ :=
    close_loop exact there le_rfl
  rw [check_true first, ran]
  have left : (∀ slot, s₁.refers (pid, slot) = none) ↔
      ∀ slot, 100 ≤ slot → table.lookup slot = none := by
    constructor
    · intro empty slot big
      have now := empty slot
      rw [refers₁, if_neg (by simp; omega), refers_of_table there] at now
      exact now
    · intro empty slot
      rw [refers₁]
      split
      · rfl
      · rename_i big
        rw [refers_of_table there]
        exact empty slot (by simpa using big)
  constructor
  · rintro ⟨s', ran', exact'⟩
    cases ran'
    exact ⟨first, left.mp ((freed_exact_iff exact₁).mp exact')⟩
  · rintro ⟨-, empty⟩
    exact ⟨_, rfl, (freed_exact_iff exact₁).mpr (left.mpr empty)⟩

end

/-- The call of a live process returns and leaves the counts exact if and only if it
is harmless. -/
theorem step_exact_iff (exact : s.Exact) (there : s.table pid = some table) :
    (∃ s', s.step pid call = .ok s' ∧ s'.Exact) ↔ Harmless pid table call := by
  unfold step
  simp only [there]
  cases call with
  | create hasClose =>
    rw [map_snd_ok]
    obtain ⟨slot, s', ran, exact'⟩ := create_exact exact there
    exact iff_of_true ⟨slot, s', ran, exact'⟩ trivial
  | dup fd =>
    rw [map_snd_ok]
    exact iff_of_true (dup_exact exact there) trivial
  | dup2 orgFd newFd =>
    rw [map_snd_ok]
    exact dup2_exact_iff exact there
  | close fd =>
    rw [map_snd_ok]
    obtain ⟨code, s', table', ran, exact', -⟩ := close_exact exact there fd
    exact iff_of_true ⟨code, s', ran, exact'⟩ trivial
  | fork memory =>
    rw [map_snd_ok]
    exact fork_exact_iff exact there
  | exit => exact exit_exact_iff exact there

/-- Every call of the run, made in the state the calls before it lead to, is
harmless. -/
def AllHarmless (s : Descriptors) : List (Nat × Call) → Prop
  | [] => True
  | (pid, call) :: calls => (∀ table, s.table pid = some table → Harmless pid table call) ∧
      ∀ s', s.step pid call = .ok s' → s'.AllHarmless calls

/-- In every interleaving of harmless calls no assertion fails and the counts are
exact in every state; a single call keeps them exact only if it is harmless. -/
theorem descriptors_stay_exact (exact : s.Exact) :
    (∀ calls, s.AllHarmless calls → ∃ s', s.run calls = .ok s' ∧ s'.Exact) ∧
    ∀ pid table call, s.table pid = some table →
      ((∃ s', s.step pid call = .ok s' ∧ s'.Exact) ↔ Harmless pid table call) := by
  refine ⟨fun calls harmless => ?_, fun pid table call there => step_exact_iff exact there⟩
  induction calls generalizing s with
  | nil => exact ⟨s, rfl, exact⟩
  | cons first calls ih =>
    obtain ⟨pid, call⟩ := first
    obtain ⟨now, later⟩ := harmless
    obtain ⟨s₁, ran, exact₁⟩ : ∃ s', s.step pid call = .ok s' ∧ s'.Exact := by
      cases there : s.table pid with
      | none => exact ⟨s, by simp only [step, there], exact⟩
      | some table => exact (step_exact_iff exact there).mpr (now table there)
    obtain ⟨s₂, ran₂, exact₂⟩ := ih exact₁ (later s₁ ran)
    refine ⟨s₂, ?_, exact₂⟩
    rw [run, List.foldlM_cons]
    rw [ran]
    exact ran₂

/-- A file is opened, gets a second descriptor, is inherited and closed in both
processes. -/
def sharedFile : List (Nat × Call) :=
  [(0, .create true), (0, .dup2 0 1), (0, .fork .enough), (1, .close 0), (0, .close 1)]

theorem descriptors_stay_exact_create :
    (boot fun _ => 0).Exact ∧ (boot fun _ => 0).AllHarmless sharedFile ∧
      ∃ s', (boot fun _ => 0).run sharedFile = .ok s' ∧ s'.Exact := by
  have harmless : (boot fun _ => 0).AllHarmless sharedFile := by
    refine ⟨fun _ _ => trivial, fun s₁ created => ⟨fun table there => Or.inr ?_, fun s₂ _ =>
      ⟨fun _ _ => nofun, fun _ _ => ⟨fun _ _ => trivial, fun _ _ => ⟨fun _ _ => trivial,
        fun _ _ => trivial⟩⟩⟩⟩⟩
    cases created
    cases there
    decide
  exact ⟨boot_exact, harmless, (descriptors_stay_exact boot_exact).1 _ harmless⟩

/-- `dup2` of a descriptor that is not open halts the machine, and a fork that runs
out of memory after copying the table leaves a file object with a count of two and
one slot. -/
theorem descriptors_go_wrong :
    (boot fun _ => 0).run [(0, .dup2 5 6)] = .error .assertion ∧
      ∃ s, (boot fun _ => 0).run [(0, .create true), (0, .fork .noDirectory)] = .ok s ∧
        ¬ s.Exact := by
  refine ⟨rfl, ?_⟩
  let empty : Relist Nat := ⟨fun _ => 0, [0]⟩
  have there : (boot fun _ => 0).table 0 = some empty := rfl
  obtain ⟨s₁, created, exact₁⟩ : ∃ s', (boot fun _ => 0).step 0 (.create true) = .ok s' ∧ s'.Exact :=
    (step_exact_iff boot_exact there).mpr trivial
  cases created
  refine ⟨_, rfl, fun exact₂ => ?_⟩
  have harmless : Harmless 0 (empty.store 0 0) (.fork .noDirectory) :=
    (step_exact_iff exact₁ rfl).mp ⟨_, rfl, exact₂⟩
  exact absurd (harmless rfl 0) (by decide)

end Descriptors

end SbOS.Vfs
