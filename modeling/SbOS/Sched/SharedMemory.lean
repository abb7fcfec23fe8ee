import SbOS.Mmu.UserMemory
import SbOS.Vfs.Descriptors

/-! Shared memory objects (`kernel/fs/shm.c`) and how a process lets go of them (`munmap` of
`kernel/sched/scheduler.c`). An object is reached through descriptors and through the memory maps
of processes. Every process has pages of its own; the page tables behind them are left out. -/
namespace SbOS.Sched
open Kernel Function
open SbOS.Mmu (Frames Page alignPage pageSize uintptr)

/-- `vfs_vm_object_t`; `virtual_object` is a copy of `real_pointer`. -/
structure VmObject where
  realPointer : Nat := 0
  /-- The physical addresses of its pages. -/
  object : List Nat := []
  size : Nat := 0
  numOfReferences : Nat := 0
deriving DecidableEq, Repr

structure MemoryMap where
  uAddress : Nat
  length : Nat
  underlyingObject : Nat
deriving DecidableEq, Repr

structure Memory where
  /-- The pages of the processes. -/
  pages : Nat → Nat → Page
  frames : Frames
  maps : Nat → Nat → Option MemoryMap
  objects : Nat → VmObject
  files : Vfs.Descriptors
  /-- `inode->internal_object` of the file objects made by `shm_open`, and zero for others. -/
  internalObject : Nat → Nat

namespace Memory

/-! ## Pages -/

/-- The entry of the page that holds an address. -/
def page (w : Memory) (p address : Nat) : Page := w.pages p (address / 0x1000)

def setPage (w : Memory) (p address : Nat) (value : Page) : Memory :=
  { w with
    pages := Function.update w.pages p (Function.update (w.pages p) (address / 0x1000) value) }

def setObject (w : Memory) (o : Nat) (object : VmObject) : Memory :=
  { w with objects := Function.update w.objects o object }

/-- `mmu_remove_virtual_physical_address_mapping`: it ends at the first page that is not
present. -/
def mmuRemoveVirtualPhysicalAddressMapping (p : Nat) : Memory → (left address : Nat) → Memory
  | w, 0, _ => w
  | w, left + 1, address =>
    if (w.page p address).present then
      mmuRemoveVirtualPhysicalAddressMapping p
        (w.setPage p address { w.page p address with present := false, frame := 0 }) left
        (uintptr (address + pageSize))
    else w

/-! ## Descriptors and maps -/

/-- `shm_close` -/
def shmClose (w : Memory) (file : Nat) : Except Stop Memory := do
  let o := w.internalObject file
  check (0 < (w.objects o).numOfReferences)
  return w.setObject o { w.objects o with
    numOfReferences := (w.objects o).numOfReferences - 1 }

/-- `vfs_close_process`. The last reference to a file object goes with the callback of its
inode. -/
def vfsCloseProcess (w : Memory) (p : Nat) (fd : Vfs.CInt) : Except Stop (Int × Memory) :=
  match w.files.table p with
  | none => .error .dangling
  | some table => do
    let (rc, files) ← w.files.vfsCloseProcess p table fd
    let w' := { w with files }
    match Vfs.getVfsFd table fd with
    | none => return (rc, w')
    | some file =>
      if w.files.references file = some 1 ∧ w.internalObject file ≠ 0 then
        return (rc, ← w'.shmClose file)
      else return (rc, w')

/-- `munmap(addr, length)` while `p` is running; the length is not looked at. -/
def munmap (w : Memory) (p addr : Nat) : Except Stop Memory :=
  match (List.range 100).find? fun i => (w.maps p i).any fun m => m.uAddress = addr with
  | none => .ok w
  | some i =>
    match w.maps p i with
    | none => .ok w
    | some m => do
      check (m.underlyingObject ≠ 0)
      let object := w.objects m.underlyingObject
      check (0 < object.numOfReferences)
      let w := w.setObject m.underlyingObject
        { object with numOfReferences := object.numOfReferences - 1 }
      -- the sanitizer, where the rounding wraps
      check (m.length ≤ alignPage m.length)
      let w := mmuRemoveVirtualPhysicalAddressMapping p w (alignPage m.length / pageSize) m.uAddress
      return { w with maps := Function.update w.maps p (Function.update (w.maps p) i none) }

/-! ## What closing a descriptor does -/

/-- The tables and the file objects after slot `slot` of `p`, which referred to `file`, has been
closed. -/
structure Closed (s s' : Vfs.Descriptors) (p slot file count : Nat) : Prop where
  refers : s'.refers = Function.update s.refers (p, slot) none
  references : s'.references =
    Function.update s.references file (if count - 1 = 0 then none else some (count - 1))
  nextFile : s'.nextFile = s.nextFile
  table : ∀ x, (s'.table x).isSome = (s.table x).isSome

theorem vfsCloseProcess_files
    (there : s.table p = some table) (returned : s.vfsCloseProcess p table fd = .ok (rc, s')) :
    Vfs.getVfsFd table fd = none ∧ s' = s ∨ ∃ file count, Vfs.getVfsFd table fd = some file ∧
      s.refers (p, fd.toNat) = some file ∧ s.references file = some count ∧ 0 < count ∧
      Closed s s' p fd.toNat file count := by
  unfold Vfs.Descriptors.vfsCloseProcess at returned
  split at returned
  · rename_i free
    cases returned
    exact .inl ⟨free, rfl⟩
  · rename_i file found
    split at returned
    · cases returned
    rename_i count counted
    obtain ⟨positive, returned⟩ := of_check_then returned
    obtain ⟨left, removed, returned⟩ := of_ok_then returned
    have refers := Vfs.Descriptors.refers_of_getVfsFd there found
    have used : table.lookup fd.toNat ≠ none := by
      rw [← Vfs.Descriptors.refers_of_table there, refers]
      exact Option.some_ne_none file
    obtain ⟨left', removed', lookup, -⟩ := Relist.remove_ok used
    rw [removed] at removed'
    cases removed'
    have tables : ∀ x, ((s.setTable p left).table x).isSome = (s.table x).isSome := by
      intro x
      have changed : (s.setTable p left).table = update s.table p (some left) := rfl
      rw [changed]
      by_cases same : x = p
      · rw [same, update_self, there]
        rfl
      · rw [update_of_ne same]
    have cleared := Vfs.Descriptors.refers_setTable there lookup
    refine .inr ⟨file, count, found, refers, counted, positive, ?_⟩
    split at returned
    · rename_i last
      cases returned
      refine ⟨cleared, ?_, rfl, tables⟩
      rw [if_pos last]
      rfl
    · rename_i more
      cases returned
      refine ⟨cleared, ?_, rfl, tables⟩
      rw [if_neg more]
      rfl

variable {w t : Memory}

/-- What closing slot `slot` of `p`, which referred to `file`, leaves. An object
loses a reference when its file object goes. -/
structure ClosesFile (w t : Memory) (p slot file count : Nat) : Prop where
  files : Closed w.files t.files p slot file count
  rest : t = { w with files := t.files, objects := t.objects }
  objects : if count = 1 ∧ w.internalObject file ≠ 0 then
      0 < (w.objects (w.internalObject file)).numOfReferences ∧
      t.objects = Function.update w.objects (w.internalObject file)
        { w.objects (w.internalObject file) with
          numOfReferences := (w.objects (w.internalObject file)).numOfReferences - 1 }
    else t.objects = w.objects

theorem vfsCloseProcess_ok (returned : w.vfsCloseProcess p fd = .ok (rc, t)) :
    t = w ∨ ∃ file count, w.files.refers (p, fd.toNat) = some file ∧
      w.files.references file = some count ∧ 0 < count ∧ w.ClosesFile t p fd.toNat file count := by
  unfold vfsCloseProcess at returned
  split at returned
  · cases returned
  rename_i table there
  obtain ⟨⟨rc', files⟩, closed, returned⟩ := of_ok_then returned
  rcases vfsCloseProcess_files there closed with ⟨free, rfl⟩ |
    ⟨file, count, found, refers, counted, positive, effect⟩
  · rw [free] at returned
    cases returned
    exact .inl rfl
  · rw [found] at returned
    dsimp only at returned
    refine .inr ⟨file, count, refers, counted, positive, ?_⟩
    by_cases last : w.files.references file = some 1 ∧ w.internalObject file ≠ 0
    · rw [if_pos last] at returned
      obtain ⟨u, ended, returned⟩ := of_ok_then returned
      cases returned
      obtain ⟨held, ended⟩ := of_check_then ended
      cases ended
      have one : count = 1 := Option.some.inj (counted.symm.trans last.1)
      refine ⟨effect, rfl, ?_⟩
      rw [if_pos ⟨one, last.2⟩]
      exact ⟨held, rfl⟩
    · rw [if_neg last] at returned
      cases returned
      refine ⟨effect, rfl, ?_⟩
      rw [if_neg fun both => last ⟨counted.trans (congrArg some both.1), both.2⟩]

/-! ## What removing a mapping does -/

theorem remove_rest : ∀ (left : Nat) (w : Memory) (address : Nat),
    mmuRemoveVirtualPhysicalAddressMapping p w left address =
      { w with pages := (mmuRemoveVirtualPhysicalAddressMapping p w left address).pages }
  | 0, _, _ => rfl
  | left + 1, w, address => by
    unfold mmuRemoveVirtualPhysicalAddressMapping
    split
    · rw [remove_rest left]
      rfl
    · rfl

/-- What `munmap` leaves when it has removed map `i` of `p`. -/
structure Unmaps (w t : Memory) (p i : Nat) (m : MemoryMap) : Prop where
  rest : t = { w with pages := t.pages, objects := t.objects, maps := t.maps }
  pages : t.pages =
    (mmuRemoveVirtualPhysicalAddressMapping p w (alignPage m.length / pageSize) m.uAddress).pages
  maps : t.maps = Function.update w.maps p (Function.update (w.maps p) i none)
  objects : t.objects = Function.update w.objects m.underlyingObject
    { w.objects m.underlyingObject with
      numOfReferences := (w.objects m.underlyingObject).numOfReferences - 1 }

/-- The pages do not depend on the objects. -/
theorem remove_setObject : ∀ (left : Nat) (w : Memory) (address : Nat),
    (mmuRemoveVirtualPhysicalAddressMapping p (w.setObject o object) left address).pages =
      (mmuRemoveVirtualPhysicalAddressMapping p w left address).pages
  | 0, _, _ => rfl
  | left + 1, w, address => by
    unfold mmuRemoveVirtualPhysicalAddressMapping
    have same : (w.setObject o object).page p address = w.page p address := rfl
    rw [same]
    split
    · exact remove_setObject left (w.setPage p address _) _
    · rfl

theorem munmap_ok (returned : w.munmap p addr = .ok t) :
    t = w ∧ (∀ i < 100, ∀ m, w.maps p i = some m → m.uAddress ≠ addr) ∨
    ∃ i < 100, ∃ m, w.maps p i = some m ∧ m.uAddress = addr ∧ m.underlyingObject ≠ 0 ∧
      0 < (w.objects m.underlyingObject).numOfReferences ∧ w.Unmaps t p i m := by
  unfold munmap at returned
  split at returned
  · rename_i absent
    cases returned
    refine .inl ⟨rfl, fun i small m there => ?_⟩
    have not := List.find?_eq_none.mp absent i (List.mem_range.mpr small)
    rw [there] at not
    simpa using not
  · rename_i i found
    have small := List.mem_range.mp (List.mem_of_find?_eq_some found)
    have chosen := List.find?_some found
    split at returned
    · rename_i absent
      rw [absent] at chosen
      cases chosen
    · rename_i m there
      rw [there] at chosen
      obtain ⟨object, returned⟩ := of_check_then returned
      obtain ⟨held, returned⟩ := of_check_then returned
      cases (of_check_then returned).2
      refine .inr ⟨i, small, m, there, by simpa using chosen, object, held, ?_, ?_, ?_, ?_⟩
      · rw [remove_rest]
        rfl
      · exact remove_setObject _ _ _
      · rw [remove_rest]
        rfl
      · rw [remove_rest]
        rfl

end Memory
end SbOS.Sched
