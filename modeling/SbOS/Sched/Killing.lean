import SbOS.Sched.Processes
import SbOS.Sched.SharedMemory

/-! What becomes of memory when a process is ended by another. `exit_process` is given
the process that ends, and `free_process` looks up its descriptors and its memory maps
there; but `munmap`, which is to remove the maps, works on `current_task`. -/
namespace SbOS.Sched
open Kernel Function

namespace Memory

/-- One turn of the loop of `free_process`. -/
def freeSlot (current p : Nat) (w : Memory) (i : Nat) : Except Stop Memory := do
  let (_, w) ← w.vfsCloseProcess p (.ofNat 32 i)
  match w.maps p i with
  | none => return w
  | some m => w.munmap current m.uAddress

/-- `mmu_free_pagedirectory` -/
def mmuFreePagedirectory (w : Memory) (p : Nat) : Memory :=
  { w with
    frames := (List.range (2 ^ 20)).foldl (fun frames i =>
      if (w.pages p i).present = true ∧ (w.pages p i).frame ≠ 0 then
        (frames.writeToFrame ((w.pages p i).frame * 0x1000) false).2
      else frames) w.frames
    pages := Function.update w.pages p fun _ => {} }

/-- `free_process(p)` while `current` is running. -/
def freeProcess (w : Memory) (current p : Nat) : Except Stop Memory := do
  let w ← (List.range 100).foldlM (freeSlot current p) w
  let w := { w with files := { w.files with table := Function.update w.files.table p none } }
  return w.mmuFreePagedirectory p

end Memory

/-- `exit_process(p, status)` while `current` is running, with what `free_process` does. -/
def exitProcess (s : System) (w : Memory) (current p : Nat) (status : Int) :
    Except Stop (System × Memory) := do
  let s ← s.exitProcess current p status
  let w ← w.freeProcess current p
  return (s, w)

namespace Memory

/-- A process uses an object if it has a descriptor or a map of it. -/
def Uses (w : Memory) (p o : Nat) : Prop :=
  (∃ slot file, w.files.refers (p, slot) = some file ∧ w.internalObject file = o) ∨
    ∃ i m, w.maps p i = some m ∧ m.underlyingObject = o

/-- From `w` to `t` nothing of the process `q` has changed, and the maps of `p` are gone. -/
structure OnlyKilled (w t : Memory) (p q : Nat) : Prop where
  maps : t.maps q = w.maps q
  pages : t.pages q = w.pages q
  counts : ∀ o, (∀ x, x ≠ q → ¬ w.Uses x o) →
    (t.objects o).numOfReferences = (w.objects o).numOfReferences
  released : ∀ i < 100, t.maps p i = none

/-- From `w` to `t` only descriptors of `p` have been closed. -/
structure Closes (p : Nat) (w t : Memory) : Prop where
  maps : t.maps = w.maps
  pages : t.pages = w.pages
  internalObject : t.internalObject = w.internalObject
  refers : ∀ slot file, t.files.refers (p, slot) = some file →
    w.files.refers (p, slot) = some file
  objects : ∀ o, (∀ slot file, w.files.refers (p, slot) = some file →
    w.internalObject file ≠ o) → t.objects o = w.objects o

variable {w t u : Memory} {p q : Nat}

theorem Closes.refl (p : Nat) (w : Memory) : Closes p w w :=
  ⟨rfl, rfl, rfl, fun _ _ open' => open', fun _ _ => rfl⟩

theorem Closes.trans (first : Closes p w t) (second : Closes p t u) : Closes p w u where
  maps := second.maps.trans first.maps
  pages := second.pages.trans first.pages
  internalObject := second.internalObject.trans first.internalObject
  refers slot file there := first.refers slot file (second.refers slot file there)
  objects o unused := by
    rw [second.objects o, first.objects o unused]
    intro slot file there
    rw [first.internalObject]
    exact unused slot file (first.refers slot file there)

theorem vfsCloseProcess_closes (returned : w.vfsCloseProcess p fd = .ok (rc, t)) :
    Closes p w t := by
  rcases vfsCloseProcess_ok returned with rfl | ⟨file, count, refers, -, -, effect⟩
  · exact .refl p t
  · rw [effect.rest]
    refine ⟨rfl, rfl, rfl, fun slot other there => ?_, fun o unused => ?_⟩
    · have now : t.files.refers (p, slot) = some other := there
      rw [effect.files.refers, update_apply] at now
      split at now
      · cases now
      · exact now
    · have objects := effect.objects
      split at objects
      · rw [objects.2, update_of_ne (unused _ file refers).symm]
      · exact congrFun objects o

/-- `munmap` touches the maps of the process that runs it. -/
theorem munmap_maps (returned : w.munmap current addr = .ok t) (other : x ≠ current) :
    t.maps x = w.maps x := by
  rcases munmap_ok returned with ⟨rfl, -⟩ | ⟨i, -, m, -, -, -, -, effect⟩
  · rfl
  · rw [effect.maps, update_of_ne other]

theorem freeSlot_maps (returned : freeSlot current p w i = .ok t) (other : x ≠ current) :
    t.maps x = w.maps x := by
  obtain ⟨⟨rc, u⟩, closed, returned⟩ := of_ok_then returned
  have kept := (vfsCloseProcess_closes closed).maps
  dsimp only at returned
  split at returned
  · cases returned
    rw [kept]
  · rw [munmap_maps returned other, kept]

/-- The loop leaves the maps of every process but the one that is running. -/
theorem freeSlots_maps (other : x ≠ current) :
    ∀ (slots : List Nat) (w : Memory), slots.foldlM (freeSlot current p) w = .ok t →
      t.maps x = w.maps x
  | [], w, returned => by
    cases returned
    rfl
  | i :: slots, w, returned => by
    obtain ⟨u, first, returned⟩ := of_ok_then returned
    rw [freeSlots_maps other slots u returned, freeSlot_maps first other]

/-- Without maps the loop only closes descriptors. -/
theorem freeSlots_closes : ∀ (slots : List Nat) (w : Memory),
    (∀ i ∈ slots, w.maps p i = none) → slots.foldlM (freeSlot current p) w = .ok t →
      Closes p w t
  | [], w, _, returned => by
    cases returned
    exact .refl p _
  | i :: slots, w, unmapped, returned => by
    obtain ⟨u, first, returned⟩ := of_ok_then returned
    obtain ⟨⟨rc, v⟩, closed, first⟩ := of_ok_then first
    have closes := vfsCloseProcess_closes closed
    have empty : v.maps p i = none := by
      rw [closes.maps]
      exact unmapped i List.mem_cons_self
    dsimp only at first
    rw [empty] at first
    cases first
    refine closes.trans (freeSlots_closes slots u (fun j inside => ?_) returned)
    rw [closes.maps]
    exact unmapped j (List.mem_cons_of_mem i inside)

/-- What is freed after the loop is in the table of descriptors and the pages of `p`. -/
theorem freeProcess_ok (returned : w.freeProcess current p = .ok t) :
    ∃ u, (List.range 100).foldlM (freeSlot current p) w = .ok u ∧ t.maps = u.maps ∧
      t.objects = u.objects ∧ ∀ x, x ≠ p → t.pages x = u.pages x := by
  obtain ⟨u, looped, returned⟩ := of_ok_then returned
  cases returned
  exact ⟨u, looped, rfl, rfl, fun x other => update_of_ne other _ _⟩

end Memory

open Memory

theorem exitProcess_memory (returned : exitProcess s w current p status = .ok (s', t)) :
    w.freeProcess current p = .ok t := by
  obtain ⟨u, -, returned⟩ := of_ok_then returned
  obtain ⟨v, freed, returned⟩ := of_ok_then returned
  cases returned
  exact freed

/-- Ending `p` while `q` is running touches nothing of `q` and releases the maps of `p`
exactly when `p` has no maps. -/
theorem only_killed_iff_unmapped {s s' : System} {w t : Memory} (apart : p ≠ q)
    (returned : exitProcess s w q p status = .ok (s', t)) :
    w.OnlyKilled t p q ↔ ∀ i < 100, w.maps p i = none := by
  obtain ⟨u, looped, maps, objects, pages⟩ := freeProcess_ok (exitProcess_memory returned)
  constructor
  · intro only i small
    rw [← only.released i small, maps, freeSlots_maps apart _ _ looped]
  · intro unmapped
    have closes := freeSlots_closes _ _
      (fun i inside => unmapped i (List.mem_range.mp inside)) looped
    refine ⟨?_, ?_, fun o unused => ?_, fun i small => ?_⟩
    · rw [maps, closes.maps]
    · rw [pages q apart.symm, closes.pages]
    · rw [objects, closes.objects o]
      intro slot file there object
      exact unused p apart (.inl ⟨slot, file, there, object⟩)
    · rw [maps, closes.maps]
      exact unmapped i small

/-- The process of the kernel, at 1, and two others. -/
def threeProcesses : System where
  descriptors p := if p = 1 then some { pid := 0, referenceCount := 1, parent := 0 }
    else if p = 2 ∨ p = 3 then some { pid := p, referenceCount := 2, parent := 1 } else none
  readyQueue := [1, 2, 3]
  nextPid := 4

/-- The processes at 2 and 3 have each mapped an object of their own, 5 and 6, at the same
address. -/
def sameAddress : Memory where
  pages p i :=
    if p = 2 ∧ i = 0x400 then { present := true, rw := true, user := true, frame := 40 }
    else if p = 3 ∧ i = 0x400 then { present := true, rw := true, user := true, frame := 41 }
    else {}
  frames := { words := [0, 0x300#32] }
  maps p i :=
    if i ≠ 0 then none
    else if p = 2 then some ⟨0x400000, 0x1000, 5⟩
    else if p = 3 then some ⟨0x400000, 0x1000, 6⟩ else none
  objects o :=
    if o = 5 then
      { realPointer := 0x600000, object := [0x28000], size := 0x1000, numOfReferences := 1 }
    else if o = 6 then
      { realPointer := 0x600000, object := [0x29000], size := 0x1000, numOfReferences := 1 }
    else {}
  files := {
    references := fun _ => none
    closes := fun _ => false
    closed := fun _ => 0
    nextFile := 0
    table := fun p => if p = 2 ∨ p = 3 then some ⟨fun _ => 0, [0]⟩ else none
    nextPid := 4 }
  internalObject _ := 0

/-- The same without the map of the first. -/
def killerMapped : Memory :=
  { sameAddress with maps := fun p slot => if p = 2 then none else sameAddress.maps p slot }

theorem only_killed_without_maps :
    killerMapped.maps 3 0 = some ⟨0x400000, 0x1000, 6⟩ ∧
      ∃ s t, exitProcess threeProcesses killerMapped 3 2 0 = .ok (s, t) ∧
        killerMapped.OnlyKilled t 2 3 := by
  obtain ⟨⟨s, t⟩, ended, -⟩ := of_report (show
    (exitProcess threeProcesses killerMapped 3 2 0).toOption.map (fun _ => ()) = some () by
      decide +kernel)
  exact ⟨rfl, s, t, ended, (only_killed_iff_unmapped (by decide) ended).mpr fun _ _ => rfl⟩

/-- What is seen of the two processes. -/
def mapsSeen (w : Memory) : List (Option MemoryMap) × List Bool × List Nat :=
  ([w.maps 2 0, w.maps 3 0], [(w.page 3 0x400000).present],
    [(w.objects 5).numOfReferences, (w.objects 6).numOfReferences])

/-- The map that goes is the one of the process that is running. -/
theorem kill_unmaps_the_killer :
    ∃ s t, exitProcess threeProcesses sameAddress 3 2 0 = .ok (s, t) ∧
      mapsSeen sameAddress =
        ([some ⟨0x400000, 0x1000, 5⟩, some ⟨0x400000, 0x1000, 6⟩], [true], [1, 1]) ∧
      mapsSeen t = ([some ⟨0x400000, 0x1000, 5⟩, none], [false], [1, 0]) ∧
      ¬ sameAddress.OnlyKilled t 2 3 := by
  obtain ⟨⟨s, t⟩, ended, seen⟩ := of_report (show
    (exitProcess threeProcesses sameAddress 3 2 0).toOption.map (fun result => mapsSeen result.2) =
      some ([some ⟨0x400000, 0x1000, 5⟩, none], [false], [1, 0]) by decide +kernel)
  refine ⟨s, t, ended, rfl, seen, fun only => ?_⟩
  have kept : t.maps 2 0 = some ⟨0x400000, 0x1000, 5⟩ :=
    (List.cons.inj (Prod.mk.inj seen).1).1
  rw [only.released 0 (by decide)] at kept
  cases kept

end SbOS.Sched
