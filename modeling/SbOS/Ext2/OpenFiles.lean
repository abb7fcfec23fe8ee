import Mathlib.Data.Finset.Dedup
import Mathlib.Order.Interval.Finset.Nat
import SbOS.Lib.LinkedList
import SbOS.Ext2.FileRemoval

/-! The list of open inodes (`files_head`), at the level of its pointers. An
inode that loses its last name while it is open is only marked, and removed by
the close that drops its last reference. The abstract side is one `Standing` for
each inode. -/
namespace SbOS.Ext2
open LinkedList Function List

/-- `files_head`, the entries by address, and which of these addresses `kmalloc`
has given out. -/
structure FileList where
  filesHead : Nat
  entry : Heap OpenFile
  live : Nat → Bool

namespace FileList

def setNext (l : FileList) (ptr value : Nat) : FileList :=
  { l with entry := Function.update l.entry ptr { l.entry ptr with next := value } }

def setPrev (l : FileList) (ptr value : Nat) : FileList :=
  { l with entry := Function.update l.entry ptr { l.entry ptr with prev := value } }

def setFile (l : FileList) (ptr : Nat) (value : OpenFile) : FileList :=
  { l with entry := Function.update l.entry ptr { l.entry ptr with value } }

@[simp] theorem setFile_same (l : FileList) (ptr : Nat) (value : OpenFile) :
    (l.setFile ptr value).entry ptr = { l.entry ptr with value } := Function.update_self ..

theorem setFile_other (l : FileList) (value : OpenFile) (other : b ≠ ptr) :
    (l.setFile ptr value).entry b = l.entry b := update_of_ne other ..

/-- The search loop that all three functions begin with. -/
def find (l : FileList) (inodeNum : Nat) : (fuel ptr : Nat) → Except Stop Nat
  | 0, _ => .error .diverged
  | fuel + 1, ptr =>
    if ptr = 0 then .ok 0
    else if inodeNum = (l.entry ptr).value.inodeNum then .ok ptr
    else l.find inodeNum fuel (l.entry ptr).next

/-- The loop from the head on. A walk over more entries than there are addresses
goes in a circle. -/
def search (l : FileList) (inodeNum : Nat) : Except Stop Nat :=
  l.find inodeNum (2 ^ 32) l.filesHead

/-- The part of `add_open_inode` that makes a new entry at `ptr`. -/
def push (l : FileList) (inodeNum ptr : Nat) : FileList :=
  let next := l.filesHead
  let l := { l with live := Function.update l.live ptr true }
  let l := (l.setNext ptr next).setPrev ptr 0
  let l :=
    if next ≠ 0 then
      let l := l.setPrev ptr (l.entry next).prev
      let l := l.setPrev next ptr
      if (l.entry ptr).prev ≠ 0 then l.setNext (l.entry ptr).prev ptr else l
    else l
  { l.setFile ptr ⟨inodeNum, 0, false⟩ with filesHead := ptr }

/-- `ptr->references++`. -/
def reference (l : FileList) (ptr : Nat) : FileList :=
  let file := (l.entry ptr).value
  l.setFile ptr { file with references := u32 (file.references + 1) }

/-- `add_open_inode`; `memory` is what `kmalloc` returns if it is called. -/
def addOpenInode (l : FileList) (inodeNum memory : Nat) : Except Stop (Nat × FileList) := do
  let ptr ← l.search inodeNum
  if ptr = 0 then
    if memory = 0 then
      return (0, l)
    return (1, (l.push inodeNum memory).reference memory)
  return (1, l.reference ptr)

/-- `remove_possibly_open_inode`: the calls of `remove_inode` it makes. -/
def removePossiblyOpenInode (l : FileList) (inodeNum : Nat) :
    Except Stop (List Nat × FileList) := do
  let ptr ← l.search inodeNum
  if ptr = 0 then
    return ([inodeNum], l)
  return ([], l.setFile ptr { (l.entry ptr).value with isRemoved := true })

/-- The neighbours of an entry point past it. -/
def bypass (l : FileList) (prev next : Nat) : FileList :=
  let l := if prev ≠ 0 then l.setNext prev next else l
  if next ≠ 0 then l.setPrev next prev else l

/-- The part of `deref_open_inode` that takes an entry out of the list. -/
def unlink (l : FileList) (ptr : Nat) : Except Stop FileList :=
  let prev := (l.entry ptr).prev
  let next := (l.entry ptr).next
  let l := l.bypass prev next
  if l.filesHead = ptr then
    if prev ≠ 0 then .error .assertion
    else .ok { l with filesHead := next }
  else .ok l

/-- `deref_open_inode`: its result and the calls of `remove_inode` it makes. -/
def derefOpenInode (l : FileList) (inodeNum : Nat) :
    Except Stop (Nat × List Nat × FileList) := do
  let ptr ← l.search inodeNum
  if ptr = 0 then
    return (1, [], l)
  let file := (l.entry ptr).value
  if file.references = 0 then
    throw .assertion
  let l := l.setFile ptr { file with references := file.references - 1 }
  if file.references - 1 ≠ 0 then
    return (0, [], l)
  let l ← l.unlink ptr
  let removed := if file.isRemoved then [inodeNum] else []
  return (1, removed, { l with live := Function.update l.live ptr false })

/-- Before the first call. -/
def empty : FileList where
  filesHead := 0
  entry _ := ⟨⟨0, 0, false⟩, 0, 0⟩
  live _ := false

end FileList

/-- One call on the list. An `add` comes with the memory that `kmalloc` returns and with the
`vfs_inode_t` that `ext2_open` then makes for the reference, a `deref` with the one it is for. -/
inductive OpenCall where
  | add (inodeNum memory holder : Nat)
  | remove (inodeNum : Nat)
  | deref (inodeNum holder : Nat)

/-- The inodes that the call hands to `remove_inode`, and the list it leaves. -/
def FileList.step (l : FileList) : OpenCall → Except Stop (List Nat × FileList)
  | .add inodeNum memory _ => do
    let (_, l) ← l.addOpenInode inodeNum memory
    return ([], l)
  | .remove inodeNum => l.removePossiblyOpenInode inodeNum
  | .deref inodeNum _ => do
    let (_, removed, l) ← l.derefOpenInode inodeNum
    return (removed, l)

/-- All calls of a run, with what each of them hands to `remove_inode`. -/
def FileList.run : List OpenCall → FileList → Except Stop (List (List Nat) × FileList)
  | [], l => return ([], l)
  | call :: calls, l => do
    let (removed, l) ← l.step call
    let (rest, l) ← FileList.run calls l
    return (removed :: rest, l)

/-! ### What the list stands for -/

/-- How often an inode is open, and whether it is to be removed at the last
close. -/
structure Standing where
  references : Nat := 0
  marked : Bool := false

abbrev Standings := Nat → Standing

/-- An inode without references is removed at once, any other one is marked; the
last close of a marked inode removes it. -/
def Standings.step (s : Standings) : OpenCall → List Nat × Standings
  | .add n _ _ => ([], Function.update s n { s n with references := (s n).references + 1 })
  | .remove n =>
    if (s n).references = 0 then ([n], s)
    else ([], Function.update s n { s n with marked := true })
  | .deref n _ =>
    if (s n).references = 1 then (if (s n).marked then [n] else [], Function.update s n {})
    else ([], Function.update s n { s n with references := (s n).references - 1 })

def Standings.run : List OpenCall → Standings → List (List Nat) × Standings
  | [], s => ([], s)
  | call :: calls, s =>
    let (removed, s) := s.step call
    let (rest, s) := Standings.run calls s
    (removed :: rest, s)

/-- The entries at the addresses form a doubly linked list, with one entry for
each inode that has references; nothing else is allocated. -/
structure Tracks (l : FileList) (addresses : List Nat) (s : Standings) : Prop where
  head : l.filesHead = addresses.headD 0
  linked : Linked l.entry 0 addresses
  nodup : addresses.Nodup
  bounded : ∀ a ∈ addresses, a < 2 ^ 32
  live : ∀ a, l.live a = true ↔ a ∈ addresses
  entries : ∀ a ∈ addresses, ∃ n, (l.entry a).value = ⟨n, (s n).references, (s n).marked⟩ ∧
    0 < (s n).references
  distinct : ∀ a ∈ addresses, ∀ b ∈ addresses,
    (l.entry a).value.inodeNum = (l.entry b).value.inodeNum → a = b
  complete : ∀ n, 0 < (s n).references → ∃ a ∈ addresses, (l.entry a).value.inodeNum = n
  closed : ∀ n, (s n).references = 0 → (s n).marked = false

/-- Distinct addresses are fewer than there are addresses. -/
theorem addresses_lt {addresses : List Nat} (nodup : addresses.Nodup)
    (inside : ∀ a ∈ addresses, a ≠ 0 ∧ a < 2 ^ 32) : addresses.length < 2 ^ 32 := by
  have within : addresses.toFinset ⊆ Finset.Ico 1 (2 ^ 32) := by
    intro a member
    obtain ⟨nonzero, small⟩ := inside a (mem_toFinset.mp member)
    exact Finset.mem_Ico.mpr ⟨by omega, small⟩
  have few := Finset.card_le_card within
  rw [toFinset_card_of_nodup nodup, Nat.card_Ico] at few
  omega

namespace Tracks
variable {l : FileList} {addresses : List Nat} {s : Standings}

theorem find_eq (linked : Linked l.entry before addresses) (enough : addresses.length < fuel) :
    l.find n fuel (addresses.headD 0) =
      .ok ((addresses.find? fun a => n = (l.entry a).value.inodeNum).getD 0) := by
  induction addresses generalizing before fuel with
  | nil =>
    obtain ⟨fuel, rfl⟩ : ∃ k, fuel = k + 1 := ⟨fuel - 1, by simp at enough; omega⟩
    rfl
  | cons a rest ih =>
    obtain ⟨fuel, rfl⟩ : ∃ k, fuel = k + 1 := ⟨fuel - 1, by omega⟩
    obtain ⟨nonzero, _, next, linked⟩ := linked
    rw [headD_cons, FileList.find, if_neg nonzero]
    by_cases here : n = (l.entry a).value.inodeNum
    · rw [if_pos here, find?_cons_of_pos (by simpa using here)]
      rfl
    · rw [if_neg here, next, ih linked (by simpa using enough),
        find?_cons_of_neg (by simpa using here)]

section
variable (tracks : Tracks l addresses s)
include tracks

theorem length_lt : addresses.length < 2 ^ 32 :=
  addresses_lt tracks.nodup fun a member =>
    ⟨tracks.linked.ne_zero a member, tracks.bounded a member⟩

theorem search_open (opened : 0 < (s n).references) :
    ∃ a ∈ addresses, l.search n = .ok a ∧
      (l.entry a).value = ⟨n, (s n).references, (s n).marked⟩ := by
  obtain ⟨b, member, named⟩ := tracks.complete n opened
  have found := find_eq (n := n) tracks.linked tracks.length_lt
  cases first : addresses.find? fun a => n = (l.entry a).value.inodeNum with
  | none =>
    have absent := find?_eq_none.mp first b member
    simp [named] at absent
  | some a =>
    have inside := mem_of_find?_eq_some first
    have here : n = (l.entry a).value.inodeNum := by simpa using find?_some first
    obtain ⟨m, value, _⟩ := tracks.entries a inside
    obtain rfl : n = m := here.trans (by rw [value])
    refine ⟨a, inside, ?_, value⟩
    rw [FileList.search, tracks.head, found, first]
    rfl

theorem search_closed (idle : (s n).references = 0) : l.search n = .ok 0 := by
  have absent : addresses.find? (fun a => n = (l.entry a).value.inodeNum) = none := by
    refine find?_eq_none.mpr fun a member here => ?_
    obtain ⟨m, value, positive⟩ := tracks.entries a member
    have same : n = m := by simpa [value] using here
    rw [← same, idle] at positive
    exact absurd positive (lt_irrefl 0)
  rw [FileList.search, tracks.head, find_eq tracks.linked tracks.length_lt, absent]
  rfl

/-- The entry of an open inode is rewritten. -/
theorem setFile (member : a ∈ addresses)
    (value : (l.entry a).value.inodeNum = n) (t : Standing) (opened : 0 < t.references) :
    Tracks (l.setFile a ⟨n, t.references, t.marked⟩) addresses (update s n t) := by
  have other : ∀ b, b ≠ a → (l.setFile a ⟨n, t.references, t.marked⟩).entry b = l.entry b :=
    fun b different => l.setFile_other _ different
  have here := l.setFile_same a ⟨n, t.references, t.marked⟩
  have named : ∀ b, ((l.setFile a ⟨n, t.references, t.marked⟩).entry b).value.inodeNum =
      (l.entry b).value.inodeNum := by
    intro b
    by_cases same : b = a
    · rw [same, here, value]
    · rw [other b same]
  refine ⟨tracks.head, tracks.linked.congr fun b _ => ?_, tracks.nodup, tracks.bounded, tracks.live,
    fun b inside => ?_, fun b inside c inside' same => ?_, fun m opened' => ?_, fun m idle => ?_⟩
  · by_cases same : b = a
    · rw [same, here]
      exact ⟨rfl, rfl⟩
    · rw [other b same]
      exact ⟨rfl, rfl⟩
  · by_cases same : b = a
    · refine ⟨n, ?_, ?_⟩
      · rw [same, here, update_self]
      · rwa [update_self]
    · obtain ⟨m, value', positive⟩ := tracks.entries b inside
      have different : m ≠ n := by
        rintro rfl
        exact same (tracks.distinct b inside a member (by rw [value', value]))
      refine ⟨m, ?_, ?_⟩
      · rw [other b same, update_of_ne different, value']
      · rwa [update_of_ne different]
  · rw [named, named] at same
    exact tracks.distinct b inside c inside' same
  · by_cases same : m = n
    · exact ⟨a, member, by rw [named, value, same]⟩
    · rw [update_of_ne same] at opened'
      obtain ⟨b, inside, name⟩ := tracks.complete m opened'
      exact ⟨b, inside, by rw [named, name]⟩
  · by_cases same : m = n
    · rw [same, update_self] at idle
      omega
    · rw [update_of_ne same] at idle ⊢
      exact tracks.closed m idle

/-- The heap after a new entry was pushed in front of a well-formed list. -/
theorem push_entry (fresh : memory ∉ addresses) (n b : Nat) :
    (l.push n memory).entry b =
      if b = memory then ⟨⟨n, 0, false⟩, l.filesHead, 0⟩
      else if b = l.filesHead ∧ l.filesHead ≠ 0 then { l.entry b with prev := memory }
      else l.entry b := by
  have notHead : l.filesHead ≠ 0 → l.filesHead ≠ memory := by
    intro nonzero same
    rcases headD_mem_or addresses with zero | member
    · exact nonzero (tracks.head.trans zero)
    · exact fresh (same ▸ tracks.head ▸ member)
  have first : l.filesHead ≠ 0 → (l.entry l.filesHead).prev = 0 := by
    intro nonzero
    rw [tracks.head] at nonzero ⊢
    cases addresses with
    | nil => exact absurd rfl nonzero
    | cons a rest => exact tracks.linked.2.1
  by_cases zero : l.filesHead = 0
  · simp [FileList.push, FileList.setNext, FileList.setPrev, FileList.setFile, zero,
      update_apply]
  · have apart := notHead zero
    by_cases same : b = memory
    · simp [FileList.push, FileList.setNext, FileList.setPrev, FileList.setFile, zero, first zero,
        apart, Ne.symm apart, same]
    · by_cases old : b = l.filesHead <;>
        simp [FileList.push, FileList.setNext, FileList.setPrev, FileList.setFile, zero, first zero,
          apart, Ne.symm apart, same, old]

end

theorem push_live : (l.push n memory).live = update l.live memory true := by
  unfold FileList.push
  dsimp only
  split
  · split <;> rfl
  · rfl

/-- A first reference makes a new entry. -/
theorem open_new (tracks : Tracks l addresses s) (idle : (s n).references = 0) (given : memory ≠ 0)
    (small : memory < 2 ^ 32) (fresh : l.live memory = false) :
    Tracks ((l.push n memory).reference memory) (memory :: addresses)
      (update s n { s n with references := 1 }) := by
  have absent : memory ∉ addresses := fun member => by
    rw [(tracks.live memory).mpr member] at fresh
    cases fresh
  have entry := tracks.push_entry absent n
  have headNe : ∀ b, b ∈ addresses → b ≠ memory := fun b member same => absent (same ▸ member)
  have here : ((l.push n memory).reference memory).entry memory =
      ⟨⟨n, 1, false⟩, l.filesHead, 0⟩ := by
    simp [FileList.reference, FileList.setFile, entry, u32]
  have old : ∀ b ∈ addresses, ((l.push n memory).reference memory).entry b =
      if b = l.filesHead ∧ l.filesHead ≠ 0 then { l.entry b with prev := memory } else l.entry b := by
    intro b member
    simp [FileList.reference, FileList.setFile, headNe b member, entry]
  have oldValue : ∀ b ∈ addresses, (((l.push n memory).reference memory).entry b).value =
      (l.entry b).value := by
    intro b member
    rw [old b member]
    split <;> rfl
  have named : ∀ b ∈ addresses, (l.entry b).value.inodeNum ≠ n := by
    intro b member same
    obtain ⟨m, value, positive⟩ := tracks.entries b member
    rw [value] at same
    change m = n at same
    rw [same, idle] at positive
    exact absurd positive (lt_irrefl 0)
  refine ⟨rfl, tracks.linked.push given ?_ ?_ (fun b first => ?_) (fun b member => ?_)
    (fun b member => ?_), nodup_cons.mpr ⟨absent, tracks.nodup⟩, ?_, fun a => ?_, ?_, ?_,
    fun m opened => ?_, fun m idle' => ?_⟩
  · rw [here, tracks.head]
  · rw [here]
  · have member := mem_of_mem_head? first
    have headed : b = l.filesHead := by
      rw [tracks.head]
      cases addresses with
      | nil => cases first
      | cons c rest => cases first; rfl
    rw [old b member, if_pos ⟨headed, headed ▸ tracks.linked.ne_zero b member⟩]
  · rw [old b member]
    split <;> rfl
  · have inside := mem_of_mem_tail member
    rw [old b inside, if_neg]
    rintro ⟨same, _⟩
    rw [tracks.head] at same
    cases addresses with
    | nil => cases member
    | cons c rest =>
      obtain rfl : b = c := same
      exact (nodup_cons.mp tracks.nodup).1 member
  · rintro a (_ | ⟨_, member⟩)
    · exact small
    · exact tracks.bounded a member
  · change (l.push n memory).live a = true ↔ _
    rw [push_live, update_apply, mem_cons]
    split
    · simp_all
    · rename_i different
      simp [different, tracks.live]
  · rintro a (_ | ⟨_, member⟩)
    · refine ⟨n, ?_, ?_⟩
      · rw [here, update_self, tracks.closed n idle]
      · rw [update_self]
        exact Nat.one_pos
    · obtain ⟨m, value, positive⟩ := tracks.entries a member
      have different : m ≠ n := by
        have := named a member
        rwa [value] at this
      refine ⟨m, ?_, ?_⟩
      · rw [oldValue a member, value, update_of_ne different]
      · rwa [update_of_ne different]
  · rintro a (_ | ⟨_, member⟩) b (_ | ⟨_, member'⟩) same
    · rfl
    · rw [here, oldValue b member'] at same
      exact absurd same.symm (named b member')
    · rw [here, oldValue a member] at same
      exact absurd same (named a member)
    · rw [oldValue a member, oldValue b member'] at same
      exact tracks.distinct a member b member' same
  · by_cases same : m = n
    · exact ⟨memory, mem_cons_self .., by rw [here, same]⟩
    · rw [update_of_ne same] at opened
      obtain ⟨b, inside, name⟩ := tracks.complete m opened
      exact ⟨b, mem_cons_of_mem _ inside, by rw [oldValue b inside, name]⟩
  · by_cases same : m = n
    · rw [same, update_self] at idle'
      cases idle'
    · rw [update_of_ne same] at idle' ⊢
      exact tracks.closed m idle'

theorem bypass_entry (l : FileList) (prev next b : Nat) :
    ((l.bypass prev next).entry b).value = (l.entry b).value ∧
      ((l.bypass prev next).entry b).next =
        (if b = prev ∧ prev ≠ 0 then next else (l.entry b).next) ∧
      ((l.bypass prev next).entry b).prev =
        if b = next ∧ next ≠ 0 then prev else (l.entry b).prev := by
  unfold FileList.bypass
  by_cases first : prev = 0 <;> by_cases last : next = 0 <;>
    simp [FileList.setNext, FileList.setPrev, update_apply, first, last] <;> grind

theorem bypass_rest (l : FileList) (prev next : Nat) :
    (l.bypass prev next).filesHead = l.filesHead ∧ (l.bypass prev next).live = l.live := by
  unfold FileList.bypass
  split <;> split <;> exact ⟨rfl, rfl⟩

theorem unlink_eq (l : FileList) (ptr : Nat)
    (front : l.filesHead = ptr → (l.entry ptr).prev = 0) :
    l.unlink ptr = .ok { l.bypass (l.entry ptr).prev (l.entry ptr).next with
      filesHead := if l.filesHead = ptr then (l.entry ptr).next else l.filesHead } := by
  have head := (bypass_rest l (l.entry ptr).prev (l.entry ptr).next).1
  unfold FileList.unlink
  dsimp only
  rw [head]
  by_cases here : l.filesHead = ptr
  · rw [if_pos here, if_neg (not_not.mpr (front here)), if_pos here]
  · rw [if_neg here, if_neg here, ← head]

/-- The last reference takes the entry out of the list. -/
theorem close_last (tracks : Tracks l (front ++ a :: rest) s)
    (value : (l.entry a).value.inodeNum = n) (file : OpenFile) :
    ∃ l', (l.setFile a file).unlink a = .ok l' ∧
      Tracks { l' with live := update l'.live a false } (front ++ rest)
        (update s n {}) := by
  have member : a ∈ front ++ a :: rest := by simp
  obtain ⟨prev, next⟩ := tracks.linked.at
  have apart : ∀ b ∈ front ++ rest, b ≠ a := by
    rintro b inside rfl
    exact (nodup_cons.mp (nodup_middle.mp tracks.nodup)).1 inside
  have old : ∀ b ∈ front ++ rest, b ∈ front ++ a :: rest := by
    intro b inside
    rcases mem_append.mp inside with left | right
    · exact mem_append_left _ left
    · exact mem_append_right _ (mem_cons_of_mem _ right)
  have here : ((l.setFile a file).entry a).prev = front.getLastD 0 ∧
      ((l.setFile a file).entry a).next = rest.headD 0 := by
    rw [l.setFile_same]
    exact ⟨prev, next⟩
  have zero : (0 : Nat) ∉ front ++ a :: rest := fun bad => tracks.linked.ne_zero 0 bad rfl
  have headed : l.filesHead = a → front = [] := by
    intro same
    cases front with
    | nil => rfl
    | cons f front =>
      rw [tracks.head] at same
      obtain rfl : f = a := same
      exact absurd rfl (apart f (by simp))
  refine ⟨_, unlink_eq _ a fun same => by rw [here.1, headed same]; rfl, ?_⟩
  rw [here.1, here.2]
  have named : ∀ b ∈ front ++ rest, (l.entry b).value.inodeNum ≠ n := fun b inside same =>
    apart b inside (tracks.distinct b (old b inside) a member (same.trans value.symm))
  have nonzero : ∀ b ∈ front ++ rest, b ≠ 0 := fun b inside bad => zero (bad ▸ old b inside)
  have after : ∀ b ∈ front ++ rest, _ := fun b inside => by
    have all := bypass_entry (l.setFile a file) (front.getLastD 0) (rest.headD 0) b
    rw [l.setFile_other file (apart b inside)] at all
    exact all
  refine ⟨?_, tracks.linked.unlink (nodup_cons.mpr ⟨zero, tracks.nodup⟩) (fun b inside => ?_)
    (fun b inside => ?_), (nodup_cons.mp (nodup_middle.mp tracks.nodup)).2,
    fun b inside => tracks.bounded b (old b inside), fun b => ?_, fun b inside => ?_,
    fun b inside c inside' same => ?_, fun m opened => ?_, fun m idle => ?_⟩
  · cases front with
    | nil => exact if_pos tracks.head
    | cons f front =>
      have different : l.filesHead ≠ a := fun same => nomatch headed same
      exact (if_neg different).trans tracks.head
  · rw [(after b inside).2.1]
    have := nonzero b inside
    by_cases last : b = front.getLastD 0
    · rw [if_pos ⟨last, last ▸ this⟩, if_pos last]
    · rw [if_neg fun both => last both.1, if_neg last]
  · rw [(after b inside).2.2]
    have := nonzero b inside
    by_cases first : b = rest.headD 0
    · rw [if_pos ⟨first, first ▸ this⟩, if_pos first]
    · rw [if_neg fun both => first both.1, if_neg first]
  · change update (FileList.bypass (l.setFile a file) _ _).live a false b = true ↔ _
    rw [(bypass_rest (l.setFile a file) _ _).2, update_apply]
    by_cases same : b = a
    · simp only [same, if_true, Bool.false_eq_true, false_iff]
      exact fun inside => apart a inside rfl
    · rw [if_neg same]
      exact (tracks.live b).trans (by simp [same])
  · obtain ⟨m, value', positive⟩ := tracks.entries b (old b inside)
    have different : m ≠ n := by
      have := named b inside
      rwa [value'] at this
    refine ⟨m, ?_, ?_⟩
    · rw [(after b inside).1, update_of_ne different, value']
    · rwa [update_of_ne different]
  · rw [(after b inside).1, (after c inside').1] at same
    exact tracks.distinct b (old b inside) c (old c inside') same
  · have different : m ≠ n := by
      rintro rfl
      rw [update_self] at opened
      exact absurd opened (lt_irrefl 0)
    rw [update_of_ne different] at opened
    obtain ⟨b, inside, name⟩ := tracks.complete m opened
    have kept : b ∈ front ++ rest := by
      have other : b ≠ a := by
        rintro rfl
        exact different (name.symm.trans value)
      simpa [other] using inside
    exact ⟨b, kept, by rw [(after b kept).1, name]⟩
  · by_cases same : m = n
    · rw [same, update_self]
    · rw [update_of_ne same] at idle ⊢
      exact tracks.closed m idle

end Tracks

open FileList

/-- The driver's `remove_possibly_open_inode` on the entries as a plain list does
what the pointers say. -/
theorem Tracks.driver (tracks : Tracks l addresses s) {v : Volume}
    (same : v.globals.filesHead = addresses.map fun a => (l.entry a).value) (n : Nat) :
    ∃ removed l', l.removePossiblyOpenInode n = .ok (removed, l') ∧
      v.run (removePossiblyOpenInode n) = if removed = [n] then v.run (removeInode n)
        else .ok ((), { v with globals := { v.globals with
          filesHead := addresses.map fun a => (l'.entry a).value } }) := by
  rcases Nat.eq_zero_or_pos (s n).references with idle | opened
  · refine ⟨[n], l, ?_, ?_⟩
    · simp only [FileList.removePossiblyOpenInode, tracks.search_closed idle]
      simp [bind, Except.bind, pure, Except.pure]
    · rw [if_pos rfl]
      refine run_removePossiblyOpenInode fun f member named => ?_
      rw [same] at member
      obtain ⟨a, inside, rfl⟩ := mem_map.mp member
      obtain ⟨m, value, positive⟩ := tracks.entries a inside
      rw [value] at named
      obtain rfl : m = n := named
      omega
  · obtain ⟨a, member, found, value⟩ := tracks.search_open opened
    have nonzero := tracks.linked.ne_zero a member
    refine ⟨[], l.setFile a ⟨n, (s n).references, true⟩, ?_, ?_⟩
    · simp only [FileList.removePossiblyOpenInode, found]
      simp [bind, Except.bind, pure, Except.pure, nonzero, value]
    · have present : v.globals.filesHead.any (·.inodeNum = n) = true := by
        rw [same]
        exact any_eq_true.mpr ⟨_, mem_map_of_mem member, by simp [value]⟩
      have marked : v.globals.filesHead.map (fun f =>
          if f.inodeNum = n then { f with isRemoved := true } else f) =
            addresses.map fun b =>
              ((l.setFile a ⟨n, (s n).references, true⟩).entry b).value := by
        rw [same, map_map]
        refine map_congr_left fun b inside => ?_
        by_cases here : b = a
        · rw [here, l.setFile_same]
          simp [value]
        · have other : (l.entry b).value.inodeNum ≠ n := fun named =>
            here (tracks.distinct b inside a member (by rw [named, value]))
          rw [l.setFile_other _ here]
          simp [other]
      unfold removePossiblyOpenInode
      rw [Volume.run_getGlobals, if_pos present, marked, if_neg (by simp)]
      exact Volume.run_setGlobals_last ⟨rfl, id⟩

/-! ### Runs -/

/-- The addresses of the objects that hold the references of each inode. -/
abbrev Holders := Nat → List Nat

def Holders.step (h : Holders) : OpenCall → Holders
  | .add n _ holder => Function.update h n (holder :: h n)
  | .remove _ => h
  | .deref n holder => Function.update h n ((h n).erase holder)

/-- Memory that `kmalloc` can return: there is no entry and no holder at it. -/
structure Unused (l : FileList) (h : Holders) (a : Nat) : Prop where
  given : a ≠ 0
  small : a < 2 ^ 32
  fresh : l.live a = false
  apart : ∀ n, a ∉ h n

/-- A close belongs to an open, and `kmalloc` returns memory that is not in use. -/
def Permitted (l : FileList) (h : Holders) : OpenCall → Prop
  | .add n memory holder => Unused l h holder ∧
    (h n = [] → Unused l h memory ∧ memory ≠ holder)
  | .remove _ => True
  | .deref n holder => holder ∈ h n

/-- Every reference has a holder of its own in memory, apart from the entries. -/
structure Backed (l : FileList) (h : Holders) (s : Standings) : Prop where
  counted : ∀ n, (s n).references = (h n).length
  nodup : ∀ n, (h n).Nodup
  inside : ∀ n, ∀ a ∈ h n, (a ≠ 0 ∧ a < 2 ^ 32) ∧ l.live a = false

/-- The holders and the entry of an inode take different addresses, so that its references can be
counted in 32 bits. -/
theorem Backed.few (backed : Backed l h s) (tracks : Tracks l addresses s) (n : Nat) :
    (s n).references + 1 < 2 ^ 32 := by
  rcases Nat.eq_zero_or_pos (s n).references with idle | opened
  · omega
  · obtain ⟨a, member, -⟩ := tracks.complete n opened
    have live := (tracks.live a).mpr member
    have apart : a ∉ h n := fun held =>
      Bool.false_ne_true ((backed.inside n a held).2.symm.trans live)
    rw [backed.counted n]
    refine addresses_lt (nodup_cons.mpr ⟨apart, backed.nodup n⟩) (forall_mem_cons.mpr
      ⟨⟨tracks.linked.ne_zero a member, tracks.bounded a member⟩, fun b held => ?_⟩)
    exact (backed.inside n b held).1

theorem Backed.idle_iff (backed : Backed l h s) (n : Nat) :
    (s n).references = 0 ↔ h n = [] := by
  rw [backed.counted n, length_eq_zero_iff]

/-- The new holder is apart from all entries, and so is the new entry from all holders. -/
theorem Backed.step (backed : Backed l h s) (permitted : Permitted l h call)
    (entries : ∀ a, l'.live a = true → l.live a = true ∨
      ∃ n holder, call = .add n a holder ∧ h n = []) :
    Backed l' (h.step call) (s.step call).2 := by
  have still {a : Nat} (dead : l.live a = false)
      (other : ∀ n holder, call = .add n a holder → h n = [] → False) : l'.live a = false := by
    by_contra alive
    rcases entries a (Bool.not_eq_false _ ▸ alive) with before | ⟨n, holder, isAdd, idle⟩
    · exact Bool.false_ne_true (dead.symm.trans before)
    · exact other n holder isAdd idle
  cases call with
  | add n memory holder =>
    obtain ⟨unused, allocates⟩ := permitted
    have kept : ∀ m, ∀ a ∈ h m, (a ≠ 0 ∧ a < 2 ^ 32) ∧ l'.live a = false := fun m a held =>
      ⟨(backed.inside m a held).1, still (backed.inside m a held).2 fun _ _ isAdd idle => by
        cases isAdd
        exact (allocates idle).1.apart m held⟩
    have new : l'.live holder = false := still unused.fresh fun _ _ isAdd idle => by
      cases isAdd
      exact (allocates idle).2 rfl
    refine ⟨fun m => ?_, fun m => ?_, fun m => ?_⟩ <;> by_cases same : m = n
    · subst same
      simp [Standings.step, Holders.step, backed.counted m]
    · simpa [Standings.step, Holders.step, same] using backed.counted m
    · subst same
      simpa [Holders.step] using ⟨unused.apart m, backed.nodup m⟩
    · simpa [Holders.step, same] using backed.nodup m
    · subst same
      simp only [Holders.step, update_self, forall_mem_cons]
      exact ⟨⟨⟨unused.given, unused.small⟩, new⟩, kept m⟩
    · simpa only [Holders.step, update_of_ne same] using kept m
  | remove n =>
    refine ⟨fun m => ?_, backed.nodup, fun m a held =>
      ⟨(backed.inside m a held).1, still (backed.inside m a held).2 nofun⟩⟩
    refine Eq.trans ?_ (backed.counted m)
    by_cases idle : (s n).references = 0
    · simp [Standings.step, idle]
    · by_cases same : m = n
      · subst same
        simp [Standings.step, idle]
      · simp [Standings.step, idle, same]
  | deref n holder =>
    have held : holder ∈ h n := permitted
    have shorter := length_erase_of_mem held
    refine ⟨fun m => ?_, fun m => ?_, fun m a => ?_⟩ <;> by_cases same : m = n
    · subst same
      rw [← backed.counted m] at shorter
      by_cases last : (s m).references = 1
      · simp [Standings.step, Holders.step, last, shorter]
      · simp [Standings.step, Holders.step, last, shorter]
    · by_cases last : (s n).references = 1 <;>
        simpa [Standings.step, Holders.step, last, same] using backed.counted m
    · subst same
      simpa only [Holders.step, update_self] using (backed.nodup m).erase holder
    · simpa only [Holders.step, update_of_ne same] using backed.nodup m
    · subst same
      simp only [Holders.step, update_self]
      intro still_held
      have before := backed.inside m a (mem_of_mem_erase still_held)
      exact ⟨before.1, still before.2 nofun⟩
    · simp only [Holders.step, update_of_ne same]
      intro before
      exact ⟨(backed.inside m a before).1, still (backed.inside m a before).2 nofun⟩

theorem Tracks.step (tracks : Tracks l addresses s) (backed : Backed l h s)
    (permitted : Permitted l h call) :
    ∃ l' addresses', l.step call = .ok ((s.step call).1, l') ∧
      Tracks l' addresses' (s.step call).2 ∧
      ∀ a ∈ addresses', a ∈ addresses ∨ ∃ n holder, call = .add n a holder ∧ h n = [] := by
  cases call with
  | add n memory holder =>
    rcases Nat.eq_zero_or_pos (s n).references with idle | opened
    · have alone := (backed.idle_iff n).mp idle
      obtain ⟨unused, -⟩ := permitted.2 alone
      refine ⟨(l.push n memory).reference memory, memory :: addresses, ?_, ?_, ?_⟩
      · simp only [FileList.step, FileList.addOpenInode, tracks.search_closed idle]
        simp [bind, Except.bind, pure, Except.pure, unused.given, Standings.step]
      · have after := tracks.open_new idle unused.given unused.small unused.fresh
        simp only [Standings.step, idle]
        exact after
      · exact forall_mem_cons.mpr ⟨.inr ⟨n, holder, rfl, alone⟩, fun _ => .inl⟩
    · obtain ⟨a, member, found, value⟩ := tracks.search_open opened
      have nonzero := tracks.linked.ne_zero a member
      have count : u32 ((s n).references + 1) = (s n).references + 1 :=
        Nat.mod_eq_of_lt (backed.few tracks n)
      refine ⟨l.reference a, addresses, ?_, ?_, fun _ => .inl⟩
      · simp only [FileList.step, FileList.addOpenInode, found]
        simp [bind, Except.bind, pure, Except.pure, nonzero, Standings.step]
      · rw [reference, value, count]
        exact tracks.setFile member (by rw [value]) ⟨(s n).references + 1, (s n).marked⟩ (by simp)
  | remove n =>
    rcases Nat.eq_zero_or_pos (s n).references with idle | opened
    · refine ⟨l, addresses, ?_, ?_, fun _ => .inl⟩
      · simp only [FileList.step, FileList.removePossiblyOpenInode, tracks.search_closed idle]
        simp [bind, Except.bind, pure, Except.pure, Standings.step, idle]
      · simpa [Standings.step, idle] using tracks
    · obtain ⟨a, member, found, value⟩ := tracks.search_open opened
      have nonzero := tracks.linked.ne_zero a member
      have positive : (s n).references ≠ 0 := Nat.pos_iff_ne_zero.mp opened
      refine ⟨l.setFile a ⟨n, (s n).references, true⟩, addresses, ?_, ?_, fun _ => .inl⟩
      · simp only [FileList.step, FileList.removePossiblyOpenInode, found]
        simp [bind, Except.bind, pure, Except.pure, nonzero, Standings.step, positive, value]
      · simp only [Standings.step, if_neg positive]
        exact tracks.setFile member (by rw [value]) ⟨(s n).references, true⟩ opened
  | deref n holder =>
    have positive : (s n).references ≠ 0 := fun idle =>
      ne_nil_of_mem (show holder ∈ h n from permitted) ((backed.idle_iff n).mp idle)
    obtain ⟨a, member, found, value⟩ := tracks.search_open (Nat.pos_iff_ne_zero.mpr positive)
    have nonzero := tracks.linked.ne_zero a member
    by_cases last : (s n).references = 1
    · obtain ⟨front, rest, rfl⟩ := append_of_mem member
      obtain ⟨l', unlinked, after⟩ := tracks.close_last (show (l.entry a).value.inodeNum = n by
        rw [value]) ⟨n, 0, (s n).marked⟩
      refine ⟨{ l' with live := update l'.live a false }, front ++ rest, ?_, ?_, ?_⟩
      · simp only [FileList.step, FileList.derefOpenInode, found]
        simp [bind, Except.bind, pure, Except.pure, nonzero, Standings.step, value, last, unlinked]
      · simp only [Standings.step, if_pos last]
        exact after
      · intro b left
        rw [mem_append, mem_cons]
        exact .inl ((mem_append.mp left).imp_right .inr)
    · refine ⟨l.setFile a ⟨n, (s n).references - 1, (s n).marked⟩, addresses, ?_, ?_,
        fun _ => .inl⟩
      · simp only [FileList.step, FileList.derefOpenInode, found]
        have more : (s n).references - 1 ≠ 0 := by omega
        simp [bind, Except.bind, pure, Except.pure, nonzero, Standings.step, value, last, positive,
          more]
      · simp only [Standings.step, if_neg last]
        exact tracks.setFile member (by rw [value]) ⟨(s n).references - 1, (s n).marked⟩
          (show 0 < (s n).references - 1 by omega)

theorem Backed.next (backed : Backed l h s) (tracks : Tracks l addresses s)
    (permitted : Permitted l h call) (tracks' : Tracks l' addresses' (s.step call).2)
    (grown : ∀ a ∈ addresses', a ∈ addresses ∨ ∃ n holder, call = .add n a holder ∧ h n = []) :
    Backed l' (h.step call) (s.step call).2 :=
  backed.step permitted fun a alive =>
    (grown a ((tracks'.live a).mp alive)).imp_left (tracks.live a).mpr

/-- Every call of the run is permitted in the state it meets. -/
def AllPermitted : List OpenCall → FileList → Holders → Prop
  | [], _, _ => True
  | call :: calls, l, h => Permitted l h call ∧
    ∀ removed l', l.step call = .ok (removed, l') → AllPermitted calls l' (h.step call)

theorem Tracks.run (tracks : Tracks l addresses s) (backed : Backed l h s)
    (permitted : AllPermitted calls l h) :
    ∃ l' addresses', FileList.run calls l = .ok ((Standings.run calls s).1, l') ∧
      Tracks l' addresses' (Standings.run calls s).2 := by
  induction calls generalizing l addresses s h with
  | nil => exact ⟨l, addresses, rfl, tracks⟩
  | cons call calls ih =>
    obtain ⟨first, rest⟩ := permitted
    obtain ⟨l₁, addresses₁, ran, tracks₁, grown⟩ := tracks.step backed first
    obtain ⟨l₂, addresses₂, ran', tracks₂⟩ :=
      ih tracks₁ (backed.next tracks first tracks₁ grown) (rest _ _ ran)
    refine ⟨l₂, addresses₂, ?_, tracks₂⟩
    rw [FileList.run, ran]
    change (FileList.run calls l₁ >>= _) = _
    rw [ran']
    rfl

/-- The calls that open an inode, and those that close it. -/
def opens (calls : List OpenCall) (n : Nat) : Nat :=
  calls.countP fun
    | .add m _ _ => m = n
    | _ => false

def closes (calls : List OpenCall) (n : Nat) : Nat :=
  calls.countP fun
    | .deref m _ => m = n
    | _ => false

theorem Standings.step_references (backed : Backed l h s) (permitted : Permitted l h call)
    (n : Nat) :
    ((Standings.step s call).2 n).references + closes [call] n =
      (s n).references + opens [call] n := by
  cases call with
  | add m memory holder =>
    by_cases same : n = m
    · subst same
      simp [Standings.step, opens, closes]
    · simp [Standings.step, opens, closes, same, Ne.symm same]
  | remove m =>
    by_cases idle : (s m).references = 0
    · simp [Standings.step, opens, closes, idle]
    · by_cases same : n = m
      · subst same
        simp [Standings.step, opens, closes, idle]
      · simp [Standings.step, opens, closes, idle, same]
  | deref m holder =>
    have positive : (s m).references ≠ 0 := fun idle =>
      ne_nil_of_mem (show holder ∈ h m from permitted) ((backed.idle_iff m).mp idle)
    by_cases last : (s m).references = 1 <;> by_cases same : n = m
    · subst same
      simp [Standings.step, opens, closes, last]
    · simp [Standings.step, opens, closes, last, same, Ne.symm same]
    · subst same
      simp [Standings.step, opens, closes, last]
      omega
    · simp [Standings.step, opens, closes, last, same, Ne.symm same]

/-- References are opens minus closes. -/
theorem Tracks.balance (tracks : Tracks l addresses s) (backed : Backed l h s)
    (permitted : AllPermitted calls l h) (n : Nat) :
    ((Standings.run calls s).2 n).references + closes calls n =
      (s n).references + opens calls n := by
  induction calls generalizing l addresses s h with
  | nil => rfl
  | cons call calls ih =>
    obtain ⟨first, rest⟩ := permitted
    obtain ⟨l₁, addresses₁, ran, tracks₁, grown⟩ := tracks.step backed first
    have after := ih tracks₁ (backed.next tracks first tracks₁ grown) (rest _ _ ran)
    have here := Standings.step_references backed first n
    have split : opens (call :: calls) n = opens [call] n + opens calls n ∧
        closes (call :: calls) n = closes [call] n + closes calls n :=
      ⟨(countP_append : countP _ ([call] ++ calls) = _),
        (countP_append : countP _ ([call] ++ calls) = _)⟩
    change ((Standings.run calls (s.step call).2).2 n).references + _ = _
    omega

theorem Tracks.empty : Tracks .empty [] fun _ => {} where
  head := rfl
  linked := trivial
  nodup := nodup_nil
  bounded := by simp
  live := by simp [FileList.empty]
  entries := by simp
  distinct := by simp
  complete n opened := absurd opened (lt_irrefl 0)
  closed _ _ := rfl

theorem Backed.empty : Backed .empty (fun _ => []) fun _ => {} :=
  ⟨fun _ => rfl, fun _ => nodup_nil, fun _ _ held => absurd held not_mem_nil⟩

/-- Deletion is deferred to the last close: every run of permitted calls returns,
hands to `remove_inode` what the standing of each inode says, and leaves a doubly
linked list with one entry for each open inode, counted by opens and closes. -/
theorem open_files_follow_standings (calls : List OpenCall)
    (permitted : AllPermitted calls .empty fun _ => []) :
    ∃ l addresses, FileList.run calls .empty = .ok ((Standings.run calls fun _ => {}).1, l) ∧
      Tracks l addresses (Standings.run calls fun _ => {}).2 ∧
      ∀ n, ((Standings.run calls fun _ => {}).2 n).references = opens calls n - closes calls n := by
  obtain ⟨l, addresses, ran, tracks⟩ := Tracks.empty.run .empty permitted
  refine ⟨l, addresses, ran, tracks, fun n => ?_⟩
  have balance := Tracks.empty.balance .empty permitted n
  change _ = 0 + opens calls n at balance
  omega

/-- File 11 loses its name while it is open and is removed at its close. -/
theorem open_files_follow_standings_one :
    ∃ l, FileList.run [.add 11 8 16, .remove 11, .deref 11 16] .empty =
      .ok ([[], [], [11]], l) := by
  obtain ⟨l, _, ran, _⟩ := open_files_follow_standings [.add 11 8 16, .remove 11, .deref 11 16] (by
    have unused {a : Nat} (given : a ≠ 0) (small : a < 2 ^ 32) : Unused .empty (fun _ => []) a :=
      ⟨given, small, rfl, fun _ => not_mem_nil⟩
    refine ⟨⟨unused (by decide) (by decide), fun _ => ⟨unused (by decide) (by decide), by decide⟩⟩,
      fun removed l ran => ⟨trivial, fun removed' l' ran' => ⟨?_, fun _ _ _ => trivial⟩⟩⟩
    simp [Permitted, Holders.step])
  exact ⟨l, ran⟩

end SbOS.Ext2
