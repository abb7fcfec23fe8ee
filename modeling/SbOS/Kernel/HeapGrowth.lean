import SbOS.Kernel.HeapSteps

/-! The heap gets memory from `ksbrk`: the first region, further regions, and a region
that continues the last one. -/
namespace SbOS.Kmalloc
open Bytes List
open Kernel (wrap32 sub32 sub32_eq)

/-- The next call of `ksbrk` returns a region of `size` bytes at `p`. -/
structure Granted (h : Kheap) (size p : Nat) : Prop where
  answer : h.brk 0 = some p
  fresh : FreshRegion h.regions p size

/-- The state after a call of `ksbrk` that failed. -/
def Kheap.refused (h : Kheap) : Kheap := { h with brk := fun i => h.brk (i + 1) }

/-- The state after a call of `ksbrk` that returned `p`. -/
def Kheap.extended (h : Kheap) (p size : Nat) : Kheap :=
  { h with
    brk := fun i => h.brk (i + 1)
    regions := ⟨p, size⟩ :: h.regions
    memory := splice h.memory p (h.random 0) size
    random := fun i => h.random (i + 1) }

/-- Between the two states `ksbrk` has returned one region. -/
structure Obtained (h h' : Kheap) (p size : Nat) : Prop where
  brk : h'.brk = fun i => h.brk (i + 1)
  region_list : h'.regions = ⟨p, size⟩ :: h.regions

/-- The block that a whole region makes. -/
def regionBlock (p size : Nat) : Block := ⟨p, size - headerSize, true, true, p + size⟩

section Ksbrk
variable {h : Kheap} {chain pre post : List Block} {b f : Block} {p size : Nat}

theorem ksbrk_cases (h : Kheap) (size : Nat) :
    (∃ p, Granted h size p ∧ ksbrk size h = .ok p (h.extended p size)) ∨
    ((∀ p, ¬ Granted h size p) ∧ ksbrk size h = .ok 0 h.refused) := by
  unfold ksbrk
  cases answer : h.brk 0 with
  | none =>
    refine .inr ⟨fun p granted => ?_, rfl⟩
    cases answer.symm.trans granted.answer
  | some p =>
    by_cases fresh : FreshRegion h.regions p size
    · exact .inl ⟨p, ⟨answer, fresh⟩, if_pos fresh⟩
    · refine .inr ⟨fun q granted => ?_, if_neg fresh⟩
      cases answer.symm.trans granted.answer
      exact fresh granted.fresh

theorem ksbrk_granted (granted : Granted h size p) :
    ksbrk size h = .ok p (h.extended p size) := by
  rcases ksbrk_cases h size with ⟨q, granted', ran⟩ | ⟨nothing, -⟩
  · cases granted.answer.symm.trans granted'.answer
    exact ran
  · exact absurd granted (nothing p)

theorem ksbrk_refused (nothing : ∀ p, ¬ Granted h size p) : ksbrk size h = .ok 0 h.refused := by
  rcases ksbrk_cases h size with ⟨p, granted, -⟩ | ⟨-, ran⟩
  · exact absurd granted (nothing p)
  · exact ran

/-- Memory in use is no part of a fresh region. -/
theorem FreshRegion.foreign (fresh : FreshRegion regions p size)
    (mapped : ∃ r ∈ regions, r.Has a) : a < p ∨ p + size ≤ a := by
  obtain ⟨r, member, low, high⟩ := mapped
  have apart := fresh.2.2.2 r member
  omega

theorem Valid.room_foreign (valid : Valid h chain) (fresh : FreshRegion h.regions p size)
    (member : b ∈ chain) (room : b.Room a) : a < p ∨ p + size ≤ a :=
  fresh.foreign (valid.mapped b member a room)

theorem regionBlock_fits (fresh : FreshRegion regions p size) (large : headerSize ≤ size) :
    (regionBlock p size).Fits where
  positive := fresh.1
  within := by
    change p + headerSize + (size - headerSize) ≤ p + size
    omega
  small := fresh.2.2.1

theorem Valid.refused (valid : Valid h chain) : Valid h.refused chain :=
  ⟨valid.head, valid.final, valid.linked, valid.fits, valid.apart, valid.mapped, valid.busy⟩

theorem region_mapped (h : Kheap) (p size : Nat) (inside : k ≤ size) :
    Mapped (h.extended p size).regions p k :=
  fun i bound => ⟨⟨p, size⟩, mem_cons_self, by
    change p ≤ p + i ∧ p + i < p + size
    omega⟩

end Ksbrk

/-! ### The first region -/

section First
variable {h : Kheap} {p : Nat}

theorem initHeap_refused (nothing : ∀ p, ¬ Granted h newAllocSize p) :
    initHeap h = .ok false { h.refused with head := 0 } := by
  unfold initHeap
  rw [run_bind_ok (ksbrk_refused nothing)]
  rfl

/-- The first region becomes one free block. -/
theorem initHeap_granted (granted : Granted h newAllocSize p) :
    ∃ h', initHeap h = .ok true h' ∧ Valid h' [regionBlock p newAllocSize] ∧
      Obtained h h' p newAllocSize := by
  have positive := granted.fresh.1
  have size : newAllocSize - headerSize < 2 ^ 32 := by decide
  have mapped := region_mapped h p newAllocSize (show headerSize ≤ newAllocSize by decide)
  have ran := ksbrk_granted granted
  obtain ⟨m₁, magic, edits₁⟩ :=
    setMagic_ok (h := { h.extended p newAllocSize with head := p }) mapped
  obtain ⟨m₂, sized, edits₂⟩ :=
    setSize_ok (h := { h.extended p newAllocSize with head := p, memory := m₁ }) mapped size
  obtain ⟨m₃, flagged, edits₃⟩ := setFlags_ok
    (h := { h.extended p newAllocSize with head := p, memory := m₂ }) mapped
    (show 3 < 2 ^ 8 by decide)
  obtain ⟨m₄, linked, edits₄⟩ := setN_ok
    (h := { h.extended p newAllocSize with head := p, memory := m₃ }) mapped
    (show 0 < 2 ^ 32 by decide)
  rw [edits₃.header, edits₂.header, edits₁.header] at edits₄
  refine ⟨{ h.extended p newAllocSize with head := p, memory := m₄, final := p }, ?_, ?_,
    ⟨rfl, rfl⟩⟩
  · unfold initHeap
    rw [run_bind_ok ran]
    refine (run_bind_ok rfl).trans ?_
    rw [run_if_neg (by omega)]
    exact (run_bind_ok magic).trans ((run_bind_ok sized).trans
      ((run_bind_ok flagged).trans ((run_bind_ok linked).trans rfl)))
  · refine ⟨rfl, rfl, ⟨edits₄.header, nofun, trivial⟩, ?_, pairwise_singleton .., ?_, ?_⟩
    · simpa using regionBlock_fits granted.fresh (by decide)
    · intro b member a room
      rw [mem_singleton] at member
      subst member
      exact ⟨⟨p, newAllocSize⟩, mem_cons_self, room⟩
    · simp [regionBlock]

end First

/-! ### Further regions -/

section Further
variable {h : Kheap} {chain pre : List Block} {b f : Block} {p size : Nat} {m' : Bytes}

theorem Valid.last_free (valid : Valid h (pre ++ [f])) : f.free = true := by
  by_contra used
  exact absurd (valid.ends.symm.trans (valid.busy f (by simp) (by simpa using used))) nofun

/-- Outside the new region and the header of the last block memory is as it was. -/
def Extends (m m' : Bytes) (p size : Nat) (f : Block) : Prop :=
  ∀ x, x < p ∨ p + size ≤ x → x < f.addr ∨ f.addr + headerSize ≤ x → m' x = m x

section
variable (valid : Valid h (pre ++ [f])) (fresh : FreshRegion h.regions p size)
include valid fresh

/-- An address in the room of another block is one of those. -/
theorem Valid.extends_room (same : Extends h.memory m' p size f) (member : b ∈ pre ++ [f])
    (other : b ≠ f)
    (room : b.Room a) : m' a = h.memory a := by
  refine same a (valid.room_foreign fresh member room) ?_
  by_contra inside
  have within := (valid.fits f (by simp)).within
  exact other (valid.room_eq member (by simp) room ⟨by omega, by omega⟩)

theorem Valid.extends_keeps (same : Extends h.memory h'.memory p size f) :
    KeepsBytes h h' (busyBlocks (pre ++ [f])) := by
  intro q n member i bound
  obtain ⟨b, inChain, used, rfl, rfl⟩ := mem_busyBlocks.mp member
  refine valid.extends_room fresh same inChain ?_ ((valid.fits b inChain).data_room bound)
  rintro rfl
  exact absurd (used.symm.trans valid.last_free) nofun

theorem Valid.pre_linked (same : Extends h.memory m' p size f) : Linked m' pre f.addr := by
  refine (linked_append.mp valid.linked).1.congr fun b member => headerAt_congr fun i bound => ?_
  have inChain : b ∈ pre ++ [f] := by simp [member]
  refine valid.extends_room fresh same inChain ?_ ((valid.fits b inChain).header_room bound)
  rintro rfl
  exact (nodup_append.mp valid.nodup).2.2 b member b (by simp) rfl

/-- A region that is not adjacent becomes a block at the end of the chain. -/
theorem Valid.append (large : headerSize ≤ size) (same : Extends h.memory m' p size f)
    (old : headerAt m' f.addr = f.header p)
    (new : headerAt m' p = (regionBlock p size).header 0) :
    Quiet h { h.extended p size with memory := m', final := p } (pre ++ [f])
      (pre ++ [f, regionBlock p size]) where
  valid := by
    have split : pre ++ [f, regionBlock p size] = (pre ++ [f]) ++ [regionBlock p size] := by simp
    refine ⟨?_, ?_, ?_, ?_, ?_, ?_, ?_⟩
    · refine valid.head.trans ?_
      rw [firstAddr_append, firstAddr_append]
      rfl
    · rw [lastAddr_append]
      rfl
    · refine linked_append.mpr ⟨valid.pre_linked fresh same, old, ?_, new, nofun, trivial⟩
      exact fun inner => absurd (valid.ends.symm.trans inner) nofun
    · rw [split, forall_mem_append, forall_mem_singleton]
      exact ⟨valid.fits, regionBlock_fits fresh large⟩
    · rw [split]
      refine pairwise_append.mpr ⟨valid.apart, pairwise_singleton .., ?_⟩
      intro b member c new a room room'
      rw [mem_singleton] at new
      subst new
      have outside := valid.room_foreign fresh member room
      change p ≤ a ∧ a < p + size at room'
      omega
    · rw [split, forall_mem_append, forall_mem_singleton]
      refine ⟨fun b member a room => ?_, fun a room => ⟨⟨p, size⟩, mem_cons_self, room⟩⟩
      obtain ⟨r, known, has⟩ := valid.mapped b member a room
      exact ⟨r, mem_cons_of_mem _ known, has⟩
    · rw [split, forall_mem_append, forall_mem_singleton]
      exact ⟨valid.busy, nofun⟩
  busy := by
    simp [busyBlocks, valid.last_free, regionBlock]
  kept := valid.extends_keeps fresh same
  regions := fun r member => mem_cons_of_mem _ member

end

/-- The last block takes in the region that follows it; of the space for a header that
the region does not need nothing is gained. -/
def grown (f : Block) (size : Nat) : Block :=
  { f with
    size := f.size + (size - headerSize)
    limit := f.addr + headerSize + f.size + size }

theorem grown_header (f : Block) (size : Nat) :
    (grown f size).header 0 = { f.header 0 with size := f.size + (size - headerSize) } := by
  have flags : (grown f size).flags = f.flags := rfl
  unfold Block.header
  rw [flags]
  simp only [grown]

section
variable (valid : Valid h (pre ++ [f])) (fresh : FreshRegion h.regions p size)
include valid fresh

/-- A region right after the last block ends where the room of that block ends. -/
theorem Valid.limit_adjacent (positive : 0 < size) (adjacent :
    p = f.addr + headerSize + f.size) : f.limit = p := by
  have within := (valid.fits f (by simp)).within
  by_contra longer
  have room : f.Room p := ⟨by omega, by omega⟩
  have outside := valid.room_foreign fresh (by simp) room
  omega

/-- A region that follows the last block is added to it. -/
theorem Valid.extend (large : headerSize ≤ size) (adjacent : p = f.addr + headerSize + f.size)
    (same : Extends h.memory m' p size f)
    (old : headerAt m' f.addr = (grown f size).header 0) :
    Quiet h { h.extended p size with memory := m' } (pre ++ [f]) (pre ++ [grown f size]) := by
  have positive : 0 < size := Nat.lt_of_lt_of_le (by decide) large
  have limit := valid.limit_adjacent fresh positive adjacent
  have fits := valid.fits f (by simp)
  have rooms : ∀ a, (grown f size).Room a → f.Room a ∨ p ≤ a ∧ a < p + size := by
    rintro a ⟨low, high⟩
    change a < f.addr + headerSize + f.size + size at high
    rcases Nat.lt_or_ge a p with before | after
    · exact .inl ⟨low, limit ▸ before⟩
    · exact .inr ⟨after, by omega⟩
  have parts := pairwise_append.mp valid.apart
  refine ⟨⟨?_, ?_, ?_, ?_, ?_, ?_, ?_⟩, ?_, valid.extends_keeps fresh same,
    fun r member => mem_cons_of_mem _ member⟩
  · refine valid.head.trans ?_
    rw [firstAddr_append, firstAddr_append]
    rfl
  · refine valid.final.trans ?_
    rw [lastAddr_append, lastAddr_append]
    rfl
  · refine linked_append.mpr ⟨valid.pre_linked fresh same, old, ?_, trivial⟩
    exact fun inner => absurd (valid.ends.symm.trans inner) nofun
  · intro b member
    rw [mem_append, mem_singleton] at member
    rcases member with member | rfl
    · exact valid.fits b (by simp [member])
    · refine ⟨fits.positive, ?_, ?_⟩
      · change f.addr + headerSize + (f.size + (size - headerSize)) ≤
          f.addr + headerSize + f.size + size
        omega
      · change f.addr + headerSize + f.size + size ≤ 2 ^ 32
        rw [← adjacent]
        exact fresh.2.2.1
  · refine pairwise_append.mpr ⟨parts.1, pairwise_singleton .., ?_⟩
    intro b member c new a room room'
    rw [mem_singleton] at new
    subst new
    rcases rooms a room' with inside | inside
    · exact parts.2.2 b member f (by simp) a room inside
    · have outside := valid.room_foreign fresh (by simp [member]) room
      omega
  · intro b member a room
    have older (mapped : ∃ r ∈ h.regions, r.Has a) :
        ∃ r ∈ (h.extended p size).regions, r.Has a := by
      obtain ⟨r, known, has⟩ := mapped
      exact ⟨r, mem_cons_of_mem _ known, has⟩
    rw [mem_append, mem_singleton] at member
    rcases member with member | rfl
    · exact older (valid.mapped b (by simp [member]) a room)
    · rcases rooms a room with inside | inside
      · exact older (valid.mapped f (by simp) a inside)
      · exact ⟨⟨p, size⟩, mem_cons_self, inside⟩
  · intro b member used
    rw [mem_append, mem_singleton] at member
    rcases member with member | rfl
    · exact valid.busy b (by simp [member]) used
    · exact absurd (valid.last_free.symm.trans used) nofun
  · simp [busyBlocks, grown, valid.last_free]

/-- The header of the last block is read back after `ksbrk`. -/
theorem Valid.here_extended : Here (h.extended p size) f 0 where
  positive := valid.here.positive
  mapped := fun i bound => by
    obtain ⟨r, known, has⟩ := valid.here.mapped i bound
    exact ⟨r, mem_cons_of_mem _ known, has⟩
  header := by
    refine (headerAt_congr fun i bound => splice_outside ?_).trans valid.header_eq
    exact valid.room_foreign fresh (by simp) ((valid.fits f (by simp)).header_room bound)

end

theorem addHeapMemory_refused (nothing : ∀ p, ¬ Granted h (allocationSize s) p) :
    addHeapMemory s h = .ok false h.refused := by
  unfold addHeapMemory
  rw [run_bind_ok (ksbrk_refused nothing)]
  exact run_if_pos rfl

theorem isFree_header (b : Block) (n : Nat) : isFree (b.header n).flags = b.free :=
  b.isFree_flags

/-- Sizes below `2 ^ 32` are compared as numbers. -/
theorem Valid.adjacent_iff (valid : Valid h (pre ++ [f])) (positive : 0 < p) (small : p < 2 ^ 32) :
    (isFree (f.header 0).flags && p = wrap32 (f.addr + headerSize + (f.header 0).size)) = true ↔
      p = f.addr + headerSize + f.size := by
  have within := (valid.fits f (by simp)).within
  have limit := (valid.fits f (by simp)).small
  rw [isFree_header, valid.last_free, Bool.true_and, decide_eq_true_iff]
  change p = (f.addr + headerSize + f.size) % 2 ^ 32 ↔ _
  rcases Nat.lt_or_ge (f.addr + headerSize + f.size) (2 ^ 32) with below | above
  · rw [Nat.mod_eq_of_lt below]
  · have top : f.addr + headerSize + f.size = 2 ^ 32 := by omega
    omega

theorem appendRegion_ok
    (mapped : Mapped h.regions p headerSize) (mapped' : Mapped h.regions final headerSize)
    (apart : p + headerSize ≤ final ∨ final + headerSize ≤ p) (small : p < 2 ^ 32)
    (large : headerSize ≤ size) (bound : size < 2 ^ 32) (old : headerAt h.memory final = hd) :
    ∃ m₁ m₂, appendRegion p size final h = .ok true { h with memory := m₂, final := p } ∧
      Edits h.memory m₁ p ((regionBlock p size).header 0) ∧
      Edits m₁ m₂ final { hd with n := p } := by
  obtain ⟨m₁, sized, edits₁⟩ := setSize_ok mapped (show size - headerSize < 2 ^ 32 by omega)
  obtain ⟨m₂, flagged, edits₂⟩ :=
    setFlags_ok (h := { h with memory := m₁ }) mapped (show 3 < 2 ^ 8 by decide)
  obtain ⟨m₃, linked, edits₃⟩ :=
    setN_ok (h := { h with memory := m₂ }) mapped (show 0 < 2 ^ 32 by decide)
  obtain ⟨m₄, magic, edits₄⟩ := setMagic_ok (h := { h with memory := m₃ }) mapped
  have written := edits₁.trans (edits₂.trans (edits₃.trans edits₄))
  obtain ⟨m₅, joined, edits₅⟩ := setN_ok (h := { h with memory := m₄ }) mapped' small
  rw [written.other (by omega), old] at edits₅
  rw [edits₃.header, edits₂.header, edits₁.header] at written
  refine ⟨m₄, m₅, ?_, written, edits₅⟩
  unfold appendRegion
  rw [sub32_eq large bound]
  exact (run_bind_ok sized).trans ((run_bind_ok flagged).trans ((run_bind_ok linked).trans
    ((run_bind_ok magic).trans ((run_bind_ok joined).trans rfl))))

section
variable (valid : Valid h (pre ++ [f])) (granted : Granted h (allocationSize s) p)
include valid granted

/-- What `add_heap_memory` does once it has the region. -/
theorem Valid.addHeapMemory_region :
    addHeapMemory s h =
      (if isFree (f.header 0).flags && p = wrap32 (f.addr + headerSize + (f.header 0).size) then do
        setSize f.addr (wrap32 ((f.header 0).size + sub32 (allocationSize s) headerSize))
        return true
      else appendRegion p (allocationSize s) f.addr) (h.extended p (allocationSize s)) := by
  have positive := granted.fresh.1
  have final : (h.extended p (allocationSize s)).final = f.addr := by
    refine valid.final.trans ?_
    rw [lastAddr_append]
    rfl
  unfold addHeapMemory
  rw [run_bind_ok (ksbrk_granted granted), run_if_neg (by omega), run_get, final]
  exact run_bind_ok (header_at (valid.here_extended granted.fresh))

theorem Valid.addHeapMemory_adjacent (large : headerSize ≤ allocationSize s)
    (adjacent : p = f.addr + headerSize + f.size) :
    ∃ h', addHeapMemory s h = .ok true h' ∧
      Quiet h h' (pre ++ [f]) (pre ++ [grown f (allocationSize s)]) := by
  have positive := granted.fresh.1
  have bound := granted.fresh.2.2.1
  have header : headerSize = 20 := rfl
  have size : f.size + (allocationSize s - headerSize) < 2 ^ 32 := by omega
  have plain : wrap32 ((f.header 0).size + sub32 (allocationSize s) headerSize) =
      f.size + (allocationSize s - headerSize) := by
    rw [sub32_eq large (by omega)]
    exact Nat.mod_eq_of_lt size
  have here := valid.here_extended granted.fresh
  obtain ⟨m', sized, edits⟩ := setSize_ok here.mapped size
  rw [here.header] at edits
  refine ⟨{ h.extended p (allocationSize s) with memory := m' }, ?_,
    valid.extend granted.fresh large adjacent (fun x outside apart =>
        (edits.outside x apart).trans (splice_outside outside))
      (edits.header.trans (grown_header f _).symm)⟩
  rw [valid.addHeapMemory_region granted,
    run_if_pos ((valid.adjacent_iff positive (by omega)).mpr adjacent), plain]
  exact (run_bind_ok sized).trans rfl

theorem Valid.addHeapMemory_apart (large : headerSize ≤ allocationSize s)
    (apart : p ≠ f.addr + headerSize + f.size) :
    ∃ h', addHeapMemory s h = .ok true h' ∧ Obtained h h' p (allocationSize s) ∧
      Quiet h h' (pre ++ [f]) (pre ++ [f, regionBlock p (allocationSize s)]) := by
  have positive := granted.fresh.1
  have bound := granted.fresh.2.2.1
  have here := valid.here_extended granted.fresh
  have fits := valid.fits f (by simp)
  have low := valid.room_foreign granted.fresh (by simp) (fits.header_room (show 0 < headerSize by decide))
  have high := valid.room_foreign granted.fresh (by simp)
    (fits.header_room (show headerSize - 1 < headerSize by decide))
  have size : headerSize = 20 := rfl
  have away : p + headerSize ≤ f.addr ∨ f.addr + headerSize ≤ p := by omega
  obtain ⟨m₁, m₂, appended, new, old⟩ := appendRegion_ok
    (region_mapped h p (allocationSize s) large) here.mapped away (by omega) large (by omega)
    here.header
  refine ⟨_, ?_, ⟨rfl, rfl⟩, valid.append granted.fresh large ?_ old.header
    ((old.other (by omega)).trans new.header)⟩
  · rw [valid.addHeapMemory_region granted, run_if_neg, appended]
    exact fun same => apart ((valid.adjacent_iff positive (by omega)).mp same)
  · intro x outside off
    exact (old.outside x off).trans ((new.outside x (by omega)).trans (splice_outside outside))

end

end Further

end SbOS.Kmalloc
