import SbOS.Kernel.HeapAlloc

/-! The calls of the kernel heap on a chain of blocks: what `kmalloc`, `kcalloc`, `kfree`
and `krealloc` do to the blocks in use, for every size that does not wrap around. -/
namespace SbOS.Kmalloc
open Bytes List
open Kernel (wrap32 sub32 sub32_eq mulOverflow mulOverflow_iff mulOverflow_false)

/-! ### Giving back -/

/-- Between the two states the block at `p` has been given back. -/
structure Frees (h h' : Kheap) (chain : List Block) (p : Nat) (chain' : List Block) : Prop where
  valid : Valid h' chain'
  busy : ∀ q k, (q, k) ∈ busyBlocks chain' ↔ q ≠ p ∧ (q, k) ∈ busyBlocks chain
  kept : ∀ q k, q ≠ p → (q, k) ∈ busyBlocks chain →
    ∀ i < k, h'.memory (q + i) = h.memory (q + i)
  brk : h'.brk = h.brk
  regions : h'.regions = h.regions

section Free
variable {h h' : Kheap} {chain chain' pre post : List Block} {b c : Block} {p n : Nat}

/-- One try to merge, whatever the block is. -/
theorem Valid.mergeHeaders (valid : Valid h (pre ++ b :: post)) :
    ∃ answer h' chain', mergeHeaders b.addr h = .ok answer h' ∧
      Settles h h' (pre ++ b :: post) chain' := by
  cases free : b.free with
  | false => exact ⟨false, h, _, mergeHeaders_busy valid.here free, .refl valid⟩
  | true =>
    rcases valid.alone_or_followed free with ⟨answer, -⟩ | ⟨c, rest, rfl, last, free'⟩
    · exact ⟨false, h, _, answer, .refl valid⟩
    · obtain ⟨h', merged, quiet, head, brk, regions⟩ := valid.join free last free'
      exact ⟨true, h', _, merged, quiet, head, brk, regions⟩

/-- The block as a free one. -/
def freed (b : Block) : Block := { b with free := true }

theorem freed_flags (used : b.free = false) (inner : b.last = false) :
    b.flags ||| 1 = (freed b).flags := by
  simp [Block.flags, freed, used, inner]

/-- One block is replaced by another with the same header address in the same room. -/
theorem Valid.replace_one (valid : Valid h (pre ++ b :: post)) (address : c.addr = b.addr)
    (limit : c.limit = b.limit) (last : c.last = b.last) (smaller : c.size ≤ b.size)
    (busy : c.free = false → c.last = false)
    (edits : Edits h.memory m' b.addr (c.header (firstAddr post 0))) :
    Valid { h with memory := m' } (pre ++ c :: post) := by
  have fits := valid.fits b (by simp)
  have within := fits.within
  have room : ∀ a, c.Room a ↔ b.Room a := fun a => by
    unfold Block.Room
    rw [address, limit]
  have valid' : Valid h (pre ++ [b] ++ post) := by simpa using valid
  have final : h.final = lastAddr (pre ++ [c] ++ post) := by
    rw [valid.final, lastAddr_append, append_assoc, singleton_append, lastAddr_append]
    cases post with
    | nil => exact address.symm
    | cons d rest => rfl
  have linked : Linked m' [c] (firstAddr post 0) := by
    refine ⟨by rw [address]; exact edits.header, ?_, trivial⟩
    rw [last, limit]
    exact (linked_append.mp valid.linked).2.2.1
  suffices replaced : Valid { h with memory := m' } (pre ++ [c] ++ post) by simpa using replaced
  refine valid'.replace (fun _ => address) linked ?_ ?_ (pairwise_singleton ..) ?_ ?_ final
  · intro d member
    rw [mem_singleton.mp member]
    exact ⟨address ▸ fits.positive, by rw [address, limit]; omega, limit ▸ fits.small⟩
  · intro d member a inside
    rw [mem_singleton.mp member] at inside
    exact ⟨b, by simp, (room a).mp inside⟩
  · intro d member
    rw [mem_singleton.mp member]
    exact busy
  · intro a outside
    refine edits.outside a ?_
    have notB := outside b (by simp)
    unfold Block.Room at notB
    omega

/-- The chain has the block at `p`. -/
theorem split_busy (member : (p, n) ∈ busyBlocks chain) :
    ∃ pre b post, chain = pre ++ b :: post ∧ b.free = false ∧ p = b.addr + headerSize ∧
      n = b.size := by
  obtain ⟨b, inChain, used, address, size⟩ := mem_busyBlocks.mp member
  obtain ⟨pre, post, split_at⟩ := append_of_mem inChain
  exact ⟨pre, b, post, split_at, used, address, size⟩

theorem Fits.header_address (fits : b.Fits) : sub32 (b.addr + headerSize) headerSize = b.addr := by
  have within := fits.within
  have small := fits.small
  unfold sub32 wrap32
  have : headerSize = 20 := rfl
  omega

section
variable (valid : Valid h (pre ++ b :: post)) (used : b.free = false)
include valid used

/-- The blocks in use after one has been freed. -/
theorem Valid.busy_freed (q k : Nat) : (q, k) ∈ busyBlocks (pre ++ freed b :: post) ↔
      q ≠ b.addr + headerSize ∧ (q, k) ∈ busyBlocks (pre ++ b :: post) := by
  have apart : (q, k) ∈ busyBlocks pre ∨ (q, k) ∈ busyBlocks post → q ≠ b.addr + headerSize := by
    have once := valid.nodup
    rw [nodup_append, nodup_cons] at once
    rintro (member | member) same
    · obtain ⟨c, inPre, -, address, -⟩ := mem_busyBlocks.mp member
      have alike := valid.addr_inj (b := c) (c := b) (by simp [inPre]) (by simp) (by omega)
      exact once.2.2 c inPre b (by simp) alike
    · obtain ⟨c, inPost, -, address, -⟩ := mem_busyBlocks.mp member
      have alike := valid.addr_inj (b := c) (c := b) (by simp [inPost]) (by simp) (by omega)
      exact once.2.1.1 (alike ▸ inPost)
  rw [busyBlocks_append, busyBlocks_append, busyBlocks_free (show (freed b).free = true from rfl),
    busyBlocks_busy used]
  simp only [mem_append, mem_cons, Prod.mk.injEq]
  constructor
  · intro member
    exact ⟨apart member, member.imp id .inr⟩
  · rintro ⟨other, member | ⟨same, -⟩ | member⟩
    · exact .inl member
    · exact absurd same other
    · exact .inr member

/-- `kfree` up to the merging: the block is filled and marked. -/
theorem Valid.kfree_marks :
    ∃ h', kfree (b.addr + headerSize) h = (do let _ ← Kmalloc.mergeHeaders b.addr) h' ∧
      Valid h' (pre ++ freed b :: post) ∧
      (∀ q k, q ≠ b.addr + headerSize → (q, k) ∈ busyBlocks (pre ++ b :: post) →
        ∀ i < k, h'.memory (q + i) = h.memory (q + i)) ∧
      h'.brk = h.brk ∧ h'.regions = h.regions := by
  have member : (b.addr + headerSize, b.size) ∈ busyBlocks (pre ++ b :: post) :=
    mem_busyBlocks.mpr ⟨b, by simp, used, rfl, rfl⟩
  have inner := valid.busy b (by simp) used
  have address := Fits.header_address (valid.fits b (by simp))
  have here := valid.here
  obtain ⟨h₁, filled, writes⟩ := getFastInsecureRandom_ok (valid.busy_mapped member)
  have valid₁ := valid.written member writes
  obtain ⟨m', marked, edits⟩ := setFlags_ok valid₁.here.mapped (flags_small (freed b))
  rw [valid₁.here.header] at edits
  refine ⟨{ h₁ with memory := m' }, ?_,
    valid₁.replace_one (c := freed b) rfl rfl rfl le_rfl nofun edits,
    ?_, writes.brk, writes.regions⟩
  · have nonzero : b.addr + headerSize ≠ 0 := by
      have := here.positive
      omega
    unfold Kmalloc.kfree
    rw [run_if_neg nonzero, address, run_bind_ok (header_at here), run_bind_ok (magic_ok b _),
      run_bind_ok (header_at here),
      run_bind_ok (kassert_ok (show (!isFree (b.header _).flags) = true by
        rw [isFree_header, used]; rfl)),
      run_bind_ok (header_at here)]
    refine (run_bind_ok filled).trans ?_
    rw [run_bind_ok (header_at valid₁.here),
      show (b.header (firstAddr post 0)).flags = b.flags from rfl, freed_flags used inner,
      run_bind_ok marked]
  · intro q k other inUse i bound
    have kept := valid.written_kept member writes inUse other bound
    refine (edits.outside _ ?_).trans kept
    have apart := valid.busy_apart inUse member other
    omega

end

theorem Valid.kfree (valid : Valid h chain) (member : (p, n) ∈ busyBlocks chain) :
    ∃ h' chain', kfree p h = .ok () h' ∧ Frees h h' chain p chain' := by
  obtain ⟨pre, b, post, rfl, used, rfl, rfl⟩ := split_busy member
  obtain ⟨h₁, marked, valid₁, kept, brk, regions⟩ := valid.kfree_marks used
  obtain ⟨answer, h', chain', merged, settles⟩ := valid₁.mergeHeaders
  have busy := valid.busy_freed used
  refine ⟨h', chain', marked.trans ((run_bind_ok merged).trans rfl), settles.valid, ?_, ?_,
    settles.brk.trans brk, settles.region_list.trans regions⟩
  · intro q k
    rw [settles.busy]
    exact busy q k
  · intro q k other inUse i bound
    rw [settles.kept q k ((busy q k).mpr ⟨other, inUse⟩) i bound]
    exact kept q k other inUse i bound

end Free

/-! ### Handing out -/

/-- How much the heap grows for `s` bytes, computed without wrapping around. -/
def growth (s : Nat) : Nat :=
  max (s + headerSize) newAllocSize + deltaPage (max (s + headerSize) newAllocSize) + newAllocSize

theorem allocationSize_eq (small : growth s < 2 ^ 32) : allocationSize s = growth s := by
  have request : wrap32 (s + headerSize) = s + headerSize := by
    refine Nat.mod_eq_of_lt (Nat.lt_of_le_of_lt ?_ small)
    unfold growth
    omega
  unfold allocationSize
  rw [request]
  unfold growth at small
  dsimp only
  unfold wrap32
  rw [Nat.mod_eq_of_lt ((Nat.le_add_right ..).trans_lt small), Nat.mod_eq_of_lt small]
  rfl

/-- A new region has room for the block, its header and one more header. -/
theorem growth_large (s : Nat) : s + headerSize + headerSize ≤ growth s := by
  have header : headerSize = 20 := rfl
  have step : newAllocSize = 0x40000 := rfl
  unfold growth
  omega

theorem newAllocSize_le_growth (s : Nat) : newAllocSize ≤ growth s := by
  unfold growth
  omega

section Allocate
variable {h h' : Kheap} {chain chain' pre post : List Block} {b c f : Block} {p n s : Nat}

/-- What an allocation of `s` bytes can do: nothing but rearrange free memory, or hand
out a block. -/
def Allocates (h h' : Kheap) (chain : List Block) (s rc : Nat) (chain' : List Block) : Prop :=
  rc = 0 ∧ Quiet h h' chain chain' ∨ 0 < rc ∧ Takes h h' chain rc s chain'

theorem Valid.intKmalloc_found (valid : Valid h chain) (started : chain ≠ [])
    (small : s + headerSize < 2 ^ 32) (fitting : ¬ NoneFits chain (s + headerSize)) (depth : Nat) :
    ∃ rc h' chain', intKmalloc (depth + 1) s h = .ok rc h' ∧ 0 < rc ∧
      Takes h h' chain rc s chain' ∧ h'.regions = h.regions := by
  obtain ⟨p, h₁, ran, outcome⟩ := valid.findFreeEntry started small
  rcases outcome with ⟨⟨pre, b, post, rfl, free, size, settles⟩, -⟩ | ⟨-, -, none_fits⟩
  · obtain ⟨h', split_ran, -, regions, takes⟩ := settles.valid.split free size
    have positive := (settles.valid.fits b (by simp)).positive
    refine ⟨_, h', _, ?_, by omega, takes.after settles.toQuiet,
      regions.trans settles.region_list⟩
    unfold Kmalloc.intKmalloc
    rw [run_bind_ok ran, run_if_neg (by omega)]
    exact split_ran
  · exact absurd none_fits fitting

/-- The heap has grown by a region of its own or at its end. -/
theorem Valid.addHeapMemory (valid : Valid h (pre ++ [f])) (small : growth s < 2 ^ 32)
    (granted : Granted h (growth s) p) :
    ∃ h' pre' b, addHeapMemory s h = .ok true h' ∧
      Quiet h h' (pre ++ [f]) (pre' ++ [b]) ∧ b.free = true ∧ s + headerSize ≤ b.size := by
  have exactly := allocationSize_eq small
  have large := growth_large s
  rw [← exactly] at granted
  by_cases adjacent : p = f.addr + headerSize + f.size
  · obtain ⟨h', ran, quiet⟩ :=
      valid.addHeapMemory_adjacent granted (by omega) adjacent
    have free : ∀ size, (grown f size).free = true := fun _ => valid.last_free
    refine ⟨h', pre, _, ran, quiet, free _, ?_⟩
    simp only [grown]
    omega
  · obtain ⟨h', ran, -, quiet⟩ := valid.addHeapMemory_apart granted (by omega) adjacent
    have shifted : pre ++ [f, regionBlock p (allocationSize s)] =
        (pre ++ [f]) ++ [regionBlock p (allocationSize s)] := by
      rw [append_assoc, singleton_append]
    rw [shifted] at quiet
    refine ⟨h', pre ++ [f], _, ran, quiet, rfl, ?_⟩
    change _ ≤ allocationSize s - headerSize
    omega

/-- A free block that is large enough is found. -/
theorem not_noneFits (member : b ∈ chain) (free : b.free = true) (size : s ≤ b.size) :
    ¬ NoneFits chain s := by
  intro none_fits
  obtain ⟨pre, post, rfl⟩ := append_of_mem member
  have less := none_fits (b :: post) (suffix_append pre _)
  simp only [freeRun, free, if_true] at less
  omega

theorem Valid.intKmalloc_grows (valid : Valid h chain) (started : chain ≠ [])
    (small : growth s < 2 ^ 32) (none_fits : NoneFits chain (s + headerSize)) (depth : Nat) :
    ∃ rc h' chain', intKmalloc (depth + 2) s h = .ok rc h' ∧ Allocates h h' chain s rc chain' := by
  have large := growth_large s
  obtain ⟨p, h₁, ran, outcome⟩ := valid.findFreeEntry (s := s) started (by omega)
  rcases outcome with ⟨-, some_fits⟩ | ⟨rfl, ⟨chain₁, settles⟩, -⟩
  · exact absurd none_fits some_fits
  · obtain ⟨pre, f, rfl⟩ := (eq_nil_or_concat' chain₁).resolve_left
      ((settles.started valid).mpr started)
    unfold Kmalloc.intKmalloc
    rw [run_bind_ok ran, run_if_pos rfl]
    by_cases granted : ∃ p, Granted h₁ (growth s) p
    · obtain ⟨p, granted⟩ := granted
      obtain ⟨h₂, pre', b, grew, quiet, free, size⟩ := settles.valid.addHeapMemory small granted
      obtain ⟨rc, h₃, chain', found, positive, takes, -⟩ := quiet.valid.intKmalloc_found
        (by simp) (by omega) (not_noneFits (by simp) free size) depth
      obtain ⟨h', filled, writes⟩ := getFastInsecureRandom_ok
        (takes.valid.busy_mapped ((takes.busy rc s).mpr (.inl ⟨rfl, rfl⟩)))
      refine ⟨rc, h', chain', ?_, .inr ⟨positive,
        (takes.after (settles.toQuiet.trans quiet)).written writes⟩⟩
      rw [run_bind_ok grew, run_if_pos rfl, run_bind_ok found, run_if_neg (by omega),
        run_bind_ok filled]
      rfl
    · have refused : ∀ p, ¬ Granted h₁ (allocationSize s) p := fun p holds =>
        granted ⟨p, allocationSize_eq small ▸ holds⟩
      refine ⟨0, h₁.refused, pre ++ [f], run_bind_false (addHeapMemory_refused refused),
        .inl ⟨rfl, settles.valid.refused, settles.busy, settles.kept, settles.regions⟩⟩

/-! ### The first call -/

/-- What the first call of `ksbrk` gives a heap that has no region yet. -/
def opening (h : Kheap) : List Block :=
  match h.brk 0 with
  | some p => if FreshRegion h.regions p newAllocSize then [regionBlock p newAllocSize] else []
  | none => []

/-- The chain that a search looks through. -/
def opened (h : Kheap) : List Block → List Block
  | [] => opening h
  | b :: rest => b :: rest

theorem opening_granted (granted : Granted h newAllocSize p) :
    opening h = [regionBlock p newAllocSize] := by
  unfold opening
  rw [granted.answer]
  exact if_pos granted.fresh

theorem opening_refused (nothing : ∀ p, ¬ Granted h newAllocSize p) : opening h = [] := by
  unfold opening
  cases answer : h.brk 0 with
  | none => rfl
  | some p => exact if_neg fun fresh => nothing p ⟨answer, fresh⟩

theorem opened_started (started : chain ≠ []) : opened h chain = chain := by
  cases chain with
  | nil => exact absurd rfl started
  | cons b rest => rfl

theorem findFreeEntry_refused (empty : h.head = 0) (nothing : ∀ p, ¬ Granted h newAllocSize p) :
    findFreeEntry s h = .ok 0 { h.refused with head := 0 } := by
  unfold findFreeEntry
  rw [run_get, run_if_pos empty]
  exact (run_bind_ok (initHeap_refused nothing)).trans (run_if_pos rfl)

section
variable (empty : h.head = 0) (opens : initHeap h = .ok true h') (started : h'.head ≠ 0)
include empty opens started

/-- After the first region has come, the call goes on as on a heap that has it. -/
theorem findFreeEntry_first : findFreeEntry s h = findFreeEntry s h' := by
  unfold findFreeEntry
  rw [run_get, run_if_pos empty, run_get, run_if_neg started]
  exact (run_bind_ok opens).trans (run_if_neg (by decide))

theorem intKmalloc_first (depth : Nat) :
    intKmalloc (depth + 1) s h = intKmalloc (depth + 1) s h' := by
  change EStateM.bind _ _ h = EStateM.bind _ _ h'
  unfold EStateM.bind
  rw [findFreeEntry_first empty opens started]

end

/-- Without a heap `final` is the null pointer, which is no memory of the heap. -/
theorem addHeapMemory_null (null : h.final = 0) (positive : ∀ r ∈ h.regions, 0 < r.start)
    (granted : Granted h (allocationSize s) p) :
    addHeapMemory s h = .error .pageFault (h.extended p (allocationSize s)) := by
  have nonzero := granted.fresh.1
  have unmapped : ¬ Mapped (h.extended p (allocationSize s)).regions 0 headerSize := by
    intro mapped
    obtain ⟨r, member, low, -⟩ := mapped 0 (by decide)
    rcases mem_cons.mp member with rfl | older
    · exact absurd low (by dsimp only; omega)
    · have := positive r older
      omega
  have faults : header 0 (h.extended p (allocationSize s)) =
      .error .pageFault (h.extended p (allocationSize s)) :=
    run_bind_error (if_neg unmapped)
  unfold addHeapMemory
  rw [run_bind_ok (ksbrk_granted granted), run_if_neg (by omega), run_get,
    show (h.extended p (allocationSize s)).final = 0 from null]
  exact run_bind_error faults

theorem intKmalloc_null (unused : h.head = 0 ∧ h.final = 0) (positive : ∀ r ∈ h.regions, 0 < r.start)
    (nothing : ∀ p, ¬ Granted h newAllocSize p)
    (granted : Granted h.refused (allocationSize s) p) (depth : Nat) :
    ∃ h', intKmalloc (depth + 1) s h = .error .pageFault h' := by
  refine ⟨({ h.refused with head := 0 } : Kheap).extended p (allocationSize s), ?_⟩
  unfold intKmalloc
  rw [run_bind_ok (findFreeEntry_refused unused.1 nothing), run_if_pos rfl]
  exact run_bind_error (addHeapMemory_null unused.2 positive ⟨granted.answer, granted.fresh⟩)

/-- The request can be answered: no size wraps around, and `add_heap_memory` is not
called with `final` still the null pointer and given memory. -/
structure Serves (h : Kheap) (chain : List Block) (s : Nat) : Prop where
  request : s + headerSize < 2 ^ 32
  grows : NoneFits (opened h chain) (s + headerSize) → growth s < 2 ^ 32
  started : opened h chain = [] → ∀ p, ¬ Granted h.refused (allocationSize s) p

/-- The first region, as seen by the blocks in use. -/
theorem Obtained.quiet (obtained : Obtained h h' p newAllocSize)
    (valid : Valid h' [regionBlock p newAllocSize]) : Quiet h h' [] [regionBlock p newAllocSize] where
  valid := valid
  busy := rfl
  kept := nofun
  regions := fun _ member => obtained.region_list ▸ mem_cons_of_mem _ member

theorem Allocates.after (allocates : Allocates h' h'' chain' s rc chain'')
    (quiet : Quiet h h' chain chain') : Allocates h h'' chain s rc chain'' :=
  allocates.imp (fun ⟨null, quiet'⟩ => ⟨null, quiet.trans quiet'⟩)
    fun ⟨positive, takes⟩ => ⟨positive, takes.after quiet⟩

theorem Valid.intKmalloc_refused (valid : Valid h []) (nothing : ∀ p, ¬ Granted h newAllocSize p)
    (refused : ∀ p, ¬ Granted h.refused (allocationSize s) p) (depth : Nat) :
    ∃ h', Kmalloc.intKmalloc (depth + 2) s h = .ok 0 h' ∧ Quiet h h' [] [] ∧
      h'.regions = h.regions := by
  refine ⟨{ h.refused.refused with head := 0 }, ?_,
    ⟨⟨rfl, valid.final, trivial, nofun, .nil, nofun, nofun⟩, rfl, nofun, fun _ => id⟩, rfl⟩
  unfold Kmalloc.intKmalloc
  rw [run_bind_ok (findFreeEntry_refused valid.head nothing), run_if_pos rfl]
  exact run_bind_false (addHeapMemory_refused fun p holds => refused p ⟨holds.answer, holds.fresh⟩)

section
variable (valid : Valid h chain) (serves : Serves h chain s) (depth : Nat)
include valid serves depth

/-- `int_kmalloc` returns, and two levels of recursion are enough. -/
theorem Valid.intKmalloc :
    ∃ rc h' chain', intKmalloc (depth + 2) s h = .ok rc h' ∧ Allocates h h' chain s rc chain' := by
  have any {h : Kheap} {chain : List Block} (valid : Valid h chain) (started : chain ≠ [])
      (grows : NoneFits chain (s + headerSize) → growth s < 2 ^ 32) :
      ∃ rc h' chain', Kmalloc.intKmalloc (depth + 2) s h = .ok rc h' ∧
        Allocates h h' chain s rc chain' := by
    by_cases none_fits : NoneFits chain (s + headerSize)
    · exact valid.intKmalloc_grows started (grows none_fits) none_fits depth
    · obtain ⟨rc, h', chain', ran, positive, takes, -⟩ :=
        valid.intKmalloc_found started serves.request none_fits (depth + 1)
      exact ⟨rc, h', chain', ran, .inr ⟨positive, takes⟩⟩
  by_cases started : chain = []
  · subst started
    by_cases granted : ∃ p, Granted h newAllocSize p
    · obtain ⟨p, granted⟩ := granted
      obtain ⟨h₁, opens, valid₁, obtained⟩ := initHeap_granted granted
      have nonzero := valid₁.head_pos.mp (by simp)
      have grows := serves.grows
      rw [show opened h [] = _ from opening_granted granted] at grows
      obtain ⟨rc, h', chain', ran, allocates⟩ := any valid₁ (by simp) grows
      exact ⟨rc, h', chain', (intKmalloc_first valid.head opens (by omega) _).trans ran,
        allocates.after (obtained.quiet valid₁)⟩
    · have nothing : ∀ p, ¬ Granted h newAllocSize p := fun p holds => granted ⟨p, holds⟩
      obtain ⟨h', ran, quiet, -⟩ :=
        valid.intKmalloc_refused nothing (serves.started (opening_refused nothing)) depth
      exact ⟨0, h', [], ran, .inl ⟨rfl, quiet⟩⟩
  · exact any valid started (opened_started started ▸ serves.grows)

/-- `int_kmalloc` and a write to all of the block it returned. -/
theorem Valid.allocate (write : Nat → HeapM Unit)
    (writes : ∀ rc (h : Kheap), Mapped h.regions rc s → ∃ h', write rc h = .ok () h' ∧
      Writes h h' rc s) :
    ∃ rc h' chain', (do
        let rc ← Kmalloc.intKmalloc (depth + 2) s
        if rc = 0 then return 0
        write rc
        return rc : HeapM Nat) h = .ok rc h' ∧ Allocates h h' chain s rc chain' := by
  obtain ⟨rc, h₁, chain', ran, outcome⟩ := valid.intKmalloc serves depth
  rcases outcome with ⟨rfl, quiet⟩ | ⟨positive, takes⟩
  · exact ⟨0, h₁, chain', (run_bind_ok ran).trans (run_if_pos rfl), .inl ⟨rfl, quiet⟩⟩
  · obtain ⟨h', filled, writes⟩ := writes rc h₁
      (takes.valid.busy_mapped ((takes.busy rc s).mpr (.inl ⟨rfl, rfl⟩)))
    refine ⟨rc, h', chain', ?_, .inr ⟨positive, takes.written writes⟩⟩
    rw [run_bind_ok ran, run_if_neg (by omega), run_bind_ok filled]
    rfl

theorem Valid.kmalloc :
    ∃ rc h' chain', kmalloc (depth + 2) s h = .ok rc h' ∧ Allocates h h' chain s rc chain' :=
  valid.allocate serves depth (fun rc => getFastInsecureRandom rc s)
    fun _ _ mapped => getFastInsecureRandom_ok mapped

end

theorem Valid.kcalloc (valid : Valid h chain) (small : nelem * elsize < 2 ^ 32)
    (serves : Serves h chain (nelem * elsize)) (depth : Nat) :
    ∃ rc h' chain', kcalloc (depth + 2) nelem elsize h = .ok rc h' ∧
      Allocates h h' chain (nelem * elsize) rc chain' := by
  unfold Kmalloc.kcalloc
  rw [mulOverflow_false small, run_if_neg Bool.false_ne_true,
    show wrap32 (nelem * elsize) = nelem * elsize from Nat.mod_eq_of_lt small]
  exact valid.allocate serves depth (fun rc => clear rc (nelem * elsize))
    fun _ _ mapped => clear_ok mapped

end Allocate

/-! ### Moving -/

/-- Between the two states the block of `l` bytes at `ptr` has become one of `size` bytes
at `rc`. -/
structure Moves (h h' : Kheap) (chain : List Block) (ptr l rc size : Nat)
    (chain' : List Block) : Prop where
  valid : Valid h' chain'
  busy : ∀ q k, (q, k) ∈ busyBlocks chain' ↔
    q = rc ∧ k = size ∨ q ≠ ptr ∧ (q, k) ∈ busyBlocks chain
  fresh : rc ≠ ptr → ∀ k, (rc, k) ∉ busyBlocks chain
  copied : ∀ i < min l size, h'.memory (rc + i) = h.memory (ptr + i)
  kept : ∀ q k, q ≠ ptr → (q, k) ∈ busyBlocks chain →
    ∀ i < k, h'.memory (q + i) = h.memory (q + i)
  regions : ∀ r ∈ h.regions, r ∈ h'.regions

section Move
variable {h h₁ h' : Kheap} {chain chain₁ chain' pre post : List Block} {b c : Block}
  {ptr l rc size : Nat}

section
variable (takes : Takes h h₁ chain rc size chain₁) (member : (ptr, l) ∈ busyBlocks chain)
include takes member

/-- A block is copied to the new one and freed; `done` is what freeing it achieves. -/
theorem Takes.moveBlock_frees (done : Kheap → List Block → Prop)
    (gives : ∀ h₂, Valid h₂ chain₁ → h₂.regions = h₁.regions → ∃ h' chain',
      kfree ptr h₂ = .ok () h' ∧ Frees h₂ h' chain₁ ptr chain' ∧ done h' chain') :
    ∃ h' chain', moveBlock rc ptr (min l size) h₁ = .ok rc h' ∧
      Moves h h' chain ptr l rc size chain' ∧ done h' chain' := by
  have inUse := (takes.busy ptr l).mpr (.inr member)
  have new := (takes.busy rc size).mpr (.inl ⟨rfl, rfl⟩)
  have apart : rc ≠ ptr := fun same => takes.fresh l (same ▸ member)
  have mapped := takes.valid.busy_mapped inUse
  have mapped' := takes.valid.busy_mapped new
  obtain ⟨h₂, copied, writes, bytes⟩ := memcpy_ok (h := h₁) (p := rc) (q := ptr)
    (n := min l size) (fun i bound => mapped i (by omega)) fun i bound => mapped' i (by omega)
  have takes₂ := takes.written (writes.shorter (min_le_right l size))
  obtain ⟨h', chain', gaveBack, frees, achieved⟩ := gives h₂ takes₂.valid writes.regions
  refine ⟨h', chain', ?_, ⟨frees.valid, ?_, fun _ => takes.fresh, ?_, ?_, ?_⟩, achieved⟩
  · exact (run_bind_ok copied).trans ((run_bind_ok gaveBack).trans rfl)
  · intro q k
    rw [frees.busy, takes₂.busy]
    constructor
    · rintro ⟨other, same | older⟩
      · exact .inl same
      · exact .inr ⟨other, older⟩
    · rintro (⟨rfl, rfl⟩ | ⟨other, older⟩)
      · exact ⟨apart, .inl ⟨rfl, rfl⟩⟩
      · exact ⟨other, .inr older⟩
  · intro i bound
    rw [frees.kept rc size apart ((takes₂.busy rc size).mpr (.inl ⟨rfl, rfl⟩)) i (by omega),
      bytes i bound, takes.kept ptr l member i (by omega)]
  · intro q k other older i bound
    rw [frees.kept q k other ((takes₂.busy q k).mpr (.inr older)) i bound]
    exact takes₂.kept q k older i bound
  · intro r known
    rw [frees.regions]
    exact takes₂.regions r known

theorem Takes.moveBlock :
    ∃ h' chain', moveBlock rc ptr (min l size) h₁ = .ok rc h' ∧
      Moves h h' chain ptr l rc size chain' := by
  obtain ⟨h', chain', ran, moves, -⟩ := takes.moveBlock_frees member (fun _ _ => True)
    fun h₂ valid _ => by
      obtain ⟨h', chain', ran, frees⟩ := valid.kfree ((takes.busy ptr l).mpr (.inr member))
      exact ⟨h', chain', ran, frees, trivial⟩
  exact ⟨h', chain', ran, moves⟩

end

/-- A block in use with fewer bytes of its room. -/
def shrunk (b : Block) (size : Nat) : Block := { b with size }

theorem shrunk_header (b : Block) (size n : Nat) :
    (shrunk b size).header n = { b.header n with size } := by
  have flags : (shrunk b size).flags = b.flags := rfl
  unfold Block.header
  rw [flags]
  simp only [shrunk]

theorem getMemSize_ok (valid : Valid h chain) (member : (ptr, l) ∈ busyBlocks chain) :
    getMemSize ptr h = .ok l h := by
  obtain ⟨pre, b, post, rfl, -, rfl, rfl⟩ := split_busy member
  have positive := valid.here.positive
  unfold getMemSize
  rw [run_if_neg (by omega), Fits.header_address (valid.fits b (by simp)),
    run_bind_ok (header_at valid.here)]
  rfl

section
variable (valid : Valid h (pre ++ b :: post)) (used : b.free = false)
include valid used

/-- The blocks in use after one has become smaller. -/
theorem Valid.busy_shrunk (size q k : Nat) : (q, k) ∈ busyBlocks (pre ++ shrunk b size :: post) ↔
      q = b.addr + headerSize ∧ k = size ∨
        q ≠ b.addr + headerSize ∧ (q, k) ∈ busyBlocks (pre ++ b :: post) := by
  rw [← valid.busy_freed used, busyBlocks_append, busyBlocks_append,
    busyBlocks_free (show (freed b).free = true from rfl),
    busyBlocks_busy (show (shrunk b size).free = false from used)]
  simp only [mem_append, mem_cons, Prod.mk.injEq]
  tauto

/-- A block keeps its place; the bytes it keeps are not touched. -/
theorem Valid.shrinks (valid' : Valid h' (pre ++ shrunk b size :: post)) (regions :
    h'.regions = h.regions)
    (outside : ∀ x, x < b.addr ∨ b.addr + headerSize ≤ x → h'.memory x = h.memory x) :
    Moves h h' (pre ++ b :: post) (b.addr + headerSize) b.size (b.addr + headerSize) size
      (pre ++ shrunk b size :: post) where
  valid := valid'
  busy := valid.busy_shrunk used size
  fresh := fun moved => absurd rfl moved
  copied := fun i _ => outside _ (by omega)
  kept := fun q k other inUse i bound => by
    have member : (b.addr + headerSize, b.size) ∈ busyBlocks (pre ++ b :: post) :=
      mem_busyBlocks.mpr ⟨b, by simp, used, rfl, rfl⟩
    have apart := valid.busy_apart inUse member other
    exact outside _ (by omega)
  regions := fun _ => regions ▸ id

end

section
variable (valid : Valid h chain) (member : (ptr, l) ∈ busyBlocks chain)
include valid member

/-- `krealloc` on a block in use. -/
theorem Valid.krealloc (serves : l < size → Serves h chain size) (depth : Nat) :
    ∃ rc h' chain', krealloc (depth + 2) ptr size h = .ok rc h' ∧
      (rc = 0 ∧ Quiet h h' chain chain' ∨ 0 < rc ∧ Moves h h' chain ptr l rc size chain') := by
  have bounds := valid.busy_small member
  have known := getMemSize_ok valid member
  unfold Kmalloc.krealloc
  rw [run_if_neg (by omega), run_bind_ok known]
  rcases lt_trichotomy l size with longer | same | shorter
  · rw [run_if_neg (by omega), run_if_neg (by omega)]
    obtain ⟨rc, h₁, chain₁, ran, outcome⟩ := valid.kmalloc (serves longer) depth
    rw [run_bind_ok ran]
    rcases outcome with ⟨rfl, quiet⟩ | ⟨positive, takes⟩
    · exact ⟨0, h₁, chain₁, run_if_pos rfl, .inl ⟨rfl, quiet⟩⟩
    · obtain ⟨h', chain', moved, moves⟩ := takes.moveBlock member
      exact ⟨rc, h', chain', (run_if_neg (by omega)).trans moved, .inr ⟨positive, moves⟩⟩
  · obtain ⟨pre, b, post, rfl, used, rfl, rfl⟩ := split_busy member
    subst same
    exact ⟨_, h, pre ++ b :: post, run_if_pos rfl, .inr ⟨by omega,
      valid.shrinks used valid rfl fun _ _ => rfl⟩⟩
  · obtain ⟨pre, b, post, rfl, used, rfl, rfl⟩ := split_busy member
    have inner := valid.busy b (by simp) used
    obtain ⟨m', sized, edits⟩ := setSize_ok valid.here.mapped (show size < 2 ^ 32 by omega)
    rw [valid.here.header, ← shrunk_header] at edits
    have valid' := valid.replace_one (c := shrunk b size) rfl rfl rfl shorter.le
      (fun _ => inner) edits
    refine ⟨_, _, _, ?_, .inr ⟨?_, valid.shrinks used valid' rfl edits.outside⟩⟩
    · rw [run_if_neg (by omega), run_if_pos shorter,
        Fits.header_address (valid.fits b (by simp)), run_bind_ok sized]
      rfl
    · omega

/-- `krecalloc` on a block in use always makes a new one. -/
theorem Valid.krecalloc (small : nelem * elsize < 2 ^ 32) (serves : Serves h chain
    (nelem * elsize)) (depth : Nat) :
    ∃ rc h' chain', krecalloc (depth + 2) ptr nelem elsize h = .ok rc h' ∧
      (rc = 0 ∧ Quiet h h' chain chain' ∨
        0 < rc ∧ Moves h h' chain ptr l rc (nelem * elsize) chain') := by
  have bounds := valid.busy_small member
  unfold Kmalloc.krecalloc
  rw [mulOverflow_false small, run_if_neg Bool.false_ne_true, run_if_neg (by omega),
    show wrap32 (nelem * elsize) = nelem * elsize from Nat.mod_eq_of_lt small]
  obtain ⟨rc, h₁, chain₁, ran, outcome⟩ := valid.intKmalloc serves depth
  rw [run_bind_ok ran]
  rcases outcome with ⟨rfl, quiet⟩ | ⟨positive, takes⟩
  · exact ⟨0, h₁, chain₁, run_if_pos rfl, .inl ⟨rfl, quiet⟩⟩
  · have known := getMemSize_ok takes.valid ((takes.busy ptr l).mpr (.inr member))
    obtain ⟨h₂, cleared, writes⟩ := clear_ok
      (takes.valid.busy_mapped ((takes.busy rc _).mpr (.inl ⟨rfl, rfl⟩)))
    obtain ⟨h', chain', moved, moves⟩ := (takes.written writes).moveBlock member
    refine ⟨rc, h', chain', ?_, .inr ⟨positive, moves⟩⟩
    rw [run_if_neg (by omega), run_bind_ok known, run_bind_ok cleared]
    exact moved

end

end Move

end SbOS.Kmalloc
