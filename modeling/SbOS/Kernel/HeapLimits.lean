import SbOS.Kernel.HeapRuns

/-! Requests of any size: `kmalloc` and the calls that multiply two sizes. The products
are checked; the sums with the size of a header and with what the heap grows by are not. -/
namespace SbOS.Kmalloc
open Bytes
open Kernel (wrap32 mulOverflow mulOverflow_iff mulOverflow_false)

inductive Request where
  | kmalloc (s : Nat)
  | kcalloc (nelem elsize : Nat)
  | kallocarray (nmemb size : Nat)
  | kreallocarray (ptr nmemb size : Nat)
  | krecalloc (ptr nelem elsize : Nat)
deriving DecidableEq, Repr

namespace Request

def perform (depth : Nat) : Request → HeapM Nat
  | kmalloc s => Kmalloc.kmalloc depth s
  | kcalloc nelem elsize => Kmalloc.kcalloc depth nelem elsize
  | kallocarray nmemb size => Kmalloc.kallocarray depth nmemb size
  | kreallocarray ptr nmemb size => Kmalloc.kreallocarray depth ptr nmemb size
  | krecalloc ptr nelem elsize => Kmalloc.krecalloc depth ptr nelem elsize

/-- The bytes asked for, as a number. -/
def extent : Request → Nat
  | kmalloc s => s
  | kcalloc nelem elsize => nelem * elsize
  | kallocarray nmemb size => nmemb * size
  | kreallocarray _ nmemb size => nmemb * size
  | krecalloc _ nelem elsize => nelem * elsize

/-- The block that is to be replaced, or the null pointer. -/
def old : Request → Nat
  | kmalloc _ => 0
  | kcalloc _ _ => 0
  | kallocarray _ _ => 0
  | kreallocarray ptr _ _ => ptr
  | krecalloc ptr _ _ => ptr

/-- Whether the call comes to `int_kmalloc`: not after an overflow of the product, and not
if `krealloc` can keep the block. -/
def Asks (live : Live) : Request → Prop
  | kmalloc _ => True
  | kcalloc nelem elsize => nelem * elsize < 2 ^ 32
  | kallocarray nmemb size => nmemb * size < 2 ^ 32
  | kreallocarray ptr nmemb size =>
    nmemb * size < 2 ^ 32 ∧ ∀ l, live ptr = some l → l < nmemb * size
  | krecalloc _ nelem elsize => nelem * elsize < 2 ^ 32

end Request

/-- The sizes computed for `s` bytes do not wrap around: the one that `find_free_entry`
searches for, and the ones of `add_heap_memory` if the search finds nothing. -/
def Unwrapped (h : Kheap) (s : Nat) : Prop :=
  s + headerSize < 2 ^ 32 ∧ ∀ h', findFreeEntry s h = .ok 0 h' → growth s < 2 ^ 32

/-- The call returns the null pointer, or memory of the heap that no other block has, and
nothing it computes on the way wraps around. -/
def Request.Clean (request : Request) (depth : Nat) (h : Kheap) (live : Live) : Prop :=
  (∃ rc h', request.perform depth h = .ok rc h' ∧
    (rc = 0 ∨ Mapped h'.regions rc request.extent ∧
      ∀ q k, live q = some k → q ≠ request.old → rc + request.extent ≤ q ∨ q + k ≤ rc)) ∧
  (request.Asks live → Unwrapped h request.extent)

section Answers
variable {h h' : Kheap} {live : Live} {chain chain' : List Block} {request : Request}
  {rc s l ptr nmemb size : Nat}

/-- What a call that returned a block shows. -/
def Answers (h' : Kheap) (live : Live) (old s rc : Nat) : Prop :=
  rc = 0 ∨ Mapped h'.regions rc s ∧
    ∀ q k, live q = some k → q ≠ old → rc + s ≤ q ∨ q + k ≤ rc

theorem Represents.answers_allocates (represents : Represents h live chain)
    (allocates : Allocates h h' chain s rc chain') (old : Nat) : Answers h' live old s rc := by
  rcases allocates with ⟨rfl, -⟩ | ⟨-, takes⟩
  · exact .inl rfl
  · have new := (takes.busy rc s).mpr (.inl ⟨rfl, rfl⟩)
    refine .inr ⟨takes.valid.busy_mapped new, fun q k inUse _ => ?_⟩
    have older := (represents.blocks q k).mp inUse
    have apart := takes.valid.busy_apart new ((takes.busy q k).mpr (.inr older))
      fun same => takes.fresh k (same ▸ older)
    omega

theorem Represents.answers_moves (represents : Represents h live chain)
    (outcome : rc = 0 ∧ Quiet h h' chain chain' ∨ 0 < rc ∧ Moves h h' chain ptr l rc s chain') :
    Answers h' live ptr s rc := by
  rcases outcome with ⟨rfl, -⟩ | ⟨-, moves⟩
  · exact .inl rfl
  · have new := (moves.busy rc s).mpr (.inl ⟨rfl, rfl⟩)
    refine .inr ⟨moves.valid.busy_mapped new, fun q k inUse other => ?_⟩
    have older := (represents.blocks q k).mp inUse
    have apart := moves.valid.busy_apart new ((moves.busy q k).mpr (.inr ⟨other, older⟩))
      fun same => moves.fresh (same ▸ other) k (same ▸ older)
    omega

/-- An overflow of the product is answered with the null pointer. -/
theorem overflow_null (large : 2 ^ 32 ≤ nmemb * size) (depth ptr : Nat) :
    kreallocarray depth ptr nmemb size h = .ok 0 h ∧ kcalloc depth nmemb size h = .ok 0 h ∧
      krecalloc depth ptr nmemb size h = .ok 0 h := by
  have overflows := (mulOverflow_iff nmemb size).mpr large
  exact ⟨run_if_pos overflows, run_if_pos overflows, run_if_pos overflows⟩

/-- Without an old block every call that does not overflow starts with `int_kmalloc`. -/
theorem Request.perform_null (null : request.old = 0) (asks : request.Asks live) (depth : Nat) :
    ∃ next, request.perform depth = intKmalloc depth request.extent >>= next := by
  have product {n k : Nat} (small : n * k < 2 ^ 32) : wrap32 (n * k) = n * k :=
    Nat.mod_eq_of_lt small
  have cleared {n k : Nat} (small : n * k < 2 ^ 32) :
      ∃ next, Kmalloc.kcalloc depth n k = intKmalloc depth (n * k) >>= next := by
    unfold Kmalloc.kcalloc
    rw [mulOverflow_false small, if_neg Bool.false_ne_true, product small]
    exact ⟨_, rfl⟩
  have filled {n k : Nat} (small : n * k < 2 ^ 32) :
      ∃ next, Kmalloc.kreallocarray depth 0 n k = intKmalloc depth (n * k) >>= next := by
    unfold Kmalloc.kreallocarray Kmalloc.krealloc Kmalloc.kmalloc
    rw [mulOverflow_false small, if_neg Bool.false_ne_true, product small, if_pos rfl]
    exact ⟨_, rfl⟩
  cases request with
  | kmalloc s => exact ⟨_, rfl⟩
  | kcalloc nelem elsize => exact cleared asks
  | kallocarray nmemb size => exact filled asks
  | kreallocarray ptr nmemb size =>
    cases null
    exact filled asks.1
  | krecalloc ptr nelem elsize =>
    cases null
    change ∃ next, Kmalloc.krecalloc depth 0 nelem elsize = _
    unfold Kmalloc.krecalloc
    rw [mulOverflow_false asks, if_neg Bool.false_ne_true, if_pos rfl]
    exact cleared asks

section
variable (represents : Represents h live chain)
include represents

theorem Represents.answered_kmalloc (serves : Serves h chain s) (depth : Nat) :
    ∃ rc h', Kmalloc.kmalloc (depth + 2) s h = .ok rc h' ∧ Answers h' live 0 s rc := by
  obtain ⟨rc, h', chain', ran, allocates⟩ := represents.valid.kmalloc serves depth
  exact ⟨rc, h', ran, represents.answers_allocates allocates 0⟩

theorem Represents.answered_kcalloc (serves : nmemb * size < 2 ^ 32 → Serves h chain
    (nmemb * size)) (depth : Nat) :
    ∃ rc h', Kmalloc.kcalloc (depth + 2) nmemb size h = .ok rc h' ∧
      Answers h' live 0 (nmemb * size) rc := by
  by_cases small : nmemb * size < 2 ^ 32
  · obtain ⟨rc, h', chain', ran, allocates⟩ := represents.valid.kcalloc small (serves small) depth
    exact ⟨rc, h', ran, represents.answers_allocates allocates 0⟩
  · exact ⟨0, h, (overflow_null (not_lt.mp small) _ 0).2.1, .inl rfl⟩

theorem Represents.answered_kreallocarray (names : Call.Names live ptr)
    (serves : (nmemb * size < 2 ^ 32 ∧ ∀ l, live ptr = some l → l < nmemb * size) →
      Serves h chain (nmemb * size)) (depth : Nat) :
    ∃ rc h', Kmalloc.kreallocarray (depth + 2) ptr nmemb size h = .ok rc h' ∧
      Answers h' live ptr (nmemb * size) rc := by
  by_cases small : nmemb * size < 2 ^ 32
  · unfold Kmalloc.kreallocarray
    rw [mulOverflow_false small, run_if_neg Bool.false_ne_true,
      show wrap32 (nmemb * size) = nmemb * size from Nat.mod_eq_of_lt small]
    rcases names with rfl | named
    · exact represents.answered_kmalloc
        (serves ⟨small, fun l named => nomatch represents.null.symm.trans named⟩) depth
    · obtain ⟨l, named⟩ := Option.isSome_iff_exists.mp named
      obtain ⟨rc, h', chain', ran, outcome⟩ := represents.valid.krealloc
        ((represents.blocks ptr l).mp named)
        (fun longer : l < nmemb * size => serves ⟨small, fun l' named' => by
          cases named.symm.trans named'
          exact longer⟩) depth
      exact ⟨rc, h', ran, represents.answers_moves outcome⟩
  · exact ⟨0, h, (overflow_null (not_lt.mp small) _ ptr).1, .inl rfl⟩

theorem Represents.answered_krecalloc (names : Call.Names live ptr)
    (serves : nmemb * size < 2 ^ 32 → Serves h chain (nmemb * size)) (depth : Nat) :
    ∃ rc h', Kmalloc.krecalloc (depth + 2) ptr nmemb size h = .ok rc h' ∧
      Answers h' live ptr (nmemb * size) rc := by
  by_cases small : nmemb * size < 2 ^ 32
  · rcases names with rfl | named
    · obtain ⟨rc, h', ran, answers⟩ := represents.answered_kcalloc serves depth
      refine ⟨rc, h', ?_, answers⟩
      unfold Kmalloc.krecalloc
      rw [mulOverflow_false small, run_if_neg Bool.false_ne_true, run_if_pos rfl]
      exact ran
    · obtain ⟨l, named⟩ := Option.isSome_iff_exists.mp named
      obtain ⟨rc, h', chain', ran, outcome⟩ := represents.valid.krecalloc
        ((represents.blocks ptr l).mp named) small (serves small) depth
      exact ⟨rc, h', ran, represents.answers_moves outcome⟩
  · exact ⟨0, h, (overflow_null (not_lt.mp small) _ ptr).2.2, .inl rfl⟩

/-- Every request that can be served is answered. -/
theorem Represents.answered (names : Call.Names live request.old)
    (serves : request.Asks live → Serves h chain request.extent) (depth : Nat) :
    ∃ rc h', request.perform (depth + 2) h = .ok rc h' ∧
      Answers h' live request.old request.extent rc := by
  cases request with
  | kmalloc s => exact represents.answered_kmalloc (serves trivial) depth
  | kcalloc nelem elsize => exact represents.answered_kcalloc serves depth
  | kallocarray nmemb size =>
    exact represents.answered_kreallocarray (.inl rfl) (fun asks => serves asks.1) depth
  | kreallocarray ptr nmemb size => exact represents.answered_kreallocarray names serves depth
  | krecalloc ptr nelem elsize => exact represents.answered_krecalloc names serves depth

end

/-- The search finds nothing exactly if no run of free blocks is large enough. -/
theorem Valid.search_null_iff (valid : Valid h chain) (small : s + headerSize < 2 ^ 32) :
    (∃ h', Kmalloc.findFreeEntry s h = .ok 0 h') ↔ NoneFits (opened h chain) (s + headerSize) := by
  have any {h : Kheap} {chain : List Block} (valid : Valid h chain) (started : chain ≠ []) :
      (∃ h', Kmalloc.findFreeEntry s h = .ok 0 h') ↔ NoneFits chain (s + headerSize) := by
    obtain ⟨p, h', ran, outcome⟩ := valid.findFreeEntry started small
    rw [ran]
    rcases outcome with ⟨⟨pre, b, post, rfl, -, -, settles⟩, some_fits⟩ | ⟨rfl, -, none_fits⟩
    · have positive := (settles.valid.fits b (by simp)).positive
      refine ⟨?_, fun none_fits => absurd none_fits some_fits⟩
      rintro ⟨h'', same⟩
      injection same
      omega
    · exact ⟨fun _ => none_fits, fun _ => ⟨h', rfl⟩⟩
  by_cases started : chain = []
  · subst started
    by_cases granted : ∃ p, Granted h newAllocSize p
    · obtain ⟨p, granted⟩ := granted
      obtain ⟨h₁, opens, valid₁, -⟩ := initHeap_granted granted
      have nonzero := valid₁.head_pos.mp (by simp)
      rw [findFreeEntry_first valid.head opens (by omega),
        show opened h [] = _ from opening_granted granted]
      exact any valid₁ (by simp)
    · have nothing : ∀ p, ¬ Granted h newAllocSize p := fun p holds => granted ⟨p, holds⟩
      rw [show opened h [] = [] from opening_refused nothing]
      refine ⟨fun _ t suffix => ?_, fun _ => ⟨_, findFreeEntry_refused valid.head nothing⟩⟩
      rw [List.suffix_nil.mp suffix]
      exact Nat.lt_of_lt_of_le (by decide) (Nat.le_add_left headerSize s)
  · rw [opened_started started]
    exact any valid started

/-- A heap without blocks whose first region is refused has had no region granted. -/
theorem opened_empty (empty : opened h chain = []) :
    chain = [] ∧ ∀ p, ¬ Granted h newAllocSize p := by
  cases chain with
  | nil =>
    refine ⟨rfl, fun p granted => ?_⟩
    cases (show opened h [] = _ from opening_granted granted).symm.trans empty
  | cons b rest => cases empty

/-- For every request in every state: the call returns the null pointer or its own memory
and computes no size that wraps around, exactly if the sum with a header is below `2 ^ 32`,
the size by which the heap would grow is too unless free memory is found, and the heap
does not get its first memory from `add_heap_memory`. -/
theorem request_clean_iff (represents : Represents h live chain)
    (positive : ∀ r ∈ h.regions, 0 < r.start) (names : Call.Names live request.old) (depth : Nat) :
    request.Clean (depth + 2) h live ↔
      (request.Asks live → Serves h chain request.extent) := by
  constructor
  · rintro ⟨⟨rc, h', ran, -⟩, unwrapped⟩ asks
    obtain ⟨small, grows⟩ := unwrapped asks
    refine ⟨small, fun none_fits => ?_, fun empty p granted => ?_⟩
    · obtain ⟨h'', nothing⟩ := (represents.valid.search_null_iff small).mpr none_fits
      exact grows h'' nothing
    · obtain ⟨rfl, nothing⟩ := opened_empty empty
      have null : request.old = 0 := by
        rcases names with null | named
        · exact null
        · obtain ⟨l, named⟩ := Option.isSome_iff_exists.mp named
          exact absurd ((represents.blocks _ l).mp named) List.not_mem_nil
      obtain ⟨next, calls⟩ := request.perform_null null asks (depth + 2)
      obtain ⟨h'', faults⟩ := intKmalloc_null ⟨represents.valid.head, represents.valid.final⟩
        positive nothing granted (depth + 1)
      rw [calls] at ran
      cases ran.symm.trans (run_bind_error faults)
  · intro serves
    refine ⟨represents.answered names serves depth, fun asks => ?_⟩
    have served := serves asks
    refine ⟨served.request, fun h' nothing => served.grows ?_⟩
    exact (represents.valid.search_null_iff served.request).mp ⟨h', nothing⟩

end Answers

/-- Two gigabytes of a heap that gets no memory. -/
theorem request_clean_iff_refused :
    (Request.kmalloc (2 ^ 31)).Clean 2 (answering fun _ => none) fun _ => none :=
  (request_clean_iff (Kheap.Unused.represents ⟨rfl, rfl⟩)
    (List.forall_mem_nil _) (.inl rfl) 0).mpr fun _ =>
      ⟨by decide, fun _ => by decide, fun _ _ granted => nomatch granted.answer⟩

/-- The call returned `rc`, with memory from these regions. -/
def returned (result : EStateM.Result Mmu.Stop Kheap Nat) (rc : Nat) (regions : List Region) :
    Bool :=
  match result with
  | .ok rc' h => rc' = rc && h.regions = regions
  | .error _ _ => false

theorem exists_of_returned
    (done : returned result rc regions = true) : ∃ h, result = .ok rc h ∧ h.regions = regions := by
  unfold returned at done
  split at done
  · rw [Bool.and_eq_true, decide_eq_true_iff, decide_eq_true_iff] at done
    obtain ⟨rfl, same⟩ := done
    exact ⟨_, rfl, same⟩
  · cases done

/-- With 16 bytes less than four gigabytes the search is for 4 bytes, which the first
region has; filling the block then leaves the memory of the heap. -/
theorem header_sum_wraps : (answering fun _ => some 0xd0000000).Unused ∧
    (∃ h', kmalloc 2 0xfffffff0 (answering fun _ => some 0xd0000000) = .error .pageFault h') ∧
    ¬ (Request.kmalloc 0xfffffff0).Clean 2 (answering fun _ => some 0xd0000000) fun _ => none := by
  have faults : ∃ h', kmalloc 2 0xfffffff0 (answering fun _ => some 0xd0000000) =
      .error .pageFault h' := by
    obtain ⟨h', ran, regions⟩ := exists_of_returned (show returned
      (intKmalloc 2 0xfffffff0 (answering fun _ => some 0xd0000000)) 0xd0000014
      [⟨0xd0000000, 0x40000⟩] = true by decide +kernel)
    have unmapped : ¬ Mapped h'.regions 0xd0000014 0xfffffff0 := by
      rw [regions]
      intro mapped
      obtain ⟨r, member, -, high⟩ := mapped 0x40000 (by decide)
      rw [List.mem_singleton.mp member] at high
      exact absurd high (by decide)
    refine ⟨h', (run_bind_ok ran).trans ?_⟩
    exact (run_if_neg (by decide)).trans (run_bind_error (run_bind_error (if_neg unmapped)))
  refine ⟨⟨rfl, rfl⟩, faults, ?_⟩
  rintro ⟨⟨rc, h', ran, -⟩, -⟩
  obtain ⟨h'', faults⟩ := faults
  cases ran.symm.trans faults

end SbOS.Kmalloc
