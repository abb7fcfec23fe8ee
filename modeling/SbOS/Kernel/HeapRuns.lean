import SbOS.Kernel.HeapCalls

/-! The kernel heap in use: sequences of `kmalloc`, `kcalloc`, `krealloc` and `kfree` that
free and reallocate blocks in use only. Every block handed out is memory from `ksbrk`
that no other block and no header has, as long as no call is given memory when `final`
is still the null pointer. -/
namespace SbOS.Kmalloc
open Bytes Function

/-- The blocks in use by address, with the sizes that were asked for. -/
abbrev Live := Nat → Option Nat

inductive Call where
  | kmalloc (s : Nat)
  | kcalloc (nelem elsize : Nat)
  | krealloc (ptr size : Nat)
  | kfree (p : Nat)
deriving DecidableEq, Repr

namespace Call

/-- The call, with allocations nested at most `depth` deep. -/
def perform (depth : Nat) : Call → HeapM Nat
  | kmalloc s => Kmalloc.kmalloc depth s
  | kcalloc nelem elsize => Kmalloc.kcalloc depth nelem elsize
  | krealloc ptr size => Kmalloc.krealloc depth ptr size
  | kfree p => do
    Kmalloc.kfree p
    return 0

/-- The blocks in use after the call has returned `rc`. -/
def after (live : Live) (rc : Nat) : Call → Live
  | kmalloc s => if rc = 0 then live else Function.update live rc (some s)
  | kcalloc nelem elsize =>
    if rc = 0 then live else Function.update live rc (some (nelem * elsize))
  | krealloc ptr size =>
    if rc = 0 then live else Function.update (Function.update live ptr none) rc (some size)
  | kfree p => Function.update live p none

/-- A pointer that may be freed or reallocated. -/
def Names (live : Live) (p : Nat) : Prop := p = 0 ∨ (live p).isSome = true

/-- Only blocks in use are named, and every size is below `2 ^ 30`. -/
def Permitted (live : Live) : Call → Prop
  | kmalloc s => s < 2 ^ 30
  | kcalloc nelem elsize => nelem * elsize < 2 ^ 30
  | krealloc ptr size => Names live ptr ∧ size < 2 ^ 30
  | kfree p => Names live p

end Call

/-- An allocation of `s` bytes does not find the heap without a region, fail to get the
first and then get another one from `add_heap_memory`. -/
def Grounded (h : Kheap) (s : Nat) : Prop :=
  h.head = 0 → opening h = [] → ∀ p, ¬ Granted h.refused (allocationSize s) p

def Call.Grounded (h : Kheap) : Call → Prop
  | kmalloc s => Kmalloc.Grounded h s
  | kcalloc nelem elsize => Kmalloc.Grounded h (nelem * elsize)
  | krealloc _ size => Kmalloc.Grounded h size
  | kfree _ => True

/-! ### What is to hold -/

/-- The headers met when following `n` from `a` on, up to the null pointer. -/
def Walks (m : Bytes) : (a : Nat) → List Nat → Prop
  | a, [] => a = 0
  | a, x :: rest => a = x ∧ x ≠ 0 ∧ (headerAt m x).magic = headerMagic ∧
    Walks m (headerAt m x).n rest

/-- The chain has each header once and ends at `final`; the blocks in use are those whose
header is not marked free, they are memory from `ksbrk`, and they overlap neither each
other nor a header. -/
structure Safe (h : Kheap) (live : Live) (headers : List Nat) : Prop where
  walks : Walks h.memory h.head headers
  once : headers.Nodup
  ends : headers.getLastD 0 = h.final
  in_use : ∀ p n, live p = some n ↔ ∃ a ∈ headers, p = a + headerSize ∧
    isFree (headerAt h.memory a).flags = false ∧ (headerAt h.memory a).size = n
  inside : ∀ p n, live p = some n → Mapped h.regions p n
  apart : ∀ p n q k, live p = some n → live q = some k → p ≠ q → p + n ≤ q ∨ q + k ≤ p
  off_headers : ∀ p n, live p = some n → ∀ a ∈ headers, p + n ≤ a ∨ a + headerSize ≤ p
  headers_inside : ∀ a ∈ headers, Mapped h.regions a headerSize

/-- What a call that returned `rc` has done to the bytes of the blocks in use. -/
structure Call.Good (call : Call) (live : Live) (rc : Nat) (h h' : Kheap) : Prop where
  fresh : rc ≠ 0 → live rc = none ∨ ∃ size, call = .krealloc rc size
  copied : ∀ ptr size l, call = .krealloc ptr size → live ptr = some l → rc ≠ 0 →
    ∀ i < min l size, h'.memory (rc + i) = h.memory (ptr + i)
  kept : ∀ q k, live q = some k → call.after live rc q = some k → q ≠ rc →
    ∀ i < k, h'.memory (q + i) = h.memory (q + i)

/-- The calls return one after the other, from safe states to safe states. -/
def AlwaysSafe (depth : Nat) : List Call → Kheap → Live → Prop
  | [], h, live => ∃ headers, Safe h live headers
  | call :: calls, h, live => (∃ headers, Safe h live headers) ∧
    ∃ rc h', call.perform depth h = .ok rc h' ∧ call.Good live rc h h' ∧
      AlwaysSafe depth calls h' (call.after live rc)

/-- Every call of the run meets the condition in the state it starts in. -/
def Meets (condition : Kheap → Live → Call → Prop) (depth : Nat) : List Call → Kheap → Live → Prop
  | [], _, _ => True
  | call :: calls, h, live => condition h live call ∧
    ∀ rc h', call.perform depth h = .ok rc h' → Meets condition depth calls h' (call.after live rc)

/-! ### Chains behind the blocks in use -/

/-- The blocks in use are those of a chain. -/
structure Represents (h : Kheap) (live : Live) (chain : List Block) : Prop where
  valid : Valid h chain
  blocks : ∀ p n, live p = some n ↔ (p, n) ∈ busyBlocks chain

section Represented
variable {h h' : Kheap} {live : Live} {chain chain' : List Block} {p n s rc ptr size l : Nat}

theorem Linked.walks (linked : Linked m chain 0) (fits : ∀ b ∈ chain, b.Fits) :
    Walks m (firstAddr chain 0) (chain.map Block.addr) := by
  induction chain with
  | nil => rfl
  | cons b rest ih =>
    obtain ⟨header, -, linked⟩ := linked
    have positive := (fits b (by simp)).positive
    refine ⟨rfl, by omega, by rw [header]; rfl, ?_⟩
    rw [header]
    exact ih linked fun c member => fits c (by simp [member])

theorem getLastD_addr (chain : List Block) : (chain.map Block.addr).getLastD 0 = lastAddr chain := by
  induction chain with
  | nil => rfl
  | cons b rest ih =>
    cases rest with
    | nil => rfl
    | cons c rest => exact ih

theorem Valid.header_of_mem (valid : Valid h chain) (member : b ∈ chain) :
    ∃ n, headerAt h.memory b.addr = b.header n := by
  obtain ⟨pre, post, rfl⟩ := List.append_of_mem member
  exact ⟨_, valid.header_eq⟩

theorem Represents.safe (represents : Represents h live chain) :
    Safe h live (chain.map Block.addr) := by
  have valid := represents.valid
  refine ⟨?_, ?_, ?_, ?_, ?_, ?_, ?_, ?_⟩
  · rw [valid.head]
    exact valid.linked.walks valid.fits
  · exact (List.nodup_map_iff_inj_on valid.nodup).mpr fun b member c member' same =>
      valid.addr_inj member member' same
  · rw [getLastD_addr, valid.final]
  · intro p n
    rw [represents.blocks, mem_busyBlocks]
    constructor
    · rintro ⟨b, member, used, rfl, rfl⟩
      obtain ⟨k, header⟩ := valid.header_of_mem member
      refine ⟨b.addr, List.mem_map_of_mem member, rfl, ?_⟩
      rw [header, isFree_header]
      exact ⟨used, rfl⟩
    · rintro ⟨a, member, rfl, used, rfl⟩
      obtain ⟨b, inChain, rfl⟩ := List.mem_map.mp member
      obtain ⟨k, header⟩ := valid.header_of_mem inChain
      rw [header, isFree_header] at used
      exact ⟨b, inChain, used, rfl, by rw [header]; rfl⟩
  · intro p n inUse
    exact valid.busy_mapped ((represents.blocks p n).mp inUse)
  · intro p n q k inUse inUse' other
    have apart := valid.busy_apart ((represents.blocks p n).mp inUse)
      ((represents.blocks q k).mp inUse') other
    omega
  · intro p n inUse a member
    obtain ⟨c, inChain, rfl⟩ := List.mem_map.mp member
    obtain ⟨b, inChain', -, rfl, rfl⟩ := mem_busyBlocks.mp ((represents.blocks p n).mp inUse)
    have within := (valid.fits b inChain').within
    have within' := (valid.fits c inChain).within
    by_cases same : b = c
    · rw [same]
      omega
    · rcases Block.order (valid.fits b inChain') (valid.fits c inChain)
        (valid.apart.forall inChain' inChain same) with first | first <;> omega
  · intro a member
    obtain ⟨c, inChain, rfl⟩ := List.mem_map.mp member
    exact valid.header_mapped inChain

/-! ### One call -/

section
variable (represents : Represents h live chain)
include represents

theorem Represents.absent (missing : ∀ k, (p, k) ∉ busyBlocks chain) : live p = none := by
  cases found : live p with
  | none => rfl
  | some k => exact absurd ((represents.blocks p k).mp found) (missing k)

theorem Represents.null : live 0 = none :=
  represents.absent fun k member => by
    have := (represents.valid.busy_small member).1
    omega

theorem Represents.quiet (quiet : Quiet h h' chain chain') : Represents h' live chain' :=
  ⟨quiet.valid, fun p n => by rw [quiet.busy, represents.blocks]⟩

/-- A block has been handed out. -/
theorem Represents.takes (takes : Takes h h' chain rc s chain') :
    Represents h' (update live rc (some s)) chain' where
  valid := takes.valid
  blocks := fun p n => by
    rw [takes.busy]
    by_cases same : p = rc
    · subst same
      have absent := takes.fresh
      simp only [update_self, Option.some.injEq, true_and]
      constructor
      · exact fun size => .inl size.symm
      · rintro (size | member)
        · exact size.symm
        · exact absurd member (absent n)
    · rw [update_of_ne same, represents.blocks]
      simp [same]

theorem Represents.moves (moves : Moves h h' chain ptr l rc size chain') :
    Represents h' (update (update live ptr none) rc (some size)) chain' where
  valid := moves.valid
  blocks := fun p n => by
    rw [moves.busy]
    by_cases same : p = rc
    · subst same
      simp only [update_self, Option.some.injEq, true_and]
      constructor
      · exact fun size => .inl size.symm
      · rintro (size | ⟨other, member⟩)
        · exact size.symm
        · exact absurd member (moves.fresh other n)
    · rw [update_of_ne same]
      by_cases same' : p = ptr
      · subst same'
        simp [same]
      · rw [update_of_ne same', represents.blocks]
        simp [same, same']

theorem Represents.frees (frees : Frees h h' chain p chain') :
    Represents h' (update live p none) chain' where
  valid := frees.valid
  blocks := fun q n => by
    rw [frees.busy]
    by_cases same : q = p
    · subst same
      simp
    · rw [update_of_ne same, represents.blocks]
      simp [same]

end

theorem growth_small (small : s < 2 ^ 30) : growth s < 2 ^ 32 := by
  have header : headerSize = 20 := rfl
  have step : newAllocSize = 0x40000 := rfl
  unfold growth deltaPage
  omega

/-- Requests below `2 ^ 30` do not wrap around. -/
theorem Valid.serves (valid : Valid h chain) (small : s < 2 ^ 30) (grounded : Grounded h s) :
    Serves h chain s where
  request := by
    have header : headerSize = 20 := rfl
    omega
  grows := fun _ => growth_small small
  started := by
    cases chain with
    | nil => exact grounded valid.head
    | cons b rest => nofun

section
variable (represents : Represents h live chain)
include represents

theorem Represents.forget_null : update live 0 none = live := by
  rw [← represents.null, update_eq_self]

/-- What the calls that hand out a block have in common. -/
theorem Represents.allocates (call : Call) (allocates : Allocates h h' chain s rc chain')
    (after : call.after live rc = if rc = 0 then live else update live rc (some s))
    (new : ∀ ptr size, call = .krealloc ptr size → live ptr = none) :
    call.Good live rc h h' ∧ Represents h' (call.after live rc) chain' := by
  have copied : ∀ ptr size l, call = .krealloc ptr size → live ptr = some l → rc ≠ 0 →
      ∀ i < min l size, h'.memory (rc + i) = h.memory (ptr + i) := fun ptr size l same named =>
    nomatch (new ptr size same).symm.trans named
  rw [after]
  rcases allocates with ⟨rfl, quiet⟩ | ⟨positive, takes⟩
  · refine ⟨⟨absurd rfl, copied, fun q k inUse _ _ => ?_⟩, represents.quiet quiet⟩
    exact quiet.kept q k ((represents.blocks q k).mp inUse)
  · rw [if_neg (by omega)]
    refine ⟨⟨fun _ => .inl (represents.absent takes.fresh), copied, fun q k inUse _ _ => ?_⟩,
      represents.takes takes⟩
    exact takes.kept q k ((represents.blocks q k).mp inUse)

theorem Represents.kfree (names : Call.Names live p) (depth : Nat) :
    ∃ h' chain', (Call.kfree p).perform depth h = .ok 0 h' ∧ (Call.kfree p).Good live 0 h h' ∧
      Represents h' ((Call.kfree p).after live 0) chain' := by
  rcases names with rfl | named
  · refine ⟨h, chain, rfl, ⟨absurd rfl, nofun, fun _ _ _ _ _ _ _ => rfl⟩, ?_⟩
    change Represents h (update live 0 none) chain
    rw [represents.forget_null]
    exact represents
  · obtain ⟨n, inUse⟩ := Option.isSome_iff_exists.mp named
    obtain ⟨h', chain', ran, frees⟩ :=
      represents.valid.kfree ((represents.blocks p n).mp inUse)
    refine ⟨h', chain', (run_bind_ok ran).trans rfl, ⟨absurd rfl, nofun, ?_⟩,
      represents.frees frees⟩
    intro q k inUse' still _
    have other : q ≠ p := fun same => by
      subst same
      simp [Call.after] at still
    exact frees.kept q k other ((represents.blocks q k).mp inUse')

theorem Represents.krealloc (named : live ptr = some l)
    (small : size < 2 ^ 30) (grounded : Grounded h size) (depth : Nat) :
    ∃ rc h' chain', (Call.krealloc ptr size).perform (depth + 2) h = .ok rc h' ∧
      (Call.krealloc ptr size).Good live rc h h' ∧
      Represents h' ((Call.krealloc ptr size).after live rc) chain' := by
  obtain ⟨rc, h', chain', ran, outcome⟩ := represents.valid.krealloc
    ((represents.blocks ptr l).mp named) (fun _ => represents.valid.serves small grounded) depth
  refine ⟨rc, h', chain', ran, ?_⟩
  rw [Call.after]
  rcases outcome with ⟨rfl, quiet⟩ | ⟨positive, moves⟩
  · exact ⟨⟨absurd rfl, fun _ _ _ _ _ nonzero => absurd rfl nonzero, fun q k inUse _ _ =>
      quiet.kept q k ((represents.blocks q k).mp inUse)⟩, represents.quiet quiet⟩
  · rw [if_neg (by omega)]
    refine ⟨⟨fun _ => ?_, ?_, ?_⟩, represents.moves moves⟩
    · by_cases same : rc = ptr
      · exact .inr ⟨size, by rw [same]⟩
      · exact .inl (represents.absent (moves.fresh same))
    · intro ptr' size' l' same named' _
      cases same
      cases named.symm.trans named'
      exact moves.copied
    · intro q k inUse still apart
      have other : q ≠ ptr := fun same => by
        subst same
        have nonzero : rc ≠ 0 := by omega
        simp [Call.after, nonzero, apart] at still
      exact moves.kept q k other ((represents.blocks q k).mp inUse)

/-- A permitted call returns, and there is a chain behind the blocks in use again. -/
theorem Represents.perform {call : Call}
    (permitted : call.Permitted live) (grounded : call.Grounded h) (depth : Nat) :
    ∃ rc h' chain', call.perform (depth + 2) h = .ok rc h' ∧ call.Good live rc h h' ∧
      Represents h' (call.after live rc) chain' := by
  cases call with
  | kmalloc s =>
    obtain ⟨rc, h', chain', ran, allocates⟩ :=
      represents.valid.kmalloc (represents.valid.serves permitted grounded) depth
    exact ⟨rc, h', chain', ran, represents.allocates _ allocates rfl nofun⟩
  | kcalloc nelem elsize =>
    obtain ⟨rc, h', chain', ran, allocates⟩ := represents.valid.kcalloc
      (Nat.lt_trans permitted (by decide)) (represents.valid.serves permitted grounded) depth
    exact ⟨rc, h', chain', ran, represents.allocates _ allocates rfl nofun⟩
  | krealloc ptr size =>
    obtain ⟨names, small⟩ := permitted
    rcases names with rfl | named
    · obtain ⟨rc, h', chain', ran, allocates⟩ :=
        represents.valid.kmalloc (represents.valid.serves small grounded) depth
      refine ⟨rc, h', chain', ran, represents.allocates _ allocates ?_ ?_⟩
      · rw [Call.after, represents.forget_null]
      · intro ptr' size' same
        cases same
        exact represents.null
    · obtain ⟨l, named⟩ := Option.isSome_iff_exists.mp named
      exact represents.krealloc named small grounded depth
  | kfree p =>
    obtain ⟨h', chain', ran, good, represents'⟩ := represents.kfree permitted (depth + 2)
    exact ⟨0, h', chain', ran, good, represents'⟩

end

end Represented

/-! ### Every run -/

/-- A heap that has not been used yet. -/
def Kheap.Unused (h : Kheap) : Prop := h.head = 0 ∧ h.final = 0

theorem Kheap.Unused.represents (unused : h.Unused) :
    Represents h (fun _ => none) [] where
  valid := ⟨unused.1, unused.2, trivial, nofun, .nil, nofun, nofun⟩
  blocks := fun p n => by simp [busyBlocks]

/-- What a call has to meet for the heap to stay safe. -/
def Careful (h : Kheap) (live : Live) (call : Call) : Prop :=
  call.Permitted live ∧ call.Grounded h

theorem Represents.run {h : Kheap} {live : Live} {chain : List Block} {calls : List Call}
    (represents : Represents h live chain) (depth : Nat)
    (careful : Meets Careful (depth + 2) calls h live) : AlwaysSafe (depth + 2) calls h live := by
  induction calls generalizing h live chain with
  | nil => exact ⟨_, represents.safe⟩
  | cons call calls ih =>
    obtain ⟨⟨permitted, grounded⟩, rest⟩ := careful
    obtain ⟨rc, h', chain', ran, good, represents'⟩ := represents.perform permitted grounded depth
    exact ⟨⟨_, represents.safe⟩, rc, h', ran, good, ih represents' (rest rc h' ran)⟩

/-- In every run on an unused heap in which no allocation is given memory when `final` is
still the null pointer, every call returns and the heap is safe in every state. Two
levels of recursion are enough. -/
theorem heap_safe_when_grounded (h : Kheap) (unused : h.Unused) (calls : List Call) (depth : Nat)
    (careful : Meets Careful (depth + 2) calls h fun _ => none) :
    AlwaysSafe (depth + 2) calls h fun _ => none :=
  unused.represents.run depth careful

/-- An unused heap with the given answers of `ksbrk` to come. -/
def answering (answers : Nat → Option Nat) : Kheap :=
  ⟨zeros, 0, 0, [], answers, fun _ => zeros⟩

theorem heap_safe_when_grounded_once :
    AlwaysSafe 2 [.kmalloc 1, .kfree 0xd0000014] (answering fun _ => some 0xd0000000)
      fun _ => none := by
  refine heap_safe_when_grounded _ ⟨rfl, rfl⟩ _ 0 ⟨⟨show 1 < 2 ^ 30 by decide, ?_⟩, fun rc _ ran => ?_⟩
  · intro _ nothing
    exact absurd nothing (by decide)
  · have evaluated : (match kmalloc 2 1 (answering fun _ => some 0xd0000000) with
        | .ok rc _ => rc
        | .error _ _ => 0) = 0xd0000014 := by decide +kernel
    rw [show kmalloc 2 1 _ = _ from ran] at evaluated
    have given : rc = 0xd0000014 := evaluated
    subst given
    exact ⟨⟨.inr rfl, trivial⟩, fun _ _ _ => trivial⟩

/-- The first call of `ksbrk` fails and the second succeeds: `add_heap_memory` reads the
flags of `final`, which is still the null pointer. -/
theorem second_answer_faults :
    (Call.kmalloc 1).Permitted (fun _ => none) ∧
    (answering fun i => if i = 0 then none else some 0xd0000000).Unused ∧
    ∀ depth, ¬ AlwaysSafe (depth + 1) [.kmalloc 1]
      (answering fun i => if i = 0 then none else some 0xd0000000) fun _ => none := by
  refine ⟨show 1 < 2 ^ 30 by decide, ⟨rfl, rfl⟩, ?_⟩
  rintro depth ⟨-, rc, h', ran, -⟩
  obtain ⟨h'', faults⟩ := intKmalloc_null (s := 1) (p := 0xd0000000)
    (h := answering fun i => if i = 0 then none else some 0xd0000000) ⟨rfl, rfl⟩ nofun
    (fun p granted => nomatch granted.answer) ⟨rfl, by decide⟩ depth
  have stopped : Kmalloc.kmalloc (depth + 1) 1 _ = .error .pageFault h'' := run_bind_error faults
  cases ran.symm.trans stopped

end SbOS.Kmalloc
