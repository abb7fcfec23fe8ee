import Mathlib.Algebra.Order.BigOperators.Group.List
import Mathlib.Data.List.Chain
import SbOS.Kernel.HeapLimits

/-! What becomes of the memory obtained for the heap. Splitting a block accounts for the
header it makes; merging two blocks loses one, `krealloc` to a smaller size loses the
difference, and a region added to the last block loses the header it does not need. In
runs that do none of this the headers and blocks of the chain are all of the memory. -/
namespace SbOS.Kmalloc
open Bytes Function List Bool

/-! ### Steps that merge nothing -/

/-- The next block of the region is free. -/
def Mergeable (b : Block) (rest : List Block) : Prop :=
  b.last = false ∧ ∃ c, rest.head? = some c ∧ c.free = true

/-- A search for `s` bytes merges nothing, neither on the way nor when the block it finds
is split. -/
def Calm (s : Nat) : List Block → Prop
  | [] => True
  | b :: rest => (b.free = true → ¬ Mergeable b rest) ∧
    (b.free = true ∧ s ≤ b.size ∨ Calm s rest)

/-- The free block that a calm search ends at. -/
def FoundIn (chain pre : List Block) (f : Block) (post : List Block) (s : Nat) : Prop :=
  chain = pre ++ f :: post ∧ f.free = true ∧ s ≤ f.size ∧ ¬ Mergeable f post

section Calmly
variable {h h' : Kheap} {chain pre post : List Block} {b c f : Block} {s n : Nat}

section
variable (valid : Valid h (pre ++ b :: post)) (calm : b.free = true → ¬ Mergeable b post)
include valid calm

theorem Valid.mergeHeaders_calm : Kmalloc.mergeHeaders b.addr h = .ok false h := by
  cases free : b.free with
  | false => exact mergeHeaders_busy valid.here free
  | true =>
    cases last : b.last with
    | true => exact mergeHeaders_last valid.here last
    | false =>
      cases post with
      | nil => exact absurd (valid.ends.symm.trans last) nofun
      | cons c rest =>
        refine mergeHeaders_next_busy valid.here valid.here_next ?_
        by_contra free'
        exact calm free ⟨last, c, rfl, by simpa using free'⟩

theorem Valid.mergeAll_calm : Kmalloc.mergeAll turns b.addr h = .ok () h := by
  exact run_bind_false (valid.mergeHeaders_calm calm)

/-- A block that is in use, or too small and not mergeable, is passed over. -/
theorem Valid.searchFrom_pass (small : b.free = true → b.size < s) (fuel : Nat) :
    Kmalloc.searchFrom s (fuel + 1) b.addr h = Kmalloc.searchFrom s fuel (firstAddr post 0) h := by
  have nonzero := valid.here.positive
  rw [Kmalloc.searchFrom, if_neg (by omega), run_bind_ok (header_at valid.here),
    run_bind_ok (magic_ok b _)]
  cases free : b.free with
  | false => rw [run_if_pos (by simp [isFree_header, free]), run_bind_ok (nextHeader_ok valid)]
  | true =>
    have less : (b.header (firstAddr post 0)).size < s := small free
    rw [run_if_neg (by simp [isFree_header, free]), run_if_pos less,
      run_bind_ok (valid.mergeAll_calm calm), run_bind_ok (header_at valid.here),
      run_if_neg (Nat.not_le_of_lt less), run_bind_ok (nextHeader_ok valid)]

end

theorem Valid.searchFrom_stop (valid : Valid h (pre ++ b :: post)) (free : b.free = true)
    (large : s ≤ b.size) (fuel : Nat) :
    Kmalloc.searchFrom s (fuel + 1) b.addr h = .ok b.addr h := by
  have nonzero := valid.here.positive
  have enough : ¬ (b.header (firstAddr post 0)).size < s := not_lt.mpr large
  rw [Kmalloc.searchFrom, if_neg (by omega), run_bind_ok (header_at valid.here),
    run_bind_ok (magic_ok b _), run_if_neg (by simp [isFree_header, free]), run_if_neg enough]
  rfl

/-- A calm search leaves the heap as it is. -/
theorem Valid.searchFrom_calm (valid : Valid h (pre ++ post)) (calm : Calm s post) (fuel : Nat)
    (enough : post.length < fuel) :
    (∃ u f v, FoundIn post u f v s ∧
      Kmalloc.searchFrom s fuel (firstAddr post 0) h = .ok f.addr h) ∨
      (∀ b ∈ post, b.free = true → b.size < s) ∧
        Kmalloc.searchFrom s fuel (firstAddr post 0) h = .ok 0 h := by
  induction fuel generalizing pre post with
  | zero => cases enough
  | succ fuel ih =>
    cases post with
    | nil =>
      exact .inr ⟨forall_mem_nil _, run_if_pos rfl⟩
    | cons b rest =>
      have shifted : Valid h ((pre ++ [b]) ++ rest) := by simpa using valid
      obtain ⟨quiet, onward⟩ := calm
      by_cases found : b.free = true ∧ s ≤ b.size
      · exact .inl ⟨[], b, rest, ⟨rfl, found.1, found.2, quiet found.1⟩,
          valid.searchFrom_stop found.1 found.2 fuel⟩
      · have small (free : b.free = true) : b.size < s :=
          Nat.lt_of_not_le fun large => found ⟨free, large⟩
        have passes := valid.searchFrom_pass quiet small fuel
        rcases ih shifted (onward.resolve_left found) (Nat.lt_of_succ_lt_succ enough) with
          ⟨u, f, v, ⟨rfl, free, size, alone⟩, ran⟩ | ⟨none_fits, ran⟩
        · exact .inl ⟨b :: u, f, v, ⟨rfl, free, size, alone⟩, passes.trans ran⟩
        · refine .inr ⟨fun c member free => ?_, passes.trans ran⟩
          rcases mem_cons.mp member with rfl | member
          · exact small free
          · exact none_fits c member free

theorem Valid.findFreeEntry_calm (valid : Valid h chain) (started : chain ≠ [])
    (small : s + headerSize < 2 ^ 32) (calm : Calm (s + headerSize) chain) :
    (∃ pre f post, FoundIn chain pre f post (s + headerSize) ∧
      Kmalloc.findFreeEntry s h = .ok f.addr h) ∨
      (∀ b ∈ chain, b.free = true → b.size < s + headerSize) ∧
        Kmalloc.findFreeEntry s h = .ok 0 h := by
  rw [valid.findFreeEntry_eq started small]
  exact (show Valid h ([] ++ chain) from valid).searchFrom_calm calm turns valid.short

end Calmly

/-! ### Accounts -/

/-- The bytes of the blocks with their headers. -/
def held (chain : List Block) : Nat := (chain.map fun b => b.size + headerSize).sum

/-- A free block that another one follows in its region is not the last but one. -/
def Guards (b c : Block) : Prop := b.last = true ∨ b.free = false ∨ c.last = false

/-- The chain accounts for all memory of the regions, each of which has one last block. -/
structure Tally (regions : List Region) (chain : List Block) : Prop where
  total : held chain = (regions.map Region.length).sum
  ends : chain.countP Block.last = regions.length
  large : ∀ r ∈ regions, newAllocSize ≤ r.length
  guarded : chain.IsChain Guards

section Accounts
variable {regions : List Region} {chain pre post : List Block} {b c f : Block} {s n p size : Nat}

theorem held_append (xs ys : List Block) : held (xs ++ ys) = held xs + held ys := by
  simp [held]

theorem held_cons (b : Block) (xs : List Block) :
    held (b :: xs) = b.size + headerSize + held xs := by
  simp [held]

/-- A block may be replaced at the end of a guarded list. -/
theorem guarded_end (guarded : (pre ++ [b]).IsChain Guards) (weaker : ∀ x, Guards x b → Guards x c) :
    (pre ++ [c]).IsChain Guards := by
  obtain ⟨before, -, joint⟩ := isChain_append.mp guarded
  refine isChain_append.mpr ⟨before, isChain_singleton c, fun x last y first => ?_⟩
  simp only [head?_cons, Option.mem_def, Option.some.injEq] at first
  subst first
  exact weaker x (joint x last b rfl)

/-- The header of the new block is taken from the block that is split. -/
theorem Tally.split (tally : Tally regions (pre ++ f :: post)) (free : f.free = true)
    (space : n + headerSize ≤ f.size) :
    Tally regions (pre ++ taken f n :: leftover f n :: post) where
  total := by
    rw [← tally.total]
    simp only [held_append, held_cons]
    change held pre + (n + headerSize + (f.size - n - headerSize + headerSize + held post)) = _
    omega
  ends := by
    rw [← tally.ends]
    simp [countP_append, countP_cons, taken, leftover]
  large := tally.large
  guarded := by
    obtain ⟨before, behind⟩ := isChain_split.mp tally.guarded
    refine isChain_split.mpr ⟨guarded_end before fun _ _ => .inr (.inr rfl), ?_⟩
    refine isChain_cons_cons.mpr ⟨.inr (.inl rfl), ?_⟩
    obtain ⟨joint, rest⟩ := isChain_cons.mp behind
    refine isChain_cons.mpr ⟨fun c first => ?_, rest⟩
    rcases joint c first with last | used | inner
    · exact .inl last
    · exact absurd (free.symm.trans used) Bool.noConfusion
    · exact .inr (.inr inner)

theorem Tally.append (tally : Tally regions (pre ++ [f])) (last : f.last = true)
    (large : newAllocSize ≤ size) :
    Tally (⟨p, size⟩ :: regions) (pre ++ [f, regionBlock p size]) where
  total := by
    have header : headerSize ≤ size := Nat.le_trans (by decide) large
    rw [map_cons, sum_cons, ← tally.total]
    simp only [held_append, held_cons]
    change held pre + (f.size + headerSize + (size - headerSize + headerSize + held [])) = _
    omega
  ends := by
    have := tally.ends
    simp only [countP_append, countP_cons, last, regionBlock, if_true, countP_nil,
      length_cons] at this ⊢
    omega
  large := forall_mem_cons.mpr ⟨large, tally.large⟩
  guarded := isChain_split.mpr ⟨tally.guarded, isChain_pair.mpr (.inl last)⟩

/-- A block whose neighbour is in use is freed without merging. -/
theorem Tally.freed (tally : Tally regions (pre ++ b :: c :: post)) (inner : b.last = false)
    (inner' : c.last = false) : Tally regions (pre ++ freed b :: c :: post) where
  total := by
    rw [← tally.total]
    simp only [held_append, held_cons]
    rfl
  ends := by
    rw [← tally.ends]
    simp [countP_append, countP_cons, Kmalloc.freed]
  large := tally.large
  guarded := by
    obtain ⟨before, behind⟩ := isChain_split.mp tally.guarded
    obtain ⟨-, rest⟩ := isChain_cons_cons.mp behind
    exact isChain_split.mpr ⟨guarded_end before fun _ _ => .inr (.inr inner),
      isChain_cons_cons.mpr ⟨.inr (.inr inner'), rest⟩⟩

/-- If every block of a guarded chain is free, each is the last of its region. -/
theorem all_last (guarded : chain.IsChain Guards) (free : ∀ b ∈ chain, b.free = true)
    (ends : ∀ f ∈ chain.getLast?, f.last = true) : ∀ b ∈ chain, b.last = true := by
  induction chain with
  | nil => nofun
  | cons b rest ih =>
    cases rest with
    | nil =>
      intro c member
      rw [mem_singleton.mp member]
      exact ends b rfl
    | cons c rest =>
      obtain ⟨guards, behind⟩ := isChain_cons_cons.mp guarded
      have others := ih behind (fun d member => free d (by simp [member])) ends
      intro d member
      rcases mem_cons.mp member with rfl | member
      · rcases guards with last | used | inner
        · exact last
        · exact absurd ((free d (by simp)).symm.trans used) nofun
        · exact absurd ((others c (by simp)).symm.trans inner) nofun
      · exact others d member

/-- A chain of free blocks has one that is as large as the first region was. -/
theorem Tally.largest (tally : Tally regions chain) (started : chain ≠ [])
    (free : ∀ b ∈ chain, b.free = true) (ends : ∀ f ∈ chain.getLast?, f.last = true) :
    ∃ b ∈ chain, newAllocSize ≤ b.size + headerSize := by
  by_contra all_small
  have small : ∀ n ∈ chain.map (fun b => b.size + headerSize), n ≤ newAllocSize - 1 := by
    intro n member
    obtain ⟨b, inChain, rfl⟩ := mem_map.mp member
    have : ¬ newAllocSize ≤ b.size + headerSize := fun large => all_small ⟨b, inChain, large⟩
    omega
  have large : ∀ n ∈ regions.map Region.length, newAllocSize ≤ n := by
    intro n member
    obtain ⟨r, inRegions, rfl⟩ := mem_map.mp member
    exact tally.large r inRegions
  have above := sum_le_card_nsmul _ _ small
  have below := card_nsmul_le_sum _ _ large
  have count : chain.length = regions.length := by
    rw [← tally.ends, eq_comm, countP_eq_length]
    exact all_last tally.guarded free ends
  have positive := length_pos_of_ne_nil started
  rw [← tally.total] at below
  simp only [length_map, Nat.nsmul_eq_mul, ← count] at above below
  have chained := below.trans above
  rw [Nat.mul_le_mul_left_iff positive] at chained
  exact absurd chained (by decide)

/-- Two blocks in use that are neighbours are so in the other chain. -/
def KeepsNeighbours (chain chain' : List Block) : Prop :=
  ∀ b c, b.free = false → c.free = false → [b, c] <:+: chain → [b, c] <:+: chain'

theorem keepsNeighbours_split (pre post : List Block) (free : f.free = true) (mid : List Block) :
    KeepsNeighbours (pre ++ f :: post) (pre ++ mid ++ post) := by
  rintro b c used used' ⟨u, v, same⟩
  rw [append_assoc] at same
  rcases append_eq_append_iff.mp same with ⟨w, rfl, rest⟩ | ⟨w, rfl, rest⟩
  · -- the two blocks start inside `pre`
    match w, rest with
    | [], rest =>
      injection rest with same
      rw [same] at used
      cases free.symm.trans used
    | [_], rest =>
      injection rest with _ rest
      injection rest with same
      rw [same] at used'
      cases free.symm.trans used'
    | x :: y :: w, rest =>
      injection rest with same rest
      injection rest with same' _
      subst same same'
      exact ⟨u, w ++ mid ++ post, by simp⟩
  · match w, rest with
    | [], rest =>
      injection rest with same
      rw [← same] at used
      cases free.symm.trans used
    | x :: w, rest =>
      injection rest with _ rest
      exact ⟨pre ++ mid ++ w, v, by simp [rest]⟩

end Accounts

/-! ### Allocating without a loss -/

section Frugally
variable {h h' h'' : Kheap} {chain chain' chain'' pre post : List Block} {b c f : Block}
  {s n p rc depth ptr l size : Nat}

theorem afterSplit_alone (alone : ¬ Mergeable f post) (n : Nat) :
    afterSplit f n post = leftover f n :: post := by
  cases post with
  | nil => rfl
  | cons c rest =>
    refine if_neg fun both => alone ?_
    rw [and_eq_true, not_eq_true'] at both
    exact ⟨both.1, c, rfl, both.2⟩

/-- An allocation after which the chain still accounts for all memory. -/
structure Spares (h h' : Kheap) (chain : List Block) (s rc : Nat) (chain' : List Block) : Prop where
  allocates : Allocates h h' chain s rc chain'
  tally : Tally h'.regions chain'
  neighbours : KeepsNeighbours chain chain'

theorem Spares.after (spares : Spares h' h'' chain' s rc chain'') (quiet : Quiet h h' chain chain')
    (neighbours : KeepsNeighbours chain chain') : Spares h h'' chain s rc chain'' :=
  ⟨spares.allocates.after quiet, spares.tally, fun b c used used' together =>
    spares.neighbours b c used used' (neighbours b c used used' together)⟩

section
variable (spares : Spares h h' chain s rc chain') (nonzero : rc ≠ 0)
include spares nonzero

theorem Spares.mapped : Mapped h'.regions rc s := by
  rcases spares.allocates with ⟨null, -⟩ | ⟨-, takes⟩
  · exact absurd null nonzero
  · exact takes.valid.busy_mapped ((takes.busy rc s).mpr (.inl ⟨rfl, rfl⟩))

theorem Spares.written (writes : Writes h' h'' rc s) : Spares h h'' chain s rc chain' := by
  refine ⟨spares.allocates.imp (fun null => absurd null.1 nonzero) ?_,
    writes.regions.symm ▸ spares.tally, spares.neighbours⟩
  exact fun ⟨positive, takes⟩ => ⟨positive, takes.written writes⟩

end

theorem Valid.spares_found (valid : Valid h chain) (tally : Tally h.regions chain)
    (found : FoundIn chain pre f post (s + headerSize)) (ran : Kmalloc.findFreeEntry s h = .ok f.addr h)
    (depth : Nat) :
    ∃ h' chain', Kmalloc.intKmalloc (depth + 1) s h = .ok (f.addr + headerSize) h' ∧
      Spares h h' chain s (f.addr + headerSize) chain' := by
  obtain ⟨rfl, free, space, alone⟩ := found
  obtain ⟨h', split_ran, -, regions, takes⟩ := valid.split free space
  rw [afterSplit_alone alone] at takes
  have positive := valid.here.positive
  refine ⟨h', _, ?_, .inr ⟨by omega, takes⟩, regions.symm ▸ tally.split free space, ?_⟩
  · unfold Kmalloc.intKmalloc
    rw [run_bind_ok ran, run_if_neg (by omega)]
    exact split_ran
  · have kept := keepsNeighbours_split pre post free [taken f s, leftover f s]
    simpa using kept

/-- A region more does not make a calm search merge anything. -/
theorem Calm.append (calm : Calm s chain) (small : ∀ b ∈ chain, b.free = true → b.size < s)
    (ends : ∀ f ∈ chain.getLast?, f.last = true) (last : b.last = true) :
    Calm s (chain ++ [b]) := by
  induction chain with
  | nil => exact ⟨fun _ merges => absurd (last.symm.trans merges.1) nofun, .inr trivial⟩
  | cons c rest ih =>
    obtain ⟨alone, onward⟩ := calm
    have onward' : Calm s rest := onward.resolve_left fun found =>
      absurd found.2 (Nat.not_le_of_lt (small c (by simp) found.1))
    cases rest with
    | nil =>
      refine ⟨fun _ merges => ?_, .inr ⟨fun _ merges => ?_, .inr trivial⟩⟩
      · exact absurd ((ends c rfl).symm.trans merges.1) nofun
      · exact absurd (last.symm.trans merges.1) nofun
    | cons d rest =>
      exact ⟨alone, .inr (ih onward' (fun e member => small e (by simp [member])) ends)⟩

theorem Valid.last_block (valid : Valid h chain) : ∀ f ∈ chain.getLast?, f.last = true := by
  intro f last
  obtain ⟨pre, rfl⟩ := getLast?_eq_some_iff.mp last
  exact valid.ends

/-- `int_kmalloc` on a heap that has been started, with a calm search and no region that
continues the last block. -/
theorem Valid.spares_started (valid : Valid h chain) (tally : Tally h.regions chain)
    (started : chain ≠ []) (small : growth s < 2 ^ 32) (calm : Calm (s + headerSize) chain)
    (apart : ∀ f ∈ chain.getLast?, (∀ b ∈ chain, b.free = true → b.size < s + headerSize) →
      h.brk 0 ≠ some (f.addr + headerSize + f.size)) (depth : Nat) :
    ∃ rc h' chain', Kmalloc.intKmalloc (depth + 2) s h = .ok rc h' ∧
      Spares h h' chain s rc chain' := by
  have large := growth_large s
  have exactly := allocationSize_eq small
  rcases valid.findFreeEntry_calm started (by omega) calm with
    ⟨pre, f, post, found, ran⟩ | ⟨none_fits, ran⟩
  · obtain ⟨h', chain', done, spares⟩ := valid.spares_found tally found ran (depth + 1)
    exact ⟨_, h', chain', done, spares⟩
  · obtain ⟨pre, f, rfl⟩ := (eq_nil_or_concat' chain).resolve_left started
    have refuses := apart f (by simp) none_fits
    unfold Kmalloc.intKmalloc
    rw [run_bind_ok ran, run_if_pos rfl]
    by_cases granted : ∃ p, Granted h (allocationSize s) p
    · obtain ⟨p, granted⟩ := granted
      obtain ⟨h₁, grew, obtained, quiet⟩ := valid.addHeapMemory_apart granted (by omega)
        fun same => refuses (same ▸ granted.answer)
      have tally₁ := tally.append (p := p) valid.ends
        (exactly ▸ newAllocSize_le_growth s : newAllocSize ≤ allocationSize s)
      have calm₁ := calm.append none_fits valid.last_block
        (show (regionBlock p (allocationSize s)).last = true from rfl)
      rw [← obtained.region_list] at tally₁
      rw [append_assoc, singleton_append] at calm₁
      rcases quiet.valid.findFreeEntry_calm (by simp) (by omega) calm₁ with
        ⟨pre', f', post', found, ran₁⟩ | ⟨none_fits₁, -⟩
      · obtain ⟨h₂, chain', done, spares⟩ := quiet.valid.spares_found tally₁ found ran₁ depth
        have nonzero : f'.addr + headerSize ≠ 0 :=
          Nat.ne_of_gt (Nat.lt_of_lt_of_le (by decide) (Nat.le_add_left headerSize _))
        obtain ⟨h', filled, writes⟩ := getFastInsecureRandom_ok (spares.mapped nonzero)
        have appended : KeepsNeighbours (pre ++ [f]) (pre ++ [f, regionBlock p (allocationSize s)]) :=
          fun b c _ _ together => together.trans ⟨[], [regionBlock p (allocationSize s)], by
            rw [nil_append, append_assoc, singleton_append]⟩
        refine ⟨_, h', chain', ?_, (spares.written nonzero writes).after quiet appended⟩
        rw [run_bind_ok grew, run_if_pos rfl, run_bind_ok done, run_if_neg nonzero,
          run_bind_ok filled]
        rfl
      · have less := none_fits₁ (regionBlock p (allocationSize s)) (by simp) rfl
        change allocationSize s - headerSize < s + headerSize at less
        omega
    · refine ⟨0, h.refused, pre ++ [f], run_bind_false (addHeapMemory_refused fun p holds =>
        granted ⟨p, holds⟩), .inl ⟨rfl, valid.refused, rfl, fun _ _ _ _ _ => rfl, fun _ => id⟩,
        tally, fun _ _ _ _ => id⟩

/-- The first region accounts for itself. -/
theorem Tally.first (tally : Tally regions []) :
    Tally (⟨p, newAllocSize⟩ :: regions) [regionBlock p newAllocSize] := by
  obtain rfl : regions = [] := eq_nil_of_length_eq_zero tally.ends.symm
  refine ⟨rfl, rfl, fun r member => ?_, isChain_singleton _⟩
  rw [mem_singleton.mp member]

/-- An allocation of `s` bytes wastes nothing: no size wraps around, the search merges
nothing, `ksbrk` does not continue the last block, and `final` is not the null pointer when
`add_heap_memory` gets memory. -/
structure Frugal (h : Kheap) (chain : List Block) (s : Nat) : Prop where
  small : growth s < 2 ^ 32
  calm : Calm (s + headerSize) (opened h chain)
  apart : ∀ f ∈ (opened h chain).getLast?,
    (∀ b ∈ opened h chain, b.free = true → b.size < s + headerSize) →
      h.brk (if chain.isEmpty then 1 else 0) ≠ some (f.addr + headerSize + f.size)
  started : opened h chain = [] → ∀ p, ¬ Granted h.refused (allocationSize s) p

section
variable (valid : Valid h chain) (tally : Tally h.regions chain)
include valid tally

theorem Valid.spares (frugal : Frugal h chain s) (depth : Nat) :
    ∃ rc h' chain', Kmalloc.intKmalloc (depth + 2) s h = .ok rc h' ∧
      Spares h h' chain s rc chain' := by
  obtain ⟨small, calm, apart, grounded⟩ := frugal
  by_cases started : chain = []
  · subst started
    by_cases granted : ∃ p, Granted h newAllocSize p
    · obtain ⟨p, granted⟩ := granted
      obtain ⟨h₁, opens, valid₁, obtained⟩ := initHeap_granted granted
      have nonzero := valid₁.head_pos.mp (by simp)
      rw [show opened h [] = _ from opening_granted granted] at calm apart
      have tally₁ := tally.first (p := p)
      rw [← obtained.region_list] at tally₁
      obtain ⟨rc, h', chain', ran, spares⟩ := valid₁.spares_started tally₁ (by simp) small calm
        (fun f last none_fits => by
          rw [obtained.brk]
          exact apart f last none_fits) depth
      exact ⟨rc, h', chain', (intKmalloc_first valid.head opens (by omega) _).trans ran,
        spares.after (obtained.quiet valid₁) fun _ _ _ _ together => by simp at together⟩
    · have nothing : ∀ p, ¬ Granted h newAllocSize p := fun p holds => granted ⟨p, holds⟩
      obtain ⟨h', ran, quiet, same⟩ :=
        valid.intKmalloc_refused nothing (grounded (opening_refused nothing)) depth
      exact ⟨0, h', [], ran, .inl ⟨rfl, quiet⟩, same ▸ tally, fun _ _ _ _ => id⟩
  · rw [opened_started started] at calm apart
    refine valid.spares_started tally started small calm (fun f last none_fits => ?_) depth
    have refuses := apart f last none_fits
    rwa [if_neg (by simpa using started)] at refuses

/-- `int_kmalloc` and a write to all of the block it returned. -/
theorem Valid.spares_written (frugal : Frugal h chain s) (depth : Nat) (write : Nat → HeapM Unit)
    (writes : ∀ rc (h : Kheap), Mapped h.regions rc s → ∃ h', write rc h = .ok () h' ∧
      Writes h h' rc s) :
    ∃ rc h' chain', (do
        let rc ← Kmalloc.intKmalloc (depth + 2) s
        if rc = 0 then return 0
        write rc
        return rc : HeapM Nat) h = .ok rc h' ∧ Spares h h' chain s rc chain' := by
  obtain ⟨rc, h₁, chain', ran, spares⟩ := valid.spares tally frugal depth
  by_cases null : rc = 0
  · exact ⟨rc, h₁, chain', (run_bind_ok ran).trans ((run_if_pos null).trans (null ▸ rfl)), spares⟩
  · obtain ⟨h', filled, writes⟩ := writes rc h₁ (spares.mapped null)
    refine ⟨rc, h', chain', ?_, spares.written null writes⟩
    rw [run_bind_ok ran, run_if_neg null, run_bind_ok filled]
    rfl

/-- The block at `p` is followed by one in use. -/
def NextInUse (chain : List Block) (p : Nat) : Prop :=
  ∃ b c, p = b.addr + headerSize ∧ b.free = false ∧ c.free = false ∧ [b, c] <:+: chain

/-- Freeing a block before one in use merges nothing. -/
theorem Valid.kfree_frugal (guarded : NextInUse chain p) :
    ∃ h' chain', Kmalloc.kfree p h = .ok () h' ∧ Frees h h' chain p chain' ∧
      Tally h'.regions chain' := by
  obtain ⟨b, c, rfl, used, used', pre, post, rfl⟩ := guarded
  rw [append_assoc] at valid tally ⊢
  have inner := valid.busy b (by simp) used
  have inner' := valid.busy c (by simp) used'
  obtain ⟨h', marked, valid', kept, brk, regions⟩ := valid.kfree_marks used
  have calm : (freed b).free = true → ¬ Mergeable (freed b) (c :: post) := by
    rintro - ⟨-, d, first, free⟩
    cases first
    cases used'.symm.trans free
  refine ⟨h', pre ++ freed b :: c :: post, ?_, ⟨valid', valid.busy_freed used, kept, brk, regions⟩,
    regions.symm ▸ tally.freed inner inner'⟩
  exact marked.trans ((run_bind_ok (valid'.mergeHeaders_calm calm)).trans rfl)

/-- `krealloc` to a larger size, with the old block before one in use. -/
theorem Valid.krealloc_frugal (member : (ptr, l) ∈ busyBlocks chain) (longer : l < size)
    (frugal : Frugal h chain size)
    (guarded : NextInUse chain ptr) (depth : Nat) :
    ∃ rc h' chain', Kmalloc.krealloc (depth + 2) ptr size h = .ok rc h' ∧
      Tally h'.regions chain' ∧
      (rc = 0 ∧ Quiet h h' chain chain' ∨ 0 < rc ∧ Moves h h' chain ptr l rc size chain') := by
  have bounds := valid.busy_small member
  obtain ⟨rc, h₁, chain₁, ran, spares⟩ := valid.spares_written tally frugal depth
    (fun rc => getFastInsecureRandom rc size) fun _ _ mapped => getFastInsecureRandom_ok mapped
  unfold Kmalloc.krealloc
  rw [run_if_neg (by omega), run_bind_ok (getMemSize_ok valid member), run_if_neg (by omega),
    run_if_neg (by omega), run_bind_ok (show Kmalloc.kmalloc (depth + 2) size h = _ from ran)]
  rcases spares.allocates with ⟨rfl, quiet⟩ | ⟨positive, takes⟩
  · exact ⟨0, h₁, chain₁, run_if_pos rfl, spares.tally, .inl ⟨rfl, quiet⟩⟩
  · obtain ⟨b, c, same, used, used', together⟩ := guarded
    have guarded₁ : NextInUse chain₁ ptr :=
      ⟨b, c, same, used, used', spares.neighbours b c used used' together⟩
    obtain ⟨h', chain', moved, moves, tally'⟩ := takes.moveBlock_frees member
      (fun h' chain' => Tally h'.regions chain') fun h₂ valid₂ regions =>
        valid₂.kfree_frugal (regions.symm ▸ spares.tally) guarded₁
    exact ⟨rc, h', chain', (run_if_neg (by omega)).trans moved, tally', .inr ⟨positive, moves⟩⟩

end

end Frugally

/-! ### Every run -/

/-- The call wastes no memory of the heap. -/
def Call.Frugal (h : Kheap) (chain : List Block) : Call → Prop
  | kmalloc s => Kmalloc.Frugal h chain s
  | kcalloc nelem elsize => nelem * elsize < 2 ^ 32 → Kmalloc.Frugal h chain (nelem * elsize)
  | krealloc ptr size => ptr = 0 ∧ Kmalloc.Frugal h chain size ∨
    (ptr, size) ∈ busyBlocks chain ∨
    ∃ l < size, (ptr, l) ∈ busyBlocks chain ∧ Kmalloc.Frugal h chain size ∧ NextInUse chain ptr
  | kfree p => p = 0 ∨ NextInUse chain p

/-- What a call has to meet in a state for nothing to be lost. -/
def Thrifty (h : Kheap) (live : Live) (call : Call) : Prop :=
  ∀ chain, Represents h live chain → call.Frugal h chain

/-- The headers and blocks of the chain are all the memory obtained, and once all blocks
have been freed a request that the first region could serve is served without more. -/
structure Lasting (depth : Nat) (h : Kheap) (live : Live) : Prop where
  conserved : ∃ headers, Walks h.memory h.head headers ∧
    (headers.map fun a => (headerAt h.memory a).size + headerSize).sum =
      (h.regions.map Region.length).sum
  served_again : h.head ≠ 0 → (∀ p, live p = none) → ∀ s, s + headerSize ≤ newAllocSize - headerSize →
    ∃ rc h', kmalloc depth s h = .ok rc h' ∧ rc ≠ 0 ∧ h'.regions = h.regions

/-- The calls return one after the other, and every state is lasting. -/
def AlwaysLasting (depth : Nat) : List Call → Kheap → Live → Prop
  | [], h, live => Lasting depth h live
  | call :: calls, h, live => Lasting depth h live ∧
    ∃ rc h', call.perform depth h = .ok rc h' ∧ AlwaysLasting depth calls h' (call.after live rc)

section Runs
variable {h : Kheap} {live : Live} {chain : List Block} {call : Call} {calls : List Call} {s : Nat}

section
variable (represents : Represents h live chain) (tally : Tally h.regions chain)
include represents tally

theorem Represents.lasting (depth : Nat) : Lasting (depth + 1) h live := by
  have valid := represents.valid
  refine ⟨⟨chain.map Block.addr, represents.safe.walks, ?_⟩, fun nonzero unused s small => ?_⟩
  · rw [← tally.total, map_map]
    refine congrArg sum (map_congr_left fun b member => ?_)
    obtain ⟨n, header⟩ := valid.header_of_mem member
    change (headerAt h.memory b.addr).size + headerSize = _
    rw [header]
    rfl
  · have free : ∀ b ∈ chain, b.free = true := by
      intro b member
      by_contra used
      have inUse := (represents.blocks _ _).mpr (mem_busyBlocks.mpr
        ⟨b, member, by simpa using used, rfl, rfl⟩)
      cases (unused _).symm.trans inUse
    have started := valid.head_pos.mpr (Nat.pos_of_ne_zero nonzero)
    obtain ⟨b, member, large⟩ := tally.largest started free valid.last_block
    have step : newAllocSize = 0x40000 := rfl
    obtain ⟨rc, h₁, chain', ran, positive, takes, regions⟩ := valid.intKmalloc_found started
      (by omega) (not_noneFits member (free b member) (show s + headerSize ≤ b.size by omega))
      depth
    obtain ⟨h', filled, writes⟩ := getFastInsecureRandom_ok
      (takes.valid.busy_mapped ((takes.busy rc s).mpr (.inl ⟨rfl, rfl⟩)))
    refine ⟨rc, h', ?_, by omega, writes.regions.trans regions⟩
    unfold kmalloc
    rw [run_bind_ok ran, run_if_neg (by omega), run_bind_ok filled]
    rfl

/-- A frugal call keeps the accounts. -/
theorem Represents.frugal (frugal : call.Frugal h chain) (depth : Nat) :
    ∃ rc h' chain', call.perform (depth + 2) h = .ok rc h' ∧
      Represents h' (call.after live rc) chain' ∧ Tally h'.regions chain' := by
  have valid := represents.valid
  cases call with
  | kmalloc s =>
    obtain ⟨rc, h', chain', ran, spares⟩ := valid.spares_written tally frugal depth
      (fun rc => getFastInsecureRandom rc s) fun _ _ mapped => getFastInsecureRandom_ok mapped
    exact ⟨rc, h', chain', ran, (represents.allocates (.kmalloc s) spares.allocates rfl nofun).2,
      spares.tally⟩
  | kcalloc nelem elsize =>
    by_cases small : nelem * elsize < 2 ^ 32
    · obtain ⟨rc, h', chain', ran, spares⟩ := valid.spares_written tally (frugal small) depth
        (fun rc => clear rc (nelem * elsize)) fun _ _ mapped => clear_ok mapped
      refine ⟨rc, h', chain', ?_, (represents.allocates (.kcalloc nelem elsize) spares.allocates rfl
        nofun).2, spares.tally⟩
      change Kmalloc.kcalloc (depth + 2) nelem elsize h = _
      unfold Kmalloc.kcalloc
      rw [Kernel.mulOverflow_false small, run_if_neg Bool.false_ne_true,
        show Kernel.wrap32 (nelem * elsize) = nelem * elsize from Nat.mod_eq_of_lt small]
      exact ran
    · exact ⟨0, h, chain, (overflow_null (not_lt.mp small) _ 0).2.1, represents, tally⟩
  | krealloc ptr size =>
    rcases frugal with ⟨rfl, frugal⟩ | same | ⟨l, longer, member, frugal, guarded⟩
    · obtain ⟨rc, h', chain', ran, spares⟩ := valid.spares_written tally frugal depth
        (fun rc => getFastInsecureRandom rc size) fun _ _ mapped => getFastInsecureRandom_ok mapped
      refine ⟨rc, h', chain', ran, ?_, spares.tally⟩
      rw [Call.after, represents.forget_null]
      exact (represents.allocates (.kmalloc size) spares.allocates rfl nofun).2
    · have nonzero : ptr ≠ 0 := by
        have := (valid.busy_small same).1
        omega
      refine ⟨ptr, h, chain, ?_, ?_, tally⟩
      · change Kmalloc.krealloc (depth + 2) ptr size h = _
        unfold Kmalloc.krealloc
        rw [run_if_neg nonzero, run_bind_ok (getMemSize_ok valid same)]
        exact run_if_pos rfl
      · rw [Call.after, if_neg nonzero, update_idem, ← (represents.blocks ptr size).mpr same,
          update_eq_self]
        exact represents
    · obtain ⟨rc, h', chain', ran, tally', outcome⟩ :=
        valid.krealloc_frugal tally member longer frugal guarded depth
      refine ⟨rc, h', chain', ran, ?_, tally'⟩
      rw [Call.after]
      rcases outcome with ⟨rfl, quiet⟩ | ⟨positive, moves⟩
      · exact represents.quiet quiet
      · rw [if_neg (by omega)]
        exact represents.moves moves
  | kfree p =>
    rcases frugal with rfl | guarded
    · refine ⟨0, h, chain, rfl, ?_, tally⟩
      change Represents h (update live 0 none) chain
      rw [represents.forget_null]
      exact represents
    · obtain ⟨h', chain', ran, frees, tally'⟩ := valid.kfree_frugal tally guarded
      exact ⟨0, h', chain', (run_bind_ok ran).trans rfl, represents.frees frees, tally'⟩

theorem Represents.lasting_run (depth : Nat) (thrifty : Meets Thrifty (depth + 2) calls h live) :
    AlwaysLasting (depth + 2) calls h live := by
  induction calls generalizing h live chain with
  | nil => exact represents.lasting tally (depth + 1)
  | cons call calls ih =>
    obtain ⟨frugal, rest⟩ := thrifty
    obtain ⟨rc, h', chain', ran, represents', tally'⟩ :=
      represents.frugal tally (frugal chain represents) depth
    exact ⟨represents.lasting tally (depth + 1), rc, h', ran,
      ih represents' tally' (rest rc h' ran)⟩

end

end Runs

/-- In every run on an unused heap whose calls all waste nothing, every state is lasting. -/
theorem heap_lasts_when_thrifty (h : Kheap) (unused : h.Unused) (fresh : h.regions = [])
    (calls : List Call) (depth : Nat)
    (thrifty : Meets Thrifty (depth + 2) calls h fun _ => none) :
    AlwaysLasting (depth + 2) calls h fun _ => none :=
  unused.represents.lasting_run (by rw [fresh]; exact ⟨rfl, rfl, nofun, .nil⟩) depth thrifty

/-- The headers after one byte has been allocated, and after another one. -/
def afterTwoBytes (h : Kheap) : Bool :=
  match kmalloc 2 1 h with
  | .error _ _ => false
  | .ok _ h₁ =>
    h₁.head = 0xd0000000 && headerAt h₁.memory 0xd0000000 = ⟨headerMagic, 1, 0, 0xd0000015⟩ &&
      headerAt h₁.memory 0xd0000015 = ⟨headerMagic, 0x40000 - 41, 3, 0⟩ &&
      match kmalloc 2 1 h₁ with
      | .error _ _ => false
      | .ok _ h₂ =>
        h₂.head = 0xd0000000 && headerAt h₂.memory 0xd0000000 = ⟨headerMagic, 1, 0, 0xd0000015⟩ &&
          headerAt h₂.memory 0xd0000015 = ⟨headerMagic, 1, 0, 0xd000002a⟩

/-- The block behind a pointer of the chain. -/
theorem Linked.next (linked : Linked m chain 0) (first : firstAddr chain 0 = a) (positive : 0 < a)
    (header : headerAt m a = ⟨headerMagic, size, flags, n⟩) :
    ∃ b rest, chain = b :: rest ∧ b.addr = a ∧ b.size = size ∧ b.free = isFree flags ∧
      b.last = isFinal flags ∧ firstAddr rest 0 = n ∧ Linked m rest 0 := by
  cases chain with
  | nil => exact absurd first positive.ne
  | cons b rest =>
    subst first
    obtain ⟨here, -, after⟩ := linked
    obtain ⟨-, same, flags_eq, next⟩ := MallocHeader.mk.inj (here.symm.trans header)
    exact ⟨b, rest, rfl, rfl, same, by rw [← flags_eq, b.isFree_flags],
      by rw [← flags_eq, b.isFinal_flags], next, after⟩

/-- Of two blocks in use the first is freed. -/
theorem heap_lasts_when_thrifty_once :
    AlwaysLasting 2 [.kmalloc 1, .kmalloc 1, .kfree 0xd0000014]
      (answering fun _ => some 0xd0000000) fun _ => none := by
  have evaluated : afterTwoBytes (answering fun _ => some 0xd0000000) = true := by decide +kernel
  refine heap_lasts_when_thrifty _ ⟨rfl, rfl⟩ rfl _ 0 ⟨fun chain represents => ?_, fun _ h₁ ran =>
    ⟨fun chain represents => ?_, fun _ h₂ ran₂ =>
      ⟨fun chain represents => Or.inr ?_, fun _ _ _ => trivial⟩⟩⟩
  · obtain rfl : chain = [] := by
      by_contra started
      exact absurd (represents.valid.head_pos.mp started) (by decide)
    refine ⟨by decide, ?_, fun f last none_fits => ?_, ?_⟩
    · exact ⟨fun _ merges => (nomatch merges.1), .inl ⟨rfl, by decide⟩⟩
    · exact absurd (none_fits _ mem_cons_self rfl) (by decide)
    · intro empty
      cases empty
  all_goals
    unfold afterTwoBytes at evaluated
    rw [show kmalloc 2 1 _ = _ from ran] at evaluated
    simp only [and_eq_true, decide_eq_true_eq] at evaluated
  · obtain ⟨⟨⟨head, header⟩, header'⟩, -⟩ := evaluated
    obtain ⟨b, rest, rfl, -, -, used, -, next, linked⟩ :=
      represents.valid.linked.next (represents.valid.head.symm.trans head) (by decide) header
    obtain ⟨c, rest, rfl, -, size, free, last, -⟩ := linked.next next (by decide) header'
    have fits : 1 + headerSize ≤ c.size := by rw [size]; decide
    have calm : Calm (1 + headerSize) (b :: c :: rest) := by
      refine ⟨fun claimed => ?_, .inr ⟨fun _ merges => ?_, .inl ⟨free, fits⟩⟩⟩
      · exact absurd (used.symm.trans claimed) (by decide)
      · exact absurd (last.symm.trans merges.1) (by decide)
    refine ⟨by decide, calm, fun _ _ none_fits => ?_, nofun⟩
    exact absurd (none_fits c (by simp [opened]) free) (not_lt.mpr fits)
  · obtain ⟨-, evaluated⟩ := evaluated
    rw [show kmalloc 2 1 h₁ = _ from ran₂] at evaluated
    simp only [and_eq_true, decide_eq_true_eq] at evaluated
    obtain ⟨⟨head, header⟩, header'⟩ := evaluated
    obtain ⟨b, rest, rfl, at', -, used, -, next, linked⟩ :=
      represents.valid.linked.next (represents.valid.head.symm.trans head) (by decide) header
    obtain ⟨c, rest, rfl, -, -, used', -⟩ := linked.next next (by decide) header'
    exact ⟨b, c, by rw [at']; rfl, used, used', [], rest, rfl⟩

/-- What is left of the first region after one byte has been allocated and freed: the
header between the two free blocks is lost. -/
def afterOneByte (h : Kheap) : Bool :=
  match kmalloc 2 1 h with
  | .error _ _ => false
  | .ok rc h₁ =>
    match kfree 0xd0000014 h₁ with
    | .error _ _ => false
    | .ok _ h₂ =>
      rc = 0xd0000014 && h₂.head = 0xd0000000 && h₂.regions = [⟨0xd0000000, 0x40000⟩] &&
        headerAt h₂.memory 0xd0000000 = ⟨headerMagic, 0x40000 - 40, 3, 0⟩

theorem header_lost_by_merge :
    (answering fun _ => some 0xd0000000).Unused ∧
    ¬ AlwaysLasting 2 [.kmalloc 1, .kfree 0xd0000014] (answering fun _ => some 0xd0000000)
      fun _ => none := by
  refine ⟨⟨rfl, rfl⟩, ?_⟩
  have evaluated : afterOneByte (answering fun _ => some 0xd0000000) = true := by decide +kernel
  rintro ⟨-, rc, h₁, ran, -, rc₂, h₂, ran₂, lasting⟩
  change kmalloc 2 1 _ = _ at ran
  unfold afterOneByte at evaluated
  rw [ran] at evaluated
  dsimp only at evaluated
  cases freeing : kfree 0xd0000014 h₁ with
  | error stop h' =>
    rw [freeing] at evaluated
    cases evaluated
  | ok value h' =>
    rw [freeing] at evaluated
    have same : h' = h₂ := by
      have done : (Call.kfree 0xd0000014).perform 2 h₁ = .ok 0 h' := (run_bind_ok freeing).trans rfl
      injection done.symm.trans ran₂
    subst same
    simp only [and_eq_true, decide_eq_true_eq] at evaluated
    obtain ⟨⟨⟨-, head⟩, regions⟩, header⟩ := evaluated
    obtain ⟨headers, walks, total⟩ := lasting.conserved
    rw [head] at walks
    rw [regions] at total
    cases headers with
    | nil => cases walks
    | cons a rest =>
      obtain ⟨rfl, -, -, walks⟩ := walks
      rw [header] at walks
      cases rest with
      | nil =>
        rw [map_cons, header, map_nil] at total
        exact absurd total (by decide)
      | cons b rest => exact walks.2.1 walks.1.symm

end SbOS.Kmalloc
