import SbOS.Kernel.HeapGrowth

/-! Blocks are handed out, given back and moved: `int_kmalloc`, `kfree` and `krealloc`
on a chain of blocks. -/
namespace SbOS.Kmalloc
open Bytes List
open Kernel (wrap32 sub32 sub32_eq)

/-! ### Taking a part of a free block -/

/-- The block in use that a free block becomes. -/
def taken (f : Block) (n : Nat) : Block :=
  ⟨f.addr, n, false, false, f.addr + headerSize + n⟩

/-- What is left of a free block after `n` bytes have been taken. -/
def leftover (f : Block) (n : Nat) : Block :=
  ⟨f.addr + headerSize + n, f.size - n - headerSize, f.free, f.last, f.limit⟩

/-- The blocks that follow the one handed out: the rest of the free block is merged with
a free block after it. -/
def afterSplit (f : Block) (n : Nat) : List Block → List Block
  | [] => [leftover f n]
  | c :: post =>
    if !f.last && c.free then joined (leftover f n) c :: post else leftover f n :: c :: post

section Split
variable {h : Kheap} {pre post chain : List Block} {b c f : Block} {n k final : Nat}
  {hd : MallocHeader}

theorem leftover_header (f : Block) (n k : Nat) : (leftover f n).header k =
    { f.header k with size := f.size - n - headerSize } := by
  have flags : (leftover f n).flags = f.flags := rfl
  unfold Block.header
  rw [flags]
  simp only [leftover]

/-- The stores to the new header, with `free_entry` read again for each. -/
theorem leftover_written (here : Here h f k) (mapped : Mapped h.regions (leftover f n).addr headerSize)
    (space : n + headerSize ≤ f.size) (bound : f.size < 2 ^ 32) (small : k < 2 ^ 32)
    (next : HeapM Nat) :
    ∃ m', Edits h.memory m' (leftover f n).addr ((leftover f n).header k) ∧
      (do
        setFlags (leftover f n).addr (← header f.addr).flags
        setN (leftover f n).addr (← header f.addr).n
        setSize (leftover f n).addr (sub32 (sub32 (← header f.addr).size n) headerSize)
        setMagic (leftover f n).addr
        next : HeapM Nat) h = next { h with memory := m' } := by
  have away : f.addr + headerSize ≤ (leftover f n).addr := by
    change _ ≤ f.addr + headerSize + n
    omega
  have size : sub32 (sub32 f.size n) headerSize = f.size - n - headerSize := by
    rw [sub32_eq (by omega) bound, sub32_eq (by omega) (by omega)]
  have again {m : Bytes} {hd : MallocHeader} (edits : Edits h.memory m (leftover f n).addr hd) :
      header f.addr { h with memory := m } = .ok (f.header k) { h with memory := m } :=
    (header_ok (h := { h with memory := m }) here.mapped).trans
      (by rw [edits.other (.inl away), here.header])
  obtain ⟨m₁, flagged, edits₁⟩ := setFlags_ok mapped (flags_small f)
  obtain ⟨m₂, linked, edits₂⟩ := setN_ok (h := { h with memory := m₁ }) mapped small
  obtain ⟨m₃, sized, edits₃⟩ := setSize_ok (h := { h with memory := m₂ }) mapped
    (show f.size - n - headerSize < 2 ^ 32 by omega)
  obtain ⟨m₄, magic, edits₄⟩ := setMagic_ok (h := { h with memory := m₃ }) mapped
  have written := edits₁.trans (edits₂.trans (edits₃.trans edits₄))
  rw [edits₃.header, edits₂.header, edits₁.header] at written
  refine ⟨m₄, ⟨written.header.trans (leftover_header f n k).symm, written.outside⟩, ?_⟩
  rw [run_bind_ok (header_at here)]
  refine (run_bind_ok flagged).trans ((run_bind_ok (again edits₁)).trans ?_)
  refine (run_bind_ok linked).trans ((run_bind_ok (again (edits₁.trans edits₂))).trans ?_)
  rw [show (f.header k).size = f.size from rfl, size]
  exact (run_bind_ok sized).trans (run_bind_ok magic)

/-- The stores to the header of the block handed out. -/
theorem taken_written (mapped : Mapped h.regions f.addr headerSize) (bound : n < 2 ^ 32)
    (small : k < 2 ^ 32) (rc : Nat) :
    ∃ m', Edits h.memory m' f.addr ((taken f n).header k) ∧
      (do
        setSize f.addr n
        setFlags f.addr 0
        setN f.addr k
        setMagic f.addr
        return rc : HeapM Nat) h = .ok rc { h with memory := m' } := by
  obtain ⟨m₁, sized, edits₁⟩ := setSize_ok mapped bound
  obtain ⟨m₂, flagged, edits₂⟩ :=
    setFlags_ok (h := { h with memory := m₁ }) mapped (show 0 < 2 ^ 8 by decide)
  obtain ⟨m₃, linked, edits₃⟩ := setN_ok (h := { h with memory := m₂ }) mapped small
  obtain ⟨m₄, magic, edits₄⟩ := setMagic_ok (h := { h with memory := m₃ }) mapped
  have written := edits₁.trans (edits₂.trans (edits₃.trans edits₄))
  rw [edits₃.header, edits₂.header, edits₁.header] at written
  refine ⟨m₄, written, ?_⟩
  exact (run_bind_ok sized).trans ((run_bind_ok flagged).trans ((run_bind_ok linked).trans
    ((run_bind_ok magic).trans rfl)))

/-- What merging the rest of a split block does, whatever it is. -/
def MergesTo (h : Kheap) (f : Block) (n k : Nat) (hd : MallocHeader) (final : Nat) : Prop :=
  ∀ m, Edits h.memory m (leftover f n).addr ((leftover f n).header k) →
    ∃ answer m', mergeHeaders (leftover f n).addr
        { h with
          memory := m
          final := if f.addr = h.final then (leftover f n).addr else h.final } =
        .ok answer { h with memory := m', final } ∧
      Edits m m' (leftover f n).addr hd

theorem splitEntry_ok (here : Here h f k) (mapped : Mapped h.regions (leftover f n).addr headerSize)
    (fits : f.Fits) (space : n + headerSize ≤ f.size) (small : k < 2 ^ 32)
    (merges : MergesTo h f n k hd final) :
    ∃ m₁ m', splitEntry f.addr n h = .ok (f.addr + headerSize) { h with memory := m', final } ∧
      Edits h.memory m₁ (leftover f n).addr hd ∧
      Edits m₁ m' f.addr ((taken f n).header (leftover f n).addr) := by
  have within := fits.within
  have limit := fits.small
  have positive : 0 < headerSize := by decide
  have address : wrap32 (f.addr + headerSize) = f.addr + headerSize :=
    Nat.mod_eq_of_lt (by omega)
  have address' : wrap32 (f.addr + headerSize + n) = (leftover f n).addr :=
    Nat.mod_eq_of_lt (by omega)
  have below : (leftover f n).addr < 2 ^ 32 := by
    change f.addr + headerSize + n < _
    omega
  obtain ⟨m₁, edits₁, written⟩ := leftover_written here mapped space (by omega) small (do
    if f.addr = (← get).final then setFinal (leftover f n).addr
    let _ ← mergeHeaders (leftover f n).addr
    setSize f.addr n
    setFlags f.addr 0
    setN f.addr (leftover f n).addr
    setMagic f.addr
    return f.addr + headerSize)
  obtain ⟨answer, m₂, merged, edits₂⟩ := merges m₁ edits₁
  obtain ⟨m₃, edits₃, finished⟩ := taken_written (h := { h with memory := m₂, final })
    (f := f) (n := n) here.mapped (by omega) below (f.addr + headerSize)
  refine ⟨m₂, m₃, ?_, edits₁.trans edits₂, edits₃⟩
  unfold splitEntry
  rw [address, address', written]
  by_cases same : f.addr = h.final
  · rw [if_pos same] at merged
    exact (run_if_pos same).trans ((run_bind_ok rfl).trans ((run_bind_ok merged).trans finished))
  · rw [if_neg same] at merged
    exact (run_if_neg same).trans ((run_bind_ok merged).trans finished)

/-- Between the two states a block of `n` bytes at `p` has been handed out. -/
structure Takes (h h' : Kheap) (chain : List Block) (p n : Nat) (chain' : List Block) : Prop where
  valid : Valid h' chain'
  busy : ∀ q k, (q, k) ∈ busyBlocks chain' ↔ q = p ∧ k = n ∨ (q, k) ∈ busyBlocks chain
  fresh : ∀ k, (p, k) ∉ busyBlocks chain
  kept : KeepsBytes h h' (busyBlocks chain)
  regions : ∀ r ∈ h.regions, r ∈ h'.regions

theorem Takes.after (takes : Takes h' h'' chain' p n chain'') (quiet : Quiet h h' chain chain') :
    Takes h h'' chain p n chain'' where
  valid := takes.valid
  busy := fun q k => (takes.busy q k).trans (by rw [quiet.busy])
  fresh := quiet.busy ▸ takes.fresh
  kept := fun q k member i bound =>
    (takes.kept q k (quiet.busy ▸ member) i bound).trans (quiet.kept q k member i bound)
  regions := fun r member => takes.regions r (quiet.regions r member)

theorem Valid.addr_fresh (valid : Valid h chain) (member : f ∈ chain) (free : f.free = true) :
    (f.addr + headerSize, k) ∉ busyBlocks chain := by
  intro bad
  obtain ⟨b, inChain, used, same, -⟩ := mem_busyBlocks.mp bad
  have alike := valid.addr_inj inChain member (by omega)
  rw [alike, free] at used
  cases used

theorem taken_room (space : n + headerSize ≤ f.size) (fits : f.Fits) (room : (taken f n).Room a) :
    f.Room a := by
  obtain ⟨low, high⟩ := room
  have within := fits.within
  change a < f.addr + headerSize + n at high
  exact ⟨low, by omega⟩

/-- A free block, with free blocks `cs` right after it, becomes a block in use and a free
block `r` that has the rest. -/
theorem Valid.split_replace (valid : Valid h (pre ++ f :: cs ++ post)) (free : f.free = true)
    (frees : ∀ c ∈ cs, c.free = true) (space : n + headerSize ≤ f.size)
    (address : r.addr = (leftover f n).addr) (fits : r.Fits) (free' : r.free = true)
    (rooms : ∀ a, r.Room a → ∃ c ∈ f :: cs, c.Room a)
    (joint : r.last = false → r.limit = firstAddr post 0 ∧ firstAddr post 0 ≠ 0)
    (new : Edits h.memory m₁ (leftover f n).addr (r.header (firstAddr post 0)))
    (old : Edits m₁ m' f.addr ((taken f n).header (leftover f n).addr))
    (final' : g = lastAddr (pre ++ [taken f n, r] ++ post)) :
    Takes h { h with memory := m', final := g } (pre ++ f :: cs ++ post) (f.addr + headerSize) n
      (pre ++ [taken f n, r] ++ post) := by
  have inChain : f ∈ pre ++ f :: cs ++ post := by simp
  have fitsF := valid.fits f inChain
  have within := fitsF.within
  have small := fitsF.small
  have nextAddr : (leftover f n).addr = f.addr + headerSize + n := rfl
  have positive : 0 < headerSize := by decide
  have same : ∀ a, (∀ c ∈ f :: cs, ¬ c.Room a) → m' a = h.memory a := by
    intro a outside
    have notF := outside f (by simp)
    unfold Block.Room at notF
    exact (old.outside a (by omega)).trans (new.outside a (by omega))
  have frees' : ∀ c ∈ f :: cs, c ∈ pre ++ f :: cs ++ post ∧ c.free = true := by
    intro c member
    refine ⟨mem_append_left _ (mem_append_right _ member), ?_⟩
    rcases mem_cons.mp member with rfl | other
    · exact free
    · exact frees c other
  refine ⟨valid.replace (fun _ => rfl) ?_ ?_ ?_ ?_ ?_ same final', ?_,
    fun k => valid.addr_fresh inChain free, valid.keeps frees' same, fun _ => id⟩
  · refine ⟨?_, fun _ => ⟨address.symm, ?_⟩, ?_, joint, trivial⟩
    · rw [show firstAddr [r] (firstAddr post 0) = (leftover f n).addr from address]
      exact old.header
    · rw [show firstAddr [r] (firstAddr post 0) = (leftover f n).addr from address]
      omega
    · rw [address]
      exact (old.other (by omega)).trans new.header
  · rw [forall_mem_cons, forall_mem_singleton]
    exact ⟨⟨fitsF.positive, le_rfl, show f.addr + headerSize + n ≤ 2 ^ 32 by omega⟩, fits⟩
  · rw [forall_mem_cons, forall_mem_singleton]
    exact ⟨fun a room => ⟨f, by simp, taken_room space fitsF room⟩, rooms⟩
  · refine pairwise_pair.mpr fun a room room' => ?_
    have low : r.addr ≤ a := room'.1
    have high : a < f.addr + headerSize + n := room.2
    omega
  · rw [forall_mem_cons, forall_mem_singleton, free']
    exact ⟨fun _ => rfl, nofun⟩
  · intro q k
    have none_used : busyBlocks (f :: cs) = [] := by
      simpa [busyBlocks, free] using frees
    simp only [busyBlocks_append, none_used, busyBlocks_busy (show (taken f n).free = false from rfl),
      busyBlocks_free free', mem_append, mem_cons, Prod.mk.injEq, append_nil]
    tauto

theorem leftover_fits (fits : f.Fits) (space : n + headerSize ≤ f.size) : (leftover f n).Fits where
  positive := by
    change 0 < f.addr + headerSize + n
    have := fits.positive
    omega
  within := by
    change f.addr + headerSize + n + headerSize + (f.size - n - headerSize) ≤ f.limit
    have := fits.within
    omega
  small := fits.small

theorem leftover_room (room : (leftover f n).Room a) : f.Room a := by
  obtain ⟨low, high⟩ := room
  change f.addr + headerSize + n ≤ a at low
  exact ⟨by omega, high⟩

/-- The header of what is left, once it has been written. -/
theorem Valid.here_leftover (valid : Valid h chain) (member : f ∈ chain)
    (space : n + headerSize ≤ f.size)
    (edits : Edits h.memory m (leftover f n).addr ((leftover f n).header k)) :
    Here { h with memory := m, final := g } (leftover f n) k where
  positive := (leftover_fits (valid.fits f member) space).positive
  mapped := fun _ bound => valid.mapped f member _
    (leftover_room ((leftover_fits (valid.fits f member) space).header_room bound))
  header := edits.header

/-- The header after that is not touched by it. -/
theorem Valid.here_other (valid : Valid h (pre ++ f :: c :: post))
    (space : n + headerSize ≤ f.size) (edits : Edits h.memory m (leftover f n).addr hd) :
    Here { h with memory := m, final := g } c (firstAddr post 0) where
  positive := valid.here_next.positive
  mapped := valid.here_next.mapped
  header := by
    have fits := leftover_fits (valid.fits f (by simp)) space
    rw [← valid.here_next.header]
    refine headerAt_congr fun i bound => edits.outside _ ?_
    by_contra inside
    have room : (leftover f n).Room (c.addr + i) := ⟨by omega, by have := fits.within; omega⟩
    have room' := (valid.fits c (by simp)).header_room bound
    have same := valid.room_eq (by simp) (by simp) (leftover_room room) room'
    subst same
    have once := valid.nodup
    rw [nodup_append] at once
    exact absurd mem_cons_self (nodup_cons.mp once.2.1).1

/-- Where the last header is after a split, before the rest is merged. -/
theorem Valid.final_split (valid : Valid h (pre ++ f :: post)) (n : Nat) :
    (if f.addr = h.final then (leftover f n).addr else h.final) =
      lastAddr (pre ++ [taken f n, leftover f n] ++ post) := by
  rw [valid.final, lastAddr_append, append_assoc, cons_append, lastAddr_append]
  exact valid.final_moved (leftover f n)

/-- The free block is split and neither `ksbrk` nor a block in use is involved. -/
def Splits (h : Kheap) (pre : List Block) (f : Block) (post : List Block) (n : Nat)
    (after : List Block) : Prop :=
  ∃ h', splitEntry f.addr n h = .ok (f.addr + headerSize) h' ∧ h'.brk = h.brk ∧
    h'.regions = h.regions ∧
    Takes h h' (pre ++ f :: post) (f.addr + headerSize) n (pre ++ taken f n :: after)

theorem Valid.leftover_mapped (valid : Valid h chain) (member : f ∈ chain)
    (space : n + headerSize ≤ f.size) : Mapped h.regions (leftover f n).addr headerSize :=
  fun _ bound => valid.mapped f member _
    (leftover_room ((leftover_fits (valid.fits f member) space).header_room bound))

/-- The rest of the block becomes one with the free block after it. -/
theorem Valid.split_join (valid : Valid h (pre ++ f :: c :: post)) (free : f.free = true)
    (inner : f.last = false) (free' : c.free = true) (space : n + headerSize ≤ f.size) :
    Splits h pre f (c :: post) n (joined (leftover f n) c :: post) := by
  have fits := valid.fits f (by simp)
  have fitsC := valid.fits c (by simp)
  obtain ⟨-, joint, -, joint', -⟩ := (linked_append.mp valid.linked).2
  have next : f.limit = c.addr := (joint inner).1
  have fitsJoined := joined_fits (leftover_fits fits space) fitsC next
  have size : (leftover f n).size + c.size < 2 ^ 32 := by
    have within := fitsJoined.within
    have small := fitsJoined.small
    change _ + headerSize + ((leftover f n).size + c.size) ≤ _ at within
    have positive := fitsJoined.positive
    omega
  have below : firstAddr post 0 < 2 ^ 32 :=
    firstAddr_lt fun d member => valid.fits d (by simp [member])
  have final : (if c.addr = (if f.addr = h.final then (leftover f n).addr else h.final) then
      (leftover f n).addr else if f.addr = h.final then (leftover f n).addr else h.final) =
      lastAddr (pre ++ [taken f n, joined (leftover f n) c] ++ post) := by
    have shifted : Valid h ((pre ++ [f]) ++ c :: post) := by simpa using valid
    rw [valid.final_split n, lastAddr_append (pre ++ [taken f n, leftover f n]) c post,
      show pre ++ [taken f n, joined (leftover f n) c] ++ post =
        (pre ++ [taken f n]) ++ joined (leftover f n) c :: post by simp, lastAddr_append]
    exact shifted.final_moved (joined (leftover f n) c)
  have merges : MergesTo h f n c.addr ((joined (leftover f n) c).header (firstAddr post 0))
      (lastAddr (pre ++ [taken f n, joined (leftover f n) c] ++ post)) := by
    intro m edits
    obtain ⟨m', merged, edits'⟩ := mergeHeaders_join
      (valid.here_leftover (g := if f.addr = h.final then (leftover f n).addr else h.final)
        (by simp) space edits)
      (valid.here_other space edits) free inner free' size below
    refine ⟨true, m', ?_, edits'⟩
    rw [merged, ← final]
  obtain ⟨m₁, m', ran, new, old⟩ := splitEntry_ok valid.here
    (valid.leftover_mapped (by simp) space) fits space fitsC.addr_lt merges
  have valid' : Valid h (pre ++ f :: [c] ++ post) := by simpa using valid
  have takes := valid'.split_replace (r := joined (leftover f n) c) free (by simpa using free')
    space rfl fitsJoined free
    (fun a room => ?_) joint' new old rfl
  · exact ⟨_, ran, rfl, rfl, by simpa using takes⟩
  · obtain ⟨low, high⟩ := room
    rcases lt_or_ge a f.limit with inFirst | after
    · exact ⟨f, by simp, leftover_room ⟨low, inFirst⟩⟩
    · exact ⟨c, by simp, by omega, high⟩

section
variable (valid : Valid h (pre ++ f :: post)) (free : f.free = true)
  (space : n + headerSize ≤ f.size)
include valid free space

/-- The rest of the block stays a block of its own. -/
theorem Valid.split_calm (calm : ∀ m g, Edits h.memory m (leftover f n).addr
      ((leftover f n).header (firstAddr post 0)) →
      mergeHeaders (leftover f n).addr { h with memory := m, final := g } =
        .ok false { h with memory := m, final := g }) :
    Splits h pre f post n (leftover f n :: post) := by
  have fits := valid.fits f (by simp)
  have below : firstAddr post 0 < 2 ^ 32 :=
    firstAddr_lt fun d member => valid.fits d (by simp [member])
  have merges : MergesTo h f n (firstAddr post 0) ((leftover f n).header (firstAddr post 0))
      (if f.addr = h.final then (leftover f n).addr else h.final) := fun m edits =>
    ⟨false, m, calm m _ edits, edits.header, fun _ _ => rfl⟩
  obtain ⟨m₁, m', ran, new, old⟩ := splitEntry_ok valid.here
    (valid.leftover_mapped (by simp) space) fits space below merges
  have valid' : Valid h (pre ++ f :: [] ++ post) := by simpa using valid
  have takes := valid'.split_replace free (by simp) space rfl (leftover_fits fits space) free
    (fun a room => ⟨f, by simp, leftover_room room⟩) (linked_append.mp valid.linked).2.2.1
    new old (valid.final_split n)
  exact ⟨_, ran, rfl, rfl, by simpa using takes⟩

/-- A free block with space for `n` bytes and a header is split. -/
theorem Valid.split : Splits h pre f post n (afterSplit f n post) := by
  cases last : f.last with
  | true =>
    have unmerged : afterSplit f n post = leftover f n :: post := by
      cases post <;> simp [afterSplit, last]
    rw [unmerged]
    exact valid.split_calm free space fun m g edits =>
      mergeHeaders_last (valid.here_leftover (by simp) space edits) last
  | false =>
    cases post with
    | nil => exact absurd (valid.ends.symm.trans last) nofun
    | cons c rest =>
      cases free' : c.free with
      | false =>
        rw [show afterSplit f n (c :: rest) = leftover f n :: c :: rest by
          simp [afterSplit, free']]
        exact valid.split_calm free space fun m g edits => mergeHeaders_next_busy
          (valid.here_leftover (by simp) space edits) (valid.here_other space edits) free'
      | true =>
        rw [show afterSplit f n (c :: rest) = joined (leftover f n) c :: rest by
          simp [afterSplit, last, free']]
        exact valid.split_join free last free' space

end

end Split

/-! ### Searching -/

section Search
variable {h : Kheap} {chain : List Block} {s : Nat}

section
variable (valid : Valid h chain) (started : chain ≠ []) (small : s + headerSize < 2 ^ 32)
include valid started small

/-- On a heap that has been started `find_free_entry` goes through the chain. -/
theorem Valid.findFreeEntry_eq :
    findFreeEntry s h = Kmalloc.searchFrom (s + headerSize) turns (firstAddr chain 0) h := by
  have positive := valid.head_pos.mp started
  have plain : wrap32 (s + headerSize) = s + headerSize := Nat.mod_eq_of_lt small
  unfold findFreeEntry
  dsimp only
  rw [plain, run_get, run_if_neg (by omega), run_get, valid.head]

theorem Valid.findFreeEntry :
    ∃ p h', findFreeEntry s h = .ok p h' ∧
      (Finds h h' chain (s + headerSize) p ∧ ¬ NoneFits chain (s + headerSize) ∨
        p = 0 ∧ (∃ chain', Settles h h' chain chain') ∧ NoneFits chain (s + headerSize)) := by
  rw [valid.findFreeEntry_eq started small]
  exact (show Valid h ([] ++ chain) from valid).searchFrom
    (Nat.lt_of_lt_of_le (by decide) (Nat.le_add_left headerSize s)) turns valid.short

end

end Search

/-! ### The contents of a block -/

/-- Between the two states only the `n` bytes at `p` were written. -/
structure Writes (h h' : Kheap) (p n : Nat) : Prop where
  outside : ∀ a, a < p ∨ p + n ≤ a → h'.memory a = h.memory a
  head : h'.head = h.head
  final : h'.final = h.final
  regions : h'.regions = h.regions
  brk : h'.brk = h.brk

section Contents
variable {h h' h'' : Kheap} {chain chain' pre post : List Block} {b : Block} {p q n k : Nat}

theorem getFastInsecureRandom_ok (mapped : Mapped h.regions p n) :
    ∃ h', getFastInsecureRandom p n h = .ok () h' ∧ Writes h h' p n := by
  refine ⟨{ h with
    memory := splice h.memory p (h.random 0) n
    random := fun i => h.random (i + 1) }, ?_,
    fun _ outside => splice_outside outside, rfl, rfl, rfl, rfl⟩
  unfold getFastInsecureRandom
  rw [run_bind_ok (touch_ok mapped)]
  rfl

theorem clear_ok (mapped : Mapped h.regions p n) :
    ∃ h', clear p n h = .ok () h' ∧ Writes h h' p n := by
  refine ⟨{ h with memory := splice h.memory p zeros n }, ?_,
    fun _ outside => splice_outside outside, rfl, rfl, rfl, rfl⟩
  unfold clear
  rw [run_bind_ok (touch_ok mapped)]
  rfl

theorem memcpy_ok (source : Mapped h.regions q n) (mapped : Mapped h.regions p n) :
    ∃ h', memcpy p q n h = .ok () h' ∧ Writes h h' p n ∧
      ∀ i < n, h'.memory (p + i) = h.memory (q + i) := by
  refine ⟨{ h with memory := splice h.memory p (skip h.memory q) n }, ?_,
    ⟨fun _ outside => splice_outside outside, rfl, rfl, rfl, rfl⟩, ?_⟩
  · unfold memcpy
    rw [run_bind_ok (touch_ok source), run_bind_ok (touch_ok mapped)]
    rfl
  · intro i bound
    refine (splice_inside (by omega) (by omega)).trans ?_
    rw [Nat.add_sub_cancel_left]
    rfl

theorem Writes.shorter (writes : Writes h h' p n) (shorter : n ≤ k) : Writes h h' p k :=
  ⟨fun a outside => writes.outside a (by omega), writes.head, writes.final, writes.regions,
    writes.brk⟩

section
variable (valid : Valid h chain)
include valid

/-- Two different blocks in use. -/
theorem Valid.busy_apart (one : (p, n) ∈ busyBlocks chain)
    (two : (q, k) ∈ busyBlocks chain) (other : p ≠ q) :
    p + n ≤ q - headerSize ∨ q + k ≤ p - headerSize := by
  obtain ⟨b, member, -, rfl, rfl⟩ := mem_busyBlocks.mp one
  obtain ⟨c, member', -, rfl, rfl⟩ := mem_busyBlocks.mp two
  have fits := valid.fits b member
  have fits' := valid.fits c member'
  have within := fits.within
  have within' := fits'.within
  have apart := valid.apart.forall member member' fun same => other (by rw [same])
  rcases Block.order fits fits' apart with first | first <;> omega

section
variable (member : (p, n) ∈ busyBlocks chain)
include member

theorem Valid.busy_mapped : Mapped h.regions p n := by
  obtain ⟨b, inChain, -, rfl, rfl⟩ := mem_busyBlocks.mp member
  exact fun _ bound => valid.mapped b inChain _ ((valid.fits b inChain).data_room bound)

theorem Valid.busy_small : headerSize < p ∧ p + n ≤ 2 ^ 32 := by
  obtain ⟨b, inChain, -, rfl, rfl⟩ := mem_busyBlocks.mp member
  have fits := valid.fits b inChain
  have positive := fits.positive
  have within := fits.within
  have small := fits.small
  exact ⟨by omega, by omega⟩

/-- The contents of blocks are no part of the chain. -/
theorem Valid.written (writes : Writes h h' p n) : Valid h' chain where
  head := writes.head.trans valid.head
  final := writes.final.trans valid.final
  linked := by
    obtain ⟨b, inChain, -, rfl, rfl⟩ := mem_busyBlocks.mp member
    refine valid.linked.congr fun c inChain' => headerAt_congr fun i bound => ?_
    refine writes.outside _ ?_
    by_contra inside
    have room : b.Room (c.addr + i) := ⟨by omega, by
      have within := (valid.fits b inChain).within
      omega⟩
    have room' := (valid.fits c inChain').header_room bound
    have same := valid.room_eq inChain inChain' room room'
    subst same
    omega
  fits := valid.fits
  apart := valid.apart
  mapped := writes.regions.symm ▸ valid.mapped
  busy := valid.busy

theorem Valid.written_kept (writes : Writes h h' p n) (other : (q, k) ∈ busyBlocks chain)
    (apart : q ≠ p) (bound : i < k) :
    h'.memory (q + i) = h.memory (q + i) := by
  refine writes.outside _ ?_
  have away := valid.busy_apart other member apart
  omega

end

end

/-- A block that has been handed out is filled. -/
theorem Takes.written (takes : Takes h h' chain p n chain') (writes : Writes h' h'' p n) :
    Takes h h'' chain p n chain' where
  valid := takes.valid.written ((takes.busy p n).mpr (.inl ⟨rfl, rfl⟩)) writes
  busy := takes.busy
  fresh := takes.fresh
  kept := fun q k member i bound => by
    have here := (takes.busy q k).mpr (.inr member)
    have apart : q ≠ p := fun same => takes.fresh k (same ▸ member)
    rw [takes.valid.written_kept ((takes.busy p n).mpr (.inl ⟨rfl, rfl⟩)) writes here apart bound]
    exact takes.kept q k member i bound
  regions := writes.regions.symm ▸ takes.regions

end Contents

end SbOS.Kmalloc
