import Mathlib.Data.List.Nodup
import Mathlib.Data.List.Perm.Subperm
import SbOS.Kernel.HeapChain

/-! What the parts of the heap do to the chain: looking at the next header, merging
free neighbours, and the search that merges as it goes. None of it touches a block in
use. -/
namespace SbOS.Kmalloc
open Bytes List
open Kernel (wrap32 sub32 sub32_eq)

/-! ### Single accesses -/

section Accesses
variable {h : Kheap} {a len : Nat}

theorem touch_ok (mapped : Mapped h.regions a len) : touch a len h = .ok () h :=
  if_pos mapped

section
variable (mapped : Mapped h.regions a headerSize)
include mapped

theorem header_ok : header a h = .ok (headerAt h.memory a) h := by
  unfold header
  rw [run_bind_ok (touch_ok mapped)]
  rfl

/-- Reading back a header that has been edited. -/
theorem header_edited (edits : Edits m m' a hd) :
    header a { h with memory := m' } = .ok hd { h with memory := m' } :=
  (header_ok (h := { h with memory := m' }) mapped).trans (by rw [edits.header])

theorem setSize_ok (small : size < 2 ^ 32) :
    ∃ m', setSize a size h = .ok () { h with memory := m' } ∧
      Edits h.memory m' a { headerAt h.memory a with size } := by
  refine ⟨_, ?_, edits_size h.memory a size small⟩
  unfold setSize
  rw [run_bind_ok (touch_ok mapped)]
  rfl

theorem setFlags_ok (small : flags < 2 ^ 8) :
    ∃ m', setFlags a flags h = .ok () { h with memory := m' } ∧
      Edits h.memory m' a { headerAt h.memory a with flags } := by
  refine ⟨_, ?_, edits_flags h.memory a flags small⟩
  unfold setFlags
  rw [run_bind_ok (touch_ok mapped)]
  rfl

theorem setN_ok (small : n < 2 ^ 32) :
    ∃ m', setN a n h = .ok () { h with memory := m' } ∧
      Edits h.memory m' a { headerAt h.memory a with n } := by
  refine ⟨_, ?_, edits_n h.memory a n small⟩
  unfold setN
  rw [run_bind_ok (touch_ok mapped)]
  rfl

theorem setMagic_ok :
    ∃ m', setMagic a h = .ok () { h with memory := m' } ∧
      Edits h.memory m' a { headerAt h.memory a with magic := headerMagic } := by
  refine ⟨_, ?_, edits_magic h.memory a⟩
  unfold setMagic
  rw [run_bind_ok (touch_ok mapped)]
  rfl

end

theorem kassert_ok (holds : condition = true) : kassert condition h = .ok () h := by
  rw [holds]
  rfl

end Accesses

/-! ### Blocks in use -/

/-- The blocks in use: the address handed out and the size. -/
def busyBlocks (chain : List Block) : List (Nat × Nat) :=
  (chain.filter fun b => !b.free).map fun b => (b.addr + headerSize, b.size)

@[simp] theorem busyBlocks_append (xs ys : List Block) :
    busyBlocks (xs ++ ys) = busyBlocks xs ++ busyBlocks ys := by
  simp [busyBlocks]

theorem busyBlocks_free (free : b.free = true) (rest : List Block) :
    busyBlocks (b :: rest) = busyBlocks rest := by
  simp [busyBlocks, free]

theorem busyBlocks_busy (used : b.free = false) (rest : List Block) :
    busyBlocks (b :: rest) = (b.addr + headerSize, b.size) :: busyBlocks rest := by
  simp [busyBlocks, used]

theorem mem_busyBlocks : (p, n) ∈ busyBlocks chain ↔
    ∃ b ∈ chain, b.free = false ∧ p = b.addr + headerSize ∧ n = b.size := by
  simp only [busyBlocks, mem_map, mem_filter, Prod.mk.injEq, Bool.not_eq_true']
  constructor
  · rintro ⟨b, ⟨member, used⟩, rfl, rfl⟩
    exact ⟨b, member, used, rfl, rfl⟩
  · rintro ⟨b, member, used, rfl, rfl⟩
    exact ⟨b, ⟨member, used⟩, rfl, rfl⟩

/-- The contents of some blocks are as they were. -/
def KeepsBytes (h h' : Kheap) (blocks : List (Nat × Nat)) : Prop :=
  ∀ p n, (p, n) ∈ blocks → ∀ i < n, h'.memory (p + i) = h.memory (p + i)

/-- A step that rearranges free memory only. -/
structure Quiet (h h' : Kheap) (chain chain' : List Block) : Prop where
  valid : Valid h' chain'
  busy : busyBlocks chain' = busyBlocks chain
  kept : KeepsBytes h h' (busyBlocks chain)
  regions : ∀ r ∈ h.regions, r ∈ h'.regions

theorem Quiet.refl (valid : Valid h chain) :
    Quiet h h chain chain := ⟨valid, rfl, fun _ _ _ _ _ => rfl, fun _ => id⟩

theorem Quiet.trans (first : Quiet h h' chain chain') (second : Quiet h' h'' chain' chain'') :
    Quiet h h'' chain chain'' where
  valid := second.valid
  busy := second.busy.trans first.busy
  kept := fun p n member i bound =>
    (second.kept p n (first.busy ▸ member) i bound).trans (first.kept p n member i bound)
  regions := fun r member => second.regions r (first.regions r member)

/-! ### The next header -/

/-- The header of a block is in memory, with `n` as the next. -/
structure Here (h : Kheap) (b : Block) (n : Nat) : Prop where
  positive : 0 < b.addr
  mapped : Mapped h.regions b.addr headerSize
  header : headerAt h.memory b.addr = b.header n

section Local
variable {h : Kheap} {pre post chain : List Block} {b c : Block} {n k : Nat}

theorem Valid.here (valid : Valid h (pre ++ b :: post)) : Here h b (firstAddr post 0) where
  positive := (valid.fits b (by simp)).positive
  mapped := valid.header_mapped (by simp)
  header := valid.header_eq

theorem Valid.here_next (valid : Valid h (pre ++ b :: c :: post)) :
    Here h c (firstAddr post 0) := by
  have shifted : Valid h ((pre ++ [b]) ++ c :: post) := by simpa using valid
  exact shifted.here

theorem header_at (here : Here h b n) : header b.addr h = .ok (b.header n) h :=
  (header_ok here.mapped).trans (by rw [here.header])

theorem magic_ok (b : Block) (n : Nat) :
    kassert ((b.header n).magic = headerMagic) h = .ok () h :=
  kassert_ok (by simp [Block.header])

theorem nextHeader_some (here : Here h b c.addr) (next : Here h c k) :
    nextHeader b.addr h = .ok c.addr h := by
  unfold nextHeader
  rw [run_bind_ok (header_at here), run_bind_ok (magic_ok b _)]
  have positive := next.positive
  refine (run_if_neg (show ¬ c.addr = 0 by omega)).trans ?_
  exact (run_bind_ok (header_at next)).trans ((run_bind_ok (magic_ok c _)).trans rfl)

theorem nextHeader_none (here : Here h b 0) : nextHeader b.addr h = .ok 0 h := by
  unfold nextHeader
  rw [run_bind_ok (header_at here), run_bind_ok (magic_ok b _)]
  exact run_if_pos rfl

theorem nextHeader_ok (valid : Valid h (pre ++ b :: post)) :
    nextHeader b.addr h = .ok (firstAddr post 0) h := by
  cases post with
  | nil => exact nextHeader_none valid.here
  | cons c rest => exact nextHeader_some valid.here valid.here_next

theorem nextCloseHeader_last (here : Here h b n) (last : b.last = true) :
    nextCloseHeader b.addr h = .ok 0 h := by
  have positive := here.positive
  unfold nextCloseHeader
  rw [run_bind_ok (kassert_ok (by simp; omega)), run_bind_ok (header_at here)]
  exact run_if_pos (by simp [Block.header, last])

/-! ### Merging -/

/-- Two neighbours as one block; the bytes of the second header are lost. -/
def joined (b c : Block) : Block :=
  { b with size := b.size + c.size, last := c.last, limit := c.limit }

theorem mergeHeaders_busy (here : Here h b n) (used : b.free = false) :
    mergeHeaders b.addr h = .ok false h := by
  unfold mergeHeaders
  rw [run_bind_ok (header_at here)]
  exact run_if_pos (by simp [Block.header, used])

theorem mergeHeaders_last (here : Here h b n) (last : b.last = true) :
    mergeHeaders b.addr h = .ok false h := by
  cases free : b.free with
  | false => exact mergeHeaders_busy here free
  | true =>
    unfold mergeHeaders
    rw [run_bind_ok (header_at here)]
    refine (run_if_neg (by simp [Block.header, free])).trans ?_
    rw [run_bind_ok (nextCloseHeader_last here last)]
    exact run_if_pos rfl

theorem flags_small (b : Block) : b.flags < 2 ^ 8 := by
  unfold Block.flags
  split <;> split <;> omega

theorem joined_flags (inner : b.last = false) :
    b.flags ||| (c.flags &&& 2) = (joined b c).flags := by
  unfold Block.flags joined
  rw [inner]
  cases b.free <;> cases c.free <;> cases c.last <;> rfl

theorem absorb_ok (here : Here h b n) (next : Here h c k) (inner : b.last = false)
    (size : b.size + c.size < 2 ^ 32) (small : k < 2 ^ 32) :
    ∃ m', absorb b.addr c.addr h =
        .ok () { h with memory := m', final := if c.addr = h.final then b.addr else h.final } ∧
      Edits h.memory m' b.addr ((joined b c).header k) := by
  have plain : wrap32 (b.size + c.size) = b.size + c.size := Nat.mod_eq_of_lt size
  obtain ⟨m₁, sized, edits₁⟩ := setSize_ok here.mapped size
  rw [here.header] at edits₁
  have read := header_edited here.mapped edits₁
  obtain ⟨m₂, flagged, edits₂⟩ := setFlags_ok (h := { h with memory := m₁ }) here.mapped
    (flags_small (joined b c))
  obtain ⟨m₃, linked, edits₃⟩ := setN_ok (h := { h with memory := m₂ }) here.mapped small
  refine ⟨m₃, ?_, edits₁.trans (edits₂.trans ?_)⟩
  · unfold absorb
    rw [run_bind_ok (header_at next), run_bind_ok (header_at here)]
    simp only [Block.header, plain]
    rw [run_bind_ok sized, run_bind_ok read]
    simp only [Block.header, joined_flags inner]
    rw [run_bind_ok flagged, run_bind_ok linked, run_get]
    by_cases same : c.addr = h.final
    · rw [if_pos same, if_pos same]
      rfl
    · rw [if_neg same, if_neg same]
      rfl
  · rw [edits₂.header, edits₁.header] at edits₃
    exact edits₃

section
variable (here : Here h b c.addr) (next : Here h c k)
include here next

theorem nextCloseHeader_some (inner : b.last = false) :
    nextCloseHeader b.addr h = .ok c.addr h := by
  have positive := here.positive
  unfold nextCloseHeader
  rw [run_bind_ok (kassert_ok (by simp; omega)), run_bind_ok (header_at here)]
  exact (run_if_neg (by simp [Block.header, inner])).trans (nextHeader_some here next)

theorem mergeHeaders_next_busy (used : c.free = false) : mergeHeaders b.addr h = .ok false h := by
  cases free : b.free with
  | false => exact mergeHeaders_busy here free
  | true =>
    cases last : b.last with
    | true => exact mergeHeaders_last here last
    | false =>
      have positive := next.positive
      unfold mergeHeaders
      rw [run_bind_ok (header_at here)]
      refine (run_if_neg (by simp [Block.header, free])).trans ?_
      rw [run_bind_ok (nextCloseHeader_some here next last)]
      refine (run_if_neg (by omega)).trans ?_
      rw [run_bind_ok (header_at next)]
      exact run_if_pos (by simp [Block.header, used])

theorem mergeHeaders_join (free : b.free = true)
    (inner : b.last = false) (free' : c.free = true) (size : b.size + c.size < 2 ^ 32)
    (small : k < 2 ^ 32) :
    ∃ m', mergeHeaders b.addr h =
        .ok true { h with memory := m', final := if c.addr = h.final then b.addr else h.final } ∧
      Edits h.memory m' b.addr ((joined b c).header k) := by
  have positive := next.positive
  obtain ⟨m', absorbed, edits⟩ := absorb_ok here next inner size small
  refine ⟨m', ?_, edits⟩
  unfold mergeHeaders
  rw [run_bind_ok (header_at here)]
  refine (run_if_neg (by simp [Block.header, free])).trans ?_
  rw [run_bind_ok (nextCloseHeader_some here next inner)]
  refine (run_if_neg (by omega)).trans ?_
  rw [run_bind_ok (header_at next)]
  refine (run_if_neg (by simp [Block.header, free'])).trans ?_
  rw [run_bind_ok absorbed]
  rfl

end

end Local

section Chains
variable {h : Kheap} {pre mid mid' post chain : List Block} {b c : Block} {m' : Bytes}

/-- What is done in the rooms of free blocks leaves the blocks in use alone. -/
theorem Valid.keeps (valid : Valid h chain) (free : ∀ c ∈ mid, c ∈ chain ∧ c.free = true)
    (same : ∀ a, (∀ c ∈ mid, ¬ c.Room a) → h'.memory a = h.memory a) :
    KeepsBytes h h' (busyBlocks chain) := by
  intro p n member i bound
  obtain ⟨b, inChain, used, rfl, rfl⟩ := mem_busyBlocks.mp member
  refine same _ fun c inMid room => ?_
  obtain ⟨inChain', isFree⟩ := free c inMid
  have room' := (valid.fits b inChain).data_room bound
  rw [valid.room_eq inChain inChain' room' room, isFree] at used
  cases used

/-- Free blocks in a row are replaced by other free blocks in the same rooms. -/
theorem Valid.rearrange (valid : Valid h (pre ++ mid ++ post)) (free : ∀ c ∈ mid, c.free = true)
    (free' : ∀ c ∈ mid', c.free = true)
    (first : ∀ stop, firstAddr mid' stop = firstAddr mid stop)
    (linked : Linked m' mid' (firstAddr post 0)) (fits : ∀ b ∈ mid', b.Fits)
    (rooms : ∀ b ∈ mid', ∀ a, b.Room a → ∃ c ∈ mid, c.Room a)
    (apart : mid'.Pairwise Block.Apart)
    (same : ∀ a, (∀ c ∈ mid, ¬ c.Room a) → m' a = h.memory a)
    (final : f = lastAddr (pre ++ mid' ++ post)) :
    Quiet h { h with memory := m', final := f } (pre ++ mid ++ post) (pre ++ mid' ++ post) where
  valid := valid.replace first linked fits rooms apart
    (fun b member used => absurd ((free' b member).symm.trans used) nofun) same final
  busy := by
    have none_used : ∀ xs : List Block, (∀ c ∈ xs, c.free = true) → busyBlocks xs = [] :=
      fun xs all => by simpa [busyBlocks] using all
    simp only [busyBlocks_append, none_used mid free, none_used mid' free']
  kept := valid.keeps (fun c member => ⟨by simp [member], free c member⟩) same
  regions := fun _ => id

/-- Only the last block has the address of the last. -/
theorem Valid.lastAddr_ne (valid : Valid h (pre ++ c :: post)) (more : post ≠ []) :
    c.addr ≠ lastAddr post := by
  obtain ⟨e, member, same⟩ := lastAddr_mem more
  intro bad
  have alike : c = e := valid.addr_inj (by simp)
    (mem_append_right _ (mem_cons_of_mem _ member)) (bad.trans same)
  have once := valid.nodup
  rw [nodup_append] at once
  exact (nodup_cons.mp once.2.1).1 (alike ▸ member)

/-- The address of the last block after its start has moved. -/
theorem Valid.final_moved (valid : Valid h (pre ++ c :: post)) (moved : Block) :
    (if c.addr = lastAddr (c :: post) then moved.addr else lastAddr (c :: post)) =
      lastAddr (moved :: post) := by
  cases post with
  | nil => exact if_pos rfl
  | cons d rest => exact if_neg (valid.lastAddr_ne (by simp))

theorem Valid.final_joined (valid : Valid h (pre ++ b :: c :: post)) :
    (if c.addr = h.final then b.addr else h.final) = lastAddr (pre ++ [joined b c] ++ post) := by
  have shifted : Valid h ((pre ++ [b]) ++ c :: post) := by simpa using valid
  rw [valid.final, lastAddr_append, append_assoc, singleton_append, lastAddr_append]
  exact shifted.final_moved (joined b c)

theorem Block.Fits.addr_lt (fits : b.Fits) : b.addr < 2 ^ 32 := by
  have within := fits.within
  have small := fits.small
  unfold headerSize at within
  omega

theorem firstAddr_lt (fits : ∀ b ∈ post, b.Fits) : firstAddr post 0 < 2 ^ 32 := by
  cases post with
  | nil => decide
  | cons d rest => exact (fits d (by simp)).addr_lt

theorem joined_fits (fits : b.Fits) (fits' : c.Fits) (next : b.limit = c.addr) :
    (joined b c).Fits where
  positive := fits.positive
  within := by
    have within := fits.within
    have within' := fits'.within
    change b.addr + headerSize + (b.size + c.size) ≤ c.limit
    omega
  small := fits'.small

/-- Two free neighbours of one region become one. -/
theorem Valid.join (valid : Valid h (pre ++ b :: c :: post)) (free : b.free = true)
    (inner : b.last = false) (free' : c.free = true) :
    ∃ h', mergeHeaders b.addr h = .ok true h' ∧
      Quiet h h' (pre ++ b :: c :: post) (pre ++ joined b c :: post) ∧
      h'.head = h.head ∧ h'.brk = h.brk ∧ h'.regions = h.regions := by
  have fits := valid.fits b (by simp)
  have fits' := valid.fits c (by simp)
  obtain ⟨-, joint, -, joint', -⟩ := (linked_append.mp valid.linked).2
  have next : b.limit = c.addr := (joint inner).1
  have joinedFits := joined_fits fits fits' next
  have within := fits.within
  have size : b.size + c.size < 2 ^ 32 := by
    have := joinedFits.within
    have := joinedFits.small
    unfold joined headerSize at *
    dsimp only at *
    omega
  obtain ⟨m', merged, edits⟩ := mergeHeaders_join valid.here valid.here_next free inner free'
    size (firstAddr_lt fun d member => valid.fits d (by simp [member]))
  have valid' : Valid h (pre ++ [b, c] ++ post) := by simpa using valid
  have quiet : Quiet h
      { h with memory := m', final := if c.addr = h.final then b.addr else h.final }
      (pre ++ [b, c] ++ post) (pre ++ [joined b c] ++ post) := by
    refine valid'.rearrange ?_ ?_ (fun _ => rfl) ⟨edits.header, fun inner' => joint' inner', trivial⟩
      ?_ ?_ (pairwise_singleton ..) ?_ valid.final_joined
    · simp [free, free']
    · simp [joined, free]
    · simpa using joinedFits
    · intro d member a room
      rw [mem_singleton] at member
      subst member
      obtain ⟨low, high⟩ := room
      by_cases inFirst : a < b.limit
      · exact ⟨b, by simp, low, inFirst⟩
      · exact ⟨c, by simp, by omega, high⟩
    · intro a outside
      refine edits.outside a ?_
      have notB := outside b (by simp)
      unfold Block.Room at notB
      omega
  exact ⟨_, merged, by simpa using quiet, rfl, rfl, rfl⟩

/-- The bytes of the free blocks at the start of a list, up to the end of their region. -/
def freeRun : List Block → Nat
  | [] => 0
  | b :: rest => if b.free then b.size + if b.last then 0 else freeRun rest else 0

/-- A step that neither calls `ksbrk` nor touches blocks in use. -/
structure Settles (h h' : Kheap) (chain chain' : List Block) : Prop extends
    Quiet h h' chain chain' where
  head : h'.head = h.head
  brk : h'.brk = h.brk
  region_list : h'.regions = h.regions

theorem Settles.refl (valid : Valid h chain) : Settles h h chain chain :=
  ⟨.refl valid, rfl, rfl, rfl⟩

theorem Settles.trans (first : Settles h h' chain chain') (second : Settles h' h'' chain' chain'') :
    Settles h h'' chain chain'' :=
  ⟨first.toQuiet.trans second.toQuiet, second.head.trans first.head,
    second.brk.trans first.brk, second.region_list.trans first.region_list⟩

theorem Valid.head_pos (valid : Valid h chain) : chain ≠ [] ↔ 0 < h.head := by
  rw [valid.head]
  cases chain with
  | nil => simp [firstAddr]
  | cons b rest => simpa [firstAddr] using (valid.fits b (by simp)).positive

theorem Settles.started (settles : Settles h h' chain chain') (valid : Valid h chain) :
    chain' ≠ [] ↔ chain ≠ [] := by
  rw [settles.valid.head_pos, valid.head_pos, settles.head]

theorem Valid.ends (valid : Valid h (pre ++ [b])) : b.last = true := by
  by_contra inner
  exact ((linked_append.mp valid.linked).2.2.1 (by simpa using inner)).2 rfl

/-- A free block has no room behind it to take in, or a free block of its region follows. -/
theorem Valid.alone_or_followed (valid : Valid h (pre ++ b :: post)) (free : b.free = true) :
    (mergeHeaders b.addr h = .ok false h ∧ freeRun (b :: post) = b.size) ∨
      ∃ c rest, post = c :: rest ∧ b.last = false ∧ c.free = true := by
  cases last : b.last with
  | true => exact .inl ⟨mergeHeaders_last valid.here last, by simp [freeRun, free, last]⟩
  | false =>
    cases post with
    | nil => exact absurd (valid.ends.symm.trans last) nofun
    | cons c rest =>
      cases free' : c.free with
      | false =>
        exact .inl ⟨mergeHeaders_next_busy valid.here valid.here_next free',
          by simp [freeRun, free, last, free']⟩
      | true => exact .inr ⟨c, rest, rfl, rfl, free'⟩

/-- The inner loop of the search takes in the free blocks that follow in the region. -/
theorem Valid.mergeAll (valid : Valid h (pre ++ b :: post)) (free : b.free = true)
    (fuel : Nat) (enough : post.length < fuel) :
    ∃ h' b' post', mergeAll fuel b.addr h = .ok () h' ∧
      Settles h h' (pre ++ b :: post) (pre ++ b' :: post') ∧
      b'.addr = b.addr ∧ b'.free = true ∧ b'.size = freeRun (b :: post) ∧
      post' <:+ post ∧
      ∀ t, t <:+ post → freeRun t ≤ freeRun (b :: post) ∨ t <:+ post' := by
  induction fuel generalizing h b post with
  | zero => cases enough
  | succ fuel ih =>
    rcases valid.alone_or_followed free with ⟨answer, size⟩ | ⟨c, rest, rfl, last, free'⟩
    · exact ⟨h, b, post, run_bind_false answer, .refl valid, rfl, free, size.symm, suffix_rfl,
        fun _ => .inr⟩
    · obtain ⟨h₁, merged, quiet, head, brk, regions⟩ := valid.join free last free'
      obtain ⟨h', b', post', ran, settles, addr, isFree, size, behind, suffixes⟩ :=
        ih quiet.valid free (Nat.lt_of_succ_lt_succ enough)
      have total : freeRun (joined b c :: rest) = freeRun (b :: c :: rest) := by
        simp [freeRun, joined, free, last, free', add_assoc]
      rw [total] at size suffixes
      refine ⟨h', b', post', (run_bind_true merged).trans ran,
        Settles.trans ⟨quiet, head, brk, regions⟩ settles, addr, isFree, size,
        behind.trans (suffix_cons c rest), fun t suffix => ?_⟩
      rcases suffix_cons_iff.mp suffix with rfl | suffix
      · left
        simp [freeRun, free, last]
      · exact suffixes t suffix

/-- There are fewer blocks than addresses. -/
theorem Valid.short (valid : Valid h chain) : chain.length < turns := by
  have once : (chain.map Block.addr).Nodup := by
    refine (nodup_map_iff_inj_on valid.nodup).mpr ?_
    exact fun b member c member' same => valid.addr_inj member member' same
  have inside : chain.map Block.addr ⊆ range' 1 (turns - 1) := by
    intro a member
    obtain ⟨b, inChain, rfl⟩ := mem_map.mp member
    have positive := (valid.fits b inChain).positive
    have small := (valid.fits b inChain).addr_lt
    rw [mem_range'_1]
    unfold turns
    omega
  have length := (Nodup.subperm once inside).length_le
  rw [length_map, length_range'] at length
  unfold turns at *
  omega

/-- The search ended at a free block of at least `s` bytes. -/
def Finds (h h' : Kheap) (chain : List Block) (s p : Nat) : Prop :=
  ∃ pre b post, p = b.addr ∧ b.free = true ∧ s ≤ b.size ∧ Settles h h' chain (pre ++ b :: post)

/-- No block has room for `s` bytes, not even together with the free blocks after it. -/
def NoneFits (chain : List Block) (s : Nat) : Prop := ∀ t, t <:+ chain → freeRun t < s

theorem noneFits_cons : NoneFits (b :: post) s ↔ freeRun (b :: post) < s ∧ NoneFits post s := by
  unfold NoneFits
  simp only [suffix_cons_iff, forall_eq_or_imp]

/-- The loop of `find_free_entry` finds a block or there is none. -/
theorem Valid.searchFrom (valid : Valid h (pre ++ post)) (positive : 0 < s) (fuel : Nat)
    (enough : post.length < fuel) :
    ∃ p h', searchFrom s fuel (firstAddr post 0) h = .ok p h' ∧
      (Finds h h' (pre ++ post) s p ∧ ¬ NoneFits post s ∨
        p = 0 ∧ (∃ post', Settles h h' (pre ++ post) (pre ++ post')) ∧ NoneFits post s) := by
  induction fuel generalizing h pre post with
  | zero => cases enough
  | succ fuel ih =>
    cases post with
    | nil =>
      refine ⟨0, h, run_if_pos rfl, .inr ⟨rfl, ⟨[], .refl valid⟩, fun t suffix => ?_⟩⟩
      rw [suffix_nil.mp suffix]
      exact positive
    | cons b rest =>
      have nonzero := valid.here.positive
      have shift {h : Kheap} {b : Block} {rest : List Block} (valid : Valid h (pre ++ b :: rest)) :
          Valid h ((pre ++ [b]) ++ rest) := by simpa using valid
      rw [show firstAddr (b :: rest) 0 = b.addr from rfl]
      unfold Kmalloc.searchFrom
      rw [if_neg (by omega), run_bind_ok (header_at valid.here), run_bind_ok (magic_ok b _)]
      cases free : b.free with
      | false =>
        rw [run_if_pos (by simp [Block.header, free]), run_bind_ok (nextHeader_ok valid)]
        obtain ⟨p, h', ran, outcome⟩ := ih (shift valid) (Nat.lt_of_succ_lt_succ enough)
        have less : freeRun (b :: rest) < s := by simpa [freeRun, free] using positive
        refine ⟨p, h', ran, outcome.imp ?_ ?_⟩
        · rintro ⟨found, some_fits⟩
          exact ⟨by simpa using found, fun none_fits => some_fits (noneFits_cons.mp none_fits).2⟩
        · rintro ⟨rfl, ⟨rest', settles⟩, none_fits⟩
          exact ⟨rfl, ⟨b :: rest', by simpa using settles⟩, noneFits_cons.mpr ⟨less, none_fits⟩⟩
      | true =>
        rw [run_if_neg (by simp [Block.header, free])]
        by_cases small : (b.header (firstAddr rest 0)).size < s
        · have short := valid.short
          rw [length_append, length_cons] at short
          obtain ⟨h₁, b', rest', merged, settles, addr, free', size, behind, suffixes⟩ :=
            valid.mergeAll free turns (by omega)
          rw [run_if_pos small, run_bind_ok merged]
          have here' := settles.valid.here
          rw [← addr, run_bind_ok (header_at here')]
          by_cases large : s ≤ (b'.header (firstAddr rest' 0)).size
          · rw [run_if_pos large]
            refine ⟨b'.addr, h₁, rfl, .inl ⟨⟨pre, b', rest', rfl, free', large, settles⟩, ?_⟩⟩
            intro none_fits
            have less := (noneFits_cons.mp none_fits).1
            rw [← size] at less
            exact absurd large (Nat.not_le_of_lt less)
          · rw [run_if_neg large, run_bind_ok (nextHeader_ok settles.valid)]
            obtain ⟨p, h', ran, outcome⟩ := ih (shift settles.valid)
              (behind.length_le.trans_lt (Nat.lt_of_succ_lt_succ enough))
            refine ⟨p, h', ran, outcome.imp ?_ ?_⟩
            · rintro ⟨⟨pre', c, post', rfl, free'', fits, settles'⟩, some_fits⟩
              refine ⟨⟨pre', c, post', rfl, free'', fits,
                settles.trans (by simpa using settles')⟩, fun none_fits => some_fits ?_⟩
              exact fun t suffix => (noneFits_cons.mp none_fits).2 t (suffix.trans behind)
            · rintro ⟨rfl, ⟨rest'', settles'⟩, none_fits⟩
              refine ⟨rfl, ⟨b' :: rest'', settles.trans (by simpa using settles')⟩, ?_⟩
              have less : freeRun (b :: rest) < s := size ▸ Nat.lt_of_not_le large
              refine noneFits_cons.mpr ⟨less, fun t suffix => ?_⟩
              rcases suffixes t suffix with inside | suffix'
              · exact inside.trans_lt less
              · exact none_fits t suffix'
        · rw [run_if_neg small]
          have large : s ≤ b.size := not_lt.mp small
          refine ⟨b.addr, h, rfl, .inl ⟨⟨pre, b, rest, rfl, free, large, .refl valid⟩, ?_⟩⟩
          intro none_fits
          have less := (noneFits_cons.mp none_fits).1
          simp only [freeRun, free, if_true] at less
          omega

end Chains

end SbOS.Kmalloc
