import Mathlib.Data.List.Pairwise
import SbOS.Kernel.Kmalloc

/-! The chain of headers as a list of blocks. A block has the memory up to the next
header of its region, its room, of which it may use only a part: merging and shrinking
leave bytes behind that belong to no block. Rooms never overlap, and every operation
changes memory within the rooms it works on. -/
namespace SbOS.Kmalloc
open Bytes
open Kernel (wrap32 sub32 sub32_eq)

/-- A header and what follows it: `limit` is where the room ends. -/
structure Block where
  addr : Nat
  size : Nat
  free : Bool
  last : Bool
  limit : Nat

namespace Block

def flags (b : Block) : Nat := (if b.free then 1 else 0) + if b.last then 2 else 0

/-- The header of a block that is followed by the one at `n`. -/
def header (b : Block) (n : Nat) : MallocHeader := ⟨headerMagic, b.size, b.flags, n⟩

def Room (b : Block) (a : Nat) : Prop := b.addr ≤ a ∧ a < b.limit

/-- The rooms have no address in common. -/
def Apart (b c : Block) : Prop := ∀ a, b.Room a → ¬ c.Room a

instance : Std.Symm Apart := ⟨fun _ _ apart a room room' => apart a room' room⟩

/-- The header and the bytes are in the room, and the room in the address space. -/
structure Fits (b : Block) : Prop where
  positive : 0 < b.addr
  within : b.addr + headerSize + b.size ≤ b.limit
  small : b.limit ≤ 2 ^ 32

@[simp] theorem isFree_flags (b : Block) : isFree b.flags = b.free := by
  unfold flags
  cases b.free <;> cases b.last <;> rfl

@[simp] theorem isFinal_flags (b : Block) : isFinal b.flags = b.last := by
  unfold flags
  cases b.free <;> cases b.last <;> rfl

end Block

/-! ### Stores to a header -/

/-- `m'` differs from `m` in the header at `a` only, which is `hd` now. -/
structure Edits (m m' : Bytes) (a : Nat) (hd : MallocHeader) : Prop where
  header : headerAt m' a = hd
  outside : ∀ x, x < a ∨ a + headerSize ≤ x → m' x = m x

section Stores
variable {m m' m'' : Bytes} {a b : Nat} {hd hd' : MallocHeader}

theorem Edits.trans (first : Edits m m' a hd) (second : Edits m' m'' a hd') :
    Edits m m'' a hd' :=
  ⟨second.header, fun x apart => (second.outside x apart).trans (first.outside x apart)⟩

theorem headerAt_congr (same : ∀ i < headerSize, m (a + i) = m' (b + i)) :
    headerAt m a = headerAt m' b := by
  have field : ∀ o, o + 4 ≤ headerSize → le32 m (a + o) = le32 m' (b + o) := fun o inside =>
    le32_congr fun i bound => by
      rw [add_assoc, add_assoc]
      exact same (o + i) (by omega)
  have flags := same 12 (by decide)
  unfold headerAt
  rw [field 4 (by decide), field 8 (by decide), field 16 (by decide), flags,
    show le32 m a = le32 m' b from field 0 (by decide)]

/-- A header outside the one that is edited stays. -/
theorem Edits.other (edits : Edits m m' a hd) (apart : b + headerSize ≤ a ∨ a + headerSize ≤ b) :
    headerAt m' b = headerAt m b :=
  headerAt_congr fun i bound => edits.outside (b + i) (by omega)

theorem edits_size (m : Bytes) (a size : Nat) (small : size < 2 ^ 32) :
    Edits m (put32 m (a + 8) size) a { headerAt m a with size } where
  header := by
    unfold headerAt
    rw [le32_put32_apart (by omega), le32_put32_apart (by omega), le32_put32_same,
      le32_put32_apart (by omega), Nat.mod_eq_of_lt small]
    unfold put32
    rw [splice_outside (by omega)]
  outside := fun x apart => splice_outside (by unfold headerSize at apart; omega)

theorem edits_n (m : Bytes) (a n : Nat) (small : n < 2 ^ 32) :
    Edits m (put32 m (a + 16) n) a { headerAt m a with n } where
  header := by
    unfold headerAt
    rw [le32_put32_apart (by omega), le32_put32_apart (by omega), le32_put32_apart (by omega),
      le32_put32_same, Nat.mod_eq_of_lt small]
    unfold put32
    rw [splice_outside (by omega)]
  outside := fun x apart => splice_outside (by unfold headerSize at apart; omega)

theorem edits_flags (m : Bytes) (a flags : Nat) (small : flags < 2 ^ 8) :
    Edits m (splice m (a + 12) (encode flags) 1) a { headerAt m a with flags } where
  header := by
    unfold headerAt
    rw [le32_splice_outside (by omega), le32_splice_outside (by omega),
      le32_splice_outside (by omega), le32_splice_outside (by omega),
      splice_inside (by omega) (by omega)]
    simp only [Nat.sub_self, encode, Nat.pow_zero, Nat.div_one, UInt8.toNat_ofNat',
      Nat.mod_eq_of_lt small]
  outside := fun x apart => splice_outside (by unfold headerSize at apart; omega)

theorem edits_magic (m : Bytes) (a : Nat) :
    Edits m (putMagic m a) a { headerAt m a with magic := headerMagic } where
  header := by
    unfold headerAt putMagic
    rw [le32_put32_apart (by omega), le32_put32_same, le32_put32_same, le32_put32_apart (by omega),
      le32_put32_apart (by omega), le32_put32_apart (by omega), le32_put32_apart (by omega)]
    unfold put32
    rw [splice_outside (by omega), splice_outside (by omega)]
    rfl
  outside := fun x apart => by
    unfold headerSize at apart
    exact (splice_outside (by omega)).trans (splice_outside (by omega))

end Stores

/-! ### The chain -/

/-- The address of the first block, or of what follows an empty list. -/
def firstAddr : List Block → Nat → Nat
  | [], stop => stop
  | b :: _, _ => b.addr

/-- The address of the last block. -/
def lastAddr : List Block → Nat
  | [] => 0
  | [b] => b.addr
  | _ :: b :: rest => lastAddr (b :: rest)

/-- The headers of the blocks are in memory, each with the address of the next; `stop`
follows the last. A block that does not end its region has its room up to the next. -/
def Linked (m : Bytes) : List Block → (stop : Nat) → Prop
  | [], _ => True
  | b :: rest, stop =>
    headerAt m b.addr = b.header (firstAddr rest stop) ∧
      (b.last = false → b.limit = firstAddr rest stop ∧ firstAddr rest stop ≠ 0) ∧
      Linked m rest stop

theorem firstAddr_append : firstAddr (xs ++ ys) stop = firstAddr xs (firstAddr ys stop) := by
  cases xs <;> rfl

theorem lastAddr_append (xs : List Block) (b : Block) (ys : List Block) :
    lastAddr (xs ++ b :: ys) = lastAddr (b :: ys) := by
  induction xs with
  | nil => rfl
  | cons x xs ih =>
    cases xs with
    | nil => rfl
    | cons y xs => exact ih

theorem linked_append : Linked m (xs ++ ys) stop ↔
    Linked m xs (firstAddr ys stop) ∧ Linked m ys stop := by
  induction xs with
  | nil => simp [Linked]
  | cons b xs ih =>
    simp only [List.cons_append, Linked, firstAddr_append, ih]
    tauto

/-- Only the headers of the blocks matter. -/
theorem Linked.congr (linked : Linked m xs stop)
    (same : ∀ b ∈ xs, headerAt m' b.addr = headerAt m b.addr) : Linked m' xs stop := by
  induction xs with
  | nil => trivial
  | cons b xs ih =>
    obtain ⟨header, joined, rest⟩ := linked
    exact ⟨(same b (by simp)).trans header, joined, ih rest fun c member => same c (by simp [member])⟩

/-- The heap is the chain of these blocks. -/
structure Valid (h : Kheap) (chain : List Block) : Prop where
  head : h.head = firstAddr chain 0
  final : h.final = lastAddr chain
  linked : Linked h.memory chain 0
  fits : ∀ b ∈ chain, b.Fits
  apart : chain.Pairwise Block.Apart
  mapped : ∀ b ∈ chain, ∀ a, b.Room a → ∃ r ∈ h.regions, r.Has a
  busy : ∀ b ∈ chain, b.free = false → b.last = false

namespace Block
variable {b c : Block}

theorem Fits.header_room (fits : b.Fits) (bound : i < headerSize) : b.Room (b.addr + i) := by
  have := fits.within
  exact ⟨by omega, by omega⟩

theorem Fits.data_room (fits : b.Fits) (bound : i < b.size) :
    b.Room (b.addr + headerSize + i) := by
  have := fits.within
  exact ⟨by omega, by omega⟩

/-- Rooms without a common address are one after the other. -/
theorem order (fits : b.Fits) (fits' : c.Fits) (apart : b.Apart c) :
    b.limit ≤ c.addr ∨ c.limit ≤ b.addr := by
  have within := fits.within
  have within' := fits'.within
  unfold headerSize at within within'
  by_contra overlap
  rcases Nat.le_total b.addr c.addr with first | first
  · exact apart c.addr ⟨first, by omega⟩ ⟨le_rfl, by omega⟩
  · exact apart b.addr ⟨le_rfl, by omega⟩ ⟨first, by omega⟩

end Block

theorem lastAddr_mem (some_left : xs ≠ []) : ∃ b ∈ xs, lastAddr xs = b.addr := by
  induction xs with
  | nil => exact absurd rfl some_left
  | cons b xs ih =>
    cases xs with
    | nil => exact ⟨b, by simp, rfl⟩
    | cons c xs =>
      obtain ⟨d, member, same⟩ := ih (by simp)
      exact ⟨d, by simp [member], same⟩

section Middle
variable {h : Kheap} {pre mid mid' post chain : List Block} {m' : Bytes} {b c : Block}

theorem Valid.header_mapped (valid : Valid h chain) (member : b ∈ chain) :
    Mapped h.regions b.addr headerSize :=
  fun _ bound => valid.mapped b member _ ((valid.fits b member).header_room bound)

theorem Valid.header_eq (valid : Valid h (pre ++ b :: post)) :
    headerAt h.memory b.addr = b.header (firstAddr post 0) :=
  (linked_append.mp valid.linked).2.1

section
variable (valid : Valid h chain) (member : b ∈ chain) (member' : c ∈ chain)
include valid member member'

/-- An address lies in the room of one block only. -/
theorem Valid.room_eq (room : b.Room a) (room' : c.Room a) : b = c := by
  by_contra other
  exact valid.apart.forall member member' other a room room'

theorem Valid.addr_inj (same : b.addr = c.addr) : b = c := by
  have room := (valid.fits b member).header_room (show 0 < headerSize by decide)
  have room' := (valid.fits c member').header_room (show 0 < headerSize by decide)
  exact valid.room_eq member member' room (same ▸ room')

end

/-- Each block stands in the chain once. -/
theorem Valid.nodup (valid : Valid h chain) : chain.Nodup := by
  refine List.Pairwise.imp_of_mem (fun member _ apart same => ?_) valid.apart
  have room := (valid.fits _ member).header_room (show 0 < headerSize by decide)
  exact apart _ room (same ▸ room)

/-- Memory that differs only inside the rooms of some blocks has the same headers
outside. -/
theorem header_outside (fits : b.Fits) (same : ∀ a, (∀ c ∈ mid, ¬ c.Room a) → m' a = m a)
    (apart : ∀ c ∈ mid, ∀ a, b.Room a → ¬ c.Room a) : headerAt m' b.addr = headerAt m b.addr :=
  headerAt_congr fun _ bound =>
    same _ fun c member => apart c member _ (fits.header_room bound)

/-- Some blocks in a row are replaced by others in the same rooms. -/
theorem Valid.replace (valid : Valid h (pre ++ mid ++ post))
    (first : ∀ stop, firstAddr mid' stop = firstAddr mid stop)
    (linked : Linked m' mid' (firstAddr post 0)) (fits : ∀ b ∈ mid', b.Fits)
    (rooms : ∀ b ∈ mid', ∀ a, b.Room a → ∃ c ∈ mid, c.Room a)
    (apart : mid'.Pairwise Block.Apart)
    (busy : ∀ b ∈ mid', b.free = false → b.last = false)
    (same : ∀ a, (∀ c ∈ mid, ¬ c.Room a) → m' a = h.memory a)
    (final' : f = lastAddr (pre ++ mid' ++ post)) :
    Valid { h with memory := m', final := f } (pre ++ mid' ++ post) := by
  obtain ⟨before, middle, after⟩ := List.pairwise_append.mp valid.apart
  obtain ⟨preApart, midApart, preMid⟩ := List.pairwise_append.mp before
  obtain ⟨linkedFront, linkedPost⟩ := linked_append.mp valid.linked
  obtain ⟨linkedPre, -⟩ := linked_append.mp linkedFront
  have each : ∀ P : Block → Prop, (∀ b ∈ pre ++ mid ++ post, P b) → (∀ b ∈ mid', P b) →
      ∀ b ∈ pre ++ mid' ++ post, P b := by
    intro P old new
    simp only [List.forall_mem_append] at old ⊢
    exact ⟨⟨old.1.1, new⟩, old.2⟩
  refine ⟨?_, final', ?_, each _ valid.fits fits, ?_, each _ valid.mapped ?_, each _ valid.busy busy⟩
  · rw [show ({ h with memory := m', final := f } : Kheap).head = h.head from rfl, valid.head]
    simp only [List.append_assoc, firstAddr_append, first]
  · refine linked_append.mpr ⟨linked_append.mpr ⟨?_, linked⟩, ?_⟩
    · rw [first]
      refine linkedPre.congr fun b member => header_outside (valid.fits b (by simp [member])) same ?_
      exact fun c other a room => preMid b member c other a room
    · refine linkedPost.congr fun b member => header_outside (valid.fits b (by simp [member])) same ?_
      exact fun c other a room room' => after c (by simp [other]) b member a room' room
  · refine List.pairwise_append.mpr ⟨List.pairwise_append.mpr ⟨preApart, apart, ?_⟩, middle, ?_⟩
    · intro b member c other a room room'
      obtain ⟨c', member', room''⟩ := rooms c other a room'
      exact preMid b member c' member' a room room''
    · intro b member c other a room room'
      rcases List.mem_append.mp member with inPre | inMid
      · exact after b (by simp [inPre]) c other a room room'
      · obtain ⟨b', member', room''⟩ := rooms b inMid a room
        exact after b' (by simp [member']) c other a room'' room'
  · intro b member a room
    obtain ⟨c, member', room'⟩ := rooms b member a room
    exact valid.mapped c (by simp [member']) a room'

end Middle

end SbOS.Kmalloc
