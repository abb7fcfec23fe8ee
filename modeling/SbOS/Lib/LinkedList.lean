import Mathlib.Data.List.Nodup

/-! Doubly linked lists in a heap. Nodes are reached by address, a null pointer
is zero. `Linked` says that the nodes at some addresses form a list in this
order; entries are pushed in front and taken out anywhere. -/
namespace SbOS.LinkedList
open List (mem_cons_of_mem mem_cons_self)

structure Node (α : Type) where
  value : α
  next : Nat
  prev : Nat

/-- The nodes by address. -/
abbrev Heap (α : Type) := Nat → Node α

variable {α : Type} {heap heap' : Heap α}

/-- The nodes at the addresses form a list, behind the node `before`. -/
def Linked (heap : Heap α) : Nat → List Nat → Prop
  | _, [] => True
  | before, a :: rest =>
    a ≠ 0 ∧ (heap a).prev = before ∧ (heap a).next = rest.headD 0 ∧ Linked heap a rest

theorem Linked.ne_zero (linked : Linked heap before addresses) : ∀ a ∈ addresses, a ≠ 0 := by
  induction addresses generalizing before with
  | nil => simp
  | cons a rest ih =>
    obtain ⟨nonzero, _, _, linked⟩ := linked
    rintro b (_ | ⟨_, member⟩)
    · exact nonzero
    · exact ih linked b member

/-- Only the pointers of the nodes in the list matter. -/
theorem Linked.congr (linked : Linked heap before addresses)
    (same : ∀ a ∈ addresses, (heap' a).prev = (heap a).prev ∧ (heap' a).next = (heap a).next) :
    Linked heap' before addresses := by
  induction addresses generalizing before with
  | nil => trivial
  | cons a rest ih =>
    obtain ⟨nonzero, prev, next, linked⟩ := linked
    obtain ⟨prev', next'⟩ := same a (mem_cons_self ..)
    exact ⟨nonzero, prev'.trans prev, next'.trans next,
      ih linked fun b member => same b (mem_cons_of_mem _ member)⟩

/-- A new node in front: it points to the old first node, which points back. -/
theorem Linked.push (linked : Linked heap 0 addresses) (nonzero : a ≠ 0)
    (next : (heap' a).next = addresses.headD 0) (prev : (heap' a).prev = 0)
    (back : ∀ b ∈ addresses.head?, (heap' b).prev = a)
    (same : ∀ b ∈ addresses, (heap' b).next = (heap b).next)
    (rest : ∀ b ∈ addresses.tail, (heap' b).prev = (heap b).prev) :
    Linked heap' 0 (a :: addresses) := by
  refine ⟨nonzero, prev, next, ?_⟩
  cases addresses with
  | nil => trivial
  | cons b others =>
    obtain ⟨nonzero', _, next', linked⟩ := linked
    refine ⟨nonzero', back b rfl, (same b (mem_cons_self ..)).trans next', ?_⟩
    exact linked.congr fun c member => ⟨rest c member, same c (mem_cons_of_mem _ member)⟩

/-- The pointers of a node in the list. -/
theorem Linked.at (linked : Linked heap before (front ++ a :: rest)) :
    (heap a).prev = front.getLastD before ∧ (heap a).next = rest.headD 0 := by
  induction front generalizing before with
  | nil =>
    obtain ⟨_, prev, next, _⟩ := linked
    exact ⟨prev, next⟩
  | cons b front ih =>
    obtain ⟨_, _, _, linked⟩ := linked
    rw [List.getLastD_cons]
    exact ih linked

theorem headD_mem_or (rest : List Nat) : rest.headD 0 = 0 ∨ rest.headD 0 ∈ rest := by
  cases rest with
  | nil => exact .inl rfl
  | cons b rest => exact .inr (mem_cons_self ..)

/-- A node is taken out when its neighbours point past it. -/
theorem Linked.unlink (linked : Linked heap before (front ++ a :: rest))
    (nodup : (before :: (front ++ a :: rest)).Nodup)
    (next : ∀ b ∈ front ++ rest, (heap' b).next =
      if b = front.getLastD before then rest.headD 0 else (heap b).next)
    (prev : ∀ b ∈ front ++ rest, (heap' b).prev =
      if b = rest.headD 0 then front.getLastD before else (heap b).prev) :
    Linked heap' before (front ++ rest) := by
  induction front generalizing before with
  | nil =>
    obtain ⟨_, _, _, linked⟩ := linked
    obtain ⟨outside, _, nodup⟩ : before ∉ a :: rest ∧ a ∉ rest ∧ rest.Nodup := by
      simpa using nodup
    cases rest with
    | nil => trivial
    | cons r others =>
      obtain ⟨nonzero, _, next', linked⟩ := linked
      obtain ⟨distinct, _⟩ := List.nodup_cons.mp nodup
      have apart : ∀ b ∈ r :: others, b ≠ before := fun b member same =>
        outside (mem_cons_of_mem _ (same ▸ member))
      refine ⟨nonzero, ?_, ?_, linked.congr fun c member => ⟨?_, ?_⟩⟩
      · exact (prev r (mem_cons_self ..)).trans (if_pos rfl)
      · exact ((next r (mem_cons_self ..)).trans
          (if_neg (apart r (mem_cons_self ..)))).trans next'
      · exact (prev c (mem_cons_of_mem _ member)).trans
          (if_neg (show c ≠ r from fun same => distinct (same ▸ member)))
      · exact (next c (mem_cons_of_mem _ member)).trans
          (if_neg (apart c (mem_cons_of_mem _ member)))
  | cons b front ih =>
    obtain ⟨nonzero, prev', next', linked⟩ := linked
    have inner := (List.nodup_cons.mp nodup).2
    have distinct := (List.nodup_cons.mp inner).1
    have notHead : b ≠ rest.headD 0 := by
      intro same
      rcases headD_mem_or rest with zero | member
      · exact nonzero (same.trans zero)
      · exact distinct (List.mem_append_right _ (mem_cons_of_mem _ (same ▸ member)))
    simp only [List.getLastD_cons] at next prev
    refine ⟨nonzero, ?_, ?_, ih linked inner
      (fun c member => next c (mem_cons_of_mem _ member))
      (fun c member => prev c (mem_cons_of_mem _ member))⟩
    · exact ((prev b (mem_cons_self ..)).trans (if_neg notHead)).trans prev'
    · have here := next b (mem_cons_self ..)
      cases front with
      | nil => exact here.trans (if_pos rfl)
      | cons c front =>
        refine (here.trans (if_neg fun same => ?_)).trans next'
        rw [List.getLastD_cons] at same
        exact distinct (List.mem_append_left _ (same ▸ List.getLastD_mem_cons))

end SbOS.LinkedList
