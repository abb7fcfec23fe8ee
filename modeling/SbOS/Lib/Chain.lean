import Mathlib.Data.List.Nodup
import Mathlib.Logic.Function.Basic

/-! Singly linked lists in a store. Nodes are reached by address, a null pointer
is zero. `Path` follows the pointers from one address to another; a list is a path
to the null pointer. -/
namespace SbOS.Chain
open Function

structure Link (α : Type) where
  value : α
  next : Nat

/-- The nodes that are live, by address. -/
abbrev Store (α : Type) := Nat → Option (Link α)

variable {α : Type} {store store' : Store α} {nodes more : List (Nat × α)}

/-- The pointers lead from `start` past the nodes to `stop`. -/
def Path (store : Store α) : (start : Nat) → List (Nat × α) → (stop : Nat) → Prop
  | start, [], stop => start = stop
  | start, (a, v) :: rest, stop => start = a ∧ a ≠ 0 ∧
    ∃ next, store a = some ⟨v, next⟩ ∧ Path store next rest stop

/-- Only the nodes on the path matter. -/
theorem Path.congr (path : Path store start nodes stop)
    (same : ∀ node ∈ nodes, store' node.1 = store node.1) : Path store' start nodes stop := by
  induction nodes generalizing start with
  | nil => exact path
  | cons node rest ih =>
    obtain ⟨rfl, nonzero, next, found, path⟩ := path
    exact ⟨rfl, nonzero, next, (same _ List.mem_cons_self).trans found,
      ih path fun other member => same other (List.mem_cons_of_mem _ member)⟩

theorem Path.append (path : Path store start nodes middle) (further : Path store middle more stop) :
    Path store start (nodes ++ more) stop := by
  induction nodes generalizing start with
  | nil =>
    obtain rfl : start = middle := path
    exact further
  | cons node rest ih =>
    obtain ⟨rfl, nonzero, next, found, path⟩ := path
    exact ⟨rfl, nonzero, next, found, ih path⟩

theorem Path.split (path : Path store start (nodes ++ more) stop) :
    ∃ middle, Path store start nodes middle ∧ Path store middle more stop := by
  induction nodes generalizing start with
  | nil => exact ⟨start, rfl, path⟩
  | cons node rest ih =>
    obtain ⟨rfl, nonzero, next, found, path⟩ := path
    obtain ⟨middle, first, second⟩ := ih path
    exact ⟨middle, ⟨rfl, nonzero, next, found, first⟩, second⟩

/-- Every node of a path is live. -/
theorem Path.live (path : Path store start nodes stop) :
    ∀ node ∈ nodes, ∃ next, store node.1 = some ⟨node.2, next⟩ := by
  induction nodes generalizing start with
  | nil => exact List.forall_mem_nil _
  | cons node rest ih =>
    obtain ⟨rfl, nonzero, next, found, path⟩ := path
    exact List.forall_mem_cons.mpr ⟨⟨next, found⟩, ih path⟩

theorem Path.nonzero (path : Path store start nodes stop) : ∀ node ∈ nodes, node.1 ≠ 0 := by
  induction nodes generalizing start with
  | nil => exact List.forall_mem_nil _
  | cons node rest ih =>
    obtain ⟨rfl, nonzero, next, found, path⟩ := path
    exact List.forall_mem_cons.mpr ⟨nonzero, ih path⟩

/-- The store with another pointer in the node at `a`. -/
def setNext (store : Store α) (a next : Nat) : Store α :=
  Function.update store a ((store a).map fun link => { link with next })

theorem setNext_other (different : b ≠ a) : setNext store a next b = store b :=
  update_of_ne different ..

/-- The last node of a path may point elsewhere. -/
theorem Path.redirect (path : Path store start (nodes ++ [(a, v)]) stop)
    (apart : a ∉ nodes.map Prod.fst) (stop' : Nat) :
    Path (setNext store a stop') start (nodes ++ [(a, v)]) stop' := by
  obtain ⟨middle, first, rfl, nonzero, next, found, _⟩ := path.split
  refine (first.congr fun node member => ?_).append ?_
  · refine setNext_other ?_
    rintro rfl
    exact apart (List.mem_map_of_mem member)
  · refine ⟨rfl, nonzero, stop', ?_, rfl⟩
    unfold setNext
    rw [update_self, found]
    rfl

end SbOS.Chain
