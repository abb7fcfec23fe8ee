import Mathlib.Data.Set.Insert

/-! Trees whose nodes are blocks of a store. The pointer to a node is kept in a
slot of the block of its parent, or of a record at the root. `Stored` says that
a set of nodes is found at given blocks; a tree grows by `attach`. -/
namespace SbOS.PointerTree
open Function

/-- Where each node keeps its pointer. -/
structure Shape (Node : Type) where
  parent : Node → Option Node
  slot : Node → Nat
  rank : Node → Nat
  descends : ∀ {node above}, parent node = some above → rank above < rank node
  separate : ∀ {a b}, parent a = parent b → slot a = slot b → a = b

/-- The slots of the root record and of every block. -/
structure Store where
  root : Nat → Nat
  entry : Nat → Nat → Nat

namespace Store

def setRoot (store : Store) (slot value : Nat) : Store :=
  { store with root := Function.update store.root slot value }

def setEntry (store : Store) (block slot value : Nat) : Store :=
  { store with
    entry := Function.update store.entry block (Function.update (store.entry block) slot value) }

theorem setRoot_root (store : Store) : (store.setRoot slot value).root slot' =
    if slot' = slot then value else store.root slot' := update_apply ..

theorem setEntry_entry (store : Store) : (store.setEntry block slot value).entry block' slot' =
    if block' = block ∧ slot' = slot then value else store.entry block' slot' := by
  by_cases same : block' = block
  · subst same
    simp [setEntry, update_apply]
  · simp [setEntry, same]

end Store

variable {Node : Type} {T : Shape Node} {store store' : Store} {nodes : Set Node}
  {loc loc' : Node → Nat}

/-- The pointer to a node when its parent is the block that `loc` says. -/
def Shape.read (T : Shape Node) (store : Store) (loc : Node → Nat) (node : Node) : Nat :=
  match T.parent node with
  | none => store.root (T.slot node)
  | some above => store.entry (loc above) (T.slot node)

theorem Shape.read_root (top : T.parent node = none) :
    T.read store loc node = store.root (T.slot node) := by
  simp only [read, top]

theorem Shape.read_entry (under : T.parent node = some above) :
    T.read store loc node = store.entry (loc above) (T.slot node) := by
  simp only [read, under]

/-- The nodes are in the blocks `loc`, and their pointers say so. -/
structure Stored (T : Shape Node) (store : Store) (nodes : Set Node) (loc : Node → Nat) :
    Prop where
  closed : ∀ node ∈ nodes, ∀ above, T.parent node = some above → above ∈ nodes
  found : ∀ node ∈ nodes, T.read store loc node = loc node

namespace Stored

/-- The pointers decide where the nodes are. -/
theorem unique (first : Stored T store nodes loc) (second : Stored T store nodes loc')
    (member : node ∈ nodes) : loc node = loc' node := by
  induction rank : T.rank node using Nat.strong_induction_on generalizing node with
  | _ n ih =>
    rw [← first.found node member, ← second.found node member]
    cases parent : T.parent node with
    | none => rw [Shape.read_root parent, Shape.read_root parent]
    | some above =>
      have lower := T.descends parent
      rw [Shape.read_entry parent, Shape.read_entry parent,
        ih _ (rank ▸ lower) (first.closed node member above parent) rfl]

/-- Only the pointers to the nodes matter. -/
theorem congr (stored : Stored T store nodes loc)
    (same : ∀ node ∈ nodes, T.read store' loc node = T.read store loc node) :
    Stored T store' nodes loc :=
  ⟨stored.closed, fun node member => (same node member).trans (stored.found node member)⟩

/-- A node below a stored one, or at the root, joins the tree when its pointer
is written and no other pointer changes. -/
theorem attach [DecidableEq Node] (stored : Stored T store nodes loc) (fresh : node ∉ nodes)
    (under : ∀ above, T.parent node = some above → above ∈ nodes)
    (written : T.read store' loc node = block)
    (same : ∀ other ∈ nodes, T.read store' loc other = T.read store loc other) :
    Stored T store' (insert node nodes) (update loc node block) := by
  -- parents are old nodes, whose blocks the update leaves alone
  have parents : ∀ other, (∀ above, T.parent other = some above → above ∈ nodes) →
      T.read store' (update loc node block) other = T.read store' loc other := by
    intro other above
    cases parent : T.parent other with
    | none => rw [Shape.read_root parent, Shape.read_root parent]
    | some up =>
      have old : up ≠ node := fun same => fresh (same ▸ above up parent)
      rw [Shape.read_entry parent, Shape.read_entry parent, update_of_ne old]
  constructor
  · rintro other (rfl | member) above parent
    · exact Or.inr (under above parent)
    · exact Or.inr (stored.closed other member above parent)
  · rintro other (rfl | member)
    · rw [parents _ under, written, update_self]
    · have old : other ≠ node := fun same => fresh (same ▸ member)
      rw [parents _ (stored.closed other member), same other member, stored.found other member,
        update_of_ne old]

end Stored

/-- Writing a root slot changes the pointer to one node only. -/
theorem Shape.read_setRoot (top : T.parent node = none) (other : node' ≠ node) :
    T.read (store.setRoot (T.slot node) value) loc node' = T.read store loc node' := by
  cases parent : T.parent node' with
  | none =>
    have apart : T.slot node' ≠ T.slot node :=
      fun same => other (T.separate (parent.trans top.symm) same)
    rw [read_root parent, read_root parent, Store.setRoot_root, if_neg apart]
  | some above => rw [read_entry parent, read_entry parent, Store.setRoot]

/-- Writing a slot of a parent's block changes the pointer to one node only,
among nodes with parents in different blocks. -/
theorem Shape.read_setEntry (under : T.parent node = some above) (other : node' ≠ node)
    (apart : ∀ above', T.parent node' = some above' → loc above' = loc above → above' = above) :
    T.read (store.setEntry (loc above) (T.slot node) value) loc node' = T.read store loc node' := by
  cases parent : T.parent node' with
  | none => rw [read_root parent, read_root parent, Store.setEntry]
  | some above' =>
    rw [read_entry parent, read_entry parent, Store.setEntry_entry, if_neg]
    rintro ⟨block, slot⟩
    have := apart above' parent block
    subst this
    exact other (T.separate (parent.trans under.symm) slot)

end SbOS.PointerTree
