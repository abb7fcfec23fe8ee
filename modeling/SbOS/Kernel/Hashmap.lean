import SbOS.Kernel.Stop
import SbOS.Lib.Chain
import SbOS.Lib.Stateful

/-! The hash map (`kernel/hashmap/hashmap.c`): an array of singly linked lists in
the kernel heap. The functions that walk a list take a number of steps after which
they are given up; `hashmap_delete_entry` calls itself, and takes the same number
for the depth. -/
namespace SbOS.Kernel.Hashmap
open Chain

/-- The bytes of a C string, without the final zero. -/
structure Key where
  bytes : List UInt8
  terminated : (0 : UInt8) ∉ bytes
deriving DecidableEq

/-- `LinkedList` without its `next`. The string that `key` points to is kept here; with
`do_not_allocate_key` it is the caller's. A callback is a function pointer, or null. -/
structure Entry where
  key : Key
  keyAllocated : Bool
  value : Nat
  uponDeletion : Nat
deriving DecidableEq

/-- `HashMap`, the nodes in the heap, and the calls of `upon_deletion` so far: the
function with its two arguments. -/
structure Table where
  entries : Nat → Nat
  size : Nat
  numEntries : Nat
  hashFunction : List UInt8 → Nat
  nodes : Store Entry
  deletions : List (Nat × Key × Nat)

abbrev TableM := EStateM Stop Table

/-- A node reached through a pointer. -/
def node (a : Nat) : TableM (Link Entry) := fun t =>
  match t.nodes a with
  | some link => .ok link t
  | none => .error .dangling t

/-- The loop over the two strings in `get_linkedlist_entry` and the comparison of the
characters it ends at. -/
def sameKey : List UInt8 → List UInt8 → Bool
  | c :: str1, d :: str2 => if c ≠ d then c = d else sameKey str1 str2
  | str1, str2 => str1.headD 0 = str2.headD 0

/-- `get_linkedlist_entry(list, key, NULL)`; every caller passes a null `prev`. -/
def getLinkedlistEntry (key : Key) : (fuel list : Nat) → TableM Nat
  | 0, _ => throw .diverged
  | fuel + 1, list => do
    if list = 0 then return 0
    let link ← node list
    if sameKey key.bytes link.value.key.bytes then return list
    getLinkedlistEntry key fuel link.next

/-- `get_linkedlist_value`. -/
def getLinkedlistValue (fuel list : Nat) (key : Key) : TableM Nat := do
  let entry ← getLinkedlistEntry key fuel list
  if entry = 0 then return 0
  return (← node entry).value.value

/-- `find_index`: the hash modulo the size of the table. -/
def findIndex (t : Table) (key : Key) : Nat := t.hashFunction key.bytes % t.size

/-- The loop of `hashmap_add_entry` from the node at `a` on: the first null `next`
gets the new entry. -/
def appendTo (entry : Nat) : (fuel a : Nat) → TableM Unit
  | 0, _ => throw .diverged
  | fuel + 1, a => do
    let link ← node a
    if link.next = 0 then modify fun t => { t with nodes := setNext t.nodes a entry }
    else appendTo entry fuel link.next

/-- The entry goes to the end of a list of the table. -/
def linkLast (fuel index entry : Nat) : TableM Unit := do
  let head := (← get).entries index
  if head = 0 then modify fun t => { t with entries := Function.update t.entries index entry }
  else appendTo entry fuel head

/-- `hashmap_add_entry`. `place` is where `kmalloc` puts the entry, and `copied` whether
the string can be copied. -/
def hashmapAddEntry (fuel : Nat) (key : Key) (value uponDeletion : Nat) (doNotAllocateKey : Bool)
    (place : Option Nat) (copied : Bool) : TableM Nat := do
  match place with
  | none => return 0
  | some entry =>
    let new : Entry := ⟨key, !doNotAllocateKey, value, uponDeletion⟩
    modify fun t => { t with nodes := Function.update t.nodes entry (some ⟨new, 0⟩) }
    -- the entry is not given back
    if !doNotAllocateKey && !copied then return 0
    linkLast fuel (findIndex (← get) key) entry
    modify fun t => { t with numEntries := wrap32 (t.numEntries + 1) }
    return 1

def hashmapGetEntry (fuel : Nat) (key : Key) : TableM Nat := do
  let t ← get
  if t.entries (findIndex t key) = 0 then return 0
  getLinkedlistValue fuel (t.entries (findIndex t key)) key

/-- `if (*prev != entry) (*prev)->next = next; else *prev = NULL;` with `prev` the
pointer to the list in the table. -/
def unlink (index entry next : Nat) : TableM Unit := do
  let head := (← get).entries index
  if head ≠ entry then
    let _ ← node head
    modify fun t => { t with nodes := setNext t.nodes head next }
  else modify fun t => { t with entries := Function.update t.entries index 0 }

/-- `if (entry->upon_deletion) entry->upon_deletion(entry->key, entry->value);` -/
def callUponDeletion (entry : Entry) : TableM Unit :=
  if entry.uponDeletion ≠ 0 then
    modify fun t => { t with
      deletions := t.deletions ++ [(entry.uponDeletion, entry.key, entry.value)] }
  else pure ()

/-- `hashmap_delete_entry`, with calls nested at most `depth` deep. -/
def hashmapDeleteEntry (fuel : Nat) (key : Key) : (depth : Nat) → TableM Nat
  | 0 => throw .diverged
  | depth + 1 => do
    let t ← get
    let index := findIndex t key
    if t.entries index = 0 then return 0
    let entry ← getLinkedlistEntry key fuel (t.entries index)
    if entry = 0 then return 0
    let link ← node entry
    callUponDeletion link.value
    modify fun t => { t with nodes := Function.update t.nodes entry none }
    unlink index entry link.next
    let _ ← hashmapDeleteEntry fuel key depth
    modify fun t => { t with numEntries := sub32 t.numEntries 1 }
    return 1

/-- `hashmap_create` with a hash function of the caller's. -/
def hashmapCreate (size : Nat) (hashFunction : List UInt8 → Nat) : Table where
  entries := fun _ => 0
  size := size
  numEntries := 0
  hashFunction := hashFunction
  nodes := fun _ => none
  deletions := []

/-! ## Comparing keys -/

theorem sameKey_iff (first : (0 : UInt8) ∉ str1) (second : (0 : UInt8) ∉ str2) :
    sameKey str1 str2 = true ↔ str1 = str2 := by
  induction str1 generalizing str2 with
  | nil =>
    cases str2 with
    | nil => simp [sameKey]
    | cons d str2 =>
      have nonzero : (0 : UInt8) ≠ d := fun same => second (same ▸ List.mem_cons_self)
      simp [sameKey, nonzero]
  | cons c str1 ih =>
    cases str2 with
    | nil =>
      have nonzero : c ≠ 0 := fun same => first (same ▸ List.mem_cons_self)
      simp [sameKey, nonzero]
    | cons d str2 =>
      have rest := ih (fun member => first (List.mem_cons_of_mem _ member))
        fun member => second (List.mem_cons_of_mem _ member)
      by_cases same : c = d
      · simp [sameKey, same, rest]
      · simp [sameKey, same]

theorem Key.sameKey_iff (key other : Key) : sameKey key.bytes other.bytes = true ↔ other = key := by
  rw [Hashmap.sameKey_iff key.terminated other.terminated]
  constructor
  · intro same
    cases key
    cases other
    congr
    exact same.symm
  · rintro rfl
    rfl

end SbOS.Kernel.Hashmap
