import SbOS.Lib.Stateful
import SbOS.Kernel.Stop
import SbOS.Mmu.Paging

/-! The kernel heap (`kernel/kmalloc.c`): headers chained through the memory they
describe, with a flag at the end of each region obtained from `ksbrk`. What `ksbrk`
and the random numbers will answer is part of the state; memory outside the regions
is not mapped. -/
namespace SbOS.Kmalloc
open Bytes
open Kernel (wrap32 sub32 mulOverflow)

/-- Memory obtained from `ksbrk`. -/
structure Region where
  start : Nat
  length : Nat
deriving DecidableEq, Repr

/-- The heap, with the answers of the calls of `ksbrk` and the contents of the random
fills still to come. -/
structure Kheap where
  memory : Bytes
  head : Nat
  final : Nat
  regions : List Region
  brk : Nat → Option Nat
  random : Nat → Bytes

abbrev HeapM := EStateM Mmu.Stop Kheap

def Region.Has (r : Region) (a : Nat) : Prop := r.start ≤ a ∧ a < r.start + r.length

instance (r : Region) (a : Nat) : Decidable (r.Has a) := inferInstanceAs (Decidable (_ ∧ _))

/-- All of `len` bytes from `a` on have been obtained from `ksbrk`. -/
def Mapped (regions : List Region) (a len : Nat) : Prop :=
  ∀ i < len, ∃ r ∈ regions, r.Has (a + i)

instance (regions : List Region) (a len : Nat) : Decidable (Mapped regions a len) :=
  inferInstanceAs (Decidable (∀ i < len, ∃ r ∈ regions, r.Has (a + i)))

/-- A page-aligned range of `len` bytes at `p` that is no part of what `ksbrk` has
returned before. -/
def FreshRegion (regions : List Region) (p len : Nat) : Prop :=
  0 < p ∧ p % 0x1000 = 0 ∧ p + len ≤ 2 ^ 32 ∧
    ∀ r ∈ regions, p + len ≤ r.start ∨ r.start + r.length ≤ p

instance (regions : List Region) (p len : Nat) : Decidable (FreshRegion regions p len) :=
  inferInstanceAs (Decidable (_ ∧ _ ∧ _ ∧ _))

/-- `ksbrk(s, 0)`: a fresh region, filled with random bytes, or the null pointer. -/
def ksbrk (s : Nat) : HeapM Nat := fun h =>
  let later := { h with brk := fun i => h.brk (i + 1) }
  match h.brk 0 with
  | none => .ok 0 later
  | some p =>
    if FreshRegion h.regions p s then
      .ok p { later with
        regions := ⟨p, s⟩ :: h.regions
        memory := splice h.memory p (h.random 0) s
        random := fun i => h.random (i + 1) }
    else .ok 0 later

/-! ### Memory -/

/-- An access to `len` bytes. -/
def touch (a len : Nat) : HeapM Unit := fun h =>
  if Mapped h.regions a len then .ok () h else .error .pageFault h

def modifyMemory (change : Bytes → Bytes) : HeapM Unit :=
  modify fun h => { h with memory := change h.memory }

/-- `get_fast_insecure_random(buffer, len)`. -/
def getFastInsecureRandom (buffer len : Nat) : HeapM Unit := do
  touch buffer len
  modify fun h => { h with
    memory := splice h.memory buffer (h.random 0) len
    random := fun i => h.random (i + 1) }

/-- `memset(p, 0, len)`. -/
def clear (p len : Nat) : HeapM Unit := do
  touch p len
  modifyMemory fun m => splice m p zeros len

def memcpy (dest src len : Nat) : HeapM Unit := do
  touch src len
  touch dest len
  modifyMemory fun m => splice m dest (skip m src) len

/-! ### Headers -/

structure MallocHeader where
  magic : Nat
  size : Nat
  flags : Nat
  n : Nat
deriving DecidableEq, Repr

/-- `sizeof(MallocHeader)`: the fields are at 0, 8, 12 and 16. -/
def headerSize : Nat := 20

def headerMagic : Nat := 0xdde51ab9410268b1

/-- `flags & IS_FREE`. -/
def isFree (flags : Nat) : Bool := flags.testBit 0

/-- `flags & IS_FINAL`. -/
def isFinal (flags : Nat) : Bool := flags.testBit 1

def headerAt (m : Bytes) (a : Nat) : MallocHeader where
  magic := le32 m a + 2 ^ 32 * le32 m (a + 4)
  size := le32 m (a + 8)
  flags := (m (a + 12)).toNat
  n := le32 m (a + 16)

def header (a : Nat) : HeapM MallocHeader := do
  touch a headerSize
  return headerAt (← get).memory a

/-- The magic number as two 32-bit fields. -/
def putMagic (m : Bytes) (a : Nat) : Bytes :=
  put32 (put32 m a (headerMagic % 2 ^ 32)) (a + 4) (headerMagic / 2 ^ 32)

def setMagic (a : Nat) : HeapM Unit := do
  touch a headerSize
  modifyMemory fun m => putMagic m a

def setSize (a size : Nat) : HeapM Unit := do
  touch a headerSize
  modifyMemory fun m => put32 m (a + 8) size

def setFlags (a flags : Nat) : HeapM Unit := do
  touch a headerSize
  modifyMemory fun m => splice m (a + 12) (encode flags) 1

def setN (a n : Nat) : HeapM Unit := do
  touch a headerSize
  modifyMemory fun m => put32 m (a + 16) n

def setFinal (a : Nat) : HeapM Unit := modify fun h => { h with final := a }

def kassert (condition : Bool) : HeapM Unit :=
  if condition then pure () else throw .assertion

/-! ### The heap grows -/

/-- `NEW_ALLOC_SIZE`. -/
def newAllocSize : Nat := 0x40000

def initHeap : HeapM Bool := do
  let head ← ksbrk newAllocSize
  modify fun h => { h with head }
  if head = 0 then return false
  setMagic head
  setSize head (newAllocSize - headerSize)
  setFlags head 3
  setN head 0
  setFinal head
  return true

def deltaPage (a : Nat) : Nat := 0x1000 - a % 0x1000

/-- How much `add_heap_memory(min_desired)` asks for. -/
def allocationSize (minDesired : Nat) : Nat :=
  let size := max (wrap32 (minDesired + headerSize)) newAllocSize
  wrap32 (wrap32 (size + deltaPage size) + newAllocSize)

/-- The last lines of `add_heap_memory`: the region at `p` becomes a block of its own. -/
def appendRegion (p size final : Nat) : HeapM Bool := do
  setSize p (sub32 size headerSize)
  setFlags p 3
  setN p 0
  setMagic p
  setN final p
  setFinal p
  return true

/-- Without a heap `final` is the null pointer and reading its flags faults. -/
def addHeapMemory (minDesired : Nat) : HeapM Bool := do
  let size := allocationSize minDesired
  let p ← ksbrk size
  if p = 0 then return false
  let final := (← get).final
  let f ← header final
  if isFree f.flags && p = wrap32 (final + headerSize + f.size) then
    setSize final (wrap32 (f.size + sub32 size headerSize))
    return true
  else appendRegion p size final

/-! ### The chain -/

def nextHeader (a : Nat) : HeapM Nat := do
  let h ← header a
  kassert (h.magic = headerMagic)
  if h.n = 0 then return 0
  kassert ((← header h.n).magic = headerMagic)
  return h.n

def nextCloseHeader (a : Nat) : HeapM Nat := do
  kassert (a ≠ 0)
  if isFinal (← header a).flags then return 0
  nextHeader a

/-- The assignments of `merge_headers`: `n` becomes a part of `b`, without the bytes of
its header. -/
def absorb (b n : Nat) : HeapM Unit := do
  let hn ← header n
  setSize b (wrap32 ((← header b).size + hn.size))
  setFlags b ((← header b).flags ||| (hn.flags &&& 2))
  setN b hn.n
  if n = (← get).final then setFinal b

def mergeHeaders (b : Nat) : HeapM Bool := do
  if !isFree (← header b).flags then return false
  let n ← nextCloseHeader b
  if n = 0 then return false
  if !isFree (← header n).flags then return false
  absorb b n
  return true

/-- `for (; merge_headers(p););` -/
def mergeAll : (fuel : Nat) → (p : Nat) → HeapM Unit
  | 0, _ => throw .diverged
  | fuel + 1, p => do
    if ← mergeHeaders p then mergeAll fuel p

/-- More turns than there are addresses. -/
def turns : Nat := 2 ^ 32

/-- The loop of `find_free_entry`. -/
def searchFrom (s : Nat) : (fuel : Nat) → (p : Nat) → HeapM Nat
  | 0, _ => throw .diverged
  | fuel + 1, p => do
    if p = 0 then return 0
    let h ← header p
    kassert (h.magic = headerMagic)
    if !isFree h.flags then searchFrom s fuel (← nextHeader p)
    else if h.size < s then
      mergeAll turns p
      if s ≤ (← header p).size then return p
      searchFrom s fuel (← nextHeader p)
    else return p

def findFreeEntry (s : Nat) : HeapM Nat := do
  let s := wrap32 (s + headerSize)
  if (← get).head = 0 then
    if !(← initHeap) then return 0
  searchFrom s turns (← get).head

/-! ### Allocation -/

/-- The part of `int_kmalloc` that takes `n` bytes from a free block: the rest of the
block gets a header of its own. -/
def splitEntry (freeEntry n : Nat) : HeapM Nat := do
  let rc := wrap32 (freeEntry + headerSize)
  let newEntry := wrap32 (rc + n)
  setFlags newEntry (← header freeEntry).flags
  setN newEntry (← header freeEntry).n
  setSize newEntry (sub32 (sub32 (← header freeEntry).size n) headerSize)
  setMagic newEntry
  if freeEntry = (← get).final then setFinal newEntry
  let _ ← mergeHeaders newEntry
  setSize freeEntry n
  setFlags freeEntry 0
  setN freeEntry newEntry
  setMagic freeEntry
  return rc

/-- `int_kmalloc(s)`, with calls nested `depth` deep: after growing the heap it calls
`kmalloc`, which calls it again. -/
def intKmalloc : (depth : Nat) → (s : Nat) → HeapM Nat
  | 0, _ => throw .diverged
  | depth + 1, s => do
    let freeEntry ← findFreeEntry s
    if freeEntry = 0 then
      if ← addHeapMemory s then
        let rc ← intKmalloc depth s
        if rc = 0 then return 0
        getFastInsecureRandom rc s
        return rc
      else return 0
    else splitEntry freeEntry s

def kmalloc (depth s : Nat) : HeapM Nat := do
  let rc ← intKmalloc depth s
  if rc = 0 then return 0
  getFastInsecureRandom rc s
  return rc

def kfree (p : Nat) : HeapM Unit := do
  if p = 0 then return
  let h := sub32 p headerSize
  kassert ((← header h).magic = headerMagic)
  kassert (!isFree (← header h).flags)
  getFastInsecureRandom p (← header h).size
  setFlags h ((← header h).flags ||| 1)
  let _ ← mergeHeaders h

def getMemSize (ptr : Nat) : HeapM Nat := do
  if ptr = 0 then return 0
  return (← header (sub32 ptr headerSize)).size

/-- The part of `krealloc` and `krecalloc` after the new block has been made. -/
def moveBlock (rc ptr len : Nat) : HeapM Nat := do
  memcpy rc ptr len
  kfree ptr
  return rc

def krealloc (depth ptr size : Nat) : HeapM Nat := do
  if ptr = 0 then kmalloc depth size
  else
    let l ← getMemSize ptr
    if l = size then return ptr
    else if size < l then
      setSize (sub32 ptr headerSize) size
      return ptr
    else
      let rc ← kmalloc depth size
      if rc = 0 then return 0
      moveBlock rc ptr (min l size)

def kreallocarray (depth ptr nmemb size : Nat) : HeapM Nat := do
  if mulOverflow nmemb size then return 0
  krealloc depth ptr (wrap32 (nmemb * size))

def kallocarray (depth nmemb size : Nat) : HeapM Nat := kreallocarray depth 0 nmemb size

def kcalloc (depth nelem elsize : Nat) : HeapM Nat := do
  if mulOverflow nelem elsize then return 0
  let rc ← intKmalloc depth (wrap32 (nelem * elsize))
  if rc = 0 then return 0
  clear rc (wrap32 (nelem * elsize))
  return rc

def krecalloc (depth ptr nelem elsize : Nat) : HeapM Nat := do
  if mulOverflow nelem elsize then return 0
  if ptr = 0 then kcalloc depth nelem elsize
  else
    let newSize := wrap32 (nelem * elsize)
    let rc ← intKmalloc depth newSize
    if rc = 0 then return 0
    let l ← getMemSize ptr
    clear rc newSize
    moveBlock rc ptr (min l newSize)

end SbOS.Kmalloc
