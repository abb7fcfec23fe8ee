import SbOS.Lib.Bytes

/-! The page tables of the i386 port (`kernel/arch/i386/mmu.c`, `mmu.h`). A
directory holds pointers to its page tables, so that two directories can share
one; tables, directories and physical frames are reached by address. Addresses
are natural numbers with the wrap-around of `uintptr_t` written out. -/
namespace SbOS.Mmu

/-- `uintptr_t` and `size_t` arithmetic. -/
def uintptr (n : Nat) : Nat := n % 2 ^ 32

/-- `PAGE_SIZE`. -/
def pageSize : Nat := 0x1000

/-- How kernel code can end other than by returning. The sanitizer halts it where
the arithmetic of a pointer leaves the address space. -/
inductive Stop where
  | assertion
  | pageFault
  | diverged
  | overflow
deriving DecidableEq, Repr

/-- `next_page` of an integer. -/
def nextPage (n : Nat) : Nat := uintptr (n + (pageSize - n % pageSize))

/-- `align_page` of an integer: in the last page the rounding wraps to zero. -/
def alignPage (n : Nat) : Nat := if 0 < n % pageSize then nextPage n else n

/-- A pointer moved up by `n` bytes. -/
@[irreducible]
def advance (ptr n : Nat) : Except Stop Nat :=
  if ptr + n < 2 ^ 32 then .ok (ptr + n) else .error .overflow

/-- `align_page` of a pointer. -/
@[irreducible]
def alignPointer (ptr : Nat) : Except Stop Nat :=
  if 0 < ptr % pageSize then advance ptr (pageSize - ptr % pageSize) else .ok ptr

structure Page where
  present : Bool := false
  rw : Bool := false
  user : Bool := false
  accessed : Bool := false
  dirty : Bool := false
  frame : Nat := 0
deriving DecidableEq, Repr, Inhabited

/-- `PageDirectory`: both arrays have 1024 entries, and a null pointer is
zero. -/
structure PageDirectory where
  tables : Nat → Nat
  physicalTables : Nat → Nat

/-- What `get_page` and the processor read: the page tables and the directories
by their addresses, the two directory pointers of `mmu.c`, and the contents of
the physical frames. -/
structure Paging where
  pageTable : Nat → Nat → Page
  directory : Nat → PageDirectory
  kernelDirectory : Nat
  activeDirectory : Nat
  ram : Nat → Bytes

namespace Paging

/-- `get_page(ptr, directory, PAGE_NO_ALLOCATE, _)`: the entry of the page that
holds `ptr`, unless its table is missing or the page is not present. -/
def getPage (m : Paging) (ptr directory : Nat) : Option Page :=
  let directory := if directory = 0 then m.activeDirectory else directory
  let address := ptr / 0x1000
  let tableIndex := address / 1024
  let table := (m.directory directory).tables tableIndex
  if table = 0 then none
  else
    let p := m.pageTable table (address % 1024)
    if p.present then some p else none

/-- The byte the processor reads at a virtual address. -/
def load (m : Paging) (ptr : Nat) : Option UInt8 :=
  (m.getPage ptr 0).map fun page => m.ram page.frame (ptr % pageSize)

/-- Page number `page` of the active directory is present and open to user
mode. There are `2 ^ 20` pages. -/
def UserPage (m : Paging) (page : Nat) : Prop :=
  page < 2 ^ 20 ∧ ∃ entry, m.getPage (page * pageSize) 0 = some entry ∧ entry.user = true

/-- The byte at an address that has not been wrapped. -/
abbrev UserByte (m : Paging) (address : Nat) : Prop := m.UserPage (address / pageSize)

instance (m : Paging) (page : Nat) : Decidable (m.UserPage page) :=
  match found : m.getPage (page * pageSize) 0 with
  | none => isFalse fun ⟨_, entry, same, _⟩ => by simp [found] at same
  | some entry =>
    decidable_of_iff (page < 2 ^ 20 ∧ entry.user = true) (by simp [UserPage, found])

variable {m : Paging}

/-- Two addresses of one page have the same entry. -/
theorem getPage_congr (same : ptr / pageSize = other / pageSize) :
    m.getPage ptr dir = m.getPage other dir := by
  unfold getPage
  have same' : ptr / 0x1000 = other / 0x1000 := same
  rw [same']

theorem getPage_base : m.getPage (ptr / pageSize * pageSize) dir =
    m.getPage ptr dir :=
  getPage_congr (Nat.mul_div_cancel _ (by decide))

theorem getPage_present (found : m.getPage ptr dir = some page) : page.present = true := by
  simp only [getPage, Option.ite_none_left_eq_some, Option.ite_none_right_eq_some,
    Option.some.injEq] at found
  obtain ⟨_, present, rfl⟩ := found
  exact present

theorem load_of_userByte (opened : m.UserByte ptr) : ∃ byte, m.load ptr = some byte := by
  obtain ⟨_, entry, found, _⟩ := opened
  rw [getPage_base] at found
  exact ⟨_, by unfold load; rw [found]; rfl⟩

end Paging
end SbOS.Mmu
