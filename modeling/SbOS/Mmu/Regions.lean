import SbOS.Lib.Stateful
import SbOS.Mmu.Frames

/-! Mapping memory (`kernel/arch/i386/mmu.c`). A page table that is missing is
taken from the kernel's own heap, and growing that heap maps pages in turn, so
`get_page` and `ksbrk` call each other. Here the functions take the source of
page tables as an argument and `kmallocTable` ties the knot, to a depth that
stands for the kernel stack.

The page tables are kept apart from the contents of the frames they lie in: a
store through a page that maps a page table is not seen by the tables. -/
namespace SbOS.Mmu

/-- The machine as memory management sees it: the page tables, the frame bitmap,
the end of the kernel heap, the page directories of the processes in the ready
queue while there is a current task, and that task's `data_segment_end`. -/
structure Machine where
  paging : Paging
  frames : Frames
  dataEnd : Nat
  readyQueue : Option (List Nat)
  dataSegmentEnd : Nat

/-- Kernel code: it may stop, and what it has done until then stays done. -/
abbrev Kernel := EStateM Stop Machine

/-- `mmu_flags`. -/
structure Flags where
  rw : Bool := false
  kernel : Bool := false

/-- A `Page *`: an entry of the page table at an address. -/
structure PagePointer where
  table : Nat
  index : Nat
deriving DecidableEq, Repr

/-- `assert`. -/
def kassert (condition : Bool) : Kernel Unit :=
  if condition then pure () else throw .assertion

namespace Paging

/-- The directory a `PageDirectory *` argument stands for. -/
def directoryOf (m : Paging) (pd : Nat) : Nat := if pd = 0 then m.activeDirectory else pd

/-- Where the entry of the page that holds `ptr` is. -/
def pageAt (m : Paging) (ptr pd : Nat) : PagePointer :=
  ⟨(m.directory (m.directoryOf pd)).tables (ptr / 0x1000 / 1024), ptr / 0x1000 % 1024⟩

def page (m : Paging) (p : PagePointer) : Page := m.pageTable p.table p.index

def setPage (m : Paging) (p : PagePointer) (value : Page) : Paging :=
  { m with pageTable := fun table index =>
      if table = p.table ∧ index = p.index then value else m.pageTable table index }

/-- `memset(table, 0, sizeof(PageTable))`. -/
def clearTable (m : Paging) (table : Nat) : Paging :=
  { m with pageTable := fun other => if other = table then fun _ => {} else m.pageTable other }

/-- `directory->tables[index] = table`. -/
def setTable (m : Paging) (directory index table : Nat) : Paging :=
  { m with directory := fun other =>
      if other = directory then
        { m.directory other with
          tables := fun i => if i = index then table else (m.directory other).tables i }
      else m.directory other }

/-- `directory->physical_tables[index] = value`. -/
def setPhysicalTable (m : Paging) (directory index value : Nat) : Paging :=
  { m with directory := fun other =>
      if other = directory then
        { m.directory other with
          physicalTables := fun i =>
            if i = index then value else (m.directory other).physicalTables i }
      else m.directory other }

/-- The byte of a frame that the processor writes. -/
def setByte (m : Paging) (frame offset : Nat) (value : UInt8) : Paging :=
  { m with ram := fun other =>
      if other = frame then fun i => if i = offset then value else m.ram other i
      else m.ram other }

end Paging

def modifyPaging (change : Paging → Paging) : Kernel Unit :=
  modify fun s => { s with paging := change s.paging }

def writeToFrame (frameAddress : Nat) (on : Bool) : Kernel Bool := fun s =>
  let (done, frames) := s.frames.writeToFrame frameAddress on
  .ok done { s with frames }

def getFreeFrames (numFrames : Nat) : Kernel (Option Nat) := fun s =>
  let (found, frames) := s.frames.getFreeFrames numFrames
  .ok found { s with frames }

/-- `kmalloc_align(sizeof(PageTable), &physical)`: the virtual and the physical
address of a new page table, or a null pointer. -/
abbrev TableSource := Kernel (Nat × Nat)

/-- The first half of `get_page(…, PAGE_ALLOCATE, set_user)`: the table of the
page is there, or is made. -/
def ensureTable (source : TableSource) (directory tableIndex : Nat) (setUser : Bool) :
    Kernel Bool := do
  if ((← get).paging.directory directory).tables tableIndex ≠ 0 then return true
  let (table, physical) ← source
  modifyPaging (·.setTable directory tableIndex table)
  if table = 0 then return false
  modifyPaging (·.clearTable table)
  let value := physical ||| if setUser then 0x7 else 0x3
  modifyPaging (·.setPhysicalTable directory tableIndex value)
  if setUser then return true
  let kernelDirectory := (← get).paging.kernelDirectory
  modifyPaging (·.setTable kernelDirectory tableIndex table)
  modifyPaging (·.setPhysicalTable kernelDirectory tableIndex value)
  return true

/-- `get_page(ptr, directory, PAGE_ALLOCATE, set_user)`: the page is not present
afterwards, whatever it was before. -/
def getPageAllocate (source : TableSource) (ptr pd : Nat) (setUser : Bool) :
    Kernel (Option PagePointer) := do
  let directory := (← get).paging.directoryOf pd
  if ← ensureTable source directory (ptr / 0x1000 / 1024) setUser then
    let p := (← get).paging.pageAt ptr directory
    modifyPaging fun m => m.setPage p { m.page p with present := false, user := setUser }
    return some p
  else return none

/-- One turn of `mmu_free_address_range`. -/
def freePage (ptr pd : Nat) : Kernel Unit := do
  let m := (← get).paging
  match m.getPage ptr pd with
  | none => pure ()
  | some page =>
    if page.frame = 0 then pure ()
    else
      let _ ← writeToFrame (page.frame * 0x1000) false
      modifyPaging (·.setPage (m.pageAt ptr pd)
        { page with present := false, rw := false, user := false, frame := 0 })

def freePages (pd : Nat) : (left ptr : Nat) → Kernel Unit
  | 0, _ => pure ()
  | left + 1, ptr => do
    freePage ptr pd
    freePages pd left (← MonadExcept.ofExcept (advance ptr pageSize))

def mmuFreeAddressRange (ptr length pd : Nat) : Kernel Unit := do
  let numPages := (← MonadExcept.ofExcept (alignPointer length)) / pageSize
  freePages pd numPages (uintptr ptr)

/-- `allocate_frame(page, rw, is_kernel)`. -/
def allocateFrame (p : PagePointer) (rw isKernel : Bool) : Kernel Bool := do
  kassert (!((← get).paging.page p).present)
  match ← getFreeFrames 1 with
  | none => return false
  | some frameAddress =>
    kassert (← writeToFrame (uintptr (frameAddress * 0x1000)) true)
    modifyPaging fun m => m.setPage p { m.page p with
      present := true, rw, user := !isKernel, frame := frameAddress % 2 ^ 20 }
    return true

/-- One turn of `mmu_allocate_kernel_linear_virtual_to_physical_mapping`. -/
def linearPage (source : TableSource) (rc startFrame i : Nat) : Kernel Bool := do
  let ptr ← MonadExcept.ofExcept (advance rc (i * 0x1000))
  match ← getPageAllocate source ptr 0 false with
  | none => return false
  | some p =>
    kassert (!((← get).paging.page p).present)
    let frame := uintptr (startFrame + i) % 2 ^ 20
    modifyPaging fun m => m.setPage p { m.page p with
      present := true, rw := true, user := false, frame }
    kassert (← writeToFrame (frame * 0x1000) true)
    return true

def mmuAllocateKernelLinearVirtualToPhysicalMapping (source : TableSource) (rc n : Nat) :
    Kernel Bool := do
  let numPages := alignPage n / pageSize
  if ← match ← getFreeFrames numPages with
      | none => pure false
      | some startFrame => untilFalse (linearPage source rc startFrame) numPages 0 then
    return true
  else
    mmuFreeAddressRange rc n 0
    return false

/-- One turn of `mmu_allocate_shared_kernel_region`. -/
def sharedPage (source : TableSource) (rc i : Nat) : Kernel Bool := do
  let ptr ← MonadExcept.ofExcept (advance rc (i * 0x1000))
  match ← getPageAllocate source ptr 0 false with
  | none => return false
  | some p =>
    let page := (← get).paging.page p
    if !page.present || page.frame = 0 then allocateFrame p false true
    else return true

/-- It maps one page more than `n` bytes take when `n` is a multiple of the page
size. -/
def mmuAllocateSharedKernelRegion (source : TableSource) (rc n : Nat) : Kernel Bool := do
  if ← untilFalse (sharedPage source rc) (n / pageSize + 1) 0 then return true
  else
    mmuFreeAddressRange rc n 0
    return false

/-- `create_kernel_table(table_index)`. When no table can be had, the placeholder
stays in both directories. -/
def createKernelTable (source : TableSource) (tableIndex : Nat) : Kernel Bool := do
  let m := (← get).paging
  modifyPaging (·.setTable m.kernelDirectory tableIndex 0xDEADBEEF)
  modifyPaging (·.setTable m.activeDirectory tableIndex 0xDEADBEEF)
  let (newTable, physical) ← source
  if newTable = 0 then return false
  modifyPaging (·.clearTable newTable)
  let link (directory : Nat) : Kernel Unit := do
    modifyPaging (·.setTable directory tableIndex newTable)
    modifyPaging (·.setPhysicalTable directory tableIndex (physical ||| 0x3))
  link m.kernelDirectory
  match (← get).readyQueue with
  | none => link m.activeDirectory
  | some directories => directories.forM link
  return true

/-- `data_end += s; data_end = align_page(data_end)`. -/
def moveDataEnd (s : Nat) : Kernel Unit := do
  modify fun m => { m with dataEnd := uintptr (m.dataEnd + s) }
  let dataEnd ← MonadExcept.ofExcept (alignPointer (← get).dataEnd)
  modify ({ · with dataEnd })

/-- The second half of `ksbrk`, with the kernel table in place. The end of the
heap moves first and does not move back on failure. -/
def extendHeap (source : TableSource) (s : Nat) (enforceLinear : Bool) : Kernel Nat := do
  let rc ← MonadExcept.ofExcept (alignPointer (← get).dataEnd)
  moveDataEnd s
  let n := uintptr ((← get).dataEnd + 2 ^ 32 - rc)
  if ← if enforceLinear then mmuAllocateKernelLinearVirtualToPhysicalMapping source rc n
      else mmuAllocateSharedKernelRegion source rc n then
    kassert (rc % pageSize = 0)
    return rc
  else return 0

/-- `ksbrk(s, enforce_linear)`: the null pointer when the heap cannot grow. The
random fill of the new memory is left out. -/
def ksbrk (source : TableSource) (s : Nat) (enforceLinear : Bool) : Kernel Nat := do
  let m ← get
  let rc ← MonadExcept.ofExcept (alignPointer m.dataEnd)
  if m.paging.activeDirectory = 0 then
    -- without paging the memory is taken to be mapped already
    moveDataEnd s
    return rc
  else
    let tableIndex := 1 + rc / (1024 * 0x1000)
    if (m.paging.directory m.paging.kernelDirectory).tables tableIndex = 0 then
      if ← createKernelTable source tableIndex then extendHeap source s enforceLinear
      else return 0
    else extendHeap source s enforceLinear

/-- `virtual_to_physical(address, NULL)`. -/
def virtualToPhysical (address : Nat) : Kernel Nat := do
  match (← get).paging.getPage address 0 with
  | none => return 0
  | some p => return p.frame * 0x1000 + address % 0x1000

def ksbrkPhysical (source : TableSource) (s : Nat) : Kernel (Nat × Nat) := do
  let r ← ksbrk source s true
  if r = 0 then return (0, 0)
  return (r, ← virtualToPhysical r)

/-- `kmalloc_align(sizeof(PageTable), &physical)`, with calls nested `depth`
deep. A page table takes one page. -/
def kmallocTable : (depth : Nat) → TableSource
  | 0 => throw .diverged
  | depth + 1 => ksbrkPhysical (kmallocTable depth) pageSize

/-- One turn of `mmu_allocate_region`. A page that is present gets new
permissions, whatever it is. -/
def allocatePage (source : TableSource) (address : Nat) (flags : Flags) (pd : Nat) :
    Kernel Bool := do
  let m := (← get).paging
  match m.getPage address pd with
  | some page =>
    modifyPaging (·.setPage (m.pageAt address pd)
      { page with rw := flags.rw, user := !flags.kernel })
    return true
  | none =>
    match ← getPageAllocate source address pd true with
    | none => return false
    | some p => allocateFrame p flags.rw flags.kernel

/-- It visits one page more than `n` bytes take when both ends are page
aligned; when it fails it frees the pages of the range, its own and the others. -/
def mmuAllocateRegion (source : TableSource) (ptr n : Nat) (flags : Flags) (pd : Nat) :
    Kernel Bool := do
  let pd := (← get).paging.directoryOf pd
  let turn (i : Nat) : Kernel Bool := do
    allocatePage source (← MonadExcept.ofExcept (advance ptr (i * 0x1000))) flags pd
  if ← untilFalse turn (n / 0x1000 + 1) 0 then
    return true
  else
    mmuFreeAddressRange ptr n pd
    return false

/-- The loop of `mmu_map_physical`; `count` pages have been mapped. -/
def mapPages (source : TableSource) (orig pd : Nat) :
    (left count dst physical : Nat) → Kernel Bool
  | 0, _, _, _ => return true
  | left + 1, count, dst, physical => do
    match ← getPageAllocate source dst pd true with
    | none =>
      mmuFreeAddressRange orig (uintptr (count * 0x1000)) pd
      return false
    | some p =>
      modifyPaging fun m => m.setPage p { m.page p with
        present := true, rw := true, user := true, frame := physical / pageSize }
      let _ ← writeToFrame physical true
      let dst ← MonadExcept.ofExcept (advance dst 0x1000)
      let physical ← MonadExcept.ofExcept (advance physical 0x1000)
      mapPages source orig pd left (count + 1) dst physical

def mmuMapPhysical (source : TableSource) (dst pd physical length : Nat) : Kernel Bool := do
  let pd := (← get).paging.directoryOf pd
  let numPages := (← MonadExcept.ofExcept (alignPointer length)) / 0x1000
  mapPages source dst pd numPages 0 dst physical

end SbOS.Mmu
