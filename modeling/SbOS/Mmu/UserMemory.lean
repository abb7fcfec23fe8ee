import SbOS.Mmu.Regions

/-! The system calls by which a process gets memory: `brk`, `sbrk` and `mmap`
(`kernel/cpu/syscall.c`, `kernel/sched/scheduler.c`) and `exec` with the ELF
loader (`kernel/elf.c`). None of them looks at the addresses it is given. -/
namespace SbOS.Mmu

def eINVAL : Int := 28

def eNODEV : Int := 44

def eNOMEM : Int := 49

def eOVERFLOW : Int := 65

section Calls
variable (source : TableSource)

/-- `syscall_brk(addr)`. -/
def syscallBrk (addr : Nat) : Kernel Int := do
  let end' := (← get).dataSegmentEnd
  if ← mmuAllocateRegion source end' (uintptr (addr + 2 ^ 32 - end')) { rw := true } 0 then
    let dataSegmentEnd ← MonadExcept.ofExcept (alignPointer addr)
    modify ({ · with dataSegmentEnd })
    return 0
  else return -eNOMEM

/-- `syscall_sbrk(increment)`: a pointer, or an error number cast to one. -/
def syscallSbrk (increment : Nat) : Kernel Int := do
  let rc := (← get).dataSegmentEnd
  let rc2 ← syscallBrk source (uintptr (rc + increment))
  if rc2 < 0 then return rc2 else return rc

/-- `get_free_virtual_memory(length)`. -/
def getFreeVirtualMemory (length : Nat) : Kernel Nat := do
  let rc := (← get).dataSegmentEnd
  let dataSegmentEnd ← MonadExcept.ofExcept (alignPointer (uintptr (rc + length + 0x1000)))
  modify ({ · with dataSegmentEnd })
  return rc

/-- `allocate_virtual_user_memory(length, prot, flags)`. -/
def allocateVirtualUserMemory (length : Nat) : Kernel Nat := do
  let rc ← getFreeVirtualMemory length
  if rc = 0 then return 0
  else if ← mmuAllocateRegion source rc length { rw := true } 0 then return rc
  else return 0

/-- `create_physical_mapping(physical_addresses, length)`. -/
def createPhysicalMapping (physicalAddresses : Nat → Nat) (length : Nat) : Kernel Nat := do
  let rc ← getFreeVirtualMemory length
  if rc = 0 then return 0
  let n := (← MonadExcept.ofExcept (alignPointer length)) / 0x1000
  let turn (i : Nat) : Kernel Bool := do
    let dst ← MonadExcept.ofExcept (advance rc (i * 0x1000))
    mmuMapPhysical source dst 0 (physicalAddresses i) 0x1000
  if ← untilFalse turn n 0 then return rc
  else return 0

/-- `vfs_vm_object_t`: the physical addresses of its pages and its size. -/
structure VmObject where
  object : Nat → Nat
  size : Nat

/-- What `mmap` is asked to map: memory of its own, or what `vfs_get_vm_object`
returns for the file descriptor. -/
inductive Mapping where
  | anonymous
  | file (vmobject : Option VmObject)

/-- `mmap(addr, length, prot, flags, fd, offset)`; `map` says whether `kmalloc`
has memory for the record of the mapping. That record is left out. -/
def mmap (length : Nat) (mapping : Mapping) (map : Bool) : Kernel Int := do
  if length = 0 then return -eINVAL
  else if map = false then return -eNOMEM
  else
    match mapping with
    | .anonymous =>
      let rc ← allocateVirtualUserMemory source length
      if rc = 0 then return -eNOMEM else return rc
    | .file none => return -eNODEV
    | .file (some vmobject) =>
      if vmobject.size < length then return -eOVERFLOW
      else
        let rc ← createPhysicalMapping source vmobject.object length
        if rc = 0 then return -eNOMEM else return rc

end Calls

/-! ## Loading a program -/

/-- Stores to consecutive virtual addresses. In kernel mode only the presence of
the page counts. -/
def storeBytes : (address : Nat) → (bytes : List UInt8) → Kernel Unit
  | _, [] => pure ()
  | address, byte :: rest => do
    match (← get).paging.getPage address 0 with
    | none => throw .pageFault
    | some page =>
      modifyPaging (·.setByte page.frame (address % pageSize) byte)
      storeBytes (uintptr (address + 1)) rest

/-- What `vfs_pread` reads from a file. -/
def pread (file : List UInt8) (count offset : Nat) : List UInt8 := (file.drop offset).take count

/-- The little-endian field of `len` bytes at `pos`. -/
def field (bytes : List UInt8) (pos len : Nat) : Nat :=
  ((bytes.drop pos).take len).foldr (fun byte rest => byte.toNat + 256 * rest) 0

/-- The fields of `Elf32_Phdr` that the loader reads. -/
structure ProgramHeader where
  pType : Nat
  pOffset : Nat
  pVaddr : Nat
  pFilesz : Nat
  pMemsz : Nat

def programHeader (buffer : List UInt8) : ProgramHeader where
  pType := field buffer 0 4
  pOffset := field buffer 4 4
  pVaddr := field buffer 8 4
  pFilesz := field buffer 16 4
  pMemsz := field buffer 20 4

/-- `pages_to_allocate`, where rounding the end does not halt the kernel. -/
def ProgramHeader.pagesToAllocate (ph : ProgramHeader) : Nat :=
  uintptr (alignPage (uintptr (ph.pVaddr + ph.pMemsz)) + 2 ^ 32 -
    (ph.pVaddr - ph.pVaddr % 0x1000)) / 0x1000

section Loading
variable (source : TableSource)

/-- One turn of the loop of `load_elf_file`, from the assertion on: whether the
region was allocated. -/
def loadSegment (file : List UInt8) (ph : ProgramHeader) : Kernel Bool := do
  kassert (ph.pType = 1)
  let _ ← MonadExcept.ofExcept (alignPointer (uintptr (ph.pVaddr + ph.pMemsz)))
  if ← mmuAllocateRegion source ph.pVaddr (uintptr (ph.pagesToAllocate * 0x1000))
      { rw := true } 0 then
    storeBytes ph.pVaddr (List.replicate ph.pMemsz 0)
    let read := pread file ph.pFilesz ph.pOffset
    storeBytes ph.pVaddr read
    kassert (read.length = ph.pFilesz)
    return true
  else return false

/-- The loop of `load_elf_file`: the end of the code, unless it gives up. A
header that is cut short by the end of the file keeps the rest of what
`program_header` held before. -/
def loadSegments (file : List UInt8) :
    (left headerOffset : Nat) → (buffer : List UInt8) → (endOfCode : Nat) → Kernel (Option Nat)
  | 0, _, _, endOfCode => return some endOfCode
  | left + 1, headerOffset, buffer, endOfCode => do
    let read := pread file 32 headerOffset
    let buffer := read ++ buffer.drop read.length
    let ph := programHeader buffer
    if read = [] then return none
    else if ← loadSegment source file ph then
      let e := uintptr (ph.pVaddr + ph.pMemsz)
      loadSegments file left (uintptr (headerOffset + 32)) buffer (max endOfCode e)
    else return none

/-- `load_elf_file(f, ds)` on an open file: the entry point and the end of the
code. -/
def loadElfFile (file garbage : List UInt8) : Kernel (Option (Nat × Nat)) := do
  let header := pread file 52 0
  if header.length = 52 ∧ header.take 4 = [0x7F, 0x45, 0x4C, 0x46] then
    kassert (field header 42 2 = 32)
    match ← loadSegments source file (field header 44 2) (field header 28 4) garbage 0 with
    | none => return none
    | some endOfCode => return some (field header 24 4, endOfCode)
  else return none

/-- `exec(filename, argv, …)` as far as it maps memory: `true` is the jump to
user mode. The interpreter of a script is loaded by an `exec` of its own, and
the copy of the arguments to the new stack is left out. -/
def exec (file garbage : List UInt8) : Kernel Bool := do
  match ← loadElfFile source file garbage with
  | none => return false
  | some (entry, endOfCode) =>
    if entry = 0 then return false
    else
      let dataSegmentEnd ← MonadExcept.ofExcept (alignPointer endOfCode)
      modify ({ · with dataSegmentEnd })
      mmuAllocateRegion source (0x90000000 - 0x80000) 0x80000 { rw := true } 0

end Loading

/-- A system call with its arguments and with what it finds outside of memory
management; `growHeap` is `kmalloc` calling for more heap, in the kernel code
around the other calls. -/
inductive Call where
  | brk (addr : Nat)
  | sbrk (increment : Nat)
  | mmap (length : Nat) (mapping : Mapping) (map : Bool)
  | exec (file garbage : List UInt8)
  | growHeap (s : Nat)

def Call.perform (source : TableSource) (call : Call) : Kernel Unit := do
  match call with
  | .brk addr => let _ ← syscallBrk source addr
  | .sbrk increment => let _ ← syscallSbrk source increment
  | .mmap length mapping map => let _ ← Mmu.mmap source length mapping map
  | .exec file garbage => let _ ← Mmu.exec source file garbage
  | .growHeap s => let _ ← ksbrk source s false

/-- One call after the other; a stop ends the run. -/
def performAll (depth : Nat) : List Call → Kernel Unit
  | [] => pure ()
  | call :: rest => do
    call.perform (kmallocTable depth)
    performAll depth rest

end SbOS.Mmu
