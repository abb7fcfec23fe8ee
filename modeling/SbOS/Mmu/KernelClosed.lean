import SbOS.Mmu.RegionSafety

/-! The kernel half over whole runs of `brk`, `sbrk`, `mmap` and `exec`. The
calls check no address, so the kernel half stays closed only as long as every
page a call visits is a user page with a frame of its own, and the kernel heap
has room for the page tables the call lacks. -/
namespace SbOS.Mmu.Machine
open List
variable {start s : Machine} {page : Nat} {touched : Finset Nat}

/-- The pages of `n` bytes from `address` on. -/
def bytePages (address n : Nat) : Finset Nat :=
  (Finset.range n).image fun i => uintptr (address + i) / 0x1000

/-! ## The data segment

Where the data segment ends is not looked at by the invariant. -/

theorem Within.segment (within : Within start s) (newEnd : Nat) :
    Within start { s with dataSegmentEnd := newEnd } :=
  have closed := within.closed
  ⟨⟨closed.current, closed.shared, closed.apart, closed.shut, closed.marked, closed.small,
    closed.below⟩, within.tables, within.length, within.mapped, within.owned, within.intact⟩

theorem Ready.segment (ready : Ready start touched s) (newEnd : Nat) :
    Ready start touched { s with dataSegmentEnd := newEnd } :=
  ⟨ready.within.segment newEnd, ready.user,
    ⟨ready.room.inside, ready.room.tables, ready.room.frames⟩⟩

theorem Underway.segment (underway : Underway start touched pd s) (newEnd : Nat) :
    Underway start touched pd { s with dataSegmentEnd := newEnd } :=
  ⟨underway.active, underway.ready.segment newEnd, underway.alone⟩

theorem region_within (result : After start touched pd done s) : Within start s := by
  cases done
  · exact (show Failed start touched pd s from result).within
  · exact (show Underway start touched pd s from result).ready.within

/-! ## Loading a program -/

theorem Underway.setByte (underway : Underway start touched pd s) (member : page ∈ touched)
    (mapped : s.Mapped page) (offset : Nat) (byte : UInt8) :
    Underway start touched pd
      { s with paging := s.paging.setByte (s.entry page).frame offset byte } := by
  have within := underway.ready.within
  have closed := within.closed
  refine ⟨underway.active, ⟨⟨⟨closed.current, closed.shared, closed.apart, closed.shut,
    closed.marked, closed.small, closed.below⟩, within.tables, within.length, within.mapped,
    within.owned, fun other kernel present => ?_⟩, underway.ready.user,
    ⟨underway.ready.room.inside, underway.ready.room.tables, underway.ready.room.frames⟩⟩,
    underway.alone⟩
  have apart := (underway.alone page member mapped).2 other kernel present
  exact (if_neg apart).trans (within.intact other kernel present)

theorem storeBytes_user (underway : Underway start touched pd s) (bound : address < 2 ^ 32)
    (bytes : List UInt8) (visits : bytePages address bytes.length ⊆ touched) :
    Ends (storeBytes address bytes) s (fun _ => Underway start touched pd) (Within start) := by
  induction bytes generalizing s address with
  | nil => exact .of_ok rfl underway
  | cons byte rest ih =>
    have here := Nat.mod_eq_of_lt bound
    have member : address / 0x1000 ∈ touched := by
      rw [← here]
      exact visits (Finset.mem_image_of_mem _ (Finset.mem_range.mpr (Nat.succ_pos _)))
    apply Ends.get_bind
    rw [getPage_eq (if_pos rfl)]
    by_cases mapped : s.Mapped (address / 0x1000)
    · rw [if_pos mapped]
      refine .bind_ok rfl (ih (underway.setByte member mapped _ byte) (Nat.mod_lt _ (by decide)) ?_)
      intro page inside
      obtain ⟨i, low, rfl⟩ := Finset.mem_image.mp inside
      refine visits (Finset.mem_image.mpr ⟨i + 1, ?_, ?_⟩)
      · simpa using low
      · unfold uintptr
        congr 1
        omega
    · rw [if_neg mapped]
      exact .of_error rfl underway.ready.within

theorem field_lt (bytes : List UInt8) (pos len : Nat) : field bytes pos len < 256 ^ len := by
  have short : ((bytes.drop pos).take len).length ≤ len := length_take_le _ _
  have bounded : ∀ l : List UInt8,
      l.foldr (fun byte rest => byte.toNat + 256 * rest) 0 < 256 ^ l.length := by
    intro l
    induction l with
    | nil => decide
    | cons byte rest ih =>
      have small := byte.toNat_lt
      rw [foldr_cons, length_cons, pow_succ]
      omega
  exact (bounded _).trans_le (Nat.pow_le_pow_right (by decide) short)

/-- The pages that loading a segment visits: the region, the bytes that are
cleared and the bytes that are read from the file. -/
def segmentPages (ph : ProgramHeader) : Finset Nat :=
  regionPages ph.pVaddr (uintptr (ph.pagesToAllocate * 0x1000)) ∪
    (bytePages ph.pVaddr ph.pMemsz ∪ bytePages ph.pVaddr ph.pFilesz)

theorem loadSegment_user (underway : Underway start touched pd s) (ph : ProgramHeader)
    (bound : ph.pVaddr < 2 ^ 32) (visits : segmentPages ph ⊆ touched) (depth : Nat)
    (file : List UInt8) :
    Ends (loadSegment (kmallocTable depth) file ph) s
      (After start touched pd) (Within start) := by
  obtain ⟨region, bytes⟩ := Finset.union_subset_iff.mp visits
  obtain ⟨cleared, copied⟩ := Finset.union_subset_iff.mp bytes
  have asserted : ∀ (t : Machine) (condition : Bool), Underway start touched pd t →
      Ends (kassert condition) t (fun _ => Underway start touched pd) (Within start) := by
    intro t condition underway
    cases condition
    · exact .of_error rfl underway.ready.within
    · exact .of_ok rfl underway
  refine (asserted s _ underway).bind fun _ t underway => ?_
  refine ends_aligned ?_ underway.ready.within
  refine (mmuAllocateRegion_user underway region depth _).bind ?_
  rintro (_ | _) t result
  · exact .of_ok rfl result
  · have underway : Underway start touched pd t := result
    have zeros : bytePages ph.pVaddr (replicate ph.pMemsz (0 : UInt8)).length ⊆ touched := by
      rw [length_replicate]
      exact cleared
    refine (storeBytes_user underway bound _ zeros).bind fun _ t underway => ?_
    have read : bytePages ph.pVaddr (pread file ph.pFilesz ph.pOffset).length ⊆ touched := by
      refine Finset.Subset.trans (Finset.image_subset_image ?_) copied
      exact Finset.range_subset_range.mpr (length_take_le _ _)
    refine (storeBytes_user underway bound _ read).bind fun _ t underway => ?_
    exact (asserted t _ underway).bind fun _ t underway => .of_ok rfl underway

/-- The program headers that the loop of `load_elf_file` comes to when nothing
stops it before. -/
def segments (file : List UInt8) :
    (left headerOffset : Nat) → (buffer : List UInt8) → List ProgramHeader
  | 0, _, _ => []
  | left + 1, headerOffset, buffer =>
    let read := pread file 32 headerOffset
    let buffer := read ++ buffer.drop read.length
    if read = [] then []
    else programHeader buffer :: segments file left (uintptr (headerOffset + 32)) buffer

/-- The pages that `exec` visits: those of the segments and of the stack. -/
def execPages (file garbage : List UInt8) : Finset Nat :=
  (segments file (field (pread file 52 0) 44 2) (field (pread file 52 0) 28 4) garbage).foldr
    (fun ph pages => segmentPages ph ∪ pages) (regionPages (0x90000000 - 0x80000) 0x80000)

theorem segments_subset {headers : List ProgramHeader} (member : ph ∈ headers) :
    segmentPages ph ⊆ headers.foldr (fun ph pages => segmentPages ph ∪ pages) stack := by
  induction headers with
  | nil => cases member
  | cons head rest ih =>
    rcases mem_cons.mp member with rfl | later
    · exact Finset.subset_union_left
    · exact Finset.Subset.trans (ih later) Finset.subset_union_right

theorem stack_subset :
    stack ⊆ foldr (fun ph pages => segmentPages ph ∪ pages) stack headers := by
  induction headers with
  | nil => exact Finset.Subset.refl _
  | cons head rest ih => exact Finset.Subset.trans ih Finset.subset_union_right

theorem loadSegments_user (underway : Underway start touched pd s) (depth : Nat)
    (file : List UInt8) (left headerOffset : Nat) (buffer : List UInt8) (endOfCode : Nat)
    (visits : ∀ ph ∈ segments file left headerOffset buffer, segmentPages ph ⊆ touched) :
    Ends (loadSegments (kmallocTable depth) file left headerOffset buffer endOfCode) s
      (fun found => After start touched pd found.isSome) (Within start) := by
  induction left generalizing s headerOffset buffer endOfCode with
  | zero => exact .of_ok rfl underway
  | succ left ih =>
    unfold loadSegments
    unfold segments at visits
    by_cases empty : pread file 32 headerOffset = []
    · rw [if_pos empty]
      exact .of_ok rfl underway.failed
    · rw [if_neg empty] at visits ⊢
      refine (loadSegment_user underway _ (field_lt _ 8 4) (visits _ (by simp)) depth file).bind ?_
      rintro (_ | _) t result
      · exact .of_ok rfl result
      · exact ih result _ _ _ fun ph member => visits ph (mem_cons_of_mem _ member)

theorem exec_user (underway : Underway start touched pd s) (depth : Nat)
    (file garbage : List UInt8) (visits : execPages file garbage ⊆ touched) :
    Ends (exec (kmallocTable depth) file garbage) s (fun _ => Within start) (Within start) := by
  have loaded : Ends (loadElfFile (kmallocTable depth) file garbage) s
      (fun found => After start touched pd found.isSome) (Within start) := by
    unfold loadElfFile
    dsimp only
    split
    · unfold kassert
      split
      · refine .bind_ok rfl ((loadSegments_user underway depth file _ _ garbage 0 fun ph member =>
          Finset.Subset.trans (segments_subset member) visits).bind ?_)
        rintro (_ | _) t result
        · exact .of_ok rfl result
        · exact .of_ok rfl result
      · exact .of_error rfl underway.ready.within
    · exact .of_ok rfl underway.failed
  refine loaded.bind ?_
  rintro (_ | ⟨entry, endOfCode⟩) t result
  · have failed : Failed start touched pd t := result
    exact .of_ok rfl failed.within
  · have underway : Underway start touched pd t := result
    dsimp only
    split
    · exact .of_ok rfl underway.ready.within
    · refine ends_aligned (.bind_ok rfl ?_) underway.ready.within
      refine (mmuAllocateRegion_user (underway.segment _)
        (Finset.Subset.trans stack_subset visits) depth _).mono (fun done t result => ?_) fun _ => id
      exact region_within result

/-! ## The calls -/

/-- The pages are user pages, the mapped ones hold frames of their own, and the
kernel heap has room for the page tables they lack. -/
structure Harmless (s : Machine) (touched : Finset Nat) : Prop where
  user : ∀ page ∈ touched, ¬ s.KernelPage page
  alone : ∀ page ∈ touched, s.Mapped page → ∀ other, s.Mapped other →
    (s.entry other).frame = (s.entry page).frame → other = page
  room : s.Room (s.missing touched) (s.unmapped touched)

/-- The same for pages that are to be mapped to the frames of an object, which
are in use or have no bit in the bitmap. -/
structure Mappable (s : Machine) (touched : Finset Nat) (physical : Nat → Nat) (count : Nat) :
    Prop where
  user : ∀ page ∈ touched, ¬ s.KernelPage page
  room : s.Room (s.missing touched) (s.unmapped touched)
  held : ∀ i < count, s.frames.Tracked (physical i / 0x1000) →
    s.frames.used (physical i / 0x1000) = true

/-- The pages of `n` pages from `ptr` on. -/
def pagesFrom (ptr count : Nat) : Finset Nat :=
  (Finset.range count).image fun i => uintptr (ptr + i * 0x1000) / 0x1000

/-- The condition on a call and the state it is made in. -/
def Meets (s : Machine) : Call → Prop
  | .brk addr => s.Harmless
      (regionPages s.dataSegmentEnd (uintptr (addr + 2 ^ 32 - s.dataSegmentEnd)))
  | .sbrk increment => s.Harmless (regionPages s.dataSegmentEnd
      (uintptr (uintptr (s.dataSegmentEnd + increment) + 2 ^ 32 - s.dataSegmentEnd)))
  | .mmap length .anonymous map =>
      length ≠ 0 → map = true → s.Harmless (regionPages s.dataSegmentEnd length)
  | .mmap _ (.file none) _ => True
  | .mmap length (.file (some vmobject)) map =>
      length ≠ 0 → map = true → length ≤ vmobject.size →
        s.Mappable (pagesFrom s.dataSegmentEnd (alignPage length / 0x1000)) vmobject.object
          (alignPage length / 0x1000)
  | .exec file garbage => s.Harmless (execPages file garbage)
  | .growHeap size => s.Room (s.heapGrowth size + 1) 0

theorem Harmless.underway (harmless : s.Harmless touched) (closed : s.Sealed) :
    Underway s touched s.paging.activeDirectory s := by
  refine ⟨rfl, ⟨closed.within, harmless.user, harmless.room⟩, fun page member mapped =>
    ⟨harmless.alone page member mapped, fun kernel isKernel present same => ?_⟩⟩
  have here := harmless.alone page member mapped kernel present same
  exact harmless.user page member (here ▸ isKernel)

theorem syscallBrk_user (closed : s.Sealed) (depth addr : Nat) (harmless : s.Harmless
      (regionPages s.dataSegmentEnd (uintptr (addr + 2 ^ 32 - s.dataSegmentEnd)))) :
    Ends (syscallBrk (kmallocTable depth) addr) s (fun _ => Within s) (Within s) := by
  apply Ends.get_bind
  refine (mmuAllocateRegion_user (harmless.underway closed) (Finset.Subset.refl _) depth _).bind ?_
  rintro (_ | _) t result
  · exact .of_ok rfl (region_within result)
  · rw [if_pos rfl]
    refine ends_aligned ?_ (region_within result)
    exact .of_ok rfl ((region_within result).segment _)

theorem getFreeVirtualMemory_ends (halts : stopped s) (size : Nat) :
    Ends (getFreeVirtualMemory size) s
    (fun rc t => rc = s.dataSegmentEnd ∧ ∃ newEnd, t = { s with dataSegmentEnd := newEnd })
    stopped := by
  unfold getFreeVirtualMemory
  apply Ends.get_bind
  refine ends_aligned ?_ halts
  exact .of_ok rfl ⟨rfl, _, rfl⟩

/-- The pages of an object, one after the other. -/
theorem mapObject_user (sharing : Sharing start touched pd s) (depth rc count : Nat)
    (physical : Nat → Nat)
    (visits : pagesFrom rc count ⊆ touched)
    (held : ∀ i < count, start.frames.Tracked (physical i / 0x1000) →
      start.frames.used (physical i / 0x1000) = true) :
    Ends (untilFalse (fun i => MonadExcept.ofExcept (advance rc (i * 0x1000)) >>= fun dst =>
      mmuMapPhysical (kmallocTable depth) dst 0 (physical i) 0x1000) count 0) s
      (fun done t => if done = true then Sharing start touched pd t else Within start t)
      (Within start) :=
  ends_each_page (fun i bound t sharing => mmuMapPhysical_user sharing
    (visits (Finset.mem_image_of_mem _ (Finset.mem_range.mpr bound))) (held i bound) depth)
    (fun _ sharing => sharing.ready.within) sharing

theorem createPhysicalMapping_user (closed : s.Sealed) (depth : Nat) (physical : Nat → Nat)
    (length : Nat)
    (mappable : s.Mappable (pagesFrom s.dataSegmentEnd (alignPage length / 0x1000)) physical
      (alignPage length / 0x1000)) :
    Ends (createPhysicalMapping (kmallocTable depth) physical length) s
      (fun _ => Within s) (Within s) := by
  have ready : Ready s (pagesFrom s.dataSegmentEnd (alignPage length / 0x1000)) s :=
    ⟨closed.within, mappable.user, mappable.room⟩
  refine (getFreeVirtualMemory_ends closed.within length).bind ?_
  rintro _ _ ⟨rfl, newEnd, rfl⟩
  have sharing : Sharing s (pagesFrom s.dataSegmentEnd (alignPage length / 0x1000))
      s.paging.activeDirectory { s with dataSegmentEnd := newEnd } :=
    ⟨rfl, ready.segment newEnd, fun _ => id⟩
  split
  · exact .of_ok rfl (closed.within.segment _)
  · refine ends_aligned ?_ (closed.within.segment _)
    refine (mapObject_user sharing depth _ _ physical (Finset.Subset.refl _)
      mappable.held).bind ?_
    rintro (_ | _) t result
    · exact .of_ok rfl result
    · have sharing : Sharing s _ s.paging.activeDirectory t := result
      exact .of_ok rfl sharing.ready.within

theorem mmap_user (closed : s.Sealed) (depth length : Nat) (mapping : Mapping) (map : Bool)
    (met : s.Meets (.mmap length mapping map)) :
    Ends (mmap (kmallocTable depth) length mapping map) s (fun _ => Within s) (Within s) := by
  unfold mmap
  by_cases empty : length = 0
  · rw [if_pos empty]
    exact .of_ok rfl closed.within
  by_cases full : map = false
  · rw [if_neg empty, if_pos full]
    exact .of_ok rfl closed.within
  rw [if_neg empty, if_neg full]
  rw [Bool.not_eq_false] at full
  cases mapping with
  | anonymous =>
    have harmless := met empty full
    have allocated : Ends (allocateVirtualUserMemory (kmallocTable depth) length) s
        (fun _ => Within s) (Within s) := by
      refine (getFreeVirtualMemory_ends closed.within length).bind ?_
      rintro _ _ ⟨rfl, newEnd, rfl⟩
      split
      · exact .of_ok rfl (closed.within.segment _)
      · refine (mmuAllocateRegion_user ((harmless.underway closed).segment _)
          (Finset.Subset.refl _) depth _).bind ?_
        rintro (_ | _) t result
        · exact .of_ok rfl (region_within result)
        · exact .of_ok rfl (region_within result)
    refine allocated.bind fun rc t within => ?_
    split <;> exact .of_ok rfl within
  | file found =>
    cases found with
    | none => exact .of_ok rfl closed.within
    | some vmobject =>
      dsimp only
      split
      · exact .of_ok rfl closed.within
      · rename_i fits
        refine (createPhysicalMapping_user closed depth _ length
          (met empty full (not_lt.mp fits))).bind fun rc t within => ?_
        split <;> exact .of_ok rfl within

/-- A call that meets its condition ends where a call may have brought the
machine. -/
theorem perform_within (closed : s.Sealed) (depth : Nat) (call : Call) (met : s.Meets call) :
    Ends (call.perform (kmallocTable depth)) s (fun _ => Within s) (Within s) := by
  cases call with
  | brk addr =>
    exact (syscallBrk_user closed depth addr met).bind fun _ t within => .of_ok rfl within
  | sbrk increment =>
    have ends : Ends (syscallSbrk (kmallocTable depth) increment) s (fun _ => Within s)
        (Within s) := by
      apply Ends.get_bind
      refine (syscallBrk_user closed depth _ met).bind fun rc t within => ?_
      split <;> exact .of_ok rfl within
    exact ends.bind fun _ t within => .of_ok rfl within
  | mmap length mapping map =>
    exact (mmap_user closed depth length mapping map met).bind fun _ t within =>
      .of_ok rfl within
  | exec file garbage =>
    have harmless : s.Harmless (execPages file garbage) := met
    exact (exec_user (harmless.underway closed) depth file garbage
      (Finset.Subset.refl _)).bind fun _ t within => .of_ok rfl within
  | growHeap size =>
    exact (ksbrk_heap closed met _).bind fun _ t within => .of_ok rfl within

/-! ## Whole runs -/

/-- Every call of the run meets its condition in the state it is made in. -/
def AllMeet (depth : Nat) (s : Machine) : List Call → Prop
  | [] => True
  | call :: rest => s.Meets call ∧
      ∀ t, call.perform (kmallocTable depth) s = .ok () t → AllMeet depth t rest

/-- The state in which a run is after some of its calls. -/
def reached (depth : Nat) (s : Machine) (calls : List Call) : Machine :=
  finalState (performAll depth calls) s

theorem reached_ok (ran : Call.perform (kmallocTable depth) call s = .ok () t) :
    reached depth s (call :: rest) = reached depth t rest := by
  unfold reached finalState
  rw [performAll, run_bind_ok ran]

theorem reached_error (ran : Call.perform (kmallocTable depth) call s = .error stop t) :
    reached depth s (call :: rest) = t := by
  unfold reached finalState
  rw [performAll, run_bind_error ran]

/-- In a run whose calls meet their conditions, no call opens, unmaps, frees or
overwrites a kernel page. -/
theorem kernel_stays_closed (depth : Nat) (calls : List Call) (closed : s.Sealed)
    (met : AllMeet depth s calls) (k : Nat) :
    KernelClosed (reached depth s (calls.take k)) (reached depth s (calls.take (k + 1))) := by
  induction calls generalizing s k with
  | nil =>
    rw [take_nil, take_nil]
    exact closed.within.kernelClosed closed
  | cons call rest ih =>
    obtain ⟨first, later⟩ := met
    have ends := perform_within closed depth call first
    unfold Ends at ends
    cases ran : call.perform (kmallocTable depth) s with
    | ok value t =>
      rw [ran] at ends
      have within : Within s t := ends
      rw [take_succ_cons, reached_ok ran]
      cases k with
      | zero => exact within.kernelClosed closed
      | succ k =>
        rw [take_succ_cons, reached_ok ran]
        exact ih within.closed (later t ran) k
    | error stop t =>
      rw [ran] at ends
      have within : Within s t := ends
      rw [take_succ_cons, reached_error ran]
      cases k with
      | zero => exact within.kernelClosed closed
      | succ k =>
        rw [take_succ_cons, reached_error ran]
        exact within.closed.within.kernelClosed within.closed

/-- A process with one page table of its own, beside a kernel with one page. -/
def small : Machine where
  paging :=
    { pageTable := fun table index =>
        if table = 0xC0001000 ∧ index = 0 then { present := true, rw := true, frame := 1 } else {}
      directory := fun directory =>
        { tables := fun slot =>
            if slot = 768 then 0xC0001000
            else if slot = 1 ∧ directory = 2 then 0xC0002000 else 0
          physicalTables := fun _ => 0 }
      kernelDirectory := 1
      activeDirectory := 2
      ram := fun _ => Bytes.zeros }
  frames := { words := [2#32, 0#32] }
  dataEnd := 0xC0003000
  readyQueue := some [2]
  dataSegmentEnd := 0x400000

/-- A program whose only segment lies where the kernel does. -/
def intruder : List UInt8 :=
  [0x7F, 0x45, 0x4C, 0x46, 1, 1, 1, 0, 0, 0, 0, 0, 0, 0, 0, 0,
   2, 0, 3, 0, 1, 0, 0, 0, 0, 0, 0, 0, 52, 0, 0, 0,
   0, 0, 0, 0, 0, 0, 0, 0, 52, 0, 32, 0, 1, 0, 0, 0, 0, 0, 0, 0,
   1, 0, 0, 0, 84, 0, 0, 0, 0, 0, 0, 0xC0, 0, 0, 0, 0,
   4, 0, 0, 0, 4, 0, 0, 0, 7, 0, 0, 0, 0, 0x10, 0, 0,
   1, 2, 3, 4]

theorem small_kernelTable (slot : Nat) :
    small.kernelTable slot = if slot = 768 then 0xC0001000 else 0 := by
  unfold kernelTable small
  simp

theorem small_activeTable (slot : Nat) : small.activeTable slot =
    if slot = 768 then 0xC0001000 else if slot = 1 then 0xC0002000 else 0 := by
  unfold activeTable small
  simp

theorem small_mapped (mapped : small.Mapped page) : page = 768 * 1024 := by
  obtain ⟨_, present⟩ := mapped
  unfold entry at present
  rw [small_activeTable] at present
  have place : (if page / 1024 = 768 then 0xC0001000
      else if page / 1024 = 1 then 0xC0002000 else 0) = 0xC0001000 ∧ page % 1024 = 0 := by
    by_contra elsewhere
    rw [show small.paging.pageTable _ _ = {} from if_neg elsewhere] at present
    exact Bool.false_ne_true present
  obtain ⟨table, index⟩ := place
  split at table
  · omega
  · split at table <;> omega

theorem small_sealed : small.Sealed where
  current := by decide
  shared slot kernel := by
    rw [small_kernelTable] at kernel ⊢
    rw [small_activeTable]
    split at kernel
    · rename_i here
      rw [if_pos here, if_pos here]
    · exact absurd rfl kernel
  apart slot other has same := by
    rw [small_activeTable] at has same
    rw [small_activeTable] at same
    by_cases kernel : slot = 768
    · split at same
      · omega
      · split at same <;> omega
    · by_cases user : slot = 1
      · split at same
        · omega
        · split at same <;> omega
      · rw [if_neg kernel, if_neg user] at has
        exact absurd rfl has
  shut page kernel := by
    show (if _ then _ else _ : Page).user = false
    split <;> rfl
  marked page mapped := by
    rw [small_mapped mapped]
    decide
  small := by decide
  below slot := by
    rw [small_activeTable]
    split
    · decide
    · split <;> decide

/-- The first memory the process asks for. -/
theorem kernel_stays_closed_brk : small.Sealed ∧ AllMeet 2 small [.brk 0x400800] ∧
    KernelClosed small (reached 2 small [.brk 0x400800]) := by
  have met : AllMeet 2 small [.brk 0x400800] := by
    refine ⟨⟨?_, ?_, ?_⟩, fun _ _ => trivial⟩
    · decide
    · intro page member mapped
      rw [small_mapped mapped] at member
      exact absurd member (by decide)
    · exact ⟨by decide, nofun,
        .inl nofun⟩
  exact ⟨small_sealed, met, kernel_stays_closed 2 [.brk 0x400800] small_sealed met 0⟩

theorem exec_opens_the_kernel : small.Sealed ∧
    ((reached 2 small [.exec intruder []]).kernelEntry 0xC0000).user = true ∧
    (reached 2 small [.exec intruder []]).paging.ram (small.kernelEntry 0xC0000).frame 0 = 1 ∧
    ¬ KernelClosed small (reached 2 small [.exec intruder []]) := by
  have opened : ((reached 2 small [.exec intruder []]).kernelEntry 0xC0000).user = true := by
    decide +kernel
  have written :
      (reached 2 small [.exec intruder []]).paging.ram (small.kernelEntry 0xC0000).frame 0 = 1 := by
    decide +kernel
  refine ⟨small_sealed, opened, written, fun closed => ?_⟩
  have kernel : (reached 2 small [.exec intruder []]).KernelPage 0xC0000 := by decide +kernel
  exact Bool.false_ne_true ((closed.shut 0xC0000 kernel).symm.trans opened)

end SbOS.Mmu.Machine
