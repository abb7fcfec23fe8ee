import SbOS.Mmu.KernelHalf

/-! What the functions that map memory do from a sealed state, as equations
between the machine before and after, and from them what the loops keep. -/
namespace SbOS.Mmu.Machine
open Finset
variable {start s : Machine} {page : Nat} {value : Page} {frames : Frames} {touched : Finset Nat}

/-! ## Looking up and making entries -/

section
variable (active : s.paging.directoryOf pd = s.paging.activeDirectory)
include active

theorem getPage_eq :
    s.paging.getPage ptr pd =
      if s.Mapped (ptr / 0x1000) then some (s.entry (ptr / 0x1000)) else none := by
  have table : (s.paging.directory (if pd = 0 then s.paging.activeDirectory else pd)).tables
      (ptr / 0x1000 / 1024) = s.activeTable (ptr / 0x1000 / 1024) :=
    congrArg (fun directory => (s.paging.directory directory).tables _) active
  unfold Paging.getPage
  simp only [table]
  by_cases absent : s.activeTable (ptr / 0x1000 / 1024) = 0
  · rw [if_pos absent, if_neg (fun mapped => mapped.1 absent)]
  · rw [if_neg absent]
    by_cases present : (s.entry (ptr / 0x1000)).present = true
    · have mapped : s.Mapped (ptr / 0x1000) := ⟨absent, present⟩
      rw [if_pos mapped]
      exact if_pos present
    · have unmapped : ¬ s.Mapped (ptr / 0x1000) := fun mapped => present mapped.2
      rw [if_neg unmapped]
      exact if_neg present

theorem pageAt_eq :
    s.paging.pageAt ptr pd = ⟨s.activeTable (ptr / 0x1000 / 1024), ptr / 0x1000 % 1024⟩ := by
  unfold Paging.pageAt
  rw [active]
  rfl

end

/-- The pointer to the entry of a page. -/
def pointer (s : Machine) (page : Nat) : PagePointer :=
  ⟨s.activeTable (page / 1024), page % 1024⟩

theorem page_put : (s.put page value frames).paging.page (s.pointer page) = value := if_pos ⟨rfl, rfl⟩

theorem put_put : (s.put page value frames).put page value' frames' = s.put page value' frames' := by
  unfold put Paging.setPage
  congr 2
  funext table index
  show (if table = s.activeTable (page / 1024) ∧ index = page % 1024 then value' else
    if table = s.activeTable (page / 1024) ∧ index = page % 1024 then value else _) = _
  by_cases here : table = s.activeTable (page / 1024) ∧ index = page % 1024
  · rw [if_pos here, if_pos here]
  · rw [if_neg here, if_neg here, if_neg here]

/-- A store to the entry that was just written. -/
theorem modify_put (change : Page → Page) :
    modifyPaging (fun m => m.setPage (s.pointer page) (change (m.page (s.pointer page))))
      (s.put page value frames) = .ok () (s.put page (change value) frames) := by
  show EStateM.Result.ok () ((s.put page value frames).put page
    (change ((s.put page value frames).paging.page (s.pointer page))) frames) = _
  rw [page_put, put_put]

theorem getPageAllocate_has (active : s.paging.directoryOf pd = s.paging.activeDirectory)
    (current : s.paging.activeDirectory ≠ 0) (has : s.activeTable (ptr / 0x1000 / 1024) ≠ 0) :
    getPageAllocate source ptr pd setUser s =
      .ok (some (s.pointer (ptr / 0x1000)))
        (s.put (ptr / 0x1000)
          { s.entry (ptr / 0x1000) with present := false, user := setUser } s.frames) := by
  have present : ensureTable source (s.paging.directoryOf pd) (ptr / 0x1000 / 1024) setUser s =
      .ok true s := by
    unfold ensureTable
    rw [run_get, run_if_pos (by rw [active]; exact has)]
    rfl
  have same : s.paging.directoryOf (s.paging.directoryOf pd) = s.paging.activeDirectory := by
    rw [active]
    exact if_neg current
  unfold getPageAllocate
  rw [run_get, run_bind_ok present, if_pos rfl, run_get, pageAt_eq same]
  rfl

theorem writeToFrame_run (wrote : s.frames.writeToFrame address on = (done, frames)) :
    writeToFrame address on s = .ok done { s with frames } := by
  unfold writeToFrame
  rw [wrote]

theorem writeToFrame_put (wrote : frames.writeToFrame address on = (done, frames')) :
    writeToFrame address on (s.put page value frames) = .ok done (s.put page value frames') :=
  @writeToFrame_run (s.put page value frames) _ _ _ _ wrote

theorem getFreeFrames_run (found : s.frames.getFreeFrames count = (answer, s.frames)) :
    getFreeFrames count s = .ok answer s := by
  unfold getFreeFrames
  rw [found]

theorem kassert_true (holds : condition = true) : kassert condition s = .ok () s := by
  unfold kassert
  rw [if_pos holds]
  rfl

/-- A page that is not present gets a frame of its own, unless there is none. -/
theorem allocateFrame_run (small : s.frames.words.length ≤ 2 ^ 15)
    (absent : (s.entry page).present = false) :
    (∃ frame frames, Frames.Claims s.frames frames frame ∧
      allocateFrame (s.pointer page) rw isKernel s = .ok true (s.put page
        { s.entry page with present := true, rw, user := !isKernel, frame } frames)) ∨
    (s.frames.free = 0 ∧ allocateFrame (s.pointer page) rw isKernel s = .ok false s) := by
  have checked : kassert (!(s.paging.page (s.pointer page)).present) s = .ok () s :=
    kassert_true (by show (!(s.entry page).present) = true; rw [absent]; rfl)
  unfold allocateFrame
  rw [run_get, run_bind_ok checked]
  rcases Frames.claim_one small with ⟨frame, frames, found, wrote, bound, claims⟩ | ⟨nothing, none⟩
  · have plain : uintptr (frame * 0x1000) = frame * 0x1000 := by
      unfold uintptr
      omega
    rw [← plain] at wrote
    refine .inl ⟨frame, frames, claims, ?_⟩
    rw [run_bind_ok (getFreeFrames_run found)]
    simp only
    rw [run_bind_ok (writeToFrame_run wrote)]
    have small' := Nat.mod_eq_of_lt bound
    rw [small']
    rfl
  · exact .inr ⟨none, by rw [run_bind_ok (getFreeFrames_run nothing)]; rfl⟩

/-! ## A page table from the heap -/

theorem run_pointer {result : Except Stop Nat} {next : Nat → Kernel α}
    (found : result = .ok moved) : (MonadExcept.ofExcept result >>= next) s = next moved s := by
  rw [found]
  rfl

theorem advance_fits (fits : ptr + n < 2 ^ 32) : advance ptr n = .ok (ptr + n) := by
  unfold advance
  exact if_pos fits

theorem advance_ok (ran : advance ptr n = .ok moved) : moved = uintptr (ptr + n) := by
  unfold advance at ran
  split at ran
  · cases ran
    exact (Nat.mod_eq_of_lt ‹_›).symm
  · cases ran

theorem alignPointer_eq (x : Nat) : alignPointer x =
    if x ≤ alignPage x then .ok (alignPage x) else .error .overflow := by
  unfold alignPointer advance alignPage nextPage uintptr pageSize
  split
  · split
    · rename_i fits
      rw [Nat.mod_eq_of_lt fits, if_pos (Nat.le_add_right _ _)]
    · rw [if_neg (by omega)]
  · rw [if_pos le_rfl]

theorem alignPointer_ok (rounded : alignPointer x = .ok moved) :
    moved = alignPage x ∧ x ≤ alignPage x := by
  rw [alignPointer_eq] at rounded
  split at rounded
  · cases rounded
    exact ⟨rfl, ‹_›⟩
  · cases rounded

theorem alignPage_add (bound : alignPage x + pageSize < 2 ^ 32) :
    alignPage (uintptr (x + pageSize)) = alignPage x + pageSize := by
  unfold alignPage nextPage uintptr at *
  unfold pageSize at *
  split at bound <;> split <;> omega

theorem alignPointer_add (low : x ≤ alignPage x) (bound : alignPage x + pageSize < 2 ^ 32) :
    alignPointer (uintptr (x + pageSize)) = .ok (alignPage x + pageSize) := by
  rw [alignPointer_eq, alignPage_add bound]
  exact if_pos ((Nat.mod_le _ _).trans (Nat.add_le_add_right low _))

theorem alignPage_mod (x : Nat) : alignPage x % pageSize = 0 := by
  unfold alignPage nextPage uintptr pageSize
  split <;> omega

/-- The heap after one more page has been handed out. -/
def grown (s : Machine) : Machine := { s with dataEnd := alignPage s.dataEnd + pageSize }

/-- One page of the heap is mapped to a frame of its own, whatever it was mapped
to before; without a frame nothing happens to a page that was not mapped. -/
theorem mmuAllocateKernelLinear_run (closed : s.Sealed) (bound : ptr + pageSize < 2 ^ 32)
    (has : s.activeTable (ptr / 0x1000 / 1024) ≠ 0)
    (frames : ¬ s.Mapped (ptr / 0x1000) ∨ 0 < s.frames.free) :
    (∃ frame frames, Frames.Claims s.frames frames frame ∧
      mmuAllocateKernelLinearVirtualToPhysicalMapping source ptr pageSize s =
        .ok true (s.put (ptr / 0x1000) { s.entry (ptr / 0x1000) with
          present := true, rw := true, user := false, frame } frames)) ∨
    (¬ s.Mapped (ptr / 0x1000) ∧ s.frames.free = 0 ∧
      mmuAllocateKernelLinearVirtualToPhysicalMapping source ptr pageSize s = .ok false s) := by
  have one : alignPage pageSize / pageSize = 1 := by decide
  have active : s.paging.directoryOf 0 = s.paging.activeDirectory := if_pos rfl
  unfold mmuAllocateKernelLinearVirtualToPhysicalMapping
  simp only [one]
  rcases Frames.claim_one closed.small with
    ⟨frame, frames, found, wrote, frameBound, claims⟩ | ⟨nothing, none⟩
  · have here : advance ptr (0 * 0x1000) = .ok ptr := advance_fits (by omega)
    have plain : uintptr (frame + 0) % 2 ^ 20 = frame := by
      unfold uintptr
      omega
    refine .inl ⟨frame, frames, claims, ?_⟩
    have mapped : linearPage source ptr frame 0 s = .ok true (s.put (ptr / 0x1000)
        { s.entry (ptr / 0x1000) with present := true, rw := true, user := false, frame }
        frames) := by
      unfold linearPage
      rw [run_pointer here, run_bind_ok (getPageAllocate_has active closed.current.1 has)]
      simp only [plain]
      rw [run_get, run_bind_ok (kassert_true (by rw [page_put]; rfl)),
        run_bind_ok (modify_put fun page =>
          { page with present := true, rw := true, user := false, frame }),
        run_bind_ok (writeToFrame_put wrote)]
      rfl
    rw [run_bind_ok (getFreeFrames_run found)]
    simp only
    rw [run_bind_true (untilFalse_one mapped)]
    rfl
  · have absent : ¬ s.Mapped (ptr / 0x1000) := by
      rcases frames with absent | some
      · exact absent
      · omega
    refine .inr ⟨absent, none, ?_⟩
    have kept : mmuFreeAddressRange ptr pageSize 0 s = .ok () s := by
      have here : uintptr ptr = ptr := Nat.mod_eq_of_lt (by omega)
      have skipped : freePage ptr 0 s = .ok () s := by
        unfold freePage
        rw [run_get, getPage_eq active, if_neg absent]
        rfl
      have rounded : alignPointer pageSize = .ok pageSize := by
        unfold alignPointer
        rfl
      unfold mmuFreeAddressRange
      rw [run_pointer rounded, here]
      show freePages 0 1 ptr s = _
      unfold freePages
      rw [run_bind_ok skipped, run_pointer (advance_fits bound)]
      rfl
    rw [run_bind_ok (getFreeFrames_run nothing)]
    show (mmuFreeAddressRange ptr pageSize 0 >>= fun _ => pure false) s = _
    rw [run_bind_ok kept]
    rfl

theorem alignPage_aligned (aligned : x % pageSize = 0) : alignPage x = x := by
  unfold alignPage
  rw [if_neg (by omega)]

theorem alignPage_grown : alignPage s.grown.dataEnd = alignPage s.dataEnd + pageSize :=
  alignPage_aligned (by show (alignPage s.dataEnd + pageSize) % pageSize = 0
                        rw [Nat.add_mod_right, alignPage_mod])

theorem heapPage_grown : s.grown.heapPage = s.heapPage + 1 := by
  unfold heapPage
  rw [alignPage_grown, Nat.add_div_right _ (by decide)]

theorem Sealed.grown (closed : s.Sealed) : s.grown.Sealed :=
  ⟨closed.current, closed.shared, closed.apart, closed.shut, closed.marked, closed.small,
    fun slot => by rw [alignPage_grown]; exact Nat.lt_add_right _ (closed.below slot)⟩

theorem Room.grown (room : s.Room (count + 1) others) : s.grown.Room count (others + 1) := by
  refine ⟨?_, fun j bound => ?_, ?_⟩
  · rw [alignPage_grown]
    have inside := room.inside
    rw [Nat.succ_mul] at inside
    omega
  · rw [heapPage_grown, Nat.add_right_comm]
    exact room.tables (j + 1) (Nat.succ_lt_succ bound)
  · rcases room.frames with clear | enough
    · refine .inl fun j bound => ?_
      rw [heapPage_grown, Nat.add_right_comm]
      exact clear (j + 1) (Nat.succ_lt_succ bound)
    · exact .inr (by show _ ≤ s.frames.free; omega)

/-- The entry of a heap page that holds a new frame. -/
def heapEntry (s : Machine) (frame : Nat) : Page :=
  { s.entry s.heapPage with present := true, rw := true, user := false, frame }

/-- The machine after the heap got one more page. -/
def heaped (s : Machine) (frame : Nat) (frames : Frames) : Machine :=
  s.grown.put s.heapPage (s.heapEntry frame) frames

/-- Growing the heap by one page when it needs no kernel table: a page with a
frame of its own, or nothing. -/
theorem ksbrk_page (source : TableSource) (closed : s.Sealed) (room : s.Room (count + 1) others) :
    (∃ stop, ksbrk source pageSize true s = .error stop s) ∨
    (∃ frame frames, Frames.Claims s.frames frames frame ∧
      ksbrk source pageSize true s = .ok (alignPage s.dataEnd) (s.heaped frame frames)) ∨
    (¬ s.Mapped s.heapPage ∧ ksbrk source pageSize true s = .ok 0 s.grown) := by
  have inside := room.inside
  rw [Nat.succ_mul] at inside
  have wide : alignPage s.dataEnd + pageSize < 2 ^ 32 := by omega
  obtain ⟨kernel, -⟩ := room.tables 0 (Nat.succ_pos count)
  have table := room.first_table
  have size : uintptr (s.grown.dataEnd + 2 ^ 32 - alignPage s.dataEnd) = pageSize := by
    show uintptr (alignPage s.dataEnd + pageSize + 2 ^ 32 - alignPage s.dataEnd) = _
    unfold uintptr pageSize
    omega
  have frames : ¬ s.grown.Mapped (alignPage s.dataEnd / 0x1000) ∨ 0 < s.grown.frames.free := by
    rcases room.frames with clear | enough
    · exact .inl (clear 0 (Nat.succ_pos count))
    · exact .inr (by show 0 < s.frames.free; omega)
  have has := closed.has_table kernel
  unfold ksbrk
  rw [run_get]
  cases rounded : alignPointer s.dataEnd with
  | error stop => exact .inl ⟨stop, rfl⟩
  | ok rc =>
  obtain ⟨rfl, low⟩ := alignPointer_ok rounded
  have moved : moveDataEnd pageSize s = .ok () s.grown := by
    unfold moveDataEnd
    rw [run_modify, run_get, run_pointer (alignPointer_add low wide)]
    rfl
  rw [run_pointer rfl, run_if_neg closed.current.1, run_if_neg table]
  unfold extendHeap
  rw [run_get, run_pointer rounded, run_bind_ok moved, run_get, size, if_pos rfl]
  refine .inr ?_
  rcases mmuAllocateKernelLinear_run closed.grown wide has frames with
    ⟨frame, frames, claims, ran⟩ | ⟨absent, _, ran⟩
  · refine .inl ⟨frame, frames, claims, ?_⟩
    rw [run_bind_true ran, run_bind_ok (kassert_true (by simp [alignPage_mod]))]
    rfl
  · refine .inr ⟨absent, ?_⟩
    rw [run_bind_false ran]
    rfl

theorem virtualToPhysical_run (s : Machine) (address : Nat) :
    ∃ physical, virtualToPhysical address s = .ok physical s := by
  unfold virtualToPhysical
  rw [run_get]
  cases s.paging.getPage address 0 with
  | none => exact ⟨_, rfl⟩
  | some page => exact ⟨_, rfl⟩

/-- A page table from the heap, at the address where the heap ended. -/
theorem kmallocTable_run (closed : s.Sealed) (room : s.Room (count + 1) others) (depth : Nat) :
    (∃ stop, kmallocTable depth s = .error stop s) ∨
    (∃ frame frames physical, Frames.Claims s.frames frames frame ∧
      kmallocTable depth s = .ok (alignPage s.dataEnd, physical) (s.heaped frame frames)) ∨
    (¬ s.Mapped s.heapPage ∧ kmallocTable depth s = .ok (0, 0) s.grown) := by
  cases depth with
  | zero => exact .inl ⟨_, rfl⟩
  | succ depth =>
    unfold kmallocTable ksbrkPhysical
    rcases ksbrk_page (kmallocTable depth) closed room with
      ⟨stop, ran⟩ | ⟨frame, frames, claims, ran⟩ | ⟨absent, ran⟩
    · exact .inl ⟨stop, run_bind_error ran⟩
    · have nonnull := Nat.ne_zero_of_lt (closed.below 0)
      obtain ⟨physical, translated⟩ :=
        virtualToPhysical_run (s.heaped frame frames) (alignPage s.dataEnd)
      refine .inr (.inl ⟨frame, frames, physical, claims, ?_⟩)
      rw [run_bind_ok ran]
      simp only [nonnull, if_false]
      rw [run_bind_ok translated]
      rfl
    · refine .inr (.inr ⟨absent, ?_⟩)
      rw [run_bind_ok ran]
      rfl

theorem Within.grown (within : Within start s) : Within start s.grown :=
  ⟨within.closed.grown, within.tables, within.length, within.mapped, within.owned, within.intact⟩

section Heaped
variable (claims : Frames.Claims s.frames frames frame)
include claims

theorem Within.heaped (within : Within start s) (kernel : s.KernelPage s.heapPage) :
    Within start (s.heaped frame frames) := by
  have has := within.closed.has_table kernel
  exact within.grown.put has (fun _ => rfl) (fun _ _ => rfl)
    (within.grown.accounts claims.length (fun _ => claims.grows) fun _ _ => claims.own)

theorem Alone.heaped (alone : Alone start touched s) (within : Within start s)
    (kernel : s.KernelPage s.heapPage) : Alone start touched (s.heaped frame frames) := by
  have has := within.closed.has_table kernel
  have same : Alone start touched s.grown := alone
  exact same.put within.closed.grown has fun _ => .inr (within.unheld claims.tracked claims.clear)

theorem Room.heaped (room : s.Room (count + 1) others) (closed : s.Sealed) :
    (s.heaped frame frames).Room count others := by
  have has := closed.has_table (room.tables 0 (Nat.succ_pos count)).1
  refine room.grown.put closed.grown has (fun j _ => ?_) fun enough => ?_
  · rw [heapPage_grown]
    omega
  · have before : others + 1 + count ≤ s.frames.free := enough
    have free := claims.free
    omega

end Heaped

theorem mapped_heaped (closed : s.Sealed) (kernel : s.KernelPage s.heapPage)
    (user : ¬ s.KernelPage page) : (s.heaped frame frames).Mapped page ↔ s.Mapped page := by
  have has := closed.has_table kernel
  have different : page ≠ s.heapPage := by
    rintro rfl
    exact user kernel
  rw [Machine.heaped, mapped_put closed.grown has, if_neg different]
  rfl

/-! ## A new table for user pages -/

/-- The machine with an empty page table in the running process's directory. -/
def link (s : Machine) (slot table physical : Nat) : Machine :=
  { s with paging := ((s.paging.setTable s.paging.activeDirectory slot table).clearTable
      table).setPhysicalTable s.paging.activeDirectory slot physical }

theorem activeTable_link :
    (s.link slot table physical).activeTable other =
      if other = slot then table else s.activeTable other := by
  unfold activeTable link
  simp only [Paging.setPhysicalTable, Paging.clearTable, Paging.setTable, if_true]

theorem kernelTable_link (closed : s.Sealed) :
    (s.link slot table physical).kernelTable = s.kernelTable := by
  funext other
  have different := closed.current.2.symm
  unfold kernelTable link
  simp only [Paging.setPhysicalTable, Paging.clearTable, Paging.setTable, different, if_false]

section Link
variable (fresh : ∀ other, s.activeTable other < table) (lacking : s.activeTable slot = 0)
include fresh

theorem entry_link :
    (s.link slot table physical).entry page = if page / 1024 = slot then {} else s.entry page := by
  unfold entry
  rw [activeTable_link]
  split
  · exact congrFun (if_pos rfl) _
  · exact congrFun (if_neg (Nat.ne_of_lt (fresh _))) _

include lacking in
theorem mapped_link : (s.link slot table physical).Mapped page ↔ s.Mapped page := by
  unfold Mapped
  rw [entry_link fresh, activeTable_link]
  by_cases here : page / 1024 = slot
  · rw [here, lacking]
    simp
  · rw [if_neg here, if_neg here]

include lacking

theorem entry_link_mapped (mapped : s.Mapped page) :
    (s.link slot table physical).entry page = s.entry page := by
  rw [entry_link fresh, if_neg]
  rintro rfl
  exact mapped.1 lacking

theorem Sealed.link (closed : s.Sealed) (low : table < alignPage s.dataEnd) :
    (s.link slot table physical).Sealed := by
  have kernels := @kernelTable_link s slot table physical closed
  have user : ∀ other, s.kernelTable other ≠ 0 → other ≠ slot := by
    rintro other kernel rfl
    exact kernel ((closed.shared _ kernel).symm.trans lacking)
  refine ⟨closed.current, fun other kernel => ?_, fun first second has same => ?_,
    fun page kernel => ?_, fun page mapped => ?_, closed.small, fun other => ?_⟩
  · rw [kernels] at kernel ⊢
    rw [activeTable_link, if_neg (user other kernel)]
    exact closed.shared other kernel
  · rw [activeTable_link] at has same
    rw [activeTable_link] at same
    have one := fresh first
    have two := fresh second
    by_cases here : first = slot <;> by_cases there : second = slot <;>
      simp only [here, there, if_true, if_false] at has same ⊢
    · omega
    · omega
    · exact closed.apart first second has same
  · unfold KernelPage at kernel
    rw [kernels] at kernel
    rw [entry_link fresh, if_neg (user _ kernel)]
    exact closed.shut page kernel
  · rw [mapped_link fresh lacking] at mapped
    rw [entry_link_mapped fresh lacking mapped]
    exact closed.marked page mapped
  · rw [activeTable_link]
    split
    · exact low
    · exact closed.below other

theorem Within.link (within : Within start s) (low : table < alignPage s.dataEnd) :
    Within start (s.link slot table physical) :=
  ⟨within.closed.link fresh lacking low, (kernelTable_link within.closed).trans within.tables,
    within.length, fun page kernel mapped =>
      (mapped_link fresh lacking).mpr (within.mapped page kernel mapped),
    within.owned, within.intact⟩

theorem Alone.link (alone : Alone start touched s) :
    Alone start touched (s.link slot table physical) := by
  intro page member mapped
  rw [mapped_link fresh lacking] at mapped
  rw [entry_link_mapped fresh lacking mapped]
  refine ⟨fun other present same => ?_, (alone page member mapped).2⟩
  rw [mapped_link fresh lacking] at present
  rw [entry_link_mapped fresh lacking present] at same
  exact (alone page member mapped).1 other present same

theorem unmapped_link : (s.link slot table physical).unmapped touched = s.unmapped touched := by
  unfold unmapped
  congr 1
  exact filter_congr fun page _ => by rw [mapped_link fresh lacking]

omit fresh in
theorem missing_link (member : slot ∈ touched.image (· / 1024)) (nonnull : table ≠ 0) :
    s.missing touched = (s.link slot table physical).missing touched + 1 := by
  unfold missing
  rw [← card_erase_add_one (mem_filter.mpr ⟨member, lacking⟩)]
  congr 2
  ext other
  simp only [mem_erase, mem_filter, activeTable_link]
  by_cases here : other = slot
  · simp [here, nonnull]
  · simp [here]

theorem Room.link (room : s.Room count others) (closed : s.Sealed) :
    (s.link slot table physical).Room count others := by
  have kernels := @kernelTable_link s slot table physical closed
  refine ⟨room.inside, fun j bound => ?_, ?_⟩
  · unfold KernelPage
    rw [kernels]
    exact room.tables j bound
  · rcases room.frames with clear | enough
    · refine .inl fun j bound mapped => clear j bound ?_
      exact (mapped_link fresh lacking).mp mapped
    · exact .inr enough

end Link

/-- A call that touches only the user pages `touched` and has room for the page
tables they lack. -/
structure Ready (start : Machine) (touched : Finset Nat) (s : Machine) : Prop where
  within : Within start s
  user : ∀ page ∈ touched, ¬ start.KernelPage page
  room : s.Room (s.missing touched) (s.unmapped touched)

theorem setTable_self (m : Paging) (directory slot : Nat) :
    m.setTable directory slot ((m.directory directory).tables slot) = m := by
  unfold Paging.setTable
  congr 1
  funext other
  by_cases here : other = directory
  · subst here
    have tables : (fun i => if i = slot then (m.directory other).tables slot
        else (m.directory other).tables i) = (m.directory other).tables := by
      funext i
      split
      · rename_i same
        rw [same]
      · rfl
    rw [if_pos rfl]
    simp only [tables]
  · rw [if_neg here]

section
variable (ready : Ready start touched s) (member : page ∈ touched)
include ready member

theorem Ready.private' :
    ¬ s.KernelPage page :=
  fun kernel => ready.user page member (ready.within.kernelPage.mp kernel)

/-- A user page may get an entry with the frame it has, or one that is not
present while the page is not mapped. -/
theorem Ready.put_same (value : Page)
    (has : s.activeTable (page / 1024) ≠ 0) (same : value.present = true ↔ s.Mapped page)
    (frame : value.present = true → value.frame = (s.entry page).frame) :
    Ready start touched (s.put page value s.frames) ∧
      (Alone start touched s → Alone start touched (s.put page value s.frames)) := by
  have closed := ready.within.closed
  have user := ready.user page member
  refine ⟨⟨ready.within.put has (absurd · user) (fun kernel => absurd kernel user)
    (ready.within.accounts rfl (fun _ => id) fun present tracked => ?_), ready.user, ?_⟩,
    fun alone => alone.put closed has fun present => .inl ⟨same.mp present, frame present⟩⟩
  · rw [frame present] at tracked ⊢
    exact closed.marked page (same.mp present) tracked
  · rw [unmapped_put_absent closed has same]
    exact ready.room.put closed has (ready.room.elsewhere (ready.private' member)) id

/-- A user page that is not mapped may get a frame that was not in use. -/
theorem Ready.put_claim (value : Page)
    (has : s.activeTable (page / 1024) ≠ 0) (absent : ¬ s.Mapped page)
    (present : value.present = true) (claims : Frames.Claims s.frames frames value.frame) :
    Ready start touched (s.put page value frames) ∧
      (Alone start touched s → Alone start touched (s.put page value frames)) := by
  have closed := ready.within.closed
  have user := ready.user page member
  refine ⟨⟨ready.within.put has (absurd · user) (fun kernel => absurd kernel user)
    (ready.within.accounts claims.length (fun _ => claims.grows) fun _ _ => claims.own),
    ready.user, ?_⟩, fun alone => alone.put closed has fun _ =>
      .inr (ready.within.unheld claims.tracked claims.clear)⟩
  have room := ready.room
  have fewer : s.unmapped touched = (s.put page value frames).unmapped touched + 1 :=
    unmapped_put_present closed has member absent present
  refine room.put closed has (room.elsewhere (ready.private' member)) fun enough => ?_
  have free := claims.free
  omega

/-- A user page may be mapped to any frame that is in use or has no bit. -/
theorem Ready.put_object (value : Page)
    (has : s.activeTable (page / 1024) ≠ 0) (present : value.present = true)
    (held : s.frames.Tracked value.frame → s.frames.used value.frame = true) :
    Ready start touched (s.put page value s.frames) := by
  have closed := ready.within.closed
  have user := ready.user page member
  refine ⟨ready.within.put has (absurd · user) (fun kernel => absurd kernel user)
    (ready.within.accounts rfl (fun _ => id) fun _ => held), ready.user, ?_⟩
  have fewer : (s.put page value s.frames).unmapped touched ≤ s.unmapped touched := by
    by_cases mapped : s.Mapped page
    · exact Nat.le_of_eq (unmapped_put_absent closed has ⟨fun _ => mapped, fun _ => present⟩)
    · rw [unmapped_put_present closed has member mapped present]
      exact Nat.le_succ _
  exact ready.room.put closed has (ready.room.elsewhere (ready.private' member)) fun enough =>
    Nat.le_trans (Nat.add_le_add_right fewer _) enough

end

/-- What making the table of a page in `touched` may have done. -/
structure Tabled (start : Machine) (touched : Finset Nat) (s t : Machine) : Prop where
  active : t.paging.activeDirectory = s.paging.activeDirectory
  within : Within start t
  grows : ∀ frame, s.frames.used frame = true → t.frames.used frame = true
  alone : Alone start touched s → Alone start touched t

/-- A missing table is made at the end of the heap, or there is no frame for it. -/
theorem ensureTable_lacking (closed : s.Sealed) (room : s.Room (count + 1) others)
    (lacking : s.activeTable slot = 0) (depth : Nat) :
    (∃ stop, ensureTable (kmallocTable depth) s.paging.activeDirectory slot true s =
      .error stop s) ∨
    (∃ frame frames physical, Frames.Claims s.frames frames frame ∧
      ensureTable (kmallocTable depth) s.paging.activeDirectory slot true s =
        .ok true ((s.heaped frame frames).link slot (alignPage s.dataEnd) physical)) ∨
    ensureTable (kmallocTable depth) s.paging.activeDirectory slot true s = .ok false s.grown := by
  have nonnull := Nat.ne_zero_of_lt (closed.below 0)
  have absent : ¬ (s.paging.directory s.paging.activeDirectory).tables slot ≠ 0 :=
    fun has => has lacking
  unfold ensureTable
  rw [run_get, run_if_neg absent]
  rcases kmallocTable_run closed room depth with
    ⟨stop, stopped⟩ | ⟨frame, frames, physical, claims, ran⟩ | ⟨_, ran⟩
  · exact .inl ⟨stop, run_bind_error stopped⟩
  · refine .inr (.inl ⟨frame, frames, physical ||| 0x7, claims, ?_⟩)
    rw [run_bind_ok ran]
    simp only [nonnull, if_false]
    rfl
  · refine .inr (.inr ?_)
    rw [run_bind_ok ran]
    show EStateM.Result.ok false { s.grown with
      paging := s.grown.paging.setTable s.paging.activeDirectory slot 0 } = _
    have same := setTable_self s.paging s.paging.activeDirectory slot
    rw [show (s.paging.directory s.paging.activeDirectory).tables slot = 0 from lacking] at same
    rw [show s.grown.paging = s.paging from rfl, same]
    rfl

/-- The table of a page in `touched` is there. -/
structure Prepared (start : Machine) (touched : Finset Nat) (page : Nat) (s t : Machine) :
    Prop where
  ready : Ready start touched t
  has : t.activeTable (page / 1024) ≠ 0
  mapped : ∀ other ∈ touched, t.Mapped other ↔ s.Mapped other

section
variable (ready : Ready start touched s) (member : page ∈ touched)
  (lacking : s.activeTable (page / 1024) = 0)
include ready member lacking

/-- The heap has room for a table that a page of `touched` lacks. -/
theorem Ready.room_lacking :
    ∃ count, s.missing touched = count + 1 ∧ s.Room (count + 1) (s.unmapped touched) := by
  have slot : page / 1024 ∈ touched.image (· / 1024) := mem_image_of_mem _ member
  obtain ⟨count, some⟩ : ∃ count, s.missing touched = count + 1 :=
    Nat.exists_eq_add_one.mpr (card_pos.mpr ⟨_, mem_filter.mpr ⟨slot, lacking⟩⟩)
  exact ⟨count, some, some ▸ ready.room⟩

/-- A missing table is made out of the room there is. -/
theorem ensureTable_missing (depth : Nat) :
    Ends (ensureTable (kmallocTable depth) s.paging.activeDirectory (page / 1024) true) s
      (fun made t => Tabled start touched s t ∧ (made = true → Prepared start touched page s t))
      (Within start) := by
  have closed := ready.within.closed
  have slot : page / 1024 ∈ touched.image (· / 1024) := mem_image_of_mem _ member
  obtain ⟨count, some, room⟩ := ready.room_lacking member lacking
  have kernel := (room.tables 0 (Nat.succ_pos count)).1
  have nonnull := Nat.ne_zero_of_lt (closed.below 0)
  rcases ensureTable_lacking closed room lacking depth with
    ⟨_, stopped⟩ | ⟨frame, frames, physical, claims, linked⟩ | kept
  · exact .of_error stopped ready.within
  · have fresh : ∀ other, (s.heaped frame frames).activeTable other < alignPage s.dataEnd :=
      closed.below
    have lacking' : (s.heaped frame frames).activeTable (page / 1024) = 0 := lacking
    have within := ready.within.heaped claims kernel
    have mapped : ∀ other ∈ touched, (s.heaped frame frames).Mapped other ↔ s.Mapped other :=
      fun other inside => mapped_heaped closed kernel (ready.private' inside)
    have low : alignPage s.dataEnd < alignPage (s.heaped frame frames).dataEnd := by
      show _ < alignPage s.grown.dataEnd
      rw [alignPage_grown]
      exact Nat.lt_add_of_pos_right (by decide)
    have fewer : s.missing touched = ((s.heaped frame frames).link (page / 1024)
        (alignPage s.dataEnd) physical).missing touched + 1 :=
      missing_link lacking' slot nonnull
    have same : (s.heaped frame frames).unmapped touched = s.unmapped touched :=
      congrArg card (filter_congr fun other inside => by rw [mapped other inside])
    refine .of_ok linked ⟨⟨rfl, within.link fresh lacking' low, fun _ => claims.grows, fun alone =>
      (alone.heaped claims ready.within kernel).link fresh lacking'⟩, fun _ =>
      ⟨⟨within.link fresh lacking' low, ready.user, ?_⟩, ?_, fun other inside => ?_⟩⟩
    · rw [unmapped_link fresh lacking', same, ← Nat.add_right_cancel (some.symm.trans fewer)]
      exact (room.heaped claims closed).link fresh lacking' within.closed
    · rw [activeTable_link, if_pos rfl]
      exact nonnull
    · rw [mapped_link fresh lacking']
      exact mapped other inside
  · exact .of_ok kept ⟨⟨rfl, ready.within.grown, fun _ => id, id⟩,
      fun made => absurd made Bool.false_ne_true⟩

end

/-- A page that is not mapped is marked as not present once its table is there. -/
theorem Prepared.blank (prepared : Prepared start touched page s t) (member : page ∈ touched)
    (absent : ¬ s.Mapped page) :
    Ready start touched
        (t.put page { t.entry page with present := false, user := true } t.frames) ∧
      (Alone start touched t → Alone start touched
        (t.put page { t.entry page with present := false, user := true } t.frames)) ∧
      ((t.put page { t.entry page with present := false, user := true } t.frames).entry
        page).present = false := by
  have unmapped : ¬ t.Mapped page := by
    rw [prepared.mapped _ member]
    exact absent
  obtain ⟨ready, keeps⟩ := prepared.ready.put_same member
    { t.entry page with present := false, user := true } prepared.has
    ⟨fun present => absurd present Bool.false_ne_true, fun present => absurd present unmapped⟩
    fun present => absurd present Bool.false_ne_true
  refine ⟨ready, keeps, ?_⟩
  rw [entry_put prepared.ready.within.closed prepared.has, if_pos rfl]

theorem ensureTable_user (ready : Ready start touched s) (member : page ∈ touched) (depth : Nat) :
    Ends (ensureTable (kmallocTable depth) s.paging.activeDirectory (page / 1024) true) s
      (fun made t => Tabled start touched s t ∧ (made = true → Prepared start touched page s t))
      (Within start) := by
  by_cases lacking : s.activeTable (page / 1024) = 0
  · exact ensureTable_missing ready member lacking depth
  · have there : ensureTable (kmallocTable depth) s.paging.activeDirectory (page / 1024) true s =
        .ok true s := by
      unfold ensureTable
      have has : (s.paging.directory s.paging.activeDirectory).tables (page / 1024) ≠ 0 := lacking
      rw [run_get, run_if_pos has]
      rfl
    exact .of_ok there ⟨⟨rfl, ready.within, fun _ => id, id⟩,
      fun _ => ⟨ready, lacking, fun _ _ => Iff.rfl⟩⟩

/-- `get_page(…, PAGE_ALLOCATE, 1)` on a page in `touched`: a failure, or the
pointer to an entry that is not present. -/
theorem getPageAllocate_user (ready : Ready start touched s) (member : ptr / 0x1000 ∈ touched)
    (active : s.paging.directoryOf pd = s.paging.activeDirectory) (depth : Nat) :
    Ends (getPageAllocate (kmallocTable depth) ptr pd true) s
      (fun found t => (found = none ∧ Tabled start touched s t) ∨
        ∃ u, Tabled start touched s u ∧ Prepared start touched (ptr / 0x1000) s u ∧
          found = some (u.pointer (ptr / 0x1000)) ∧
          t = u.put (ptr / 0x1000)
            { u.entry (ptr / 0x1000) with present := false, user := true } u.frames)
      (Within start) := by
  apply Ends.get_bind
  rw [active]
  refine (ensureTable_user ready member depth).bind ?_
  rintro (_ | _) t ⟨tabled, made⟩
  · exact .of_ok rfl (.inl ⟨rfl, tabled⟩)
  · have prepared := made rfl
    have same : t.paging.directoryOf s.paging.activeDirectory = t.paging.activeDirectory := by
      rw [← tabled.active]
      exact if_neg prepared.ready.within.closed.current.1
    apply Ends.get_bind
    rw [pageAt_eq same]
    exact .of_ok rfl (.inr ⟨t, tabled, prepared, rfl, rfl⟩)

end SbOS.Mmu.Machine
