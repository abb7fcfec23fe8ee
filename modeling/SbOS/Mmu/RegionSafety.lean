import SbOS.Mmu.RegionRuns

/-! Mapping and freeing ranges of pages that stay out of the kernel half: what
`mmu_allocate_region`, its error path and `mmu_map_physical` keep when every page
they visit is a user page with a frame of its own. -/
namespace SbOS.Mmu.Machine
open Finset
variable {start s : Machine} {page : Nat} {value : Page} {frames : Frames} {touched : Finset Nat}

/-- The pages that `mmu_allocate_region(ptr, n, …)` visits. -/
def regionPages (ptr n : Nat) : Finset Nat :=
  (Finset.range (n / 0x1000 + 1)).image fun i => uintptr (ptr + i * 0x1000) / 0x1000

theorem mem_regionPages (bound : i < n / 0x1000 + 1) :
    uintptr (ptr + i * 0x1000) / 0x1000 ∈ regionPages ptr n :=
  mem_image_of_mem _ (mem_range.mpr bound)

/-! ## Freeing -/

/-- Freeing a page that holds its frame alone; a kernel page may be freed only
if it was not mapped at the start. -/
theorem freePage_run (within : Within start s) (alone : Alone start touched s)
    (member : ptr / 0x1000 ∈ touched)
    (new : start.KernelPage (ptr / 0x1000) → ¬ start.Mapped (ptr / 0x1000))
    (active : s.paging.directoryOf pd = s.paging.activeDirectory) :
    ∃ t, freePage ptr pd s = .ok () t ∧ t.paging.activeDirectory = s.paging.activeDirectory ∧
      Within start t ∧ Alone start touched t := by
  unfold freePage
  rw [run_get, getPage_eq active]
  by_cases mapped : s.Mapped (ptr / 0x1000)
  · rw [if_pos mapped]
    by_cases zero : (s.entry (ptr / 0x1000)).frame = 0
    · exact ⟨s, by simp only [zero, if_true]; rfl, rfl, within, alone⟩
    · refine ⟨s.put (ptr / 0x1000) { s.entry (ptr / 0x1000) with
          present := false, rw := false, user := false, frame := 0 }
        (s.frames.writeToFrame ((s.entry (ptr / 0x1000)).frame * 0x1000) false).2,
        ?_, rfl, ?_, ?_⟩
      · simp only [zero, if_false]
        rw [pageAt_eq active]
        rfl
      · exact within.put mapped.1 (fun _ => rfl) (fun kernel before => absurd before (new kernel))
          (within.accounts_release alone member mapped rfl)
      · exact alone.put within.closed mapped.1 fun present => absurd present Bool.false_ne_true
  · rw [if_neg mapped]
    exact ⟨s, rfl, rfl, within, alone⟩

theorem directoryOf_active {t : Machine}
    (active : s.paging.directoryOf pd = s.paging.activeDirectory)
    (same : t.paging.activeDirectory = s.paging.activeDirectory) :
    t.paging.directoryOf pd = t.paging.activeDirectory := by
  unfold Paging.directoryOf at active ⊢
  rw [same]
  exact active

/-- A computation on pointers, which halts where it leaves the address space. -/
theorem ends_pointer {result : Except Stop Nat} {next : Nat → Kernel α}
    (rest : ∀ value, result = .ok value → Ends (next value) s post stopped) (halts : stopped s) :
    Ends (MonadExcept.ofExcept result >>= next) s post stopped := by
  cases result with
  | ok value => exact rest value rfl
  | error stop => exact .of_error rfl halts

/-- What holds before turn `i` of freeing a range, and when the range is left half freed
at the end of the address space. -/
theorem ends_advance {next : Nat → Kernel α}
    (rest : Ends (next (uintptr (ptr + n))) s post stopped) (halts : stopped s) :
    Ends (MonadExcept.ofExcept (advance ptr n) >>= next) s post stopped :=
  ends_pointer (fun _ moved => advance_ok moved ▸ rest) halts

theorem ends_aligned {next : Nat → Kernel α}
    (rest : Ends (next (alignPage ptr)) s post stopped) (halts : stopped s) :
    Ends (MonadExcept.ofExcept (alignPointer ptr) >>= next) s post stopped :=
  ends_pointer (fun _ rounded => (alignPointer_ok rounded).1 ▸ rest) halts

/-- A loop over pages, the first of them at `ptr`. -/
theorem ends_each_page {body : Nat → Nat → Kernel Bool} {kept failed : Machine → Prop}
    (turn : ∀ i < left, ∀ t, kept t → Ends (body i (uintptr (ptr + i * 0x1000))) t
      (fun done u => if done = true then kept u else failed u) stopped)
    (halts : ∀ t, kept t → stopped t) (holds : kept s) :
    Ends (untilFalse (fun i => MonadExcept.ofExcept (advance ptr (i * 0x1000)) >>= body i) left 0) s
      (fun done u => if done = true then kept u else failed u) stopped :=
  Ends.untilFalse left 0 (fun i t _ inside kept =>
    ends_advance (turn i (by omega) t kept) (halts t kept)) holds

theorem freePages_invariant (Inv : Nat → Machine → Prop) (left : Nat) (bound : ptr < 2 ^ 32)
    (first : Inv 0 s) (turn : ∀ i < left, ptr + i * pageSize < 2 ^ 32 → ∀ s, Inv i s →
      ∃ t, freePage (ptr + i * pageSize) pd s = .ok () t ∧ Inv (i + 1) t) :
    Ends (freePages pd left ptr) s (fun _ => Inv left) fun t => ∃ i, Inv i t := by
  induction left generalizing Inv s ptr with
  | zero => exact .of_ok rfl first
  | succ left ih =>
    have next : ∀ i, ptr + pageSize + i * pageSize = ptr + (i + 1) * pageSize := fun i => by
      rw [Nat.succ_mul]
      omega
    obtain ⟨t, freed, kept⟩ := turn 0 (Nat.succ_pos left) (by omega) s first
    rw [Nat.zero_mul, Nat.add_zero] at freed
    unfold freePages
    refine .bind_ok freed ?_
    refine ends_pointer (fun ptr' moved => ?_) ⟨1, kept⟩
    unfold advance at moved
    split at moved
    · cases moved
      refine (ih (Inv <| · + 1) ‹_› kept fun i inside => ?_).mono (fun _ _ => id) ?_
      · rw [next]
        exact turn (i + 1) (Nat.succ_lt_succ inside)
      · rintro t ⟨i, kept⟩
        exact ⟨i + 1, kept⟩
    · cases moved

theorem freePages_run (within : Within start s) (alone : Alone start touched s) (left : Nat)
    (bound : ptr < 2 ^ 32)
    (visits : ∀ i < left, ptr + i * pageSize < 2 ^ 32 → (ptr + i * pageSize) / 0x1000 ∈ touched ∧
      (start.KernelPage ((ptr + i * pageSize) / 0x1000) →
        ¬ start.Mapped ((ptr + i * pageSize) / 0x1000)))
    (active : s.paging.directoryOf pd = s.paging.activeDirectory) :
    Ends (freePages pd left ptr) s (fun _ t => t.paging.activeDirectory =
      s.paging.activeDirectory ∧ Within start t ∧ Alone start touched t) (Within start) := by
  refine (freePages_invariant (fun _ t => t.paging.activeDirectory = s.paging.activeDirectory ∧
    Within start t ∧ Alone start touched t) left bound ⟨rfl, within, alone⟩ ?_).mono
      (fun _ _ => id) fun _ ⟨_, _, within, _⟩ => within
  rintro i inside below u ⟨same, within, alone⟩
  obtain ⟨t, freed, same', within', alone'⟩ := freePage_run within alone
    (visits i inside below).1 (visits i inside below).2 (directoryOf_active active same)
  exact ⟨t, freed, same'.trans same, within', alone'⟩

/-! ## Allocating -/

/-- In the middle of a call that maps user pages of the directory `pd`. -/
structure Underway (start : Machine) (touched : Finset Nat) (pd : Nat) (s : Machine) : Prop where
  active : s.paging.activeDirectory = pd
  ready : Ready start touched s
  alone : Alone start touched s

/-- After such a call has failed. -/
structure Failed (start : Machine) (touched : Finset Nat) (pd : Nat) (s : Machine) : Prop where
  active : s.paging.activeDirectory = pd
  within : Within start s
  alone : Alone start touched s

/-- After a call has returned. -/
def After (start : Machine) (touched : Finset Nat) (pd : Nat) (done : Bool) (s : Machine) : Prop :=
  if done = true then Underway start touched pd s else Failed start touched pd s

section
variable (underway : Underway start touched pd s)
include underway

theorem Underway.directoryOf : s.paging.directoryOf pd = s.paging.activeDirectory := by
  rw [← underway.active]
  exact if_neg underway.ready.within.closed.current.1

theorem Underway.failed : Failed start touched pd s :=
  ⟨underway.active, underway.ready.within, underway.alone⟩

theorem allocateFrame_user (member : page ∈ touched)
    (has : s.activeTable (page / 1024) ≠ 0) (blank : (s.entry page).present = false)
    (flags : Flags) :
    Ends (allocateFrame (s.pointer page) flags.rw flags.kernel) s (After start touched pd)
      (Within start) := by
  have ready := underway.ready
  have closed := ready.within.closed
  rcases allocateFrame_run closed.small blank with ⟨frame, frames, claims, ran⟩ | ⟨_, ran⟩
  · obtain ⟨ready', keeps⟩ := ready.put_claim member { s.entry page with
        present := true, rw := flags.rw, user := !flags.kernel, frame } has
      (fun present => Bool.false_ne_true (blank.symm.trans present.2)) rfl claims
    exact .of_ok ran ⟨underway.active, ready', keeps underway.alone⟩
  · exact .of_ok ran underway.failed

theorem allocatePage_user (member : address / 0x1000 ∈ touched) (depth : Nat) (flags : Flags) :
    Ends (allocatePage (kmallocTable depth) address flags pd) s (After start touched pd)
      (Within start) := by
  have active := underway.directoryOf
  apply Ends.get_bind
  dsimp only
  rw [getPage_eq active]
  by_cases mapped : s.Mapped (address / 0x1000)
  · rw [if_pos mapped, pageAt_eq active]
    obtain ⟨ready, keeps⟩ := underway.ready.put_same member
      { s.entry (address / 0x1000) with rw := flags.rw, user := !flags.kernel } mapped.1
      ⟨fun _ => mapped, fun _ => mapped.2⟩ fun _ => rfl
    exact .of_ok rfl ⟨underway.active, ready, keeps underway.alone⟩
  · rw [if_neg mapped]
    refine (getPageAllocate_user underway.ready member active depth).bind ?_
    rintro found t (⟨rfl, tabled⟩ | ⟨u, tabled, prepared, rfl, rfl⟩)
    · exact .of_ok rfl ⟨tabled.active.trans underway.active, tabled.within,
        tabled.alone underway.alone⟩
    · obtain ⟨ready, keeps, blank⟩ := prepared.blank member mapped
      have underway' : Underway start touched pd (u.put (address / 0x1000)
          { u.entry (address / 0x1000) with present := false, user := true } u.frames) :=
        ⟨tabled.active.trans underway.active, ready, keeps (tabled.alone underway.alone)⟩
      exact allocateFrame_user underway' member prepared.has blank flags

end

theorem alignPointer_pages_le (aligned : alignPointer n = .ok m) :
    m / pageSize ≤ n / 0x1000 + 1 := by
  obtain ⟨rfl, -⟩ := alignPointer_ok aligned
  unfold alignPage nextPage uintptr pageSize
  split <;> omega

/-- The error path of a region of user pages. -/
theorem mmuFreeAddressRange_user (failed : Failed start touched pd s)
    (user : ∀ page ∈ touched, ¬ start.KernelPage page) (visits : regionPages ptr n ⊆ touched) :
    Ends (mmuFreeAddressRange ptr n pd) s (fun _ => Failed start touched pd) (Within start) := by
  have active : s.paging.directoryOf pd = s.paging.activeDirectory := by
    rw [← failed.active]
    exact if_neg failed.within.closed.current.1
  refine ends_pointer (fun length aligned => ?_) failed.within
  have inside : ∀ i < length / pageSize, uintptr ptr + i * pageSize < 2 ^ 32 →
      (uintptr ptr + i * pageSize) / 0x1000 ∈ regionPages ptr n := by
    intro i bound below
    have same : uintptr ptr + i * pageSize = uintptr (ptr + i * 0x1000) := by
      unfold uintptr pageSize at *
      omega
    rw [same]
    exact mem_regionPages (bound.trans_le (alignPointer_pages_le aligned))
  refine (freePages_run failed.within failed.alone (length / pageSize)
    (Nat.mod_lt _ (by decide)) (fun i bound below => ⟨visits (inside i bound below),
      fun kernel => absurd kernel (user _ (visits (inside i bound below)))⟩) active).mono
    (fun _ t ⟨same, within, alone⟩ => ⟨same.trans failed.active, within, alone⟩) fun _ => id

/-- A region of user pages: allocated, or given up and the pages of the range freed. -/
theorem mmuAllocateRegion_user (underway : Underway start touched pd s)
    (visits : regionPages ptr n ⊆ touched) (depth : Nat) (flags : Flags) :
    Ends (mmuAllocateRegion (kmallocTable depth) ptr n flags 0) s (After start touched pd)
      (Within start) := by
  have directory : s.paging.directoryOf 0 = pd := underway.active
  have loop : Ends (untilFalse (fun i => MonadExcept.ofExcept (advance ptr (i * 0x1000)) >>=
      fun address => allocatePage (kmallocTable depth) address flags pd) (n / 0x1000 + 1) 0) s
      (After start touched pd) (Within start) :=
    ends_each_page (fun i less t underway =>
      allocatePage_user underway (visits (mem_regionPages less)) depth flags)
      (fun _ underway => underway.ready.within) underway
  apply Ends.get_bind
  rw [directory]
  refine loop.bind ?_
  rintro (_ | _) t result
  · exact (mmuFreeAddressRange_user result underway.ready.user visits).bind fun _ u failed =>
      .of_ok rfl failed
  · exact .of_ok rfl result

/-! ## Mapping the frames of an object -/

/-- In the middle of mapping an object into user pages of the directory `pd`. -/
structure Sharing (start : Machine) (touched : Finset Nat) (pd : Nat) (s : Machine) : Prop where
  active : s.paging.activeDirectory = pd
  ready : Ready start touched s
  grows : ∀ frame, start.frames.used frame = true → s.frames.used frame = true

/-- One page of an object whose frames are in use or have no bit. -/
theorem mmuMapPhysical_user (sharing : Sharing start touched pd s)
    (member : dst / 0x1000 ∈ touched)
    (held : start.frames.Tracked (physical / 0x1000) → start.frames.used (physical / 0x1000) = true)
    (depth : Nat) :
    Ends (mmuMapPhysical (kmallocTable depth) dst 0 physical 0x1000) s
      (fun done t => if done = true then Sharing start touched pd t else Within start t)
      (Within start) := by
  have directory : s.paging.directoryOf 0 = pd := sharing.active
  have active : s.paging.directoryOf pd = s.paging.activeDirectory := by
    rw [← sharing.active]
    exact if_neg sharing.ready.within.closed.current.1
  have one : alignPage 0x1000 / 0x1000 = 1 := by decide
  apply Ends.get_bind
  rw [directory]
  refine ends_aligned ?_ sharing.ready.within
  simp only [one]
  unfold mapPages
  refine (getPageAllocate_user sharing.ready member active depth).bind ?_
  rintro found t (⟨rfl, tabled⟩ | ⟨u, tabled, prepared, rfl, rfl⟩)
  · have nothing : mmuFreeAddressRange dst (uintptr (0 * 0x1000)) pd t = .ok () t := by
      unfold mmuFreeAddressRange alignPointer
      rfl
    exact .bind_ok nothing (.of_ok rfl tabled.within)
  · have grows : ∀ frame, start.frames.used frame = true → u.frames.used frame = true :=
      fun frame used => tabled.grows frame (sharing.grows frame used)
    have held' : u.frames.Tracked (physical / 0x1000) → u.frames.used (physical / 0x1000) = true := by
      intro tracked
      unfold Frames.Tracked at tracked
      rw [tabled.within.length] at tracked
      exact grows _ (held tracked)
    have ready := prepared.ready.put_object member { u.entry (dst / 0x1000) with
      present := true, rw := true, user := true, frame := physical / 0x1000 } prepared.has rfl held'
    refine .bind_ok (modify_put fun page =>
      { page with present := true, rw := true, user := true, frame := physical / pageSize }) ?_
    refine .bind_ok (writeToFrame_put (Frames.writeToFrame_on_held held')) ?_
    refine ends_advance (ends_advance ?_ ready.within) ready.within
    exact .of_ok rfl ⟨tabled.active.trans sharing.active, ready, grows⟩

/-! ## Growing the heap -/

/-- The number of pages by which `ksbrk(size, …)` moves the end of the heap. -/
def heapGrowth (s : Machine) (size : Nat) : Nat :=
  uintptr (alignPage (uintptr (s.dataEnd + size)) + 2 ^ 32 - alignPage s.dataEnd) / pageSize

/-- In the middle of mapping `count` heap pages from `first` on: either none of
them was mapped at the start, or there are frames for all that are left. -/
structure Growing (start : Machine) (first count pd i : Nat) (s : Machine) : Prop where
  active : s.paging.activeDirectory = pd
  within : Within start s
  kernel : ∀ j < count, start.KernelPage (first + j)
  frames : (∀ j < count, ¬ start.Mapped (first + j)) ∧
      Alone start ((Finset.range count).image (first + ·)) s ∨ count ≤ s.frames.free + i

/-- After the mapping of heap pages has failed: none was mapped at the start. -/
structure Ungrown (start : Machine) (first count pd : Nat) (s : Machine) : Prop where
  active : s.paging.activeDirectory = pd
  within : Within start s
  unmapped : ∀ j < count, ¬ start.Mapped (first + j)
  alone : Alone start ((Finset.range count).image (first + ·)) s

section
variable (growing : Growing start first count pd i s) (inside : i < count)
include growing inside

/-- A heap page gets a frame that was not in use. -/
theorem Growing.put (present : value.present = true) (shut : value.user = false)
    (claims : Frames.Claims s.frames frames value.frame) :
    Growing start first count pd (i + 1) (s.put (first + i) value frames) := by
  have within := growing.within
  have has := within.closed.has_table (within.kernelPage.mpr (growing.kernel i inside))
  refine ⟨growing.active, within.put has (fun _ => shut) (fun _ _ => present)
    (within.accounts claims.length (fun _ => claims.grows) fun _ _ => claims.own),
    growing.kernel, ?_⟩
  rcases growing.frames with ⟨unmapped, alone⟩ | enough
  · exact .inl ⟨unmapped, alone.put within.closed has fun _ =>
      .inr (within.unheld claims.tracked claims.clear)⟩
  · have free := claims.free
    exact .inr (show count ≤ frames.free + (i + 1) by omega)

theorem sharedPage_heap (here : uintptr (rc + i * 0x1000) / 0x1000 = first + i) (source :
    TableSource) :
    Ends (sharedPage source rc i) s
      (fun done t => if done = true then Growing start first count pd (i + 1) t
        else Ungrown start first count pd t) (Within start) := by
  have within := growing.within
  have closed := within.closed
  have kernel := growing.kernel i inside
  have has : s.activeTable (uintptr (rc + i * 0x1000) / 0x1000 / 1024) ≠ 0 := by
    rw [here]
    exact closed.has_table (within.kernelPage.mpr kernel)
  refine ends_advance (.bind_ok (getPageAllocate_has (if_pos rfl) closed.current.1 has) ?_) within
  rw [here] at has ⊢
  apply Ends.get_bind
  rw [page_put]
  have blank : ((s.put (first + i) { s.entry (first + i) with present := false, user := false }
      s.frames).entry (first + i)).present = false := by
    rw [entry_put closed has, if_pos rfl]
  rcases allocateFrame_run (show (s.put (first + i) { s.entry (first + i) with
      present := false, user := false } s.frames).frames.words.length ≤ 2 ^ 15 from closed.small)
    blank with ⟨frame, frames, claims, ran⟩ | ⟨nothing, ran⟩
  · rw [put_put] at ran
    exact .of_ok ran (growing.put inside rfl rfl claims)
  · rcases growing.frames with ⟨unmapped, alone⟩ | enough
    · refine .of_ok ran ⟨growing.active, ?_, unmapped, ?_⟩
      · exact within.put has (fun _ => rfl) (fun _ mapped => absurd mapped (unmapped i inside))
          (within.accounts rfl (fun _ => id) fun present => absurd present Bool.false_ne_true)
      · exact alone.put closed has fun present => absurd present Bool.false_ne_true
    · have none : s.frames.free = 0 := nothing
      omega

end

/-- The pages of a heap region: mapped, or given up and freed. -/
theorem mmuAllocateSharedKernelRegion_heap
    (growing : Growing start first (n / pageSize + 1) pd 0 s) (bound : rc < 2 ^ 32)
    (places : ∀ i ≤ n / pageSize, uintptr (rc + i * 0x1000) / 0x1000 = first + i)
    (source : TableSource) :
    Ends (mmuAllocateSharedKernelRegion source rc n) s (fun _ => Within start) (Within start) := by
  have loop : Ends (untilFalse (sharedPage source rc) (n / pageSize + 1) 0) s
      (fun done t => if done = true
        then Growing start first (n / pageSize + 1) pd (0 + (n / pageSize + 1)) t
        else Ungrown start first (n / pageSize + 1) pd t) (Within start) :=
    Ends.untilFalse _ 0 (fun i t _ inside growing => sharedPage_heap growing (by omega)
      (places i (by omega)) source) growing
  refine loop.bind ?_
  rintro (_ | _) t result
  · have ungrown : Ungrown start first (n / pageSize + 1) pd t := result
    suffices freed : Ends (mmuFreeAddressRange rc n 0) t (fun _ => Within start) (Within start) from
      freed.bind fun _ _ within => .of_ok rfl within
    refine ends_pointer (fun length aligned => ?_) ungrown.within
    rw [show uintptr rc = rc from Nat.mod_eq_of_lt bound]
    refine (freePages_run ungrown.within ungrown.alone (length / pageSize) bound
      (fun i inside below => ?_) (if_pos rfl)).mono (fun _ _ ⟨_, within, _⟩ => within) fun _ => id
    have low : i < n / pageSize + 1 := inside.trans_le (alignPointer_pages_le aligned)
    have place := places i (by omega)
    rw [show uintptr (rc + i * 0x1000) = rc + i * pageSize from Nat.mod_eq_of_lt below] at place
    rw [place]
    exact ⟨mem_image_of_mem _ (mem_range.mpr low), fun _ => ungrown.unmapped i low⟩
  · have grown : Growing start first (n / pageSize + 1) pd _ t := result
    exact .of_ok rfl grown.within

theorem Within.moved (within : Within start s) (newEnd : Nat)
    (later : alignPage s.dataEnd ≤ alignPage newEnd) :
    Within start { s with dataEnd := newEnd } :=
  have closed := within.closed
  ⟨⟨closed.current, closed.shared, closed.apart, closed.shut, closed.marked, closed.small,
    fun slot => (closed.below slot).trans_le later⟩,
    within.tables, within.length, within.mapped, within.owned, within.intact⟩

/-- Without a wrap-around the new end of the heap is not below the old one. -/
theorem Room.later (room : s.Room (s.heapGrowth size + 1) others) :
    alignPage s.dataEnd ≤ alignPage (uintptr (s.dataEnd + size)) := by
  have inside := room.inside
  by_contra earlier
  unfold heapGrowth uintptr pageSize at *
  omega

/-- Growing the heap of the kernel within the room there is. -/
theorem ksbrk_heap (closed : s.Sealed) (room : s.Room (s.heapGrowth size + 1) 0)
    (source : TableSource) : Ends (ksbrk source size false) s (fun _ => Within s) (Within s) := by
  have later := room.later
  have inside := room.inside
  have aligned := alignPage_mod s.dataEnd
  have aligned' := alignPage_mod (uintptr (s.dataEnd + size))
  have table := room.first_table
  have places : ∀ i ≤ s.heapGrowth size,
      uintptr (alignPage s.dataEnd + i * 0x1000) / 0x1000 = s.heapPage + i := by
    intro i bound
    unfold heapPage heapGrowth uintptr pageSize at *
    omega
  have moved : Ends (moveDataEnd size) s
      (fun _ t => t = { s with dataEnd := alignPage (uintptr (s.dataEnd + size)) }) (Within s) := by
    refine .bind_ok rfl (Ends.get_bind ?_)
    exact ends_aligned (.of_ok rfl rfl) (closed.within.moved _ later)
  refine Ends.get_bind (ends_aligned ?_ closed.within)
  rw [if_neg closed.current.1, if_neg table]
  refine Ends.get_bind (ends_aligned (moved.bind ?_) closed.within)
  rintro _ _ rfl
  apply Ends.get_bind
  rw [if_neg Bool.false_ne_true]
  have growing : Growing s s.heapPage (s.heapGrowth size + 1) s.paging.activeDirectory 0
      { s with dataEnd := alignPage (uintptr (s.dataEnd + size)) } := by
    refine ⟨rfl, closed.within.moved _ ?_, fun j bound => (room.tables j bound).1, ?_⟩
    · rw [alignPage_aligned aligned']
      exact later
    · rcases room.frames with clear | enough
      · refine .inl ⟨clear, fun page member mapped => ?_⟩
        obtain ⟨j, bound, rfl⟩ := mem_image.mp member
        exact absurd mapped (clear j (mem_range.mp bound))
      · exact .inr (by show _ ≤ s.frames.free + 0; omega)
  have low : alignPage s.dataEnd < 2 ^ 32 := by omega
  refine (mmuAllocateSharedKernelRegion_heap growing low places source).bind ?_
  rintro (_ | _) t within
  · exact .of_ok rfl within
  · refine .bind_ok (kassert_true (by simp [aligned])) (.of_ok rfl within)

end SbOS.Mmu.Machine
