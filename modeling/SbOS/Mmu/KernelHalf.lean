import SbOS.Mmu.UserMemory

/-! The kernel half of memory: the pages of the tables in `kernel_directory`,
which every process shares. `KernelClosed` says that a step keeps it closed to
user mode, mapped and unwritten; `Sealed` is the state of page tables and frame
bitmap from which the calls keep it so. Pages are named by their numbers, as the
running process sees them. -/
namespace SbOS.Mmu.Machine
open Bool Finset

def kernelTable (s : Machine) (slot : Nat) : Nat :=
  (s.paging.directory s.paging.kernelDirectory).tables slot

def activeTable (s : Machine) (slot : Nat) : Nat :=
  (s.paging.directory s.paging.activeDirectory).tables slot

/-- A page of a table in `kernel_directory`. -/
def KernelPage (s : Machine) (page : Nat) : Prop := s.kernelTable (page / 1024) ≠ 0

/-- The entry of a page in the running process's tables. -/
def entry (s : Machine) (page : Nat) : Page :=
  s.paging.pageTable (s.activeTable (page / 1024)) (page % 1024)

/-- The entry of a kernel page. -/
def kernelEntry (s : Machine) (page : Nat) : Page :=
  s.paging.pageTable (s.kernelTable (page / 1024)) (page % 1024)

def Mapped (s : Machine) (page : Nat) : Prop :=
  s.activeTable (page / 1024) ≠ 0 ∧ (s.entry page).present = true

instance (s : Machine) (page : Nat) : Decidable (s.KernelPage page) :=
  inferInstanceAs (Decidable (_ ≠ _))

instance (s : Machine) (page : Nat) : Decidable (s.Mapped page) :=
  inferInstanceAs (Decidable (_ ∧ _))

/-- Between two states no kernel page was opened to user mode, unmapped or
freed, and no byte of kernel memory was written. -/
structure KernelClosed (before after : Machine) : Prop where
  shut : ∀ page, after.KernelPage page → (after.kernelEntry page).user = false
  mapped : ∀ page, before.KernelPage page → (before.kernelEntry page).present = true →
    after.kernelTable (page / 1024) = before.kernelTable (page / 1024) ∧
    after.activeTable (page / 1024) = before.kernelTable (page / 1024) ∧
    (after.kernelEntry page).present = true
  owned : ∀ page, before.KernelPage page → (before.kernelEntry page).present = true →
    before.frames.used (before.kernelEntry page).frame = true →
    after.frames.used (before.kernelEntry page).frame = true
  intact : ∀ page, before.KernelPage page → (before.kernelEntry page).present = true →
    after.paging.ram (before.kernelEntry page).frame =
      before.paging.ram (before.kernelEntry page).frame

/-- The page tables of a running process and the frame bitmap agree with each
other, and no kernel page is open to user mode. -/
structure Sealed (s : Machine) : Prop where
  current : s.paging.activeDirectory ≠ 0 ∧ s.paging.activeDirectory ≠ s.paging.kernelDirectory
  shared : ∀ slot, s.kernelTable slot ≠ 0 → s.activeTable slot = s.kernelTable slot
  apart : ∀ slot other, s.activeTable slot ≠ 0 → s.activeTable other = s.activeTable slot →
    other = slot
  shut : ∀ page, s.KernelPage page → (s.entry page).user = false
  marked : ∀ page, s.Mapped page → s.frames.Tracked (s.entry page).frame →
    s.frames.used (s.entry page).frame = true
  small : s.frames.words.length ≤ 2 ^ 15
  below : ∀ slot, s.activeTable slot < alignPage s.dataEnd

/-- Where a call that began in `start` may have brought the machine. -/
structure Within (start s : Machine) : Prop where
  closed : s.Sealed
  tables : s.kernelTable = start.kernelTable
  length : s.frames.words.length = start.frames.words.length
  mapped : ∀ page, start.KernelPage page → start.Mapped page → s.Mapped page
  owned : ∀ page, start.KernelPage page → start.Mapped page →
    s.frames.Tracked (start.entry page).frame → s.frames.used (start.entry page).frame = true
  intact : ∀ page, start.KernelPage page → start.Mapped page →
    s.paging.ram (start.entry page).frame = start.paging.ram (start.entry page).frame

/-- The mapped pages among `touched` hold frames of their own, and none that a
kernel page held in `start`. -/
def Alone (start : Machine) (touched : Finset Nat) (s : Machine) : Prop :=
  ∀ page ∈ touched, s.Mapped page →
    (∀ other, s.Mapped other → (s.entry other).frame = (s.entry page).frame → other = page) ∧
    ∀ kernel, start.KernelPage kernel → start.Mapped kernel →
      (start.entry kernel).frame ≠ (s.entry page).frame

/-- The first page of the heap that has not been handed out. -/
def heapPage (s : Machine) : Nat := alignPage s.dataEnd / pageSize

/-- The kernel heap can take `count` page tables without a kernel table of its
own, and either its next pages are not mapped yet or there are frames for them
and for `others` more pages. -/
structure Room (s : Machine) (count others : Nat) : Prop where
  inside : alignPage s.dataEnd + count * pageSize ≤ 0xFFC00000
  tables : ∀ j < count, s.KernelPage (s.heapPage + j) ∧
    s.kernelTable (1 + (s.heapPage + j) / 1024) ≠ 0
  frames : (∀ j < count, ¬ s.Mapped (s.heapPage + j)) ∨ others + count ≤ s.frames.free

/-- How many page tables the pages lack. -/
def missing (s : Machine) (touched : Finset Nat) : Nat :=
  ((touched.image (· / 1024)).filter fun slot => s.activeTable slot = 0).card

/-- How many of the pages are not mapped. -/
def unmapped (s : Machine) (touched : Finset Nat) : Nat :=
  (touched.filter fun page => ¬ s.Mapped page).card

variable {start s : Machine} {page : Nat}

section
variable (closed : s.Sealed) (kernel : s.KernelPage page)
include closed kernel

theorem Sealed.entry_kernel : s.entry page = s.kernelEntry page := by
  unfold entry kernelEntry
  rw [closed.shared _ kernel]

theorem Sealed.mapped_kernel : s.Mapped page ↔ (s.kernelEntry page).present = true := by
  unfold Mapped
  rw [closed.entry_kernel kernel, closed.shared _ kernel]
  exact and_iff_right kernel

/-- A kernel page has a table in the running process's directory. -/
theorem Sealed.has_table : s.activeTable (page / 1024) ≠ 0 := by
  rw [closed.shared _ kernel]
  exact kernel

end

/-- A call may always have done nothing. -/
theorem Sealed.within (closed : s.Sealed) : Within s s :=
  ⟨closed, rfl, rfl, fun _ _ mapped => mapped,
    fun page _ mapped tracked => closed.marked page mapped tracked, fun _ _ _ => rfl⟩

theorem Within.kernelPage (within : Within start s) : s.KernelPage page ↔ start.KernelPage page := by
  unfold KernelPage
  rw [within.tables]

/-- What a call may do leaves the kernel half closed. -/
theorem Within.kernelClosed (within : Within start s) (closed : start.Sealed) :
    KernelClosed start s where
  shut page kernel := by
    rw [← within.closed.entry_kernel kernel]
    exact within.closed.shut page kernel
  mapped page kernel present := by
    have mapped := within.mapped page kernel ((closed.mapped_kernel kernel).mpr present)
    have kernel' := within.kernelPage.mpr kernel
    refine ⟨congrFun within.tables _, ?_, (within.closed.mapped_kernel kernel').mp mapped⟩
    rw [within.closed.shared _ kernel', within.tables]
  owned page kernel present used := by
    have mapped := (closed.mapped_kernel kernel).mpr present
    rw [← closed.entry_kernel kernel] at used ⊢
    refine within.owned page kernel mapped ?_
    unfold Frames.Tracked
    rw [within.length]
    by_contra outside
    rw [Frames.used, Bitmap.test_outside (Nat.not_lt.mp outside)] at used
    exact false_ne_true used
  intact page kernel present := by
    rw [← closed.entry_kernel kernel]
    exact within.intact page kernel ((closed.mapped_kernel kernel).mpr present)

/-! ## Changing one entry -/

/-- The machine with a new entry for a page and a new frame bitmap. -/
def put (s : Machine) (page : Nat) (value : Page) (frames : Frames) : Machine :=
  { s with
    paging := s.paging.setPage ⟨s.activeTable (page / 1024), page % 1024⟩ value
    frames }

variable {value : Page} {frames : Frames} {touched : Finset Nat}

@[simp] theorem activeTable_put : (s.put page value frames).activeTable = s.activeTable := rfl

section
variable (closed : s.Sealed) (has : s.activeTable (page / 1024) ≠ 0) (other : Nat)
include closed has other

theorem entry_put :
    (s.put page value frames).entry other = if other = page then value else s.entry other := by
  show (if s.activeTable (other / 1024) = s.activeTable (page / 1024) ∧
    other % 1024 = page % 1024 then value else _) = _
  by_cases same : other = page
  · subst same
    rw [if_pos ⟨rfl, rfl⟩, if_pos rfl]
  · rw [if_neg, if_neg same]
    · rfl
    rintro ⟨table, index⟩
    have slot := closed.apart _ _ has table
    omega

theorem mapped_put :
    (s.put page value frames).Mapped other ↔
      if other = page then value.present = true else s.Mapped other := by
  unfold Mapped
  rw [entry_put closed has, activeTable_put]
  by_cases same : other = page
  · subst same
    simp [has]
  · simp [same]

end

/-- The bits that a change of one entry must leave set: those of the frames of
the other pages, of the new entry and of the kernel pages at the start. -/
structure Accounts (start s : Machine) (page : Nat) (value : Page) (frames : Frames) : Prop where
  length : frames.words.length = s.frames.words.length
  others : ∀ other, other ≠ page → s.Mapped other → s.frames.Tracked (s.entry other).frame →
    frames.used (s.entry other).frame = true
  own : value.present = true → s.frames.Tracked value.frame → frames.used value.frame = true
  kernel : ∀ other, start.KernelPage other → start.Mapped other →
    s.frames.Tracked (start.entry other).frame → frames.used (start.entry other).frame = true

theorem Within.put (within : Within start s) (has : s.activeTable (page / 1024) ≠ 0)
    (shut : start.KernelPage page → value.user = false)
    (stays : start.KernelPage page → start.Mapped page → value.present = true)
    (accounts : Accounts start s page value frames) : Within start (s.put page value frames) := by
  have closed := within.closed
  have tracked : (s.put page value frames).frames.Tracked = s.frames.Tracked := by
    funext frame
    exact congrArg (frame / 32 < ·) accounts.length
  refine ⟨⟨closed.current, closed.shared, closed.apart, ?_, ?_, ?_, closed.below⟩,
    within.tables, accounts.length.trans within.length, ?_, ?_, within.intact⟩
  · intro other kernel
    rw [entry_put closed has]
    split
    · rename_i same
      subst same
      exact shut (within.kernelPage.mp kernel)
    · exact closed.shut other kernel
  · intro other mapped
    rw [entry_put closed has, tracked]
    rw [mapped_put closed has] at mapped
    split
    · rename_i same
      rw [if_pos same] at mapped
      exact accounts.own mapped
    · rename_i different
      rw [if_neg different] at mapped
      exact accounts.others other different mapped
  · rw [show (s.put page value frames).frames = frames from rfl, accounts.length]
    exact closed.small
  · intro other kernel mapped
    rw [mapped_put closed has]
    split
    · rename_i same
      subst same
      exact stays kernel mapped
    · exact within.mapped other kernel mapped
  · intro other kernel mapped
    rw [tracked]
    exact accounts.kernel other kernel mapped

/-- Bits that are only ever set account for the frames held before. -/
theorem Within.accounts (within : Within start s)
    (length : frames.words.length = s.frames.words.length)
    (grows : ∀ frame, s.frames.used frame = true → frames.used frame = true)
    (own : value.present = true → s.frames.Tracked value.frame → frames.used value.frame = true) :
    Accounts start s page value frames :=
  ⟨length, fun other _ mapped tracked => grows _ (within.closed.marked other mapped tracked), own,
    fun other kernel mapped tracked => grows _ (within.owned other kernel mapped tracked)⟩

/-- Releasing the frame of a page that holds it alone accounts for the others. -/
theorem Within.accounts_release (within : Within start s) (alone : Alone start touched s)
    (member : page ∈ touched) (mapped : s.Mapped page) (gone : value.present = false) :
    Accounts start s page value
      (s.frames.writeToFrame ((s.entry page).frame * 0x1000) false).2 := by
  obtain ⟨lone, free⟩ := alone page member mapped
  obtain ⟨length, bits⟩ := s.frames.writeToFrame_off (s.entry page).frame
  refine ⟨length, fun other different present tracked => ?_, fun present => ?_,
    fun other kernel present tracked => ?_⟩
  · rw [bits _ fun same => different (lone other present same)]
    exact within.closed.marked other present tracked
  · rw [gone] at present
    exact absurd present false_ne_true
  · rw [bits _ (free other kernel present)]
    exact within.owned other kernel present tracked

/-- A change of one entry leaves the frames of `touched` to their pages when the
new entry is not present, keeps its frame, or takes one that no page holds and
none of the kernel held. -/
theorem Alone.put (alone : Alone start touched s) (closed : s.Sealed)
    (has : s.activeTable (page / 1024) ≠ 0)
    (fresh : value.present = true → (s.Mapped page ∧ value.frame = (s.entry page).frame) ∨
      ((∀ other, s.Mapped other → (s.entry other).frame ≠ value.frame) ∧
        ∀ kernel, start.KernelPage kernel → start.Mapped kernel →
          (start.entry kernel).frame ≠ value.frame)) :
    Alone start touched (s.put page value frames) := by
  intro first member mapped
  rw [mapped_put closed has] at mapped
  rw [entry_put closed has]
  by_cases here : first = page
  · subst here
    rw [if_pos rfl] at mapped ⊢
    refine ⟨fun other present same => ?_, ?_⟩
    · by_contra different
      rw [mapped_put closed has, if_neg different] at present
      rw [entry_put closed has, if_neg different] at same
      rcases fresh mapped with ⟨before, kept⟩ | ⟨unheld, _⟩
      · exact different ((alone first member before).1 other present (same.trans kept))
      · exact unheld other present same
    · rcases fresh mapped with ⟨before, kept⟩ | ⟨_, unheld⟩
      · rw [kept]
        exact (alone first member before).2
      · exact unheld
  · rw [if_neg here] at mapped ⊢
    refine ⟨fun other present same => ?_, (alone first member mapped).2⟩
    rw [mapped_put closed has] at present
    rw [entry_put closed has] at same
    by_cases changed : other = page
    · subst changed
      rw [if_pos rfl] at present same
      rcases fresh present with ⟨before, kept⟩ | ⟨unheld, _⟩
      · exact (alone first member mapped).1 other before (kept.symm.trans same)
      · exact absurd same.symm (unheld first mapped)
    · rw [if_neg changed] at present same
      exact (alone first member mapped).1 other present same

/-- A frame that is not in use is held by no page, and was held by no kernel
page at the start. -/
theorem Within.unheld (within : Within start s) (tracked : s.frames.Tracked frame)
    (clear : s.frames.used frame = false) :
    (∀ other, s.Mapped other → (s.entry other).frame ≠ frame) ∧
      ∀ kernel, start.KernelPage kernel → start.Mapped kernel →
        (start.entry kernel).frame ≠ frame := by
  constructor
  · rintro other mapped rfl
    exact false_ne_true (clear.symm.trans (within.closed.marked other mapped tracked))
  · rintro kernel page mapped rfl
    exact false_ne_true (clear.symm.trans (within.owned kernel page mapped tracked))

/-! ## What one change does to the room there is -/

section
variable (closed : s.Sealed) (has : s.activeTable (page / 1024) ≠ 0)
include closed has

theorem unmapped_put_absent (same : value.present = true ↔ s.Mapped page) :
    (s.put page value frames).unmapped touched = s.unmapped touched := by
  unfold unmapped
  congr 1
  refine filter_congr fun other _ => ?_
  rw [mapped_put closed has]
  split
  · rename_i here
    rw [here, same]
  · rfl

theorem unmapped_put_present (member : page ∈ touched) (before : ¬ s.Mapped page) (present :
    value.present = true) :
    s.unmapped touched = (s.put page value frames).unmapped touched + 1 := by
  unfold unmapped
  rw [← card_erase_add_one (mem_filter.mpr ⟨member, before⟩)]
  congr 2
  ext other
  simp only [mem_erase, mem_filter, mapped_put closed has]
  by_cases here : other = page
  · simp [here, present]
  · simp [here]

end

/-- Room for page tables is not affected by a change of an entry that is not
among the next pages of the heap, as long as there are frames. -/
theorem Room.put (room : s.Room count others) (closed : s.Sealed)
    (has : s.activeTable (page / 1024) ≠ 0) (elsewhere : ∀ j < count, s.heapPage + j ≠ page)
    (enough' : others + count ≤ s.frames.free → others' + count ≤ frames.free) :
    (s.put page value frames).Room count others' := by
  refine ⟨room.inside, room.tables, ?_⟩
  rcases room.frames with clear | enough
  · refine .inl fun j bound mapped => ?_
    have before := (mapped_put closed has _).mp mapped
    rw [if_neg (show (s.put page value frames).heapPage + j ≠ page from elsewhere j bound)] at before
    exact clear j bound before
  · exact .inr (enough' enough)

theorem Room.first_table (room : s.Room (count + 1) others) :
    (s.paging.directory s.paging.kernelDirectory).tables
      (1 + alignPage s.dataEnd / (1024 * 0x1000)) ≠ 0 := by
  rw [show alignPage s.dataEnd / (1024 * 0x1000) = (s.heapPage + 0) / 1024 by
    unfold heapPage pageSize
    omega]
  exact (room.tables 0 (Nat.succ_pos count)).2

/-- The next pages of the heap are kernel pages. -/
theorem Room.elsewhere (room : s.Room count others) (user : ¬ s.KernelPage page) :
    ∀ j < count, s.heapPage + j ≠ page := by
  rintro j bound rfl
  exact user (room.tables j bound).1

end SbOS.Mmu.Machine
