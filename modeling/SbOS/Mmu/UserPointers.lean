import Mathlib.Data.List.Range
import SbOS.Lib.Program
import SbOS.Mmu.Paging

/-! The checks the system calls make on user memory
(`mmu_is_valid_userpointer`, `mmu_is_valid_user_c_string`). The pointer check
rounds the size, not the range, to whole pages; its exact domain is
`UncheckedBytesOpen`. The string check is a scan over at most two pages that
never tests the first byte of a page. -/
namespace SbOS.Mmu

/-! ### `mmu_is_valid_userpointer` -/

/-- `num_pages` of `mmu_is_valid_userpointer`, which casts the size to a pointer. -/
def numPages (s : Nat) : Except Stop Nat := do return (← alignPointer s) / 0x1000

/-- The pages in `s` bytes laid out from a page boundary. -/
def wholePages (s : Nat) : Nat := (s + (pageSize - 1)) / pageSize

theorem numPages_eq (size : s ≤ 2 ^ 32 - pageSize) : numPages s = .ok (wholePages s) := by
  unfold numPages alignPointer advance wholePages pageSize at *
  split
  · rw [if_pos (by omega)]
    exact congrArg Except.ok (by omega)
  · exact congrArg Except.ok (by omega)

theorem numPages_stops (high : 2 ^ 32 - pageSize < s) (bound : s < 2 ^ 32) :
    numPages s = .error .overflow := by
  unfold numPages alignPointer advance pageSize at *
  rw [if_pos (by omega), if_neg (by omega)]
  rfl

namespace Paging
variable {m : Paging} {page : Nat}

/-- The loop of `mmu_is_valid_userpointer` with `n` pages left. -/
def checkPages (m : Paging) : Nat → Nat → Bool
  | 0, _ => true
  | n + 1, t =>
    match m.getPage t 0 with
    | none => false
    | some page =>
      if !page.present then false
      else if !page.user then false
      else m.checkPages n (uintptr (t + 0x1000))

/-- A rejected pointer gives `NULL`, an accepted one comes back. -/
def mmuIsValidUserpointer (m : Paging) (ptr s : Nat) : Except Stop Nat := do
  return if m.checkPages (← numPages s) ptr then ptr else 0

/-- The pages the loop looks at: it counts from the page of `ptr` and wraps
with the address. -/
theorem checkPages_iff (bound : t < 2 ^ 32) :
    m.checkPages n t = true ↔ ∀ i < n, m.UserPage ((t / pageSize + i) % 2 ^ 20) := by
  induction n generalizing t with
  | zero => simp [checkPages]
  | succ n ih =>
    have page : t / pageSize % 2 ^ 20 = t / pageSize :=
      Nat.mod_eq_of_lt (by simp only [pageSize]; omega)
    have head : m.UserPage (t / pageSize) ↔
        ∃ entry, m.getPage t 0 = some entry ∧ entry.user = true := by
      unfold UserPage
      rw [getPage_base]
      exact ⟨And.right, fun found => ⟨by simp only [pageSize]; omega, found⟩⟩
    have next : ∀ i, (uintptr (t + 0x1000) / pageSize + i) % 2 ^ 20 =
        (t / pageSize + (i + 1)) % 2 ^ 20 := by
      intro i
      simp only [uintptr, pageSize]
      omega
    have rest := @ih (uintptr (t + 0x1000)) (Nat.mod_lt _ (by decide))
    simp only [next] at rest
    have split : (∀ i < n + 1, m.UserPage ((t / pageSize + i) % 2 ^ 20)) ↔
        m.UserPage (t / pageSize) ∧ ∀ i < n, m.UserPage ((t / pageSize + (i + 1)) % 2 ^ 20) := by
      rw [Nat.forall_lt_succ_left]
      simp only [add_zero, page]
    rw [split, head]
    unfold checkPages
    cases found : m.getPage t 0 with
    | none => simp
    | some entry =>
      cases user : entry.user with
      | false => simp [user]
      | true => simp [getPage_present found, user, rest]

theorem mmuIsValidUserpointer_run (bound : ptr < 2 ^ 32) (size : s ≤ 2 ^ 32 - pageSize) :
    ∃ r, m.mmuIsValidUserpointer ptr s = .ok r ∧ (r ≠ 0 ↔ ptr ≠ 0 ∧
      ∀ i < wholePages s, m.UserPage ((ptr / pageSize + i) % 2 ^ 20)) := by
  unfold mmuIsValidUserpointer
  rw [numPages_eq size, ← checkPages_iff bound]
  refine ⟨_, rfl, ?_⟩
  cases m.checkPages (wholePages s) ptr <;> simp

/-- A range that is accepted holds no byte outside the open pages. -/
def AcceptsSoundly (m : Paging) (ptr s : Nat) : Prop :=
  ∀ r, m.mmuIsValidUserpointer ptr s = .ok r → r ≠ 0 →
    ∀ a, ptr ≤ a → a < ptr + s → m.UserByte a

/-- The kernel halts as it rounds the size, or the null pointer is rejected, or
one of the pages looked at is closed, or the range stays below the top and its
bytes behind those pages are open. -/
def UncheckedBytesOpen (m : Paging) (ptr s : Nat) : Prop :=
  2 ^ 32 - pageSize < s ∨ ptr = 0 ∨
    (∃ i < wholePages s, ¬ m.UserPage ((ptr / pageSize + i) % 2 ^ 20)) ∨
    s = 0 ∨ (ptr + s ≤ 2 ^ 32 ∧ ∀ a, ptr ≤ a → a < ptr + s →
      ptr / pageSize + wholePages s ≤ a / pageSize → m.UserByte a)

theorem userpointer_check_sound_iff (bound : ptr < 2 ^ 32) (size : s < 2 ^ 32) :
    m.AcceptsSoundly ptr s ↔ m.UncheckedBytesOpen ptr s := by
  unfold AcceptsSoundly UncheckedBytesOpen
  rcases lt_or_ge (2 ^ 32 - pageSize) s with high | low
  · refine iff_of_true (fun r ran => ?_) (.inl high)
    rw [mmuIsValidUserpointer, numPages_stops high size] at ran
    cases ran
  rw [or_iff_right (not_lt.mpr low)]
  obtain ⟨r, ran, accepts⟩ := m.mmuIsValidUserpointer_run bound low
  simp only [ran, Except.ok.injEq, forall_eq', accepts]
  constructor
  · intro sound
    by_cases null : ptr = 0
    · exact .inl null
    by_cases checked : ∀ i < wholePages s, m.UserPage ((ptr / pageSize + i) % 2 ^ 20)
    · have opened := sound ⟨null, checked⟩
      by_cases empty : s = 0
      · exact .inr (.inr (.inl empty))
      -- the last byte is open, so it lies below the top
      have last := (opened (ptr + s - 1) (by omega) (by omega)).1
      simp only [pageSize] at last
      exact .inr (.inr (.inr ⟨by omega, fun a low high _ => opened a low high⟩))
    · push Not at checked
      exact .inr (.inl checked)
  · rintro (null | ⟨i, inside, closed⟩ | empty | ⟨top, opened⟩) ⟨given, checked⟩ a low high
    · exact absurd null given
    · exact absurd (checked i inside) closed
    · omega
    · by_cases seen : a / pageSize < ptr / pageSize + wholePages s
      · have below : ptr / pageSize ≤ a / pageSize := Nat.div_le_div_right low
        have page := checked (a / pageSize - ptr / pageSize) (by omega)
        have same : (ptr / pageSize + (a / pageSize - ptr / pageSize)) % 2 ^ 20 =
            a / pageSize := by
          rw [Nat.add_sub_cancel' below]
          exact Nat.mod_eq_of_lt (by simp only [pageSize]; omega)
        rwa [same] at page
      · exact opened a low high (by omega)

end Paging

/-- One directory whose page number `page` is present, and open where `user`
says so. -/
def identityPaging (user : Nat → Bool) (ram : Nat → Bytes) : Paging where
  pageTable table index :=
    { present := true, user := user ((table - 1) * 1024 + index),
      frame := (table - 1) * 1024 + index }
  directory _ := { tables := fun index => index + 1, physicalTables := fun _ => 0 }
  kernelDirectory := 1
  activeDirectory := 1
  ram := ram

/-- A range that fits the page it begins in. -/
theorem userpointer_check_sound_iff_page :
    (identityPaging (fun page => page == 1) fun _ => Bytes.zeros).AcceptsSoundly 0x1800 0x800 :=
  (Paging.userpointer_check_sound_iff (by decide) (by decide)).mpr <| by
    refine .inr (.inr (.inr (.inr ⟨by decide, fun a low high behind => ?_⟩)))
    rw [show wholePages 0x800 = 1 by decide] at behind
    simp only [pageSize] at behind
    omega

/-- Two bytes over a page boundary: one page is looked at, and the range is
accepted although its second byte is closed to user mode. -/
theorem straddling_range_is_accepted :
    ¬ (identityPaging (fun page => page == 1) fun _ => Bytes.zeros).AcceptsSoundly 0x1fff 2 := by
  intro sound
  exact absurd (sound 0x1fff (by decide +kernel) (by decide) 0x2000 (by decide) (by decide))
    (by decide)

namespace Paging

/-! ### `mmu_is_valid_user_c_string` -/

/-- The inner loop: the size at the first NUL, or the position and the count at
the end of the page. -/
def scanPage (m : Paging) (ptr s : Nat) : Except Stop (Nat ⊕ Nat × Nat) :=
  if ptr % pageSize = 0 then .ok (.inr (ptr, s))
  else
    match m.load ptr with
    | none => .error .pageFault
    | some byte =>
      if byte = 0 then .ok (.inl s)
      else if 2 ^ 32 ≤ ptr + 1 then .error .overflow
      else m.scanPage (ptr + 1) (uintptr (s + 1))
termination_by (pageSize - ptr % pageSize) % pageSize
decreasing_by
  simp only [pageSize] at *
  omega

/-- The outer loop, with a bound on its passes. -/
def cStringPasses (m : Paging) (r : Nat) : Nat → Nat → Nat → Except Stop (Nat × Option Nat)
  | 0, _, _ => .error .diverged
  | passes + 1, ptr, s =>
    if uintptr (ptr + 2 ^ 32 - r) < 0x1000 then do
      let page := ptr / pageSize * pageSize
      if (← m.mmuIsValidUserpointer page pageSize) = 0 then return (0, none)
      else
        -- the first byte of a page is stepped over without a look
        let aligned := ptr % pageSize = 0
        let start := if aligned then ptr + 1 else ptr
        let s := if aligned then uintptr (s + 1) else s
        match ← m.scanPage start s with
        | .inl size => return (r, some size)
        | .inr (ptr, s) => m.cStringPasses r passes ptr s
    else .error .assertion

/-- The pointer or `NULL`, and the size stored through the second argument.
Every pass moves forward, and the loop ends `0x1000` bytes on. -/
def mmuIsValidUserCString (m : Paging) (ptr : Nat) : Except Stop (Nat × Option Nat) :=
  m.cStringPasses ptr 0x1000 ptr 0

abbrev IsNul (m : Paging) (address : Nat) : Prop := m.load address = some 0

/-- The bytes in `[start, stop)` are not NUL. -/
abbrev Clear (m : Paging) (start stop : Nat) : Prop := ∀ a, start ≤ a → a < stop → ¬ m.IsNul a

/-- A string of `n` bytes at `ptr` that lies with its terminator in open pages. -/
structure StringAt (m : Paging) (ptr n : Nat) : Prop where
  clear : m.Clear ptr (ptr + n)
  nul : m.IsNul (ptr + n)
  opened : ∀ a, ptr ≤ a → a ≤ ptr + n → m.UserByte a

variable {m : Paging} {page : Nat}

/-- The bytes of a page behind its first one. -/
theorem behind_start (start : page * pageSize < a) (inside : a < (page + 1) * pageSize) :
    a / pageSize = page ∧ a % pageSize ≠ 0 := by
  simp only [pageSize] at *
  omega

section
variable (opened : m.UserPage page)
include opened

theorem below_top (inside : a < (page + 1) * pageSize) : a < 2 ^ 32 := by
  have bound := opened.1
  simp only [pageSize] at *
  omega

section
variable (start : page * pageSize < ptr)
include start

/-- A byte that is not NUL and not the last one of the address space. -/
theorem scanPage_step (inside : ptr < (page + 1) * pageSize) (other : ¬ m.IsNul ptr) :
    m.scanPage ptr s = if 2 ^ 32 ≤ ptr + 1 then .error .overflow
      else m.scanPage (ptr + 1) (uintptr (s + 1)) := by
  obtain ⟨number, unaligned⟩ := behind_start start inside
  obtain ⟨byte, loaded⟩ := load_of_userByte (show m.UserByte ptr by
    unfold UserByte
    rwa [number])
  have nonzero : byte ≠ 0 := by
    rintro rfl
    exact other loaded
  rw [scanPage, if_neg unaligned, loaded]
  simp only [nonzero, if_false]

theorem scanPage_clear (inside : ptr + n ≤ (page + 1) * pageSize) (low : ptr + n < 2 ^ 32)
    (clear : m.Clear ptr (ptr + n)) (small : s + n < 2 ^ 32) :
    m.scanPage ptr s = m.scanPage (ptr + n) (s + n) := by
  induction n with
  | zero => rfl
  | succ n ih =>
    have before := ih (by omega) (by omega) (fun a low high => clear a low (by omega)) (by omega)
    rw [before, scanPage_step opened (by omega) (by omega) (clear (ptr + n) (by omega) (by omega)),
      if_neg (by omega), show uintptr (s + n + 1) = s + n + 1 from Nat.mod_eq_of_lt small]
    rfl

theorem scanPage_nul (low : ptr ≤ nul)
    (inside : nul < (page + 1) * pageSize) (clear : m.Clear ptr nul) (found : m.IsNul nul)
    (small : s + (nul - ptr) < 2 ^ 32) : m.scanPage ptr s = .ok (.inl (s + (nul - ptr))) := by
  have whole : ptr + (nul - ptr) = nul := by omega
  have unaligned := (behind_start (show page * pageSize < nul by omega) inside).2
  rw [scanPage_clear (n := nul - ptr) opened start (by omega)
    (by rw [whole]; exact below_top opened inside) (by rwa [whole]) small, whole, scanPage,
    if_neg unaligned, found]
  rfl

section
variable (here : ptr < (page + 1) * pageSize) (clear : m.Clear ptr ((page + 1) * pageSize))
include here clear

theorem scanPage_end (more : page + 1 < 2 ^ 20)
    (small : s + ((page + 1) * pageSize - ptr) < 2 ^ 32) :
    m.scanPage ptr s = .ok (.inr ((page + 1) * pageSize,
      s + ((page + 1) * pageSize - ptr))) := by
  have whole : ptr + ((page + 1) * pageSize - ptr) = (page + 1) * pageSize := by omega
  have low : (page + 1) * pageSize < 2 ^ 32 := by
    simp only [pageSize]
    omega
  rw [scanPage_clear (n := (page + 1) * pageSize - ptr) opened start (by omega)
    (by rwa [whole]) (by rwa [whole]) small, whole, scanPage, if_pos (Nat.mul_mod_left _ _)]

/-- In the last page of the address space `ptr++` halts the kernel. -/
theorem scanPage_top (top : page + 1 = 2 ^ 20) (small : s < 2 ^ 20) :
    m.scanPage ptr s = .error .overflow := by
  have last : (page + 1) * pageSize = 2 ^ 32 := by
    rw [top]
    rfl
  rw [last] at here clear
  have whole : ptr + (2 ^ 32 - 1 - ptr) = 2 ^ 32 - 1 := by omega
  have low : page * pageSize < 2 ^ 32 - 1 := by
    simp only [pageSize] at *
    omega
  rw [scanPage_clear (n := 2 ^ 32 - 1 - ptr) opened start (by omega) (by omega)
    (fun a first stop => clear a first (by omega)) (by simp only [pageSize] at *; omega), whole,
    scanPage_step opened low (by omega) (clear _ (by omega) (by omega)), if_pos (by decide)]

end

end

end

/-- One page of the string check: `NULL` unless it is open. -/
theorem userpointer_page (bound : page < 2 ^ 20) :
    ∃ r, m.mmuIsValidUserpointer (page * pageSize) pageSize = .ok r ∧
      (r ≠ 0 ↔ page ≠ 0 ∧ m.UserPage page) := by
  have one : wholePages pageSize = 1 := by decide
  have number : page * pageSize / pageSize % 2 ^ 20 = page := by
    rw [Nat.mul_div_cancel _ (by decide)]
    exact Nat.mod_eq_of_lt bound
  obtain ⟨r, ran, accepts⟩ := m.mmuIsValidUserpointer_run
    (show page * pageSize < 2 ^ 32 by simp only [pageSize]; omega)
    (show pageSize ≤ 2 ^ 32 - pageSize by decide)
  refine ⟨r, ran, accepts.trans ?_⟩
  rw [one]
  simp only [Nat.lt_one_iff, forall_eq, add_zero, number]
  exact and_congr_left fun _ => by simp [pageSize]

/-- Where a pass that begins at `ptr` starts to look. -/
def scanStart (ptr : Nat) : Nat := if ptr % pageSize = 0 then ptr + 1 else ptr

theorem scanStart_bounds (ptr : Nat) : ptr ≤ scanStart ptr ∧ scanStart ptr ≤ ptr + 1 ∧
    ptr / pageSize * pageSize < scanStart ptr ∧
    scanStart ptr < (ptr / pageSize + 1) * pageSize := by
  unfold scanStart
  split <;> simp only [pageSize] at * <;> omega

section
variable (near : uintptr (ptr + 2 ^ 32 - r) < 0x1000)
include near

theorem pass_rejects (bound : ptr < 2 ^ 32) (closed : ¬ (ptr / pageSize ≠ 0 ∧ m.UserByte ptr)) :
    m.cStringPasses r (passes + 1) ptr s = .ok (0, none) := by
  obtain ⟨v, ran, accepts⟩ := userpointer_page (m := m) (show ptr / pageSize < 2 ^ 20 by
    simp only [pageSize]; omega)
  have rejected : v = 0 := not_not.mp (mt accepts.mp closed)
  rw [cStringPasses, if_pos near]
  dsimp only
  rw [ran, rejected]
  rfl

section
variable (mapped : ptr / pageSize ≠ 0) (opened : m.UserByte ptr)
include mapped opened

theorem pass_opens (small : s + 1 < 2 ^ 32) :
    m.cStringPasses r (passes + 1) ptr s =
      m.scanPage (scanStart ptr) (s + (scanStart ptr - ptr)) >>= fun
      | .inl size => .ok (r, some size)
      | .inr (ptr, s) => m.cStringPasses r passes ptr s := by
  obtain ⟨v, ran, accepts⟩ := userpointer_page (m := m) opened.1
  have accepted : v ≠ 0 := accepts.mpr ⟨mapped, opened⟩
  have count : (if ptr % pageSize = 0 then uintptr (s + 1) else s) =
      s + (scanStart ptr - ptr) := by
    unfold scanStart
    split
    · rw [Nat.add_sub_cancel_left]
      exact Nat.mod_eq_of_lt small
    · rw [Nat.sub_self, Nat.add_zero]
  rw [cStringPasses, if_pos near]
  dsimp only
  rw [ran, ← count]
  exact if_neg accepted

theorem pass_finds (low : scanStart ptr ≤ nul)
    (inside : nul < (ptr / pageSize + 1) * pageSize) (clear : m.Clear (scanStart ptr) nul)
    (found : m.IsNul nul) (small : s + pageSize < 2 ^ 32) :
    m.cStringPasses r (passes + 1) ptr s = .ok (r, some (s + (nul - ptr))) := by
  obtain ⟨first, near', behind, _⟩ := scanStart_bounds ptr
  have size : s + (scanStart ptr - ptr) + (nul - scanStart ptr) = s + (nul - ptr) := by omega
  rw [pass_opens near mapped opened (by simp only [pageSize] at small; omega),
    scanPage_nul opened behind low inside clear found
      (by simp only [pageSize] at small inside behind ⊢; omega), size]
  rfl

section
variable (clear : m.Clear (scanStart ptr) ((ptr / pageSize + 1) * pageSize))
include clear

theorem pass_ends (more : ptr / pageSize + 1 < 2 ^ 20) (small : s + pageSize < 2 ^ 32) :
    m.cStringPasses r (passes + 1) ptr s =
      m.cStringPasses r passes ((ptr / pageSize + 1) * pageSize)
        (s + ((ptr / pageSize + 1) * pageSize - ptr)) := by
  obtain ⟨first, near', behind, here⟩ := scanStart_bounds ptr
  have size : s + (scanStart ptr - ptr) + ((ptr / pageSize + 1) * pageSize - scanStart ptr) =
      s + ((ptr / pageSize + 1) * pageSize - ptr) := by omega
  rw [pass_opens near mapped opened (by simp only [pageSize] at small; omega),
    scanPage_end opened behind here clear more
      (by simp only [pageSize] at small behind here ⊢; omega), size]
  rfl

theorem pass_halts (top : ptr / pageSize + 1 = 2 ^ 20) (small : s + 1 < 2 ^ 20) :
    m.cStringPasses r (passes + 1) ptr s = .error .overflow := by
  obtain ⟨first, near', behind, here⟩ := scanStart_bounds ptr
  rw [pass_opens near mapped opened (by omega),
    scanPage_top opened behind here clear top (by omega)]
  rfl

end

end

end

/-- A range of bytes has a first NUL or none. -/
theorem first_nul_or_clear (m : Paging) (start stop : Nat) : m.Clear start stop ∨
    ∃ nul, start ≤ nul ∧ nul < stop ∧ m.Clear start nul ∧ m.IsNul nul := by
  induction stop with
  | zero => exact .inl fun a _ high => absurd high (Nat.not_lt_zero a)
  | succ stop ih =>
    rcases ih with clear | ⟨nul, low, high, clear, found⟩
    · by_cases last : start ≤ stop ∧ m.IsNul stop
      · exact .inr ⟨stop, last.1, Nat.lt_succ_self _, clear, last.2⟩
      · refine .inl fun a low high found => ?_
        rcases Nat.lt_succ_iff_lt_or_eq.mp high with before | rfl
        · exact clear a low before found
        · exact last ⟨low, found⟩
    · exact .inr ⟨nul, low, by omega, clear, found⟩

/-- The check returns; what it accepts is a string in open pages with the size it
reports, and it accepts every such string of less than a page. -/
def ChecksExactly (m : Paging) (ptr : Nat) : Prop :=
  ∃ r size, m.mmuIsValidUserCString ptr = .ok (r, size) ∧
    (r ≠ 0 → ∃ n, m.StringAt ptr n ∧ size = some n) ∧
    ∀ n < pageSize, m.StringAt ptr n → r ≠ 0

/-- The page has a NUL, but not at its first byte. -/
def NulBehindStart (m : Paging) (page : Nat) : Prop :=
  ¬ m.IsNul (page * pageSize) ∧ ∃ a, a / pageSize = page ∧ m.IsNul a

/-- In page zero nothing is accepted. Elsewhere a closed page ends the scan at
once, and an open one has to hold a NUL that the scan looks at: behind the start
of the first page if `ptr` is aligned, else in the rest of the first page or, if
there is one, behind the start of the second. -/
def Scannable (m : Paging) (ptr : Nat) : Prop :=
  if ptr / pageSize = 0 then ∀ n < pageSize, ¬ m.StringAt ptr n
  else if ptr % pageSize = 0 then m.UserByte ptr → m.NulBehindStart (ptr / pageSize)
  else m.UserByte ptr → (∃ a, ptr ≤ a ∧ a / pageSize = ptr / pageSize ∧ m.IsNul a) ∨
    (ptr / pageSize + 1 < 2 ^ 20 ∧
      (m.UserPage (ptr / pageSize + 1) → m.NulBehindStart (ptr / pageSize + 1)))

theorem exactly_of_rejected (ran : m.mmuIsValidUserCString ptr = .ok (0, none)) :
    m.ChecksExactly ptr ↔ ∀ n < pageSize, ¬ m.StringAt ptr n := by
  constructor
  · rintro ⟨r, size, ran', _, complete⟩ n short string
    rw [ran] at ran'
    cases ran'
    exact complete n short string rfl
  · intro none
    exact ⟨0, .none, ran, fun wrong => absurd rfl wrong, fun n short string =>
      absurd string (none n short)⟩

theorem exactly_of_accepted (ran : m.mmuIsValidUserCString ptr = .ok (ptr, some k))
    (given : ptr ≠ 0) : m.ChecksExactly ptr ↔ m.StringAt ptr k := by
  constructor
  · rintro ⟨r, size, ran', sound, _⟩
    rw [ran] at ran'
    cases ran'
    obtain ⟨n, string, same⟩ := sound given
    cases same
    exact string
  · intro string
    exact ⟨ptr, some k, ran, fun _ => ⟨k, string, rfl⟩, fun _ _ _ => given⟩

theorem not_exactly_of_stopped (ran : m.mmuIsValidUserCString ptr = .error stop) :
    ¬ m.ChecksExactly ptr := by
  rintro ⟨r, size, ran', _⟩
  rw [ran] at ran'
  cases ran'

/-- A string of open pages that begins in a clear page goes on in the next. -/
theorem StringAt.next_open (string : m.StringAt ptr n)
    (clear : m.Clear ptr ((ptr / pageSize + 1) * pageSize)) :
    m.UserPage (ptr / pageSize + 1) := by
  have beyond : (ptr / pageSize + 1) * pageSize ≤ ptr + n := by
    by_contra inside
    exact clear (ptr + n) (by omega) (by omega) string.nul
  have opened := string.opened ((ptr / pageSize + 1) * pageSize)
    (by simp only [pageSize]; omega) beyond
  rwa [UserByte, Nat.mul_div_cancel _ (by decide)] at opened

theorem near_start (ptr : Nat) : uintptr (ptr + 2 ^ 32 - ptr) < 0x1000 := by
  rw [Nat.add_sub_cancel_left]
  decide

/-- A second or third pass that begins a page or more behind `r`. -/
theorem pass_stops (start : r ≤ ptr) (far : 0x1000 ≤ ptr - r) (top : ptr < 2 ^ 32) :
    m.cStringPasses r (passes + 1) ptr s = .error .assertion := by
  unfold cStringPasses
  rw [if_neg]
  simp only [uintptr]
  omega

theorem page_iff : a / pageSize = page ↔ page * pageSize ≤ a ∧ a < (page + 1) * pageSize := by
  simp only [pageSize]
  omega

/-- A pass that begins at the start of an open page decides: behind it the
distance is too long for another. -/
theorem last_pass_exactly_iff
    (ran : m.mmuIsValidUserCString ptr = m.cStringPasses ptr (passes + 2) next (next - ptr))
    (given : 0 < ptr) (low : ptr ≤ next) (near : next < ptr + pageSize)
    (aligned : next % pageSize = 0) (mapped : next / pageSize ≠ 0) (clear : m.Clear ptr next)
    (opened : ∀ a, ptr ≤ a → a ≤ next → m.UserByte a) :
    m.ChecksExactly ptr ↔ m.NulBehindStart (next / pageSize) := by
  have base := Nat.div_mul_cancel (Nat.dvd_of_mod_eq_zero aligned)
  have ends : (next / pageSize + 1) * pageSize = next + pageSize := by
    rw [Nat.succ_mul, base]
  have page := opened next low le_rfl
  have bound := page.1
  have start : scanStart next = next + 1 := if_pos aligned
  have near' : uintptr (next + 2 ^ 32 - ptr) < 0x1000 := by
    simp only [uintptr, pageSize] at near ⊢
    omega
  have small : next - ptr + pageSize < 2 ^ 32 := by
    simp only [pageSize] at near ⊢
    omega
  rcases first_nul_or_clear m (scanStart next) ((next / pageSize + 1) * pageSize) with
    clear' | ⟨nul, first, inside, clear', found⟩
  · -- nothing behind the first byte: the next pass fails the assertion, if there is one
    have stopped : ∃ stop, m.mmuIsValidUserCString ptr = .error stop := by
      rw [ran]
      rcases Nat.lt_or_eq_of_le (Nat.succ_le_of_lt bound) with more | top
      · rw [pass_ends near' mapped page clear' more small, ends]
        exact ⟨_, pass_stops (by omega) (by simp only [pageSize]; omega)
          (by simp only [pageSize] at *; omega)⟩
      · exact ⟨_, pass_halts near' mapped page clear' top (by simp only [pageSize] at near; omega)⟩
    obtain ⟨stop, ran⟩ := stopped
    refine iff_of_false (not_exactly_of_stopped ran) ?_
    rintro ⟨head, a, number, found⟩
    obtain ⟨low', high⟩ := page_iff.mp number
    rcases Nat.eq_or_lt_of_le low' with rfl | later
    · exact head found
    · exact clear' a (by omega) high found
  · have size : next - ptr + (nul - next) = nul - ptr := by omega
    have whole : ptr + (nul - ptr) = nul := by omega
    rw [pass_finds near' mapped page first inside clear' found small, size] at ran
    rw [exactly_of_accepted ran (by omega)]
    constructor
    · intro string
      refine ⟨?_, nul, page_iff.mpr ⟨by omega, inside⟩, found⟩
      rw [base]
      exact string.clear next low (by omega)
    · rintro ⟨head, _⟩
      rw [base] at head
      refine ⟨fun a low' high found' => ?_, by rwa [whole], fun a low' high => ?_⟩
      · rcases lt_trichotomy a next with before | rfl | later
        · exact clear a low' before found'
        · exact head found'
        · exact clear' a (by omega) (by omega) found'
      · rcases lt_or_ge a next with before | later
        · exact opened a low' (by omega)
        · have number : a / pageSize = next / pageSize := page_iff.mpr ⟨by omega, by omega⟩
          rwa [UserByte, number]

theorem aligned_exactly_iff (mapped : ptr / pageSize ≠ 0) (opened : m.UserByte ptr)
    (aligned : ptr % pageSize = 0) :
    m.ChecksExactly ptr ↔ m.NulBehindStart (ptr / pageSize) := by
  have given := Nat.pos_of_div_pos (Nat.pos_of_ne_zero mapped)
  have ran : m.mmuIsValidUserCString ptr = m.cStringPasses ptr (0xffe + 2) ptr (ptr - ptr) := by
    rw [Nat.sub_self]
    rfl
  refine last_pass_exactly_iff ran given (Nat.le_refl _) (Nat.lt_add_of_pos_right (by decide))
    aligned mapped (fun a low high => by omega) fun a low high => ?_
  rwa [Nat.le_antisymm high low]

/-- A null byte in the first page ends the scan there. -/
theorem exactly_of_near_nul (mapped : ptr / pageSize ≠ 0) (opened : m.UserByte ptr)
    (start : scanStart ptr = ptr) (low : ptr ≤ nul) (same : nul / pageSize = ptr / pageSize)
    (clear : m.Clear ptr nul) (found : m.IsNul nul) : m.ChecksExactly ptr := by
  have inside := (page_iff.mp same).2
  have ran : m.mmuIsValidUserCString ptr = .ok (ptr, some (nul - ptr)) := by
    unfold mmuIsValidUserCString
    rw [pass_finds (near_start ptr) mapped opened (by rwa [start]) inside (by rwa [start]) found
      (by decide), zero_add]
  have whole : ptr + (nul - ptr) = nul := by omega
  have given := Nat.pos_of_div_pos (Nat.pos_of_ne_zero mapped)
  refine (exactly_of_accepted ran given.ne').mpr
    ⟨by rwa [whole], by rwa [whole], fun a low' high => ?_⟩
  have page : a / pageSize = ptr / pageSize :=
    page_iff.mpr ⟨(Nat.div_mul_le_self _ _).trans low', by omega⟩
  rwa [UserByte, page]

theorem unaligned_exactly_iff (mapped : ptr / pageSize ≠ 0) (opened : m.UserByte ptr)
    (unaligned : ptr % pageSize ≠ 0) :
    m.ChecksExactly ptr ↔ (∃ a, ptr ≤ a ∧ a / pageSize = ptr / pageSize ∧ m.IsNul a) ∨
      (ptr / pageSize + 1 < 2 ^ 20 ∧
        (m.UserPage (ptr / pageSize + 1) → m.NulBehindStart (ptr / pageSize + 1))) := by
  have start : scanStart ptr = ptr := if_neg unaligned
  have given := Nat.pos_of_div_pos (Nat.pos_of_ne_zero mapped)
  rcases first_nul_or_clear m ptr ((ptr / pageSize + 1) * pageSize) with
    clear | ⟨nul, low, inside, clear, found⟩
  · obtain ⟨next, here⟩ : ∃ next, (ptr / pageSize + 1) * pageSize = next := ⟨_, rfl⟩
    have number : next / pageSize = ptr / pageSize + 1 := by
      rw [← here, Nat.mul_div_cancel _ (by decide)]
    have ahead : ptr < next ∧ next < ptr + pageSize := by
      rw [← here]
      simp only [pageSize] at unaligned ⊢
      omega
    have none : ¬ ∃ a, ptr ≤ a ∧ a / pageSize = ptr / pageSize ∧ m.IsNul a := by
      rintro ⟨a, low, same, found⟩
      exact clear a low (page_iff.mp same).2 found
    rw [or_iff_right none]
    rcases Nat.lt_or_eq_of_le (Nat.succ_le_of_lt opened.1) with more | top
    · have ran : m.mmuIsValidUserCString ptr =
          m.cStringPasses ptr (0xffd + 2) next (next - ptr) := by
        unfold mmuIsValidUserCString
        rw [pass_ends (near_start ptr) mapped opened (by rwa [start]) more (by decide), here,
          zero_add]
      rw [and_iff_right more]
      by_cases second : m.UserPage (ptr / pageSize + 1)
      · rw [forall_prop_of_true second, last_pass_exactly_iff ran given (by omega) ahead.2
          (by rw [← here, Nat.mul_mod_left]) (by rw [number]; exact Nat.succ_ne_zero _)
          (by rwa [← here]), number]
        intro a low' high
        rcases lt_or_ge a next with before | later
        · have same : a / pageSize = ptr / pageSize := page_iff.mpr
            ⟨(Nat.div_mul_le_self _ _).trans low', by omega⟩
          rwa [UserByte, same]
        · rw [Nat.le_antisymm high later, UserByte, number]
          exact second
      · have near : uintptr (next + 2 ^ 32 - ptr) < 0x1000 ∧ next < 2 ^ 32 := by
          simp only [uintptr, pageSize] at *
          omega
        rw [pass_rejects near.1 near.2] at ran
        · refine iff_of_true ((exactly_of_rejected ran).mpr fun n _ string => ?_) fun yes => ?_
          · exact second (string.next_open clear)
          · exact absurd yes second
        · rw [UserByte, number]
          exact fun both => second both.2
    · have ran : m.mmuIsValidUserCString ptr = .error .overflow :=
        pass_halts (near_start ptr) mapped opened (by rwa [start]) top (by decide)
      exact iff_of_false (not_exactly_of_stopped ran) fun both => absurd top both.1.ne
  · have same := page_iff.mpr ⟨(Nat.div_mul_le_self _ _).trans low, inside⟩
    exact iff_of_true (exactly_of_near_nul mapped opened start low same clear found)
      (.inl ⟨nul, low, same, found⟩)

theorem user_c_string_check_exact_iff (bound : ptr < 2 ^ 32) :
    m.ChecksExactly ptr ↔ m.Scannable ptr := by
  unfold Scannable
  have rejects (closed : ¬ (ptr / pageSize ≠ 0 ∧ m.UserByte ptr)) :
      m.ChecksExactly ptr ↔ ∀ n < pageSize, ¬ m.StringAt ptr n :=
    exactly_of_rejected (pass_rejects (near_start ptr) bound closed)
  by_cases zero : ptr / pageSize = 0
  · rw [if_pos zero]
    exact rejects fun both => both.1 zero
  rw [if_neg zero]
  by_cases opened : m.UserByte ptr
  · by_cases aligned : ptr % pageSize = 0
    · rw [if_pos aligned, aligned_exactly_iff zero opened aligned]
      exact ⟨fun found _ => found, fun found => found opened⟩
    · rw [if_neg aligned, unaligned_exactly_iff zero opened aligned]
      exact ⟨fun found _ => found, fun found => found opened⟩
  · refine iff_of_true ((rejects fun both => opened both.2).mpr fun n _ string => ?_) ?_
    · exact opened (string.opened ptr (Nat.le_refl _) (by omega))
    · split <;> exact fun yes => absurd yes opened

/-- Page one open, with the byte `A` at its start and NUL bytes behind it. -/
theorem user_c_string_check_exact_iff_page :
    (identityPaging (fun page => page == 1) fun _ i => if i = 0 then 65 else 0).ChecksExactly
      0x1000 :=
  (user_c_string_check_exact_iff (by decide)).mpr fun _ => ⟨by decide, 0x1001, by decide, by decide⟩

/-- The empty string at the start of a page: its NUL is stepped over, and the
size is one. -/
theorem empty_string_at_page_start :
    ¬ (identityPaging (fun page => page == 1) fun _ => Bytes.zeros).ChecksExactly 0x1000 := by
  obtain ⟨_, ran, rfl⟩ := of_report (show ((identityPaging (fun page => page == 1)
    fun _ => Bytes.zeros).mmuIsValidUserCString 0x1000).toOption.map id =
      some (0x1000, some 1) by decide +kernel)
  rw [exactly_of_accepted ran (by decide)]
  intro string
  exact string.clear 0x1000 (by decide) (by decide) (by decide)

end Paging
end SbOS.Mmu
