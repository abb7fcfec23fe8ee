import SbOS.Mmu.Regions

/-! The table with which the AHCI driver finds the virtual address of memory it has given to
the device. `physical_to_virtual` adds the offset within the page to the start of the range
that it finds, however many pages the range has. -/
namespace SbOS.Mmu

/-- An entry of `phys_to_virt_map` that is in use. -/
structure PhysVirtMap where
  physical : Nat
  virtual : Nat
  length : Nat

/-- `create_physical_to_virtual_mapping`. Entries stay in use, so the list has them in the
order of the table. -/
def createPhysicalToVirtualMapping (table : List PhysVirtMap) (physical virtual length : Nat) :
    Kernel (List PhysVirtMap) :=
  if table.length < 256 then return table ++ [⟨physical, virtual, length⟩]
  else throw .assertion

/-- The comparisons of `physical_to_virtual`. -/
def covers (address physical length : Nat) : Bool :=
  !decide ((physical + length) % 2 ^ 32 < address) && !decide (address < physical)

def physicalToVirtual (table : List PhysVirtMap) (address : Nat) : Kernel Nat :=
  match table.find? fun entry => covers address entry.physical entry.length with
  | none => throw .assertion
  | some entry => return (entry.virtual + address % 0x1000) % 2 ^ 32

/-- Allocations, given by address and length, are registered as in `ahci_sata_setup`. -/
def registerAll (table : List PhysVirtMap) : List (Nat × Nat) → Kernel (List PhysVirtMap)
  | [] => return table
  | (virtual, length) :: allocations => do
    let physical ← virtualToPhysical virtual
    let table ← createPhysicalToVirtualMapping table physical virtual length
    registerAll table allocations

/-- `physical_to_virtual(virtual_to_physical(v))` -/
def thereAndBack (table : List PhysVirtMap) (v : Nat) : Kernel Nat := do
  physicalToVirtual table (← virtualToPhysical v)

/-- What `virtual_to_physical` returns. -/
def Machine.physicalOf (s : Machine) (v : Nat) : Nat :=
  match s.paging.getPage v 0 with
  | none => 0
  | some p => p.frame * 0x1000 + v % 0x1000

theorem virtualToPhysical_eq (s : Machine) (v : Nat) :
    virtualToPhysical v s = .ok (s.physicalOf v) s := by
  unfold virtualToPhysical Machine.physicalOf
  rw [run_get]
  cases s.paging.getPage v 0 <;> rfl

theorem registerAll_eq {table table' : List PhysVirtMap}
    (registered : registerAll table allocations s = .ok table' s') :
    table' = table ++ allocations.map fun a => ⟨s.physicalOf a.1, a.1, a.2⟩ := by
  induction allocations generalizing table with
  | nil =>
    cases registered
    exact (List.append_nil _).symm
  | cons allocation allocations ih =>
    unfold registerAll at registered
    rw [run_bind_ok (virtualToPhysical_eq s allocation.1)] at registered
    unfold createPhysicalToVirtualMapping at registered
    split at registered
    · exact (ih registered).trans (List.append_assoc ..)
    · cases registered

/-- The first allocation, in the order of registration, in whose range a physical address is
found. The address after the last byte counts as well. -/
def firstCovering (s : Machine) (allocations : List (Nat × Nat)) (address : Nat) :
    Option (Nat × Nat) :=
  allocations.find? fun a => covers address (s.physicalOf a.1) a.2

/-- An address comes back exactly when the range that is found first begins with its page. -/
theorem thereAndBack_iff_first (s : Machine) (allocations : List (Nat × Nat))
    (table : List PhysVirtMap) (v : Nat) (registered : registerAll [] allocations s = .ok table s)
    (addresses : ∀ a ∈ allocations, a.1 < 2 ^ 32) (small : v < 2 ^ 32)
    (mapped : (s.paging.getPage v 0).isSome) :
    thereAndBack table v s = .ok v s ↔
      ∃ length, firstCovering s allocations (s.physicalOf v) = some (v - v % 0x1000, length) := by
  have offset : s.physicalOf v % 0x1000 = v % 0x1000 := by
    obtain ⟨page, found⟩ := Option.isSome_iff_exists.mp mapped
    simp only [Machine.physicalOf, found]
    omega
  have looked : table.find? (fun entry => covers (s.physicalOf v) entry.physical entry.length) =
      (firstCovering s allocations (s.physicalOf v)).map fun a =>
        ⟨s.physicalOf a.1, a.1, a.2⟩ := by
    rw [registerAll_eq registered, List.nil_append, List.find?_map]
    rfl
  unfold thereAndBack physicalToVirtual
  rw [run_bind_ok (virtualToPhysical_eq s v), looked, offset]
  cases found : firstCovering s allocations (s.physicalOf v) with
  | none =>
    refine ⟨fun returned => ?_, fun ⟨_, covered⟩ => ?_⟩
    · cases returned
    · cases covered
  | some allocation =>
    have low := addresses allocation (List.mem_of_find?_eq_some found)
    have same : (allocation.1 + v % 0x1000) % 2 ^ 32 = v ↔ allocation.1 = v - v % 0x1000 := by
      omega
    refine ⟨fun returned => ?_, ?_⟩
    · injection returned with returned
      exact ⟨allocation.2, congrArg some (Prod.ext (same.mp returned) rfl)⟩
    · rintro ⟨length, covered⟩
      exact congrArg (EStateM.Result.ok · s)
        (same.mpr (congrArg Prod.fst (Option.some.inj covered)))

/-- An allocation lies in contiguous physical memory, below the top of it. -/
structure Machine.Contiguous (s : Machine) (a : Nat × Nat) : Prop where
  positive : 0 < a.2
  top : a.1 + a.2 ≤ 2 ^ 32
  physicalTop : s.physicalOf a.1 + a.2 < 2 ^ 32
  mapped : ∀ k < a.2, (s.paging.getPage (a.1 + k) 0).isSome
  physical : ∀ k < a.2, s.physicalOf (a.1 + k) = s.physicalOf a.1 + k

/-- Two allocations share no physical memory. -/
def Machine.Apart (s : Machine) (a b : Nat × Nat) : Prop :=
  s.physicalOf a.1 + a.2 ≤ s.physicalOf b.1 ∨ s.physicalOf b.1 + b.2 ≤ s.physicalOf a.1

/-- `b` ends in physical memory where `a` begins, and `v` is the first byte of `a`. -/
def Machine.Ahead (s : Machine) (a : Nat × Nat) (v : Nat) (b : Nat × Nat) : Prop :=
  v = a.1 ∧ s.physicalOf b.1 + b.2 = s.physicalOf a.1

/-- `a` begins at a page boundary, `v` lies in its first page, and no allocation registered before
`a` ends at `v`; or one does, and begins with the page that `v` lies in. -/
def Machine.ComesBack (s : Machine) (before : List (Nat × Nat)) (a : Nat × Nat) (v : Nat) : Prop :=
  (a.1 % 0x1000 = 0 ∧ v < a.1 + 0x1000 ∧ ¬ ∃ b ∈ before, s.Ahead a v b) ∨
    ∃ b ∈ before, s.Ahead a v b ∧ b.1 = v - v % 0x1000

section
variable {s : Machine} {before after : List (Nat × Nat)} {a b : Nat × Nat} {v : Nat}

theorem covers_iff (contiguous : s.Contiguous b) (address : Nat) :
    covers address (s.physicalOf b.1) b.2 = true ↔
      s.physicalOf b.1 ≤ address ∧ address ≤ s.physicalOf b.1 + b.2 := by
  unfold covers
  rw [Nat.mod_eq_of_lt contiguous.physicalTop]
  simp only [Bool.and_eq_true, Bool.not_eq_true', decide_eq_false_iff_not, not_lt]
  exact and_comm

/-- Of the other allocations only one that ends where `a` begins is taken for `a`. -/
theorem covers_other_iff (whole : s.Contiguous a) (contiguous : s.Contiguous b)
    (apart : s.Apart b a) (inside : a.1 ≤ v ∧ v < a.1 + a.2) :
    covers (s.physicalOf v) (s.physicalOf b.1) b.2 = true ↔ s.Ahead a v b := by
  have here := whole.physical (v - a.1) (by omega)
  rw [Nat.add_sub_cancel' inside.1] at here
  rw [covers_iff contiguous, here]
  unfold Machine.Apart at apart
  unfold Machine.Ahead
  have positive := contiguous.positive
  omega

/-- An address in one of several contiguous, disjoint allocations comes back only in the first
page of it. -/
theorem there_and_back_iff (s : Machine) (before after : List (Nat × Nat)) (a : Nat × Nat)
    (table : List PhysVirtMap) (v : Nat)
    (registered : registerAll [] (before ++ a :: after) s = .ok table s)
    (contiguous : ∀ b ∈ before ++ a :: after, s.Contiguous b)
    (apart : (before ++ a :: after).Pairwise s.Apart) (inside : a.1 ≤ v ∧ v < a.1 + a.2) :
    thereAndBack table v s = .ok v s ↔ s.ComesBack before a v := by
  have whole := contiguous a (by simp)
  have here := whole.physical (v - a.1) (by omega)
  have mapped := whole.mapped (v - a.1) (by omega)
  rw [Nat.add_sub_cancel' inside.1] at here mapped
  have top := whole.top
  have low : ∀ b ∈ before ++ a :: after, b.1 < 2 ^ 32 := fun b member =>
    (Nat.lt_add_of_pos_right (contiguous b member).positive).trans_le (contiguous b member).top
  rw [thereAndBack_iff_first s _ table v registered low (by omega) mapped]
  have own : covers (s.physicalOf v) (s.physicalOf a.1) a.2 = true := by
    rw [covers_iff whole]
    omega
  have known : ∀ b ∈ before, s.Contiguous b ∧ s.Apart b a := fun b member =>
    ⟨contiguous b (List.mem_append_left _ member),
      (List.pairwise_append.mp apart).2.2 b member a (List.mem_cons_self ..)⟩
  have taken : ∀ b ∈ before,
      (covers (s.physicalOf v) (s.physicalOf b.1) b.2 = true ↔ s.Ahead a v b) := fun b member =>
    covers_other_iff whole (known b member).1 (known b member).2 inside
  unfold firstCovering Machine.ComesBack
  have last : (a :: after).find? (fun b => covers (s.physicalOf v) (s.physicalOf b.1) b.2) =
      some a := List.find?_cons_of_pos own
  rw [List.find?_append, last]
  cases found : before.find? fun b => covers (s.physicalOf v) (s.physicalOf b.1) b.2 with
  | none =>
    have nobody : ¬ ∃ b ∈ before, s.Ahead a v b := fun ⟨b, member, ahead⟩ =>
      List.find?_eq_none.mp found b member ((taken b member).mpr ahead)
    have page : (∃ length, some a = some (v - v % 0x1000, length)) ↔
        a.1 % 0x1000 = 0 ∧ v < a.1 + 0x1000 := by
      constructor
      · rintro ⟨length, same⟩
        have start : a.1 = v - v % 0x1000 := congrArg Prod.fst (Option.some.inj same)
        omega
      · rintro ⟨aligned, near⟩
        exact ⟨a.2, congrArg some (Prod.ext (by dsimp only; omega) rfl)⟩
    refine page.trans ⟨fun ⟨aligned, near⟩ => .inl ⟨aligned, near, nobody⟩, ?_⟩
    rintro (⟨aligned, near, -⟩ | ⟨b, member, ahead, -⟩)
    · exact ⟨aligned, near⟩
    · exact absurd ⟨b, member, ahead⟩ nobody
  | some b =>
    have member := List.mem_of_find?_eq_some found
    have covered := List.find?_some found
    have ahead := (taken b member).mp covered
    constructor
    · rintro ⟨length, same⟩
      exact .inr ⟨b, member, ahead, congrArg Prod.fst (Option.some.inj same)⟩
    · rintro (⟨-, -, nobody⟩ | ⟨other, member', ahead', start⟩)
      · exact absurd ⟨b, member, ahead⟩ nobody
      · -- two disjoint allocations do not end at one place
        have same : b = other := by
          by_contra differ
          have : Std.Symm s.Apart := ⟨fun _ _ => Or.symm⟩
          have split := (List.pairwise_append.mp apart).1.forall member member' differ
          unfold Machine.Apart at split
          unfold Machine.Ahead at ahead ahead'
          have := (known b member).1.positive
          have := (known other member').1.positive
          omega
        subst same
        exact ⟨b.2, congrArg some (Prod.ext start rfl)⟩

end

/-- Each page table maps the first four megabytes of physical memory. -/
def flat : Machine where
  paging :=
    { pageTable := fun _ index => { present := true, frame := index }
      directory := fun _ => { tables := fun _ => 1, physicalTables := fun _ => 1 }
      kernelDirectory := 1
      activeDirectory := 1
      ram := fun _ => Bytes.zeros }
  frames := { words := [] }
  dataEnd := 0xC000A000
  readyQueue := none
  dataSegmentEnd := 0

theorem flat_contiguous (positive : 0 < length) (top : virtual + length ≤ 2 ^ 32)
    (inside : virtual % 0x400000 + length ≤ 0x400000) : flat.Contiguous (virtual, length) := by
  have physical (v : Nat) : flat.physicalOf v = v % 0x400000 := by
    simp [Machine.physicalOf, Paging.getPage, flat]
    omega
  refine ⟨positive, top, ?_, fun k low => ?_, fun k low => ?_⟩
  · rw [physical]
    dsimp only
    omega
  · simp [Paging.getPage, flat]
  · rw [physical, physical]
    dsimp only at low ⊢
    omega

/-- A list of commands and a table of two pages are registered. -/
theorem there_and_back_iff_first_page :
    registerAll [] [(0xC0006000, 0x400), (0xC0008000, 0x2000)] flat =
        .ok [⟨0x6000, 0xC0006000, 0x400⟩, ⟨0x8000, 0xC0008000, 0x2000⟩] flat ∧
      thereAndBack [⟨0x6000, 0xC0006000, 0x400⟩, ⟨0x8000, 0xC0008000, 0x2000⟩] 0xC0008123 flat =
        .ok 0xC0008123 flat := by
  refine ⟨rfl, (there_and_back_iff flat [(0xC0006000, 0x400)] [] (0xC0008000, 0x2000) _ 0xC0008123
    rfl ?_ ?_ (by decide)).mpr (.inl ⟨by decide, by decide, ?_⟩)⟩
  · intro b member
    rcases List.mem_cons.mp member with rfl | member
    · exact flat_contiguous (by decide) (by decide) (by decide)
    · obtain rfl := List.mem_singleton.mp member
      exact flat_contiguous (by decide) (by decide) (by decide)
  · exact List.pairwise_pair.mpr (.inl (by decide))
  · rintro ⟨b, -, same, -⟩
    exact absurd same (by decide)

/-- In an allocation of two contiguous pages the first byte of the second comes back as the
first byte of the first. -/
theorem second_page_comes_back_as_first :
    registerAll [] [(0xC0008000, 0x2000)] flat = .ok [⟨0x8000, 0xC0008000, 0x2000⟩] flat ∧
      (∀ k < 0x2000, flat.physicalOf (0xC0008000 + k) = 0x8000 + k) ∧
      thereAndBack [⟨0x8000, 0xC0008000, 0x2000⟩] 0xC0009000 flat = .ok 0xC0008000 flat := by
  refine ⟨rfl, fun k inside => ?_, (run_bind_ok (virtualToPhysical_eq flat 0xC0009000)).trans rfl⟩
  simp [Machine.physicalOf, Paging.getPage, flat]
  omega

end SbOS.Mmu
