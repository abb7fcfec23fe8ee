import SbOS.Net.Separation

/-! The search for a local port ends at the first one that no open connection has, and goes on
with 0 after 65535. -/
namespace SbOS.Net.Table
variable {table : Table}

/-- A connection in the list has the port. -/
def PortTaken (table : Table) (port : Nat) : Prop :=
  ∃ address con, table.Listed address ∧ table.memory address = some con ∧ con.incomingPort = port

/-- The pointers in the list are to connections. -/
def Held (table : Table) : Prop :=
  ∀ address, table.Listed address → ∃ con, table.memory address = some con

theorem find_returns (held : table.Held) (wanted : Connection → Bool) :
    ∃ found, table.find wanted = .ok found := by
  unfold find
  generalize List.range table.connections.slots = slots
  induction slots with
  | nil => exact ⟨none, rfl⟩
  | cons i rest ih =>
    unfold search
    split
    · exact ih
    · rename_i address here
      obtain ⟨con, there⟩ := held address ⟨i, here⟩
      rw [there]
      dsimp only
      split
      · exact ⟨some address, rfl⟩
      · exact ih

theorem tcpFindFreePort_first (held : table.Held) (small : suggestion < 2 ^ 16)
    (enough : k < depth) (taken : ∀ j < k, table.PortTaken ((suggestion + j) % 2 ^ 16))
    (free : ¬ table.PortTaken ((suggestion + k) % 2 ^ 16)) :
    table.tcpFindFreePort depth suggestion = .ok ((suggestion + k) % 2 ^ 16) := by
  induction k generalizing depth suggestion with
  | zero =>
    obtain ⟨depth, rfl⟩ := Nat.exists_eq_add_one.mpr enough
    have here : (suggestion + 0) % 2 ^ 16 = suggestion := Nat.mod_eq_of_lt small
    rw [here] at free ⊢
    obtain ⟨found, ran⟩ := find_returns held fun c => c.incomingPort = suggestion
    unfold tcpFindFreePort
    rw [ran]
    cases found with
    | none => rfl
    | some address =>
      obtain ⟨listed, con, there, same⟩ := find_some ran
      exact absurd ⟨address, con, listed, there, of_decide_eq_true same⟩ free
  | succ k ih =>
    obtain ⟨depth, rfl⟩ := Nat.exists_eq_add_one.mpr (Nat.zero_lt_of_lt enough)
    obtain ⟨address, con, listed, there, same⟩ := taken 0 (Nat.succ_pos k)
    rw [Nat.add_zero, Nat.mod_eq_of_lt small] at same
    have next (j : Nat) : ((suggestion + 1) % 2 ^ 16 + j) % 2 ^ 16 =
        (suggestion + (j + 1)) % 2 ^ 16 := by omega
    have rest := @ih ((suggestion + 1) % 2 ^ 16) depth (Nat.mod_lt _ (by decide))
      (Nat.lt_of_succ_lt_succ enough)
      (fun j less => by rw [next]; exact taken (j + 1) (Nat.succ_lt_succ less))
      (by rw [next]; exact free)
    obtain ⟨found, ran⟩ := find_returns held fun c => c.incomingPort = suggestion
    unfold tcpFindFreePort
    rw [ran]
    cases found with
    | none => exact absurd same (of_decide_eq_false (find_none ran listed there))
    | some other => exact rest.trans (congrArg _ (next k))

theorem tcp_find_free_port_finds_first (table : Table) (suggestion : Nat) (held : table.Held)
    (small : suggestion < 2 ^ 16) (free : ∃ port < 2 ^ 16, ¬ table.PortTaken port) :
    ∃ k < 2 ^ 16, table.tcpFindFreePort (2 ^ 16) suggestion = .ok ((suggestion + k) % 2 ^ 16) ∧
      ¬ table.PortTaken ((suggestion + k) % 2 ^ 16) ∧
      ∀ j < k, table.PortTaken ((suggestion + j) % 2 ^ 16) := by
  classical
  have least : ∃ k, k < 2 ^ 16 ∧ ¬ table.PortTaken ((suggestion + k) % 2 ^ 16) := by
    obtain ⟨port, bound, clear⟩ := free
    refine ⟨(port + 2 ^ 16 - suggestion) % 2 ^ 16, Nat.mod_lt _ (by decide), ?_⟩
    rwa [show (suggestion + (port + 2 ^ 16 - suggestion) % 2 ^ 16) % 2 ^ 16 = port by omega]
  obtain ⟨below, clear⟩ := Nat.find_spec least
  have taken : ∀ j < Nat.find least, table.PortTaken ((suggestion + j) % 2 ^ 16) := fun j less =>
    not_not.mp fun clear => Nat.find_min least less ⟨Nat.lt_trans less below, clear⟩
  exact ⟨Nat.find least, below, tcpFindFreePort_first held small below taken clear, clear, taken⟩

/-- With a connection on port 80 the search from 80 on ends at 81. -/
theorem first_free_after_80 :
    listening.Held ∧ (∃ port < 2 ^ 16, ¬ listening.PortTaken port) ∧
      listening.tcpFindFreePort (2 ^ 16) 80 = .ok 81 := by
  have taken : ∀ port, listening.PortTaken port ↔ port = 80 := by
    refine fun port => ⟨?_, ?_⟩
    · rintro ⟨address, con, -, here, rfl⟩
      rw [listening_memory here]
      rfl
    · rintro rfl
      exact ⟨1, _, ⟨0, rfl⟩, rfl, rfl⟩
  have held : listening.Held := by
    rintro address ⟨i, here⟩
    have inside := (Kernel.Relist.used_inside (here ▸ Option.some_ne_none address)).1
    have only : ∀ i < listening.connections.slots, listening.connections.lookup i = none ∨
        listening.connections.lookup i = some 1 := by decide +kernel
    rcases only i inside with none | one
    · rw [here] at none
      cases none
    · rw [here] at one
      cases one
      exact ⟨_, rfl⟩
  have free : ∃ port < 2 ^ 16, ¬ listening.PortTaken port :=
    ⟨81, by decide, fun wrong => absurd ((taken 81).mp wrong) (by decide)⟩
  refine ⟨held, free, ?_⟩
  obtain ⟨k, below, ran, clear, before⟩ :=
    tcp_find_free_port_finds_first listening 80 held (by decide) free
  rw [taken] at clear
  have one : k = 1 := by
    by_contra other
    have second := (taken _).mp (before 1 (by omega))
    omega
  rw [one] at ran
  exact ran

end SbOS.Net.Table
