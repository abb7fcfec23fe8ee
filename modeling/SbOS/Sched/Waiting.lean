import SbOS.Sched.Steps

/-! What a process learns of its children. The steps of a run that concern a process
are kept in a history: the children it forked, the statuses with which children ended, the
statuses `wait` returned and the calls that found no child. The bookkeeping of the process is
one pointer to a child, one status and one flag, so that its history is right as long as
it forks only when that pointer is free. -/
namespace SbOS.Sched
open SbOS.Sched.System Kernel

/-- What has happened to a process and its children. -/
structure History where
  forks : Nat := 0
  /-- The statuses of the children that have ended, in that order. -/
  exits : List Int := []
  /-- The statuses that calls of `wait` have returned. -/
  delivered : List Int := []
  /-- For each report that there is no child, the children forked and the children
  reaped until then. -/
  reports : List (Nat × Nat) := []
deriving DecidableEq, Repr

namespace History

/-- A step of the process itself. -/
def ownStep (h : History) : Action → WaitResult → History
  | _, .status childRc => { h with delivered := h.delivered ++ [childRc] }
  | _, .noChild => { h with reports := h.reports ++ [(h.forks, h.delivered.length)] }
  | .fork (.created _), .blocked => { h with forks := h.forks + 1 }
  | _, .blocked => h

/-- A step of another process, which may be the end of a child of `p`. -/
def otherStep (h : History) (p : Nat) (s : System) (actor : Nat) : Action → History
  | .exit status =>
    if (s.descriptors actor).map Process.parent = some p then
      { h with exits := h.exits ++ [status] }
    else h
  | _ => h

def observe (h : History) (p : Nat) (s : System) (actor : Nat) (action : Action)
    (result : WaitResult) : History :=
  if actor = p then h.ownStep action result else h.otherStep p s actor action

/-- The statuses returned are the first of the statuses with which children ended, and no
child was left whenever none was reported. -/
structure Right (h : History) : Prop where
  inOrder : h.delivered <+: h.exits
  noneLeft : ∀ report ∈ h.reports, report.1 = report.2

end History

/-- The states that runs from `start` reach whose steps are all allowed, with the history of
the process `p`. -/
inductive Reached (p : Nat) (allowed : System → Nat → Action → Prop) (start : System) :
    System → History → Prop where
  | start : Reached p allowed start start {}
  | step (before : Reached p allowed start s h) (enabled : s.Enabled actor action)
      (meets : allowed s actor action) (returned : s.step actor action = .ok (result, t)) :
      Reached p allowed start t (h.observe p s actor action result)

/-- There are no signals, and the history is followed as long as the process lives. -/
def Unsignalled (p : Nat) (_ : System) (actor : Nat) : Action → Prop
  | .kill _ _ => False
  | .exit _ => actor ≠ p
  | _ => True

/-- The process forks only when it has no child left to wait for. -/
def OneAtATime (p : Nat) (s : System) (actor : Nat) (action : Action) : Prop :=
  Unsignalled p s actor action ∧ (actor = p → ∀ place, action = .fork (.created place) →
    (s.descriptors p).map Process.child = some 0)

/-- A process that is running and has no children. -/
structure Childless (s : System) (p : Nat) : Prop where
  running : ∃ d, s.descriptors p = some d ∧ d.dead = false ∧ d.child = 0 ∧ d.inWait = false
  alone : ∀ x e, s.descriptors x = some e → e.dead = false → e.parent ≠ p

/-- Every child is reaped once with its own status, whatever is allowed to happen. -/
def ReapsEachOnce (p : Nat) (allowed : System → Nat → Action → Prop) (start : System) : Prop :=
  ∀ s h, Reached p allowed start s h → h.Right

/-- How the descriptor `d` of the process `p` stands to its history. -/
inductive Phase (p : Nat) (s : System) (d : Process) (h : History) : Prop where
  | free (none : d.child = 0) (idle : d.inWait = false) (even : h.exits = h.delivered)
      (all : h.forks = h.delivered.length)
      (alone : ∀ x e, s.descriptors x = some e → e.dead = false → e.parent ≠ p)
  | alive (queued : d.child ∈ s.readyQueue) (even : h.exits = h.delivered)
      (one : h.forks = h.delivered.length + 1)
      (asleep : d.inWait = true → d.waitHalt = true)
      (alone : ∀ x e, s.descriptors x = some e → e.dead = false → e.parent = p → x = d.child)
  | gone (c : Process) (there : s.descriptors d.child = some c) (dead : c.dead = true)
      (last : h.exits = h.delivered ++ [d.childRc])
      (one : h.forks = h.delivered.length + 1) (woken : d.waitHalt = false)
      (alone : ∀ x e, s.descriptors x = some e → e.dead = false → e.parent ≠ p)

/-- The invariant of the runs. -/
structure Follows (p : Nat) (s : System) (h : History) : Prop where
  sound : s.Sound
  phase : ∃ d, s.descriptors p = some d ∧ d.dead = false ∧ Phase p s d h
  noneLeft : ∀ report ∈ h.reports, report.1 = report.2

variable {s t : System} {d e c : Process} {p actor : Nat} {h : History}

theorem Follows.right (follows : Follows p s h) : h.Right := by
  refine ⟨?_, follows.noneLeft⟩
  obtain ⟨d, -, -, phase⟩ := follows.phase
  cases phase with
  | free none idle even => exact even ▸ List.prefix_refl _
  | alive queued even => exact even ▸ List.prefix_refl _
  | gone c there dead last => exact ⟨_, last.symm⟩

theorem Follows.start (sound : s.Sound) (childless : Childless s p) : Follows p s {} := by
  obtain ⟨d, found, alive, none, idle⟩ := childless.running
  exact ⟨sound, ⟨d, found, alive, .free none idle rfl rfl childless.alone⟩,
    List.forall_mem_nil _⟩

/-- A step that leaves the descriptor of the process, and its child, as they were. -/
theorem Phase.frame (phase : Phase p s d h)
    (queued : d.child ∈ s.readyQueue → d.child ∈ t.readyQueue)
    (dead : ∀ c, s.descriptors d.child = some c → c.dead = true →
      ∃ c', t.descriptors d.child = some c' ∧ c'.dead = true)
    (back : ∀ x e, t.descriptors x = some e → e.dead = false → e.parent = p →
      ∃ e', s.descriptors x = some e' ∧ e'.dead = false ∧ e'.parent = p)
    (forks : h'.forks = h.forks) (exits : h'.exits = h.exits)
    (delivered : h'.delivered = h.delivered) : Phase p t d h' := by
  have still : ∀ {Q : Nat → Prop}, (∀ x e, s.descriptors x = some e → e.dead = false →
      e.parent = p → Q x) → ∀ x e, t.descriptors x = some e → e.dead = false → e.parent = p → Q x := by
    intro Q alone x e there living parent
    obtain ⟨e', before, living', parent'⟩ := back x e there living parent
    exact alone x e' before living' parent'
  cases phase with
  | free none idle even all alone =>
    exact .free none idle (by rw [exits, delivered, even]) (by rw [forks, delivered, all])
      (still alone)
  | alive inside even one asleep alone =>
    exact .alive (queued inside) (by rw [exits, delivered, even])
      (by rw [forks, delivered, one]) asleep (still alone)
  | gone c there isDead last one woken alone =>
    obtain ⟨c', there', isDead'⟩ := dead c there isDead
    exact .gone c' there' isDead' (by rw [exits, delivered, last])
      (by rw [forks, delivered, one]) woken (still alone)

section
variable (phase : Phase p s d h) (sound : s.Sound) (found : s.descriptors p = some d)
include phase sound found

/-- The process reaps its child. -/
theorem Phase.reaped (there : s.descriptors d.child = some c) (dead : c.dead = true) :
    Phase p (s.reaped p d c) { d with child := 0, inWait := false }
      { h with delivered := h.delivered ++ [d.childRc] } := by
  cases phase with
  | free none =>
    rw [none, sound.null] at there
    cases there
  | alive queued =>
    obtain ⟨b, before, alive⟩ := (sound.ready _).mp queued
    rw [there] at before
    cases before
    rw [dead] at alive
    cases alive
  | gone c' there' dead' last one woken alone =>
    refine .free rfl rfl last (by simp [one]) fun x e left living => ?_
    rw [reaped_descriptors] at left
    split at left
    · rename_i same
      cases left
      exact same ▸ alone p d found living
    split at left
    · rename_i same
      rw [dropped_some left] at living
      rw [dead] at living
      cases living
    · exact alone x e left living

/-- The process forks. -/
theorem Phase.forked (idle : d.inWait = false) (none : d.child = 0) : Phase p (s.forked p place d)
      { d with referenceCount := d.referenceCount + 1, child := place }
      { h with forks := h.forks + 1 } := by
  cases phase with
  | free _ _ even all alone =>
    refine .alive (by simp [System.forked]) even (by simp [all]) ?_ fun x e left living parent => ?_
    · intro waiting
      rw [idle] at waiting
      cases waiting
    · rw [forked_descriptors] at left
      split at left
      · rename_i same
        cases left
        exact absurd (parent.trans same.symm) (same ▸ sound.own p d found)
      split at left
      · assumption
      · exact absurd parent (alone x e left living)
  | alive queued =>
    obtain ⟨b, before, -⟩ := (sound.ready _).mp queued
    exact absurd none (sound.nonzero before)
  | gone c there => exact absurd none (sound.nonzero there)

end

/-- A step of the process itself. -/
theorem Follows.own_step (follows : Follows p s h) (enabled : s.Enabled p action)
    (meets : OneAtATime p s p action) (returned : s.step p action = .ok (result, t)) :
    Follows p t (h.ownStep action result) := by
  have sound := follows.sound
  have after : t.Sound := sound.step enabled returned
  obtain ⟨d, found, alive, phase⟩ := follows.phase
  have noneLeft := follows.noneLeft
  have effect := step_effect sound enabled returned
  have control := enabled.control d found
  have same : ∀ {e}, s.descriptors p = some e → e = d := by
    intro e there
    rw [found] at there
    cases there
    rfl
  cases effect with
  | noMemory | asleep => exact follows
  | notCopied =>
    refine ⟨after, ⟨d, found, alive, ?_⟩, noneLeft⟩
    exact phase.frame id (fun c there dead => ⟨c, there, dead⟩)
      (fun x e there living parent => ⟨e, there, living, parent⟩) rfl rfl rfl
  | forked there =>
    rename_i place e
    cases same there
    have idle : d.inWait = false := by
      rw [← Bool.not_eq_true, control]
      exact Action.noConfusion
    have none : d.child = 0 := by
      have free := meets.2 rfl place rfl
      rw [found] at free
      exact Option.some.inj free
    exact ⟨after, ⟨{ d with referenceCount := d.referenceCount + 1, child := place },
      by rw [forked_descriptors, if_pos rfl], alive,
      phase.forked sound found idle none⟩, noneLeft⟩
  | exited => exact absurd rfl meets.1
  | killed => exact absurd meets.1 id
  | noChild there none =>
    cases same there
    refine ⟨after, ⟨d, found, alive, ?_⟩, fun report inside => ?_⟩
    · exact phase.frame id (fun c there dead => ⟨c, there, dead⟩)
        (fun x e there living parent => ⟨e, there, living, parent⟩) rfl rfl rfl
    · rcases List.mem_append.mp inside with old | new
      · exact noneLeft report old
      · rw [List.mem_singleton.mp new]
        cases phase with
        | free _ _ even all => exact all
        | alive queued =>
          obtain ⟨b, before, -⟩ := (sound.ready _).mp queued
          exact absurd none (sound.nonzero before)
        | gone c there => exact absurd none (sound.nonzero there)
  | slept there some child living =>
    cases same there
    refine ⟨after, ⟨_, put_self _ _ _, alive, ?_⟩, noneLeft⟩
    cases phase with
    | free none => exact absurd none some
    | alive queued even one asleep alone =>
      refine .alive queued even one (fun _ => rfl) fun x e left running parent => ?_
      by_cases isOwn : x = p
      · subst isOwn
        rw [System.set, put_self] at left
        cases left
        exact absurd parent (sound.own x d found)
      · rw [System.set, put_of_ne isOwn] at left
        exact alone x e left running parent
    | gone c there dead =>
      rw [child] at there
      cases there
      rw [dead] at living
      cases living
  | reaped there _ child dead | collected there _ child dead =>
    cases same there
    exact ⟨after, ⟨{ d with child := 0, inWait := false },
      by rw [reaped_descriptors, if_pos rfl], alive, phase.reaped sound found child dead⟩, noneLeft⟩
  | woken there free child living =>
    cases same there
    have waiting : d.inWait = true := control.mpr rfl
    cases phase with
    | free none idle =>
      rw [idle] at waiting
      cases waiting
    | alive queued even one asleep =>
      rw [asleep waiting] at free
      cases free
    | gone c there dead =>
      rw [child] at there
      cases there
      rw [dead] at living
      cases living

section
variable (phase : Phase p s d h)
include phase

/-- The end of another process. -/
theorem Phase.exited (sound : s.Sound)
    (found : s.descriptors p = some d) (living : s.descriptors actor = some e)
    (alive : e.dead = false) (other : p ≠ actor) :
    ∃ d', (s.exited actor e status).descriptors p = some d' ∧ d'.dead = d.dead ∧
      Phase p (s.exited actor e status) d' (h.otherStep p s actor (.exit status)) := by
  have back : ∀ x b, (s.exited actor e status).descriptors x = some b → b.dead = false →
      b.parent = p → x ≠ actor ∧ ∃ b', s.descriptors x = some b' ∧ b'.dead = false ∧
        b'.parent = p := by
    intro x b there running parent
    have apart : x ≠ actor := by
      rintro rfl
      rw [ended_self there] at running
      cases running
    obtain ⟨b', before, alike⟩ := ended_back apart there
    exact ⟨apart, b', before, alike.dead ▸ running, alike.parent ▸ parent⟩
  by_cases isParent : e.parent = p
  · -- the child of the process: its status goes to the process, which is woken
    have recorded : h.otherStep p s actor (.exit status) =
        { h with exits := h.exits ++ [status] } := by
      rw [History.otherStep, living]
      exact if_pos (congrArg some isParent)
    rw [recorded]
    refine ⟨notified status d, ?_, rfl, ?_⟩
    · change s.ended actor e status p = _
      rw [ended, if_neg other, if_pos isParent.symm, found]
      rfl
    cases phase with
    | free none idle even all alone => exact absurd isParent (alone actor e living alive)
    | gone c there dead last one woken alone =>
      exact absurd isParent (alone actor e living alive)
    | alive queued even one asleep alone =>
      have isChild := alone actor e living alive isParent
      obtain ⟨c, child, -, counted⟩ := sound.child p d found
        (isChild ▸ sound.nonzero living)
      rw [if_pos queued] at counted
      rw [← isChild, living] at child
      cases child
      refine .gone { e with dead := true, referenceCount := e.referenceCount - 1 } ?_ rfl
        (by rw [even]; rfl) one rfl fun x b there running parent => ?_
      · change s.ended actor e status d.child = _
        rw [← isChild, ended, if_pos rfl]
        exact dropped_of_two counted
      · obtain ⟨apart, b', before, running', parent'⟩ := back x b there running parent
        exact apart ((alone x b' before running' parent').trans isChild.symm)
  · have recorded : h.otherStep p s actor (.exit status) = h := by
      rw [History.otherStep, living]
      exact if_neg fun same => isParent (Option.some.inj same)
    rw [recorded]
    refine ⟨d, ?_, rfl, phase.frame ?_ ?_ (fun x b there running parent =>
      (back x b there running parent).2) rfl rfl rfl⟩
    · change s.ended actor e status p = _
      rw [ended, if_neg other, if_neg (Ne.symm isParent), found]
    · intro queued
      have apart : d.child ≠ actor := by
        intro same
        obtain ⟨c, child, parent, -⟩ := sound.child p d found (same ▸ sound.nonzero living)
        rw [same, living] at child
        cases child
        exact isParent parent
      exact (sound.nodup.mem_erase_iff).mpr ⟨apart, queued⟩
    · intro c there dead
      have apart : d.child ≠ actor := by
        intro same
        rw [same, living] at there
        cases there
        rw [alive] at dead
        cases dead
      obtain ⟨c', there', alike⟩ := ended_forth e status apart there
      exact ⟨c', there', alike.dead.trans dead⟩

/-- Another process forks. -/
theorem Phase.other_forked (living : s.descriptors actor = some e) (other : p ≠ actor)
    (unused : s.descriptors place = none) : Phase p (s.forked actor place e) d h := by
  refine phase.frame (fun queued => List.mem_append_left _ queued) ?_ ?_ rfl rfl rfl
  · intro c there dead
    rw [forked_descriptors]
    split
    · rename_i same
      rw [same, living] at there
      cases there
      exact ⟨_, rfl, dead⟩
    · split
      · rename_i same
        rw [same, unused] at there
        cases there
      · exact ⟨c, there, dead⟩
  · intro x b there running parent
    rw [forked_descriptors] at there
    split at there
    · rename_i same
      cases there
      exact ⟨e, same ▸ living, running, parent⟩
    split at there
    · cases there
      exact absurd parent.symm other
    · exact ⟨b, there, running, parent⟩

/-- Another process changes only what does not matter to this one. -/
theorem Phase.other_set (living : s.descriptors actor = some e)
    (alike : Alike e e') : Phase p (s.set actor e') d h := by
  refine phase.frame id ?_ ?_ rfl rfl rfl
  · intro c there dead
    by_cases same : d.child = actor
    · rw [same] at there ⊢
      rw [living] at there
      cases there
      exact ⟨e', put_self _ _ _, alike.dead.trans dead⟩
    · exact ⟨c, (put_of_ne same _ _).trans there, dead⟩
  · intro x b there running parent
    by_cases same : x = actor
    · subst same
      rw [System.set, put_self] at there
      cases there
      exact ⟨e, living, alike.dead ▸ running, alike.parent ▸ parent⟩
    · rw [System.set, put_of_ne same] at there
      exact ⟨b, there, running, parent⟩

/-- Another process reaps its child, which is not that of this one. -/
theorem Phase.other_reaped (sound : s.Sound)
    (found : s.descriptors p = some d) (living : s.descriptors actor = some e)
    (child : s.descriptors e.child = some c) (dead : c.dead = true) (other : p ≠ actor) :
    Phase p (s.reaped actor e c) d h := by
  obtain ⟨c', child', parent, -⟩ := sound.child actor e living (sound.nonzero child)
  rw [child] at child'
  cases child'
  refine phase.frame id ?_ ?_ rfl rfl rfl
  · intro b there gone
    have apart : d.child ≠ e.child := by
      intro same
      obtain ⟨c', child', parent', -⟩ := sound.child p d found (sound.nonzero there)
      rw [same, child] at child'
      cases child'
      exact other (parent'.symm.trans parent)
    rw [reaped_descriptors]
    split
    · rename_i same
      rw [same, living] at there
      cases there
      exact ⟨_, rfl, gone⟩
    · exact ⟨b, there, gone⟩
  · intro x b there running parent
    rw [reaped_descriptors] at there
    split at there
    · rename_i same
      cases there
      exact ⟨e, same ▸ living, running, parent⟩
    split at there
    · rw [dropped_some there] at running
      rw [dead] at running
      cases running
    · exact ⟨b, there, running, parent⟩

end

theorem reaped_other (found : s.descriptors p = some d) (alive : d.dead = false)
    (child : s.descriptors e.child = some c) (dead : c.dead = true) (other : p ≠ actor) :
    (s.reaped actor e c).descriptors p = some d := by
  have apart : p ≠ e.child := by
    intro same
    rw [← same, found] at child
    cases child
    rw [alive] at dead
    cases dead
  rw [reaped_descriptors, if_neg other, if_neg apart, found]

theorem History.otherStep_reports (h : History) (p : Nat) (s : System) (actor : Nat)
    (action : Action) : (h.otherStep p s actor action).reports = h.reports := by
  cases action with
  | exit status =>
    by_cases isChild : (s.descriptors actor).map Process.parent = some p
    · rw [History.otherStep, if_pos isChild]
    · rw [History.otherStep, if_neg isChild]
  | fork | kill | wait | resume => rfl

/-- A step of another process. -/
theorem Follows.other_step (follows : Follows p s h) (enabled : s.Enabled actor action)
    (meets : Unsignalled p s actor action) (other : p ≠ actor)
    (returned : s.step actor action = .ok (result, t)) :
    Follows p t (h.otherStep p s actor action) := by
  have sound := follows.sound
  have after : t.Sound := sound.step enabled returned
  obtain ⟨d, found, alive, phase⟩ := follows.phase
  have noneLeft := follows.noneLeft
  cases step_effect sound enabled returned with
  | noMemory | noChild | asleep => exact follows
  | notCopied =>
    exact ⟨after, ⟨d, found, alive, phase.frame id (fun c there dead => ⟨c, there, dead⟩)
      (fun x e there living parent => ⟨e, there, living, parent⟩) rfl rfl rfl⟩, noneLeft⟩
  | forked living =>
    rename_i place e
    obtain ⟨-, unused⟩ := enabled.fresh _ rfl
    have apart : p ≠ place := by
      rintro rfl
      rw [found] at unused
      cases unused
    refine ⟨after, ⟨d, ?_, alive, phase.other_forked living other unused⟩, noneLeft⟩
    rw [forked_descriptors, if_neg other, if_neg apart, found]
  | exited living =>
    obtain ⟨e, there, running⟩ := (sound.ready actor).mp enabled.ready
    rw [living] at there
    cases there
    obtain ⟨d', found', same, phase'⟩ := phase.exited sound found living running other
    refine ⟨after, ⟨d', found', same.trans alive, phase'⟩, ?_⟩
    rw [History.otherStep_reports]
    exact noneLeft
  | killed => exact absurd meets id
  | slept living | woken living =>
    exact ⟨after, ⟨d, (put_of_ne other _ _).trans found, alive,
      phase.other_set living ⟨rfl, rfl, rfl, le_refl _⟩⟩, noneLeft⟩
  | reaped living _ child dead | collected living _ child dead =>
    refine ⟨after, ⟨d, ?_, alive, phase.other_reaped sound found living child dead other⟩, noneLeft⟩
    exact reaped_other found alive child dead other

/-- As long as a process forks only when it has no child left to wait for, its calls of
`wait` return the statuses of its children in the order in which they ended. -/
theorem reaps_each_once_when_one_at_a_time (sound : start.Sound) (childless : Childless start p) :
    ReapsEachOnce p (OneAtATime p) start := by
  intro s h reached
  suffices Follows p s h from this.right
  induction reached with
  | start => exact .start sound childless
  | @step s h actor action result t before enabled meets returned ih =>
    unfold History.observe
    by_cases isOwn : actor = p
    · rw [if_pos isOwn]
      subst isOwn
      exact ih.own_step enabled meets returned
    · rw [if_neg isOwn]
      exact ih.other_step enabled meets.1 (Ne.symm isOwn) returned

/-- The kernel, at 10, has forked the first process, at 20. -/
def firstProcess : System :=
  (taskingInit 10).forked 10 20 { pid := 0, referenceCount := 1, parent := 0 }

theorem firstProcess_sound : firstProcess.Sound :=
  (Sound.taskingInit 10 (by decide)).forked rfl rfl (by decide) rfl

theorem firstProcess_childless : Childless firstProcess 20 := by
  refine ⟨⟨_, rfl, rfl, rfl, rfl⟩, fun x e there _ => ?_⟩
  rw [firstProcess, forked_descriptors] at there
  split at there
  · cases there
    decide
  split at there
  · cases there
    decide
  · rw [taskingInit_descriptors] at there
    split at there
    · cases there
      decide
    · cases there

instance (p : Nat) (s : System) (actor : Nat) (action : Action) :
    Decidable (Unsignalled p s actor action) := by
  cases action <;> unfold Unsignalled <;> infer_instance

/-- A run with its history, as long as its steps are allowed, can be taken and return. -/
def follow (p : Nat) (allowed : System → Nat → Action → Prop)
    [∀ s actor action, Decidable (allowed s actor action)] :
    List (Nat × Action) → System → History → Option (System × History)
  | [], s, h => some (s, h)
  | (actor, action) :: rest, s, h =>
    if s.Enabled actor action ∧ allowed s actor action then
      match s.step actor action with
      | .ok (result, t) => follow p allowed rest t (h.observe p s actor action result)
      | .error _ => none
    else none

theorem follow_reached [∀ s actor action, Decidable (allowed s actor action)]
    (reached : Reached p allowed start s h) (ran : follow p allowed steps s h = some (t, h')) :
    Reached p allowed start t h' := by
  induction steps generalizing s h with
  | nil =>
    cases ran
    exact reached
  | cons first rest ih =>
    unfold follow at ran
    split at ran
    · rename_i may
      split at ran
      · rename_i returned
        exact ih (.step reached may.1 may.2 returned) ran
      · cases ran
    · cases ran

instance (p : Nat) (s : System) (actor : Nat) : ∀ action, Decidable (OneAtATime p s actor action)
  | .fork (.created _) =>
    decidable_of_iff (actor = p → (s.descriptors p).map Process.child = some 0)
      ⟨fun none_left => ⟨trivial, fun own _ _ => none_left own⟩, fun may own => may.2 own _ rfl⟩
  | .fork .noMemory | .fork .notCopied | .wait | .resume => isTrue ⟨trivial, nofun⟩
  | .exit _ => decidable_of_iff (actor ≠ p) ⟨fun other => ⟨other, nofun⟩, And.left⟩
  | .kill _ _ => isFalse fun may => may.1

/-- Two children one after the other, each waited for. -/
def oneByOne : List (Nat × Action) :=
  [(20, .fork (.created 30)), (30, .exit 5), (20, .wait), (20, .fork (.created 40)), (40, .exit 6),
    (20, .wait)]

/-- The first process, as long as it has one child at a time. -/
theorem reaps_each_once_when_one_at_a_time_first :
    ReapsEachOnce 20 (OneAtATime 20) firstProcess ∧
      ∃ s h, Reached 20 (OneAtATime 20) firstProcess s h ∧ h.delivered = [5, 6] ∧ h.Right := by
  have evaluated : (follow 20 (OneAtATime 20) oneByOne firstProcess {}).map (·.2.delivered) =
      some [5, 6] := by decide +kernel
  obtain ⟨⟨s, h⟩, ran, delivered⟩ := Option.map_eq_some_iff.mp evaluated
  have right := reaps_each_once_when_one_at_a_time firstProcess_sound firstProcess_childless
  have reached := follow_reached .start ran
  exact ⟨right, s, h, reached, delivered, right s h reached⟩

/-- A process forks twice and both children end, the older one first. -/
def twoChildren : List (Nat × Action) :=
  [(20, .fork (.created 30)), (20, .fork (.created 40)), (30, .exit 5), (40, .exit 6),
    (20, .wait), (20, .wait)]

/-- The second child takes the place of the first: `wait` returns its status, and then
there is no child left. -/
theorem second_child_hides_first :
    ¬ ∀ p start, start.Sound → Childless start p → ReapsEachOnce p (Unsignalled p) start := by
  intro claimed
  have evaluated : (follow 20 (Unsignalled 20) twoChildren firstProcess {}).map (·.2) =
      some { forks := 2, exits := [5, 6], delivered := [6], reports := [(2, 1)] } := by
    decide +kernel
  obtain ⟨⟨s, h⟩, ran, history⟩ := Option.map_eq_some_iff.mp evaluated
  cases history
  have right := claimed 20 firstProcess firstProcess_sound firstProcess_childless s _
    (follow_reached .start ran)
  exact absurd (right.noneLeft (2, 1) (by decide)) (by decide)

/-- In every run, with any forks, ends, signals and waits, the ready queue holds just the
processes that live, and the child of a process has it as its parent and is counted for it. -/
theorem sound_in_every_run (sound : start.Sound) (reached : Reached p allowed start s h) :
    s.Sound := by
  induction reached with
  | start => exact sound
  | step before enabled meets returned ih => exact ih.step enabled returned

theorem sound_after_two_children :
    ∃ s h, follow 20 (Unsignalled 20) twoChildren firstProcess {} = some (s, h) ∧ s.Sound := by
  obtain ⟨⟨s, h⟩, ran⟩ := Option.isSome_iff_exists.mp
    (show (follow 20 (Unsignalled 20) twoChildren firstProcess {}).isSome by decide +kernel)
  exact ⟨s, h, ran, sound_in_every_run firstProcess_sound (follow_reached .start ran)⟩

end SbOS.Sched
