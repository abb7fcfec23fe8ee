import SbOS.Lib.References
import SbOS.Sched.Steps

/-! Who refers to a process descriptor, and its `reference_count`. The ready queue, a
parent that can still wait and a child that is running refer to a descriptor. What each
step does to these references is said once; from that, the counts are exact in the runs in
which a process forks only when it has no child and ends only when it has neither child
nor parent. -/
namespace SbOS.Sched
open SbOS.Sched.System Kernel Function Option

/-- What holds a reference to a process descriptor. -/
inductive Holder where
  | queue (x : Nat)
  /-- A process, which can wait for its child. -/
  | waiter (p : Nat)
  /-- A process, which has a parent. -/
  | offspring (c : Nat)
deriving DecidableEq

namespace System

/-- What a pointer of a running process refers to. -/
def pointed (s : System) (p : Nat) (field : Process → Nat) : Option Nat :=
  match s.descriptors p with
  | some d => if d.dead = false ∧ field d ≠ 0 then some (field d) else none
  | none => none

def refers (s : System) : Holder → Option Nat
  | .queue x => if x ∈ s.readyQueue then some x else none
  | .waiter p => s.pointed p Process.child
  | .offspring c => s.pointed c Process.parent

def counts (s : System) (x : Nat) : Option Nat := (s.descriptors x).map Process.referenceCount

/-- Every `reference_count` is the number of references, and the descriptors that are there
are the ones that something refers to. -/
structure Accounted (s : System) : Prop where
  counted : Counted s.counts s.refers
  there : ∀ x, (∃ d, s.descriptors x = some d) ↔ ∃ holder, s.refers holder = some x

variable {s t : System} {d e c : Process} {p actor place : Nat}

theorem pointed_some (found : s.descriptors p = some d) (alive : d.dead = false)
    (field : Process → Nat) :
    s.pointed p field = if field d ≠ 0 then some (field d) else none := by
  unfold pointed
  rw [found]
  exact if_congr (and_iff_right alive) rfl rfl

theorem pointed_dead (gone : ∀ d, s.descriptors p = some d → d.dead = true)
    (field : Process → Nat) : s.pointed p field = none := by
  unfold pointed
  cases found : s.descriptors p with
  | none => rfl
  | some d =>
    refine if_neg fun both => ?_
    rw [gone d found] at both
    cases both.1

theorem pointed_congr (same : (s.descriptors p).map (fun d => (d.dead, field d)) =
    (t.descriptors p).map fun d => (d.dead, field d)) : s.pointed p field = t.pointed p field := by
  unfold pointed
  cases before : s.descriptors p with
  | none =>
    rw [before] at same
    rw [map_eq_none_iff.mp same.symm]
  | some d =>
    rw [before] at same
    obtain ⟨e, after, both⟩ := map_eq_some_iff.mp same.symm
    rw [after]
    rw [Prod.mk.injEq] at both
    simp only [both]

/-- A fork adds three references: the queue and the parent refer to the new process, and that
refers to its parent. The child the parent had before is forgotten. -/
theorem refers_forked (sound : s.Sound) (found : s.descriptors actor = some d)
    (alive : d.dead = false) (nonzero : place ≠ 0) (unused : s.descriptors place = none) :
    (s.forked actor place d).refers = update (update (update s.refers
      (.queue place) (some place)) (.waiter actor) (some place)) (.offspring place) (some actor) := by
  have apart : place ≠ actor := by
    rintro rfl
    rw [found] at unused
    cases unused
  have atActor : (s.forked actor place d).descriptors actor =
      some { d with referenceCount := d.referenceCount + 1, child := place } := by
    rw [forked_descriptors, if_pos rfl]
  have atPlace : (s.forked actor place d).descriptors place = some (s.newborn actor) := by
    rw [forked_descriptors, if_neg apart, if_pos rfl]
  have elsewhere : ∀ x, x ≠ actor → x ≠ place → ∀ field,
      (s.forked actor place d).pointed x field = s.pointed x field := by
    intro x notActor notPlace field
    refine pointed_congr ?_
    rw [forked_descriptors, if_neg notActor, if_neg notPlace]
  funext holder
  cases holder with
  | queue x =>
    rw [update_of_ne (by simp), update_of_ne (by simp), update_apply]
    change (if x ∈ s.readyQueue ++ [place] then some x else none) = _
    by_cases new : x = place
    · rw [if_pos (by simp [new]), if_pos (by rw [new]), new]
    · rw [if_neg (fun same => new (Holder.queue.inj same))]
      exact if_congr (by simp [new]) rfl rfl
  | waiter x =>
    rw [update_of_ne (by simp), update_apply, update_of_ne (by simp)]
    change (s.forked actor place d).pointed x Process.child = _
    by_cases own : x = actor
    · rw [if_pos (by rw [own]), own, pointed_some atActor alive, if_pos nonzero]
    rw [if_neg (fun same => own (Holder.waiter.inj same))]
    by_cases new : x = place
    · rw [new, pointed_some atPlace rfl, if_neg (fun some => some rfl)]
      exact (pointed_dead (fun e there => by rw [unused] at there; cases there) _).symm
    · exact elsewhere x own new _
  | offspring x =>
    rw [update_apply, update_of_ne (by simp), update_of_ne (by simp)]
    change (s.forked actor place d).pointed x Process.parent = _
    by_cases new : x = place
    · rw [if_pos (by rw [new]), new, pointed_some atPlace rfl]
      exact if_pos (sound.nonzero found)
    rw [if_neg (fun same => new (Holder.offspring.inj same))]
    by_cases own : x = actor
    · refine pointed_congr ?_
      rw [own, atActor, found]
      rfl
    · exact elsewhere x own new _

theorem counts_forked (s : System) (actor place : Nat) (d : Process) :
    (s.forked actor place d).counts = update (update (update s.counts
      place (some 1)) place (some 2)) actor (some (d.referenceCount + 1)) := by
  funext x
  unfold counts
  rw [forked_descriptors, update_apply]
  split
  · rfl
  rw [update_apply]
  split
  · rfl
  · rename_i other
    rw [update_of_ne other]

theorem counts_dropped (d : Process) :
    (dropped d).map Process.referenceCount =
      if d.referenceCount - 1 = 0 then none else some (d.referenceCount - 1) := by
  unfold dropped
  split
  · rfl
  · rfl

/-- A process that ends takes the references it had and its place in the queue with it. -/
theorem refers_exited (sound : s.Sound) (p : Nat) (d : Process) (status : Int) :
    (s.exited p d status).refers = update (update (update s.refers
      (.offspring p) none) (.waiter p) none) (.queue p) none := by
  have gone : ∀ field, (s.exited p d status).pointed p field = none :=
    pointed_dead fun e there => by rw [ended_self there]
  have elsewhere : ∀ x, x ≠ p → ∀ field, (∀ e, field (notified status e) = field e) →
      (s.exited p d status).pointed x field = s.pointed x field := by
    intro x other field kept
    refine pointed_congr ?_
    change (s.ended p d status x).map _ = _
    unfold ended
    rw [if_neg other]
    split
    · rw [map_map]
      refine congrArg (Option.map · _) (funext fun e => ?_)
      exact Prod.ext rfl (kept e)
    · rfl
  funext holder
  cases holder with
  | queue x =>
    rw [update_apply]
    change (if x ∈ s.readyQueue.erase p then some x else none) = _
    by_cases same : x = p
    · rw [if_pos (congrArg Holder.queue same),
        if_neg (fun inside => (sound.nodup.mem_erase_iff.mp inside).1 same)]
    · rw [if_neg (fun eq => same (Holder.queue.inj eq)), update_of_ne (by simp),
        update_of_ne (by simp)]
      exact if_congr (sound.nodup.mem_erase_iff.trans (and_iff_right same)) rfl rfl
  | waiter x =>
    rw [update_of_ne (by simp), update_apply]
    by_cases same : x = p
    · rw [if_pos (by rw [same]), same]
      exact gone _
    · rw [if_neg (fun eq => same (Holder.waiter.inj eq)), update_of_ne (by simp)]
      exact elsewhere x same _ fun _ => rfl
  | offspring x =>
    rw [update_of_ne (by simp), update_of_ne (by simp), update_apply]
    by_cases same : x = p
    · rw [if_pos (by rw [same]), same]
      exact gone _
    · rw [if_neg (fun eq => same (Holder.offspring.inj eq))]
      exact elsewhere x same _ fun _ => rfl

theorem counts_exited (s : System) (p : Nat) (d : Process) (status : Int) :
    (s.exited p d status).counts = update s.counts p
      (if d.referenceCount - 1 = 0 then none else some (d.referenceCount - 1)) := by
  funext x
  change (s.ended p d status x).map _ = _
  rw [update_apply]
  unfold ended
  split
  · exact counts_dropped { d with dead := true }
  split
  · rw [map_map]
    rfl
  · rfl

/-- A process that reaps its child gives up its reference to it. -/
theorem refers_reaped (found : s.descriptors actor = some d)
    (there : s.descriptors d.child = some c) (dead : c.dead = true) :
    (s.reaped actor d c).refers = update s.refers (.waiter actor) none := by
  have atActor : (s.reaped actor d c).descriptors actor =
      some { d with child := 0, inWait := false } := by
    rw [reaped_descriptors, if_pos rfl]
  have elsewhere : ∀ x, x ≠ actor → ∀ field,
      (s.reaped actor d c).pointed x field = s.pointed x field := by
    intro x other field
    by_cases gone : x = d.child
    · rw [gone, pointed_dead (s := s)]
      · refine pointed_dead (fun e left => ?_) field
        rw [reaped_descriptors, if_neg (gone ▸ other), if_pos rfl] at left
        rw [dropped_some left]
        exact dead
      · intro e before
        rw [there] at before
        cases before
        exact dead
    · refine pointed_congr ?_
      rw [reaped_descriptors, if_neg other, if_neg gone]
  funext holder
  cases holder with
  | queue x =>
    rfl
  | waiter x =>
    rw [update_apply]
    by_cases own : x = actor
    · rw [if_pos (congrArg Holder.waiter own), own]
      change (s.reaped actor d c).pointed actor Process.child = none
      unfold pointed
      rw [atActor]
      exact if_neg fun both => both.2 rfl
    · rw [if_neg (fun eq => own (Holder.waiter.inj eq))]
      exact elsewhere x own _
  | offspring x =>
    by_cases own : x = actor
    · refine pointed_congr ?_
      rw [own, atActor, found]
      rfl
    · exact elsewhere x own _

theorem counts_reaped (found : s.descriptors actor = some d) (apart : d.child ≠ actor) :
    (s.reaped actor d c).counts = update s.counts d.child
      (if c.referenceCount - 1 = 0 then none else some (c.referenceCount - 1)) := by
  funext x
  unfold counts
  rw [reaped_descriptors, update_apply]
  by_cases own : x = actor
  · rw [if_pos own, if_neg (fun same => apart (same.symm.trans own)), own, found]
    rfl
  rw [if_neg own]
  split
  · exact counts_dropped c
  · rfl

theorem refers_set (found : s.descriptors p = some d) (parent : e.parent = d.parent)
    (child : e.child = d.child) (dead : e.dead = d.dead) : (s.set p e).refers = s.refers := by
  have pointers : ∀ x field, field e = field d →
      (s.set p e).pointed x field = s.pointed x field := by
    intro x field kept
    refine pointed_congr ?_
    by_cases same : x = p
    · rw [same, System.set, put_self, found]
      exact congrArg some (Prod.ext dead kept)
    · rw [System.set, put_of_ne same]
  funext holder
  cases holder with
  | queue x => rfl
  | waiter x => exact pointers x Process.child child
  | offspring x => exact pointers x Process.parent parent

theorem counts_set (found : s.descriptors p = some d)
    (count : e.referenceCount = d.referenceCount) : (s.set p e).counts = s.counts := by
  funext x
  unfold counts
  by_cases same : x = p
  · rw [same, System.set, put_self, found]
    exact congrArg some count
  · rw [System.set, put_of_ne same]

theorem Accounted.of_counted (counted : Counted s.counts s.refers) : s.Accounted := by
  refine ⟨counted, fun x => ⟨?_, ?_⟩⟩
  · rintro ⟨d, found⟩
    have count : s.counts x = some d.referenceCount := by rw [counts, found]; rfl
    have exact := counted.exact x
    rw [count, getD_some] at exact
    have positive : d.referenceCount ≠ 0 := fun zero => counted.positive x (zero ▸ count)
    obtain ⟨holder, held⟩ : (holders s.refers x).Nonempty := by
      rw [← Set.ncard_pos (counted.holders_finite x)]
      omega
    exact ⟨holder, held⟩
  · rintro ⟨holder, held⟩
    obtain ⟨n, count⟩ := counted.live held
    obtain ⟨d, found, -⟩ := map_eq_some_iff.mp count
    exact ⟨d, found⟩

theorem Accounted.taskingInit (place : Nat) : (taskingInit place).Accounted := by
  refine .of_counted ?_
  have taken := (Counted.empty (ι := Holder)).take (i := .queue place) (o := place) rfl
  have refers : (System.taskingInit place).refers =
      update (fun _ => none) (.queue place) (some place) := by
    have fields : ∀ x field, field { pid := 0, referenceCount := 1, parent := 0 } = 0 →
        (System.taskingInit place).pointed x field = none := by
      intro x field zero
      unfold pointed
      rw [taskingInit_descriptors]
      by_cases same : x = place
      · rw [if_pos same]
        exact if_neg fun both => both.2 zero
      · rw [if_neg same]
    funext holder
    cases holder with
    | queue x =>
      rw [update_apply]
      change (if x ∈ [place] then some x else none) = _
      by_cases same : x = place
      · rw [if_pos (List.mem_singleton.mpr same), if_pos (congrArg Holder.queue same), same]
      · rw [if_neg (fun inside => same (List.mem_singleton.mp inside)),
          if_neg (fun eq => same (Holder.queue.inj eq))]
    | waiter x =>
      exact fields x _ rfl
    | offspring x =>
      exact fields x _ rfl
  have counts : (System.taskingInit place).counts =
      update (fun _ => none) place (some 1) := by
    funext x
    rw [System.counts, taskingInit_descriptors, update_apply]
    split
    · rfl
    · rfl
  rw [refers, counts]
  exact taken

end System

/-- The states that runs from `start` reach whose steps are all allowed. -/
inductive Visited (allowed : System → Nat → Action → Prop) (start : System) : System → Prop where
  | start : Visited allowed start start
  | step (before : Visited allowed start s) (enabled : s.Enabled actor action)
      (meets : allowed s actor action) (returned : s.step actor action = .ok (result, t)) :
      Visited allowed start t

/-- A process forks only when it has no child, and ends only when it has neither child
nor parent. -/
def Careful (s : System) (actor : Nat) : Action → Prop
  | .fork (.created _) => (s.descriptors actor).map Process.child = some 0
  | .exit _ => (s.descriptors actor).map (fun d => (d.child, d.parent)) = some (0, 0)
  | .kill p _ => (s.descriptors p).map (fun d => (d.child, d.parent)) = some (0, 0)
  | _ => True

variable {s t : System} {d e c : Process} {p actor place : Nat}

namespace System

theorem counts_eq (found : s.descriptors p = some d) : s.counts p = some d.referenceCount := by
  rw [counts, found]
  rfl

/-- The references of a step that forks, taken one after the other. -/
theorem forked_taken {Good : (Nat → Option Nat) → (Holder → Option Nat) → Prop}
    (found : s.descriptors actor = some d) (unused : s.descriptors place = none)
    (taken : ∀ count refers i o, Good count refers → refers i = none →
      Good (update count o (some ((count o).getD 0 + 1)))
        (update refers i (some o)))
    (sound : s.Sound) (alive : d.dead = false) (nonzero : place ≠ 0)
    (good : Good s.counts (update s.refers (.waiter actor) none)) :
    Good (s.forked actor place d).counts (s.forked actor place d).refers := by
  have apart : actor ≠ place := by
    rintro rfl
    rw [found] at unused
    cases unused
  have outside : s.refers (.queue place) = none := by
    refine if_neg fun queued => ?_
    obtain ⟨e, there, -⟩ := (sound.ready place).mp queued
    rw [unused] at there
    cases there
  have noParent : s.refers (.offspring place) = none :=
    pointed_dead (fun e there => by rw [unused] at there; cases there) _
  have noCount : s.counts place = none := by rw [counts, unused]; rfl
  have first := taken _ _ (.queue place) place good
    (by rw [update_of_ne (by simp), outside])
  have second := taken _ _ (.waiter actor) place first
    (by rw [update_of_ne (by simp), update_self])
  have third := taken _ _ (.offspring place) actor second
    (by rw [update_of_ne (by simp), update_of_ne (by simp),
      update_of_ne (by simp), noParent])
  rw [counts_forked, refers_forked sound found alive nonzero unused]
  rw [update_self, update_of_ne apart, update_of_ne apart, noCount,
    counts_eq found] at third
  -- the reference of the parent is written twice
  have once : update (update (update s.refers (.waiter actor) none)
      (.queue place) (some place)) (.waiter actor) (some place) =
        update (update s.refers (.queue place) (some place)) (.waiter actor)
          (some place) := by
    funext holder
    by_cases waits : holder = .waiter actor
    · rw [waits, update_self, update_self]
    · simp only [update_apply, if_neg waits]
  rw [once] at third
  exact third

theorem unmoved_set {Good : (Nat → Option Nat) → (Holder → Option Nat) → Prop}
    (found : s.descriptors p = some d) (parent : e.parent = d.parent) (child : e.child = d.child)
    (dead : e.dead = d.dead) (count : e.referenceCount = d.referenceCount)
    (good : Good s.counts s.refers) : Good (s.set p e).counts (s.set p e).refers := by
  rw [counts_set found count, refers_set found parent child dead]
  exact good

theorem taken_free (good : Counted s.counts s.refers) (found : s.descriptors actor = some d)
    (alive : d.dead = false) (child : d.child = 0) :
    Counted s.counts (update s.refers (.waiter actor) none) := by
  have none : s.refers (.waiter actor) = none := by
    change s.pointed actor Process.child = none
    rw [pointed_some found alive, if_neg (fun some => some child)]
  rw [← none, update_eq_self]
  exact good

section
variable (sound : s.Sound) (counted : Counted s.counts s.refers)
include sound counted

theorem counted_exited (found : s.descriptors p = some d) (alive : d.dead = false)
    (alone : (s.descriptors p).map (fun d => (d.child, d.parent)) = some (0, 0)) :
    Counted (s.exited p d status).counts (s.exited p d status).refers := by
  rw [found] at alone
  have both := Prod.mk.inj (some.inj alone)
  have noChild : s.refers (.waiter p) = none := by
    change s.pointed p Process.child = none
    rw [pointed_some found alive, if_neg (fun some => some both.1)]
  have noParent : s.refers (.offspring p) = none := by
    change s.pointed p Process.parent = none
    rw [pointed_some found alive, if_neg (fun some => some both.2)]
  have queued : s.refers (.queue p) = some p :=
    if_pos ((sound.ready p).mpr ⟨d, found, alive⟩)
  obtain ⟨n, count⟩ := counted.live queued
  have gone := counted.drop queued count
  rw [counts_eq found] at count
  rw [counts_exited, refers_exited sound, some.inj count, Nat.add_sub_cancel, ← noParent,
    update_eq_self, noParent, ← noChild, update_eq_self, noChild]
  exact gone

omit sound counted in
theorem refers_waiter (found : s.descriptors actor = some d) (alive : d.dead = false)
    (linked : d.child ≠ 0) : s.refers (.waiter actor) = some d.child := by
  change s.pointed actor Process.child = _
  rw [pointed_some found alive, if_pos linked]

theorem counted_reaped (found : s.descriptors actor = some d) (alive : d.dead = false)
    (there : s.descriptors d.child = some c) (dead : c.dead = true)
    (positive : c.referenceCount ≠ 0) :
    Counted (s.reaped actor d c).counts (s.reaped actor d c).refers := by
  obtain ⟨n, count⟩ := Nat.exists_eq_succ_of_ne_zero positive
  rw [counts_reaped found (sound.child_ne found there), refers_reaped found there dead, count,
    Nat.succ_sub_one]
  exact counted.drop (refers_waiter found alive (sound.nonzero there))
    (by rw [counts_eq there, count])

/-- A step of a careful process keeps the counts exact. -/
theorem counted_step (enabled : s.Enabled actor action) (careful : Careful s actor action)
    (returned : s.step actor action = .ok (result, t)) : Counted t.counts t.refers := by
  obtain ⟨a, living, alive⟩ := (sound.ready actor).mp enabled.ready
  have same : ∀ {e}, s.descriptors actor = some e → e = a := by
    intro e there
    rw [living] at there
    cases there
    rfl
  cases step_effect sound enabled returned with
  | noMemory | notCopied | noChild | asleep => exact counted
  | forked found =>
    cases same found
    obtain ⟨nonzero, unused⟩ := enabled.fresh _ rfl
    have free : a.child = 0 := by
      have none : (s.descriptors actor).map Process.child = some 0 := careful
      rw [found] at none
      exact some.inj none
    exact forked_taken found unused (fun _ _ _ _ good free => good.take free) sound alive nonzero
      (taken_free counted found alive free)
  | exited found =>
    cases same found
    exact counted_exited sound counted found alive careful
  | killed found =>
    obtain ⟨e, there, running⟩ := (sound.ready _).mp (enabled.victim _ _ rfl).1
    rw [found] at there
    cases there
    exact counted_exited sound counted found running careful
  | slept found | woken found =>
    exact unmoved_set found rfl rfl rfl rfl counted
  | reaped found _ there dead positive | collected found _ there dead positive =>
    cases same found
    exact counted_reaped sound counted found alive there dead positive

end

/-- The end of a process that has a parent: the reference to the parent is gone, and the
parent's count is as it was. -/
theorem not_accounted_exited (sound : s.Sound) (accounted : s.Accounted)
    (found : s.descriptors p = some d) (alive : d.dead = false) (parent : d.parent ≠ 0) :
    ¬ (s.exited p d status).Accounted := by
  intro after
  have apart : d.parent ≠ p := sound.own p d found
  have held : Holder.offspring p ∈ holders s.refers d.parent := by
    change s.pointed p Process.parent = some d.parent
    rw [pointed_some found alive, if_pos parent]
  have fewer : holders (s.exited p d status).refers d.parent ⊂ holders s.refers d.parent := by
    rw [refers_exited sound, holders_clear, holders_clear, holders_clear, Set.ssubset_iff_of_subset]
    · exact ⟨_, held, fun inside => inside.1.1.2 rfl⟩
    · exact fun _ inside => inside.1.1.1
  have less := Set.ncard_lt_ncard fewer (accounted.counted.holders_finite d.parent)
  rw [← accounted.counted.exact, ← after.counted.exact, counts_exited,
    update_of_ne apart] at less
  exact less.false

end System

/-- Every state that is reached has sound descriptors. -/
theorem Visited.sound (nonzero : place ≠ 0)
    (visited : Visited allowed (taskingInit place) s) : s.Sound := by
  induction visited with
  | start => exact .taskingInit place nonzero
  | step before enabled meets returned ih => exact ih.step enabled returned

/-- The reference counts are exact in every run whose steps are all allowed. -/
def AlwaysAccounted (allowed : System → Nat → Action → Prop) (place : Nat) : Prop :=
  ∀ s, Visited allowed (taskingInit place) s → s.Accounted

theorem reference_counts_exact_when_careful (nonzero : place ≠ 0) :
    AlwaysAccounted Careful place := by
  intro s visited
  induction visited with
  | start => exact .taskingInit place
  | step before enabled careful returned ih =>
    exact .of_counted
      (counted_step (Visited.sound nonzero before) ih.counted enabled careful returned)

/-- The first process, at 20, has forked one at 30. -/
def firstFork : System :=
  ((taskingInit 10).forked 10 20 { pid := 0, referenceCount := 1, parent := 0 }).forked 20 30
    { pid := 1, referenceCount := 2, parent := 10, childRc := -1 }

theorem Visited.firstFork (forks : ∀ s actor place,
      (s.descriptors actor).map Process.child = some 0 → allowed s actor (.fork (.created place))) :
    Visited allowed (taskingInit 10) firstFork :=
  .step (.step .start (show Enabled _ 10 (.fork (.created 20)) by decide) (forks _ _ _ rfl) rfl)
    (show Enabled _ 20 (.fork (.created 30)) by decide) (forks _ _ _ rfl) rfl

theorem reference_counts_exact_when_careful_at :
    Visited Careful (taskingInit 10) firstFork ∧ AlwaysAccounted Careful 10 ∧
      firstFork.Accounted := by
  have visited : Visited Careful (taskingInit 10) firstFork :=
    .firstFork fun _ _ _ childless => childless
  have always : AlwaysAccounted Careful 10 := reference_counts_exact_when_careful (by decide)
  exact ⟨visited, always, always _ visited⟩

/-- A step of `fork`, `exit` or `wait`. -/
def Unforced (_ : System) (_ : Nat) : Action → Prop
  | .kill _ _ => False
  | _ => True

/-- A process that ends leaves the count of its parent too high by one. -/
theorem exit_keeps_parent_counted : ¬ ∀ place, place ≠ 0 → AlwaysAccounted Unforced place := by
  intro claimed
  have visited : Visited Unforced (taskingInit 10) firstFork := .firstFork fun _ _ _ _ => trivial
  have sound := visited.sound (by decide)
  have enabled : firstFork.Enabled 30 (.exit 5) := by decide
  obtain ⟨⟨result, t⟩, ran, -⟩ := of_report (show
    (firstFork.step 30 (.exit 5)).toOption.map (fun _ => ()) = some () by decide +kernel)
  have accounted := claimed 10 (by decide) t (.step visited enabled trivial ran)
  cases step_effect sound enabled ran with
  | exited found =>
    cases found
    exact not_accounted_exited sound (claimed 10 (by decide) _ visited) rfl rfl (by decide)
      accounted

end SbOS.Sched
