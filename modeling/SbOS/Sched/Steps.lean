import SbOS.Sched.Processes
import Mathlib.Data.List.Nodup

/-! What one step of a process does to the descriptors, with a case for each way the
step can end, and that the structure of the descriptors outlasts every step. -/
namespace SbOS.Sched.System
open Kernel

/-- The descriptor of a process that has just been forked. -/
def newborn (s : System) (parent : Nat) : Process :=
  { pid := s.nextPid, referenceCount := 2, parent, childRc := -1 }

/-- The state after `actor`, with the descriptor `d`, has forked a process at `place`. -/
def forked (s : System) (actor place : Nat) (d : Process) : System :=
  { (s.set place (s.newborn actor)).set actor
      { d with referenceCount := d.referenceCount + 1, child := place } with
    readyQueue := s.readyQueue ++ [place], nextPid := s.nextPid + 1 }

/-- The state after `p`, with the descriptor `d`, has ended. -/
def exited (s : System) (p : Nat) (d : Process) (status : Int) : System :=
  ⟨s.ended p d status, s.readyQueue.erase p, s.nextPid⟩

/-- The state after `actor`, with the descriptor `d`, has let go of its child `c`. -/
def reaped (s : System) (actor : Nat) (d c : Process) : System :=
  (s.put d.child (dropped c)).set actor { d with child := 0, inWait := false }

/-- The ways a step can end. -/
inductive Effect (s : System) (actor : Nat) : Action → WaitResult → System → Prop where
  | noMemory : Effect s actor (.fork .noMemory) .blocked s
  | notCopied : Effect s actor (.fork .notCopied) .blocked { s with nextPid := s.nextPid + 1 }
  | forked {d : Process} (found : s.descriptors actor = some d) :
      Effect s actor (.fork (.created place)) .blocked (s.forked actor place d)
  | exited {d : Process} (found : s.descriptors actor = some d) (counted : d.referenceCount ≠ 0) :
      Effect s actor (.exit status) .blocked (s.exited actor d status)
  | killed {d : Process} (found : s.descriptors p = some d) (counted : d.referenceCount ≠ 0) :
      Effect s actor (.kill p status) .blocked (s.exited p d status)
  | noChild {d : Process} (found : s.descriptors actor = some d) (none : d.child = 0) :
      Effect s actor .wait .noChild s
  | slept {d c : Process} (found : s.descriptors actor = some d) (some : d.child ≠ 0)
      (there : s.descriptors d.child = .some c) (alive : c.dead = false) :
      Effect s actor .wait .blocked (s.set actor { d with waitHalt := true, inWait := true })
  | reaped {d c : Process} (found : s.descriptors actor = some d) (some : d.child ≠ 0)
      (there : s.descriptors d.child = .some c) (dead : c.dead = true)
      (counted : c.referenceCount ≠ 0) :
      Effect s actor .wait (.status d.childRc) (s.reaped actor d c)
  | asleep {d : Process} (found : s.descriptors actor = some d) (halted : d.waitHalt = true) :
      Effect s actor .resume .blocked s
  | woken {d c : Process} (found : s.descriptors actor = some d) (free : d.waitHalt = false)
      (there : s.descriptors d.child = .some c) (alive : c.dead = false) :
      Effect s actor .resume (.status d.childRc) (s.set actor { d with inWait := false })
  | collected {d c : Process} (found : s.descriptors actor = some d) (free : d.waitHalt = false)
      (there : s.descriptors d.child = .some c) (dead : c.dead = true)
      (counted : c.referenceCount ≠ 0) :
      Effect s actor .resume (.status d.childRc) (s.reaped actor d c)

variable {s t : System} {d c : Process} {actor place p : Nat}

/-- A process is not its own child. -/
theorem Sound.child_ne (sound : s.Sound) (found : s.descriptors x = some d)
    (there : s.descriptors d.child = some c) : d.child ≠ x := by
  intro same
  have nonzero : d.child ≠ 0 := by
    intro zero
    rw [zero, sound.null] at there
    cases there
  obtain ⟨c', there', parent, -⟩ := sound.child x d found nonzero
  rw [there] at there'
  cases there'
  exact sound.own d.child c there (parent.trans same.symm)

theorem reap_ok (sound : s.Sound) (found : s.descriptors actor = some d)
    (there : s.descriptors d.child = some c) (returned : s.reap actor d.child = .ok t) :
    c.referenceCount ≠ 0 ∧ t = s.reaped actor d c := by
  obtain ⟨u, removed, returned⟩ := of_ok_then returned
  obtain ⟨c', there', counted, rfl⟩ := processRemoveReference_ok removed
  rw [there] at there'
  cases there'
  obtain ⟨d', found', returned⟩ := of_ok_then returned
  have found' := descriptor_ok found'
  rw [put_of_ne (sound.child_ne found there).symm, found] at found'
  cases found'
  cases returned
  exact ⟨counted, rfl⟩

theorem map_ok {x : Except Stop System} (returned : x.map (WaitResult.blocked, ·) = .ok (r, t)) :
    x = .ok t ∧ r = .blocked := by
  cases x with
  | error stop => cases returned
  | ok u => cases returned; exact ⟨rfl, rfl⟩

/-- Descriptors that agree in what the structure is made of. -/
structure Alike (d e : Process) : Prop where
  parent : e.parent = d.parent
  child : e.child = d.child
  dead : e.dead = d.dead
  counted : d.referenceCount ≤ e.referenceCount

theorem Alike.refl (d : Process) : Alike d d := ⟨rfl, rfl, rfl, le_refl _⟩

theorem notified_alike (status : Int) (e : Process) : Alike e (notified status e) :=
  ⟨rfl, rfl, rfl, le_refl _⟩

theorem Sound.nonzero (sound : s.Sound) (found : s.descriptors x = some d) : x ≠ 0 := by
  rintro rfl
  rw [sound.null] at found
  cases found

/-- The structure is kept where every descriptor stays alike. -/
theorem Sound.set (sound : s.Sound) (found : s.descriptors p = some d) (alike : Alike d e) :
    (s.set p e).Sound := by
  have forth : ∀ x c, s.descriptors x = some c →
      ∃ c', (s.set p e).descriptors x = some c' ∧ Alike c c' := by
    intro x c there
    by_cases same : x = p
    · subst same
      rw [found] at there
      cases there
      exact ⟨e, put_self _ _ _, alike⟩
    · exact ⟨c, (put_of_ne same _ _).trans there, .refl c⟩
  have back : ∀ x c', (s.set p e).descriptors x = some c' →
      ∃ c, s.descriptors x = some c ∧ Alike c c' := by
    intro x c' there
    by_cases same : x = p
    · subst same
      rw [System.set, put_self] at there
      cases there
      exact ⟨d, found, alike⟩
    · rw [System.set, put_of_ne same] at there
      exact ⟨c', there, .refl c'⟩
  refine ⟨sound.nodup, ?_, fun x => ?_, fun x c' there => ?_, fun x c' there linked => ?_⟩
  · rw [System.set, put_of_ne (sound.nonzero found).symm, sound.null]
  · refine (sound.ready x).trans ⟨?_, ?_⟩
    · rintro ⟨c, there, alive⟩
      obtain ⟨c', there', alike⟩ := forth x c there
      exact ⟨c', there', alike.dead.trans alive⟩
    · rintro ⟨c', there', alive⟩
      obtain ⟨c, there, alike⟩ := back x c' there'
      exact ⟨c, there, alike.dead.symm.trans alive⟩
  · obtain ⟨c, before, alike⟩ := back x c' there
    rw [alike.parent]
    exact sound.own x c before
  · obtain ⟨c, before, alike⟩ := back x c' there
    rw [alike.child] at linked ⊢
    obtain ⟨b, child, parent, counted⟩ := sound.child x c before linked
    obtain ⟨b', child', alike⟩ := forth _ b child
    exact ⟨b', child', alike.parent.trans parent, counted.trans alike.counted⟩

theorem forked_descriptors (s : System) (actor place : Nat) (d : Process) (x : Nat) :
    (s.forked actor place d).descriptors x =
      if x = actor then some { d with referenceCount := d.referenceCount + 1, child := place }
      else if x = place then some (s.newborn actor)
      else s.descriptors x := by
  change (System.set ..).descriptors x = _
  simp only [System.set, put_apply]

theorem Sound.forked (sound : s.Sound) (found : s.descriptors actor = some d)
    (alive : d.dead = false) (nonzero : place ≠ 0) (unused : s.descriptors place = none) :
    (s.forked actor place d).Sound := by
  have apart : place ≠ actor := by
    rintro rfl
    rw [found] at unused
    cases unused
  have outside : place ∉ s.readyQueue := by
    intro queued
    obtain ⟨e, there, -⟩ := (sound.ready place).mp queued
    rw [unused] at there
    cases there
  refine ⟨?_, ?_, fun x => ?_, fun x e there => ?_, fun x e there linked => ?_⟩
  · exact List.nodup_append.mpr ⟨sound.nodup, by simp, fun a queued b new same =>
      outside (List.mem_singleton.mp new ▸ same ▸ queued)⟩
  · rw [forked_descriptors, if_neg (sound.nonzero found).symm, if_neg nonzero.symm, sound.null]
  · rw [forked_descriptors]
    change x ∈ s.readyQueue ++ [place] ↔ _
    rw [List.mem_append, List.mem_singleton, sound.ready x]
    by_cases isActor : x = actor
    · rw [if_pos isActor]
      exact iff_of_true (.inl ⟨d, isActor ▸ found, alive⟩) ⟨_, rfl, alive⟩
    rw [if_neg isActor]
    by_cases new : x = place
    · rw [if_pos new]
      exact iff_of_true (.inr new) ⟨_, rfl, rfl⟩
    · rw [if_neg new]
      exact or_iff_left new
  · rw [forked_descriptors] at there
    split at there
    · cases there
      rename_i isActor
      exact isActor ▸ sound.own actor d found
    split at there
    · cases there
      rename_i new
      exact new ▸ apart.symm
    · exact sound.own x e there
  · have keeps : ∀ b c, s.descriptors b = some c → ∃ c',
        (s.forked actor place d).descriptors b = some c' ∧ c'.parent = c.parent ∧
          c.referenceCount ≤ c'.referenceCount := by
      intro b c before
      rw [forked_descriptors]
      split
      · rename_i isActor
        rw [isActor, found] at before
        cases before
        exact ⟨_, rfl, rfl, Nat.le_succ _⟩
      split
      · rename_i new
        rw [new, unused] at before
        cases before
      · exact ⟨c, before, rfl, le_refl _⟩
    rw [forked_descriptors] at there
    split at there
    · cases there
      rename_i isActor
      refine ⟨s.newborn actor, ?_, isActor.symm, ?_⟩
      · rw [forked_descriptors, if_neg apart, if_pos rfl]
      · change 1 + (if place ∈ s.readyQueue ++ [place] then 1 else 0) ≤ 2
        rw [if_pos (by simp)]
    split at there
    · cases there
      exact absurd rfl linked
    · obtain ⟨c, before, parent, counted⟩ := sound.child x e there linked
      obtain ⟨c', after, parent', counted'⟩ := keeps _ c before
      refine ⟨c', after, parent'.trans parent, ?_⟩
      have different : e.child ≠ place := by
        intro same
        rw [same, unused] at before
        cases before
      have queued : e.child ∈ s.readyQueue ++ [place] ↔ e.child ∈ s.readyQueue := by
        rw [List.mem_append, List.mem_singleton]
        exact or_iff_left different
      change 1 + (if e.child ∈ s.readyQueue ++ [place] then 1 else 0) ≤ _
      rw [if_congr queued rfl rfl]
      exact counted.trans counted'

theorem dropped_some (there : dropped d = some e) :
    e = { d with referenceCount := d.referenceCount - 1 } := by
  unfold dropped at there
  split at there
  · cases there
  · exact (Option.some.inj there).symm

theorem dropped_of_two (several : 2 ≤ d.referenceCount) :
    dropped d = some { d with referenceCount := d.referenceCount - 1 } :=
  if_neg (by omega)

/-- The descriptors other than that of the process that ends stay alike. -/
theorem ended_forth (d : Process) (status : Int) (other : x ≠ p)
    (before : s.descriptors x = some c) :
    ∃ e, s.ended p d status x = some e ∧ Alike c e := by
  unfold ended
  rw [if_neg other, before]
  split
  · exact ⟨_, rfl, notified_alike status c⟩
  · exact ⟨c, rfl, .refl c⟩

theorem ended_back (other : x ≠ p) (there : s.ended p d status x = some e) :
    ∃ c, s.descriptors x = some c ∧ Alike c e := by
  unfold ended at there
  rw [if_neg other] at there
  split at there
  · obtain ⟨c, before, rfl⟩ := Option.map_eq_some_iff.mp there
    exact ⟨c, before, notified_alike status c⟩
  · exact ⟨e, there, .refl e⟩

theorem ended_self (there : s.ended p d status p = some e) :
    e = { d with dead := true, referenceCount := d.referenceCount - 1 } := by
  unfold ended at there
  rw [if_pos rfl] at there
  exact dropped_some there

theorem Sound.exited (sound : s.Sound) (found : s.descriptors p = some d)
    (alive : d.dead = false) (status : Int) : (s.exited p d status).Sound := by
  have queued : p ∈ s.readyQueue := (sound.ready p).mpr ⟨d, found, alive⟩
  have member : ∀ x, x ∈ s.readyQueue.erase p ↔ x ≠ p ∧ x ∈ s.readyQueue :=
    fun x => sound.nodup.mem_erase_iff
  refine ⟨sound.nodup.erase p, ?_, fun x => ?_, fun x e there => ?_, fun x e there linked => ?_⟩
  · change s.ended p d status 0 = none
    rw [ended, if_neg (sound.nonzero found).symm, sound.null]
    split <;> rfl
  · refine (member x).trans ⟨?_, ?_⟩
    · rintro ⟨other, queued⟩
      obtain ⟨c, before, alive⟩ := (sound.ready x).mp queued
      obtain ⟨e, there, alike⟩ := ended_forth d status other before
      exact ⟨e, there, alike.dead.trans alive⟩
    · rintro ⟨e, there, alive⟩
      have other : x ≠ p := by
        rintro rfl
        rw [ended_self there] at alive
        cases alive
      obtain ⟨c, before, alike⟩ := ended_back other there
      exact ⟨other, (sound.ready x).mpr ⟨c, before, alike.dead.symm.trans alive⟩⟩
  · by_cases same : x = p
    · subst same
      rw [ended_self there]
      exact sound.own x d found
    · obtain ⟨c, before, alike⟩ := ended_back same there
      rw [alike.parent]
      exact sound.own x c before
  · obtain ⟨c, before, child⟩ : ∃ c, s.descriptors x = some c ∧ e.child = c.child := by
      by_cases same : x = p
      · subst same
        exact ⟨d, found, by rw [ended_self there]⟩
      · obtain ⟨c, before, alike⟩ := ended_back same there
        exact ⟨c, before, alike.child⟩
    rw [child] at linked ⊢
    obtain ⟨b, beneath, parent, counted⟩ := sound.child x c before linked
    by_cases gone : c.child = p
    · -- the child itself ends: its place in the queue and that reference go together
      rw [gone] at beneath counted ⊢
      rw [found] at beneath
      cases beneath
      rw [if_pos queued] at counted
      refine ⟨{ d with dead := true, referenceCount := d.referenceCount - 1 }, ?_, parent, ?_⟩
      · change s.ended p d status p = _
        rw [ended, if_pos rfl]
        exact dropped_of_two counted
      · change 1 + (if p ∈ s.readyQueue.erase p then 1 else 0) ≤ d.referenceCount - 1
        rw [if_neg (fun inside => ((member p).mp inside).1 rfl)]
        omega
    · obtain ⟨b', after, alike⟩ := ended_forth d status gone beneath
      refine ⟨b', after, alike.parent.trans parent, ?_⟩
      have stays : c.child ∈ s.readyQueue.erase p ↔ c.child ∈ s.readyQueue :=
        (member _).trans (and_iff_right gone)
      change 1 + (if c.child ∈ s.readyQueue.erase p then 1 else 0) ≤ _
      rw [if_congr stays rfl rfl]
      exact counted.trans alike.counted

theorem reaped_descriptors (s : System) (actor : Nat) (d c : Process) (x : Nat) :
    (s.reaped actor d c).descriptors x =
      if x = actor then some { d with child := 0, inWait := false }
      else if x = d.child then dropped c
      else s.descriptors x := by
  simp only [System.reaped, System.set, put_apply]

theorem Sound.reaped (sound : s.Sound) (found : s.descriptors actor = some d)
    (there : s.descriptors d.child = some c) (dead : c.dead = true) :
    (s.reaped actor d c).Sound := by
  -- every descriptor that is left was there before, with no more of a child than before
  have back : ∀ x e, (s.reaped actor d c).descriptors x = some e → ∃ b,
      s.descriptors x = some b ∧ e.parent = b.parent ∧ e.dead = b.dead ∧
        (e.child ≠ 0 → e.child = b.child ∧ x ≠ actor) := by
    intro x e left
    rw [reaped_descriptors] at left
    split at left
    · rename_i same
      cases left
      exact ⟨d, same ▸ found, rfl, rfl, fun linked => absurd rfl linked⟩
    rename_i other
    split at left
    · rename_i same
      rw [dropped_some left]
      exact ⟨c, same ▸ there, rfl, rfl, fun _ => ⟨rfl, other⟩⟩
    · exact ⟨e, left, rfl, rfl, fun _ => ⟨rfl, other⟩⟩
  have forth : ∀ x b, s.descriptors x = some b → x ≠ d.child → ∃ e,
      (s.reaped actor d c).descriptors x = some e ∧ e.parent = b.parent ∧
        e.dead = b.dead ∧ e.referenceCount = b.referenceCount := by
    intro x b before other
    rw [reaped_descriptors]
    split
    · rename_i same
      rw [same, found] at before
      cases before
      exact ⟨_, rfl, rfl, rfl, rfl⟩
    · exact ⟨b, before, rfl, rfl, rfl⟩
  refine ⟨sound.nodup, ?_, fun x => ?_, fun x e left => ?_, fun x e left linked => ?_⟩
  · rw [reaped_descriptors, if_neg (sound.nonzero found).symm, if_neg (sound.nonzero there).symm,
      sound.null]
  · refine (sound.ready x).trans ⟨?_, ?_⟩
    · rintro ⟨b, before, alive⟩
      have other : x ≠ d.child := by
        rintro rfl
        rw [there] at before
        cases before
        rw [dead] at alive
        cases alive
      obtain ⟨e, left, -, same, -⟩ := forth x b before other
      exact ⟨e, left, same.trans alive⟩
    · rintro ⟨e, left, alive⟩
      obtain ⟨b, before, -, same, -⟩ := back x e left
      exact ⟨b, before, same.symm.trans alive⟩
  · obtain ⟨b, before, parent, -⟩ := back x e left
    rw [parent]
    exact sound.own x b before
  · obtain ⟨b, before, -, -, kept⟩ := back x e left
    obtain ⟨child, other⟩ := kept linked
    rw [child] at linked ⊢
    obtain ⟨a, beneath, parent, counted⟩ := sound.child x b before linked
    -- the child that goes has only one parent
    have different : b.child ≠ d.child := by
      intro same
      rw [same, there] at beneath
      cases beneath
      have nonzero : d.child ≠ 0 := sound.nonzero there
      obtain ⟨c', there', parent', -⟩ := sound.child actor d found nonzero
      rw [there] at there'
      cases there'
      exact other (parent.symm.trans parent')
    obtain ⟨a', after, parent', -, count⟩ := forth _ a beneath different
    exact ⟨a', after, parent'.trans parent, count ▸ counted⟩

section
variable (sound : s.Sound) (enabled : s.Enabled actor action)
  (returned : s.step actor action = .ok (result, t))
include sound enabled returned

/-- Every step that returns ends in one of these ways. -/
theorem step_effect : Effect s actor action result t := by
  cases action with
  | fork outcome =>
    obtain ⟨ran, rfl⟩ := map_ok returned
    cases outcome with
    | noMemory => cases ran; exact .noMemory
    | notCopied => cases ran; exact .notCopied
    | created place =>
      obtain ⟨d, found, ran⟩ := of_ok_then ran
      obtain ⟨-, unused⟩ := enabled.fresh place rfl
      obtain ⟨e, live, -⟩ := (sound.ready actor).mp enabled.ready
      have apart : actor ≠ place := by
        rintro rfl
        rw [live] at unused
        cases unused
      have found := descriptor_ok found
      rw [System.set, put_of_ne apart] at found
      cases ran
      exact .forked found
  | exit status =>
    obtain ⟨ran, rfl⟩ := map_ok returned
    obtain ⟨d, found, counted, rfl⟩ := exitProcess_ok sound ran
    exact .exited found counted
  | kill p status =>
    obtain ⟨ran, rfl⟩ := map_ok returned
    obtain ⟨d, found, counted, rfl⟩ := exitProcess_ok sound ran
    exact .killed found counted
  | wait =>
    obtain ⟨d, found, returned⟩ := of_ok_then returned
    have found := descriptor_ok found
    by_cases none : d.child = 0
    · rw [if_pos none] at returned
      cases returned
      exact .noChild found none
    rw [if_neg none] at returned
    obtain ⟨c, there, returned⟩ := of_ok_then returned
    have there := descriptor_ok there
    cases dead : c.dead with
    | true =>
      rw [if_pos dead] at returned
      obtain ⟨u, let_go, returned⟩ := of_ok_then returned
      cases returned
      obtain ⟨counted, rfl⟩ := reap_ok sound found there let_go
      exact .reaped found none there dead counted
    | false =>
      rw [if_neg (by rw [dead]; exact Bool.false_ne_true)] at returned
      cases returned
      exact .slept found none there dead
  | resume =>
    obtain ⟨d, found, returned⟩ := of_ok_then returned
    have found := descriptor_ok found
    cases halted : d.waitHalt with
    | true =>
      rw [if_pos halted] at returned
      cases returned
      exact .asleep found halted
    | false =>
      rw [if_neg (by rw [halted]; exact Bool.false_ne_true)] at returned
      obtain ⟨c, there, returned⟩ := of_ok_then returned
      have there := descriptor_ok there
      cases dead : c.dead with
      | true =>
        rw [if_pos dead] at returned
        obtain ⟨u, let_go, returned⟩ := of_ok_then returned
        cases returned
        obtain ⟨counted, rfl⟩ := reap_ok sound found there let_go
        exact .collected found halted there dead counted
      | false =>
        rw [if_neg (by rw [dead]; exact Bool.false_ne_true)] at returned
        cases returned
        exact .woken found halted there dead

/-- The structure outlasts every step. -/
theorem Sound.step : t.Sound := by
  have living : ∀ d, s.descriptors actor = some d → d.dead = false := by
    intro d found
    obtain ⟨e, there, alive⟩ := (sound.ready actor).mp enabled.ready
    rw [found] at there
    cases there
    exact alive
  cases step_effect sound enabled returned with
  | noMemory | noChild | asleep => exact sound
  | notCopied => exact ⟨sound.nodup, sound.null, sound.ready, sound.own, sound.child⟩
  | forked found =>
    obtain ⟨nonzero, unused⟩ := enabled.fresh _ rfl
    exact sound.forked found (living _ found) nonzero unused
  | exited found => exact sound.exited found (living _ found) _
  | killed found =>
    obtain ⟨e, there, alive⟩ := (sound.ready _).mp (enabled.victim _ _ rfl).1
    rw [found] at there
    cases there
    exact sound.exited found alive _
  | slept found | woken found => exact sound.set found ⟨rfl, rfl, rfl, le_refl _⟩
  | reaped found _ there dead | collected found _ there dead => exact sound.reaped found there dead

end

end SbOS.Sched.System
