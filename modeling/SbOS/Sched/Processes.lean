import SbOS.Kernel.Stop
import Mathlib.Logic.Function.Basic

/-! Processes as `fork`, `exit_process` and `syscall_wait` see them
(`kernel/sched/scheduler.c`, `kernel/cpu/syscall.c`). Process descriptors lie in
the kernel heap and are reached by address; the ready queue, which is linked through
them, is kept as the list of its addresses. The scheduler may let any process of
the queue take the next step, so that a run is a list of steps, each by the process
that is `current_task` at the time. -/
namespace SbOS.Sched
open Kernel Function

/-- The fields of `process_t` that matter here, and whether the process is in the loop
of `syscall_wait`. -/
structure Process where
  pid : Nat
  referenceCount : Nat
  /-- `halts[WAIT_CHILD_HALT]` -/
  waitHalt : Bool := false
  parent : Nat
  child : Nat := 0
  childRc : Int := 0
  dead : Bool := false
  inWait : Bool := false
deriving DecidableEq, Repr

structure System where
  descriptors : Nat → Option Process
  readyQueue : List Nat
  nextPid : Nat

/-- How `internal_fork` can end: without a descriptor, without a copy of the parent's
files or memory, or with a new descriptor. -/
inductive ForkOutcome where
  | noMemory
  | notCopied
  | created (place : Nat)
deriving DecidableEq, Repr

/-- What a call of `wait` has come to: there is no child, the status of one, or the
process has been put to sleep. -/
inductive WaitResult where
  | noChild
  | status (childRc : Int)
  | blocked
deriving DecidableEq, Repr

namespace System

/-- A descriptor reached through a pointer. -/
def descriptor (s : System) (p : Nat) : Except Stop Process :=
  match s.descriptors p with
  | some d => .ok d
  | none => .error .dangling

/-- The state with the descriptor of `p` replaced. -/
def put (s : System) (p : Nat) (d : Option Process) : System :=
  { s with descriptors := Function.update s.descriptors p d }

def set (s : System) (p : Nat) (d : Process) : System := s.put p (some d)

/-- `kfree(p)`. -/
def free (s : System) (p : Nat) : System := s.put p none

theorem put_self (s : System) (p : Nat) (d : Option Process) :
    (s.put p d).descriptors p = d := update_self _ _ _

theorem put_apply (s : System) (p : Nat) (d : Option Process) (x : Nat) :
    (s.put p d).descriptors x = if x = p then d else s.descriptors x :=
  update_apply _ _ _ _

theorem put_of_ne (apart : x ≠ p) (s : System) (d : Option Process) :
    (s.put p d).descriptors x = s.descriptors x := update_of_ne apart _ _

/-- `tasking_init`: the process of the kernel. -/
def taskingInit (place : Nat) : System where
  descriptors := Function.update (fun _ => none) place
    (some { pid := 0, referenceCount := 1, parent := 0 })
  readyQueue := [place]
  nextPid := 1

/-- `fork` with `create_process`, by the process `current`. -/
def fork (s : System) (current : Nat) : ForkOutcome → Except Stop System
  | .noMemory => .ok s
  | .notCopied => .ok { s with nextPid := s.nextPid + 1 }
  | .created place => do
    let s' := s.set place
      { pid := s.nextPid, referenceCount := 2, parent := current, childRc := -1 }
    let d ← s'.descriptor current
    let s' := s'.set current { d with referenceCount := d.referenceCount + 1, child := place }
    return { s' with readyQueue := s.readyQueue ++ [place], nextPid := s.nextPid + 1 }

def processRemoveReference (s : System) (p : Nat) : Except Stop System := do
  let d ← s.descriptor p
  check (d.referenceCount ≠ 0)
  if d.referenceCount - 1 = 0 then
    check (p ∉ s.readyQueue)
    return s.free p
  else return s.set p { d with referenceCount := d.referenceCount - 1 }

/-- The first part of `exit_process`: the parent is woken and given the status. -/
def notifyParent (s : System) (parent : Nat) (status : Int) : Except Stop System :=
  if parent = 0 then .ok s
  else do
    let d ← s.descriptor parent
    return s.set parent { d with waitHalt := false, childRc := status }

/-- `p->next`. -/
def next (queue : List Nat) (p : Nat) : Nat := ((queue.dropWhile (· ≠ p)).drop 1).headD 0

/-- The task after one turn of the loop over `new_task` in `exit_process`. -/
def newTask (queue : List Nat) (p : Nat) : Nat :=
  if next queue p = 0 then next queue (queue.headD 0) else next queue p

/-- `exit_process(p, status)` while `current` is running. What `free_process` does is
left out. -/
def exitProcess (s : System) (current p : Nat) (status : Int) : Except Stop System := do
  let d ← s.descriptor p
  check (d.pid ≠ 1)
  let s ← (s.set p { d with dead := true }).notifyParent d.parent status
  -- a turn that ends where it started is followed by another like it
  if newTask s.readyQueue p = p then throw .diverged
  let s := { s with readyQueue := s.readyQueue.erase p }
  if current ≠ p then s.processRemoveReference p
  else
    let d ← s.descriptor p
    check (d.referenceCount ≠ 0)
    if d.referenceCount - 1 = 0 then
      check (s.readyQueue.head? ≠ some p)
      return s.free p
    else return s.set p { d with referenceCount := d.referenceCount - 1 }

/-- The end of `syscall_wait`: a dead child is let go. -/
def reap (s : System) (current child : Nat) : Except Stop System := do
  let s ← s.processRemoveReference child
  let d ← s.descriptor current
  return s.set current { d with child := 0, inWait := false }

/-- `syscall_wait` up to the first `switch_task`. -/
def syscallWait (s : System) (current : Nat) : Except Stop (WaitResult × System) := do
  let d ← s.descriptor current
  if d.child = 0 then return (.noChild, s)
  let c ← s.descriptor d.child
  if c.dead then return (.status d.childRc, ← s.reap current d.child)
  return (.blocked, s.set current { d with waitHalt := true, inWait := true })

/-- `syscall_wait` from where `switch_task` returns. -/
def resumeWait (s : System) (current : Nat) : Except Stop (WaitResult × System) := do
  let d ← s.descriptor current
  if d.waitHalt then return (.blocked, s)
  let c ← s.descriptor d.child
  if c.dead then return (.status d.childRc, ← s.reap current d.child)
  return (.status d.childRc, s.set current { d with inWait := false })

end System

/-- What the running process does next. -/
inductive Action where
  | fork (outcome : ForkOutcome)
  | exit (status : Int)
  /-- `signal_process` ends another process. -/
  | kill (p : Nat) (status : Int)
  | wait
  | resume
deriving DecidableEq, Repr

namespace System

/-- A step of the process `actor`, with the result of a call of `wait`. -/
def step (s : System) (actor : Nat) : Action → Except Stop (WaitResult × System)
  | .fork outcome => (s.fork actor outcome).map (.blocked, ·)
  | .exit status => (s.exitProcess actor actor status).map (.blocked, ·)
  | .kill p status => (s.exitProcess actor p status).map (.blocked, ·)
  | .wait => s.syscallWait actor
  | .resume => s.resumeWait actor

/-- The step can be the next one: the process is in the ready queue, it stays in
`syscall_wait` until that returns, a new descriptor lies in unused memory, and a process
that is ended by a signal is in the ready queue. -/
structure Enabled (s : System) (actor : Nat) (action : Action) : Prop where
  ready : actor ∈ s.readyQueue
  control : ∀ d, s.descriptors actor = some d → (d.inWait = true ↔ action = .resume)
  fresh : ∀ place, action = .fork (.created place) → place ≠ 0 ∧ s.descriptors place = none
  victim : ∀ p status, action = .kill p status → p ∈ s.readyQueue ∧ p ≠ actor

/-- Whether the step can be the next one. -/
def canStep (s : System) (actor : Nat) (action : Action) : Bool :=
  decide (actor ∈ s.readyQueue) &&
  (s.descriptors actor).all (fun d => d.inWait == decide (action = .resume)) &&
  match action with
  | .fork (.created place) => place != 0 && (s.descriptors place).isNone
  | .kill p _ => decide (p ∈ s.readyQueue ∧ p ≠ actor)
  | _ => true

theorem canStep_iff (s : System) (actor : Nat) (action : Action) :
    s.canStep actor action = true ↔ s.Enabled actor action := by
  have running : (s.descriptors actor).all (fun d => d.inWait == decide (action = .resume)) = true ↔
      ∀ d, s.descriptors actor = some d → (d.inWait = true ↔ action = .resume) := by
    rw [Option.all_eq_true]
    refine forall₂_congr fun d _ => ?_
    rw [beq_iff_eq, Bool.eq_iff_iff, decide_eq_true_eq]
  unfold canStep
  rw [Bool.and_eq_true, Bool.and_eq_true, decide_eq_true_eq, running]
  constructor
  · rintro ⟨⟨ready, control⟩, own⟩
    refine ⟨ready, control, ?_, ?_⟩
    · rintro place rfl
      simpa using own
    · rintro p status rfl
      simpa using own
  · rintro ⟨ready, control, fresh, victim⟩
    refine ⟨⟨ready, control⟩, ?_⟩
    split
    · simpa using fresh _ rfl
    · simpa using victim _ _ rfl
    · rfl

instance (s : System) (actor : Nat) (action : Action) : Decidable (s.Enabled actor action) :=
  decidable_of_iff _ (canStep_iff s actor action)

/-- What holds in every state that is reached: the processes of the ready queue are
the ones that have not ended, and a process that another has as its child has that one as
its parent and is counted for it. -/
structure Sound (s : System) : Prop where
  nodup : s.readyQueue.Nodup
  null : s.descriptors 0 = none
  ready : ∀ x, x ∈ s.readyQueue ↔ ∃ d, s.descriptors x = some d ∧ d.dead = false
  own : ∀ x d, s.descriptors x = some d → d.parent ≠ x
  child : ∀ x d, s.descriptors x = some d → d.child ≠ 0 → ∃ c,
    s.descriptors d.child = some c ∧ c.parent = x ∧
      1 + (if d.child ∈ s.readyQueue then 1 else 0) ≤ c.referenceCount

variable {s t : System} {d : Process}

theorem taskingInit_descriptors (place x : Nat) :
    (taskingInit place).descriptors x =
      if x = place then some { pid := 0, referenceCount := 1, parent := 0 } else none := by
  exact update_apply (fun _ => none) place _ x

theorem Sound.taskingInit (place : Nat) (nonzero : place ≠ 0) :
    (taskingInit place).Sound := by
  refine ⟨by simp [System.taskingInit], ?_, fun x => ?_, fun x d found => ?_,
    fun x d found child => ?_⟩
  · rw [taskingInit_descriptors, if_neg nonzero.symm]
  · by_cases same : x = place
    · simp [System.taskingInit, same]
    · simp [System.taskingInit, same]
  · rw [taskingInit_descriptors] at found
    split at found
    · cases found
      rename_i same
      exact fun zero => nonzero (same.symm.trans zero.symm)
    · cases found
  · rw [taskingInit_descriptors] at found
    split at found
    · cases found
      exact absurd rfl child
    · cases found

theorem descriptor_ok (returned : s.descriptor p = .ok d) : s.descriptors p = some d := by
  unfold descriptor at returned
  split at returned
  · cases returned
    assumption
  · cases returned

/-- What is left of a descriptor when a reference to it goes. -/
def dropped (d : Process) : Option Process :=
  if d.referenceCount - 1 = 0 then none
  else some { d with referenceCount := d.referenceCount - 1 }

theorem processRemoveReference_ok (returned : s.processRemoveReference p = .ok t) :
    ∃ d, s.descriptors p = some d ∧ d.referenceCount ≠ 0 ∧ t = s.put p (dropped d) := by
  obtain ⟨d, found, returned⟩ := of_ok_then returned
  obtain ⟨counted, returned⟩ := of_check_then returned
  refine ⟨d, descriptor_ok found, counted, ?_⟩
  by_cases last : d.referenceCount - 1 = 0
  · rw [if_pos last] at returned
    obtain ⟨-, returned⟩ := of_check_then returned
    cases returned
    rw [dropped, if_pos last]
    rfl
  · rw [if_neg last] at returned
    cases returned
    rw [dropped, if_neg last]
    rfl

theorem notifyParent_ok (returned : s.notifyParent parent status = .ok t) :
    t = s ∧ parent = 0 ∨ parent ≠ 0 ∧ ∃ e, s.descriptors parent = some e ∧
      t = s.put parent (some { e with waitHalt := false, childRc := status }) := by
  unfold notifyParent at returned
  split at returned
  · rename_i zero
    cases returned
    exact .inl ⟨rfl, zero⟩
  · rename_i nonzero
    obtain ⟨e, found, returned⟩ := of_ok_then returned
    cases returned
    exact .inr ⟨nonzero, e, descriptor_ok found, rfl⟩

/-- The descriptor of the parent of a process that has ended. -/
def notified (status : Int) (e : Process) : Process :=
  { e with waitHalt := false, childRc := status }

/-- The descriptors when `p`, with the descriptor `d`, has ended. -/
def ended (s : System) (p : Nat) (d : Process) (status : Int) (x : Nat) : Option Process :=
  if x = p then dropped { d with dead := true }
  else if x = d.parent then (s.descriptors x).map (notified status)
  else s.descriptors x

/-- The descriptors of a process that ends and of its parent are the ones that change. -/
theorem notify_drop (sound : s.Sound) (found : s.descriptors p = some d)
    (told : (s.set p { d with dead := true }).notifyParent d.parent status = .ok t) :
    t.descriptors p = some { d with dead := true } ∧ t.readyQueue = s.readyQueue ∧
      t.nextPid = s.nextPid ∧ update t.descriptors p
        (dropped { d with dead := true }) = s.ended p d status := by
  have apart : d.parent ≠ p := sound.own p d found
  rcases notifyParent_ok told with ⟨rfl, orphan⟩ | ⟨parent, e, there, rfl⟩
  · refine ⟨update_self _ _ _, rfl, rfl, funext fun x => ?_⟩
    by_cases same : x = p
    · rw [same, update_self, ended, if_pos rfl]
    rw [update_of_ne same, ended, if_neg same, System.set, put_of_ne same]
    by_cases zero : x = d.parent
    · rw [if_pos zero, zero, orphan, sound.null]
      rfl
    · rw [if_neg zero]
  · have before : s.descriptors d.parent = some e := by
      rw [System.set, put_of_ne apart] at there
      exact there
    refine ⟨?_, rfl, rfl, funext fun x => ?_⟩
    · rw [put_of_ne apart.symm, System.set, put_self]
    by_cases same : x = p
    · rw [same, update_self, ended, if_pos rfl]
    rw [update_of_ne same, ended, if_neg same]
    by_cases isParent : x = d.parent
    · rw [if_pos isParent, isParent, put_self, before]
      rfl
    · rw [if_neg isParent, put_of_ne isParent, System.set, put_of_ne same]

/-- `exit_process` marks the process, tells its parent, takes it out of the queue and drops
one reference, whoever is running. -/
theorem exitProcess_ok (sound : s.Sound) (returned : s.exitProcess current p status = .ok t) :
    ∃ d, s.descriptors p = some d ∧ d.referenceCount ≠ 0 ∧
      t = ⟨s.ended p d status, s.readyQueue.erase p, s.nextPid⟩ := by
  obtain ⟨d, found, returned⟩ := of_ok_then returned
  have found := descriptor_ok found
  obtain ⟨-, returned⟩ := of_check_then returned
  obtain ⟨u, told, returned⟩ := of_ok_then returned
  obtain ⟨marked, queue, pids, changed⟩ := notify_drop sound found told
  refine ⟨d, found, ?_⟩
  by_cases loops : newTask u.readyQueue p = p
  · rw [if_pos loops] at returned
    cases returned
  rw [if_neg loops] at returned
  by_cases other : current ≠ p
  · rw [if_pos other] at returned
    obtain ⟨e, there, counted, rfl⟩ := processRemoveReference_ok returned
    have same : e = { d with dead := true } := Option.some.inj (there.symm.trans marked)
    subst same
    refine ⟨counted, ?_⟩
    rw [← changed, ← queue, ← pids]
    rfl
  · rw [if_neg other] at returned
    obtain ⟨e, there, returned⟩ := of_ok_then returned
    have same : e = { d with dead := true } :=
      Option.some.inj ((descriptor_ok there).symm.trans marked)
    subst same
    obtain ⟨counted, returned⟩ := of_check_then returned
    refine ⟨counted, ?_⟩
    rw [← changed, ← queue, ← pids, dropped]
    by_cases last : d.referenceCount - 1 = 0
    · rw [if_pos last] at returned ⊢
      obtain ⟨-, returned⟩ := of_check_then returned
      cases returned
      rfl
    · rw [if_neg last] at returned ⊢
      cases returned
      rfl

end System
end SbOS.Sched
