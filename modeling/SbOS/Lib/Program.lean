import Mathlib.Tactic.Common

/-! Programs that reach their state only through named requests. One program
can be executed by several handlers: an implementation, and a simpler
specification of the same requests. `execute_simulates` carries every result
about the specification's executions over to the implementation's. -/
namespace SbOS

/-- A finite tree of requests; the reply to one request selects the rest. -/
inductive Program (Request : Type) (Reply : Request → Type) (α : Type) : Type where
  | done (value : α)
  | request (call : Request) (next : Reply call → Program Request Reply α)

namespace Program
variable {Request : Type} {Reply : Request → Type} {α β S T E : Type}

protected def bind : Program Request Reply α → (α → Program Request Reply β) →
    Program Request Reply β
  | .done value, next => next value
  | .request call rest, next => .request call fun reply => (rest reply).bind next

instance : Monad (Program Request Reply) where
  pure := .done
  bind := Program.bind

/-- Perform a single request and return its reply. -/
def ask (call : Request) : Program Request Reply (Reply call) := .request call .done

/-- How one request acts on a state: a reply and the next state, or a stop. -/
abbrev Handler (Request : Type) (Reply : Request → Type) (S E : Type) :=
  (call : Request) → S → Except E (Reply call × S)

/-- Run a program; the first stop ends it. -/
def execute (handle : Handler Request Reply S E) : Program Request Reply α → S →
    Except E (α × S)
  | .done value, state => .ok (value, state)
  | .request call next, state =>
    match handle call state with
    | .ok (reply, after) => execute handle (next reply) after
    | .error stop => .error stop

variable {handle : Handler Request Reply S E}

@[simp] theorem execute_pure (value : α) (state : S) :
    execute handle (pure value : Program Request Reply α) state = .ok (value, state) := rfl

@[simp] theorem execute_ask (call : Request) (state : S) :
    execute handle (ask call) state = handle call state := by
  unfold ask execute
  split
  · rename_i ran
    rw [ran]
    rfl
  · rename_i stopped
    rw [stopped]

theorem execute_bind (program : Program Request Reply α)
    (next : α → Program Request Reply β) (state : S) :
    execute handle (program >>= next) state =
      match execute handle program state with
      | .ok (value, after) => execute handle (next value) after
      | .error stop => .error stop := by
  change execute handle (program.bind next) state = _
  induction program generalizing state with
  | done value => rfl
  | request call rest ih =>
    simp only [Program.bind, execute]
    cases handle call state with
    | error stop => rfl
    | ok result => exact ih result.1 result.2

/-- The first part of a program has returned: go on with the rest. -/
theorem execute_bind_ok {program : Program Request Reply α} {next : α → Program Request Reply β}
    (ran : execute handle program state = .ok (value, after)) :
    execute handle (program >>= next) state = execute handle (next value) after := by
  rw [execute_bind, ran]

/-! ### Simulation -/

/-- What an implementation owes a specification's outcome: the same reply and
related states, the same stop, or nothing where the specification is silent
(`.error none`). -/
def Matches (related : S → T → Prop) (impl : Except E (α × S)) :
    Except (Option E) (α × T) → Prop
  | .ok (value, spec) => ∃ state, impl = .ok (value, state) ∧ related state spec
  | .error (some stop) => impl = .error stop
  | .error none => True

/-- Every request of the implementation matches the specification's. -/
def Simulates (related : S → T → Prop) (impl : Handler Request Reply S E)
    (spec : Handler Request Reply T (Option E)) : Prop :=
  ∀ call state model, related state model → Matches related (impl call state) (spec call model)

/-! ### Programs that keep to some requests -/

/-- No branch of the program makes a request outside `allowed`. -/
inductive Within (allowed : Request → Prop) : Program Request Reply α → Prop where
  | done (value : α) : Within allowed (.done value)
  | request {call : Request} {next : Reply call → Program Request Reply α} (fine : allowed call)
      (rest : ∀ reply, Within allowed (next reply)) : Within allowed (.request call next)

variable {allowed : Request → Prop} {related : S → T → Prop} {impl : Handler Request Reply S E}
  {spec : Handler Request Reply T (Option E)} {program : Program Request Reply α}

theorem Within.pure (value : α) :
    Within allowed (pure value : Program Request Reply α) := .done value

theorem Within.bind {next : α → Program Request Reply β} (first : Within allowed program)
    (second : ∀ value, Within allowed (next value)) : Within allowed (program >>= next) := by
  induction first with
  | done value => exact second value
  | request fine _ ih => exact .request fine ih

/-- A simulation of the allowed requests carries over the programs that keep to
them. -/
theorem execute_simulates_within
    (simulates : ∀ call state model, allowed call → related state model →
      Matches related (impl call state) (spec call model))
    (within : Within allowed program) (start : related state model) :
    Matches related (execute impl program state) (execute spec program model) := by
  induction within generalizing state model with
  | done value => exact ⟨state, rfl, start⟩
  | @request call next fine _ ih =>
    have step := simulates call state model fine start
    simp only [execute]
    cases spoken : spec call model with
    | ok result =>
      rw [spoken] at step
      obtain ⟨after, ran, linked⟩ := step
      rw [ran]
      exact ih result.1 linked
    | error stop =>
      rw [spoken] at step
      cases stop with
      | none => trivial
      | some stop =>
        have stopped : impl call state = .error stop := step
        rw [stopped]
        rfl

/-- Whole programs match as soon as their requests do. -/
theorem execute_simulates (simulates : Simulates related impl spec)
    (program : Program Request Reply α) (start : related state model) :
    Matches related (execute impl program state) (execute spec program model) := by
  have all : Within (fun _ => True) program := by
    induction program with
    | done value => exact .done value
    | request call next ih => exact .request trivial ih
  exact execute_simulates_within (fun call state model _ => simulates call state model) all start

/-- A specification run that returned has a matching implementation run. -/
theorem execute_simulates_ok (simulates : Simulates related impl spec) (start : related state model)
    (ran : execute spec program model = .ok (value, model')) :
    ∃ state', execute impl program state = .ok (value, state') ∧ related state' model' := by
  have step := execute_simulates simulates program start
  rw [ran] at step
  exact step

/-! ### Runs of calls -/

/-- Perform one piece of code for each call in turn and collect the replies. -/
def forEach {ι : Type} (code : ι → Program Request Reply α) :
    List ι → Program Request Reply (List α)
  | [] => pure []
  | call :: rest => do
    let reply ← code call
    let replies ← forEach code rest
    return reply :: replies

variable {ι A : Type} {code : ι → Program Request Reply α} {step : ι → A → α × A} {call : ι}
  {calls : List ι} {state state' : S} {model : A}

theorem forEach_cons (first : execute handle (code call) state = .ok (reply, middle))
    (others : execute handle (forEach code calls) middle = .ok (replies, final)) :
    execute handle (forEach code (call :: calls)) state = .ok (reply :: replies, final) := by
  simp only [forEach]
  rw [execute_bind_ok first, execute_bind_ok others]
  rfl

/-- A run of an abstract machine with replies. -/
def stepAll {ι A : Type} (step : ι → A → α × A) : List ι → A → List α × A
  | [], model => ([], model)
  | call :: rest, model =>
    let (reply, model) := step call model
    let (replies, model) := stepAll step rest model
    (reply :: replies, model)

/-- Every call of the run meets its precondition in the state it starts from. -/
def ValidAll {ι A : Type} (step : ι → A → α × A) (valid : ι → A → Prop) : List ι → A → Prop
  | [], _ => True
  | call :: rest, model => valid call model ∧ ValidAll step valid rest (step call model).2

theorem ValidAll.of_forall {valid : ι → A → Prop}
    (each : ∀ call ∈ calls, ∀ model, valid call model) (model : A) :
    ValidAll step valid calls model := by
  induction calls generalizing model with
  | nil => trivial
  | cons call rest ih =>
    exact ⟨each call (by simp) model, ih (fun c member => each c (by simp [member])) _⟩

/-- The same for preconditions that look at the state of the implementation. -/
def ValidRun {ι A : Type} (handle : Handler Request Reply S E) (code : ι → Program Request Reply α)
    (step : ι → A → α × A) (valid : ι → S → A → Prop) : List ι → S → A → Prop
  | [], _, _ => True
  | call :: rest, state, model => valid call state model ∧
    ∀ reply state', execute handle (code call) state = .ok (reply, state') →
      ValidRun handle code step valid rest state' (step call model).2

/-- A run whose first call is known to return. -/
theorem ValidRun.cons {valid : ι → S → A → Prop}
    (first : valid call state model) (ran : execute handle (code call) state = .ok (reply, state'))
    (rest : ValidRun handle code step valid calls state' (step call model).2) :
    ValidRun handle code step valid (call :: calls) state model := by
  refine ⟨first, fun _ _ other => ?_⟩
  cases ran.symm.trans other
  exact rest

theorem ValidAll.run {valid : ι → A → Prop}
    (allowed : ValidAll step valid calls model) (state : S) :
    ValidRun handle code step (fun call _ => valid call) calls state model := by
  induction calls generalizing state model with
  | nil => trivial
  | cons call rest ih => exact ⟨allowed.1, fun _ state' _ => ih allowed.2 state'⟩

/-- If each call refines a step of the abstract machine, so does every run. -/
theorem forEach_refines_run {valid : ι → S → A → Prop} {related : S → A → Prop}
    (single : ∀ call state model, related state model → valid call state model →
      ∃ state', execute handle (code call) state = .ok ((step call model).1, state') ∧
        related state' (step call model).2)
    (start : related state model)
    (allowed : ValidRun handle code step valid calls state model) :
    ∃ state', execute handle (forEach code calls) state =
        .ok ((stepAll step calls model).1, state') ∧
      related state' (stepAll step calls model).2 := by
  induction calls generalizing state model with
  | nil => exact ⟨state, rfl, start⟩
  | cons call rest ih =>
    obtain ⟨middle, first, linked⟩ := single call state model start allowed.1
    obtain ⟨final, others, ended⟩ := ih linked (allowed.2 _ middle first)
    exact ⟨final, forEach_cons first others, ended⟩

end Program

/-- A report on the value that was returned. -/
theorem of_report {program : Except ε α} {seen : α → β}
    (report : program.toOption.map seen = some shown) :
    ∃ value, program = .ok value ∧ seen value = shown := by
  cases program with
  | error stop => cases report
  | ok value => exact ⟨value, rfl, Option.some.inj report⟩

end SbOS
