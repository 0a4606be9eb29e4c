import Logo.Perform

/-!
Performing in the form in which it is reasoned about: each action as a function of the run it
meets, what an instruction does once it has been charged for, and induction over instructions
along the blocks and bodies that performing enters.
-/
namespace Logo

theorem ok_of_bind {α β : Type} {x : Except Fault α} {f : α → Except Fault β} {b : β}
    (h : (x >>= f) = .ok b) : ∃ a, x = .ok a ∧ f a = .ok b := by
  cases x with
  | error fault => cases h
  | ok a => exact ⟨a, rfl, h⟩

namespace Action

theorem bind_apply {α β : Type} (x : EStateM Fault Run α) (f : α → EStateM Fault Run β)
    (run : Run) :
    (x >>= f) run =
      match x run with
      | .ok a later => f a later
      | .error fault later => .error fault later := by
  simp only [bind, EStateM.bind]
  cases x run <;> rfl

theorem bind_eq_ok {α β : Type} {x : EStateM Fault Run α} {f : α → EStateM Fault Run β}
    {run later : Run} {b : β} (h : (x >>= f) run = .ok b later) :
    ∃ a between, x run = .ok a between ∧ f a between = .ok b later := by
  rw [bind_apply] at h
  cases first : x run with
  | error fault between =>
      rw [first] at h
      cases h
  | ok a between =>
      rw [first] at h
      exact ⟨a, between, rfl, h⟩

theorem charge_apply (limit : Nat) (run : Run) :
    charge limit run =
      if limit < run.steps + 1 then .error (.stepLimit limit) { run with steps := run.steps + 1 }
      else .ok () { run with steps := run.steps + 1 } := by
  change (if limit < run.steps + 1 then throw (.stepLimit limit) else pure () : Action)
    { run with steps := run.steps + 1 } = _
  split <;> rfl

theorem descend_apply (limit : Nat) (run : Run) :
    descend limit run =
      if limit < run.depth + 1 then .error (.tooDeep limit) { run with depth := run.depth + 1 }
      else .ok () { run with depth := run.depth + 1 } := by
  change (if limit < run.depth + 1 then throw (.tooDeep limit) else pure () : Action)
    { run with depth := run.depth + 1 } = _
  split <;> rfl

theorem ascend_apply (run : Run) : ascend run = .ok () { run with depth := run.depth - 1 } := rfl

theorem evaluate_apply (value : Value) (run : Run) :
    evaluate value run =
      match value.get run.world.bindings with
      | .ok n => .ok n run
      | .error fault => .error fault run := by
  change (match value.get run.world.bindings with
    | .ok n => pure n
    | .error fault => throw fault : EStateM Fault Run Int64) run = _
  cases value.get run.world.bindings <;> rfl

theorem define_apply (name : String) (parameters : List String) (body : List Instruction)
    (run : Run) :
    define name parameters body run =
      match run.world.registry.define name parameters body with
      | .ok registry => .ok () { run with world := { run.world with registry } }
      | .error fault => .error fault run := by
  change (match run.world.registry.define name parameters body with
    | .ok registry => change ({ · with registry })
    | .error fault => throw fault : Action) run = _
  cases run.world.registry.define name parameters body <;> rfl

/-- Each argument that has a parameter to go with is evaluated in the same bindings. -/
theorem evaluateEach_apply (names : List String) (values : List Value) (run : Run) :
    evaluateEach names values run =
      match (names.zip values).mapM
        fun entry => (entry.2.get run.world.bindings).map (entry.1, ·) with
      | .ok entries => .ok entries run
      | .error fault => .error fault run := by
  induction names generalizing values with
  | nil => rfl
  | cons name names ih =>
      cases values with
      | nil => rfl
      | cons value values =>
          rw [evaluateEach, bind_apply, evaluate_apply, List.zip_cons_cons, List.mapM_cons]
          cases value.get run.world.bindings with
          | error fault => rfl
          | ok n =>
              simp only [bind_apply, ih]
              cases (names.zip values).mapM
                fun entry => (entry.2.get run.world.bindings).map (entry.1, ·) <;> rfl

theorem inScope_apply (bindings : Bindings) (action : Action) (run : Run) :
    inScope bindings action run =
      match action { run with world := { run.world with bindings } } with
      | .ok _ later =>
        .ok () { later with world := { later.world with bindings := run.world.bindings } }
      | .error fault later =>
        .error fault { later with world := { later.world with bindings := run.world.bindings } } :=
  rfl

end Action

/-- The instructions that a call of the command performs. -/
def Command.body : Command → List Instruction
  | .primitive _ => []
  | .procedure p => p.body

/-- The instructions of the block, as far as it has been read. -/
def Progress.body : Progress → List Instruction
  | .loop _ (some block) | .define _ _ (some block) => block.instructions
  | _ => []

namespace Instruction

/-- What the instruction does between the descent to it and the return from it. -/
def act (settings : Settings) : Instruction → Action
  | ⟨.primitive p, .single (some value)⟩ => p.performWith settings value
  | ⟨.primitive p, .ready⟩ => p.perform
  | ⟨_, .loop (some times) (some block)⟩ => do
    let n ← Action.evaluate times
    let pass : Action := do
      Action.charge settings.stepLimit
      performEach settings block.instructions
    Action.iterate pass n.toInt.toNat
  | ⟨_, .define (some name) parameters (some block)⟩ =>
    Action.define name parameters block.instructions
  | ⟨.procedure procedure, .call arguments⟩ => do
    let entries ← Action.evaluateEach procedure.parameters arguments
    Action.inScope (.ofList entries) (performEach settings procedure.body)
  | _ => throw .unfinished

@[simp] theorem act_loop (settings : Settings) (command : Command) (times : Value)
    (block : Block) :
    act settings ⟨command, .loop (some times) (some block)⟩ = (do
      let n ← Action.evaluate times
      Action.iterate (do
        Action.charge settings.stepLimit
        performEach settings block.instructions) n.toInt.toNat) := by
  cases command <;> rfl

@[simp] theorem act_define (settings : Settings) (command : Command) (name : String)
    (parameters : List String) (block : Block) :
    act settings ⟨command, .define (some name) parameters (some block)⟩ =
      Action.define name parameters block.instructions := by
  cases command <;> rfl

theorem perform_eq (settings : Settings) (i : Instruction) :
    i.perform settings = (do
      Action.charge settings.stepLimit
      Action.descend settings.maxDepth
      i.act settings
      Action.ascend) := by
  obtain ⟨command, progress⟩ := i
  rw [perform]
  congr 1
  funext _
  congr 1
  funext _
  rcases command with p | ⟨serial, name, parameters, body⟩ <;>
    rcases progress with _ | (_ | value) | ⟨_ | times, _ | ⟨block, closed⟩⟩ |
      ⟨_ | name, parameters, _ | block⟩ | arguments <;>
    simp only [act, bind_assoc]

/-- Steps are checked before depth, and both before anything else happens. -/
theorem perform_apply (settings : Settings) (i : Instruction) (run : Run) :
    i.perform settings run =
      if settings.stepLimit < run.steps + 1 then
        .error (.stepLimit settings.stepLimit) { run with steps := run.steps + 1 }
      else if settings.maxDepth < run.depth + 1 then
        .error (.tooDeep settings.maxDepth)
          { run with steps := run.steps + 1, depth := run.depth + 1 }
      else
        match i.act settings { run with steps := run.steps + 1, depth := run.depth + 1 } with
        | .ok _ later => .ok () { later with depth := later.depth - 1 }
        | .error fault later => .error fault later := by
  rw [perform_eq, Action.bind_apply, Action.charge_apply]
  by_cases steps : settings.stepLimit < run.steps + 1
  · simp only [if_pos steps]
  · simp only [if_neg steps, Action.bind_apply, Action.descend_apply]
    by_cases depth : settings.maxDepth < run.depth + 1
    · simp only [if_pos depth]
    · simp only [if_neg depth, Action.ascend_apply]
      generalize i.act settings _ = outcome
      cases outcome <;> rfl

/-- Induction over all that an instruction holds, called procedures included. -/
@[elab_as_elim]
theorem induction_parts {motive : Instruction → Prop}
    (step : ∀ command progress, (∀ i ∈ command.body, motive i) →
      (∀ i ∈ progress.body, motive i) → motive ⟨command, progress⟩)
    (i : Instruction) : motive i :=
  @Instruction.rec (fun command => ∀ i ∈ command.body, motive i)
    (fun procedure => ∀ i ∈ procedure.body, motive i) motive
    (fun progress => ∀ i ∈ progress.body, motive i)
    (fun block => ∀ i ∈ block.instructions, motive i) (fun body => ∀ i ∈ body, motive i)
    (fun body => ∀ block ∈ body, ∀ i ∈ block.instructions, motive i)
    (fun _ _ h => nomatch h) (fun _ body => body) (fun _ _ _ _ body => body) step
    (fun _ h => nomatch h) (fun _ _ h => nomatch h)
    (fun _ body inner => match body with
      | none => fun _ h => nomatch h
      | some block => inner block rfl)
    (fun _ _ body inner => match body with
      | none => fun _ h => nomatch h
      | some block => inner block rfl)
    (fun _ _ h => nomatch h) (fun _ _ body => body) (fun _ h => nomatch h)
    (fun _ _ first rest i h => (List.mem_cons.mp h).elim (fun e => e ▸ first) (rest i))
    (fun _ h => nomatch h) (fun _ inner _ h => Option.some.inj h ▸ inner) i

/-- Whether the instruction has one of the shapes that can be performed at all. -/
def isPerformable : Instruction → Bool
  | ⟨.primitive _, .single (some _)⟩ | ⟨.primitive _, .ready⟩ | ⟨_, .loop (some _) (some _)⟩
  | ⟨_, .define (some _) _ (some _)⟩ | ⟨.procedure _, .call _⟩ => true
  | _ => false

theorem act_of_not_performable {i : Instruction} (h : i.isPerformable = false)
    (settings : Settings) : i.act settings = throw .unfinished := by
  unfold act
  split
  case h_6 => rfl
  all_goals simp [isPerformable] at h

/-- The same along the cases of `act`. An instruction of any other shape only fails. -/
@[elab_as_elim]
theorem induction_act {motive : Instruction → Prop}
    (single : ∀ p value, motive ⟨.primitive p, .single (some value)⟩)
    (ready : ∀ p, motive ⟨.primitive p, .ready⟩)
    (loop : ∀ command times block, (∀ i ∈ block.instructions, motive i) →
      motive ⟨command, .loop (some times) (some block)⟩)
    (define : ∀ command name parameters block,
      motive ⟨command, .define (some name) parameters (some block)⟩)
    (call : ∀ procedure arguments, (∀ i ∈ procedure.body, motive i) →
      motive ⟨.procedure procedure, .call arguments⟩)
    (unfinished : ∀ i : Instruction, i.isPerformable = false → motive i)
    (i : Instruction) : motive i := by
  induction i using induction_parts with
  | step command progress callee inner =>
      cases progress with
      | ready =>
          cases command with
          | primitive p => exact ready p
          | procedure p => exact unfinished _ rfl
      | single value =>
          cases command with
          | primitive p =>
              cases value with
              | none => exact unfinished _ rfl
              | some value => exact single p value
          | procedure p => exact unfinished _ rfl
      | loop times body =>
          cases times with
          | none => exact unfinished _ (by cases command <;> rfl)
          | some times =>
              cases body with
              | none => exact unfinished _ (by cases command <;> rfl)
              | some block => exact loop command times block inner
      | define name parameters body =>
          cases name with
          | none => exact unfinished _ (by cases command <;> rfl)
          | some name =>
              cases body with
              | none => exact unfinished _ (by cases command <;> rfl)
              | some block => exact define command name parameters block
      | call arguments =>
          cases command with
          | primitive p => exact unfinished _ rfl
          | procedure p => exact call p arguments callee

end Instruction

end Logo
