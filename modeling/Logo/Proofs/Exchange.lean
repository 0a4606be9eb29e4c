import Logo.Proofs.Definitions

/-!
Performing does not look names up. Calls hold the procedures they stand for, so an instruction
does the same whatever registry it meets, as long as the same names are protected: it executes
the same definitions and comes to the same end, and only what these definitions make of the
registry is different.
-/
namespace Logo

namespace Run

/-- The run with another registry. -/
def withRegistry (run : Run) (registry : Registry) : Run :=
  { run with world := { run.world with registry } }

/-- The same end of a run with another registry. -/
def exchange {α : Type} (registry : Registry) :
    EStateM.Result Fault Run α → EStateM.Result Fault Run α
  | .ok a later => .ok a (later.withRegistry registry)
  | .error fault later => .error fault (later.withRegistry registry)

end Run

namespace Action

/-- The definitions that are executed when `x` has come to its end; none if it fails. -/
def executedAfter {α : Type} (x : EStateM Fault Run α) (next : α → Run → List Definition)
    (run : Run) : List Definition :=
  match x run with
  | .ok a later => next a later
  | .error _ _ => []

/-- The definitions that are executed by `n` passes, where `executed` are those of one. -/
def executedIn (pass : Action) (executed : Run → List Definition) : Nat → Run → List Definition
  | 0, _ => []
  | n + 1, run => executed run ++ executedAfter pass (fun _ => executedIn pass executed n) run

end Action

mutual

/-- The definitions that performing the instruction executes, in order, as far as it comes. -/
def Instruction.executed (settings : Settings) : Instruction → Run → List Definition
  | ⟨command, progress⟩ =>
    Action.executedAfter (Action.charge settings.stepLimit) fun _ =>
    Action.executedAfter (Action.descend settings.maxDepth) fun _ =>
    match command, progress with
    | _, .loop (some times) (some ⟨body, _⟩) =>
      let pass : Action := do
        Action.charge settings.stepLimit
        performEach settings body
      let executed := Action.executedAfter (Action.charge settings.stepLimit) fun _ =>
        executedEach settings body
      Action.executedAfter (Action.evaluate times) fun n =>
        Action.executedIn pass executed n.toInt.toNat
    | _, .define (some name) parameters (some block) => fun run =>
      if run.world.registry.isProtected name then []
      else [⟨name, parameters, block.instructions⟩]
    | .procedure ⟨_, _, parameters, body⟩, .call arguments =>
      Action.executedAfter (Action.evaluateEach parameters arguments) fun entries run =>
        executedEach settings body
          { run with world := { run.world with bindings := .ofList entries } }
    | _, _ => fun _ => []
termination_by structural instruction => instruction

def executedEach (settings : Settings) : List Instruction → Run → List Definition
  | [] => fun _ => []
  | instruction :: rest => fun run =>
    instruction.executed settings run ++
      Action.executedAfter (instruction.perform settings) (fun _ => executedEach settings rest) run
termination_by structural instructions => instructions

end

/-- From runs that differ in their registries, and in no protected name, the action executes the
same definitions, and what it leaves is the same but for what they make of the registries. -/
def Uniform {α : Type} (x : EStateM Fault Run α) (executed : Run → List Definition) : Prop :=
  ∀ (run : Run) (other : Registry),
    (∀ name, other.isProtected name = run.world.registry.isProtected name) →
    executed (run.withRegistry other) = executed run ∧
    ∃ registry, other.defineAll (executed run) = .ok registry ∧
      x (run.withRegistry other) = Run.exchange registry (x run)

/-- The action has no part in the registry. -/
def Indifferent {α : Type} (x : EStateM Fault Run α) : Prop :=
  ∀ (run : Run) (registry : Registry),
    x (run.withRegistry registry) = Run.exchange registry (x run)

namespace Indifferent

theorem charge (limit : Nat) : Indifferent (Action.charge limit) := by
  intro run registry
  rw [Action.charge_apply, Action.charge_apply, apply_ite (Run.exchange registry)]
  rfl

theorem descend (limit : Nat) : Indifferent (Action.descend limit) := by
  intro run registry
  rw [Action.descend_apply, Action.descend_apply, apply_ite (Run.exchange registry)]
  rfl

theorem evaluate (value : Value) : Indifferent (Action.evaluate value) := by
  intro run registry
  have scope : (run.withRegistry registry).world.bindings = run.world.bindings := rfl
  rw [Action.evaluate_apply, Action.evaluate_apply, scope]
  cases value.get run.world.bindings <;> rfl

theorem evaluateEach (names : List String) (values : List Value) :
    Indifferent (Action.evaluateEach names values) := by
  intro run registry
  have scope : (run.withRegistry registry).world.bindings = run.world.bindings := rfl
  rw [Action.evaluateEach_apply, Action.evaluateEach_apply, scope]
  cases (names.zip values).mapM
    fun entry => (entry.2.get run.world.bindings).map (entry.1, ·) <;> rfl

theorem change {g : World → World}
    (h : ∀ (world : World) (registry : Registry),
      g { world with registry } = { g world with registry }) :
    Indifferent (Action.change g) := by
  intro run registry
  change EStateM.Result.ok () { run with world := g { run.world with registry } } = _
  rw [h]
  rfl

theorem bind {α β : Type} {x : EStateM Fault Run α} {f : α → EStateM Fault Run β}
    (first : Indifferent x) (rest : ∀ a, Indifferent (f a)) : Indifferent (x >>= f) := by
  intro run registry
  rw [Action.bind_apply, Action.bind_apply, first]
  cases x run with
  | ok a later => exact rest a later registry
  | error fault later => rfl

end Indifferent

namespace Registry

variable {registry : Registry} {name : String}

theorem define_of_protected (h : registry.isProtected name = true) (parameters : List String)
    (body : List Instruction) :
    registry.define name parameters body = .error (.protectedName (Text.lowercase name)) := by
  simp only [define, h, if_true]

theorem define_of_free (h : registry.isProtected name = false) (parameters : List String)
    (body : List Instruction) :
    registry.define name parameters body =
      .ok ⟨registry.commands.insert (Text.lowercase name)
        (.procedure ⟨registry.made, name, parameters, body⟩), registry.made + 1⟩ := by
  simp only [define, h, Bool.false_eq_true, if_false]

end Registry

namespace Uniform

variable {α β : Type} {x : EStateM Fault Run α} {f : α → EStateM Fault Run β}
  {executed : Run → List Definition} {next : α → Run → List Definition}

theorem of_indifferent (h : Indifferent x) : Uniform x fun _ => [] :=
  fun run other _ => ⟨rfl, other, rfl, h run other⟩

/-- The registry that an action leaves is what the definitions make of the one it met. -/
theorem registry_eq (h : Uniform x executed) {run later : Run} {a : α}
    (done : x run = .ok a later) :
    run.world.registry.defineAll (executed run) = .ok later.world.registry := by
  obtain ⟨_, registry, defined, same⟩ := h run run.world.registry fun _ => rfl
  change x run = _ at same
  rw [done] at same
  have last : later = later.withRegistry registry := (EStateM.Result.ok.inj same).2
  rw [defined, last]
  rfl

theorem bind (first : Uniform x executed) (rest : ∀ a, Uniform (f a) (next a)) :
    Uniform (x >>= f) fun run => executed run ++ Action.executedAfter x next run := by
  intro run other same
  obtain ⟨executes, registry, defined, result⟩ := first run other same
  cases ended : x run with
  | error fault later =>
      rw [ended] at result
      refine ⟨?_, registry, ?_, ?_⟩
      · simp only [executes, Action.executedAfter, result, ended, Run.exchange]
      · simp only [Action.executedAfter, ended, List.append_nil, defined]
      · simp only [Action.bind_apply, result, ended, Run.exchange]
  | ok a later =>
      rw [ended] at result
      have names (name : String) :
          registry.isProtected name = later.world.registry.isProtected name := by
        rw [Registry.isProtected_defineAll defined, same,
          Registry.isProtected_defineAll (first.registry_eq ended)]
      obtain ⟨executes', registry', defined', result'⟩ := rest a later registry names
      refine ⟨?_, registry', ?_, ?_⟩
      · simp only [executes, Action.executedAfter, result, ended, Run.exchange, executes']
      · simp only [Action.executedAfter, ended, Registry.defineAll_append, defined]
        exact defined'
      · simp only [Action.bind_apply, result, ended, Run.exchange]
        exact result'

/-- What has no part in the registry can come first or last. -/
theorem after (h : Indifferent x) (rest : ∀ a, Uniform (f a) (next a)) :
    Uniform (x >>= f) (Action.executedAfter x next) :=
  (of_indifferent h).bind rest

theorem before {y : Action} (first : Uniform x executed) (h : Indifferent y) :
    Uniform (x >>= fun _ => y) executed := by
  have all := first.bind fun _ => of_indifferent h
  have none (run : Run) : Action.executedAfter x (fun _ _ => []) run = [] := by
    rw [Action.executedAfter]
    cases x run <;> rfl
  simpa only [none, List.append_nil] using all

theorem define (name : String) (parameters : List String) (body : List Instruction) :
    Uniform (Action.define name parameters body) fun run =>
      if run.world.registry.isProtected name then [] else [⟨name, parameters, body⟩] := by
  intro run other same
  have met : (run.withRegistry other).world.registry = other := rfl
  simp only [Action.define_apply, met, same]
  by_cases taken : run.world.registry.isProtected name = true
  · have refused := Registry.define_of_protected taken parameters body
    have refused' := Registry.define_of_protected ((same name).trans taken) parameters body
    simp only [if_pos taken, refused, refused']
    exact ⟨trivial, other, rfl, rfl⟩
  · have free : run.world.registry.isProtected name = false := by simpa using taken
    have defined := Registry.define_of_free free parameters body
    have defined' := Registry.define_of_free ((same name).trans free) parameters body
    simp only [if_neg taken, defined, defined', Registry.defineAll, List.foldlM_cons,
      List.foldlM_nil]
    exact ⟨trivial, _, rfl, rfl⟩

theorem iterate {pass : Action} (h : Uniform pass executed) (n : Nat) :
    Uniform (pass.iterate n) (Action.executedIn pass executed n) := by
  induction n with
  | zero => exact of_indifferent fun _ _ => rfl
  | succ n ih => exact h.bind fun _ => ih

theorem inScope {action : Action} (h : Uniform action executed) (bindings : Bindings) :
    Uniform (Action.inScope bindings action) fun run =>
      executed { run with world := { run.world with bindings } } := by
  intro run other same
  obtain ⟨executes, registry, defined, result⟩ :=
    h { run with world := { run.world with bindings } } other same
  refine ⟨executes, registry, defined, ?_⟩
  -- the registry and the scope are exchanged in either order
  have inner : action { run.withRegistry other with
      world := { (run.withRegistry other).world with bindings } } =
      Run.exchange registry (action { run with world := { run.world with bindings } }) := result
  rw [Action.inScope_apply, Action.inScope_apply, inner]
  cases action { run with world := { run.world with bindings } } <;> rfl

theorem performEach {settings : Settings} {body : List Instruction}
    (h : ∀ i ∈ body, Uniform (i.perform settings) (i.executed settings)) :
    Uniform (Logo.performEach settings body) (executedEach settings body) := by
  induction body with
  | nil => exact of_indifferent fun _ _ => rfl
  | cons i rest ih =>
      have first := h i List.mem_cons_self
      exact first.bind fun _ => ih fun j later => h j (List.mem_cons_of_mem _ later)

theorem perform {settings : Settings} {i : Instruction} (h : Uniform (i.act settings) executed) :
    Uniform (i.perform settings)
      (Action.executedAfter (Action.charge settings.stepLimit) fun _ =>
        Action.executedAfter (Action.descend settings.maxDepth) fun _ => executed) := by
  rw [Instruction.perform_eq]
  refine after (.charge _) fun _ => after (.descend _) fun _ => h.before fun _ _ => rfl

end Uniform

namespace Primitive

theorem indifferent_perform (p : Primitive) : Indifferent p.perform := by
  cases p <;> exact fun _ _ => rfl

theorem indifferent_performWith (settings : Settings) (value : Value) (p : Primitive) :
    Indifferent (p.performWith settings value) := by
  have move (n : Int64) : Indifferent (Action.change (·.move n)) := by
    refine .change fun world registry => ?_
    simp only [World.move]
    split <;> rfl
  have turn (n : Int64) : Indifferent (Action.change (·.turn settings.recordRotations n)) := by
    refine .change fun world registry => ?_
    simp only [World.turn]
    split <;> rfl
  have wait (n : Int64) : Indifferent (Action.change (·.wait n)) := .change fun _ _ => rfl
  cases p with
  | forward => exact (Indifferent.evaluate value).bind move
  | backward => exact (Indifferent.evaluate value.negated).bind move
  | right => exact (Indifferent.evaluate value).bind turn
  | left => exact (Indifferent.evaluate value.negated).bind turn
  | wait => exact (Indifferent.evaluate value).bind wait
  | penUp | penDown | clearScreen | loop | define => exact fun _ _ => rfl

end Primitive

namespace Instruction

theorem executed_loop (settings : Settings) (command : Command) (times : Value) (block : Block) :
    executed settings ⟨command, .loop (some times) (some block)⟩ =
      Action.executedAfter (Action.charge settings.stepLimit) fun _ =>
      Action.executedAfter (Action.descend settings.maxDepth) fun _ =>
      Action.executedAfter (Action.evaluate times) fun n =>
        Action.executedIn (do
          Action.charge settings.stepLimit
          performEach settings block.instructions)
          (Action.executedAfter (Action.charge settings.stepLimit) fun _ =>
            executedEach settings block.instructions) n.toInt.toNat := by
  obtain ⟨body, closed⟩ := block
  cases command <;> rfl

theorem executed_define (settings : Settings) (command : Command) (name : String)
    (parameters : List String) (block : Block) :
    executed settings ⟨command, .define (some name) parameters (some block)⟩ =
      Action.executedAfter (Action.charge settings.stepLimit) fun _ =>
      Action.executedAfter (Action.descend settings.maxDepth) fun _ run =>
        if run.world.registry.isProtected name then []
        else [⟨name, parameters, block.instructions⟩] := by
  cases command <;> rfl

theorem executed_of_not_performable {i : Instruction} (h : i.isPerformable = false)
    (settings : Settings) :
    i.executed settings =
      Action.executedAfter (Action.charge settings.stepLimit) fun _ =>
      Action.executedAfter (Action.descend settings.maxDepth) fun _ _ => [] := by
  obtain ⟨command, progress⟩ := i
  unfold executed
  split
  case h_4 => rfl
  all_goals simp [isPerformable] at h

/-- Whatever the instruction is, performing it goes the same way with any two registries. -/
theorem uniform_perform (settings : Settings) (i : Instruction) :
    Uniform (i.perform settings) (i.executed settings) := by
  induction i using induction_act with
  | single p value => exact .perform (.of_indifferent (p.indifferent_performWith settings value))
  | ready p => exact .perform (.of_indifferent p.indifferent_perform)
  | loop command times block inner =>
      rw [executed_loop]
      apply Uniform.perform
      rw [act_loop]
      refine .after (.evaluate times) fun n => Uniform.iterate ?_ _
      exact .after (.charge _) fun _ => .performEach inner
  | define command name parameters block =>
      rw [executed_define]
      apply Uniform.perform
      rw [act_define]
      exact .define name parameters block.instructions
  | call procedure arguments inner =>
      obtain ⟨serial, name, parameters, body⟩ := procedure
      refine .perform (.after (.evaluateEach parameters arguments) fun entries => ?_)
      exact (Uniform.performEach inner).inScope (.ofList entries)
  | unfinished i fails =>
      rw [executed_of_not_performable fails]
      apply Uniform.perform
      rw [act_of_not_performable fails]
      exact .of_indifferent fun _ _ => rfl

end Instruction

end Logo
