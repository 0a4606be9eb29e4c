import Logo.Proofs.Expansion

/-!
What performing an instruction tests on its way, written out as a flat list: that there is a
step left, that the nesting is not too deep, that a value is bound, that a name is free. How
performing ends is decided by the first of these checks that fails, and by that one alone.
-/
namespace Logo

/-- One condition under which performing goes on. -/
inductive Check where
  /-- One more step can be taken. -/
  | step
  | level (depth : Nat)
  | bound (value : Value) (bindings : Bindings)
  /-- The name can be given to a procedure. -/
  | free (name : String)
  /-- The instruction is not complete, so that there is no going on. -/
  | shape

namespace Check

/-- What is wrong if the check fails, where `charged` steps have been taken before it. -/
def fault? (settings : Settings) (registry : Registry) (charged : Nat) : Check → Option Fault
  | .step => if settings.stepLimit < charged + 1 then some (.stepLimit settings.stepLimit) else none
  | .level depth => if settings.maxDepth < depth then some (.tooDeep settings.maxDepth) else none
  | .bound value bindings =>
    match value.get bindings with
    | .ok _ => none
    | .error fault => some fault
  | .free name =>
    if registry.isProtected name then some (.protectedName (Text.lowercase name)) else none
  | .shape => some .unfinished

def steps : Check → Nat
  | .step => 1
  | .level _ | .bound _ _ | .free _ | .shape => 0

/-- How many steps are taken if all checks hold. -/
def total : List Check → Nat
  | [] => 0
  | check :: checks => check.steps + total checks

/-- The fault of the first check that fails. -/
def firstFault (settings : Settings) (registry : Registry) (charged : Nat) :
    List Check → Option Fault
  | [] => none
  | check :: checks =>
    (check.fault? settings registry charged).or
      (firstFault settings registry (charged + check.steps) checks)

section

variable (settings : Settings) (registry : Registry) (charged : Nat) (checks : List Check)

theorem firstFault_step :
    firstFault settings registry charged (.step :: checks) =
      if settings.stepLimit < charged + 1 then some (.stepLimit settings.stepLimit)
      else firstFault settings registry (charged + 1) checks := by
  simp only [firstFault, fault?, steps]
  split <;> rfl

theorem firstFault_level (depth : Nat) :
    firstFault settings registry charged (.level depth :: checks) =
      if settings.maxDepth < depth then some (.tooDeep settings.maxDepth)
      else firstFault settings registry charged checks := by
  simp only [firstFault, fault?, steps]
  split <;> rfl

theorem firstFault_bound (value : Value) (bindings : Bindings) :
    firstFault settings registry charged (.bound value bindings :: checks) =
      match value.get bindings with
      | .ok _ => firstFault settings registry charged checks
      | .error fault => some fault := by
  simp only [firstFault, fault?, steps]
  split <;> rfl

theorem firstFault_free (name : String) :
    firstFault settings registry charged (.free name :: checks) =
      if registry.isProtected name then some (.protectedName (Text.lowercase name))
      else firstFault settings registry charged checks := by
  simp only [firstFault, fault?, steps]
  split <;> rfl

end

@[simp] theorem total_nil : total [] = 0 := rfl

@[simp] theorem total_cons (check : Check) (checks : List Check) :
    total (check :: checks) = check.steps + total checks := rfl

@[simp] theorem total_append (checks more : List Check) :
    total (checks ++ more) = total checks + total more := by
  induction checks with
  | nil => simp
  | cons check checks ih =>
      rw [List.cons_append, total_cons, total_cons, ih, Nat.add_assoc]

@[simp] theorem total_replicate (n : Nat) (checks : List Check) :
    total (List.replicate n checks).flatten = n * total checks := by
  induction n with
  | zero => simp
  | succ n ih =>
      rw [List.replicate_succ, List.flatten_cons, total_append, ih, Nat.succ_mul]
      omega

theorem firstFault_append (settings : Settings) (registry : Registry) (charged : Nat)
    (checks more : List Check) :
    firstFault settings registry charged (checks ++ more) =
      (firstFault settings registry charged checks).or
        (firstFault settings registry (charged + total checks) more) := by
  induction checks generalizing charged with
  | nil => rfl
  | cons check checks ih =>
      simp only [List.cons_append, firstFault, ih, total_cons, Option.or_assoc, Nat.add_assoc]

theorem firstFault_negated (settings : Settings) (registry : Registry) (charged : Nat)
    (value : Value) (bindings : Bindings) (checks : List Check) :
    firstFault settings registry charged (.bound value.negated bindings :: checks) =
      firstFault settings registry charged (.bound value bindings :: checks) := by
  rw [firstFault_bound, firstFault_bound, Value.get]
  cases value.get bindings <;> rfl

/-- Of several values, the first one without a binding is at fault. -/
theorem firstFault_values (settings : Settings) (registry : Registry) (charged : Nat)
    (entries : List (String × Value)) (bindings : Bindings) :
    firstFault settings registry charged (entries.map fun entry => .bound entry.2 bindings) =
      match entries.mapM fun entry => (entry.2.get bindings).map (entry.1, ·) with
      | .ok _ => none
      | .error fault => some fault := by
  induction entries with
  | nil => rfl
  | cons entry entries ih =>
      rw [List.map_cons, List.mapM_cons, firstFault_bound]
      cases entry.2.get bindings with
      | error fault => rfl
      | ok n =>
          rw [ih]
          cases entries.mapM fun entry => (entry.2.get bindings).map (entry.1, ·) <;> rfl

theorem total_values (entries : List (String × Value)) (bindings : Bindings) :
    total (entries.map fun entry => .bound entry.2 bindings) = 0 := by
  induction entries with
  | nil => rfl
  | cons entry entries ih => rw [List.map_cons, total_cons, ih, steps]

end Check

/-- How often a loop with this count goes round, where a count without a value is no count. -/
def Value.passes (bindings : Bindings) (value : Value) : Nat :=
  match value.get bindings with
  | .ok n => n.toInt.toNat
  | .error _ => 0

/-- What is in scope in a call, where arguments without a value bind nothing. -/
def callScope (parameters : List String) (arguments : List Value) (bindings : Bindings) :
    Bindings :=
  match scope parameters arguments bindings with
  | .ok inner => inner
  | .error _ => {}

namespace Primitive

/-- The checks of a primitive without arguments. -/
def checks : Primitive → List Check
  | penUp | penDown | clearScreen => []
  | _ => [.shape]

/-- The checks of a primitive with one argument. -/
def checksWith (value : Value) (bindings : Bindings) : Primitive → List Check
  | forward | backward | left | right | wait => [.bound value bindings]
  | _ => [.shape]

end Primitive

mutual

/-- The checks of an instruction that stands at level `depth`, where `bindings` are in scope. -/
def Instruction.checks : Instruction → Nat → Bindings → List Check
  | ⟨command, progress⟩, depth, bindings =>
    .step :: .level depth ::
      match command, progress with
      | .primitive p, .single (some value) => p.checksWith value bindings
      | .primitive p, .ready => p.checks
      | _, .loop (some times) (some ⟨body, _⟩) =>
        .bound times bindings ::
          (List.replicate (times.passes bindings)
            (.step :: checksEach body (depth + 1) bindings)).flatten
      | _, .define (some name) _ (some _) => [.free name]
      | .procedure ⟨_, _, parameters, body⟩, .call arguments =>
        (parameters.zip arguments).map (fun entry => .bound entry.2 bindings) ++
          checksEach body (depth + 1) (callScope parameters arguments bindings)
      | _, _ => [.shape]
termination_by structural instruction => instruction

def checksEach : List Instruction → Nat → Bindings → List Check
  | [], _, _ => []
  | instruction :: rest, depth, bindings =>
    instruction.checks depth bindings ++ checksEach rest depth bindings
termination_by structural instructions => instructions

end

namespace Instruction

theorem checks_loop (command : Command) (times : Value) (block : Block) (depth : Nat)
    (bindings : Bindings) :
    checks ⟨command, .loop (some times) (some block)⟩ depth bindings =
      .step :: .level depth :: .bound times bindings ::
        (List.replicate (times.passes bindings)
          (.step :: checksEach block.instructions (depth + 1) bindings)).flatten := by
  obtain ⟨body, closed⟩ := block
  cases command <;> rfl

theorem checks_define (command : Command) (name : String) (parameters : List String)
    (block : Block) (depth : Nat) (bindings : Bindings) :
    checks ⟨command, .define (some name) parameters (some block)⟩ depth bindings =
      [.step, .level depth, .free name] := by
  cases command <;> rfl

theorem checks_call (procedure : Procedure) (arguments : List Value) (depth : Nat)
    (bindings : Bindings) :
    checks ⟨.procedure procedure, .call arguments⟩ depth bindings =
      .step :: .level depth ::
        ((procedure.parameters.zip arguments).map (fun entry => .bound entry.2 bindings) ++
          checksEach procedure.body (depth + 1)
            (callScope procedure.parameters arguments bindings)) := by
  obtain ⟨serial, name, parameters, body⟩ := procedure
  rfl

theorem checks_of_not_performable {i : Instruction} (h : i.isPerformable = false) (depth : Nat)
    (bindings : Bindings) : i.checks depth bindings = [.step, .level depth, .shape] := by
  obtain ⟨command, progress⟩ := i
  unfold checks
  split
  case h_6 => rfl
  all_goals simp [isPerformable] at h

end Instruction

namespace Registry

variable {registry later : Registry} {name : String} {parameters : List String}
  {body : List Instruction}

theorem define_eq_ok (h : registry.define name parameters body = .ok later) :
    registry.isProtected name = false ∧
      later = ⟨registry.commands.insert (Text.lowercase name)
        (.procedure ⟨registry.made, name, parameters, body⟩), registry.made + 1⟩ := by
  simp only [define] at h
  split at h
  · cases h
  · next free => exact ⟨by simpa using free, (Except.ok.inj h).symm⟩

theorem lookup_define (h : registry.define name parameters body = .ok later) (other : String) :
    later.lookup other =
      if Text.lowercase other = Text.lowercase name then
        some (.procedure ⟨registry.made, name, parameters, body⟩)
      else registry.lookup other := by
  rw [(define_eq_ok h).2, lookup, Dictionary.get?_insert]
  rfl

theorem isProtected_define (h : registry.define name parameters body = .ok later)
    (other : String) : later.isProtected other = registry.isProtected other := by
  rw [isProtected, lookup_define h]
  by_cases same : Text.lowercase other = Text.lowercase name
  · have free := (define_eq_ok h).1
    rw [isProtected, lookup, ← same] at free
    rw [if_pos same, isProtected, lookup, free]
    rfl
  · rw [if_neg same, isProtected]

end Registry

/-- A run that is within the limit of steps, and in which the names that are protected are
those of `registry`. -/
structure Run.Ready (settings : Settings) (registry : Registry) (run : Run) : Prop where
  steps : run.steps ≤ settings.stepLimit
  names : ∀ name, run.world.registry.isProtected name = registry.isProtected name

/-- Performed at level `depth` with `bindings` in scope, the action comes to its end if the
checks hold, and has then taken their steps and returned to the same level and scope. If not,
it fails with the fault of the first one, and is at most one step over the limit. -/
def Follows (settings : Settings) (registry : Registry) (x : Action) (depth : Nat)
    (bindings : Bindings) (checks : List Check) : Prop :=
  ∀ run : Run, run.Ready settings registry → run.depth = depth → run.world.bindings = bindings →
    match x run with
    | .ok _ later =>
      Check.firstFault settings registry run.steps checks = none ∧
        later.Ready settings registry ∧ later.steps = run.steps + Check.total checks ∧
        later.depth = depth ∧ later.world.bindings = bindings
    | .error fault later =>
      Check.firstFault settings registry run.steps checks = some fault ∧
        later.steps ≤ settings.stepLimit + 1

namespace Follows

variable {settings : Settings} {registry : Registry} {x y : Action} {depth : Nat}
  {bindings : Bindings} {checks more : List Check}

theorem done : Follows settings registry (pure ()) depth bindings [] := by
  intro run ready deep scope
  exact ⟨rfl, ready, rfl, deep, scope⟩

theorem unfinished : Follows settings registry (throw .unfinished) depth bindings [.shape] := by
  intro run ready deep scope
  exact ⟨rfl, Nat.le_succ_of_le ready.steps⟩

theorem andThen (first : Follows settings registry x depth bindings checks)
    (second : Follows settings registry y depth bindings more) :
    Follows settings registry (x >>= fun _ => y) depth bindings (checks ++ more) := by
  intro run ready deep scope
  have outcome := first run ready deep scope
  rw [Action.bind_apply, Check.firstFault_append, Check.total_append]
  cases h : x run with
  | error fault later =>
      rw [h] at outcome
      obtain ⟨failed, bound⟩ := outcome
      exact ⟨by rw [failed]; rfl, bound⟩
  | ok _ later =>
      rw [h] at outcome
      obtain ⟨passed, ready, steps, deep, scope⟩ := outcome
      have rest := second later ready deep scope
      rw [steps] at rest
      simp only [passed, Option.none_or, ← Nat.add_assoc]
      exact rest

theorem charge : Follows settings registry (Action.charge settings.stepLimit) depth bindings
    [.step] := by
  intro run ready deep scope
  rw [Action.charge_apply, Check.firstFault_step]
  by_cases spent : settings.stepLimit < run.steps + 1
  · rw [if_pos spent, if_pos spent]
    exact ⟨rfl, Nat.succ_le_succ ready.steps⟩
  · rw [if_neg spent, if_neg spent]
    exact ⟨rfl, ⟨Nat.le_of_not_lt spent, ready.names⟩, rfl, deep, scope⟩

theorem evaluate {f : Int64 → Action} (value : Value)
    (h : ∀ n, value.get bindings = .ok n →
      Follows settings registry (f n) depth bindings checks) :
    Follows settings registry (Action.evaluate value >>= f) depth bindings
      (.bound value bindings :: checks) := by
  intro run ready deep scope
  rw [Action.bind_apply, Action.evaluate_apply, scope, Check.firstFault_bound]
  cases got : value.get bindings with
  | error fault => exact ⟨rfl, Nat.le_succ_of_le ready.steps⟩
  | ok n =>
      have rest := h n got run ready deep scope
      simpa [Check.steps] using rest

theorem evaluateEach {f : List (String × Int64) → Action} {parameters : List String}
    {arguments : List Value}
    (h : ∀ entries, scope parameters arguments bindings = .ok (.ofList entries) →
      Follows settings registry (f entries) depth bindings checks) :
    Follows settings registry (Action.evaluateEach parameters arguments >>= f) depth bindings
      ((parameters.zip arguments).map (fun entry => .bound entry.2 bindings) ++ checks) := by
  intro run ready deep inside
  rw [Action.bind_apply, Action.evaluateEach_apply, inside, Check.firstFault_append,
    Check.firstFault_values, Check.total_append, Check.total_values]
  cases got : (parameters.zip arguments).mapM
      fun entry => (entry.2.get bindings).map (entry.1, ·) with
  | error fault => exact ⟨rfl, Nat.le_succ_of_le ready.steps⟩
  | ok entries =>
      have bound : scope parameters arguments bindings = .ok (.ofList entries) := by
        simp only [scope, got]
        rfl
      have rest := h entries bound run ready deep inside
      simpa using rest

theorem evaluate_negated {f : Int64 → Action} (value : Value)
    (h : ∀ n, Follows settings registry (f n) depth bindings checks) :
    Follows settings registry (Action.evaluate value.negated >>= f) depth bindings
      (.bound value bindings :: checks) := by
  intro run ready deep scope
  have outcome := evaluate value.negated (fun n _ => h n) run ready deep scope
  rw [Check.firstFault_negated] at outcome
  exact outcome

theorem change {g : World → World} (scope : ∀ world, (g world).bindings = world.bindings)
    (names : ∀ world, (g world).registry = world.registry) :
    Follows settings registry (Action.change g) depth bindings [] := by
  intro run ready deep inside
  refine ⟨rfl, ⟨ready.steps, ?_⟩, rfl, deep, (scope run.world).trans inside⟩
  intro name
  exact (congrArg (·.isProtected name) (names run.world)).trans (ready.names name)

theorem define (name : String) (parameters : List String) (body : List Instruction) :
    Follows settings registry (Action.define name parameters body) depth bindings
      [.free name] := by
  intro run ready deep scope
  rw [Action.define_apply, Check.firstFault_free, ← ready.names]
  cases defined : run.world.registry.define name parameters body with
  | error fault =>
      refine ⟨?_, Nat.le_succ_of_le ready.steps⟩
      simp only [Registry.define] at defined
      split at defined
      · next taken =>
          cases defined
          rw [if_pos taken]
      · cases defined
  | ok later =>
      have kept := Registry.isProtected_define defined
      refine ⟨?_, ⟨ready.steps, fun other => (kept other).trans (ready.names other)⟩, rfl, deep,
        scope⟩
      rw [(Registry.define_eq_ok defined).1]
      rfl

theorem iterate (h : Follows settings registry x depth bindings checks) (n : Nat) :
    Follows settings registry (x.iterate n) depth bindings (List.replicate n checks).flatten := by
  induction n with
  | zero => exact done
  | succ n ih => exact h.andThen ih

theorem inScope {inner : Bindings} (h : Follows settings registry x depth inner checks) :
    Follows settings registry (Action.inScope inner x) depth bindings checks := by
  intro run ready deep scope
  have outcome := h { run with world := { run.world with bindings := inner } }
    ⟨ready.steps, ready.names⟩ deep rfl
  rw [Action.inScope_apply]
  cases result : x { run with world := { run.world with bindings := inner } } with
  | error fault later =>
      rw [result] at outcome
      exact outcome
  | ok _ later =>
      rw [result] at outcome
      obtain ⟨passed, ready, steps, deep, _⟩ := outcome
      exact ⟨passed, ⟨ready.steps, ready.names⟩, steps, deep, scope⟩

theorem performEach {body : List Instruction}
    (h : ∀ i ∈ body, Follows settings registry (i.perform settings) depth bindings
      (i.checks (depth + 1) bindings)) :
    Follows settings registry (Logo.performEach settings body) depth bindings
      (checksEach body (depth + 1) bindings) := by
  induction body with
  | nil => exact done
  | cons i rest ih =>
      have first := h i List.mem_cons_self
      exact first.andThen (ih fun j later => h j (List.mem_cons_of_mem _ later))

/-- Around what an instruction does, a step is taken and the level is entered and left. -/
theorem perform {i : Instruction}
    (h : Follows settings registry (i.act settings) (depth + 1) bindings checks) :
    Follows settings registry (i.perform settings) depth bindings
      (.step :: .level (depth + 1) :: checks) := by
  intro run ready deep scope
  rw [Instruction.perform_apply, deep, Check.firstFault_step, Check.firstFault_level]
  by_cases spent : settings.stepLimit < run.steps + 1
  · rw [if_pos spent, if_pos spent]
    exact ⟨rfl, Nat.succ_le_succ ready.steps⟩
  · rw [if_neg spent, if_neg spent]
    have within : run.steps + 1 ≤ settings.stepLimit := Nat.le_of_not_lt spent
    by_cases below : settings.maxDepth < depth + 1
    · rw [if_pos below, if_pos below]
      exact ⟨rfl, Nat.le_succ_of_le within⟩
    · rw [if_neg below, if_neg below]
      have outcome := h { run with steps := run.steps + 1, depth := depth + 1 }
        ⟨within, ready.names⟩ rfl scope
      cases acted : i.act settings { run with steps := run.steps + 1, depth := depth + 1 } with
      | error fault later =>
          rw [acted] at outcome
          exact outcome
      | ok _ later =>
          rw [acted] at outcome
          obtain ⟨passed, ready, steps, deep, scope⟩ := outcome
          refine ⟨passed, ⟨ready.steps, ready.names⟩, ?_, ?_, scope⟩
          · simp only [Check.total_cons, Check.steps, steps]
            omega
          · simp only [deep, Nat.add_sub_cancel]

end Follows

namespace Primitive

variable {settings : Settings} {registry : Registry} {depth : Nat} {bindings : Bindings}

theorem follows_perform (p : Primitive) :
    Follows settings registry p.perform depth bindings p.checks := by
  have set (down : Bool) :
      Follows settings registry (Action.change (·.setPen down)) depth bindings [] :=
    .change (fun _ => rfl) (fun _ => rfl)
  cases p with
  | penUp => exact set false
  | penDown => exact set true
  | clearScreen =>
      intro run ready deep scope
      exact ⟨rfl, ⟨ready.steps, ready.names⟩, rfl, deep, scope⟩
  | forward | backward | left | right | wait | loop | define => exact .unfinished

theorem follows_performWith (value : Value) (p : Primitive) :
    Follows settings registry (p.performWith settings value) depth bindings
      (p.checksWith value bindings) := by
  have move (n : Int64) :
      Follows settings registry (Action.change (·.move n)) depth bindings [] := by
    refine .change (fun world => ?_) (fun world => ?_) <;> simp only [World.move] <;> split <;> rfl
  have turn (n : Int64) :
      Follows settings registry (Action.change (·.turn settings.recordRotations n)) depth bindings
        [] := by
    refine .change (fun world => ?_) (fun world => ?_) <;> simp only [World.turn] <;> split <;> rfl
  have wait (n : Int64) : Follows settings registry (Action.change (·.wait n)) depth bindings [] :=
    .change (fun _ => rfl) (fun _ => rfl)
  cases p with
  | forward => exact .evaluate value fun n _ => move n
  | backward => exact .evaluate_negated value move
  | right => exact .evaluate value fun n _ => turn n
  | left => exact .evaluate_negated value turn
  | wait => exact .evaluate value fun n _ => wait n
  | penUp | penDown | clearScreen | loop | define => exact .unfinished

end Primitive

/-- What decides how performing an instruction ends, whatever the instruction is. -/
theorem Instruction.follows_perform (settings : Settings) (registry : Registry) (i : Instruction)
    (depth : Nat) (bindings : Bindings) :
    Follows settings registry (i.perform settings) depth bindings
      (i.checks (depth + 1) bindings) := by
  induction i using induction_act generalizing depth bindings with
  | single p value => exact .perform (p.follows_performWith value)
  | ready p => exact .perform p.follows_perform
  | loop command times block inner =>
      rw [checks_loop]
      apply Follows.perform
      rw [act_loop]
      refine Follows.evaluate times fun n got => ?_
      have passes : times.passes bindings = n.toInt.toNat := by rw [Value.passes, got]
      rw [passes]
      have pass := Follows.charge.andThen (.performEach fun i h => inner i h (depth + 1) bindings)
      exact pass.iterate n.toInt.toNat
  | define command name parameters block =>
      rw [checks_define]
      apply Follows.perform
      rw [act_define]
      exact .define name parameters block.instructions
  | call procedure arguments inner =>
      rw [checks_call]
      apply Follows.perform
      refine Follows.evaluateEach fun entries bound => ?_
      have scope : callScope procedure.parameters arguments bindings = .ofList entries := by
        rw [callScope, bound]
      rw [scope]
      exact .inScope (.performEach fun i h => inner i h (depth + 1) (.ofList entries))
  | unfinished i fails =>
      rw [checks_of_not_performable fails]
      apply Follows.perform
      rw [act_of_not_performable fails]
      exact .unfinished

end Logo
