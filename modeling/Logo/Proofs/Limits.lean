import Logo.Proofs.Finished

/-!
The limits of steps and of depth are exact. What an instruction costs and how high it nests can
be computed from its text and from the parameters in scope, and a finished instruction whose
values are bound is performed to its end if and only if both are within the limits.
-/
namespace Logo

mutual

/-- How many steps the instruction takes: one for itself and one for each pass of a loop. -/
def Instruction.cost : Instruction → Bindings → Nat
  | ⟨_, .loop (some times) (some ⟨body, _⟩)⟩, bindings =>
    1 + times.passes bindings * (1 + costEach body bindings)
  | ⟨.procedure ⟨_, _, parameters, body⟩, .call arguments⟩, bindings =>
    1 + costEach body (callScope parameters arguments bindings)
  | _, _ => 1
termination_by structural instruction => instruction

def costEach : List Instruction → Bindings → Nat
  | [], _ => 0
  | instruction :: rest, bindings => instruction.cost bindings + costEach rest bindings
termination_by structural instructions => instructions

end

mutual

/-- How many levels of instructions the instruction makes when it is performed, itself
included. A loop that makes no pass does not enter its block. -/
def Instruction.height : Instruction → Bindings → Nat
  | ⟨_, .loop (some times) (some ⟨body, _⟩)⟩, bindings =>
    if times.passes bindings = 0 then 1 else 1 + heightEach body bindings
  | ⟨.procedure ⟨_, _, parameters, body⟩, .call arguments⟩, bindings =>
    1 + heightEach body (callScope parameters arguments bindings)
  | _, _ => 1
termination_by structural instruction => instruction

/-- The greatest height, none where there is no instruction. -/
def heightEach : List Instruction → Bindings → Nat
  | [], _ => 0
  | instruction :: rest, bindings => max (instruction.height bindings) (heightEach rest bindings)
termination_by structural instructions => instructions

end

namespace Check

/-- No instruction is nested deeper than `limit`. -/
def Within (limit : Nat) (checks : List Check) : Prop :=
  ∀ depth, .level depth ∈ checks → depth ≤ limit

/-- All values that are evaluated are bound. -/
def Bound (checks : List Check) : Prop :=
  ∀ value bindings, .bound value bindings ∈ checks → ∃ n, value.get bindings = .ok n

variable {limit : Nat} {checks more : List Check}

@[simp] theorem within_nil : Within limit [] := by
  intro depth h
  cases h

@[simp] theorem within_cons {check : Check} :
    Within limit (check :: checks) ↔
      (∀ depth, check = .level depth → depth ≤ limit) ∧ Within limit checks := by
  simp only [Within, List.mem_cons, or_imp, forall_and, eq_comm]

@[simp] theorem within_append :
    Within limit (checks ++ more) ↔ Within limit checks ∧ Within limit more := by
  simp only [Within, List.mem_append, or_imp, forall_and]

@[simp] theorem within_replicate {n : Nat} :
    Within limit (List.replicate n checks).flatten ↔ n = 0 ∨ Within limit checks := by
  induction n with
  | zero => simp
  | succ n ih =>
      rw [List.replicate_succ, List.flatten_cons, within_append, ih]
      simp only [Nat.succ_ne_zero, false_or, and_iff_left_iff_imp]
      exact Or.inr

theorem within_values (entries : List (String × Value)) (bindings : Bindings) :
    Within limit (entries.map fun entry => .bound entry.2 bindings) := by
  intro depth h
  simp at h

/-- All names that are defined are free. -/
def Free (registry : Registry) (checks : List Check) : Prop :=
  ∀ name, .free name ∈ checks → registry.isProtected name = false

@[simp] theorem bound_cons {check : Check} :
    Bound (check :: checks) ↔
      (∀ value bindings, check = .bound value bindings → ∃ n, value.get bindings = .ok n) ∧
        Bound checks := by
  simp only [Bound, List.mem_cons, or_imp, forall_and, eq_comm]

@[simp] theorem free_cons {registry : Registry} {check : Check} :
    Free registry (check :: checks) ↔
      (∀ name, check = .free name → registry.isProtected name = false) ∧ Free registry checks := by
  simp only [Free, List.mem_cons, or_imp, forall_and, eq_comm]

/-- The checks of a finished instruction hold if and only if nothing exceeds its limit, nothing
is unbound and no protected name is defined. -/
theorem firstFault_eq_none_iff {settings : Settings} {registry : Registry} {charged : Nat}
    (sound : ∀ check ∈ checks, check.Sound fun _ => True) (room : charged ≤ settings.stepLimit) :
    firstFault settings registry charged checks = none ↔
      Bound checks ∧ Free registry checks ∧ charged + total checks ≤ settings.stepLimit ∧
        Within settings.maxDepth checks := by
  induction checks generalizing charged with
  | nil => simpa [firstFault, Bound, Free] using room
  | cons check checks ih =>
      obtain ⟨here, later⟩ := List.forall_mem_cons.mp sound
      cases check with
      | step =>
          rw [firstFault_step]
          by_cases spent : settings.stepLimit < charged + 1
          · simp only [if_pos spent, total_cons, steps]
            constructor
            · intro h
              cases h
            · rintro ⟨_, _, h, _⟩
              omega
          · rw [if_neg spent, ih later (Nat.le_of_not_lt spent)]
            simp [steps, Nat.add_assoc]
      | level depth =>
          rw [firstFault_level]
          by_cases below : settings.maxDepth < depth
          · simp only [if_pos below, within_cons]
            constructor
            · intro h
              cases h
            · rintro ⟨_, _, _, h, _⟩
              have := h depth rfl
              omega
          · rw [if_neg below, ih later room]
            simp [steps, Nat.le_of_not_lt below]
      | bound value bindings =>
          rw [firstFault_bound]
          cases got : value.get bindings with
          | ok n =>
              simp only [ih later room]
              simp [steps, got]
          | error fault => simp [got]
      | free name =>
          rw [firstFault_free]
          by_cases taken : registry.isProtected name = true
          · simp [taken]
          · rw [if_neg taken, ih later room]
            simp [steps, taken]
      | shape => exact here.elim

end Check

namespace Instruction

theorem total_checksEach {body : List Instruction} {depth : Nat} {bindings : Bindings}
    (h : ∀ i ∈ body, Check.total (i.checks depth bindings) = i.cost bindings) :
    Check.total (checksEach body depth bindings) = costEach body bindings := by
  induction body with
  | nil => rfl
  | cons i rest ih =>
      rw [checksEach, costEach, Check.total_append, h i List.mem_cons_self,
        ih fun j later => h j (List.mem_cons_of_mem _ later)]

theorem cost_loop (command : Command) (times : Value) (block : Block) (bindings : Bindings) :
    cost ⟨command, .loop (some times) (some block)⟩ bindings =
      1 + times.passes bindings * (1 + costEach block.instructions bindings) := by
  obtain ⟨body, closed⟩ := block
  cases command <;> rfl

theorem cost_call (procedure : Procedure) (arguments : List Value) (bindings : Bindings) :
    cost ⟨.procedure procedure, .call arguments⟩ bindings =
      1 + costEach procedure.body (callScope procedure.parameters arguments bindings) := by
  obtain ⟨serial, name, parameters, body⟩ := procedure
  rfl

theorem height_loop (command : Command) (times : Value) (block : Block) (bindings : Bindings) :
    height ⟨command, .loop (some times) (some block)⟩ bindings =
      if times.passes bindings = 0 then 1 else 1 + heightEach block.instructions bindings := by
  obtain ⟨body, closed⟩ := block
  cases command <;> rfl

theorem height_call (procedure : Procedure) (arguments : List Value) (bindings : Bindings) :
    height ⟨.procedure procedure, .call arguments⟩ bindings =
      1 + heightEach procedure.body (callScope procedure.parameters arguments bindings) := by
  obtain ⟨serial, name, parameters, body⟩ := procedure
  rfl

theorem cost_of_not_performable {i : Instruction} (h : i.isPerformable = false)
    (bindings : Bindings) : i.cost bindings = 1 := by
  unfold cost
  split
  case h_3 => rfl
  all_goals simp [isPerformable] at h

theorem height_of_not_performable {i : Instruction} (h : i.isPerformable = false)
    (bindings : Bindings) : i.height bindings = 1 := by
  unfold height
  split
  case h_3 => rfl
  all_goals simp [isPerformable] at h

theorem total_checks (i : Instruction) (depth : Nat) (bindings : Bindings) :
    Check.total (i.checks depth bindings) = i.cost bindings := by
  induction i using induction_act generalizing depth bindings with
  | single p value => cases p <;> rfl
  | ready p => cases p <;> rfl
  | loop command times block inner =>
      have body := total_checksEach fun i h => inner i h (depth + 1) bindings
      rw [checks_loop, cost_loop, ← body]
      simp [Check.steps]
  | define command name parameters block => cases command <;> rfl
  | call procedure arguments inner =>
      have body := total_checksEach fun i h =>
        inner i h (depth + 1) (callScope procedure.parameters arguments bindings)
      rw [checks_call, cost_call, ← body]
      simp [Check.steps, Check.total_values]
  | unfinished i fails =>
      rw [checks_of_not_performable fails, cost_of_not_performable fails]
      rfl

theorem within_checksEach {limit depth : Nat} {body : List Instruction} {bindings : Bindings}
    (room : depth ≤ limit + 1)
    (h : ∀ i ∈ body, Check.Within limit (i.checks depth bindings) ↔
      depth + i.height bindings ≤ limit + 1) :
    Check.Within limit (checksEach body depth bindings) ↔
      depth + heightEach body bindings ≤ limit + 1 := by
  induction body with
  | nil => simpa [checksEach, heightEach] using room
  | cons i rest ih =>
      rw [checksEach, heightEach, Check.within_append, h i List.mem_cons_self,
        ih fun j later => h j (List.mem_cons_of_mem _ later)]
      omega

/-- An instruction at level `depth` reaches down to the level that its height gives. -/
theorem within_checks (i : Instruction) (limit depth : Nat) (bindings : Bindings) :
    Check.Within limit (i.checks depth bindings) ↔ depth + i.height bindings ≤ limit + 1 := by
  induction i using induction_act generalizing depth bindings with
  | single p value => cases p <;> simp [checks, Primitive.checksWith, height]
  | ready p => cases p <;> simp [checks, Primitive.checks, height]
  | loop command times block inner =>
      have body (room : depth ≤ limit) := within_checksEach (Nat.succ_le_succ room)
        fun i h => inner i h (depth + 1) bindings
      have levels : Check.Within limit
          (checks ⟨command, .loop (some times) (some block)⟩ depth bindings) ↔
          depth ≤ limit ∧ (times.passes bindings = 0 ∨
            Check.Within limit (checksEach block.instructions (depth + 1) bindings)) := by
        simp [checks_loop]
      rw [levels, height_loop]
      -- where the loop itself is too deep, its block need not be looked at
      by_cases room : depth ≤ limit
      · rw [body room]
        split <;> omega
      · split <;> omega
  | define command name parameters block => cases command <;> simp [checks_define, height]
  | call procedure arguments inner =>
      have body (room : depth ≤ limit) := within_checksEach (Nat.succ_le_succ room)
        fun i h => inner i h (depth + 1) (callScope procedure.parameters arguments bindings)
      have levels : Check.Within limit
          (checks ⟨.procedure procedure, .call arguments⟩ depth bindings) ↔
          depth ≤ limit ∧ Check.Within limit (checksEach procedure.body (depth + 1)
            (callScope procedure.parameters arguments bindings)) := by
        simp [checks_call, Check.within_values]
      rw [levels, height_call]
      by_cases room : depth ≤ limit
      · rw [body room]
        omega
      · omega
  | unfinished i fails =>
      rw [checks_of_not_performable fails, height_of_not_performable fails]
      simp

section

variable {settings : Settings} {world : World} {i : Instruction} {run : Run}

theorem perform_ok (h : i.perform settings { world } = .ok () run) :
    Check.firstFault settings world.registry 0 (i.checks 1 world.bindings) = none ∧
      run.steps = i.cost world.bindings ∧ run.depth = 0 ∧ run.steps ≤ settings.stepLimit := by
  have outcome := i.follows_perform settings world.registry 0 world.bindings { world }
    ⟨Nat.zero_le _, fun _ => rfl⟩ rfl rfl
  rw [h, total_checks] at outcome
  obtain ⟨passed, ready, steps, deep, _⟩ := outcome
  exact ⟨passed, by simpa using steps, deep, ready.steps⟩

theorem perform_error {fault : Fault} (h : i.perform settings { world } = .error fault run) :
    Check.firstFault settings world.registry 0 (i.checks 1 world.bindings) = some fault ∧
      run.steps ≤ settings.stepLimit + 1 := by
  have outcome := i.follows_perform settings world.registry 0 world.bindings { world }
    ⟨Nat.zero_le _, fun _ => rfl⟩ rfl rfl
  rwa [h] at outcome

theorem perform_ok_iff (settings : Settings) (world : World) (i : Instruction) :
    (∃ run, i.perform settings { world } = .ok () run) ↔
      Check.firstFault settings world.registry 0 (i.checks 1 world.bindings) = none := by
  constructor
  · rintro ⟨run, done⟩
    exact (perform_ok done).1
  · intro passed
    cases ended : i.perform settings { world } with
    | ok _ run => exact ⟨run, rfl⟩
    | error fault run => cases passed.symm.trans (perform_error ended).1

theorem Finished.perform_ok_iff (finished : i.Finished fun _ => True) :
    (∃ run, i.perform settings { world } = .ok () run) ↔
      Check.Bound (i.checks 1 world.bindings) ∧
        Check.Free world.registry (i.checks 1 world.bindings) ∧
        i.cost world.bindings ≤ settings.stepLimit ∧
        i.height world.bindings ≤ settings.maxDepth := by
  rw [Instruction.perform_ok_iff, Check.firstFault_eq_none_iff (finished.sound_checks 1 _)
    (Nat.zero_le _), total_checks, within_checks]
  simp only [Nat.zero_add, Nat.add_comm 1, Nat.add_le_add_iff_right]

theorem Finished.free_checks {registry : Registry}
    (finished : i.Finished fun name => registry.isProtected name = false) (depth : Nat)
    (bindings : Bindings) : Check.Free registry (i.checks depth bindings) :=
  fun name among => finished.sound_checks depth bindings (.free name) among

end

/-- The limits as performing enforces them. A finished instruction is performed to its end
exactly if every value it evaluates is bound and its cost and height are within the limits,
provided that the names it defines are free; it has then taken as many steps as it costs and is
back at the level where it began. Whatever the instruction is, a failure is that of the first
check that does not hold, where at each instruction the steps are checked before the depth, and
the limit of steps is never exceeded by more than the one step that is refused. -/
theorem perform_limits (settings : Settings) (world : World) (i : Instruction) :
    (i.Finished (fun name => world.registry.isProtected name = false) →
      ((∃ run, i.perform settings { world } = .ok () run) ↔
        Check.Bound (i.checks 1 world.bindings) ∧
          i.cost world.bindings ≤ settings.stepLimit ∧
          i.height world.bindings ≤ settings.maxDepth)) ∧
    (i.Finished (fun _ => True) →
      ((∃ run, i.perform settings { world } = .ok () run) ↔
        Check.Bound (i.checks 1 world.bindings) ∧
          Check.Free world.registry (i.checks 1 world.bindings) ∧
          i.cost world.bindings ≤ settings.stepLimit ∧
          i.height world.bindings ≤ settings.maxDepth)) ∧
    (∀ run, i.perform settings { world } = .ok () run →
      run.steps = i.cost world.bindings ∧ run.depth = 0 ∧ run.steps ≤ settings.stepLimit) ∧
    ∀ fault run, i.perform settings { world } = .error fault run →
      Check.firstFault settings world.registry 0 (i.checks 1 world.bindings) = some fault ∧
        run.steps ≤ settings.stepLimit + 1 := by
  refine ⟨?_, fun finished => finished.perform_ok_iff, fun run done => (perform_ok done).2,
    fun fault run failed => perform_error failed⟩
  intro finished
  have free := finished.free_checks 1 world.bindings
  rw [(finished.mono fun _ _ => trivial).perform_ok_iff]
  simp only [free, true_and]

/-- A loop of calls that costs seven steps on three levels, with limits that just let it pass and
with limits that are each one too small. -/
theorem perform_limits_tight :
    let hop : Procedure :=
      ⟨0, "hop", ["n"], [⟨.primitive .forward, .single (some (.parameter "n"))⟩]⟩
    let call : Instruction := ⟨.procedure hop, .call [.constant 5]⟩
    let twice : Instruction := ⟨.primitive .loop, .loop (some (.constant 2)) (some ⟨[call], true⟩)⟩
    twice.Finished (fun name => ({} : World).registry.isProtected name = false) ∧
      (∃ run, twice.perform ⟨false, 7, 3⟩ { world := {} } = .ok () run ∧
        run.steps = 7 ∧ run.depth = 0) ∧
      (¬ ∃ run, twice.perform ⟨false, 6, 3⟩ { world := {} } = .ok () run) ∧
      (∀ fault run, twice.perform ⟨false, 7, 2⟩ { world := {} } = .error fault run →
        fault = .tooDeep 2) := by
  intro hop call twice
  have finished : twice.Finished (fun name => ({} : World).registry.isProtected name = false) := by
    refine .loop fun i h => ?_
    rw [List.mem_singleton.mp h]
    refine .call rfl fun i h => ?_
    rw [List.mem_singleton.mp h]
    exact .single (.inl rfl)
  have passed : Check.firstFault ⟨false, 7, 3⟩ ({} : World).registry 0
      (twice.checks 1 ({} : World).bindings) = none := rfl
  have bound : Check.Bound (twice.checks 1 ({} : World).bindings) :=
    ((Check.firstFault_eq_none_iff ((finished.mono fun _ _ => trivial).sound_checks _ _)
      (Nat.zero_le _)).mp passed).1
  refine ⟨finished, ?_, ?_, ?_⟩
  · obtain ⟨decided, _, ended, _⟩ := perform_limits ⟨false, 7, 3⟩ {} twice
    obtain ⟨run, done⟩ := (decided finished).mpr ⟨bound, by decide, by decide⟩
    obtain ⟨steps, deep, _⟩ := ended run done
    exact ⟨run, done, steps, deep⟩
  · intro done
    have within := ((perform_limits ⟨false, 6, 3⟩ {} twice).1 finished).mp done
    exact absurd within.2.1 (by decide)
  · intro fault run failed
    have first := ((perform_limits ⟨false, 7, 2⟩ {} twice).2.2.2 fault run failed).1
    exact (Option.some.inj first).symm

/-- Limits and bound values do not settle it alone: a definition of a protected name is refused,
although it is finished, evaluates nothing and costs one step on one level. -/
theorem protected_definition_refused :
    let definition : Instruction :=
      ⟨.primitive .define, .define (some "fd") [] (some ⟨[], true⟩)⟩
    definition.Finished (fun _ => True) ∧
      Check.Bound (definition.checks 1 ({} : World).bindings) ∧
      definition.cost ({} : World).bindings ≤ ({} : Settings).stepLimit ∧
      definition.height ({} : World).bindings ≤ ({} : Settings).maxDepth ∧
      (∃ run, definition.perform {} { world := {} } = .error (.protectedName "fd") run) ∧
      ¬ ∃ run, definition.perform {} { world := {} } = .ok () run := by
  intro definition
  have refused : definition.perform {} { world := {} } =
      .error (.protectedName "fd") { world := {}, steps := 1, depth := 1 } := rfl
  refine ⟨.define trivial nofun, ?_, by decide, by decide, ⟨_, refused⟩, ?_⟩
  · intro value bindings among
    simp [definition, checks] at among
  · rintro ⟨run, done⟩
    cases refused.symm.trans done

end Instruction

end Logo
