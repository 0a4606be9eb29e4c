import Logo.Proofs.Checks
import Logo.Proofs.Grammar

/-!
Instructions in which nothing is missing, neither in themselves nor in their blocks nor in the
procedures they call, however far down. The grammar denotes no others, and performing one of
them fails for want of steps, of depth or of a parameter, and for no other reason.
-/
namespace Logo

/-- The instruction and all that it holds have the shape that belongs to their commands, and
are complete. Definitions take only names that are allowed. -/
inductive Instruction.Finished (allowed : String → Prop) : Instruction → Prop
  | ready {p : Primitive} (kind : p = .penUp ∨ p = .penDown ∨ p = .clearScreen) :
      Finished allowed ⟨.primitive p, .ready⟩
  | single {p : Primitive} {value : Value}
      (kind : p = .forward ∨ p = .backward ∨ p = .left ∨ p = .right ∨ p = .wait) :
      Finished allowed ⟨.primitive p, .single (some value)⟩
  | loop {times : Value} {body : List Instruction} (inner : ∀ i ∈ body, Finished allowed i) :
      Finished allowed ⟨.primitive .loop, .loop (some times) (some ⟨body, true⟩)⟩
  | define {name : String} {parameters : List String} {body : List Instruction}
      (free : allowed name) (inner : ∀ i ∈ body, Finished allowed i) :
      Finished allowed ⟨.primitive .define, .define (some name) parameters (some ⟨body, true⟩)⟩
  | call {p : Procedure} {arguments : List Value}
      (count : arguments.length = p.parameters.length) (inner : ∀ i ∈ p.body, Finished allowed i) :
      Finished allowed ⟨.procedure p, .call arguments⟩

namespace Check

/-- Whether a finished instruction can have the check. -/
def Sound (allowed : String → Prop) : Check → Prop
  | .free name => allowed name
  | .shape => False
  | .step | .level _ | .bound _ _ => True

/-- The first check that fails, and those before it, which hold. -/
theorem split_of_firstFault {settings : Settings} {registry : Registry} {charged : Nat}
    {checks : List Check} {fault : Fault}
    (h : firstFault settings registry charged checks = some fault) :
    ∃ passed check rest, checks = passed ++ check :: rest ∧
      firstFault settings registry charged passed = none ∧
      check.fault? settings registry (charged + total passed) = some fault := by
  induction checks generalizing charged with
  | nil => cases h
  | cons check checks ih =>
      rw [firstFault, Option.or_eq_some_iff] at h
      rcases h with here | ⟨passes, later⟩
      · exact ⟨[], check, checks, rfl, rfl, here⟩
      · obtain ⟨passed, found, rest, rfl, hold, fails⟩ := ih later
        refine ⟨check :: passed, found, rest, rfl, ?_, ?_⟩
        · rw [firstFault, passes, hold]
          rfl
        · rwa [total_cons, ← Nat.add_assoc]

/-- How a check can stop a finished instruction after `charged` steps. An unknown parameter is
one that has no value in the scope in which it was to be evaluated. -/
inductive Stops (settings : Settings) (charged : Nat) : Check → Fault → Prop
  | step (spent : settings.stepLimit ≤ charged) :
      Stops settings charged .step (.stepLimit settings.stepLimit)
  | level {depth : Nat} (deep : settings.maxDepth < depth) :
      Stops settings charged (.level depth) (.tooDeep settings.maxDepth)
  | bound {value : Value} {bindings : Bindings} {name : String}
      (evaluated : value.get bindings = .error (.unknownParameter name))
      (unbound : bindings.get? name = none) :
      Stops settings charged (.bound value bindings) (.unknownParameter name)

end Check

theorem forall_checksEach {P : Check → Prop} {body : List Instruction} {depth : Nat}
    {bindings : Bindings} (h : ∀ i ∈ body, ∀ check ∈ i.checks depth bindings, P check) :
    ∀ check ∈ checksEach body depth bindings, P check := by
  induction body with
  | nil => simp [checksEach]
  | cons i rest ih =>
      rw [checksEach, List.forall_mem_append]
      exact ⟨h i List.mem_cons_self, ih fun j later => h j (List.mem_cons_of_mem _ later)⟩

namespace Instruction.Finished

variable {allowed : String → Prop} {i : Instruction}

theorem mono {allowed' : String → Prop} (h : i.Finished allowed)
    (imp : ∀ name, allowed name → allowed' name) : i.Finished allowed' := by
  induction h with
  | ready kind => exact .ready kind
  | single kind => exact .single kind
  | loop inner ih => exact .loop ih
  | define free inner ih => exact .define (imp _ free) ih
  | call count inner ih => exact .call count ih

theorem sound_checks (h : i.Finished allowed) (depth : Nat) (bindings : Bindings) :
    ∀ check ∈ i.checks depth bindings, check.Sound allowed := by
  induction h generalizing depth bindings with
  | ready kind =>
      rcases kind with rfl | rfl | rfl <;> simp [checks, Primitive.checks, Check.Sound]
  | single kind =>
      rcases kind with rfl | rfl | rfl | rfl | rfl <;>
        simp [checks, Primitive.checksWith, Check.Sound]
  | loop inner ih =>
      have pass := forall_checksEach fun i h => ih i h (depth + 1) bindings
      intro check among
      simp only [checks_loop, List.mem_cons, List.mem_flatten, List.mem_replicate] at among
      obtain rfl | rfl | rfl | ⟨passes, ⟨_, rfl⟩, among⟩ := among
      · trivial
      · trivial
      · trivial
      · rcases List.mem_cons.mp among with rfl | among
        · trivial
        · exact pass check among
  | define free inner ih =>
      simp [checks_define, Check.Sound, free]
  | @call p arguments count inner ih =>
      have body := forall_checksEach fun i h =>
        ih i h (depth + 1) (callScope p.parameters arguments bindings)
      intro check among
      simp only [checks_call, List.mem_cons, List.mem_append, List.mem_map] at among
      obtain rfl | rfl | ⟨entry, _, rfl⟩ | among := among
      · trivial
      · trivial
      · trivial
      · exact body check among

end Instruction.Finished

theorem Value.unknownParameter_of_get {value : Value} {bindings : Bindings} {fault : Fault}
    (h : value.get bindings = .error fault) :
    ∃ name, bindings.get? name = none ∧ fault = .unknownParameter name := by
  induction value generalizing fault with
  | constant n => cases h
  | parameter name =>
      simp only [get] at h
      split at h
      · cases h
      · next unbound =>
          cases h
          exact ⟨name, unbound, rfl⟩
  | negated value ih =>
      simp only [get] at h
      cases got : value.get bindings with
      | ok n =>
          rw [got] at h
          cases h
      | error fault' =>
          rw [got] at h
          cases h
          exact ih got

theorem Check.Sound.stops {allowed : String → Prop} {check : Check}
    (sound : check.Sound allowed) {settings : Settings} {registry : Registry} {charged : Nat}
    {fault : Fault} (free : ∀ name, allowed name → registry.isProtected name = false)
    (h : check.fault? settings registry charged = some fault) :
    check.Stops settings charged fault := by
  cases check with
  | step =>
      simp only [fault?] at h
      split at h
      · next spent =>
          cases h
          exact .step (Nat.le_of_lt_succ spent)
      · cases h
  | level depth =>
      simp only [fault?] at h
      split at h
      · next deep =>
          cases h
          exact .level deep
      · cases h
  | bound value bindings =>
      simp only [fault?] at h
      split at h
      · cases h
      · next failed =>
          cases h
          obtain ⟨name, unbound, rfl⟩ := Value.unknownParameter_of_get failed
          exact .bound failed unbound
  | free name =>
      rw [fault?, free name sound] at h
      cases h
  | shape => exact sound.elim

section

variable {allowed : String → Prop} {i : Instruction} {settings : Settings} {run later : Run}
  {fault : Fault}

/-- Performing a finished instruction fails at the first of its checks that does not hold. -/
theorem Instruction.Finished.stops_of_perform (h : i.Finished allowed)
    (within : run.steps ≤ settings.stepLimit)
    (free : ∀ name, allowed name → run.world.registry.isProtected name = false)
    (failed : i.perform settings run = .error fault later) :
    ∃ passed check rest,
      i.checks (run.depth + 1) run.world.bindings = passed ++ check :: rest ∧
      Check.firstFault settings run.world.registry run.steps passed = none ∧
      check.Stops settings (run.steps + Check.total passed) fault := by
  have outcome := i.follows_perform settings run.world.registry run.depth run.world.bindings run
    ⟨within, fun _ => rfl⟩ rfl rfl
  rw [failed] at outcome
  obtain ⟨passed, check, rest, split, hold, fails⟩ := Check.split_of_firstFault outcome.1
  have sound := h.sound_checks _ _ check (by rw [split]; simp)
  exact ⟨passed, check, rest, split, hold, sound.stops free fails⟩

/-- What can be wrong when a finished instruction is performed. -/
theorem Instruction.Finished.fault_cases (h : i.Finished allowed)
    (within : run.steps ≤ settings.stepLimit)
    (free : ∀ name, allowed name → run.world.registry.isProtected name = false)
    (failed : i.perform settings run = .error fault later) :
    fault = .stepLimit settings.stepLimit ∨ fault = .tooDeep settings.maxDepth ∨
      ∃ name, fault = .unknownParameter name := by
  obtain ⟨_, _, _, _, _, stops⟩ := h.stops_of_perform within free failed
  cases stops with
  | step spent => exact .inl rfl
  | level deep => exact .inr (.inl rfl)
  | bound evaluated unbound => exact .inr (.inr ⟨_, rfl⟩)

end

/-- The bodies of all procedures in the registry are finished. -/
def Registry.Finished (allowed : String → Prop) (registry : Registry) : Prop :=
  ∀ key p, registry.commands.get? key = some (.procedure p) → ∀ i ∈ p.body, i.Finished allowed

/-- The grammar denotes finished instructions, where the called procedures are finished. -/
theorem Statement.finished {registry : Registry} {maxDepth : Nat} {around : Option String}
    {level : Nat} {tokens : List Token} {i : Instruction} {allowed : String → Prop}
    (h : Statement registry maxDepth around level tokens i) (known : registry.Finished allowed)
    (free : ∀ name, registry.isProtected name = false → allowed (Text.lowercase name)) :
    i.Finished allowed := by
  induction h with
  | bare named kind => exact .ready kind
  | single named kind argument => exact .single kind
  | loop named argument opened deep inner starts closed ih =>
      refine .loop fun i h => ?_
      obtain ⟨part, among, rfl⟩ := List.mem_map.mp h
      exact ih part among
  | define named unprotected apart declared maximal deep inner starts closed ih =>
      refine .define (free _ unprotected) fun i h => ?_
      obtain ⟨part, among, rfl⟩ := List.mem_map.mp h
      exact ih part among
  | call named arguments count =>
      refine .call ?_ (known _ _ named)
      have length := congrArg List.length arguments
      simp only [List.length_map] at length
      omega

end Logo
