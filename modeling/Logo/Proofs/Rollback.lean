import Logo.Proofs.Performing
import Logo.Session

/-!
A failed statement leaves no trace. The log is put back from its length and from what the
first clearing saved, so the invariant is about the log that a failure would go back to: it
only grows. Bindings are put back by every call, and the rest is copied.
-/
namespace Logo

namespace World

/-- `later` has the same parameters in scope, and a log that continues that of `world`. -/
structure Grows (world later : World) : Prop where
  bindings : later.bindings = world.bindings
  log : world.log.toList <+: later.log.toList

theorem grows_move (world : World) (distance : Int64) : Grows world (world.move distance) := by
  simp only [move]
  split <;> exact ⟨rfl, by simp⟩

theorem grows_turn (recorded : Bool) (world : World) (angle : Int64) :
    Grows world (world.turn recorded angle) := by
  simp only [turn]
  split <;> exact ⟨rfl, by simp⟩

theorem grows_wait (world : World) (seconds : Int64) : Grows world (world.wait seconds) :=
  ⟨rfl, by simp [wait]⟩

theorem grows_setPen (world : World) (down : Bool) : Grows world (world.setPen down) :=
  ⟨rfl, List.prefix_rfl⟩

end World

/-- The log of which a failure keeps the beginning. -/
def Run.held (run : Run) : DrawLog := run.cleared.getD run.world.log

structure Kept (run later : Run) : Prop where
  bindings : later.world.bindings = run.world.bindings
  held : run.held.toList <+: later.held.toList

theorem Kept.refl (run : Run) : Kept run run := ⟨rfl, List.prefix_rfl⟩

theorem Kept.trans {a b c : Run} (h : Kept a b) (h' : Kept b c) : Kept a c :=
  ⟨h'.bindings.trans h.bindings, h.held.trans h'.held⟩

/-- What an action leaves, whether it fails or not, is what it met with more in the log. -/
def Keeps {α : Type} (x : EStateM Fault Run α) : Prop :=
  ∀ run, match x run with
    | .ok _ later | .error _ later => Kept run later

namespace Keeps

variable {α β : Type} {x : EStateM Fault Run α} {f : α → EStateM Fault Run β}

theorem throw (fault : Fault) : Keeps (throw fault : EStateM Fault Run α) := Kept.refl

theorem bind (first : Keeps x) (next : ∀ a, Keeps (f a)) : Keeps (x >>= f) := by
  intro run
  have kept := first run
  rw [Action.bind_apply]
  cases h : x run with
  | error fault later =>
      rw [h] at kept
      exact kept
  | ok a later =>
      rw [h] at kept
      have rest := next a later
      change match f a later with
        | .ok _ last | .error _ last => Kept run last
      cases h' : f a later with
      | error fault last | ok b last =>
          rw [h'] at rest
          exact kept.trans rest

theorem charge (limit : Nat) : Keeps (Action.charge limit) := by
  intro run
  rw [Action.charge_apply]
  by_cases h : limit < run.steps + 1
  · rw [if_pos h]
    exact ⟨rfl, List.prefix_rfl⟩
  · rw [if_neg h]
    exact ⟨rfl, List.prefix_rfl⟩

theorem descend (limit : Nat) : Keeps (Action.descend limit) := by
  intro run
  rw [Action.descend_apply]
  by_cases h : limit < run.depth + 1
  · rw [if_pos h]
    exact ⟨rfl, List.prefix_rfl⟩
  · rw [if_neg h]
    exact ⟨rfl, List.prefix_rfl⟩

theorem ascend : Keeps Action.ascend := fun _ => ⟨rfl, List.prefix_rfl⟩

theorem evaluate (value : Value) : Keeps (Action.evaluate value) := by
  intro run
  rw [Action.evaluate_apply]
  cases value.get run.world.bindings <;> exact Kept.refl run

theorem evaluateEach (names : List String) (values : List Value) :
    Keeps (Action.evaluateEach names values) := by
  intro run
  rw [Action.evaluateEach_apply]
  cases (names.zip values).mapM
    fun entry => (entry.2.get run.world.bindings).map (entry.1, ·) <;> exact Kept.refl run

theorem define (name : String) (parameters : List String) (body : List Instruction) :
    Keeps (Action.define name parameters body) := by
  intro run
  rw [Action.define_apply]
  cases run.world.registry.define name parameters body with
  | error fault => exact Kept.refl run
  | ok registry => exact ⟨rfl, List.prefix_rfl⟩

theorem change {g : World → World} (h : ∀ world, World.Grows world (g world)) :
    Keeps (Action.change g) := by
  intro run
  refine ⟨(h run.world).bindings, ?_⟩
  obtain ⟨world, steps, depth, cleared⟩ := run
  -- once the log has been cleared, what is drawn after it no longer counts
  cases cleared with
  | none => exact (h world).log
  | some cleared => exact List.prefix_rfl

/-- The first clearing saves the log, and every later one saves it again. -/
theorem clear : Keeps Action.clear := fun _ => ⟨rfl, List.prefix_rfl⟩

theorem inScope (bindings : Bindings) {action : Action} (h : Keeps action) :
    Keeps (Action.inScope bindings action) := by
  intro run
  have kept := h { run with world := { run.world with bindings } }
  rw [Action.inScope_apply]
  cases outcome : action { run with world := { run.world with bindings } } with
  | ok _ later | error fault later =>
      rw [outcome] at kept
      exact ⟨rfl, kept.held⟩

theorem iterate {action : Action} (h : Keeps action) (n : Nat) : Keeps (action.iterate n) := by
  induction n with
  | zero => exact Kept.refl
  | succ n ih => exact h.bind fun _ => ih

theorem performEach {settings : Settings} {body : List Instruction}
    (h : ∀ i ∈ body, Keeps (i.perform settings)) : Keeps (performEach settings body) := by
  induction body with
  | nil => exact Kept.refl
  | cons i rest ih =>
      rw [Logo.performEach]
      refine (h i List.mem_cons_self).bind fun _ => ih ?_
      intro j hj
      exact h j (List.mem_cons_of_mem i hj)

end Keeps

theorem Primitive.keeps_perform (p : Primitive) : Keeps p.perform := by
  cases p with
  | penUp => exact .change fun world => world.grows_setPen false
  | penDown => exact .change fun world => world.grows_setPen true
  | clearScreen => exact .clear
  | forward | backward | left | right | wait | loop | define => exact .throw .unfinished

theorem Primitive.keeps_performWith (settings : Settings) (value : Value) (p : Primitive) :
    Keeps (p.performWith settings value) := by
  cases p with
  | forward => exact (Keeps.evaluate value).bind fun n => .change fun world => world.grows_move n
  | backward =>
      exact (Keeps.evaluate value.negated).bind fun n => .change fun world => world.grows_move n
  | right => exact (Keeps.evaluate value).bind fun n => .change fun world => world.grows_turn _ n
  | left =>
      exact (Keeps.evaluate value.negated).bind fun n => .change fun world => world.grows_turn _ n
  | wait => exact (Keeps.evaluate value).bind fun n => .change fun world => world.grows_wait n
  | penUp | penDown | clearScreen | loop | define => exact .throw .unfinished

theorem Instruction.keeps_perform (settings : Settings) (i : Instruction) :
    Keeps (i.perform settings) := by
  have around {i : Instruction} (h : Keeps (i.act settings)) : Keeps (i.perform settings) := by
    rw [perform_eq]
    exact (Keeps.charge _).bind fun _ => (Keeps.descend _).bind fun _ => h.bind fun _ => .ascend
  induction i using induction_act with
  | single p value => exact around (p.keeps_performWith settings value)
  | ready p => exact around p.keeps_perform
  | loop command times block ih =>
      apply around
      rw [act_loop]
      refine (Keeps.evaluate times).bind fun n => Keeps.iterate ?_ _
      exact (Keeps.charge _).bind fun _ => .performEach ih
  | define command name parameters block =>
      apply around
      rw [act_define]
      exact .define name parameters block.instructions
  | call procedure arguments ih =>
      apply around
      refine (Keeps.evaluateEach _ arguments).bind fun entries => ?_
      exact .inScope _ (.performEach ih)
  | unfinished i h =>
      apply around
      rw [act_of_not_performable h]
      exact .throw .unfinished

namespace World

theorem attempt_of_ok {settings : Settings} {statement : Instruction} {world : World} {run : Run}
    (h : statement.perform settings { world } = .ok () run) :
    world.attempt settings statement = (run.world, none) := by
  simp only [attempt, h]

/-- The checkpoint does what a copy of the whole world would do. -/
theorem attempt_of_error {settings : Settings} {statement : Instruction} {world : World}
    {fault : Fault} {run : Run} (h : statement.perform settings { world } = .error fault run) :
    world.attempt settings statement = (world, some fault) := by
  have kept := statement.keeps_perform settings { world }
  rw [h] at kept
  have held : world.log.toList <+: (run.cleared.getD run.world.log).toList := kept.held
  have log : (run.cleared.getD run.world.log).take world.log.size = world.log := by
    apply Array.ext'
    simpa using (List.prefix_iff_eq_take.mp held).symm
  have bindings : run.world.bindings = world.bindings := kept.bindings
  simp only [attempt, h, checkpoint, log, bindings]

end World

end Logo
