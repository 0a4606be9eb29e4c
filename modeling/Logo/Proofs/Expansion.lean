import Logo.Proofs.Performing

/-!
What a statement does, written out as a flat list of effects: loops are unrolled, calls are
replaced by what their bodies do, and every value is evaluated. A statement that is performed
to its end has left the world exactly as its expansion does.
-/
namespace Logo

/-- One change of the world, with nothing left to evaluate. -/
inductive Effect where
  | move (distance : Int64)
  | turn (angle : Int64)
  | wait (seconds : Int64)
  | pen (down : Bool)
  | clear
  | define (name : String) (parameters : List String) (body : List Instruction)

namespace World

/-- Only a definition can fail, where its name is protected. -/
def apply (settings : Settings) (world : World) : Effect → Except Fault World
  | .move distance => .ok (world.move distance)
  | .turn angle => .ok (world.turn settings.recordRotations angle)
  | .wait seconds => .ok (world.wait seconds)
  | .pen down => .ok (world.setPen down)
  | .clear => .ok world.clear
  | .define name parameters body => do
    let registry ← world.registry.define name parameters body
    return { world with registry }

def execute (settings : Settings) (effects : List Effect) (world : World) :
    Except Fault World :=
  effects.foldlM (apply settings) world

end World

namespace Primitive

/-- The effect of a primitive without arguments. -/
def effect : Primitive → Except Fault Effect
  | penUp => .ok (.pen false)
  | penDown => .ok (.pen true)
  | clearScreen => .ok .clear
  | _ => .error .unfinished

/-- The effect of a primitive with one argument. -/
def effectWith (n : Int64) : Primitive → Except Fault Effect
  | forward => .ok (.move n)
  | backward => .ok (.move (negate n))
  | right => .ok (.turn n)
  | left => .ok (.turn (negate n))
  | wait => .ok (.wait n)
  | _ => .error .unfinished

end Primitive

/-- The parameters alone, bound to the arguments as they evaluate in `bindings`. -/
def scope (parameters : List String) (arguments : List Value) (bindings : Bindings) :
    Except Fault Bindings := do
  let entries ← (parameters.zip arguments).mapM
    fun entry => (entry.2.get bindings).map (entry.1, ·)
  return .ofList entries

theorem lookup_values {entries : List (String × Value)} {values : List (String × Int64)}
    {bindings : Bindings}
    (h : entries.mapM (fun entry => (entry.2.get bindings).map (entry.1, ·)) = .ok values)
    (name : String) :
    Option.Rel (fun value n => value.get bindings = .ok n)
      (entries.reverse.lookup name) (values.reverse.lookup name) := by
  induction entries generalizing values with
  | nil =>
      cases h
      exact .none
  | cons entry entries ih =>
      obtain ⟨key, value⟩ := entry
      rw [List.mapM_cons] at h
      cases got : value.get bindings with
      | error fault =>
          simp only [got] at h
          cases h
      | ok n =>
          cases rest : entries.mapM fun entry => (entry.2.get bindings).map (entry.1, ·) with
          | error fault =>
              simp only [got, rest] at h
              cases h
          | ok values =>
              simp only [got, rest] at h
              cases h
              have last : Option.Rel (fun value n => value.get bindings = .ok n)
                  (List.lookup name [(key, value)]) (List.lookup name [(key, n)]) := by
                simp only [List.lookup_cons, List.lookup_nil]
                cases name == key with
                | false => exact .none
                | true => exact .some got
              rw [List.reverse_cons, List.reverse_cons, List.lookup_append, List.lookup_append]
              have others := ih rest
              generalize entries.reverse.lookup name = value at others ⊢
              generalize values.reverse.lookup name = n at others ⊢
              cases others with
              | none => exact last
              | some same => exact .some same

/-- A parameter has the value of its argument, and of several parameters with one name the
last one counts. Nothing else is in scope. -/
theorem get?_scope {parameters : List String} {arguments : List Value} {bindings inner : Bindings}
    (h : scope parameters arguments bindings = .ok inner) (name : String) :
    Option.Rel (fun value n => value.get bindings = .ok n)
      ((parameters.zip arguments).reverse.lookup name) (inner.get? name) := by
  simp only [scope] at h
  cases bound : (parameters.zip arguments).mapM
      fun entry => (entry.2.get bindings).map (entry.1, ·) with
  | error fault =>
      rw [bound] at h
      cases h
  | ok values =>
      rw [bound] at h
      cases h
      rw [Dictionary.get?_ofList]
      exact lookup_values bound name

mutual

/-- The effects of an instruction where `bindings` are in scope. What stands in a loop that
makes no pass need not have any. -/
def Instruction.expand : Instruction → Bindings → Except Fault (List Effect)
  | ⟨.primitive p, .single (some value)⟩, bindings => do
    return [← p.effectWith (← value.get bindings)]
  | ⟨.primitive p, .ready⟩, _ => do return [← p.effect]
  | ⟨_, .loop (some times) (some ⟨body, _⟩)⟩, bindings => do
    let n ← times.get bindings
    if n.toInt ≤ 0 then return []
    let pass ← expandEach body bindings
    return (List.replicate n.toInt.toNat pass).flatten
  | ⟨_, .define (some name) parameters (some block)⟩, _ =>
    .ok [.define name parameters block.instructions]
  | ⟨.procedure ⟨_, _, parameters, body⟩, .call arguments⟩, bindings => do
    expandEach body (← scope parameters arguments bindings)
  | _, _ => .error .unfinished
termination_by structural instruction => instruction

def expandEach : List Instruction → Bindings → Except Fault (List Effect)
  | [], _ => .ok []
  | instruction :: rest, bindings => do
    return (← instruction.expand bindings) ++ (← expandEach rest bindings)
termination_by structural instructions => instructions

end

namespace World

variable {settings : Settings}

/-- The parameters in scope have no part in effects, and are left as they are. -/
theorem apply_withBindings (bindings : Bindings) (world : World) (effect : Effect) :
    apply settings { world with bindings } effect =
      (apply settings world effect).map fun later => { later with bindings } := by
  cases effect with
  | move distance =>
      simp only [apply, move]
      split <;> rfl
  | turn angle =>
      simp only [apply, turn]
      split <;> rfl
  | wait seconds | pen down | clear => rfl
  | define name parameters body =>
      simp only [apply]
      cases world.registry.define name parameters body <;> rfl

theorem execute_withBindings (settings : Settings) (bindings : Bindings) (effects : List Effect)
    (world : World) :
    execute settings effects { world with bindings } =
      (execute settings effects world).map fun later => { later with bindings } := by
  induction effects generalizing world with
  | nil => rfl
  | cons effect effects ih =>
      simp only [execute, List.foldlM_cons, apply_withBindings]
      cases apply settings world effect with
      | error fault => rfl
      | ok later => exact ih later

theorem bindings_of_execute {effects : List Effect} {world later : World}
    (h : world.execute settings effects = .ok later) : later.bindings = world.bindings := by
  have same := execute_withBindings settings world.bindings effects world
  rw [h] at same
  have kept := congrArg bindings (Except.ok.inj same : later = { later with
    bindings := world.bindings })
  exact kept

theorem execute_single {effect : Effect} {world later : World}
    (h : world.apply settings effect = .ok later) :
    world.execute settings [effect] = .ok later := by
  rw [execute, List.foldlM_cons, h]
  rfl

theorem execute_cons {effect : Effect} {effects : List Effect} {world later : World}
    (h : world.execute settings (effect :: effects) = .ok later) :
    ∃ between, world.apply settings effect = .ok between ∧
      between.execute settings effects = .ok later := by
  rw [execute, List.foldlM_cons] at h
  exact ok_of_bind h

theorem execute_append {first second : List Effect} {world between later : World}
    (h : world.execute settings first = .ok between)
    (h' : between.execute settings second = .ok later) :
    world.execute settings (first ++ second) = .ok later := by
  rw [execute, List.foldlM_append]
  change (world.execute settings first >>= execute settings second) = .ok later
  rw [h]
  exact h'

end World

/-- Whenever the action comes to its end, the expansion is defined and does what it did. -/
def Executes (settings : Settings) (x : Action)
    (expansion : Bindings → Except Fault (List Effect)) : Prop :=
  ∀ run later, x run = .ok () later →
    ∃ effects, expansion run.world.bindings = .ok effects ∧
      run.world.execute settings effects = .ok later.world

namespace Executes

variable {settings : Settings} {x y : Action} {e e' : Bindings → Except Fault (List Effect)}

theorem andThen (first : Executes settings x e) (second : Executes settings y e') :
    Executes settings (x >>= fun _ => y)
      (fun bindings => do return (← e bindings) ++ (← e' bindings)) := by
  intro run later h
  obtain ⟨_, between, h, h'⟩ := Action.bind_eq_ok h
  obtain ⟨effects, expanded, executed⟩ := first run between h
  obtain ⟨effects', expanded', executed'⟩ := second between later h'
  rw [World.bindings_of_execute executed] at expanded'
  refine ⟨effects ++ effects', ?_, World.execute_append executed executed'⟩
  simp only [expanded, expanded']
  rfl

theorem charge (limit : Nat) (h : Executes settings x e) :
    Executes settings (Action.charge limit >>= fun _ => x) e := by
  intro run later done
  obtain ⟨_, between, charged, done⟩ := Action.bind_eq_ok done
  rw [Action.charge_apply] at charged
  split at charged
  · cases charged
  · cases charged
    exact h { run with steps := run.steps + 1 } later done

theorem evaluate {f : Int64 → Action} {e : Int64 → Bindings → Except Fault (List Effect)}
    (value : Value) (h : ∀ n, Executes settings (f n) (e n)) :
    Executes settings (Action.evaluate value >>= f)
      (fun bindings => do e (← value.get bindings) bindings) := by
  intro run later done
  obtain ⟨n, between, evaluated, done⟩ := Action.bind_eq_ok done
  rw [Action.evaluate_apply] at evaluated
  split at evaluated
  · next got =>
      cases evaluated
      obtain ⟨effects, expanded, executed⟩ := h n run later done
      refine ⟨effects, ?_, executed⟩
      simp only [got]
      exact expanded
  · cases evaluated

theorem evaluateEach {f : List (String × Int64) → Action}
    (parameters : List String) (arguments : List Value)
    (h : ∀ entries, Executes settings (f entries) (fun _ => e (.ofList entries))) :
    Executes settings (Action.evaluateEach parameters arguments >>= f)
      (fun bindings => do e (← scope parameters arguments bindings)) := by
  intro run later done
  obtain ⟨entries, between, evaluated, done⟩ := Action.bind_eq_ok done
  rw [Action.evaluateEach_apply] at evaluated
  split at evaluated
  · next got =>
      cases evaluated
      obtain ⟨effects, expanded, executed⟩ := h entries run later done
      refine ⟨effects, ?_, executed⟩
      simp only [scope, got]
      exact expanded
  · cases evaluated

theorem iterate (h : Executes settings x e) (n : Nat) :
    Executes settings (x.iterate n) (fun bindings =>
      if n = 0 then .ok [] else (e bindings).map fun pass => (List.replicate n pass).flatten) := by
  induction n with
  | zero =>
      intro run later done
      cases done
      exact ⟨[], rfl, rfl⟩
  | succ n ih =>
      intro run later done
      obtain ⟨_, between, first, rest⟩ := Action.bind_eq_ok done
      obtain ⟨pass, expanded, executed⟩ := h run between first
      obtain ⟨effects, expanded', executed'⟩ := ih between later rest
      simp only [World.bindings_of_execute executed, expanded] at expanded'
      have passes : effects = (List.replicate n pass).flatten := by
        split at expanded'
        · next none =>
            rw [none]
            exact (Except.ok.inj expanded').symm
        · exact (Except.ok.inj expanded').symm
      refine ⟨pass ++ effects, ?_, World.execute_append executed executed'⟩
      simp only [Nat.succ_ne_zero, if_false, expanded, passes]
      rfl

theorem inScope (bindings : Bindings) (h : Executes settings x e) :
    Executes settings (Action.inScope bindings x) (fun _ => e bindings) := by
  intro run later done
  rw [Action.inScope_apply] at done
  split at done
  · next between inner =>
      cases done
      obtain ⟨effects, expanded, executed⟩ := h _ between inner
      refine ⟨effects, expanded, ?_⟩
      have back := World.execute_withBindings settings run.world.bindings effects
        { run.world with bindings }
      rw [executed] at back
      exact back
  · cases done

theorem changeWith {f : Int64 → World → World} {effect : Int64 → Effect}
    (h : ∀ (world : World) (n : Int64), world.apply settings (effect n) = .ok (f n world))
    (value : Value) :
    Executes settings (do
        let n ← Action.evaluate value
        Action.change (f n))
      (fun bindings => do return [effect (← value.get bindings)]) := by
  refine evaluate value fun n => ?_
  intro run later done
  cases done
  exact ⟨[effect n], rfl, World.execute_single (h run.world n)⟩

theorem perform {i : Instruction} (h : Executes settings (i.act settings) e) :
    Executes settings (i.perform settings) e := by
  intro run later done
  rw [Instruction.perform_apply] at done
  split at done
  · cases done
  · split at done
    · cases done
    · split at done
      · next between acted =>
          cases done
          exact h { run with steps := run.steps + 1, depth := run.depth + 1 } between acted
      · cases done

theorem performEach {body : List Instruction}
    (h : ∀ i ∈ body, Executes settings (i.perform settings) i.expand) :
    Executes settings (Logo.performEach settings body) (expandEach body) := by
  induction body with
  | nil =>
      intro run later done
      cases done
      exact ⟨[], rfl, rfl⟩
  | cons i rest ih =>
      have first : Executes settings (i.perform settings) i.expand := h i List.mem_cons_self
      exact first.andThen (ih fun j later => h j (List.mem_cons_of_mem _ later))

end Executes

namespace Primitive

variable (settings : Settings) (p : Primitive)

theorem executes_perform : Executes settings p.perform (fun _ => do return [← p.effect]) := by
  intro run later done
  cases p <;> cases done <;> exact ⟨_, rfl, rfl⟩

theorem executes_performWith (value : Value) :
    Executes settings (p.performWith settings value)
      (fun bindings => do return [← p.effectWith (← value.get bindings)]) := by
  -- moving backward and turning left negate the value before it is evaluated
  have negated (effect : Int64 → Effect) :
      (fun bindings => do return [effect (← value.negated.get bindings)]) =
        fun bindings => do return [effect (negate (← value.get bindings))] := by
    funext bindings
    simp only [Value.get]
    cases value.get bindings <;> rfl
  cases p with
  | forward => exact Executes.changeWith (fun _ _ => rfl) value
  | backward => exact negated .move ▸ Executes.changeWith (fun _ _ => rfl) value.negated
  | right => exact Executes.changeWith (fun _ _ => rfl) value
  | left => exact negated .turn ▸ Executes.changeWith (fun _ _ => rfl) value.negated
  | wait => exact Executes.changeWith (fun _ _ => rfl) value
  | penUp | penDown | clearScreen | loop | define =>
      intro run later done
      cases done

end Primitive

namespace Instruction

theorem expand_loop (command : Command) (times : Value) (block : Block) (bindings : Bindings) :
    expand ⟨command, .loop (some times) (some block)⟩ bindings = (do
      let n ← times.get bindings
      if n.toInt.toNat = 0 then .ok []
      else (expandEach block.instructions bindings).map fun pass =>
        (List.replicate n.toInt.toNat pass).flatten) := by
  obtain ⟨body, closed⟩ := block
  have unfolded : expand ⟨command, .loop (some times) (some ⟨body, closed⟩)⟩ bindings = (do
      let n ← times.get bindings
      if n.toInt ≤ 0 then return []
      let pass ← expandEach body bindings
      return (List.replicate n.toInt.toNat pass).flatten) := by
    cases command <;> rfl
  rw [unfolded]
  congr 1
  funext n
  by_cases none : n.toInt ≤ 0
  · rw [if_pos none, if_pos (by omega)]
    rfl
  · rw [if_neg none, if_neg (by omega)]
    cases expandEach body bindings <;> rfl

theorem executes_perform (settings : Settings) (i : Instruction) :
    Executes settings (i.perform settings) i.expand := by
  induction i using induction_act with
  | single p value => exact .perform (p.executes_performWith settings value)
  | ready p => exact .perform (p.executes_perform settings)
  | loop command times block inner =>
      apply Executes.perform
      rw [act_loop]
      have pass := (Executes.performEach inner).charge settings.stepLimit
      have loops := Executes.evaluate times fun n => pass.iterate n.toInt.toNat
      rwa [← funext (expand_loop command times block)] at loops
  | define command name parameters block =>
      apply Executes.perform
      rw [act_define]
      intro run later done
      rw [Action.define_apply] at done
      split at done
      · next registry defined =>
          cases done
          refine ⟨[.define name parameters block.instructions], by cases command <;> rfl, ?_⟩
          apply World.execute_single
          simp only [World.apply, defined]
          rfl
      · cases done
  | call procedure arguments inner =>
      obtain ⟨serial, name, parameters, body⟩ := procedure
      apply Executes.perform
      exact Executes.evaluateEach parameters arguments
        fun entries => (Executes.performEach inner).inScope (.ofList entries)
  | unfinished i fails =>
      apply Executes.perform
      rw [act_of_not_performable fails]
      intro run later done
      cases done

/-- An instruction that is performed to its end has an expansion, and has changed the world as
the effects of the expansion do, one after the other. The parameters in scope are the same as
before. -/
theorem execute_expand_of_perform {settings : Settings} {i : Instruction} {run later : Run}
    (h : i.perform settings run = .ok () later) :
    ∃ effects, i.expand run.world.bindings = .ok effects ∧
      run.world.execute settings effects = .ok later.world ∧
      later.world.bindings = run.world.bindings := by
  obtain ⟨effects, expanded, executed⟩ := i.executes_perform settings run later h
  exact ⟨effects, expanded, executed, World.bindings_of_execute executed⟩

theorem execute_expand_of_perform_call :
    let bar : Instruction := ⟨.primitive .backward, .single (some (.parameter "n"))⟩
    let call : Instruction :=
      ⟨.procedure ⟨0, "bar", ["n", "n"], [bar]⟩, .call [.constant 5, .parameter "n"]⟩
    let twice : Instruction := ⟨.primitive .loop, .loop (some (.constant 2)) (some ⟨[call], true⟩)⟩
    let run : Run := { world := { bindings := .ofList [("n", 7)] } }
    twice.expand run.world.bindings = .ok [.move (-7), .move (-7)] ∧
      ∃ later, twice.perform {} run = .ok () later ∧
        run.world.execute {} [.move (-7), .move (-7)] = .ok later.world := by
  intro bar call twice run
  have expanded : twice.expand run.world.bindings = .ok [.move (-7), .move (-7)] := rfl
  obtain ⟨later, done⟩ : ∃ later, twice.perform {} run = .ok () later := ⟨_, rfl⟩
  obtain ⟨effects, same, executed, _⟩ := execute_expand_of_perform done
  rw [expanded] at same
  cases same
  exact ⟨expanded, later, done, executed⟩

end Instruction

end Logo
