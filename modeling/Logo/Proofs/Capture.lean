import Logo.Proofs.Exchange
import Logo.Proofs.Reaching

/-!
Procedures keep the meaning they had when they were read. Defining other names, also those of
procedures that are called inside, does not change what a call does: the name stands for the
same procedure as before, and this one holds all that it needs.
-/
namespace Logo

/-- The effect is that a procedure is defined, and not by this name. -/
def Effect.DefinesOther (name : String) (effect : Effect) : Prop :=
  ∃ d ∈ effect.definition?, Text.lowercase d.name ≠ Text.lowercase name

instance (name : String) (effect : Effect) : Decidable (effect.DefinesOther name) :=
  inferInstanceAs (Decidable (∃ d ∈ effect.definition?, _))

/-- All that the instruction does is to define procedures, none of them by this name. -/
def Instruction.DefinesOthers (name : String) (bindings : Bindings) (i : Instruction) : Prop :=
  ∀ effects ∈ (i.expand bindings).toOption, ∀ effect ∈ effects, effect.DefinesOther name

instance (name : String) (bindings : Bindings) (i : Instruction) :
    Decidable (i.DefinesOthers name bindings) :=
  inferInstanceAs (Decidable (∀ effects ∈ (i.expand bindings).toOption, _))

namespace World

/-- The worlds differ in what names stand for, but not in what this one does. -/
structure Redefined (name : String) (world later : World) : Prop where
  rest : later = { world with registry := later.registry }
  lookup : later.registry.lookup name = world.registry.lookup name

variable {name : String}

theorem Redefined.refl (world : World) : Redefined name world world := ⟨rfl, rfl⟩

theorem Redefined.trans {a b c : World} (h : Redefined name a b) (h' : Redefined name b c) :
    Redefined name a c := by
  refine ⟨?_, h'.lookup.trans h.lookup⟩
  rw [h'.rest, h.rest]

theorem redefined_apply {settings : Settings} {world later : World} {effect : Effect}
    (h : world.apply settings effect = .ok later) (other : effect.DefinesOther name) :
    Redefined name world later := by
  obtain ⟨d, defines, apart⟩ := other
  cases effect with
  | define other parameters body =>
      cases defines
      obtain ⟨registry, defined, same⟩ := ok_of_bind h
      cases same
      refine ⟨rfl, ?_⟩
      rw [Registry.lookup_define defined, if_neg (Ne.symm apart)]
  | move distance | turn angle | wait seconds | pen down | clear => cases defines

theorem redefined_execute {settings : Settings} {effects : List Effect} {world later : World}
    (h : world.execute settings effects = .ok later)
    (others : ∀ effect ∈ effects, effect.DefinesOther name) : Redefined name world later := by
  induction effects generalizing world with
  | nil =>
      cases h
      exact .refl _
  | cons effect effects ih =>
      obtain ⟨between, applied, rest⟩ := execute_cons h
      obtain ⟨here, others⟩ := List.forall_mem_cons.mp others
      exact (redefined_apply applied here).trans (ih rest others)

/-- A statement fares alike in worlds that differ in what names stand for. -/
theorem attempt_withRegistry (settings : Settings) (i : Instruction) (world : World)
    (other : Registry)
    (same : ∀ name, other.isProtected name = world.registry.isProtected name) :
    ∃ registry, attempt settings i { world with registry := other } =
      ({ (world.attempt settings i).1 with registry }, (world.attempt settings i).2) := by
  obtain ⟨_, registry, _, result⟩ := i.uniform_perform settings { world } other same
  cases ended : i.perform settings { world } with
  | ok _ run =>
      rw [ended] at result
      rw [attempt_of_ok ended]
      exact ⟨registry, attempt_of_ok result⟩
  | error fault run =>
      rw [ended] at result
      rw [attempt_of_error ended]
      exact ⟨other, attempt_of_error result⟩

end World

namespace Session

variable {name : String}

theorem redefined_read (session : Session) (text : String) {token : Token}
    (others : ∀ i ∈ session.performs? token, i.DefinesOthers name session.world.bindings) :
    session.world.Redefined name (session.read text token).world := by
  obtain ⟨parser, fed⟩ | ⟨parser, statement, run, fed, ran⟩ | ⟨error, fails⟩ :=
    read_cases text session token
  · rw [read_opened text fed]
    exact .refl _
  · rw [read_completed text fed ran]
    obtain ⟨effects, expanded, executed⟩ := statement.executes_perform session.settings _ run ran
    have found : effects ∈ (statement.expand session.world.bindings).toOption := by
      rw [expanded]
      rfl
    exact World.redefined_execute executed
      (others statement (performs?_of_completed fed ran) effects found)
  · rw [read_fails fails]
    exact .refl _

theorem redefined_readAll (session : Session) (text : String) {tokens : List Token}
    (others : ∀ i ∈ session.performedIn text tokens, i.DefinesOthers name session.world.bindings) :
    session.world.Redefined name (session.readAll text tokens).world := by
  induction tokens generalizing session with
  | nil => exact .refl _
  | cons token tokens ih =>
      simp only [performedIn, List.forall_mem_append, Option.mem_toList] at others
      obtain ⟨here, later⟩ := others
      have first := session.redefined_read text here
      simp only [readAll]
      split
      · exact first
      · next going =>
          rw [if_neg going] at later
          have scope : (session.read text token).world.bindings = session.world.bindings := by
            rw [first.rest]
          exact first.trans (ih _ (scope ▸ later))

/-- A whole statement is performed at its last word. -/
theorem readAll_of_feeds (session : Session) (text : String) {next : Parser} {tokens : List Token}
    {statement : Instruction} (idle : session.error = none)
    (h : Parser.Feeds session.world.registry session.settings.maxDepth (session.parser, none) tokens
      (next, some statement)) :
    session.readAll text tokens =
      performStatement text { session with parser := next } statement := by
  induction tokens generalizing session with
  | nil => cases h
  | cons token tokens ih =>
      cases h with
      | @cons _ _ result _ _ fed rest =>
          obtain ⟨parser, _ | found⟩ := result
          · have opened : session.read text token = { session with parser } :=
              read_opened text fed
            rw [readAll_cons (by rw [opened]; exact idle), opened]
            exact ih { session with parser } idle rest
          · cases rest
            simp only [readAll, read, fed, ite_self]

theorem world_performStatement (session : Session) (text : String) (statement : Instruction) :
    (session.performStatement text statement).world =
      (session.world.attempt session.settings statement).1 := by
  simp only [performStatement]
  split
  · next h => rw [h]
  · next h =>
      rw [h]
      rfl

theorem error_performStatement (session : Session) (text : String) (statement : Instruction)
    (idle : session.error = none) :
    (session.performStatement text statement).error =
      (session.world.attempt session.settings statement).2.map
        fun fault => { fault, line := some text } := by
  simp only [performStatement]
  split
  · next h =>
      rw [h]
      exact idle
  · next h =>
      rw [h]
      rfl

/-- A text that is one statement, read from idle, performs it and reports its failure. -/
theorem submit_of_statement {session : Session} {text : String} {statement : Instruction}
    (idle : session.parser = {})
    (h : Statement session.world.registry session.settings.maxDepth none 1 (tokenize text)
      statement) :
    (session.submit text).world = (session.world.attempt session.settings statement).1 ∧
    (session.submit text).error =
      (session.world.attempt session.settings statement).2.map
        fun fault => { fault, line := some text } := by
  have feeds := Parser.feeds_of_statement h
  rw [← idle] at feeds
  rw [submit, readAll_of_feeds { session with error := none } text rfl feeds]
  exact ⟨world_performStatement _ text statement, error_performStatement _ text statement rfl⟩

/-- From idle, a call fares alike in worlds where the name stands for the same procedure. -/
theorem submit_call (session later : Session) {call : String} {token : Token} {words : List Token}
    {procedure : Procedure} {values : List Value}
    (idle : session.parser = {}) (idle' : later.parser = {})
    (settings : later.settings = session.settings)
    (redefined : session.world.Redefined token.text later.world)
    (same : ∀ name, later.world.registry.isProtected name =
      session.world.registry.isProtected name)
    (split : tokenize call = token :: words)
    (named : session.world.registry.lookup token.text = some (.procedure procedure))
    (arguments : words.map (fun word => Value.resolve word.text) = values.map .ok)
    (count : words.length = procedure.parameters.length) :
    (∃ registry, (later.submit call).world = { (session.submit call).world with registry }) ∧
      (later.submit call).error = (session.submit call).error := by
  have statement {registry : Registry} {maxDepth : Nat}
      (h : registry.lookup token.text = some (.procedure procedure)) :
      Statement registry maxDepth none 1 (tokenize call)
        ⟨.procedure procedure, .call values⟩ := by
    rw [split]
    exact .call h arguments count
  obtain ⟨world, error⟩ := submit_of_statement idle (statement named)
  obtain ⟨world', error'⟩ :=
    submit_of_statement idle' (statement (redefined.lookup.trans named))
  obtain ⟨registry, attempted⟩ := World.attempt_withRegistry session.settings
    ⟨.procedure procedure, .call values⟩ session.world later.world.registry same
  rw [← redefined.rest, ← settings] at attempted
  rw [attempted, settings] at world' error'
  exact ⟨⟨registry, by rw [world', world]⟩, by rw [error', error]⟩

/-- Performing has the same end whatever names stand for, as long as the same are protected:
the definitions it executes are the same, and nothing else comes to differ. In sessions only
the names of primitives are protected. So a call does the same before and after a text that
defines any other names, also of procedures that are called inside. The call is a statement of
its own: if a statement is open, it is put aside. -/
theorem captured_procedures (settings : Settings) (turtle : Turtle) (pen : Pen)
    (bindings : Bindings) (texts : List String) :
    (∀ (i : Instruction) (run : Run) (other : Registry),
      (∀ name, other.isProtected name = run.world.registry.isProtected name) →
      i.executed settings (run.withRegistry other) = i.executed settings run ∧
      ∃ registry, other.defineAll (i.executed settings run) = .ok registry ∧
        i.perform settings (run.withRegistry other) =
          Run.exchange registry (i.perform settings run)) ∧
    let session := (initial settings turtle pen bindings).submitAll texts
    (∀ name, session.world.registry.isProtected name = Registry.primitives.isProtected name) ∧
    ∀ text call token words procedure (values : List Value),
      (∀ i ∈ performedIn text { session with error := none } (tokenize text),
        i.DefinesOthers token.text bindings) →
      tokenize call = token :: words →
      session.world.registry.lookup token.text = some (.procedure procedure) →
      words.map (fun word => Value.resolve word.text) = values.map .ok →
      words.length = procedure.parameters.length →
      let direct := { session with parser := {} }.submit call
      let after := { session.submit text with parser := {} }.submit call
      (∃ registry, after.world = { direct.world with registry }) ∧
        after.error = direct.error := by
  refine ⟨Instruction.uniform_perform settings, ?_⟩
  intro session
  have sound := sound_submitAll settings turtle pen bindings texts
  refine ⟨sound.isProtected_eq, ?_⟩
  intro text call token words procedure values others split named arguments count direct after
  have later := sound.withoutError.readAll text (tokenize text)
  have redefined : session.world.Redefined token.text (session.submit text).world :=
    redefined_readAll { session with error := none } text (sound.scope.symm ▸ others)
  exact submit_call { session with parser := {} } { session.submit text with parser := {} } rfl rfl
    (session.settings_submit text) redefined
    (fun name => (later.isProtected_eq name).trans (sound.isProtected_eq name).symm)
    split named arguments count

/-- The procedure that is called inside gets a parameter and another body. It redefines itself
when it is performed, too. -/
theorem captured_procedures_redefined :
    let texts := ["to inner fd 9 to inner end end to outer :n inner rt :n inner end"]
    let session := (initial {} {} {} {}).submitAll texts
    let later := session.submit "to inner :x fd :x end"
    let direct := { session with parser := {} }.submit "OUTER 90"
    let after := { later with parser := {} }.submit "OUTER 90"
    (session.world.registry.lookup "inner").map (·.parameters) = some [] ∧
      (later.world.registry.lookup "inner").map (·.parameters) = some ["x"] ∧
      direct.world.log.size = 2 ∧ (∃ registry, after.world = { direct.world with registry }) ∧
      after.error = direct.error := by
  intro texts session later direct after
  refine ⟨by decide +kernel, by decide +kernel, by decide +kernel, ?_⟩
  have calls := (captured_procedures {} {} {} {} texts).2.2 "to inner :x fd :x end" "OUTER 90"
    ⟨"OUTER", 0, 4⟩ [⟨"90", 6, 7⟩]
  -- from here on the session is a variable, lest it is evaluated in comparing terms
  rw [show (initial {} {} {} {}).submitAll texts = session from rfl] at calls
  have others : ∀ i ∈ performedIn "to inner :x fd :x end" { session with error := none }
      (tokenize "to inner :x fd :x end"), i.DefinesOthers "OUTER" {} := by decide +kernel
  have known : ∃ command ∈ session.world.registry.lookup "OUTER",
      command.isProtected = false ∧ 1 = command.parameters.length := by decide +kernel
  clear_value session
  obtain ⟨command, named, free, count⟩ := known
  cases command with
  | primitive p => cases free
  | procedure p => exact calls p [.constant 90] others (by decide +kernel) named rfl count

end Session

end Logo
