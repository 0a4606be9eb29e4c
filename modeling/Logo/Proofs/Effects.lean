import Logo.Proofs.Reaching

/-!
What a session has done, as one list of effects. Statements that fail leave nothing behind, so
the world after any submissions is the one before them, changed by the effects of the statements
that were performed to their end.
-/
namespace Logo

namespace Effect

/-- Whether the effect wipes the log. -/
def clears : Effect → Bool
  | clear => true
  | _ => false

/-- Whether the effect lifts the pen. -/
def lifts : Effect → Bool
  | pen down => !down
  | _ => false

end Effect

/-- The effects of performing the instruction where `bindings` are in scope. -/
def Instruction.effects (bindings : Bindings) (i : Instruction) : List Effect :=
  match i.expand bindings with
  | .ok effects => effects
  | .error _ => []

theorem Instruction.execute_effects {settings : Settings} {i : Instruction} {run later : Run}
    (h : i.perform settings run = .ok () later) :
    run.world.execute settings (i.effects run.world.bindings) = .ok later.world := by
  obtain ⟨parts, expanded, executed⟩ := i.executes_perform settings run later h
  rwa [effects, expanded]

namespace Session

/-- The effects of the statements that are performed to their end while the words are read. -/
def effectsIn (text : String) (session : Session) (tokens : List Token) : List Effect :=
  (session.performedIn text tokens).flatMap (·.effects session.world.bindings)

/-- The effects of the statements that are performed to their end in submissions of the texts. -/
def effectsBy (session : Session) (texts : List String) : List Effect :=
  (session.performedBy texts).flatMap (·.effects session.world.bindings)

theorem settings_read (text : String) (session : Session) (token : Token) :
    (session.read text token).settings = session.settings := by
  obtain ⟨parser, fed⟩ | ⟨parser, statement, run, fed, ran⟩ | ⟨error, fails⟩ :=
    read_cases text session token
  · rw [read_opened text fed]
  · rw [read_completed text fed ran]
    rfl
  · rw [read_fails fails]
    rfl

theorem execute_read (text : String) (session : Session) (token : Token) :
    session.world.execute session.settings
        ((session.performs? token).toList.flatMap (·.effects session.world.bindings)) =
      .ok (session.read text token).world := by
  obtain ⟨parser, fed⟩ | ⟨parser, statement, run, fed, ran⟩ | ⟨error, fails⟩ :=
    read_cases text session token
  · rw [read_opened text fed, performs?_of_opened fed]
    rfl
  · rw [read_completed text fed ran, performs?_of_completed fed ran, Option.toList_some,
      List.flatMap_singleton]
    exact Instruction.execute_effects ran
  · rw [read_fails fails, performs?_of_fails fails]
    rfl

theorem execute_readAll (text : String) (session : Session) (tokens : List Token) :
    session.world.execute session.settings (session.effectsIn text tokens) =
      .ok (session.readAll text tokens).world := by
  induction tokens generalizing session with
  | nil => rfl
  | cons token tokens ih =>
      have first := session.execute_read text token
      simp only [effectsIn, performedIn, readAll, List.flatMap_append]
      split
      · rw [List.flatMap_nil, List.append_nil]
        exact first
      · have rest := ih (session.read text token)
        -- the parameters in scope are the same for all statements
        rw [effectsIn, World.bindings_of_execute first, settings_read] at rest
        exact World.execute_append first rest

/-- All that submissions do to the world. -/
theorem execute_effectsBy (session : Session) (texts : List String) :
    session.world.execute session.settings (session.effectsBy texts) =
      .ok (session.submitAll texts).world := by
  induction texts generalizing session with
  | nil => rfl
  | cons text texts ih =>
      have first := execute_readAll text { session with error := none } (tokenize text)
      have rest := ih (session.submit text)
      have scope : (session.submit text).world.bindings = session.world.bindings :=
        World.bindings_of_execute first
      rw [effectsBy, scope, settings_submit] at rest
      rw [effectsBy, performedBy, List.flatMap_append]
      exact World.execute_append first rest

end Session

end Logo
