import Logo.Proofs.Cutting
import Logo.Proofs.Reaching

/-!
Reports of failures tell where they come from. A report with a position is about the word that
stands there, which the parser has refused; one without a position is about the statement that
the last word has completed, and names the check at which performing it stopped.
-/
namespace Logo

/-- All that the parser can have against a word. -/
def Token.refusals (token : Token) (maxDepth : Nat) : List Fault :=
  [.unknownFunction token.text, .notAnInteger, .incompleteBlock,
    .protectedName (Text.lowercase token.text), .expectedBlock token.text, .tooDeep maxDepth]

theorem Parser.mem_refusals {registry : Registry} {maxDepth : Nat} {token : Token} {fault : Fault}
    {parser : Parser} (h : parser.feed registry maxDepth token = .error fault) :
    fault ∈ token.refusals maxDepth := by
  rcases fault_of_feed h with rfl | rfl | rfl | rfl | rfl | rfl <;> simp [Token.refusals]

namespace Session

/-- The report is about the word, as the session finds it: either the parser refuses it, or it
completes a statement that cannot be performed, at the first check that does not hold. -/
def Explains (session : Session) (token : Token) (error : Diagnostic) : Prop :=
  match error.position with
  | some position =>
    position = token.position ∧ session.feed token = .error error.fault ∧
      error.fault ∈ token.refusals session.settings.maxDepth
  | none =>
    ∃ parser statement run passed check rest,
      session.feed token = .ok (parser, some statement) ∧
      statement.perform session.settings { world := session.world } = .error error.fault run ∧
      statement.checks 1 session.world.bindings = passed ++ check :: rest ∧
      Check.firstFault session.settings session.world.registry 0 passed = none ∧
      check.Stops session.settings (Check.total passed) error.fault

theorem Sound.explains {bindings : Bindings} {done : List Instruction} {session : Session}
    (h : Sound bindings done session) {text : String} {token : Token} {error : Diagnostic}
    (fails : Fails text session token error) : session.Explains token error := by
  cases fails with
  | refused fed => exact ⟨rfl, fed, Parser.mem_refusals fed⟩
  | failed fed ran =>
      obtain ⟨passed, check, rest, split, hold, stops⟩ :=
        (h.finished_statement fed).1.stops_of_perform (Nat.zero_le _)
          (fun name definable => (h.isProtected_eq name).trans definable.2) ran
      rw [Nat.zero_add] at stops
      exact ⟨_, _, _, passed, check, rest, fed, ran, split, hold, stops⟩

/-- When any texts have been submitted and a further one fails, the report holds that text, and
the words before the one it is about have been read without a failure. Limits and parameters are
those with which the session began. -/
theorem explains_submit (settings : Settings) (turtle : Turtle) (pen : Pen) (bindings : Bindings)
    (texts : List String) (text : String) (error : Diagnostic) :
    let session := (initial settings turtle pen bindings).submitAll texts
    (session.submit text).error = some error →
    error.line = some text ∧
    ∃ before token after done last,
      tokenize text = before ++ token :: after ∧ token.StandsIn text ∧
      Reading { session with error := none } before done last ∧
      last.settings = settings ∧ last.world.bindings = bindings ∧
      session.submit text = last.fail error ∧ last.Explains token error := by
  intro session failed
  obtain ⟨before, token, after, done, last, split, reading, fails, result⟩ :=
    fails_of_submit failed
  have sound := (sound_submitAll settings turtle pen bindings texts).reading text reading
  refine ⟨submit_line_eq failed, before, token, after, done, last, split,
    standsIn_of_tokenize (by simp [split]), reading, ?_, sound.scope, result,
    sound.explains fails⟩
  rw [reading.settings_eq]
  exact settings_submitAll (initial settings turtle pen bindings) texts

/-- A word that names nothing, and a parameter that the caller has in scope and the procedure it
calls has not. -/
theorem explains_submit_in_call :
    let session := (initial {} {} {} {}).submitAll
      ["to inner fd :size end", "to outer :size inner end"]
    let refused : Diagnostic := ⟨.unknownFunction "é", some ⟨3, 4⟩, some "pu é 1"⟩
    let failed : Diagnostic := { fault := .unknownParameter "size", line := some "pu outer 10" }
    (session.submit "pu é 1").error = some refused ∧
      (∃ token ∈ tokenize "pu é 1", token.text = "é" ∧ token.position = ⟨3, 4⟩) ∧
      (session.submit "pu outer 10").error = some failed ∧
      ∃ (last : Session) (token : Token),
        last.world.bindings.get? "size" = none ∧ last.Explains token failed := by
  intro session refused failed
  have first : (session.submit "pu é 1").error = some refused := by decide +kernel
  have second : (session.submit "pu outer 10").error = some failed := by decide +kernel
  refine ⟨first, ?_, second, ?_⟩
  · obtain ⟨_, before, token, after, _, _, split, _, _, _, _, _, position, _, refusal⟩ :=
      explains_submit {} {} {} {} _ _ _ first
    refine ⟨token, by simp [split], ?_, position.symm⟩
    simpa [Token.refusals, refused, eq_comm] using refusal
  · obtain ⟨_, before, token, after, _, last, _, _, _, _, scope, _, explains⟩ :=
      explains_submit {} {} {} {} _ _ _ second
    exact ⟨last, token, by rw [scope]; rfl, explains⟩

end Session

end Logo
