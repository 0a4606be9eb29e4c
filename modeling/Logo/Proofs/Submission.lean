import Logo.Proofs.Rollback

/-!
How a submission proceeds: words are read until one of them fails, and each of them opens or
continues a statement, or completes it and has it performed. The main statement is about
submissions that fail. They leave the session as it was after the last statement that was
performed, with nothing open and the report of the failure.
-/
namespace Logo

namespace Session

theorem parser_of_idle {session : Session} (h : session.isPending = false) :
    session.parser = {} := by
  obtain ⟨world, settings, ⟨_ | ⟨top, below⟩⟩, statements, error⟩ := session
  · rfl
  · cases h

/-- What the parser makes of the next word. -/
def feed (session : Session) (token : Token) : Except Fault (Parser × Option Instruction) :=
  session.parser.feed session.world.registry session.settings.maxDepth token

/-- The session when a statement has been performed and its effects are in `world`. -/
def performed (session : Session) (parser : Parser) (world : World) : Session :=
  { session with parser, world, statements := session.statements + 1 }

/-- Words that are read without a failure. `done` holds the session as it is right after each
statement that they complete, `last` as it is after all of them. -/
inductive Reading : Session → List Token → List Session → Session → Prop
  | nil (session : Session) : Reading session [] [] session
  | opened {session last : Session} {token : Token} {parser : Parser} {tokens : List Token}
      {done : List Session}
      (fed : session.feed token = .ok (parser, none))
      (rest : Reading { session with parser } tokens done last) :
      Reading session (token :: tokens) done last
  | completed {session last : Session} {token : Token} {parser : Parser}
      {statement : Instruction} {run : Run} {tokens : List Token} {done : List Session}
      (fed : session.feed token = .ok (parser, some statement))
      (ran : statement.perform session.settings { world := session.world } = .ok () run)
      (rest : Reading (session.performed parser run.world) tokens done last) :
      Reading session (token :: tokens) (session.performed parser run.world :: done) last

/-- A word that the parser refuses, or that completes a statement which cannot be performed. -/
inductive Fails (text : String) (session : Session) (token : Token) : Diagnostic → Prop
  | refused {fault : Fault} (fed : session.feed token = .error fault) :
      Fails text session token { fault, position := token.position, line := text }
  | failed {fault : Fault} {parser : Parser} {statement : Instruction} {run : Run}
      (fed : session.feed token = .ok (parser, some statement))
      (ran : statement.perform session.settings { world := session.world } = .error fault run) :
      Fails text session token { fault, line := text }

theorem read_opened {session : Session} {token : Token} {parser : Parser} (text : String)
    (fed : session.feed token = .ok (parser, none)) :
    session.read text token = { session with parser } := by
  unfold feed at fed
  simp only [read, fed]

theorem read_completed {session : Session} {token : Token} {parser : Parser}
    {statement : Instruction} {run : Run} (text : String)
    (fed : session.feed token = .ok (parser, some statement))
    (ran : statement.perform session.settings { world := session.world } = .ok () run) :
    session.read text token = session.performed parser run.world := by
  unfold feed at fed
  simp only [read, fed, performStatement, World.attempt_of_ok ran, performed]

/-- Of the failing statement nothing is left, not even what was open before. -/
theorem read_fails {text : String} {session : Session} {token : Token} {error : Diagnostic}
    (h : Fails text session token error) : session.read text token = session.fail error := by
  cases h with
  | refused fed =>
      unfold feed at fed
      simp only [read, fed]
  | failed fed ran =>
      unfold feed at fed
      simp only [read, fed, performStatement, World.attempt_of_error ran, fail]

/-- There is nothing else that a word can do. -/
theorem read_cases (text : String) (session : Session) (token : Token) :
    (∃ parser, session.feed token = .ok (parser, none)) ∨
    (∃ parser statement run, session.feed token = .ok (parser, some statement) ∧
      statement.perform session.settings { world := session.world } = .ok () run) ∨
    ∃ error, Fails text session token error := by
  cases fed : session.feed token with
  | error fault => exact .inr (.inr ⟨_, .refused fed⟩)
  | ok result =>
      obtain ⟨parser, _ | statement⟩ := result
      · exact .inl ⟨parser, rfl⟩
      · cases ran : statement.perform session.settings { world := session.world } with
        | ok _ run => exact .inr (.inl ⟨parser, statement, run, rfl, ran⟩)
        | error fault run => exact .inr (.inr ⟨_, .failed fed ran⟩)

theorem readAll_cons {text : String} {session : Session} {token : Token}
    (h : (session.read text token).error = none) (tokens : List Token) :
    session.readAll text (token :: tokens) = (session.read text token).readAll text tokens := by
  rw [readAll]
  simp only [h, Option.isSome_none, Bool.false_eq_true, if_false]

namespace Reading

variable {session last : Session} {tokens : List Token} {done : List Session}

/-- Only completed statements change anything but the parser. -/
theorem last_eq (h : Reading session tokens done last) :
    last = { done.getLastD session with parser := last.parser } := by
  induction h with
  | nil session => rfl
  | @opened session last token parser tokens done fed rest ih =>
      cases done with
      | nil | cons first done => exact ih
  | completed fed ran rest ih =>
      rw [List.getLastD_cons]
      exact ih

theorem statements_eq (h : Reading session tokens done last) :
    last.statements = session.statements + done.length := by
  induction h with
  | nil session => rfl
  | opened fed rest ih => exact ih
  | completed fed ran rest ih =>
      rw [ih, List.length_cons]
      simp only [performed]
      omega

theorem error_eq (h : Reading session tokens done last) : last.error = session.error := by
  induction h with
  | nil session => rfl
  | opened fed rest ih => exact ih
  | completed fed ran rest ih => exact ih

theorem readAll_append (text : String) (h : Reading session tokens done last)
    (idle : session.error = none) (rest : List Token) :
    session.readAll text (tokens ++ rest) = last.readAll text rest := by
  induction h with
  | nil session => rfl
  | opened fed more ih =>
      have next := read_opened text fed
      rw [List.cons_append, readAll_cons (by rw [next]; exact idle), next]
      exact ih idle
  | completed fed ran more ih =>
      have next := read_completed text fed ran
      rw [List.cons_append, readAll_cons (by rw [next]; exact idle), next]
      exact ih idle

theorem readAll_eq (text : String) (h : Reading session tokens done last)
    (idle : session.error = none) : session.readAll text tokens = last := by
  simpa [readAll] using h.readAll_append text idle []

theorem settings_eq (h : Reading session tokens done last) :
    last.settings = session.settings := by
  induction h with
  | nil session => rfl
  | opened fed rest ih => exact ih
  | completed fed ran rest ih => exact ih

end Reading

/-- A failure ends the submission, whatever the words behind it are. -/
theorem readAll_of_fails {text : String} {session : Session} {token : Token} {error : Diagnostic}
    (h : Fails text session token error) (rest : List Token) :
    session.readAll text (token :: rest) = session.fail error := by
  rw [readAll, read_fails h]
  rfl

/-- Words are read to the end or as far as the first one that fails. -/
theorem readAll_cases (text : String) (session : Session) (idle : session.error = none)
    (tokens : List Token) :
    (∃ done, Reading session tokens done (session.readAll text tokens)) ∨
    ∃ before token after done last error, tokens = before ++ token :: after ∧
      Reading session before done last ∧ Fails text last token error ∧
      session.readAll text tokens = last.fail error := by
  induction tokens generalizing session with
  | nil => exact .inl ⟨[], .nil session⟩
  | cons token tokens ih =>
      obtain ⟨parser, fed⟩ | ⟨parser, statement, run, fed, ran⟩ | ⟨error, h⟩ :=
        read_cases text session token
      · have next := read_opened text fed
        rw [readAll_cons (by rw [next]; exact idle), next]
        obtain ⟨done, rest⟩ | ⟨before, bad, after, done, last, error, rfl, rest, h, result⟩ :=
          ih { session with parser } idle
        · exact .inl ⟨done, .opened fed rest⟩
        · exact .inr ⟨token :: before, bad, after, done, last, error, rfl, .opened fed rest, h,
            result⟩
      · have next := read_completed text fed ran
        rw [readAll_cons (by rw [next]; exact idle), next]
        obtain ⟨done, rest⟩ | ⟨before, bad, after, done, last, error, rfl, rest, h, result⟩ :=
          ih (session.performed parser run.world) idle
        · exact .inl ⟨_, .completed fed ran rest⟩
        · exact .inr ⟨token :: before, bad, after, _, last, error, rfl, .completed fed ran rest, h,
            result⟩
      · exact .inr ⟨[], token, tokens, [], session, error, rfl, .nil session, h,
          readAll_of_fails h tokens⟩

theorem settings_submit (session : Session) (text : String) :
    (session.submit text).settings = session.settings := by
  obtain ⟨done, reading⟩ | ⟨before, token, after, done, last, error, _, reading, _, result⟩ :=
    readAll_cases text { session with error := none } rfl (tokenize text)
  · exact reading.settings_eq
  · rw [submit, result]
    exact reading.settings_eq

theorem fails_of_submit {session : Session} {text : String} {error : Diagnostic}
    (failed : (session.submit text).error = some error) :
    ∃ before token after done last, tokenize text = before ++ token :: after ∧
      Reading { session with error := none } before done last ∧ Fails text last token error ∧
      session.submit text = last.fail error := by
  obtain ⟨_, reading⟩ | ⟨before, token, after, done, last, found, split, reading, fails, result⟩ :=
    readAll_cases text { session with error := none } rfl (tokenize text)
  · rw [submit, reading.error_eq] at failed
    cases failed
  · rw [submit, result] at failed
    cases failed
    exact ⟨before, token, after, done, last, split, reading, fails, result⟩

/-- What a submission that fails leaves behind. The words before the failing one complete the
statements of `done`; the failing one is refused by the parser or has its statement fail, at
whatever depth; and the words behind it could be any others. -/
theorem submit_failure (session : Session) (text : String) (error : Diagnostic)
    (h : (session.submit text).error = some error) :
    ∃ before token after done last,
      tokenize text = before ++ token :: after ∧
      Reading { session with error := none } before done last ∧
      Fails text last token error ∧
      session.submit text =
        { done.getLastD session with parser := {}, error := some error } ∧
      (session.submit text).statements = session.statements + done.length ∧
      (session.submit text).isPending = false ∧
      ∀ rest, readAll text { session with error := none } (before ++ token :: rest) =
        session.submit text := by
  obtain ⟨done, reading⟩ |
      ⟨before, token, after, done, last, found, split, reading, fails, result⟩ :=
    readAll_cases text { session with error := none } rfl (tokenize text)
  · rw [submit, reading.error_eq] at h
    cases h
  · change session.submit text = last.fail found at result
    have same : found = error := by
      rw [result] at h
      exact Option.some.inj h
    subst same
    refine ⟨before, token, after, done, last, split, reading, fails, ?_, ?_, ?_, ?_⟩
    · rw [result, fail, reading.last_eq]
      cases done with
      | nil | cons first done => rfl
    · rw [result]
      exact reading.statements_eq
    · rw [result]
      rfl
    · intro rest
      rw [result, reading.readAll_append text rfl, readAll_of_fails fails]

/-- A loop that clears the screen and then fails leaves the line drawn before it. -/
theorem submit_failure_in_loop :
    (submit {} "fd 10 repeat 2 [ cs fd :size ] rt 90").error =
      some { fault := .unknownParameter "size", line := "fd 10 repeat 2 [ cs fd :size ] rt 90" } ∧
    ∃ before done last, Reading {} before done last ∧ done.length = 1 ∧
      (submit {} "fd 10 repeat 2 [ cs fd :size ] rt 90").world = (done.getLastD {}).world := by
  have fault : (submit {} "fd 10 repeat 2 [ cs fd :size ] rt 90").error =
      some { fault := .unknownParameter "size"
             line := "fd 10 repeat 2 [ cs fd :size ] rt 90" } := by
    decide +kernel
  have count : (submit {} "fd 10 repeat 2 [ cs fd :size ] rt 90").statements = 1 := by
    decide +kernel
  obtain ⟨before, token, after, done, last, split, reading, fails, result, statements, _⟩ :=
    submit_failure {} _ _ fault
  refine ⟨fault, before, done, last, reading, ?_, ?_⟩
  · rw [count] at statements
    change 1 = 0 + done.length at statements
    omega
  · rw [result]

end Session

end Logo
