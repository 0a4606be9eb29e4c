import Logo.Proofs.Reaching

/-!
The count of statements tells whether a submission has changed anything. It goes up by one for
each statement that is performed to its end, and where it stays as it was, a submission has
changed nothing but what waits for more words and the report of a failure.
-/
namespace Logo.Session

/-- The two may differ in what is being read and in the report, and in nothing else. -/
structure Agrees (session later : Session) : Prop where
  world : later.world = session.world
  settings : later.settings = session.settings
  statements : later.statements = session.statements

theorem Agrees.refl (session : Session) : Agrees session session := ⟨rfl, rfl, rfl⟩

theorem Agrees.trans {a b c : Session} (h : Agrees a b) (h' : Agrees b c) : Agrees a c :=
  ⟨h'.world.trans h.world, h'.settings.trans h.settings, h'.statements.trans h.statements⟩

theorem statements_read (text : String) (session : Session) (token : Token) :
    (session.read text token).statements =
      session.statements + (session.performs? token).toList.length := by
  obtain ⟨parser, fed⟩ | ⟨parser, statement, run, fed, ran⟩ | ⟨error, fails⟩ :=
    read_cases text session token
  · rw [read_opened text fed, performs?_of_opened fed]
    rfl
  · rw [read_completed text fed ran, performs?_of_completed fed ran]
    rfl
  · rw [read_fails fails, performs?_of_fails fails]
    rfl

theorem statements_readAll (text : String) (session : Session) (tokens : List Token) :
    (session.readAll text tokens).statements =
      session.statements + (session.performedIn text tokens).length := by
  induction tokens generalizing session with
  | nil => rfl
  | cons token tokens ih =>
      have first := session.statements_read text token
      simp only [readAll, performedIn, List.length_append]
      split
      · exact first
      · rw [ih, first, Nat.add_assoc]

theorem count_submit (session : Session) (text : String) :
    (session.submit text).statements = session.statements +
      ({ session with error := none }.performedIn text (tokenize text)).length :=
  statements_readAll text { session with error := none } (tokenize text)

/-- A word that performs no statement opens or continues one, or gives one up. -/
theorem agrees_read (text : String) {session : Session} {token : Token}
    (h : session.performs? token = none) : session.Agrees (session.read text token) := by
  obtain ⟨parser, fed⟩ | ⟨parser, statement, run, fed, ran⟩ | ⟨error, fails⟩ :=
    read_cases text session token
  · rw [read_opened text fed]
    exact ⟨rfl, rfl, rfl⟩
  · rw [performs?_of_completed fed ran] at h
    cases h
  · rw [read_fails fails]
    exact ⟨rfl, rfl, rfl⟩

theorem agrees_readAll (text : String) {session : Session} {tokens : List Token}
    (h : session.performedIn text tokens = []) :
    session.Agrees (session.readAll text tokens) := by
  induction tokens generalizing session with
  | nil => exact .refl session
  | cons token tokens ih =>
      simp only [performedIn, List.append_eq_nil_iff, Option.toList_eq_nil_iff] at h
      obtain ⟨here, later⟩ := h
      have first := agrees_read text here
      simp only [readAll]
      split
      · exact first
      · next going =>
          rw [if_neg going] at later
          exact first.trans (ih later)

theorem agrees_submit {session : Session} {text : String}
    (h : (session.submit text).statements = session.statements) :
    session.Agrees (session.submit text) := by
  have count := session.count_submit text
  have none : { session with error := none }.performedIn text (tokenize text) = [] :=
    List.eq_nil_of_length_eq_zero (by omega)
  have same := agrees_readAll text none
  exact ⟨same.world, same.settings, same.statements⟩

/-- A submission adds to the count the number of statements that its words complete and that are
performed to their end. If there are none, it has no effect: the drawing, the registry, the
parameters in scope, the settings and the numbers are those from before. -/
theorem statements_submit (session : Session) (text : String) :
    (session.submit text).statements = session.statements +
      ({ session with error := none }.performedIn text (tokenize text)).length ∧
    ((session.submit text).statements = session.statements →
      session.Agrees (session.submit text)) :=
  ⟨session.count_submit text, agrees_submit⟩

/-- The first submission completes an open loop and one more statement before it fails, the
second one clears the screen and defines a procedure in a loop that fails. -/
theorem statements_submit_failing :
    let start := submit {} "fd 10 repeat 2 ["
    let mixed := start.submit "rt 90 ] pu repeat 2 [ cs fd :x ] pd"
    let failed := start.submit "cs to hop end fd :x ]"
    start.statements = 1 ∧ mixed.statements = 3 ∧ mixed.error.isSome ∧
      ({ start with error := none }.performedIn "rt 90 ] pu repeat 2 [ cs fd :x ] pd"
        (tokenize "rt 90 ] pu repeat 2 [ cs fd :x ] pd")).length = 2 ∧
      failed.statements = start.statements ∧ failed.error.isSome ∧
      failed.world = start.world := by
  intro start mixed failed
  have first : start.statements = 1 := by decide +kernel
  have count : mixed.statements = 3 := by decide +kernel
  have same : failed.statements = start.statements := by decide +kernel
  have added := (statements_submit start "rt 90 ] pu repeat 2 [ cs fd :x ] pd").1
  refine ⟨first, count, by decide +kernel, ?_, same, by decide +kernel, ?_⟩
  · change mixed.statements = _ at added
    omega
  · exact ((statements_submit start "cs to hop end fd :x ]").2 same).world

end Logo.Session
