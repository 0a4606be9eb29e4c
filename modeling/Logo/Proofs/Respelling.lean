import Logo.Proofs.Reaching
import Logo.Proofs.Spelling

/-!
Texts that are written in another way: with letters in the other case, or with aliases of the
primitives where statements begin. Word by word they are read alike, and the sessions they lead
to differ in the report of a failure only, which quotes what was written.
-/
namespace Logo

/-- What an instruction with a block is like when a statement begins in it does not depend on
the word that the statement begins with. -/
theorem Instruction.nested_eq {registry : Registry} {token token' : Token}
    {i next next' : Instruction} (h : i.accept registry token = .ok (.nested next))
    (h' : i.accept registry token' = .ok (.nested next')) : next' = next := by
  have values (word : String) (build : Value → Instruction) (j : Instruction) :
      (do return Step.consumed (build (← Value.resolve word)) : Except Fault Step) ≠
        .ok (.nested j) := by
    cases Value.resolve word <;> nofun
  obtain ⟨command, progress⟩ := i
  cases progress with
  | ready => cases h
  | single _ => exact absurd h (values _ _ _)
  | call arguments => exact absurd h (values _ _ _)
  | loop times body =>
      obtain _ | times := times
      · exact absurd h (values _ _ _)
      · cases body with
        | none =>
            simp only [accept] at h
            split at h <;> cases h
        | some block =>
            simp only [accept] at h h'
            split at h <;> cases h
            split at h' <;> cases h'
            rfl
  | define name parameters body =>
      obtain _ | name := name
      · simp only [accept] at h
        split at h <;> cases h
      · simp only [accept] at h h'
        split at h
        · cases h
        · split at h <;> cases h
          split at h'
          · cases h'
          · split at h' <;> cases h'
            rfl

namespace Parser

/-- Whether the word begins a statement, where nothing is open or in the innermost block. -/
def begins (registry : Registry) (token : Token) (parser : Parser) : Bool :=
  match parser.stack with
  | [] => true
  | top :: below =>
    !endsEnclosing token top below &&
      match top.accept registry token with
      | .ok (.nested _) => true
      | _ => false

theorem begins_open {registry : Registry} {token : Token} {top : Instruction}
    {below : List Instruction} (h : begins registry token ⟨top :: below⟩ = true) :
    endsEnclosing token top below = false ∧
      ∃ next, top.accept registry token = .ok (.nested next) := by
  simp only [begins, Bool.and_eq_true, Bool.not_eq_true'] at h
  refine ⟨h.1, ?_⟩
  have nested := h.2
  split at nested
  · next next taken => exact ⟨next, taken⟩
  · cases nested

/-- Words that begin statements with the same command are read alike. -/
theorem feed_of_begins {registry : Registry} {token token' : Token} {parser : Parser}
    {command : Command} (begins : parser.begins registry token = true)
    (begins' : parser.begins registry token' = true)
    (named : registry.lookup token.text = some command)
    (named' : registry.lookup token'.text = some command) (maxDepth : Nat) :
    parser.feed registry maxDepth token' = parser.feed registry maxDepth token := by
  have same : begin registry token' = begin registry token := by
    rw [begin, begin, named, named']
  obtain ⟨_ | ⟨top, below⟩⟩ := parser
  · rw [feed, feed, same]
  · obtain ⟨apart, next, taken⟩ := begins_open begins
    obtain ⟨apart', next', taken'⟩ := begins_open begins'
    cases Instruction.nested_eq taken taken'
    rw [feed_open, feed_open, apart, apart', taken, taken', same]

end Parser

/-- Two reports of the same failure, but for the case of the words they quote. -/
structure Diagnostic.Alike (error error' : Diagnostic) : Prop where
  fault : error'.fault.lowercase = error.fault.lowercase
  position : error'.position.isSome = error.position.isSome

namespace Session

/-- Whether the word at place `n` begins a statement, if the words are read as far as that. -/
def beginsAt (text : String) (session : Session) : Nat → List Token → Bool
  | _, [] => false
  | 0, token :: _ => session.parser.begins session.world.registry token
  | n + 1, token :: tokens =>
    let next := session.read text token
    !next.error.isSome && next.beginsAt text n tokens

/-- The words of two texts agree place by place. They are equal up to case, or begin statements
and are names of the same primitive. -/
def Respells (text other : String) (session : Session) (words words' : List Token) : Prop :=
  words'.length = words.length ∧
    ∀ n < words.length, ∀ token ∈ words[n]?, ∀ token' ∈ words'[n]?,
      Text.lowercase token'.text = Text.lowercase token.text ∨
        session.beginsAt text n words = true ∧ session.beginsAt other n words' = true ∧
          ∃ p ∈ Primitive.all, Text.lowercase token.text ∈ p.names ∧
            Text.lowercase token'.text ∈ p.names

/-- The words in front of place `n` are read without a failure, and the one there fails. -/
def FailsAt (text : String) (session : Session) (words : List Token) (n : Nat)
    (error : Diagnostic) : Prop :=
  ∃ token done last, words[n]? = some token ∧ Reading session (words.take n) done last ∧
    Fails text last token error

variable {text other : String} {session next last : Session} {token token' : Token}
  {words words' : List Token} {error error' : Diagnostic}

theorem Reading.append {more : List Token} {done done' : List Session}
    (h : Reading session words done next) (h' : Reading next more done' last) :
    Reading session (words ++ more) (done ++ done') last := by
  induction h with
  | nil session => exact h'
  | opened fed rest ih => exact .opened fed (ih h')
  | completed fed ran rest ih => exact .completed fed ran (ih h')

theorem Reading.read_eq {done : List Session} (h : Reading session [token] done next)
    (text : String) : session.read text token = next := by
  cases h with
  | opened fed rest =>
      cases rest
      exact read_opened text fed
  | completed fed ran rest =>
      cases rest
      exact read_completed text fed ran

theorem FailsAt.cons {done : List Session} (step : Reading session [token] done next) {n : Nat}
    (h : next.FailsAt text words n error) :
    session.FailsAt text (token :: words) (n + 1) error := by
  obtain ⟨bad, more, last, place, reading, fails⟩ := h
  exact ⟨bad, done ++ more, last, place, step.append reading, fails⟩

theorem Respells.tail {done done' : List Session}
    (h : session.Respells text other (token :: words) (token' :: words'))
    (step : Reading session [token] done next) (step' : Reading session [token'] done' next) :
    next.Respells text other words words' := by
  obtain ⟨length, agree⟩ := h
  refine ⟨Nat.succ.inj length, ?_⟩
  intro n short found place found' place'
  obtain same | ⟨begins, begins', named⟩ :=
    agree (n + 1) (Nat.succ_lt_succ short) found place found' place'
  · exact .inl same
  · simp only [beginsAt, step.read_eq, step'.read_eq, Bool.and_eq_true] at begins begins'
    exact .inr ⟨begins.2, begins'.2, named⟩

theorem feed_respelled {bindings : Bindings} {done : List Instruction}
    (sound : Sound bindings done session)
    (h : session.Respells text other (token :: words) (token' :: words')) :
    (session.feed token').mapError Fault.lowercase =
      (session.feed token).mapError Fault.lowercase := by
  obtain same | ⟨begins, begins', p, _, named, named'⟩ :=
    h.2 0 (Nat.zero_lt_succ _) token rfl token' rfl
  · have lower : session.feed token'.lowercase = session.feed token.lowercase := by
      change session.feed ⟨Text.lowercase token'.text, token.position⟩ = _
      rw [same]
      rfl
    rwa [feed, feed, Parser.feed_lowercase, Parser.feed_lowercase] at lower
  · rw [feed, feed, Parser.feed_of_begins begins begins' (sound.lookup_primitive named).1
      (sound.lookup_primitive named').1]

/-- Two words that agree are both read, with the same result, or fail both. -/
theorem reading_respelled (text other : String)
    (same : (session.feed token').mapError Fault.lowercase =
      (session.feed token).mapError Fault.lowercase) :
    (∃ done next, Reading session [token] done next ∧ Reading session [token'] done next) ∨
    ∃ error error', Fails text session token error ∧ Fails other session token' error' ∧
      error.Alike error' := by
  cases fed : session.feed token with
  | error fault =>
      cases fed' : session.feed token' with
      | ok result =>
          rw [fed, fed'] at same
          cases same
      | error fault' =>
          rw [fed, fed'] at same
          exact .inr ⟨_, _, .refused fed, .refused fed', Except.error.inj same, rfl⟩
  | ok result =>
      cases fed' : session.feed token' with
      | error fault =>
          rw [fed, fed'] at same
          cases same
      | ok result' =>
          rw [fed, fed'] at same
          cases same
          obtain ⟨parser, _ | statement⟩ := result
          · exact .inl ⟨_, _, .opened fed (.nil _), .opened fed' (.nil _)⟩
          · cases ran : statement.perform session.settings { world := session.world } with
            | ok _ run =>
                exact .inl ⟨_, _, .completed fed ran (.nil _), .completed fed' ran (.nil _)⟩
            | error fault run => exact .inr ⟨_, _, .failed fed ran, .failed fed' ran, rfl, rfl⟩

/-- Words that agree lead to the same session, or fail at the same place. -/
theorem readAll_respelled (text other : String) {bindings : Bindings} {done : List Instruction}
    (sound : Sound bindings done session) (idle : session.error = none)
    (h : session.Respells text other words words') :
    let a := session.readAll text words
    let b := session.readAll other words'
    b = { a with error := b.error } ∧
      (a.error = none ∧ b.error = none ∨
        ∃ n error error', a.error = some error ∧ b.error = some error' ∧
          session.FailsAt text words n error ∧ session.FailsAt other words' n error' ∧
          error.Alike error') := by
  induction words generalizing session done words' with
  | nil =>
      cases List.length_eq_zero_iff.mp h.1
      exact ⟨rfl, .inl ⟨idle, idle⟩⟩
  | cons token words ih =>
      obtain ⟨token', words', rfl⟩ := List.exists_cons_of_length_eq_add_one h.1
      obtain ⟨_, next, step, step'⟩ | ⟨error, error', fails, fails', alike⟩ :=
        reading_respelled text other (feed_respelled sound h)
      · -- one session is left of the two, and the words behind agree when it reads them
        have rest := step.readAll_append text idle words
        have rest' := step'.readAll_append other idle words'
        have later : Sound bindings _ next := step.read_eq text ▸ sound.read text token
        obtain ⟨same, ends⟩ := ih later (step.error_eq.trans idle) (h.tail step step')
        rw [List.singleton_append] at rest rest'
        rw [rest, rest']
        refine ⟨same, ends.imp_right ?_⟩
        rintro ⟨n, error, error', failed, failed', place, place', alike⟩
        exact ⟨n + 1, error, error', failed, failed', place.cons step, place'.cons step', alike⟩
      · rw [readAll_of_fails fails, readAll_of_fails fails']
        exact ⟨rfl, .inr ⟨0, error, error', rfl, rfl, ⟨token, [], session, rfl, .nil _, fails⟩,
          ⟨token', [], session, rfl, .nil _, fails'⟩, alike⟩⟩

/-- The language depends neither on the case of letters nor on which of its names is used for a
primitive. Texts whose words agree, submitted to any session that other texts have led to, leave
it in the same state, down to the procedures they define. They both succeed or fail with the
word at the same place, and then for the same reason up to the case of the word that is
quoted. -/
theorem submit_respelled (settings : Settings) (turtle : Turtle) (pen : Pen) (bindings : Bindings)
    (texts : List String) (text other : String) :
    let session := (initial settings turtle pen bindings).submitAll texts
    let start := { session with error := none }
    start.Respells text other (tokenize text) (tokenize other) →
    let a := session.submit text
    let b := session.submit other
    b = { a with error := b.error } ∧
      (a.error = none ∧ b.error = none ∨
        ∃ n error error', a.error = some error ∧ b.error = some error' ∧
          start.FailsAt text (tokenize text) n error ∧
          start.FailsAt other (tokenize other) n error' ∧ error.Alike error') := by
  intro session start h
  have sound := sound_submitAll settings turtle pen bindings texts
  exact readAll_respelled text other sound.withoutError rfl h

/-- Capitals, aliases in the block and outside of it, the kelvin sign for the letter k, and a
word at the end that names nothing. -/
theorem submit_respelled_failing :
    let session := (initial {} {} {} {}).submitAll ["to Hop :N fd :n END"]
    let text := "repeat 2 [ fd 5 hop 1 ] bk 10 jump"
    let other := "RP 2 [ forward 5 HOP 1 ] b\u212a 10 Jump"
    let a := session.submit text
    let b := session.submit other
    { session with error := none }.Respells text other (tokenize text) (tokenize other) ∧
      a.error.map (·.fault) = some (.unknownFunction "jump") ∧
      b.error.map (·.fault) = some (.unknownFunction "Jump") ∧
      a.statements = 3 ∧ b = { a with error := b.error } := by
  have respells : { (initial {} {} {} {}).submitAll ["to Hop :N fd :n END"] with
      error := none }.Respells "repeat 2 [ fd 5 hop 1 ] bk 10 jump"
      "RP 2 [ forward 5 HOP 1 ] b\u212a 10 Jump"
      (tokenize "repeat 2 [ fd 5 hop 1 ] bk 10 jump")
      (tokenize "RP 2 [ forward 5 HOP 1 ] b\u212a 10 Jump") := by
    unfold Respells
    decide +kernel
  refine ⟨respells, by decide +kernel, by decide +kernel, by decide +kernel, ?_⟩
  exact (submit_respelled {} {} {} {} ["to Hop :N fd :n END"] _ _ respells).1

end Session

end Logo
