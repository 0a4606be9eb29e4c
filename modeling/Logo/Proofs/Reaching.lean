import Logo.Proofs.Definitions
import Logo.Proofs.Lowercase
import Logo.Proofs.Parsing
import Logo.Proofs.Submission

/-!
The sessions that submissions lead to. All that matters of a session's past is the list of the
statements that were performed: the registry holds the primitives and what these statements
have defined, and what is open was read with that registry. It follows that every statement
which the parser completes is finished, and that performing it does not fail for any other
reason than the limits and unbound parameters.
-/
namespace Logo

theorem Parser.statement_of_feeds {registry : Registry} {maxDepth : Nat} {tokens : List Token}
    {next : Parser} {i : Instruction}
    (h : Feeds registry maxDepth ({}, none) tokens (next, some i)) :
    Statement registry maxDepth none 1 tokens i ∧ next = {} := by
  obtain ⟨token, rest, result, rfl, fed, read⟩ := h.next_of_open
  obtain ⟨first, begun, rfl⟩ := feed_idle.mp fed
  obtain ⟨words, more, j, rfl, statement, done⟩ := Feeds.splits rest [] token first begun read
  rw [settle_last statement.isComplete] at done
  cases done
  rw [List.append_nil]
  exact ⟨statement, rfl⟩

theorem Parser.feeds_of_statement {registry : Registry} {maxDepth : Nat} {tokens : List Token}
    {i : Instruction} (h : Statement registry maxDepth none 1 tokens i) :
    Feeds registry maxDepth ({}, none) tokens ({}, some i) := by
  obtain ⟨token, rest, first, rfl, begun, read⟩ := delivers_of_statement h [] rfl rfl
  rw [settle_last h.isComplete] at read
  exact .cons (feed_idle.mpr ⟨first, begun, rfl⟩) read

/-- A name as definitions hold it: in lower case, and not the name of a primitive. -/
def Definable (name : String) : Prop :=
  Text.lowercase name = name ∧ Registry.primitives.isProtected name = false

namespace Session

/-- A session in which nothing has been submitted yet. -/
def initial (settings : Settings) (turtle : Turtle) (pen : Pen) (bindings : Bindings) : Session :=
  { world := { turtle, pen, bindings }, settings }

def submitAll (session : Session) (texts : List String) : Session := texts.foldl submit session

theorem settings_submitAll (session : Session) (texts : List String) :
    (session.submitAll texts).settings = session.settings := by
  induction texts generalizing session with
  | nil => rfl
  | cons text texts ih => exact (ih (session.submit text)).trans (session.settings_submit text)

/-- The statement that the word completes, if it can be performed. -/
def performs? (session : Session) (token : Token) : Option Instruction :=
  match session.feed token with
  | .ok (_, some statement) =>
    match statement.perform session.settings { world := session.world } with
    | .ok _ _ => some statement
    | .error _ _ => none
  | .ok (_, none) | .error _ => none

theorem performs?_of_opened {session : Session} {token : Token} {parser : Parser}
    (fed : session.feed token = .ok (parser, none)) : session.performs? token = none := by
  simp only [performs?, fed]

theorem performs?_of_completed {session : Session} {token : Token} {parser : Parser}
    {statement : Instruction} {run : Run}
    (fed : session.feed token = .ok (parser, some statement))
    (ran : statement.perform session.settings { world := session.world } = .ok () run) :
    session.performs? token = some statement := by
  simp only [performs?, fed, ran]

theorem performs?_of_fails {text : String} {session : Session} {token : Token}
    {error : Diagnostic} (h : Fails text session token error) :
    session.performs? token = none := by
  cases h with
  | refused fed => simp only [performs?, fed]
  | failed fed ran => simp only [performs?, fed, ran]

/-- The statements that are performed to their end while the words are read, in order. -/
def performedIn (text : String) (session : Session) : List Token → List Instruction
  | [] => []
  | token :: tokens =>
    let next := session.read text token
    (session.performs? token).toList ++
      if next.error.isSome then [] else next.performedIn text tokens

/-- The statements that are performed to their end in submissions of the texts. -/
def performedBy (session : Session) : List String → List Instruction
  | [] => []
  | text :: texts =>
    { session with error := none }.performedIn text (tokenize text) ++
      (session.submit text).performedBy texts

/-- The session as it is when the statements `done` have been performed since the start. -/
structure Sound (bindings : Bindings) (done : List Instruction) (session : Session) : Prop where
  scope : session.world.bindings = bindings
  finished : ∀ i ∈ done, i.Finished Definable
  registry : Registry.primitives.defineAll (done.flatMap (·.definitions bindings)) =
    .ok session.world.registry
  /-- What is open was read from idle, with the registry as it is now. -/
  pending : ∃ tokens, Parser.Feeds session.world.registry session.settings.maxDepth ({}, none)
    tokens (session.parser, none)

namespace Sound

variable {bindings : Bindings} {done : List Instruction} {session : Session}

theorem isProtected_eq (h : Sound bindings done session) (name : String) :
    session.world.registry.isProtected name = Registry.primitives.isProtected name :=
  Registry.isProtected_defineAll h.registry name

theorem finished_definition (h : Sound bindings done session) {d : Definition}
    (among : d ∈ done.flatMap (·.definitions bindings)) :
    Definable d.name ∧ ∀ i ∈ d.body, i.Finished Definable := by
  obtain ⟨i, performed, among⟩ := List.mem_flatMap.mp among
  exact (h.finished i performed).definitions among

theorem lookup_primitive (h : Sound bindings done session) {name : String} {p : Primitive}
    (named : Text.lowercase name ∈ p.names) :
    session.world.registry.lookup name = some (.primitive p) ∧
      Registry.primitives.lookup name = some (.primitive p) := by
  have known : Registry.primitives.lookup name = some (.primitive p) :=
    Registry.get?_primitives.mpr ⟨p, named, rfl⟩
  have taken : Registry.primitives.isProtected name = true := by
    rw [Registry.isProtected, known]
    rfl
  exact ⟨(Registry.lookup_defineAll_of_protected h.registry taken).trans known, known⟩

theorem lookup_procedure (h : Sound bindings done session) {name : String}
    {before after : List Definition} {d : Definition}
    (executed : done.flatMap (·.definitions bindings) = before ++ d :: after)
    (named : Text.lowercase d.name = Text.lowercase name)
    (last : ∀ e ∈ after, Text.lowercase e.name ≠ Text.lowercase name) :
    session.world.registry.lookup name =
      some (.procedure ⟨before.length, Text.lowercase name, d.parameters, d.body⟩) := by
  have small : d.name = Text.lowercase name := by
    rw [← named, (h.finished_definition (by simp [executed])).1.1]
  have defined := h.registry
  rw [executed] at defined
  have found := Registry.lookup_defineAll defined named last
  rwa [small, show Registry.primitives.made = 0 from rfl, Nat.zero_add] at found

theorem lookup_unknown (h : Sound bindings done session) {name : String}
    (foreign : ∀ p : Primitive, Text.lowercase name ∉ p.names)
    (apart : ∀ d ∈ done.flatMap (·.definitions bindings),
      Text.lowercase d.name ≠ Text.lowercase name) :
    session.world.registry.lookup name = none := by
  rw [Registry.lookup_defineAll_of_apart h.registry apart, Option.eq_none_iff_forall_ne_some]
  intro command found
  obtain ⟨p, named, _⟩ := Registry.get?_primitives.mp found
  exact foreign p named

theorem finished_registry (h : Sound bindings done session) :
    session.world.registry.Finished Definable :=
  (Registry.finished_primitives Definable).defineAll h.registry
    fun _ among => (h.finished_definition among).2

/-- What the parser gives back is finished. -/
theorem finished_statement (h : Sound bindings done session) {token : Token} {parser : Parser}
    {statement : Instruction} (fed : session.feed token = .ok (parser, some statement)) :
    statement.Finished Definable ∧ parser = {} := by
  -- with the words that are open already, the word makes a whole statement
  obtain ⟨tokens, feeds⟩ := h.pending
  obtain ⟨denotes, idle⟩ := Parser.statement_of_feeds (feeds.trans (.cons fed (.nil _)))
  refine ⟨denotes.finished h.finished_registry ?_, idle⟩
  intro name free
  refine ⟨Text.lowercase_lowercase name, ?_⟩
  rw [← h.isProtected_eq]
  rw [Registry.isProtected, Registry.lookup] at free ⊢
  rwa [Text.lowercase_lowercase]

theorem fault_of_perform (h : Sound bindings done session) {token : Token} {parser : Parser}
    {statement : Instruction} (fed : session.feed token = .ok (parser, some statement))
    {fault : Fault} {run : Run}
    (failed : statement.perform session.settings { world := session.world } = .error fault run) :
    fault = .stepLimit session.settings.stepLimit ∨ fault = .tooDeep session.settings.maxDepth ∨
      ∃ name, fault = .unknownParameter name :=
  (h.finished_statement fed).1.fault_cases (Nat.zero_le _)
    (fun name definable => (h.isProtected_eq name).trans definable.2) failed

theorem opened (h : Sound bindings done session) {token : Token} {parser : Parser}
    (fed : session.feed token = .ok (parser, none)) :
    Sound bindings done { session with parser } := by
  obtain ⟨tokens, feeds⟩ := h.pending
  exact ⟨h.scope, h.finished, h.registry, tokens ++ [token],
    feeds.trans (.cons fed (.nil _))⟩

theorem completed (h : Sound bindings done session) {token : Token} {parser : Parser}
    {statement : Instruction} {run : Run}
    (fed : session.feed token = .ok (parser, some statement))
    (ran : statement.perform session.settings { world := session.world } = .ok () run) :
    Sound bindings (done ++ [statement]) (session.performed parser run.world) := by
  -- the registry changes here, but nothing is open that was read with the old one
  obtain ⟨finished, rfl⟩ := h.finished_statement fed
  refine ⟨?_, ?_, ?_, [], .nil _⟩
  · obtain ⟨effects, _, executed⟩ := statement.executes_perform session.settings _ run ran
    exact (World.bindings_of_execute executed).trans h.scope
  · rw [List.forall_mem_append]
    exact ⟨h.finished, fun i only => List.mem_singleton.mp only ▸ finished⟩
  · have defined := Instruction.registry_perform ran
    rw [h.scope] at defined
    rw [List.flatMap_append, Registry.defineAll_append, h.registry, List.flatMap_singleton]
    exact defined

theorem idle (h : Sound bindings done session) (error : Option Diagnostic) :
    Sound bindings done { session with parser := {}, error } :=
  ⟨h.scope, h.finished, h.registry, [], .nil _⟩

theorem read (h : Sound bindings done session) (text : String) (token : Token) :
    Sound bindings (done ++ (session.performs? token).toList) (session.read text token) := by
  obtain ⟨parser, fed⟩ | ⟨parser, statement, run, fed, ran⟩ | ⟨error, fails⟩ :=
    read_cases text session token
  · rw [read_opened text fed, performs?_of_opened fed, Option.toList_none, List.append_nil]
    exact h.opened fed
  · rw [read_completed text fed ran, performs?_of_completed fed ran]
    exact h.completed fed ran
  · rw [read_fails fails, performs?_of_fails fails, Option.toList_none, List.append_nil]
    exact h.idle (some error)

theorem readAll (h : Sound bindings done session) (text : String) (tokens : List Token) :
    Sound bindings (done ++ session.performedIn text tokens) (session.readAll text tokens) := by
  induction tokens generalizing done session with
  | nil =>
      rw [performedIn, List.append_nil]
      exact h
  | cons token tokens ih =>
      have next := h.read text token
      simp only [performedIn, Session.readAll, ← List.append_assoc]
      split
      · rw [List.append_nil]
        exact next
      · exact ih next

theorem withoutError (h : Sound bindings done session) :
    Sound bindings done { session with error := none } :=
  ⟨h.scope, h.finished, h.registry, h.pending⟩

theorem submitAll (h : Sound bindings done session) (texts : List String) :
    Sound bindings (done ++ session.performedBy texts) (session.submitAll texts) := by
  induction texts generalizing done session with
  | nil =>
      rw [performedBy, List.append_nil]
      exact h
  | cons text texts ih =>
      rw [performedBy, ← List.append_assoc]
      exact ih (h.withoutError.readAll text (tokenize text))

theorem fault_of_fails (h : Sound bindings done session) {text : String} {token : Token}
    {error : Diagnostic} (fails : Fails text session token error) :
    error.fault ≠ .unfinished := by
  cases fails with
  | refused fed =>
      rcases Parser.fault_of_feed fed with rfl | rfl | rfl | rfl | rfl | rfl <;>
        exact Fault.noConfusion
  | failed fed ran =>
      rcases h.fault_of_perform fed ran with rfl | rfl | ⟨name, rfl⟩ <;>
        exact Fault.noConfusion

theorem reading (h : Sound bindings done session) (text : String) {tokens : List Token}
    {performed : List Session} {last : Session}
    (read : Reading { session with error := none } tokens performed last) :
    Sound bindings (done ++ performedIn text { session with error := none } tokens) last := by
  have sound := h.withoutError.readAll text tokens
  rwa [read.readAll_eq text rfl] at sound

theorem fault_of_submit (h : Sound bindings done session) {text : String} {error : Diagnostic}
    (failed : (session.submit text).error = some error) : error.fault ≠ .unfinished := by
  obtain ⟨_, _, _, _, _, _, read, fails, _⟩ := fails_of_submit failed
  exact (h.reading text read).fault_of_fails fails

end Sound

theorem sound_initial (settings : Settings) (turtle : Turtle) (pen : Pen) (bindings : Bindings) :
    Sound bindings [] (initial settings turtle pen bindings) :=
  ⟨rfl, (fun _ among => nomatch among), rfl, [], .nil _⟩

section

variable (settings : Settings) (turtle : Turtle) (pen : Pen) (bindings : Bindings)
  (texts : List String)

theorem sound_submitAll :
    Sound bindings ((initial settings turtle pen bindings).performedBy texts)
      ((initial settings turtle pen bindings).submitAll texts) :=
  (sound_initial settings turtle pen bindings).submitAll texts

/-- Nothing unfinished is ever performed. When any texts have been submitted, and any words of
a further one have been read, the procedures that are known are finished, and so is whatever
statement the next word completes. -/
theorem nothing_unfinished (text : String) :
    let session := (initial settings turtle pen bindings).submitAll texts
    (∀ error, (session.submit text).error = some error → error.fault ≠ .unfinished) ∧
    ∀ tokens,
      let last := readAll text { session with error := none } tokens
      last.world.registry.Finished Definable ∧
      ∀ token parser statement, last.feed token = .ok (parser, some statement) →
        statement.Finished Definable ∧
        ∀ run, statement.perform last.settings { world := last.world } ≠
          .error .unfinished run := by
  intro session
  have sound := sound_submitAll settings turtle pen bindings texts
  refine ⟨fun error failed => sound.fault_of_submit failed, ?_⟩
  intro tokens last
  have reached := sound.withoutError.readAll text tokens
  refine ⟨reached.finished_registry, ?_⟩
  intro token parser statement fed
  refine ⟨(reached.finished_statement fed).1, ?_⟩
  intro run ran
  rcases reached.fault_of_perform fed ran with same | same | ⟨name, same⟩ <;> cases same

/-- A loop that is completed in the middle of a submission, and that calls a procedure which
calls another one. -/
theorem nothing_unfinished_in_calls :
    let texts := ["to square :n repeat 4 [ fd :n rt 90 ]", "end to twice repeat 2 [ square 5 ] end"]
    let last := readAll "rt 5 repeat 3 [ twice ] fd 1"
      { (initial {} {} {} {}).submitAll texts with error := none }
      (tokenize "rt 5 repeat 3 [ twice")
    (last.performs? ⟨"]", 22, 22⟩).isSome = true ∧
      ∃ parser statement, last.feed ⟨"]", 22, 22⟩ = .ok (parser, some statement) ∧
        statement.Finished Definable := by
  intro texts last
  have performed : (last.performs? ⟨"]", 22, 22⟩).isSome = true := by decide +kernel
  refine ⟨performed, ?_⟩
  have finished := ((nothing_unfinished {} {} {} {} texts "rt 5 repeat 3 [ twice ] fd 1").2
    (tokenize "rt 5 repeat 3 [ twice")).2
  unfold performs? at performed
  split at performed
  · next parser statement fed => exact ⟨parser, statement, fed, (finished _ _ _ fed).1⟩
  · cases performed
  · cases performed

/-- What a name stands for when texts have been submitted. A primitive has its names for ever.
Any other name stands for the procedure of the last definition of it that was executed by a
statement which was performed to its end, and for nothing if there is none. A definition that
the parser lets through is never refused later. -/
theorem lookup_submitAll (name : String) :
    let start := initial settings turtle pen bindings
    let session := start.submitAll texts
    let executed := (start.performedBy texts).flatMap (·.definitions bindings)
    (∀ p : Primitive, Text.lowercase name ∈ p.names →
      session.world.registry.lookup name = some (.primitive p) ∧
        Registry.primitives.lookup name = some (.primitive p)) ∧
    (∀ before d after, executed = before ++ d :: after →
      Text.lowercase d.name = Text.lowercase name →
      (∀ e ∈ after, Text.lowercase e.name ≠ Text.lowercase name) →
      let command := .procedure ⟨before.length, Text.lowercase name, d.parameters, d.body⟩
      session.world.registry.lookup name = some command ∧
        command.names = [Text.lowercase name] ∧ command.isProtected = false) ∧
    ((∀ p : Primitive, Text.lowercase name ∉ p.names) →
      (∀ d ∈ executed, Text.lowercase d.name ≠ Text.lowercase name) →
      session.world.registry.lookup name = none) ∧
    ∀ text tokens token parser statement,
      let last := readAll text { session with error := none } tokens
      last.feed token = .ok (parser, some statement) →
      ∀ key run, statement.perform last.settings { world := last.world } ≠
        .error (.protectedName key) run := by
  intro start session executed
  have sound := sound_submitAll settings turtle pen bindings texts
  refine ⟨fun p named => sound.lookup_primitive named, ?_,
    fun foreign apart => sound.lookup_unknown foreign apart, ?_⟩
  · intro before d after split named last
    refine ⟨sound.lookup_procedure split named last, ?_, rfl⟩
    rw [Command.names, Text.lowercase_lowercase]
  · intro text tokens token parser statement last fed key run ran
    have reached := sound.withoutError.readAll text tokens
    rcases reached.fault_of_perform fed ran with same | same | ⟨name, same⟩ <;> cases same

end

/-- The kelvin sign is a capital k, and what a failed statement defined does not count. -/
theorem lookup_submitAll_redefined :
    let texts := ["to foo fd 1 end to FOO :x repeat 2 [ to bar end ] end foo 3 to foo",
      "fd :y end repeat 2 [ to foo end fd :z ]"]
    let executed := ((initial {} {} {} {}).performedBy texts).flatMap (·.definitions {})
    executed.map (·.name) = ["foo", "foo", "bar", "bar", "foo"] ∧
      (∃ d ∈ executed.getLast?,
        ((initial {} {} {} {}).submitAll texts).world.registry.lookup "FOO" =
          some (.procedure ⟨4, "foo", d.parameters, d.body⟩)) ∧
      ((initial {} {} {} {}).submitAll texts).world.registry.lookup "b\u212a" =
        some (.primitive .backward) ∧
      ((initial {} {} {} {}).submitAll texts).world.registry.lookup "baz" = none := by
  intro texts executed
  have names : executed.map (·.name) = ["foo", "foo", "bar", "bar"] ++ ["foo"] := by decide +kernel
  refine ⟨names, ?_, ?_, ?_⟩
  · obtain ⟨before, rest, split, first, second⟩ := List.map_eq_append_iff.mp names
    obtain ⟨d, rfl, named⟩ := List.map_eq_singleton_iff.mp second
    have count : before.length = 4 := by simpa using congrArg List.length first
    have same : Text.lowercase d.name = Text.lowercase "FOO" := by
      rw [named]
      decide +kernel
    have found := (lookup_submitAll {} {} {} {} texts "FOO").2.1 before d [] split same
      (fun _ later => nomatch later)
    have small : Text.lowercase "FOO" = "foo" := by decide +kernel
    rw [count, small] at found
    refine ⟨d, ?_, found.1⟩
    rw [split]
    simp
  · have small : Text.lowercase "b\u212a" ∈ Primitive.backward.names := by decide +kernel
    exact ((lookup_submitAll {} {} {} {} texts "b\u212a").1 .backward small).1
  · refine (lookup_submitAll {} {} {} {} texts "baz").2.2.1 ?_ ?_
    · intro p
      cases p <;> decide +kernel
    · intro d among
      have named : d.name ∈ executed.map (·.name) := List.mem_map_of_mem among
      rw [names] at named
      have others : ∀ name ∈ ["foo", "foo", "bar", "bar"] ++ ["foo"],
          Text.lowercase name ≠ Text.lowercase "baz" := by decide +kernel
      exact others d.name named

end Session

end Logo
