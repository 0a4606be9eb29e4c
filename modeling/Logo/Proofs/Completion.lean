import Logo.Proofs.Capture
import Logo.Proofs.Scanning

/-!
No words lead into a dead end. On the stack of open instructions only the innermost one may
have its values, its name or its block still to come, and all others hold a block that can be
ended at any time. So what is open can always be completed, and no word is taken in that could
not be part of a statement.
-/
namespace Logo

/-- The instructions that wait for words, in the shapes that the parser gives them. -/
inductive Instruction.Open : Instruction → Prop
  | single {p : Primitive} : Open ⟨.primitive p, .single none⟩
  | count : Open ⟨.primitive .loop, .loop none none⟩
  | bracket {times : Value} : Open ⟨.primitive .loop, .loop (some times) none⟩
  | name : Open ⟨.primitive .define, .define none [] none⟩
  | parameters {name : String} {parameters : List String} :
      Open ⟨.primitive .define, .define (some name) parameters none⟩
  | block (frame : Frame) (before : List Instruction) : Open (frame.holding before false)
  | arguments {p : Procedure} {arguments : List Value}
      (wanting : arguments.length < p.parameters.length) : Open ⟨.procedure p, .call arguments⟩

/-- The instruction holds a block that has been begun and not ended. -/
def Instruction.Holding (i : Instruction) : Prop :=
  ∃ (frame : Frame) (before : List Instruction), i = frame.holding before false

namespace Instruction

theorem Open.isComplete {i : Instruction} (h : i.Open) : i.isComplete = false := by
  cases h with
  | single | count | bracket | name | parameters => rfl
  | block frame before => exact frame.isComplete_holding before false
  | arguments wanting =>
      simp only [Instruction.isComplete, Command.parameters, beq_eq_false_iff_ne]
      omega

/-- An instruction that takes no words is complete as soon as it is begun. -/
theorem open_start (command : Command) :
    (start command).isComplete = true ∨ (start command).Open := by
  cases command with
  | primitive p =>
      cases p with
      | penUp | penDown | clearScreen => exact .inl rfl
      | forward | backward | left | right | wait => exact .inr .single
      | loop => exact .inr .count
      | define => exact .inr .name
  | procedure p =>
      by_cases none : p.parameters = []
      · refine .inl ?_
        simp [start, Command.start, isComplete, Command.parameters, none]
      · exact .inr (.arguments (List.length_pos_iff.mpr none))

/-- What an open instruction makes of a word that it takes in or that begins a statement in its
block. -/
theorem Open.accept {registry : Registry} {token : Token} {i : Instruction} {step : Step}
    (h : i.Open) (taken : i.accept registry token = .ok step) :
    (∃ next, step = .consumed next ∧ (next.isComplete = true ∨ next.Open)) ∨
      ∃ next, step = .nested next ∧ next.Holding := by
  cases h with
  | single =>
      obtain ⟨value, _, rfl⟩ := Parser.value_of_taken taken
      exact .inl ⟨_, rfl, .inl rfl⟩
  | count =>
      obtain ⟨value, _, rfl⟩ := Parser.value_of_taken taken
      exact .inl ⟨_, rfl, .inr .bracket⟩
  | @bracket times =>
      simp only [Instruction.accept] at taken
      split at taken
      · cases taken
        exact .inl ⟨_, rfl, .inr (.block (.loop times) [])⟩
      · cases taken
  | name =>
      simp only [Instruction.accept] at taken
      split at taken
      · cases taken
      · cases taken
        exact .inl ⟨_, rfl, .inr .parameters⟩
  | @parameters name parameters =>
      simp only [Instruction.accept] at taken
      split at taken
      · cases taken
        exact .inl ⟨_, rfl, .inr .parameters⟩
      · split at taken
        · cases taken
          exact .inl ⟨_, rfl, .inl rfl⟩
        · cases taken
          exact .inr ⟨_, rfl, .define name parameters, [], rfl⟩
  | block frame before =>
      rw [Frame.accept_holding] at taken
      split at taken
      · cases taken
        exact .inl ⟨_, rfl, .inl (frame.isComplete_holding before true)⟩
      · cases taken
        exact .inr ⟨_, rfl, frame, before, rfl⟩
  | @arguments p arguments wanting =>
      obtain ⟨value, _, rfl⟩ := Parser.value_of_taken taken
      refine .inl ⟨_, rfl, ?_⟩
      by_cases full : arguments.length + 1 = p.parameters.length
      · refine .inl ?_
        simp [Instruction.isComplete, Command.parameters, full]
      · refine .inr (.arguments ?_)
        rw [List.length_append, List.length_singleton]
        omega

end Instruction

namespace Parser

variable {registry : Registry} {maxDepth : Nat} {token : Token} {parser : Parser}

/-- The innermost instruction waits for words, and the others for the end of their blocks. -/
structure Tidy (parser : Parser) : Prop where
  top : ∀ i ∈ parser.stack.head?, i.Open
  below : ∀ i ∈ parser.stack.tail, i.Holding

theorem tidy_idle : Tidy {} := ⟨(fun _ h => nomatch h), (fun _ h => nomatch h)⟩

/-- Nothing is open if and only if a statement has just been completed. -/
theorem tidy_settle {top : Instruction} {below : List Instruction}
    (h : top.isComplete = true ∨ top.Open) (blocks : ∀ i ∈ below, i.Holding) :
    (settle top below).1.Tidy ∧ (settle top below).1.isIdle = (settle top below).2.isSome := by
  induction below generalizing top with
  | nil =>
      rcases h with complete | waiting
      · rw [settle_last complete]
        exact ⟨tidy_idle, rfl⟩
      · rw [settle_of_incomplete waiting.isComplete]
        exact ⟨⟨by simpa using waiting, blocks⟩, rfl⟩
  | cons parent below ih =>
      rcases h with complete | waiting
      · obtain ⟨⟨frame, before, rfl⟩, others⟩ := List.forall_mem_cons.mp blocks
        rw [settle_of_complete complete, Frame.adopt_holding]
        exact ih (.inr (.block frame _)) others
      · rw [settle_of_incomplete waiting.isComplete]
        exact ⟨⟨by simpa using waiting, blocks⟩, rfl⟩

theorem tidy_begin {first : Instruction} {below : List Instruction}
    (begun : begin registry token = .ok first) (blocks : ∀ i ∈ below, i.Holding) :
    (settle first below).1.Tidy ∧
      (settle first below).1.isIdle = (settle first below).2.isSome := by
  obtain ⟨command, _, rfl⟩ := begin_eq_ok.mp begun
  exact tidy_settle (Instruction.open_start command) blocks

theorem Tidy.feed {result : Parser × Option Instruction} (h : parser.Tidy)
    (fed : parser.feed registry maxDepth token = .ok result) :
    result.1.Tidy ∧ result.1.isIdle = result.2.isSome := by
  obtain ⟨_ | ⟨top, below⟩⟩ := parser
  · obtain ⟨first, begun, rfl⟩ := feed_idle.mp fed
    exact tidy_begin begun fun _ h => nomatch h
  · obtain ⟨_, ⟨next, taken, rfl⟩ | ⟨next, first, taken, _, begun, rfl⟩⟩ := feed_cases fed
    · obtain ⟨_, same, settled⟩ | ⟨_, same, _⟩ := (h.top top rfl).accept taken
      · cases same
        exact tidy_settle settled h.below
      · cases same
    · obtain ⟨_, same, _⟩ | ⟨_, same, holding⟩ := (h.top top rfl).accept taken
      · cases same
      · cases same
        exact tidy_begin begun (List.forall_mem_cons.mpr ⟨holding, h.below⟩)

theorem Tidy.feedAll {last : Parser} {tokens : List Token} {statements : List Instruction}
    (h : parser.Tidy) (fed : feedAll registry maxDepth parser tokens = .ok (last, statements)) :
    last.Tidy := by
  induction tokens generalizing parser statements with
  | nil =>
      cases fed
      exact h
  | cons token tokens ih =>
      obtain ⟨next, done, rest, first, read, _⟩ := feedAll_cons fed
      exact ih (h.feed first).1 read

theorem Tidy.feeds {start last : Parser × Option Instruction} {tokens : List Token}
    (h : start.1.Tidy) (fed : Feeds registry maxDepth start tokens last) : last.1.Tidy := by
  induction fed with
  | nil result => exact h
  | cons fed rest ih => exact ih (h.feed fed).1

end Parser

/-- Words that complete an open instruction. -/
def Instruction.remaining : Instruction → List String
  | ⟨_, .single none⟩ => ["0"]
  | ⟨_, .loop none none⟩ => ["0", "[", "]"]
  | ⟨_, .loop (some _) none⟩ => ["[", "]"]
  | ⟨_, .loop _ (some _)⟩ => ["]"]
  | ⟨_, .define none _ _⟩ => ["x", "end"]
  | ⟨_, .define (some _) _ _⟩ => ["end"]
  | ⟨command, .call arguments⟩ =>
    List.replicate (command.parameters.length - arguments.length) "0"
  | ⟨_, .single (some _)⟩ | ⟨_, .ready⟩ => []

theorem Frame.remaining_holding (frame : Frame) (before : List Instruction) :
    (frame.holding before false).remaining = [frame.word] := by
  cases frame <;> rfl

/-- Words that complete the statement that is being read, from the inside out. -/
def Parser.completion (parser : Parser) : List String :=
  parser.stack.flatMap Instruction.remaining

theorem Instruction.isWord_of_remaining {i : Instruction} {word : String}
    (h : word ∈ i.remaining) : Text.IsWord word := by
  unfold remaining at h
  split at h
  case h_7 =>
      rw [(List.mem_replicate.mp h).2]
      decide
  all_goals
      revert h
      revert word
      decide

namespace Parser

variable {registry : Registry} {maxDepth : Nat}

theorem resolve_zero {word : Token} (h : word.text = "0") :
    Value.resolve word.text = .ok (.constant 0) := by
  rw [h]
  rfl

theorem feeds_end (name : String) (parameters : List String) (below : List Instruction)
    {closing : Token} (closed : closing.text = "end") :
    Feeds registry maxDepth
      (⟨⟨.primitive .define, .define (some name) parameters none⟩ :: below⟩, none) [closing]
      (settle ((Frame.define name parameters).holding [] true) below) := by
  have ends : closing.is "end" = true := by simp [Token.is, closed]
  refine (Feeds.opening ?_ (List.cons_ne_nil _ _)).mpr
    (feeds_closing (.define name parameters) below [] ends)
  intro first head
  cases head
  exact Token.parameter?_of_end ends

/-- An open instruction is completed by its words, whatever it stands in. -/
theorem feeds_remaining (free : registry.isProtected "x" = false) {i : Instruction} (h : i.Open)
    (below : List Instruction) {tokens : List Token}
    (texts : tokens.map Token.text = i.remaining) :
    ∃ done, done.isComplete = true ∧
      Feeds registry maxDepth (⟨i :: below⟩, none) tokens (settle done below) := by
  cases h with
  | @single p =>
      obtain ⟨word, rfl, zero⟩ := List.map_eq_singleton_iff.mp texts
      have value := resolve_zero zero
      have taken : Instruction.accept registry word ⟨.primitive p, .single none⟩ =
          .ok (.consumed ⟨.primitive p, .single (some (.constant 0))⟩) := by
        simp only [Instruction.accept, value]
        rfl
      refine ⟨_, rfl, .cons (feed_of_consumed ?_ taken) (.nil _)⟩
      exact endsEnclosing_of_resolve value _ below
  | count =>
      obtain ⟨count, tokens, rfl, zero, texts⟩ := List.map_eq_cons_iff.mp texts
      obtain ⟨opening, tokens, rfl, opened, texts⟩ := List.map_eq_cons_iff.mp texts
      obtain ⟨closing, rfl, closed⟩ := List.map_eq_singleton_iff.mp texts
      exact ⟨_, rfl, (feeds_count below (resolve_zero zero) opened).trans
        (feeds_closing (.loop _) below [] (Token.is_bracket.mpr closed))⟩
  | @bracket times =>
      obtain ⟨opening, tokens, rfl, opened, texts⟩ := List.map_eq_cons_iff.mp texts
      obtain ⟨closing, rfl, closed⟩ := List.map_eq_singleton_iff.mp texts
      exact ⟨_, rfl, (feeds_bracket times below opened).trans
        (feeds_closing (.loop times) below [] (Token.is_bracket.mpr closed))⟩
  | name =>
      obtain ⟨name, tokens, rfl, named, texts⟩ := List.map_eq_cons_iff.mp texts
      obtain ⟨closing, rfl, closed⟩ := List.map_eq_singleton_iff.mp texts
      have apart : ∀ word ∈ below.head?.bind Instruction.terminator, name.is word = false := by
        intro word around
        obtain ⟨parent, _, ends⟩ := Option.bind_eq_some_iff.mp around
        rcases Instruction.terminator_cases ends with rfl | rfl <;> rw [Token.is, named] <;> rfl
      exact ⟨_, rfl, (feeds_name below (named ▸ free) apart).trans (feeds_end _ [] below closed)⟩
  | @parameters name parameters =>
      obtain ⟨closing, rfl, closed⟩ := List.map_eq_singleton_iff.mp texts
      exact ⟨_, rfl, feeds_end name parameters below closed⟩
  | block frame before =>
      rw [Frame.remaining_holding] at texts
      obtain ⟨closing, rfl, closed⟩ := List.map_eq_singleton_iff.mp texts
      have ends : closing.is frame.word = true := by simp [Token.is, closed]
      exact ⟨_, frame.isComplete_holding before true, feeds_closing frame below before ends⟩
  | @arguments p arguments wanting =>
      have count : tokens.length = p.parameters.length - arguments.length := by
        simpa [Instruction.remaining, Command.parameters] using congrArg List.length texts
      have zeros : tokens.map (fun word => Value.resolve word.text) =
          (List.replicate tokens.length (Value.constant 0)).map .ok := by
        rw [List.map_replicate, List.eq_replicate_iff]
        refine ⟨List.length_map _, List.forall_mem_map.mpr fun word among => resolve_zero ?_⟩
        have text : word.text ∈ tokens.map Token.text := List.mem_map_of_mem among
        rw [texts] at text
        exact (List.mem_replicate.mp text).2
      have read : Feeds registry maxDepth (settle ⟨.procedure p, .call arguments⟩ below) tokens _ :=
        feeds_arguments p below zeros arguments (by omega)
      rw [settle_of_incomplete (Instruction.Open.arguments wanting).isComplete] at read
      refine ⟨_, ?_, read⟩
      simp only [Instruction.isComplete, Command.parameters, List.length_append,
        List.length_replicate, beq_iff_eq]
      omega

/-- Whatever is open is completed by the words for each of its instructions in turn. -/
theorem feeds_completion (free : registry.isProtected "x" = false) {top : Instruction}
    (h : top.Open) {below : List Instruction} (blocks : ∀ i ∈ below, i.Holding)
    {tokens : List Token} (texts : tokens.map Token.text = completion ⟨top :: below⟩) :
    ∃ i, Feeds registry maxDepth (⟨top :: below⟩, none) tokens ({}, some i) := by
  induction below generalizing top tokens with
  | nil =>
      rw [completion, List.flatMap_singleton] at texts
      obtain ⟨done, complete, read⟩ := feeds_remaining free h [] texts
      rw [settle_last complete] at read
      exact ⟨done, read⟩
  | cons parent below ih =>
      obtain ⟨⟨frame, before, rfl⟩, others⟩ := List.forall_mem_cons.mp blocks
      rw [completion, List.flatMap_cons] at texts
      obtain ⟨words, more, rfl, first, rest⟩ := List.map_eq_append_iff.mp texts
      obtain ⟨done, complete, read⟩ := feeds_remaining free h _ first
      rw [settle_of_complete complete, Frame.adopt_holding,
        settle_of_incomplete (Frame.isComplete_holding _ _ _)] at read
      -- what has been completed is in the block, which ends with the same word as before
      have same : more.map Token.text =
          completion ⟨frame.holding (before ++ [done]) false :: below⟩ := by
        rw [rest, completion, List.flatMap_cons, List.flatMap_cons, Frame.remaining_holding,
          Frame.remaining_holding]
      obtain ⟨i, later⟩ := ih (.block frame (before ++ [done])) others same
      exact ⟨i, read.trans later⟩

theorem Tidy.feeds_completion (free : registry.isProtected "x" = false) {parser : Parser}
    (h : parser.Tidy) (pending : parser.isIdle = false) {tokens : List Token}
    (texts : tokens.map Token.text = parser.completion) :
    ∃ i, Feeds registry maxDepth (parser, none) tokens ({}, some i) := by
  obtain ⟨_ | ⟨top, below⟩⟩ := parser
  · cases pending
  · exact Parser.feeds_completion free (h.top top rfl) h.below texts

/-- A text of which the words are those that complete what is open. -/
theorem texts_of_completion (parser : Parser) :
    (tokenize (Text.spaced parser.completion)).map Token.text = parser.completion := by
  refine texts_of_spaced fun word among => ?_
  obtain ⟨i, _, among⟩ := List.mem_flatMap.mp among
  exact Instruction.isWord_of_remaining among

/-- A word that is taken in belongs to some statement. -/
theorem Tidy.feed_ok_iff (free : registry.isProtected "x" = false) {parser : Parser}
    (h : parser.Tidy) (token : Token) :
    (∃ result, parser.feed registry maxDepth token = .ok result) ↔
      ∃ more i, Feeds registry maxDepth (parser, none) (token :: more) ({}, some i) := by
  constructor
  · rintro ⟨⟨next, _ | i⟩, fed⟩
    · obtain ⟨tidy, pending⟩ := h.feed fed
      obtain ⟨i, rest⟩ := tidy.feeds_completion free pending (texts_of_completion next)
      exact ⟨_, i, .cons fed rest⟩
    · have idle := (h.feed fed).2
      obtain ⟨stack⟩ := next
      cases List.isEmpty_iff.mp idle
      exact ⟨[], i, .cons fed (.nil _)⟩
  · rintro ⟨more, i, read⟩
    obtain ⟨_, _, next, split, fed, _⟩ := read.next_of_open
    cases split
    exact ⟨next, fed⟩

end Parser

theorem Registry.free_defineAll {registry : Registry} {ds : List Definition}
    (h : primitives.defineAll ds = .ok registry) : registry.isProtected "x" = false := by
  rw [isProtected_defineAll h]
  decide +kernel

namespace Session

theorem isPending_performStatement (session : Session) (text : String) (statement : Instruction)
    (idle : session.parser = {}) :
    (session.performStatement text statement).isPending = false := by
  simp only [performStatement]
  split
  · rw [isPending, idle]
    rfl
  · rfl

/-- A statement that is being read can be completed in one submission. -/
theorem Sound.completes {bindings : Bindings} {done : List Instruction} {session : Session}
    (h : Sound bindings done session) (pending : session.isPending = true) :
    ∃ text statement, session.submit text =
      performStatement text { session with parser := {}, error := none } statement := by
  obtain ⟨tokens, feeds⟩ := h.pending
  have tidy : session.parser.Tidy := Parser.Tidy.feeds Parser.tidy_idle feeds
  obtain ⟨statement, read⟩ := tidy.feeds_completion (Registry.free_defineAll h.registry)
    (by simpa [isPending] using pending) (Parser.texts_of_completion session.parser)
  exact ⟨_, statement, readAll_of_feeds { session with error := none } _ rfl read⟩

/-- No words lead into a dead end. When the parser has read any words without a failure, with
whatever procedures defined, there are words that complete what is open, and a word is refused
if and only if nothing that begins with it does. So a session that waits for the rest of a
statement can be given it, and need not end with a report about a word. -/
theorem no_dead_end :
    (∀ (registry : Registry) (ds : List Definition) (maxDepth : Nat) (tokens : List Token)
        (parser : Parser) (done : List Instruction),
      Registry.primitives.defineAll ds = .ok registry →
      Parser.feedAll registry maxDepth {} tokens = .ok (parser, done) →
      (parser.isIdle = false →
        ∃ more i, Parser.Feeds registry maxDepth (parser, none) more ({}, some i)) ∧
      ∀ token, (∃ fault, parser.feed registry maxDepth token = .error fault) ↔
        ¬ ∃ more i,
          Parser.Feeds registry maxDepth (parser, none) (token :: more) ({}, some i)) ∧
    ∀ (settings : Settings) (turtle : Turtle) (pen : Pen) (bindings : Bindings)
        (texts : List String),
      let session := (initial settings turtle pen bindings).submitAll texts
      session.isPending = true →
      ∃ text, (session.submit text).isPending = false ∧
        ∀ error, (session.submit text).error = some error → error.position = none := by
  constructor
  · intro registry ds maxDepth tokens parser done defined read
    have tidy : parser.Tidy := Parser.tidy_idle.feedAll read
    have free := Registry.free_defineAll defined
    refine ⟨?_, fun token => ?_⟩
    · intro pending
      obtain ⟨i, more⟩ := tidy.feeds_completion free pending (Parser.texts_of_completion parser)
      exact ⟨_, i, more⟩
    · rw [← tidy.feed_ok_iff free token]
      cases parser.feed registry maxDepth token with
      | ok result => simp
      | error fault => simp
  · intro settings turtle pen bindings texts session pending
    obtain ⟨text, statement, result⟩ :=
      (sound_submitAll settings turtle pen bindings texts).completes pending
    refine ⟨text, ?_, ?_⟩
    · rw [result]
      exact isPending_performStatement _ text statement rfl
    · intro error failed
      rw [result, error_performStatement _ text statement rfl] at failed
      obtain ⟨fault, _, rfl⟩ := Option.map_eq_some_iff.mp failed
      rfl

/-- A call that lacks an argument, in a definition that is itself in a loop: nothing can be nested
deeper, and the argument, the end of the definition and that of the loop are still to come. -/
theorem no_dead_end_in_definition :
    let words : List Token := [⟨"repeat", 0, 5⟩, ⟨"2", 7, 7⟩, ⟨"[", 9, 9⟩, ⟨"to", 11, 12⟩,
      ⟨"]x", 14, 15⟩, ⟨":", 17, 17⟩, ⟨"hop", 19, 21⟩, ⟨"5", 23, 23⟩]
    let session := (initial { maxDepth := 3 } {} {} {}).submitAll
      ["to hop :n :m end repeat 2 [ to ]x :", "hop 5"]
    (∃ registry parser done,
      Registry.primitives.defineAll [⟨"hop", ["n", "m"], []⟩] = .ok registry ∧
      Parser.feedAll registry 3 {} words = .ok (parser, done) ∧ parser.depth = 3 ∧
      parser.completion = ["0", "end", "]"] ∧
      (∃ more i, Parser.Feeds registry 3 (parser, none) more ({}, some i)) ∧
      ¬ ∃ more i, Parser.Feeds registry 3 (parser, none) (⟨"end", 25, 27⟩ :: more) ({}, some i)) ∧
    session.isPending = true ∧ ∃ text, (session.submit text).isPending = false := by
  intro words session
  have pending : session.isPending = true := by decide +kernel
  refine ⟨?_, pending, ?_⟩
  · refine ⟨_, _, _, rfl, rfl, rfl, rfl, ?_⟩
    obtain ⟨completable, refused⟩ :=
      no_dead_end.1 _ [⟨"hop", ["n", "m"], []⟩] 3 words _ _ rfl rfl
    exact ⟨completable rfl, (refused _).mp ⟨_, rfl⟩⟩
  · obtain ⟨text, idle, _⟩ := no_dead_end.2 { maxDepth := 3 } {} {} {} _ pending
    exact ⟨text, idle⟩

end Session

end Logo
