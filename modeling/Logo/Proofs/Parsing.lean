import Logo.Proofs.Feeding

/-!
The parser reads exactly the statements of the grammar, and builds the instructions that they
denote. In one direction a statement is followed word by word, with what is open around it as
a parameter; in the other the words that were read are cut into statements, by induction on
how many there are.
-/
namespace Logo

namespace Parser

variable {registry : Registry} {maxDepth : Nat}

/-- Words read one after the other without a failure. Only the last one may complete a
statement. -/
inductive Feeds (registry : Registry) (maxDepth : Nat) :
    Parser × Option Instruction → List Token → Parser × Option Instruction → Prop
  | nil (result : Parser × Option Instruction) : Feeds registry maxDepth result [] result
  | cons {parser : Parser} {token : Token} {next last : Parser × Option Instruction}
      {tokens : List Token}
      (fed : parser.feed registry maxDepth token = .ok next)
      (rest : Feeds registry maxDepth next tokens last) :
      Feeds registry maxDepth (parser, none) (token :: tokens) last

theorem Feeds.trans {a b c : Parser × Option Instruction} {tokens more : List Token}
    (h : Feeds registry maxDepth a tokens b) (h' : Feeds registry maxDepth b more c) :
    Feeds registry maxDepth a (tokens ++ more) c := by
  induction h with
  | nil result => exact h'
  | cons fed rest ih => exact .cons fed (ih h')

/-- The words open and complete the instruction on top of what is open already. -/
def Delivers (registry : Registry) (maxDepth : Nat) (below : List Instruction)
    (tokens : List Token) (i : Instruction) : Prop :=
  ∃ token rest first, tokens = token :: rest ∧ begin registry token = .ok first ∧
    Feeds registry maxDepth (settle first below) rest (settle i below)

/-- The statements of a block go into it one after the other. -/
theorem feeds_parts (frame : Frame) (below : List Instruction)
    {parts : List (List Token × Instruction)} (deep : parts ≠ [] → below.length + 2 ≤ maxDepth)
    (starts : ∀ part ∈ parts, ∀ first ∈ part.1.head?, first.is frame.word = false)
    (complete : ∀ part ∈ parts, part.2.isComplete = true)
    (inner : ∀ part ∈ parts, ∀ before,
      Delivers registry maxDepth (frame.holding before false :: below) part.1 part.2)
    (before : List Instruction) :
    Feeds registry maxDepth (⟨frame.holding before false :: below⟩, none)
      (parts.flatMap Prod.fst)
      (⟨frame.holding (before ++ parts.map Prod.snd) false :: below⟩, none) := by
  induction parts generalizing before with
  | nil =>
      rw [List.map_nil, List.append_nil]
      exact .nil _
  | cons part parts ih =>
      obtain ⟨tokens, i⟩ := part
      obtain ⟨token, words, first, rfl, begun, read⟩ := inner _ List.mem_cons_self before
      have other : token.is frame.word = false := starts _ List.mem_cons_self token rfl
      have taken : (frame.holding before false).accept registry token =
          .ok (.nested (frame.holding before false)) := by
        rw [Frame.accept_holding, other]
        rfl
      have fed : feed registry maxDepth token ⟨frame.holding before false :: below⟩ =
          .ok (settle first (frame.holding before false :: below)) :=
        feed_of_nested (endsEnclosing_of_terminator (frame.terminator_holding before) token below)
          taken (deep (List.cons_ne_nil _ _)) begun
      have adopted : settle i (frame.holding before false :: below) =
          (⟨frame.holding (before ++ [i]) false :: below⟩, none) := by
        rw [settle_of_complete (complete _ List.mem_cons_self), Frame.adopt_holding,
          settle_of_incomplete (Frame.isComplete_holding _ _ _)]
      rw [adopted] at read
      have rest := ih (fun _ => deep (List.cons_ne_nil _ _))
        (fun part h => starts part (List.mem_cons_of_mem _ h))
        (fun part h => complete part (List.mem_cons_of_mem _ h))
        (fun part h => inner part (List.mem_cons_of_mem _ h)) (before ++ [i])
      rw [List.append_assoc] at rest
      exact (Feeds.cons fed read).trans rest

theorem feeds_closing (frame : Frame) (below before : List Instruction) {token : Token}
    (ends : token.is frame.word = true) :
    Feeds registry maxDepth (⟨frame.holding before false :: below⟩, none) [token]
      (settle (frame.holding before true) below) := by
  refine .cons (feed_of_consumed ?_ ?_) (.nil _)
  · exact endsEnclosing_of_terminator (frame.terminator_holding before) token below
  · rw [Frame.accept_holding, if_pos ends]

theorem feeds_arguments (p : Procedure) (below : List Instruction) {words : List Token}
    {values : List Value}
    (h : words.map (fun word => Value.resolve word.text) = values.map .ok) (before : List Value)
    (count : before.length + words.length = p.parameters.length) :
    Feeds registry maxDepth (settle ⟨.procedure p, .call before⟩ below) words
      (settle ⟨.procedure p, .call (before ++ values)⟩ below) := by
  induction words generalizing values before with
  | nil =>
      cases values with
      | nil =>
          rw [List.append_nil]
          exact .nil _
      | cons value values => cases h
  | cons word words ih =>
      cases values with
      | nil => cases h
      | cons value values =>
          obtain ⟨resolved, rest⟩ := List.cons.inj h
          have wanting : Instruction.isComplete ⟨.procedure p, .call before⟩ = false := by
            simp only [List.length_cons] at count
            simp only [Instruction.isComplete, Command.parameters, beq_eq_false_iff_ne]
            omega
          have taken : Instruction.accept registry word ⟨.procedure p, .call before⟩ =
              .ok (.consumed ⟨.procedure p, .call (before ++ [value])⟩) := by
            simp only [Instruction.accept, resolved]
            rfl
          have more := ih rest (before ++ [value]) (by simp at count ⊢; omega)
          rw [List.append_assoc] at more
          rw [settle_of_incomplete wanting]
          exact .cons (feed_of_consumed (endsEnclosing_of_resolve resolved _ below) taken) more

theorem feeds_parameters (name : String) (below : List Instruction) {words : List Token}
    {parameters : List String} (h : words.map Token.parameter? = parameters.map some)
    (before : List String) :
    Feeds registry maxDepth
      (⟨⟨.primitive .define, .define (some name) before none⟩ :: below⟩, none) words
      (⟨⟨.primitive .define, .define (some name) (before ++ parameters.map Text.lowercase) none⟩ ::
        below⟩, none) := by
  induction words generalizing parameters before with
  | nil =>
      cases parameters with
      | nil =>
          rw [List.map_nil, List.append_nil]
          exact .nil _
      | cons parameter parameters => cases h
  | cons word words ih =>
      cases parameters with
      | nil => cases h
      | cons parameter parameters =>
          obtain ⟨declared, rest⟩ := List.cons.inj h
          have more := ih rest (before ++ [Text.lowercase parameter])
          rw [List.append_assoc] at more
          exact .cons (feed_parameter registry maxDepth name before below declared) more

theorem Feeds.opening {name : String} {parameters : List String} {below : List Instruction}
    {tokens : List Token} {last : Parser × Option Instruction}
    (first : ∀ token ∈ tokens.head?, token.parameter? = none) (some : tokens ≠ []) :
    Feeds registry maxDepth
        (⟨⟨.primitive .define, .define (.some name) parameters none⟩ :: below⟩, none) tokens last ↔
      Feeds registry maxDepth
        (⟨(Frame.define name parameters).holding [] false :: below⟩, none) tokens last := by
  cases tokens with
  | nil => exact absurd rfl some
  | cons token tokens =>
      have opened := feed_opening registry maxDepth name parameters below (first token rfl)
      constructor
      · intro h
        cases h with
        | cons fed rest => exact .cons (opened ▸ fed) rest
      · intro h
        cases h with
        | cons fed rest => exact .cons (opened ▸ fed) rest

theorem feeds_bracket (times : Value) (below : List Instruction) {opening : Token}
    (opened : opening.text = "[") :
    Feeds registry maxDepth (⟨⟨.primitive .loop, .loop (some times) none⟩ :: below⟩, none)
      [opening] (⟨(Frame.loop times).holding [] false :: below⟩, none) := by
  have taken : Instruction.accept registry opening ⟨.primitive .loop, .loop times none⟩ =
      .ok (.consumed ((Frame.loop times).holding [] false)) := by
    simp only [Instruction.accept, opened, if_true]
    rfl
  refine .cons (feed_of_consumed (endsEnclosing_of_opening opened _ below) taken) ?_
  rw [settle_of_incomplete rfl]
  exact .nil _

theorem feeds_count (below : List Instruction) {count opening : Token} {times : Value}
    (argument : Value.resolve count.text = .ok times) (opened : opening.text = "[") :
    Feeds registry maxDepth (⟨⟨.primitive .loop, .loop none none⟩ :: below⟩, none)
      [count, opening] (⟨(Frame.loop times).holding [] false :: below⟩, none) := by
  have counted : Instruction.accept registry count ⟨.primitive .loop, .loop none none⟩ =
      .ok (.consumed ⟨.primitive .loop, .loop times none⟩) := by
    simp only [Instruction.accept, argument]
    rfl
  refine .cons (feed_of_consumed (endsEnclosing_of_resolve argument _ below) counted) ?_
  rw [settle_of_incomplete rfl]
  exact feeds_bracket times below opened

theorem feeds_name (below : List Instruction) {name : Token}
    (free : registry.isProtected name.text = false)
    (apart : ∀ word ∈ below.head?.bind Instruction.terminator, name.is word = false) :
    Feeds registry maxDepth (⟨⟨.primitive .define, .define none [] none⟩ :: below⟩, none) [name]
      (⟨⟨.primitive .define, .define (some (Text.lowercase name.text)) [] none⟩ :: below⟩,
        none) := by
  have taken : Instruction.accept registry name ⟨.primitive .define, .define none [] none⟩ =
      .ok (.consumed ⟨.primitive .define, .define (some (Text.lowercase name.text)) [] none⟩) := by
    simp only [Instruction.accept, free, Bool.false_eq_true, if_false]
  refine .cons (feed_of_consumed (endsEnclosing_of_apart apart _) taken) ?_
  rw [settle_of_incomplete rfl]
  exact .nil _

theorem delivers_of_statement {around : Option String} {level : Nat} {tokens : List Token}
    {i : Instruction} (h : Statement registry maxDepth around level tokens i)
    (below : List Instruction) (enclosed : around = below.head?.bind Instruction.terminator)
    (nested : level = below.length + 1) : Delivers registry maxDepth below tokens i := by
  induction h generalizing below with
  | @bare around level token p named kind =>
      refine ⟨token, [], _, rfl, begin_eq_ok.mpr ⟨_, named, rfl⟩, ?_⟩
      rcases kind with rfl | rfl | rfl <;> exact .nil _
  | @single around level token word p value named kind argument =>
      refine ⟨token, [word], _, rfl, begin_eq_ok.mpr ⟨_, named, rfl⟩, ?_⟩
      have started : Instruction.start (.primitive p) = ⟨.primitive p, .single none⟩ := by
        rcases kind with rfl | rfl | rfl | rfl | rfl <;> rfl
      have taken : Instruction.accept registry word ⟨.primitive p, .single none⟩ =
          .ok (.consumed ⟨.primitive p, .single value⟩) := by
        simp only [Instruction.accept, argument]
        rfl
      rw [started, settle_of_incomplete rfl]
      exact .cons (feed_of_consumed (endsEnclosing_of_resolve argument _ below) taken) (.nil _)
  | @loop around level token count opening closing times parts named argument opened deep inner
      starts closed ih =>
      refine ⟨token, _, _, rfl, begin_eq_ok.mpr ⟨_, named, rfl⟩, ?_⟩
      have body := feeds_parts (.loop times) below (fun some => by have := deep some; omega)
        (fun part h first head => by
          rw [Bool.eq_false_iff]
          exact mt Token.is_bracket.mp (starts part h first head))
        (fun part h => (inner part h).isComplete)
        (fun part h before => ih part h _ rfl (by rw [nested]; rfl)) []
      rw [settle_of_incomplete rfl]
      exact (feeds_count below argument opened).trans
        (body.trans (feeds_closing (.loop times) below _ (Token.is_bracket.mpr closed)))
  | @define around level token name closing words parameters parts named free apart declared
      maximal deep inner starts closed ih =>
      refine ⟨token, _, _, rfl, begin_eq_ok.mpr ⟨_, named, rfl⟩, ?_⟩
      have body := feeds_parts (.define (Text.lowercase name.text) (parameters.map Text.lowercase))
        below (fun some => by have := deep some; omega) starts
        (fun part h => (inner part h).isComplete)
        (fun part h before => ih part h _ rfl (by rw [nested]; rfl)) []
      have opening : ∀ first ∈ (parts.flatMap Prod.fst ++ [closing]).head?,
          first.parameter? = none := by
        intro first head
        cases block : parts.flatMap Prod.fst with
        | nil =>
            rw [block] at head
            cases head
            exact Token.parameter?_of_end closed
        | cons word words =>
            rw [block] at head maximal
            exact maximal first head
      rw [enclosed] at apart
      rw [settle_of_incomplete rfl]
      exact (feeds_name below free apart).trans
        ((feeds_parameters _ below declared []).trans
          ((Feeds.opening opening (by simp)).mpr
            (body.trans (feeds_closing (.define _ _) below _ closed))))
  | @call around level token words values p named arguments count =>
      refine ⟨token, words, _, rfl, begin_eq_ok.mpr ⟨_, named, rfl⟩, ?_⟩
      exact feeds_arguments p below arguments [] (by simpa using count)

theorem Feeds.next_of_open {parser last : Parser} {tokens : List Token} {j : Instruction}
    (h : Feeds registry maxDepth (parser, none) tokens (last, some j)) :
    ∃ token rest next, tokens = token :: rest ∧
      parser.feed registry maxDepth token = .ok next ∧
      Feeds registry maxDepth next rest (last, some j) := by
  cases h with
  | cons fed rest => exact ⟨_, _, _, rfl, fed, rest⟩

/-- The statement that begins with the word is completed by the first ones of the words after
it, and the others are read once it has taken its place. -/
def Splits (registry : Registry) (maxDepth : Nat) (below : List Instruction) (token : Token)
    (rest : List Token) (last : Parser × Option Instruction) : Prop :=
  ∃ words more i, rest = words ++ more ∧
    Statement registry maxDepth (below.head?.bind Instruction.terminator) (below.length + 1)
      (token :: words) i ∧
    Feeds registry maxDepth (settle i below) more last

/-- Every statement that is begun with fewer than `bound` words left splits them. -/
def SplitsWithin (registry : Registry) (maxDepth bound : Nat)
    (last : Parser × Option Instruction) : Prop :=
  ∀ (rest : List Token) (below : List Instruction) (token : Token) (first : Instruction),
    rest.length < bound → begin registry token = .ok first →
    Feeds registry maxDepth (settle first below) rest last →
    Splits registry maxDepth below token rest last

/-- In a block, statements follow one another up to the word that ends it. -/
theorem Feeds.parts {bound : Nat} {last : Parser} {j : Instruction}
    (splits : SplitsWithin registry maxDepth bound (last, some j))
    (frame : Frame) (below before : List Instruction) (tokens : List Token)
    (short : tokens.length ≤ bound)
    (h : Feeds registry maxDepth (⟨frame.holding before false :: below⟩, none) tokens
      (last, some j)) :
    ∃ (parts : List (List Token × Instruction)) (closing : Token) (more : List Token),
      tokens = parts.flatMap Prod.fst ++ closing :: more ∧
      (parts ≠ [] → below.length + 2 ≤ maxDepth) ∧
      (∀ part ∈ parts,
        Statement registry maxDepth (some frame.word) (below.length + 2) part.1 part.2) ∧
      (∀ part ∈ parts, ∀ first ∈ part.1.head?, first.is frame.word = false) ∧
      closing.is frame.word = true ∧
      Feeds registry maxDepth (settle (frame.holding (before ++ parts.map Prod.snd) true) below)
        more (last, some j) := by
  obtain ⟨token, rest, next, rfl, fed, read⟩ := h.next_of_open
  obtain ⟨_, ⟨done, taken, rfl⟩ | ⟨held, first, taken, deep, begun, rfl⟩⟩ := feed_cases fed
  · rw [Frame.accept_holding] at taken
    split at taken
    · next ends =>
        cases taken
        exact ⟨[], token, rest, rfl, by simp, by simp, by simp, ends, by simpa using read⟩
    · cases taken
  · rw [Frame.accept_holding] at taken
    split at taken
    · cases taken
    · next other =>
        cases taken
        obtain ⟨words, more, i, rfl, statement, read⟩ :=
          splits rest _ token first short begun read
        rw [settle_of_complete statement.isComplete, Frame.adopt_holding,
          settle_of_incomplete (Frame.isComplete_holding _ _ _)] at read
        rw [List.head?_cons, Option.bind_some, Frame.terminator_holding] at statement
        have shorter : more.length ≤ bound := by
          simp only [List.length_cons, List.length_append] at short
          omega
        obtain ⟨parts, closing, rest, rfl, _, inner, starts, ends, read⟩ :=
          Feeds.parts splits frame below (before ++ [i]) more shorter read
        refine ⟨(token :: words, i) :: parts, closing, rest, by simp, fun _ => deep, ?_, ?_, ends,
          by simpa using read⟩
        · intro part h
          rcases List.mem_cons.mp h with rfl | h
          · exact statement
          · exact inner part h
        · intro part h
          rcases List.mem_cons.mp h with rfl | h
          · intro first head
            cases head
            simpa using other
          · exact starts part h
termination_by tokens.length

theorem value_of_taken {word : String} {build : Value → Step} {step : Step}
    (h : (do let value ← Value.resolve word; return build value) = Except.ok step) :
    ∃ value, Value.resolve word = .ok value ∧ step = build value := by
  cases resolved : Value.resolve word with
  | error fault =>
      rw [resolved] at h
      cases h
  | ok value =>
      rw [resolved] at h
      exact ⟨value, rfl, (Except.ok.inj h).symm⟩

theorem Feeds.value {top : Instruction} {below : List Instruction} {tokens : List Token}
    {last : Parser} {j : Instruction}
    (h : Feeds registry maxDepth (⟨top :: below⟩, none) tokens (last, some j))
    (build : Value → Instruction)
    (taken : ∀ token, top.accept registry token =
      do let value ← Value.resolve token.text; return .consumed (build value)) :
    ∃ token rest value, tokens = token :: rest ∧ Value.resolve token.text = .ok value ∧
      Feeds registry maxDepth (settle (build value) below) rest (last, some j) := by
  obtain ⟨token, rest, next, rfl, fed, read⟩ := h.next_of_open
  obtain ⟨_, ⟨done, took, rfl⟩ | ⟨held, first, took, _⟩⟩ := feed_cases fed
  · rw [taken] at took
    obtain ⟨value, resolved, same⟩ := value_of_taken took
    cases same
    exact ⟨token, rest, value, rfl, resolved, read⟩
  · rw [taken] at took
    obtain ⟨_, _, same⟩ := value_of_taken took
    cases same

theorem Feeds.arguments {p : Procedure} {below : List Instruction} {tokens : List Token}
    {last : Parser} {j : Instruction} (before : List Value)
    (room : before.length ≤ p.parameters.length)
    (h : Feeds registry maxDepth (settle ⟨.procedure p, .call before⟩ below) tokens
      (last, some j)) :
    ∃ (words more : List Token) (values : List Value), tokens = words ++ more ∧
      words.map (fun word => Value.resolve word.text) = values.map .ok ∧
      before.length + words.length = p.parameters.length ∧
      Feeds registry maxDepth (settle ⟨.procedure p, .call (before ++ values)⟩ below) more
        (last, some j) := by
  by_cases full : before.length = p.parameters.length
  · exact ⟨[], tokens, [], rfl, rfl, full, by rwa [List.append_nil]⟩
  · have wanting : Instruction.isComplete ⟨.procedure p, .call before⟩ = false := by
      simpa only [Instruction.isComplete, Command.parameters, beq_eq_false_iff_ne] using full
    rw [settle_of_incomplete wanting] at h
    obtain ⟨word, rest, value, rfl, resolved, read⟩ :=
      h.value (fun value => ⟨.procedure p, .call (before ++ [value])⟩) (fun _ => rfl)
    obtain ⟨words, more, values, rfl, arguments, count, read⟩ :=
      Feeds.arguments (before ++ [value]) (by simp; omega) read
    refine ⟨word :: words, more, value :: values, rfl, ?_, ?_, ?_⟩
    · rw [List.map_cons, List.map_cons, resolved, arguments]
    · simp only [List.length_append, List.length_cons, List.length_nil] at count ⊢
      omega
    · rwa [List.append_assoc] at read
termination_by tokens.length

/-- Parameters are declared up to the word that opens the body. -/
theorem Feeds.parameters {name : String} {below : List Instruction} {tokens : List Token}
    {last : Parser} {j : Instruction} (before : List String)
    (h : Feeds registry maxDepth
      (⟨⟨.primitive .define, .define (some name) before none⟩ :: below⟩, none) tokens
      (last, some j)) :
    ∃ (words more : List Token) (parameters : List String), tokens = words ++ more ∧
      words.map Token.parameter? = parameters.map some ∧
      (∀ first ∈ more.head?, first.parameter? = none) ∧
      Feeds registry maxDepth
        (⟨(Frame.define name (before ++ parameters.map Text.lowercase)).holding [] false ::
          below⟩, none) more (last, some j) := by
  induction tokens generalizing before with
  | nil => cases h
  | cons token tokens ih =>
      cases declared : token.parameter? with
      | none =>
          have opening : ∀ first ∈ (token :: tokens).head?, first.parameter? = none := by
            intro first head
            cases head
            exact declared
          refine ⟨[], token :: tokens, [], rfl, rfl, opening, ?_⟩
          rw [List.map_nil, List.append_nil]
          exact (Feeds.opening opening (List.cons_ne_nil _ _)).mp h
      | some parameter =>
          cases h with
          | cons fed rest =>
              rw [feed_parameter registry maxDepth name before below declared] at fed
              cases fed
              obtain ⟨words, more, parameters, rfl, declares, opening, read⟩ := ih _ rest
              refine ⟨token :: words, more, parameter :: parameters, rfl, ?_, opening, ?_⟩
              · rw [List.map_cons, List.map_cons, declared, declares]
              · rwa [List.append_assoc] at read

theorem Feeds.loop {below : List Instruction} {token : Token} {rest : List Token} {last : Parser}
    {j : Instruction} (splits : SplitsWithin registry maxDepth rest.length (last, some j))
    (named : registry.lookup token.text = some (.primitive .loop))
    (h : Feeds registry maxDepth (⟨⟨.primitive .loop, .loop none none⟩ :: below⟩, none) rest
      (last, some j)) : Splits registry maxDepth below token rest (last, some j) := by
  obtain ⟨count, rest, times, rfl, argument, read⟩ :=
    h.value (fun times => ⟨.primitive .loop, .loop (some times) none⟩) (fun _ => rfl)
  rw [settle_of_incomplete rfl] at read
  obtain ⟨opening, rest, next, rfl, fed, read⟩ := read.next_of_open
  have taken : Instruction.accept registry opening ⟨.primitive .loop, .loop (some times) none⟩ =
      if opening.text = "[" then .ok (.consumed ((Frame.loop times).holding [] false))
      else .error (.expectedBlock opening.text) := rfl
  by_cases opened : opening.text = "["
  · rw [if_pos opened] at taken
    rw [feed_of_consumed (endsEnclosing_of_opening opened _ below) taken,
      settle_of_incomplete (Frame.isComplete_holding _ _ _)] at fed
    cases fed
    obtain ⟨parts, closing, more, rfl, deep, inner, starts, closed, read⟩ :=
      Feeds.parts splits (.loop times) below [] rest (by simp; omega) read
    refine ⟨count :: opening :: (parts.flatMap Prod.fst ++ [closing]), more, _, by simp, ?_, read⟩
    refine .loop named argument opened deep inner ?_ (Token.is_bracket.mp closed)
    intro part h first head
    exact mt Token.is_bracket.mpr (Bool.eq_false_iff.mp (starts part h first head))
  · rw [if_neg opened] at taken
    obtain ⟨_, ⟨_, took, _⟩ | ⟨_, _, took, _⟩⟩ := feed_cases fed
    · rw [taken] at took
      cases took
    · rw [taken] at took
      cases took

/-- A name is refused if it is protected, or if it ends the block around the definition. -/
theorem Feeds.name {below : List Instruction} {tokens : List Token} {last : Parser}
    {j : Instruction}
    (h : Feeds registry maxDepth (⟨⟨.primitive .define, .define none [] none⟩ :: below⟩, none)
      tokens (last, some j)) :
    ∃ name rest, tokens = name :: rest ∧ registry.isProtected name.text = false ∧
      (∀ word ∈ below.head?.bind Instruction.terminator, name.is word = false) ∧
      Feeds registry maxDepth
        (⟨⟨.primitive .define, .define (some (Text.lowercase name.text)) [] none⟩ :: below⟩, none)
        rest (last, some j) := by
  obtain ⟨name, rest, next, rfl, fed, read⟩ := h.next_of_open
  obtain ⟨apart, outcome⟩ := feed_cases fed
  have taken : Instruction.accept registry name ⟨.primitive .define, .define none [] none⟩ =
      if registry.isProtected name.text then .error (.protectedName (Text.lowercase name.text))
      else .ok (.consumed ⟨.primitive .define,
        .define (some (Text.lowercase name.text)) [] none⟩) := rfl
  by_cases free : registry.isProtected name.text = true
  · rw [if_pos free] at taken
    rw [taken] at outcome
    obtain ⟨_, took, _⟩ | ⟨_, _, took, _⟩ := outcome <;> cases took
  · rw [if_neg free] at taken
    rw [taken] at outcome
    obtain ⟨_, took, rfl⟩ | ⟨_, _, took, _⟩ := outcome <;> cases took
    rw [settle_of_incomplete rfl] at read
    refine ⟨name, rest, rfl, by simpa using free, ?_, read⟩
    intro word around
    simpa [endsEnclosing, Instruction.terminator, Option.mem_def.mp around] using apart

theorem Feeds.define {below : List Instruction} {token : Token} {rest : List Token}
    {last : Parser} {j : Instruction}
    (splits : SplitsWithin registry maxDepth rest.length (last, some j))
    (named : registry.lookup token.text = some (.primitive .define))
    (h : Feeds registry maxDepth (⟨⟨.primitive .define, .define none [] none⟩ :: below⟩, none)
      rest (last, some j)) : Splits registry maxDepth below token rest (last, some j) := by
  obtain ⟨name, rest, rfl, free, apart, read⟩ := h.name
  obtain ⟨words, rest, parameters, rfl, declared, opening, read⟩ := Feeds.parameters [] read
  obtain ⟨parts, closing, more, rfl, deep, inner, starts, closed, read⟩ :=
    Feeds.parts splits (.define _ _) below [] rest (by simp; omega) read
  refine ⟨name :: (words ++ (parts.flatMap Prod.fst ++ [closing])), more, _, by simp, ?_, read⟩
  refine .define named free apart declared ?_ deep inner starts closed
  intro first head
  apply opening
  rw [List.head?_append, Option.mem_def.mp head]
  rfl

/-- What is begun in a run that completes a statement is itself a statement. -/
theorem Feeds.splits {last : Parser} {j : Instruction} (rest : List Token)
    (below : List Instruction) (token : Token) (first : Instruction)
    (begun : begin registry token = .ok first)
    (h : Feeds registry maxDepth (settle first below) rest (last, some j)) :
    Splits registry maxDepth below token rest (last, some j) := by
  obtain ⟨command, named, rfl⟩ := begin_eq_ok.mp begun
  have within : SplitsWithin registry maxDepth rest.length (last, some j) :=
    fun shorter below token first _ begun h => Feeds.splits shorter below token first begun h
  cases command with
  | procedure p =>
      obtain ⟨words, more, values, rfl, arguments, count, read⟩ :=
        Feeds.arguments [] (Nat.zero_le _) h
      exact ⟨words, more, _, rfl, .call named arguments (by simpa using count), read⟩
  | primitive p =>
      have bare (kind : p = .penUp ∨ p = .penDown ∨ p = .clearScreen)
          (h : Feeds registry maxDepth (settle ⟨.primitive p, .ready⟩ below) rest
            (last, some j)) : Splits registry maxDepth below token rest (last, some j) :=
        ⟨[], rest, _, rfl, .bare named kind, h⟩
      have single
          (kind : p = .forward ∨ p = .backward ∨ p = .left ∨ p = .right ∨ p = .wait)
          (h : Feeds registry maxDepth (settle ⟨.primitive p, .single none⟩ below) rest
            (last, some j)) : Splits registry maxDepth below token rest (last, some j) := by
        rw [settle_of_incomplete rfl] at h
        obtain ⟨word, rest, value, rfl, argument, read⟩ :=
          h.value (fun value => ⟨.primitive p, .single (some value)⟩) (fun _ => rfl)
        exact ⟨[word], rest, _, rfl, .single named kind argument, read⟩
      cases p with
      | penUp => exact bare (by simp) h
      | penDown => exact bare (by simp) h
      | clearScreen => exact bare (by simp) h
      | forward => exact single (by simp) h
      | backward => exact single (by simp) h
      | left => exact single (by simp) h
      | right => exact single (by simp) h
      | wait => exact single (by simp) h
      | loop =>
          rw [settle_of_incomplete rfl] at h
          exact Feeds.loop within named h
      | define =>
          rw [settle_of_incomplete rfl] at h
          exact Feeds.define within named h
termination_by rest.length

/-- The parser reads exactly the statements of the grammar, without a failure and up to their
last word, and builds the instruction that the grammar gives them. -/
theorem feeds_iff_statement (registry : Registry) (maxDepth : Nat) (tokens : List Token)
    (i : Instruction) :
    (∃ next, Feeds registry maxDepth ({}, none) tokens (next, some i)) ↔
      Statement registry maxDepth none 1 tokens i := by
  constructor
  · rintro ⟨next, h⟩
    obtain ⟨token, rest, result, rfl, fed, read⟩ := h.next_of_open
    obtain ⟨first, begun, rfl⟩ := feed_idle.mp fed
    obtain ⟨words, more, j, rfl, statement, done⟩ := Feeds.splits rest [] token first begun read
    rw [settle_last statement.isComplete] at done
    cases done
    rw [List.append_nil]
    exact statement
  · intro h
    obtain ⟨token, rest, first, rfl, begun, read⟩ := delivers_of_statement h [] rfl rfl
    rw [settle_last h.isComplete] at read
    exact ⟨⟨[]⟩, .cons (feed_idle.mpr ⟨first, begun, rfl⟩) read⟩

end Parser

end Logo
