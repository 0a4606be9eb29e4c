import Logo.Proofs.Numerals
import Logo.Proofs.Stacking

/-!
Declaring a parameter and referring to it. A definition takes its parameters from the words
that follow its name, and the same words refer to them in its body, but for a colon alone: it
declares a parameter without a name, to which no word refers. In a call every parameter has
the value of the argument at the last place where it is declared.
-/
namespace Logo

/-- The first instruction is the second one or stands in its block, however far down. -/
inductive Instruction.Within : Instruction → Instruction → Prop
  | self (i : Instruction) : Within i i
  | inner {i j whole : Instruction} {block : Block} (held : whole.block? = some block)
      (among : j ∈ block.instructions) (inside : Within i j) : Within i whole

namespace Token

/-- The word declares the parameter. -/
def Declares (token : Token) (parameter : String) : Prop :=
  ∃ spelled, token.parameter? = some spelled ∧ parameter = Text.lowercase spelled

theorem text_of_parameter? {token : Token} {spelled : String}
    (h : token.parameter? = some spelled) : token.text = ":" ++ spelled := by
  unfold parameter? at h
  split at h
  · next name text =>
      cases h
      rw [← String.toList_inj, text]
      simp
  · cases h

/-- What a word declares it refers to, unless it is a colon alone. -/
theorem Declares.resolve {token : Token} {parameter : String} (h : token.Declares parameter) :
    if token.text = ":" then
      parameter = "" ∧ Value.resolve token.text = .error .notAnInteger
    else Value.resolve token.text = .ok (.parameter parameter) := by
  obtain ⟨spelled, declares, rfl⟩ := h
  have text := text_of_parameter? declares
  split
  · next colon =>
      have empty : spelled = "" := by
        rw [colon] at text
        simpa using congrArg String.toList text
      rw [colon, empty]
      exact ⟨by decide +kernel, by decide +kernel⟩
  · next more =>
      refine Value.resolve_eq_parameter_iff.mpr ⟨spelled, ?_, text, rfl⟩
      rintro rfl
      exact more text

end Token

/-- Somewhere in the text a name is followed by words that declare the parameters one after the
other, and then by a word that declares none. -/
def Declared (name : String) (parameters : List String) (tokens : List Token) : Prop :=
  ∃ before first named words next after,
    tokens = before ++ first :: named :: (words ++ next :: after) ∧
      name = Text.lowercase named.text ∧ words.length = parameters.length ∧
      (∀ word p, (word, p) ∈ words.zip parameters → word.Declares p) ∧ next.parameter? = none

theorem Declared.among {name : String} {parameters : List String}
    {parts : List (List Token × Instruction)} {part : List Token × Instruction}
    (h : Declared name parameters part.1) (among : part ∈ parts) (before after : List Token) :
    Declared name parameters (before ++ (parts.flatMap Prod.fst ++ after)) := by
  obtain ⟨front, first, named, words, next, back, split, rest⟩ := h
  obtain ⟨earlier, later, rfl⟩ := List.append_of_mem among
  refine ⟨before ++ earlier.flatMap Prod.fst ++ front, first, named, words, next,
    back ++ later.flatMap Prod.fst ++ after, ?_, rest⟩
  simp [split]

theorem declares_of_mem_zip {words : List Token} {names : List String}
    (h : words.map Token.parameter? = names.map some) {word : Token} {p : String}
    (among : (word, p) ∈ words.zip (names.map Text.lowercase)) : word.Declares p := by
  obtain ⟨k, found⟩ := List.mem_iff_getElem?.mp among
  obtain ⟨held, stored⟩ := List.getElem?_zip_eq_some.mp found
  rw [List.getElem?_map] at stored
  obtain ⟨spelled, name, same⟩ := Option.map_eq_some_iff.mp stored
  have both := congrArg (·[k]?) h
  simp only [List.getElem?_map, held, name, Option.map_some, Option.some.injEq] at both
  exact ⟨spelled, both, same.symm⟩

/-- The definitions in a statement have the parameters that the words behind their names
declare. -/
theorem Statement.declared {registry : Registry} {maxDepth : Nat} {around : Option String}
    {level : Nat} {tokens : List Token} {i : Instruction}
    (h : Statement registry maxDepth around level tokens i) {command : Command} {name : String}
    {parameters : List String} {body : Option Block}
    (within : Instruction.Within ⟨command, .define (some name) parameters body⟩ i) :
    Declared name parameters tokens := by
  induction h with
  | bare _ _ | single _ _ _ | call _ _ _ =>
      cases within with
      | inner held _ _ => cases held
  | @loop around level token count opening closing times parts _ _ _ _ _ _ _ ih =>
      cases within with
      | inner held among inside =>
          cases held
          obtain ⟨part, inBlock, rfl⟩ := List.mem_map.mp among
          exact (ih part inBlock inside).among inBlock [token, count, opening] [closing]
  | @define around level token name closing words names parts _ _ _ declared maximal _ _ _ closed
      ih =>
      cases within with
      | self =>
          have count : words.length = (names.map Text.lowercase).length := by
            simpa using congrArg List.length declared
          have each : ∀ word p, (word, p) ∈ words.zip (names.map Text.lowercase) →
              word.Declares p := fun _ _ among => declares_of_mem_zip declared among
          cases opening : parts.flatMap Prod.fst with
          | nil =>
              exact ⟨[], token, name, words, closing, [], rfl, rfl, count, each,
                Token.parameter?_of_end closed⟩
          | cons next rest =>
              exact ⟨[], token, name, words, next, rest ++ [closing], rfl, rfl, count, each,
                maximal next (by rw [opening]; rfl)⟩
      | inner held among inside =>
          cases held
          obtain ⟨part, inBlock, rfl⟩ := List.mem_map.mp among
          have found := (ih part inBlock inside).among inBlock (token :: name :: words) [closing]
          simpa using found

/-- Of the arguments for one parameter that is declared more than once the last one counts. -/
theorem get_parameter {before after : List String} {p : String} {values : List Int64}
    (last : p ∉ after) (count : values.length = (before ++ p :: after).length) :
    ∃ n, values[before.length]? = some n ∧
      (Value.parameter p).get (.ofList ((before ++ p :: after).zip values)) = .ok n := by
  have split : values = values.take before.length ++ values.drop before.length :=
    (List.take_append_drop _ _).symm
  have front : before.length = (values.take before.length).length := by
    rw [List.length_take]
    simp only [List.length_append] at count
    omega
  cases back : values.drop before.length with
  | nil =>
      have short := congrArg List.length back
      simp only [List.length_drop, List.length_nil] at short
      simp only [List.length_append, List.length_cons] at count
      omega
  | cons n rest =>
      have unbound : (after.zip rest).reverse.lookup p = none := by
        rw [List.lookup_eq_none_iff]
        intro entry among
        have inside := (List.of_mem_zip (List.mem_reverse.mp among)).1
        simpa using fun same : p = entry.1 => last (same ▸ inside)
      refine ⟨n, ?_, ?_⟩
      · rw [← Nat.add_zero before.length, ← List.getElem?_drop, back]
        rfl
      · rw [split, back, List.zip_append front, List.zip_cons_cons]
        simp [Value.get, Dictionary.get?_ofList, List.lookup_append, unbound]

theorem mapM_zip_get {parameters : List String} {arguments : List Value} {values : List Int64}
    {bindings : Bindings} (bound : arguments.map (·.get bindings) = values.map .ok) :
    (parameters.zip arguments).mapM (fun entry => (entry.2.get bindings).map (entry.1, ·)) =
      .ok (parameters.zip values) := by
  induction parameters generalizing arguments values with
  | nil => rfl
  | cons p parameters ih =>
      cases arguments with
      | nil =>
          cases values with
          | nil => rfl
          | cons _ _ => cases bound
      | cons argument arguments =>
          cases values with
          | nil => cases bound
          | cons n values =>
              obtain ⟨first, others⟩ := List.cons.inj bound
              simp only [List.zip_cons_cons, List.mapM_cons, first, ih others]
              rfl

theorem act_call {settings : Settings} {q : Procedure} {arguments : List Value} {run : Run}
    {values : List Int64} (bound : arguments.map (·.get run.world.bindings) = values.map .ok) :
    Instruction.act settings ⟨.procedure q, .call arguments⟩ run =
      Action.inScope (.ofList (q.parameters.zip values)) (performEach settings q.body) run := by
  rw [Instruction.act, Action.bind_apply, Action.evaluateEach_apply, mapM_zip_get bound]

/-- In a definition that the parser completes, however far down in a statement, every word that
declares a parameter also refers to it, but for a colon alone, which declares a parameter
without a name and refers to nothing. In a call of the procedure that the definition makes,
exactly its parameters are in scope, and each has the value of the argument at the last place
where it is declared. -/
theorem declared_parameters (registry : Registry) (maxDepth : Nat) (tokens : List Token)
    (last : Parser) (statement : Instruction)
    (read : Parser.Feeds registry maxDepth ({}, none) tokens (last, some statement))
    (command : Command) (name : String) (parameters : List String) (block : Block)
    (within : Instruction.Within ⟨command, .define (some name) parameters (some block)⟩
      statement) :
    (∃ before first named words next after,
      tokens = before ++ first :: named :: (words ++ next :: after) ∧
      name = Text.lowercase named.text ∧ next.parameter? = none ∧
      words.length = parameters.length ∧
      ∀ word p, (word, p) ∈ words.zip parameters →
        if word.text = ":" then p = "" ∧ Value.resolve word.text = .error .notAnInteger
        else Value.resolve word.text = .ok (.parameter p)) ∧
    ∀ known later : Registry, known.define name parameters block.instructions = .ok later →
      ∃ q : Procedure, later.lookup name = some (.procedure q) ∧ q.parameters = parameters ∧
        q.body = block.instructions ∧
        ∀ (settings : Settings) (run : Run) (arguments : List Value) (values : List Int64),
          arguments.length = parameters.length →
          arguments.map (·.get run.world.bindings) = values.map .ok →
          let scope : Bindings := .ofList (parameters.zip values)
          Instruction.act settings ⟨.procedure q, .call arguments⟩ run =
            Action.inScope scope (performEach settings q.body) run ∧
          ∀ p ∈ parameters, ∃ before after n, parameters = before ++ p :: after ∧ p ∉ after ∧
            values[before.length]? = some n ∧ (Value.parameter p).get scope = .ok n := by
  constructor
  · obtain ⟨before, first, named, words, next, after, split, same, count, each, opens⟩ :=
      (Parser.statement_of_feeds read).1.declared within
    exact ⟨before, first, named, words, next, after, split, same, opens, count,
      fun word p among => (each word p among).resolve⟩
  · intro known later defined
    have found := Registry.lookup_define defined name
    rw [if_pos rfl] at found
    refine ⟨_, found, rfl, rfl, ?_⟩
    intro settings run arguments values right bound scope
    refine ⟨act_call bound, ?_⟩
    intro p among
    obtain ⟨after, before, split, apart⟩ :=
      List.eq_append_cons_of_mem (List.mem_reverse.mpr among)
    have parts : parameters = before.reverse ++ p :: after.reverse := by
      rw [← List.reverse_reverse parameters, split]
      simp
    have count : values.length = parameters.length := by
      rw [← right]
      simpa using (congrArg List.length bound).symm
    have last : p ∉ after.reverse := mt List.mem_reverse.mp apart
    rw [parts] at count
    obtain ⟨n, value, evaluated⟩ := get_parameter last count
    rw [← parts] at evaluated
    exact ⟨before.reverse, after.reverse, n, parts, last, value, evaluated⟩

/-- A definition in a loop declares one parameter twice, in two spellings, with a colon between
them. In a call with 7, 8 and 9 its value is 9. -/
theorem declared_parameters_twice :
    let body : Block := ⟨[⟨.primitive .forward, .single (some (.parameter "x"))⟩], true⟩
    let definition : Instruction :=
      ⟨.primitive .define, .define (some "f") ["x", "", "x"] (some body)⟩
    let statement : Instruction :=
      ⟨.primitive .loop, .loop (some (.constant 1)) (some ⟨[definition], true⟩)⟩
    let tokens : List Token := [⟨"repeat", 0, 5⟩, ⟨"1", 7, 7⟩, ⟨"[", 9, 9⟩, ⟨"to", 11, 12⟩,
      ⟨"F", 14, 14⟩, ⟨":X", 16, 17⟩, ⟨":", 19, 19⟩, ⟨":x", 21, 22⟩, ⟨"fd", 24, 25⟩, ⟨":X", 27, 28⟩,
      ⟨"end", 30, 32⟩, ⟨"]", 34, 34⟩]
    let scope : Bindings := .ofList (["x", "", "x"].zip [7, 8, 9])
    Parser.Feeds .primitives 3 ({}, none) tokens ({}, some statement) ∧
      definition.Within statement ∧
      (∃ words : List Token, words.length = 3 ∧
        ∀ word p, (word, p) ∈ words.zip ["x", "", "x"] →
          if word.text = ":" then p = "" ∧ Value.resolve word.text = .error .notAnInteger
          else Value.resolve word.text = .ok (.parameter p)) ∧
      (∃ before after n, ["x", "", "x"] = before ++ "x" :: after ∧ "x" ∉ after ∧
        [7, 8, 9][before.length]? = some n ∧ (Value.parameter "x").get scope = .ok n) ∧
      (Value.parameter "x").get scope = .ok 9 := by
  intro body definition statement tokens scope
  have read : Parser.Feeds .primitives 3 ({}, none) tokens ({}, some statement) :=
    .cons rfl (.cons rfl (.cons rfl (.cons rfl (.cons rfl (.cons rfl (.cons rfl (.cons rfl
      (.cons rfl (.cons rfl (.cons rfl (.cons rfl (.nil _))))))))))))
  have within : definition.Within statement := .inner rfl List.mem_cons_self (.self definition)
  obtain ⟨⟨_, _, _, words, _, _, _, _, _, count, each⟩, made⟩ :=
    declared_parameters _ _ _ _ _ read _ _ _ _ within
  obtain ⟨q, _, _, _, called⟩ := made .primitives _ rfl
  obtain ⟨_, bound⟩ :=
    called {} { world := {} } [.constant 7, .constant 8, .constant 9] [7, 8, 9] rfl rfl
  exact ⟨read, within, ⟨words, count, each⟩, bound "x" List.mem_cons_self, by decide +kernel⟩

/-- A colon is taken as the declaration of a parameter, in a definition that is completed, and is
not taken as a reference to it in the body. -/
theorem colon_refers_to_nothing :
    let named : Instruction := ⟨.primitive .define, .define (some "f") [] none⟩
    let declared : Instruction := ⟨.primitive .define, .define (some "f") [""] none⟩
    Parser.feed .primitives 200 ⟨":", 5, 5⟩ ⟨[named]⟩ = .ok (⟨[declared]⟩, none) ∧
      Parser.Feeds .primitives 200 ({}, none) (tokenize "to f : end")
        ({}, some ⟨.primitive .define, .define (some "f") [""] (some ⟨[], true⟩)⟩) ∧
      Value.resolve ":" = .error .notAnInteger ∧
      (Session.submit {} "to f : fd : end").error =
        some ⟨.notAnInteger, some ⟨10, 10⟩, some "to f : fd : end"⟩ := by
  intro named declared
  refine ⟨rfl, ?_, by decide +kernel, by decide +kernel⟩
  have words : tokenize "to f : end" =
      [⟨"to", 0, 1⟩, ⟨"f", 3, 3⟩, ⟨":", 5, 5⟩, ⟨"end", 7, 9⟩] := by decide +kernel
  rw [words]
  exact .cons rfl (.cons rfl (.cons rfl (.cons rfl (.nil _))))

end Logo
