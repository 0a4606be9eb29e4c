import Logo.Proofs.Grammar

/-!
One word and the stack of open instructions: what the parser makes of a word that an open
instruction takes in, of one that begins a statement in a block, and of one that it refuses. A
definition is special in that its body is opened by the first word that stands in it.
-/
namespace Logo

namespace Parser

variable {registry : Registry} {maxDepth : Nat}

theorem settle_of_incomplete {top : Instruction} (h : top.isComplete = false)
    (below : List Instruction) : settle top below = (⟨top :: below⟩, none) := by
  cases below <;> simp only [settle, h, Bool.false_eq_true, if_false]

theorem settle_of_complete {top : Instruction} (h : top.isComplete = true)
    (parent : Instruction) (below : List Instruction) :
    settle top (parent :: below) = settle (parent.adopt top) below := by
  simp only [settle, h, if_true]

theorem settle_last {top : Instruction} (h : top.isComplete = true) :
    settle top [] = (⟨[]⟩, some top) := by
  simp only [settle, h, if_true]

theorem begin_eq_ok {token : Token} {first : Instruction} :
    begin registry token = .ok first ↔
      ∃ command, registry.lookup token.text = some command ∧ first = .start command := by
  unfold begin
  cases registry.lookup token.text with
  | none => simp
  | some command => simp [eq_comm]

theorem endsEnclosing_of_terminator {top : Instruction} {word : String}
    (h : top.terminator = some word) (token : Token) (below : List Instruction) :
    endsEnclosing token top below = false := by
  simp only [endsEnclosing, h, Option.isNone_some, Bool.false_and]

theorem endsEnclosing_of_apart {token : Token} {below : List Instruction}
    (h : ∀ word ∈ below.head?.bind Instruction.terminator, token.is word = false)
    (top : Instruction) : endsEnclosing token top below = false := by
  cases around : below.head?.bind Instruction.terminator with
  | none => simp [endsEnclosing, around]
  | some word => simp [endsEnclosing, around, h word around]

theorem endsEnclosing_of_resolve {token : Token} {value : Value}
    (h : Value.resolve token.text = .ok value) (top : Instruction) (below : List Instruction) :
    endsEnclosing token top below = false := by
  refine endsEnclosing_of_apart (fun word around => ?_) top
  obtain ⟨parent, _, ends⟩ := Option.bind_eq_some_iff.mp around
  exact Token.is_of_resolve h (Instruction.terminator_cases ends)

theorem endsEnclosing_of_opening {token : Token} (h : token.text = "[") (top : Instruction)
    (below : List Instruction) : endsEnclosing token top below = false := by
  refine endsEnclosing_of_apart (fun word around => ?_) top
  obtain ⟨parent, _, ends⟩ := Option.bind_eq_some_iff.mp around
  rcases Instruction.terminator_cases ends with rfl | rfl <;> rw [Token.is, h] <;> rfl

theorem feed_idle {token : Token} {result : Parser × Option Instruction} :
    feed registry maxDepth token {} = .ok result ↔
      ∃ first, begin registry token = .ok first ∧ result = settle first [] := by
  cases begun : begin registry token with
  | error fault => simp [feed, begun, bind, Except.bind]
  | ok first => simp [feed, begun, bind, Except.bind, pure, Except.pure, eq_comm]

theorem feed_open (registry : Registry) (maxDepth : Nat) (token : Token) (top : Instruction)
    (below : List Instruction) :
    feed registry maxDepth token ⟨top :: below⟩ =
      if endsEnclosing token top below then .error .incompleteBlock
      else
        match top.accept registry token with
        | .error fault => .error fault
        | .ok (.consumed next) => .ok (settle next below)
        | .ok (.nested next) =>
          if maxDepth ≤ below.length + 1 then .error (.tooDeep maxDepth)
          else
            match begin registry token with
            | .error fault => .error fault
            | .ok first => .ok (settle first (next :: below)) := by
  simp only [feed, feedTop]
  split
  · rfl
  · cases top.accept registry token with
    | error fault => rfl
    | ok step =>
        cases step with
        | consumed next => rfl
        | nested next =>
            by_cases deep : maxDepth ≤ below.length + 1
            · simp only [if_pos deep]
              rfl
            · simp only [if_neg deep]
              cases begin registry token <;> rfl

theorem feed_of_consumed {token : Token} {top next : Instruction} {below : List Instruction}
    (apart : endsEnclosing token top below = false)
    (taken : top.accept registry token = .ok (.consumed next)) :
    feed registry maxDepth token ⟨top :: below⟩ = .ok (settle next below) := by
  simp only [feed_open, apart, taken, Bool.false_eq_true, if_false]

theorem feed_of_nested {token : Token} {top next first : Instruction} {below : List Instruction}
    (apart : endsEnclosing token top below = false)
    (taken : top.accept registry token = .ok (.nested next))
    (deep : below.length + 2 ≤ maxDepth) (begun : begin registry token = .ok first) :
    feed registry maxDepth token ⟨top :: below⟩ = .ok (settle first (next :: below)) := by
  have room : ¬ maxDepth ≤ below.length + 1 := by omega
  simp only [feed_open, apart, taken, begun, room, Bool.false_eq_true, if_false]

/-- What a word that is read can have done to the open instructions. -/
theorem feed_cases {token : Token} {top : Instruction} {below : List Instruction}
    {result : Parser × Option Instruction}
    (h : feed registry maxDepth token ⟨top :: below⟩ = .ok result) :
    endsEnclosing token top below = false ∧
      ((∃ next, top.accept registry token = .ok (.consumed next) ∧
        result = settle next below) ∨
      ∃ next first, top.accept registry token = .ok (.nested next) ∧
        below.length + 2 ≤ maxDepth ∧ begin registry token = .ok first ∧
        result = settle first (next :: below)) := by
  rw [feed_open] at h
  split at h
  · cases h
  · next apart =>
      refine ⟨by simpa using apart, ?_⟩
      split at h
      · cases h
      · next next taken =>
          exact .inl ⟨next, taken, (Except.ok.inj h).symm⟩
      · next next taken =>
          split at h
          · cases h
          · split at h
            · cases h
            · next room _ first begun =>
                exact .inr ⟨next, first, taken, by omega, begun, (Except.ok.inj h).symm⟩

end Parser

/-- The instructions that hold a block, apart from what stands in it. -/
inductive Frame where
  | loop (times : Value)
  | define (name : String) (parameters : List String)

namespace Frame

/-- The word that ends the block. -/
def word : Frame → String
  | loop _ => "]"
  | define _ _ => "end"

def holding (frame : Frame) (instructions : List Instruction) (closed : Bool) : Instruction :=
  match frame with
  | loop times => ⟨.primitive .loop, .loop times (some ⟨instructions, closed⟩)⟩
  | define name parameters =>
    ⟨.primitive .define, .define name parameters (some ⟨instructions, closed⟩)⟩

theorem terminator_holding (frame : Frame) (instructions : List Instruction) :
    (frame.holding instructions false).terminator = some frame.word := by
  cases frame <;> rfl

theorem isComplete_holding (frame : Frame) (instructions : List Instruction) (closed : Bool) :
    (frame.holding instructions closed).isComplete = closed := by
  cases frame <;> rfl

theorem adopt_holding (frame : Frame) (instructions : List Instruction) (i : Instruction) :
    (frame.holding instructions false).adopt i = frame.holding (instructions ++ [i]) false := by
  cases frame <;> rfl

theorem accept_holding (registry : Registry) (token : Token) (frame : Frame)
    (instructions : List Instruction) :
    (frame.holding instructions false).accept registry token =
      if token.is frame.word then .ok (.consumed (frame.holding instructions true))
      else .ok (.nested (frame.holding instructions false)) := by
  cases frame with
  | loop times =>
      by_cases h : token.text = "]"
      · have ends : token.is "]" = true := Token.is_bracket.mpr h
        simp [holding, Instruction.accept, h, word, ends, Block.close]
      · have ends : ¬ token.is "]" = true := mt Token.is_bracket.mp h
        simp [holding, Instruction.accept, h, word, ends]
  | define name parameters =>
      by_cases ends : token.is "end" = true
      · simp [holding, Instruction.accept, word, ends, Block.close]
      · simp [holding, Instruction.accept, word, ends]

end Frame

namespace Parser

theorem feed_parameter (registry : Registry) (maxDepth : Nat) (name : String)
    (parameters : List String) (below : List Instruction) {token : Token} {parameter : String}
    (h : token.parameter? = some parameter) :
    feed registry maxDepth token
        ⟨⟨.primitive .define, .define (some name) parameters none⟩ :: below⟩ =
      .ok (⟨⟨.primitive .define,
        .define (some name) (parameters ++ [Text.lowercase parameter]) none⟩ :: below⟩, none) := by
  have taken : Instruction.accept registry token
      ⟨.primitive .define, .define (some name) parameters none⟩ =
      .ok (.consumed ⟨.primitive .define,
        .define (some name) (parameters ++ [Text.lowercase parameter]) none⟩) := by
    simp only [Instruction.accept, h]
  rw [feed_of_consumed (endsEnclosing_of_terminator rfl token below) taken,
    settle_of_incomplete rfl]

/-- The first word that is not a parameter opens the body of a definition. -/
theorem feed_opening (registry : Registry) (maxDepth : Nat) (name : String)
    (parameters : List String) (below : List Instruction) {token : Token}
    (h : token.parameter? = none) :
    feed registry maxDepth token
        ⟨⟨.primitive .define, .define (some name) parameters none⟩ :: below⟩ =
      feed registry maxDepth token
        ⟨(Frame.define name parameters).holding [] false :: below⟩ := by
  rw [feed_open, feed_open, endsEnclosing_of_terminator rfl,
    endsEnclosing_of_terminator (Frame.terminator_holding _ _)]
  have same : Instruction.accept registry token
      ⟨.primitive .define, .define (some name) parameters none⟩ =
      ((Frame.define name parameters).holding [] false).accept registry token := by
    simp only [Instruction.accept, Frame.holding, h, Option.getD_none, Option.getD_some]
    rfl
  rw [same]

end Parser

theorem Value.fault_of_resolve {word : String} {fault : Fault}
    (h : Value.resolve word = .error fault) : fault = .notAnInteger := by
  unfold Value.resolve at h
  split at h
  · cases h
  · split at h
    · cases h
    · exact (Except.error.inj h).symm

namespace Parser

variable {registry : Registry} {maxDepth : Nat} {token : Token} {fault : Fault}

theorem fault_of_begin (h : begin registry token = .error fault) :
    fault = .unknownFunction token.text := by
  unfold begin at h
  split at h
  · cases h
  · exact (Except.error.inj h).symm

theorem fault_of_accept {i : Instruction} (h : i.accept registry token = .error fault) :
    fault = .notAnInteger ∨ fault = .expectedBlock token.text ∨
      fault = .protectedName (Text.lowercase token.text) := by
  have value {f : Value → Step} (h : (do return f (← Value.resolve token.text)) = .error fault) :
      fault = .notAnInteger := by
    cases resolved : Value.resolve token.text with
    | ok value =>
        rw [resolved] at h
        cases h
    | error fault' =>
        rw [resolved] at h
        cases h
        exact Value.fault_of_resolve resolved
  obtain ⟨command, progress⟩ := i
  cases progress with
  | ready => cases h
  | single held => exact .inl (value h)
  | loop times body =>
      cases times with
      | none => exact .inl (value h)
      | some times =>
          cases body with
          | none =>
              simp only [Instruction.accept] at h
              split at h
              · cases h
              · exact .inr (.inl (Except.error.inj h).symm)
          | some block =>
              simp only [Instruction.accept] at h
              split at h <;> cases h
  | define name parameters body =>
      cases name with
      | none =>
          simp only [Instruction.accept] at h
          split at h
          · exact .inr (.inr (Except.error.inj h).symm)
          · cases h
      | some name =>
          simp only [Instruction.accept] at h
          split at h
          · cases h
          · split at h <;> cases h
  | call arguments => exact .inl (value h)

/-- What can be wrong with a word. -/
theorem fault_of_feed {parser : Parser} (h : parser.feed registry maxDepth token = .error fault) :
    fault = .incompleteBlock ∨ fault = .tooDeep maxDepth ∨
      fault = .unknownFunction token.text ∨ fault = .notAnInteger ∨
      fault = .expectedBlock token.text ∨ fault = .protectedName (Text.lowercase token.text) := by
  obtain ⟨_ | ⟨top, below⟩⟩ := parser
  · cases begun : begin registry token with
    | ok first =>
        simp only [feed, begun] at h
        cases h
    | error fault' =>
        simp only [feed, begun] at h
        cases h
        exact .inr (.inr (.inl (fault_of_begin begun)))
  · rw [feed_open] at h
    split at h
    · exact .inl (Except.error.inj h).symm
    · split at h
      · next taken =>
          cases h
          exact .inr (.inr (.inr (fault_of_accept taken)))
      · cases h
      · split at h
        · exact .inr (.inl (Except.error.inj h).symm)
        · split at h
          · next begun =>
              cases h
              exact .inr (.inr (.inl (fault_of_begin begun)))
          · cases h

/-- Reading on from the first word, with the statement that it completes at the front. -/
theorem feedAll_cons {parser last : Parser} {tokens : List Token} {statements : List Instruction}
    (h : feedAll registry maxDepth parser (token :: tokens) = .ok (last, statements)) :
    ∃ next done rest, parser.feed registry maxDepth token = .ok (next, done) ∧
      feedAll registry maxDepth next tokens = .ok (last, rest) ∧
      statements = done.toList ++ rest := by
  rw [feedAll] at h
  split at h
  · cases h
  · next next done fed =>
      cases read : feedAll registry maxDepth next tokens with
      | error error =>
          rw [read] at h
          cases h
      | ok result =>
          obtain ⟨parser, rest⟩ := result
          rw [read] at h
          cases h
          exact ⟨next, done, rest, fed, read, rfl⟩

end Parser

end Logo
