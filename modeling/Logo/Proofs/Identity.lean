import Logo.Proofs.Lockstep

/-!
Procedures up to identity. Serial numbers tell procedures apart and do nothing else: reading a
word, checking a statement and expanding it commute with giving procedures other numbers, also
those that calls inside of bodies hold.
-/
namespace Logo

mutual

/-- The command with the serial numbers `f` gives to procedures, at any depth. -/
def Command.relabel (f : Nat → Nat) : Command → Command
  | .primitive p => .primitive p
  | .procedure ⟨serial, name, parameters, body⟩ =>
    .procedure ⟨f serial, name, parameters, relabelEach f body⟩
termination_by structural command => command

def Instruction.relabel (f : Nat → Nat) : Instruction → Instruction
  | ⟨command, progress⟩ => ⟨command.relabel f, progress.relabel f⟩
termination_by structural instruction => instruction

def Progress.relabel (f : Nat → Nat) : Progress → Progress
  | .ready => .ready
  | .single value => .single value
  | .loop times none => .loop times none
  | .loop times (some ⟨body, closed⟩) => .loop times (some ⟨relabelEach f body, closed⟩)
  | .define name parameters none => .define name parameters none
  | .define name parameters (some ⟨body, closed⟩) =>
    .define name parameters (some ⟨relabelEach f body, closed⟩)
  | .call arguments => .call arguments
termination_by structural progress => progress

def relabelEach (f : Nat → Nat) : List Instruction → List Instruction
  | [] => []
  | instruction :: rest => instruction.relabel f :: relabelEach f rest
termination_by structural instructions => instructions

end

def Block.relabel (f : Nat → Nat) (block : Block) : Block :=
  { block with instructions := relabelEach f block.instructions }

def Step.relabel (f : Nat → Nat) : Step → Step
  | consumed instruction => consumed (instruction.relabel f)
  | nested instruction => nested (instruction.relabel f)

def Parser.relabel (f : Nat → Nat) (parser : Parser) : Parser := ⟨relabelEach f parser.stack⟩

def Effect.relabel (f : Nat → Nat) : Effect → Effect
  | define name parameters body => define name parameters (relabelEach f body)
  | effect => effect

/-- Instructions that are the same, where `f` says which procedures count as the same. -/
def Instruction.Alike (f : Nat → Nat) (i j : Instruction) : Prop := j.relabel f = i.relabel f

def Parser.Alike (f : Nat → Nat) (p q : Parser) : Prop := q.relabel f = p.relabel f

variable {f : Nat → Nat}

theorem relabelEach_eq_map (f : Nat → Nat) (body : List Instruction) :
    relabelEach f body = body.map (Instruction.relabel f) := by
  induction body with
  | nil => rfl
  | cons i body ih => rw [relabelEach, ih, List.map_cons]

namespace Progress

@[simp] theorem relabel_loop (times : Option Value) (body : Option Block) :
    relabel f (.loop times body) = .loop times (body.map (Block.relabel f)) := by
  obtain _ | ⟨body, closed⟩ := body <;> rfl

@[simp] theorem relabel_define (name : Option String) (parameters : List String)
    (body : Option Block) :
    relabel f (.define name parameters body) =
      .define name parameters (body.map (Block.relabel f)) := by
  obtain _ | ⟨body, closed⟩ := body <;> rfl

end Progress

theorem Block.relabel_push (block : Block) (i : Instruction) :
    (block.push i).relabel f = (block.relabel f).push (i.relabel f) := by
  simp only [push, relabel, relabelEach_eq_map, List.map_append, List.map_cons, List.map_nil]

namespace Command

theorem parameters_relabel (command : Command) :
    (command.relabel f).parameters = command.parameters := by
  obtain p | ⟨serial, name, parameters, body⟩ := command <;> rfl

theorem isProtected_relabel (command : Command) :
    (command.relabel f).isProtected = command.isProtected := by
  obtain p | ⟨serial, name, parameters, body⟩ := command <;> rfl

theorem start_relabel (command : Command) :
    (command.relabel f).start = command.start.relabel f := by
  obtain p | ⟨serial, name, parameters, body⟩ := command
  · cases p <;> rfl
  · rfl

end Command

namespace Instruction

theorem relabel_start (command : Command) :
    (start command).relabel f = start (command.relabel f) := by
  simp only [start, relabel, Command.start_relabel]

theorem isComplete_relabel (i : Instruction) : (i.relabel f).isComplete = i.isComplete := by
  obtain ⟨command, progress⟩ := i
  cases progress with
  | ready | single value => rfl
  | loop times body => obtain _ | ⟨body, closed⟩ := body <;> rfl
  | define name parameters body => obtain _ | ⟨body, closed⟩ := body <;> rfl
  | call arguments =>
      simp only [isComplete, relabel, Progress.relabel, Command.parameters_relabel]

theorem terminator_relabel (i : Instruction) : (i.relabel f).terminator = i.terminator := by
  obtain ⟨command, progress⟩ := i
  cases progress with
  | ready | single value | call arguments => rfl
  | loop times body => obtain _ | ⟨body, closed⟩ := body <;> rfl
  | define name parameters body => cases name <;> obtain _ | ⟨body, closed⟩ := body <;> rfl

theorem relabel_adopt (i inner : Instruction) :
    (i.adopt inner).relabel f = (i.relabel f).adopt (inner.relabel f) := by
  obtain ⟨command, progress⟩ := i
  cases progress with
  | ready | single value | call arguments => rfl
  | loop times body =>
      cases body with
      | none => rfl
      | some block =>
          simp only [adopt, relabel, Progress.relabel_loop, Option.map_some, Block.relabel_push]
  | define name parameters body =>
      cases body with
      | none => rfl
      | some block =>
          simp only [adopt, relabel, Progress.relabel_define, Option.map_some, Block.relabel_push]

/-- Of the registry, only which names are protected matters. -/
theorem accept_relabel {registry registry' : Registry}
    (names : ∀ name, registry'.isProtected name = registry.isProtected name) (token : Token)
    (i : Instruction) :
    (i.relabel f).accept registry' token = (i.accept registry token).map (Step.relabel f) := by
  obtain ⟨command, progress⟩ := i
  cases progress with
  | ready => rfl
  | single value | call arguments =>
      simp only [accept, relabel, Progress.relabel]
      cases Value.resolve token.text <;> rfl
  | loop times body =>
      obtain _ | times := times
      · obtain _ | ⟨body, closed⟩ := body <;> simp only [accept, relabel, Progress.relabel] <;>
          cases Value.resolve token.text <;> rfl
      · obtain _ | ⟨body, closed⟩ := body <;> simp only [accept, relabel, Progress.relabel] <;>
          split <;> rfl
  | define name parameters body =>
      obtain _ | name := name
      · obtain _ | ⟨body, closed⟩ := body <;>
          simp only [accept, relabel, Progress.relabel, names] <;> split <;> rfl
      · obtain _ | ⟨body, closed⟩ := body
        · simp only [accept, relabel, Progress.relabel]
          cases token.parameter? with
          | some parameter => rfl
          | none =>
              dsimp only
              split <;> rfl
        · simp only [accept, relabel, Progress.relabel]
          split <;> rfl

theorem checksEach_relabel {body : List Instruction} {depth : Nat} {bindings : Bindings}
    (h : ∀ i ∈ body, (i.relabel f).checks depth bindings = i.checks depth bindings) :
    checksEach (relabelEach f body) depth bindings = checksEach body depth bindings := by
  induction body with
  | nil => rfl
  | cons i rest ih =>
      rw [relabelEach, checksEach, checksEach, h i List.mem_cons_self,
        ih fun j later => h j (List.mem_cons_of_mem _ later)]

theorem isPerformable_relabel (i : Instruction) :
    (i.relabel f).isPerformable = i.isPerformable := by
  obtain ⟨p | ⟨serial, name, parameters, body⟩, progress⟩ := i
  all_goals
    cases progress with
    | ready | call arguments => rfl
    | single value => cases value <;> rfl
    | loop times body => cases times <;> obtain _ | ⟨body, closed⟩ := body <;> rfl
    | define name parameters body => cases name <;> obtain _ | ⟨body, closed⟩ := body <;> rfl

theorem checks_relabel (i : Instruction) (depth : Nat) (bindings : Bindings) :
    (i.relabel f).checks depth bindings = i.checks depth bindings := by
  induction i using induction_act generalizing depth bindings with
  | single p value | ready p => rfl
  | loop command times block inner =>
      have body := checksEach_relabel fun i h => inner i h (depth + 1) bindings
      rw [relabel, Progress.relabel_loop, Option.map_some, checks_loop, checks_loop, Block.relabel,
        body]
  | define command name parameters block =>
      rw [relabel, Progress.relabel_define, Option.map_some, checks_define, checks_define]
  | call procedure arguments inner =>
      obtain ⟨serial, name, parameters, body⟩ := procedure
      have body := checksEach_relabel fun i h =>
        inner i h (depth + 1) (callScope parameters arguments bindings)
      simp only [relabel, Command.relabel, Progress.relabel, checks_call, body]
  | unfinished i fails =>
      rw [checks_of_not_performable fails,
        checks_of_not_performable ((isPerformable_relabel i).trans fails)]

theorem expand_of_not_performable {i : Instruction} (h : i.isPerformable = false)
    (bindings : Bindings) : i.expand bindings = .error .unfinished := by
  unfold expand
  split
  case h_6 => rfl
  all_goals simp [isPerformable] at h

theorem expandEach_relabel {body : List Instruction} {bindings : Bindings}
    (h : ∀ i ∈ body,
      (i.relabel f).expand bindings = (i.expand bindings).map (List.map (Effect.relabel f))) :
    expandEach (relabelEach f body) bindings =
      (expandEach body bindings).map (List.map (Effect.relabel f)) := by
  induction body with
  | nil => rfl
  | cons i rest ih =>
      rw [relabelEach, expandEach, expandEach, h i List.mem_cons_self,
        ih fun j later => h j (List.mem_cons_of_mem _ later)]
      cases i.expand bindings with
      | error fault => rfl
      | ok effects =>
          cases expandEach rest bindings with
          | error fault => rfl
          | ok more => exact congrArg Except.ok List.map_append.symm

/-- The effects are the same, but for the numbers in the bodies of definitions. -/
theorem expand_relabel (i : Instruction) (bindings : Bindings) :
    (i.relabel f).expand bindings = (i.expand bindings).map (List.map (Effect.relabel f)) := by
  induction i using induction_act generalizing bindings with
  | single p value =>
      simp only [relabel, Command.relabel, Progress.relabel, expand]
      cases value.get bindings with
      | error fault => rfl
      | ok n => cases p <;> rfl
  | ready p => cases p <;> rfl
  | loop command times block inner =>
      have body := expandEach_relabel fun i h => inner i h bindings
      rw [relabel, Progress.relabel_loop, Option.map_some, expand_loop, expand_loop, Block.relabel,
        body]
      cases times.get bindings with
      | error fault => rfl
      | ok n =>
          simp only [bind, Except.bind]
          split
          · rfl
          · cases expandEach block.instructions bindings with
            | error fault => rfl
            | ok pass => simp [Except.map]
  | define command name parameters block =>
      obtain ⟨body, closed⟩ := block
      obtain p | ⟨serial, name, parameters, body⟩ := command <;> rfl
  | call procedure arguments inner =>
      obtain ⟨serial, name, parameters, body⟩ := procedure
      simp only [relabel, Command.relabel, Progress.relabel, expand]
      cases scope parameters arguments bindings with
      | error fault => rfl
      | ok inside => exact expandEach_relabel fun i h => inner i h inside
  | unfinished i fails =>
      rw [expand_of_not_performable fails,
        expand_of_not_performable ((isPerformable_relabel i).trans fails)]
      rfl

end Instruction

/-- The same names stand for the same commands, where `f` says which procedures count as the
same: with the identity it is the very same ones, with a constant those that are written alike.
Procedures that are yet to come will count as the same as well. -/
structure Registry.Alike (f : Nat → Nat) (a b : Registry) : Prop where
  lookup (name : String) :
    (b.lookup name).map (Command.relabel f) = (a.lookup name).map (Command.relabel f)
  next (k : Nat) : f (b.made + k) = f (a.made + k)

namespace Registry

/-- The registry as it is up to the identity of procedures. -/
def relabel (f : Nat → Nat) (registry : Registry) : Registry :=
  { registry with
    commands := ⟨registry.commands.entries.map fun entry => (entry.1, entry.2.relabel f)⟩ }

theorem lookup_relabel (registry : Registry) (name : String) :
    (registry.relabel f).lookup name = (registry.lookup name).map (Command.relabel f) := by
  simp only [lookup, relabel, Dictionary.get?]
  induction registry.commands.entries with
  | nil => rfl
  | cons entry entries ih =>
      rw [List.map_cons, List.lookup_cons, List.lookup_cons, ih]
      split <;> rfl

theorem isProtected_of_lookup {registry registry' : Registry}
    (h : ∀ name, registry'.lookup name = (registry.lookup name).map (Command.relabel f))
    (name : String) : registry'.isProtected name = registry.isProtected name := by
  rw [isProtected, isProtected, h]
  cases registry.lookup name with
  | none => rfl
  | some command => exact command.isProtected_relabel

theorem Alike.of_eq {a b : Registry} (h : b = a) : a.Alike f b := by
  rw [h]
  exact ⟨fun _ => rfl, fun _ => rfl⟩

theorem Alike.lookup_relabel {a b : Registry} (h : a.Alike f b) (name : String) :
    (a.relabel f).lookup name = (b.lookup name).map (Command.relabel f) :=
  (a.lookup_relabel name).trans (h.lookup name).symm

theorem Alike.isProtected_eq {a b : Registry} (h : a.Alike f b) (name : String) :
    b.isProtected name = a.isProtected name :=
  (isProtected_of_lookup h.lookup_relabel name).symm.trans
    (isProtected_of_lookup a.lookup_relabel name)

theorem Alike.define {a b later later' : Registry} (h : a.Alike f b) {name : String}
    {parameters : List String} {body body' : List Instruction}
    (same : relabelEach f body' = relabelEach f body)
    (defined : a.define name parameters body = .ok later)
    (defined' : b.define name parameters body' = .ok later') : later.Alike f later' := by
  refine ⟨?_, ?_⟩
  · intro other
    rw [lookup_define defined, lookup_define defined']
    split
    · have serial : f b.made = f a.made := h.next 0
      simp only [Option.map_some, Command.relabel, same, serial]
    · exact h.lookup other
  · intro k
    rw [(define_eq_ok defined).2, (define_eq_ok defined').2]
    have next := h.next (1 + k)
    rwa [← Nat.add_assoc, ← Nat.add_assoc] at next

end Registry

namespace Parser

/-- What reading a word comes to, up to the identity of procedures. -/
def relabelResult (f : Nat → Nat) (result : Parser × Option Instruction) :
    Parser × Option Instruction :=
  (result.1.relabel f, result.2.map (Instruction.relabel f))

theorem settle_relabel (top : Instruction) (below : List Instruction) :
    settle (top.relabel f) (relabelEach f below) = relabelResult f (settle top below) := by
  induction below generalizing top with
  | nil =>
      rw [relabelEach, settle, settle, Instruction.isComplete_relabel]
      split <;> rfl
  | cons parent below ih =>
      rw [relabelEach, settle, settle, Instruction.isComplete_relabel, ← Instruction.relabel_adopt,
        ih]
      split <;> rfl

theorem endsEnclosing_relabel (token : Token) (top : Instruction) (below : List Instruction) :
    endsEnclosing token (top.relabel f) (relabelEach f below) =
      endsEnclosing token top below := by
  cases below with
  | nil => simp only [endsEnclosing, relabelEach, Instruction.terminator_relabel]
  | cons parent below =>
      simp only [endsEnclosing, relabelEach, List.head?_cons, Option.bind_some,
        Instruction.terminator_relabel]

variable {registry registry' : Registry}

theorem begin_relabel
    (h : ∀ name, registry'.lookup name = (registry.lookup name).map (Command.relabel f))
    (token : Token) :
    begin registry' token = (begin registry token).map (Instruction.relabel f) := by
  rw [begin, begin, h]
  cases registry.lookup token.text with
  | none => rfl
  | some command => exact congrArg Except.ok (Instruction.relabel_start command).symm

theorem feed_relabel
    (h : ∀ name, registry'.lookup name = (registry.lookup name).map (Command.relabel f))
    (maxDepth : Nat) (token : Token) (parser : Parser) :
    (parser.relabel f).feed registry' maxDepth token =
      (parser.feed registry maxDepth token).map (relabelResult f) := by
  obtain ⟨_ | ⟨top, below⟩⟩ := parser
  · simp only [relabel, relabelEach, feed, begin_relabel h]
    cases begin registry token with
    | error fault => rfl
    | ok first => exact congrArg Except.ok (settle_relabel first [])
  · have depth : (relabelEach f below).length = below.length := by
      rw [relabelEach_eq_map, List.length_map]
    simp only [relabel, relabelEach, feed_open, endsEnclosing_relabel, depth, begin_relabel h,
      Instruction.accept_relabel (Registry.isProtected_of_lookup h)]
    split
    · rfl
    · cases top.accept registry token with
      | error fault => rfl
      | ok step =>
          cases step with
          | consumed next => exact congrArg Except.ok (settle_relabel next below)
          | nested next =>
              simp only [Except.map, Step.relabel]
              split
              · rfl
              · cases begin registry token with
                | error fault => rfl
                | ok first => exact congrArg Except.ok (settle_relabel first (next :: below))

theorem fed_of_relabelResult {result result' : Except Fault (Parser × Option Instruction)}
    (h : result'.map (relabelResult f) = result.map (relabelResult f)) :
    Fed (Parser.Alike f) (Instruction.Alike f) result result' := by
  obtain fault | ⟨p, done⟩ := result
  · obtain fault' | ⟨q, done'⟩ := result'
    · cases h
      exact .refused fault
    · cases h
  · obtain fault' | ⟨q, done'⟩ := result'
    · cases h
    · obtain ⟨parsers, statements⟩ := Prod.mk.inj (Except.ok.inj h)
      cases done with
      | none =>
          cases Option.map_eq_none_iff.mp statements
          exact .opened parsers
      | some i =>
          obtain ⟨j, rfl, same⟩ := Option.map_eq_some_iff.mp statements
          exact .completed parsers same

/-- Parsers that are alike do the same with a word. -/
theorem fed_of_alike {a b : Registry} (h : a.Alike f b) {p q : Parser} (same : p.Alike f q)
    (maxDepth : Nat) (token : Token) :
    Fed (Parser.Alike f) (Instruction.Alike f)
      (p.feed a maxDepth token) (q.feed b maxDepth token) := by
  apply fed_of_relabelResult
  -- up to relabelling, both read the word with the first registry
  rw [← feed_relabel h.lookup_relabel, ← feed_relabel a.lookup_relabel, same]

end Parser

end Logo
