import Logo.Proofs.Raising
import Logo.Proofs.Respelling

/-!
One limit of depth for reading and for performing. The parser counts the instructions that are
open, and performing counts those that have been entered. What is read within the limit can be
performed within it, unless a call leads deeper, and what would not fit is refused at the first
word that goes too deep.
-/
namespace Logo

mutual

/-- How many levels the instruction and the blocks in it take up. Definitions count like loops,
and the bodies of procedures that are called do not count. -/
def Instruction.nesting : Instruction → Nat
  | ⟨_, .loop _ (some ⟨body, _⟩)⟩ | ⟨_, .define _ _ (some ⟨body, _⟩)⟩ => 1 + nestingEach body
  | _ => 1
termination_by structural instruction => instruction

/-- The greatest nesting, none where there is no instruction. -/
def nestingEach : List Instruction → Nat
  | [] => 0
  | instruction :: rest => max instruction.nesting (nestingEach rest)
termination_by structural instructions => instructions

end

theorem nestingEach_le_iff {body : List Instruction} {n : Nat} :
    nestingEach body ≤ n ↔ ∀ i ∈ body, i.nesting ≤ n := by
  induction body with
  | nil => simp [nestingEach]
  | cons i rest ih => rw [nestingEach, Nat.max_le, ih, List.forall_mem_cons]

namespace Instruction

theorem nesting_loop (command : Command) (times : Option Value) (block : Block) :
    nesting ⟨command, .loop times (some block)⟩ = 1 + nestingEach block.instructions := by
  obtain ⟨body, closed⟩ := block
  rfl

theorem nesting_define (command : Command) (name : Option String) (parameters : List String)
    (block : Block) :
    nesting ⟨command, .define name parameters (some block)⟩ =
      1 + nestingEach block.instructions := by
  obtain ⟨body, closed⟩ := block
  rfl

theorem one_le_nesting (i : Instruction) : 1 ≤ i.nesting := by
  unfold nesting
  split <;> omega

end Instruction

namespace Statement

variable {registry : Registry} {maxDepth : Nat}

/-- A block that stands at `level` and whose statements keep to the limit. -/
theorem nestingEach_le {level : Nat} {parts : List (List Token × Instruction)}
    (deep : parts ≠ [] → level + 1 ≤ maxDepth)
    (inner : ∀ part ∈ parts, level + 1 + part.2.nesting ≤ max (level + 1) maxDepth + 1) :
    level + nestingEach (parts.map Prod.snd) ≤ max level maxDepth := by
  cases parts with
  | nil => exact Nat.le_max_left _ _
  | cons part parts =>
      have room := deep (List.cons_ne_nil _ _)
      have bound : nestingEach ((part :: parts).map Prod.snd) ≤ maxDepth - level := by
        rw [nestingEach_le_iff, List.forall_mem_map]
        intro other among
        have := inner other among
        omega
      omega

/-- A statement at `level` reaches down to the limit at most, if it does not stand below it. -/
theorem nesting_le {around : Option String} {level : Nat} {tokens : List Token} {i : Instruction}
    (h : Statement registry maxDepth around level tokens i) :
    level + i.nesting ≤ max level maxDepth + 1 := by
  induction h with
  | bare named kind | single named kind argument | call named arguments count =>
      exact Nat.succ_le_succ (Nat.le_max_left _ _)
  | loop named argument opened deep inner starts closed ih =>
      have block := nestingEach_le deep ih
      rw [Instruction.nesting_loop]
      dsimp only
      omega
  | define named free apart declared maximal deep inner starts closed ih =>
      have block := nestingEach_le deep ih
      rw [Instruction.nesting_define]
      dsimp only
      omega

end Statement

namespace Parser

variable {registry : Registry} {maxDepth : Nat} {token : Token} {parser : Parser}

theorem depth_settle_le (top : Instruction) (below : List Instruction) :
    (settle top below).1.depth ≤ below.length + 1 := by
  induction below generalizing top with
  | nil =>
      unfold settle
      split <;> simp [depth]
  | cons parent below ih =>
      unfold settle
      split
      · exact Nat.le_succ_of_le (ih _)
      · exact Nat.le_refl _

/-- The parser never holds more open instructions than the limit allows, but for the statement
itself. -/
theorem depth_feed_le {result : Parser × Option Instruction}
    (fed : parser.feed registry maxDepth token = .ok result)
    (within : parser.depth ≤ max 1 maxDepth) : result.1.depth ≤ max 1 maxDepth := by
  obtain ⟨_ | ⟨top, below⟩⟩ := parser
  · obtain ⟨first, _, rfl⟩ := feed_idle.mp fed
    exact Nat.le_trans (depth_settle_le first []) (Nat.le_max_left _ _)
  · obtain ⟨_, ⟨next, _, rfl⟩ | ⟨next, first, _, room, _, rfl⟩⟩ := feed_cases fed
    · exact Nat.le_trans (depth_settle_le next below) within
    · exact Nat.le_trans (depth_settle_le first (next :: below))
        (Nat.le_trans room (Nat.le_max_right _ _))

theorem Feeds.depth_le {start last : Parser × Option Instruction} {tokens : List Token}
    (h : Feeds registry maxDepth start tokens last) (within : start.1.depth ≤ max 1 maxDepth) :
    last.1.depth ≤ max 1 maxDepth := by
  induction h with
  | nil result => exact within
  | cons fed rest ih => exact ih (depth_feed_le fed within)

/-- Nothing is said of depth where nothing is open. -/
theorem feed_idle_ne_tooDeep (limit : Nat) :
    feed registry maxDepth token {} ≠ .error (.tooDeep limit) := by
  intro failed
  cases found : begin registry token with
  | ok first =>
      rw [feed_idle.mpr ⟨first, found, rfl⟩] at failed
      cases failed
  | error fault =>
      simp only [feed, found] at failed
      cases failed
      cases fault_of_begin found

/-- A word is refused for its depth if and only if it begins a statement and the instructions
that are open are as many as the limit allows. -/
theorem feed_eq_tooDeep_iff {limit : Nat} :
    parser.feed registry maxDepth token = .error (.tooDeep limit) ↔
      limit = maxDepth ∧ parser.begins registry token = true ∧ max 1 maxDepth ≤ parser.depth := by
  obtain ⟨_ | ⟨top, below⟩⟩ := parser
  · refine iff_of_false (feed_idle_ne_tooDeep limit) ?_
    rintro ⟨_, _, deep⟩
    exact absurd (Nat.le_trans (Nat.le_max_left 1 _) deep) (Nat.not_succ_le_zero 0)
  · constructor
    · intro failed
      rw [feed_open] at failed
      split at failed
      · cases failed
      · next apart =>
          split at failed
          · next taken =>
              cases failed
              rcases fault_of_accept taken with same | same | same <;> cases same
          · cases failed
          · next taken =>
              split at failed
              · next deep =>
                  cases failed
                  refine ⟨rfl, ?_, Nat.max_le.mpr ⟨Nat.le_add_left 1 _, deep⟩⟩
                  simp [begins, apart, taken]
              · split at failed
                · next begun =>
                    cases failed
                    cases fault_of_begin begun
                · cases failed
    · rintro ⟨rfl, begins, deep⟩
      obtain ⟨apart, next, taken⟩ := begins_open begins
      have full : limit ≤ below.length + 1 := Nat.le_trans (Nat.le_max_right 1 _) deep
      simp only [feed_open, apart, taken, full, Bool.false_eq_true, if_false, if_true]

/-- Whether a word begins a statement is settled before it is looked up. -/
theorem begins_eq (registry other : Registry) (token : Token) (parser : Parser) :
    parser.begins registry token = parser.begins other token := by
  obtain ⟨_ | ⟨⟨command, progress⟩, below⟩⟩ := parser
  · rfl
  · simp only [begins]
    congr 1
    cases progress with
    | ready | single _ | call _ => rfl
    | loop times body => cases times <;> cases body <;> rfl
    | define name parameters body =>
        cases name with
        | some name => rfl
        | none =>
            -- the name of a definition is not a statement, whether it is protected or not
            simp only [Instruction.accept]
            cases registry.isProtected token.text <;> cases other.isProtected token.text <;> rfl

/-- The word begins an instruction at this level, where a statement of its own is at level 1. -/
def StartsAt (registry : Registry) (level : Nat) (token : Token) (parser : Parser) : Prop :=
  parser.begins registry token = true ∧ parser.depth + 1 = level

/-- What has been read from idle is within the limit, so that a word which is refused for its depth
begins the first level that is too deep. -/
theorem Feeds.tooDeep_iff {before : List Token} {limit : Nat}
    (read : Feeds registry maxDepth ({}, none) before (parser, none)) :
    parser.feed registry maxDepth token = .error (.tooDeep limit) ↔
      limit = maxDepth ∧ parser.StartsAt registry (max 1 maxDepth + 1) token := by
  have within : parser.depth ≤ max 1 maxDepth := read.depth_le (Nat.zero_le _)
  have full : max 1 maxDepth ≤ parser.depth ↔ parser.depth + 1 = max 1 maxDepth + 1 := by omega
  rw [feed_eq_tooDeep_iff, StartsAt, full]

/-- What is read with a higher limit is read alike as far as the first word that is refused for
its depth. -/
theorem Feeds.lowered {higher : Nat} {start last : Parser × Option Instruction}
    {tokens : List Token} (low : maxDepth ≤ higher)
    (h : Feeds registry higher start tokens last) :
    Feeds registry maxDepth start tokens last ∨
      ∃ before token after parser, tokens = before ++ token :: after ∧
        Feeds registry maxDepth start before (parser, none) ∧
        parser.feed registry maxDepth token = .error (.tooDeep maxDepth) := by
  induction h with
  | nil result => exact .inl (.nil result)
  | @cons parser token next last tokens fed rest ih =>
      obtain deep | same := feed_raised low registry token parser
      · exact .inr ⟨[], token, tokens, parser, rfl, .nil _, deep⟩
      · rw [same] at fed
        obtain read | ⟨before, word, after, later, rfl, read, deep⟩ := ih
        · exact .inl (.cons fed read)
        · exact .inr ⟨token :: before, word, after, later, rfl, .cons fed read, deep⟩

theorem Feeds.fed_of_append {start last : Parser × Option Instruction}
    {before after : List Token} (h : Feeds registry maxDepth start before (parser, none))
    (whole : Feeds registry maxDepth start (before ++ token :: after) last) :
    ∃ result, parser.feed registry maxDepth token = .ok result := by
  induction before generalizing start with
  | nil =>
      cases h
      cases whole with
      | cons fed rest => exact ⟨_, fed⟩
  | cons word before ih =>
      cases h with
      | cons fed rest =>
          cases whole with
          | cons fed' rest' =>
              cases Except.ok.inj (fed.symm.trans fed')
              exact ih rest rest'

/-- The word at which a statement that nests too deeply is refused. -/
theorem Feeds.refused {higher : Nat} {tokens : List Token} {next : Parser} {i : Instruction}
    (h : Feeds registry higher ({}, none) tokens (next, some i))
    (deep : max 1 maxDepth < i.nesting) :
    ∃ before token after parser, tokens = before ++ token :: after ∧
      Feeds registry maxDepth ({}, none) before (parser, none) ∧
      parser.feed registry maxDepth token = .error (.tooDeep maxDepth) := by
  have within := (statement_of_feeds h).1.nesting_le
  have low : maxDepth ≤ higher := by omega
  obtain read | refused := h.lowered low
  · have short := (statement_of_feeds read).1.nesting_le
    omega
  · exact refused

end Parser

namespace Action

/-- What is traced after `x` has come to its end; nothing if it fails. -/
def tracedAfter {α : Type} (x : EStateM Fault Run α) (next : α → Run → List Instruction)
    (run : Run) : List Instruction :=
  match x run with
  | .ok a later => next a later
  | .error _ _ => []

/-- What is traced in `n` passes, where `trace` is what is traced in one. -/
def tracedIn (pass : Action) (trace : Run → List Instruction) : Nat → Run → List Instruction
  | 0, _ => []
  | n + 1, run => trace run ++ tracedAfter pass (fun _ => tracedIn pass trace n) run

end Action

mutual

/-- The instructions that performing the instruction executes, in order and as far as it comes.
An instruction is executed if neither limit stops it. -/
def Instruction.trace (settings : Settings) : Instruction → Run → List Instruction
  | ⟨command, progress⟩ =>
    Action.tracedAfter (Action.charge settings.stepLimit) fun _ =>
    Action.tracedAfter (Action.descend settings.maxDepth) fun _ run =>
    ⟨command, progress⟩ ::
      match command, progress with
      | _, .loop (some times) (some ⟨body, _⟩) =>
        let pass : Action := do
          Action.charge settings.stepLimit
          performEach settings body
        let trace := Action.tracedAfter (Action.charge settings.stepLimit) fun _ =>
          traceEach settings body
        Action.tracedAfter (Action.evaluate times)
          (fun n => Action.tracedIn pass trace n.toInt.toNat) run
      | .procedure ⟨_, _, parameters, body⟩, .call arguments =>
        Action.tracedAfter (Action.evaluateEach parameters arguments)
          (fun entries run => traceEach settings body
            { run with world := { run.world with bindings := .ofList entries } }) run
      | _, _ => []
termination_by structural instruction => instruction

def traceEach (settings : Settings) : List Instruction → Run → List Instruction
  | [] => fun _ => []
  | instruction :: rest => fun run =>
    instruction.trace settings run ++
      Action.tracedAfter (instruction.perform settings) (fun _ => traceEach settings rest) run
termination_by structural instructions => instructions

end

namespace Instruction

def isCall : Instruction → Bool
  | ⟨.procedure _, .call _⟩ => true
  | _ => false

/-- What is traced between the descent to the instruction and the return from it. -/
def traceAct (settings : Settings) : Instruction → Run → List Instruction
  | ⟨_, .loop (some times) (some block)⟩ =>
    Action.tracedAfter (Action.evaluate times) fun n =>
      Action.tracedIn
        (do
          Action.charge settings.stepLimit
          performEach settings block.instructions)
        (Action.tracedAfter (Action.charge settings.stepLimit) fun _ =>
          traceEach settings block.instructions) n.toInt.toNat
  | ⟨.procedure procedure, .call arguments⟩ =>
    Action.tracedAfter (Action.evaluateEach procedure.parameters arguments) fun entries run =>
      traceEach settings procedure.body
        { run with world := { run.world with bindings := .ofList entries } }
  | _ => fun _ => []

theorem trace_eq (settings : Settings) (i : Instruction) :
    i.trace settings =
      Action.tracedAfter (Action.charge settings.stepLimit) fun _ =>
        Action.tracedAfter (Action.descend settings.maxDepth) fun _ run =>
          i :: i.traceAct settings run := by
  obtain ⟨command, progress⟩ := i
  rw [trace]
  rcases command with p | ⟨serial, name, parameters, body⟩ <;>
    rcases progress with _ | (_ | value) | ⟨_ | times, _ | ⟨block, closed⟩⟩ |
      ⟨_ | name, parameters, _ | block⟩ | arguments <;>
    rfl

end Instruction

/-- As long as no call is traced, the action comes back to the level where it began, or fails for
another reason than depth. -/
def KeepsLevel {α : Type} (x : EStateM Fault Run α) (trace : Run → List Instruction)
    (depth : Nat) : Prop :=
  ∀ run : Run, run.depth = depth → (∀ i ∈ trace run, i.isCall = false) →
    match x run with
    | .ok _ later => later.depth = depth
    | .error fault _ => ∀ limit, fault ≠ .tooDeep limit

namespace KeepsLevel

variable {α β : Type} {x : EStateM Fault Run α} {f : α → EStateM Fault Run β} {depth : Nat}
  {trace : Run → List Instruction} {next : α → Run → List Instruction} {settings : Settings}

theorem done (a : α) : KeepsLevel (pure a : EStateM Fault Run α) trace depth :=
  fun _ deep _ => deep

theorem unfinished : KeepsLevel (throw .unfinished : EStateM Fault Run α) trace depth :=
  fun _ _ _ _ => Fault.noConfusion

theorem change (g : World → World) : KeepsLevel (Action.change g) trace depth :=
  fun _ deep _ => deep

theorem charge (limit : Nat) : KeepsLevel (Action.charge limit) trace depth := by
  intro run deep _
  rw [Action.charge_apply]
  by_cases spent : limit < run.steps + 1
  · rw [if_pos spent]
    exact fun _ => Fault.noConfusion
  · rw [if_neg spent]
    exact deep

theorem evaluate (value : Value) : KeepsLevel (Action.evaluate value) trace depth := by
  intro run deep _
  rw [Action.evaluate_apply]
  cases got : value.get run.world.bindings with
  | ok n => exact deep
  | error fault =>
      obtain ⟨name, _, rfl⟩ := Value.unknownParameter_of_get got
      exact fun _ => Fault.noConfusion

theorem define (name : String) (parameters : List String) (body : List Instruction) :
    KeepsLevel (Action.define name parameters body) trace depth := by
  intro run deep _
  rw [Action.define_apply]
  cases defined : run.world.registry.define name parameters body with
  | ok registry => exact deep
  | error fault =>
      simp only [Registry.define] at defined
      split at defined
      · cases defined
        exact fun _ => Fault.noConfusion
      · cases defined

theorem bind (first : KeepsLevel x trace depth) (rest : ∀ a, KeepsLevel (f a) (next a) depth) :
    KeepsLevel (x >>= f) (fun run => trace run ++ Action.tracedAfter x next run) depth := by
  intro run deep free
  obtain ⟨here, later⟩ := List.forall_mem_append.mp free
  have outcome := first run deep here
  rw [Action.bind_apply]
  cases ended : x run with
  | error fault between =>
      rw [ended] at outcome
      exact outcome
  | ok a between =>
      rw [ended] at outcome
      simp only [Action.tracedAfter, ended] at later
      exact rest a between outcome later

/-- What traces nothing itself can come first. -/
theorem after (first : KeepsLevel x (fun _ => []) depth)
    (rest : ∀ a, KeepsLevel (f a) (next a) depth) :
    KeepsLevel (x >>= f) (Action.tracedAfter x next) depth :=
  first.bind rest

theorem evaluateThen {f : Int64 → World → World} (value : Value) :
    KeepsLevel (Action.evaluate value >>= fun n => Action.change (f n)) trace depth := by
  intro run deep _
  have nothing : ∀ i ∈ Action.tracedAfter (Action.evaluate value) (fun _ _ => []) run,
      i.isCall = false := by
    unfold Action.tracedAfter
    split <;> nofun
  exact (evaluate value).after (fun n => change (f n)) run deep nothing

theorem iterate {pass : Action} (h : KeepsLevel pass trace depth) (n : Nat) :
    KeepsLevel (pass.iterate n) (Action.tracedIn pass trace n) depth := by
  induction n with
  | zero => exact done ()
  | succ n ih => exact h.bind fun _ => ih

theorem performEach {body : List Instruction}
    (h : ∀ i ∈ body, KeepsLevel (i.perform settings) (i.trace settings) depth) :
    KeepsLevel (Logo.performEach settings body) (traceEach settings body) depth := by
  induction body with
  | nil => exact done ()
  | cons i rest ih =>
      have first := h i List.mem_cons_self
      exact first.bind fun _ => ih fun j later => h j (List.mem_cons_of_mem _ later)

/-- An instruction enters the next level, if there is room for it, and leaves it again. -/
theorem perform {i : Instruction} (room : depth + i.nesting ≤ settings.maxDepth)
    (h : i.isCall = false → KeepsLevel (i.act settings) (i.traceAct settings) (depth + 1)) :
    KeepsLevel (i.perform settings) (i.trace settings) depth := by
  intro run deep free
  rw [Instruction.perform_apply]
  by_cases spent : settings.stepLimit < run.steps + 1
  · rw [if_pos spent]
    exact fun _ => Fault.noConfusion
  · have within : ¬ settings.maxDepth < run.depth + 1 := by
      have := i.one_le_nesting
      omega
    rw [if_neg spent, if_neg within]
    simp only [Instruction.trace_eq, Action.tracedAfter, Action.charge_apply, if_neg spent,
      Action.descend_apply, if_neg within, List.forall_mem_cons] at free
    obtain ⟨other, inside⟩ := free
    have outcome := h other { run with steps := run.steps + 1, depth := run.depth + 1 }
      (congrArg (· + 1) deep) inside
    revert outcome
    cases i.act settings { run with steps := run.steps + 1, depth := run.depth + 1 } with
    | error fault later => exact id
    | ok _ later =>
        intro back
        change later.depth - 1 = depth
        omega

end KeepsLevel

namespace Primitive

variable {settings : Settings} {depth : Nat} {trace : Run → List Instruction}

theorem keepsLevel_perform (p : Primitive) : KeepsLevel p.perform trace depth := by
  cases p with
  | penUp => exact .change (·.setPen false)
  | penDown => exact .change (·.setPen true)
  | clearScreen => exact fun _ deep _ => deep
  | forward | backward | left | right | wait | loop | define => exact .unfinished

theorem keepsLevel_performWith (value : Value) (p : Primitive) :
    KeepsLevel (p.performWith settings value) trace depth := by
  cases p with
  | forward | right | wait => exact .evaluateThen value
  | backward | left => exact .evaluateThen value.negated
  | penUp | penDown | clearScreen | loop | define => exact .unfinished

end Primitive

/-- An instruction that is nested no deeper than there is room for does not fail for want of it,
unless it comes to a call. -/
theorem Instruction.keepsLevel_perform (settings : Settings) (i : Instruction) {depth : Nat}
    (room : depth + i.nesting ≤ settings.maxDepth) :
    KeepsLevel (i.perform settings) (i.trace settings) depth := by
  induction i using induction_act generalizing depth with
  | single p value => exact .perform room fun _ => p.keepsLevel_performWith value
  | ready p => exact .perform room fun _ => p.keepsLevel_perform
  | loop command times block inner =>
      refine .perform room fun _ => ?_
      rw [nesting_loop] at room
      rw [act_loop]
      have body : KeepsLevel (performEach settings block.instructions)
          (traceEach settings block.instructions) (depth + 1) := by
        refine .performEach fun i among => ?_
        have bound := nestingEach_le_iff.mp (Nat.le_refl _) i among
        exact inner i among (by omega)
      have pass := (KeepsLevel.charge settings.stepLimit).after fun _ => body
      exact (KeepsLevel.evaluate times).after fun n => pass.iterate n.toInt.toNat
  | define command name parameters block =>
      refine .perform room fun _ => ?_
      rw [act_define]
      exact .define name parameters block.instructions
  | call procedure arguments inner => exact .perform room nofun
  | unfinished i fails =>
      refine .perform room fun _ => ?_
      rw [act_of_not_performable fails]
      exact .unfinished

namespace Parser

/-- The limit of depth means the same in reading and in performing. A statement that is read
within it nests no deeper, and is not refused for its depth when it is performed unless it comes
to a call; with a limit of nothing, each is refused. A word is refused by the parser for its depth
exactly if it begins an instruction one level below what is allowed, and so the first such word of
a statement that nests too deeply is refused, whatever it stands for. -/
theorem depth_limits_agree (registry : Registry) (maxDepth : Nat) :
    (∀ tokens next i, Feeds registry maxDepth ({}, none) tokens (next, some i) →
      i.nesting ≤ max 1 maxDepth ∧
      ∀ (settings : Settings) (world : World), settings.maxDepth = maxDepth →
        (1 ≤ maxDepth → (∀ j ∈ i.trace settings { world }, j.isCall = false) →
          ∀ limit run, i.perform settings { world } ≠ .error (.tooDeep limit) run) ∧
        (maxDepth = 0 → 1 ≤ settings.stepLimit →
          ∃ run, i.perform settings { world } = .error (.tooDeep 0) run)) ∧
    (∀ before parser, Feeds registry maxDepth ({}, none) before (parser, none) →
      ∀ token limit, parser.feed registry maxDepth token = .error (.tooDeep limit) ↔
        limit = maxDepth ∧ parser.StartsAt registry (max 1 maxDepth + 1) token) ∧
    ∀ higher tokens next i, Feeds registry higher ({}, none) tokens (next, some i) →
      max 1 maxDepth < i.nesting →
      ∃ before token after parser, tokens = before ++ token :: after ∧
        Feeds registry maxDepth ({}, none) before (parser, none) ∧
        parser.StartsAt registry (max 1 maxDepth + 1) token ∧
        (∀ earlier word rest between, before = earlier ++ word :: rest →
          Feeds registry maxDepth ({}, none) earlier (between, none) →
          ¬ between.StartsAt registry (max 1 maxDepth + 1) word) ∧
        ∀ other, parser.feed other maxDepth token = .error (.tooDeep maxDepth) := by
  refine ⟨?_, fun before parser read token limit => read.tooDeep_iff, ?_⟩
  · intro tokens next i read
    have within := (statement_of_feeds read).1.nesting_le
    refine ⟨by omega, ?_⟩
    rintro settings world rfl
    constructor
    · intro positive free limit run failed
      have room : 0 + i.nesting ≤ settings.maxDepth := by omega
      have outcome := i.keepsLevel_perform settings room { world } rfl free
      rw [failed] at outcome
      exact outcome limit rfl
    · intro zero steps
      rw [Instruction.perform_apply, if_neg (Nat.not_lt.mpr steps), zero, if_pos Nat.zero_lt_one]
      exact ⟨_, rfl⟩
  · intro higher tokens next i read deep
    obtain ⟨before, token, after, parser, rfl, reads, fails⟩ := read.refused deep
    obtain ⟨_, starts⟩ := reads.tooDeep_iff.mp fails
    refine ⟨before, token, after, parser, rfl, reads, starts, ?_, ?_⟩
    · rintro earlier word rest between rfl reads' starts'
      obtain ⟨result, fed⟩ := reads'.fed_of_append reads
      cases fed.symm.trans (reads'.tooDeep_iff.mpr ⟨rfl, starts'⟩)
    · intro other
      obtain ⟨_, begins, full⟩ := feed_eq_tooDeep_iff.mp fails
      exact feed_eq_tooDeep_iff.mpr ⟨rfl, begins_eq registry other token parser ▸ begins, full⟩

/-- With two levels there is room for the inner loop, but not for what stands in it. The other
statement fits, and it is the limit of steps that ends it on its second pass. -/
theorem depth_limits_agree_two :
    let words := tokenize "repeat 2 [ repeat 3 [ fd 5 ] ]"
    let fitting := tokenize "repeat 2 [ fd 5 ]"
    let settings : Settings := { stepLimit := 4, maxDepth := 2 }
    (∃ i, (∃ next, Feeds .primitives 2 ({}, none) fitting (next, some i)) ∧ i.nesting = 2 ∧
      (i.trace settings { world := {} }).map Instruction.isCall = [false, false] ∧
      ∀ limit run, i.perform settings { world := {} } ≠ .error (.tooDeep limit) run) ∧
    ∃ before token after parser, words = before ++ token :: after ∧
      Feeds .primitives 2 ({}, none) before (parser, none) ∧ parser.depth = 2 ∧
      parser.feed {} 2 token = .error (.tooDeep 2) := by
  intro words fitting settings
  let draw : Instruction := ⟨.primitive .forward, .single (some (.constant 5))⟩
  let loop (times : Int64) (body : Instruction) : Instruction :=
    ⟨.primitive .loop, .loop (some (.constant times)) (some ⟨[body], true⟩)⟩
  have cut : fitting = [⟨"repeat", 0, 5⟩, ⟨"2", 7, 7⟩, ⟨"[", 9, 9⟩, ⟨"fd", 11, 12⟩, ⟨"5", 14, 14⟩,
      ⟨"]", 16, 16⟩] := by decide +kernel
  have cut' : words = [⟨"repeat", 0, 5⟩, ⟨"2", 7, 7⟩, ⟨"[", 9, 9⟩, ⟨"repeat", 11, 16⟩,
      ⟨"3", 18, 18⟩, ⟨"[", 20, 20⟩, ⟨"fd", 22, 23⟩, ⟨"5", 25, 25⟩, ⟨"]", 27, 27⟩,
      ⟨"]", 29, 29⟩] := by decide +kernel
  have small : Feeds .primitives 2 ({}, none) fitting ({}, some (loop 2 draw)) := by
    rw [cut]
    repeat first | exact .nil _ | refine .cons rfl ?_
  have large : Feeds .primitives 3 ({}, none) words ({}, some (loop 2 (loop 3 draw))) := by
    rw [cut']
    repeat first | exact .nil _ | refine .cons rfl ?_
  have traced : ((loop 2 draw).trace settings { world := {} }).map Instruction.isCall =
      [false, false] := by decide +kernel
  have free : ∀ j ∈ (loop 2 draw).trace settings { world := {} }, j.isCall = false := by
    decide +kernel
  obtain ⟨agree, _, refuse⟩ := depth_limits_agree .primitives 2
  refine ⟨⟨loop 2 draw, ⟨{}, small⟩, rfl, traced, ?_⟩, ?_⟩
  · exact ((agree _ _ _ small).2 settings {} rfl).1 (by decide) free
  · obtain ⟨before, token, after, parser, split, read, starts, _, fails⟩ :=
      refuse 3 words {} _ large (by decide)
    exact ⟨before, token, after, parser, split, read, Nat.succ.inj starts.2, fails {}⟩

end Parser

end Logo
