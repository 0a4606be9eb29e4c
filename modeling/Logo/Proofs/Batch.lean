import Logo.Proofs.Checks
import Logo.Proofs.Definitions
import Logo.Proofs.Feeding
import Logo.Proofs.Submission

/-!
Statements performed as a batch. The statements of a batch share one account of steps, and that
is all they share: the batch succeeds if its parts do, one after the other, and the account
covers them together. So a text that is read as a batch does what it does word by word, unless
it defines something on which the reading of the rest depends.
-/
namespace Logo

namespace Check

variable {settings : Settings} {registry : Registry}

theorem firstFault_cons_eq_none {charged : Nat} {check : Check} {checks : List Check} :
    firstFault settings registry charged (check :: checks) = none ↔
      check.fault? settings registry charged = none ∧
        firstFault settings registry (charged + check.steps) checks = none := by
  rw [firstFault, Option.or_eq_none_iff]

/-- Checks that hold on one account of steps hold on one from which more was taken, if only
there are steps enough left. -/
theorem firstFault_charged (registry : Registry) (checks : List Check) {fewer charged : Nat}
    (less : fewer ≤ charged) (room : charged ≤ settings.stepLimit) :
    firstFault settings registry charged checks = none ↔
      firstFault settings registry fewer checks = none ∧
        charged + total checks ≤ settings.stepLimit := by
  induction checks generalizing fewer charged with
  | nil => simpa [firstFault] using room
  | cons check checks ih =>
      simp only [firstFault_cons_eq_none, total_cons]
      cases check with
      | step =>
          have left (n : Nat) : fault? settings registry n .step = none ↔
              n + 1 ≤ settings.stepLimit := by
            simp [fault?]
          simp only [left, steps, ← Nat.add_assoc]
          by_cases spent : charged + 1 ≤ settings.stepLimit
          · rw [ih (Nat.succ_le_succ less) spent]
            have enough : fewer + 1 ≤ settings.stepLimit := by omega
            simp only [spent, enough, true_and]
          · simp only [spent, false_and, false_iff]
            rintro ⟨_, within⟩
            omega
      | level | bound | free | shape =>
          simp only [steps, Nat.add_zero, Nat.zero_add, ih less room, fault?, and_assoc]

end Check

section

variable {settings : Settings} {body : List Instruction} {run later : Run}

theorem follows_performEach (settings : Settings) (registry : Registry) (body : List Instruction)
    (depth : Nat) (bindings : Bindings) :
    Follows settings registry (performEach settings body) depth bindings
      (checksEach body (depth + 1) bindings) :=
  .performEach fun i _ => i.follows_perform settings registry depth bindings

theorem executes_performEach (settings : Settings) (body : List Instruction) :
    Executes settings (performEach settings body) (expandEach body) :=
  .performEach fun i _ => i.executes_perform settings

theorem performEach_append (settings : Settings) (first second : List Instruction) :
    performEach settings (first ++ second) =
      (do performEach settings first; performEach settings second) := by
  induction first with
  | nil => rfl
  | cons i rest ih =>
      change (i.perform settings >>= fun _ => performEach settings (rest ++ second)) = _
      rw [ih]
      exact (bind_assoc (i.perform settings) _ _).symm

/-- The world that instructions leave depends on the world alone in which they begin. -/
theorem world_performEach {run' later' : Run} (h : performEach settings body run = .ok () later)
    (h' : performEach settings body run' = .ok () later') (same : run'.world = run.world) :
    later'.world = later.world := by
  obtain ⟨effects, expanded, executed⟩ := executes_performEach settings body run later h
  obtain ⟨effects', expanded', executed'⟩ := executes_performEach settings body run' later' h'
  rw [same, expanded] at expanded'
  cases expanded'
  rw [same, executed] at executed'
  exact (Except.ok.inj executed').symm

theorem performEach_ok (room : run.steps ≤ settings.stepLimit) (top : run.depth = 0)
    (h : performEach settings body run = .ok () later) :
    Check.firstFault settings run.world.registry run.steps
        (checksEach body 1 run.world.bindings) = none ∧
      later.steps = run.steps + Check.total (checksEach body 1 run.world.bindings) ∧
      later.steps ≤ settings.stepLimit ∧ later.depth = 0 := by
  have outcome := follows_performEach settings run.world.registry body 0 run.world.bindings run
    ⟨room, fun _ => rfl⟩ top rfl
  rw [h] at outcome
  obtain ⟨passed, ready, steps, deep, _⟩ := outcome
  exact ⟨passed, steps, ready.steps, deep⟩

theorem performEach_of_passed (room : run.steps ≤ settings.stepLimit) (top : run.depth = 0)
    (passed : Check.firstFault settings run.world.registry run.steps
      (checksEach body 1 run.world.bindings) = none) :
    ∃ later, performEach settings body run = .ok () later := by
  have outcome := follows_performEach settings run.world.registry body 0 run.world.bindings run
    ⟨room, fun _ => rfl⟩ top rfl
  cases ended : performEach settings body run with
  | ok _ later => exact ⟨later, rfl⟩
  | error fault later =>
      rw [ended, passed] at outcome
      cases outcome.1

/-- Steps that were taken before have no part in what instructions do. -/
theorem performEach_afresh (room : run.steps ≤ settings.stepLimit) (top : run.depth = 0)
    (h : performEach settings body run = .ok () later) :
    ∃ afresh, performEach settings body { world := run.world } = .ok () afresh ∧
      afresh.world = later.world ∧ run.steps + afresh.steps ≤ settings.stepLimit := by
  obtain ⟨passed, counted, within, _⟩ := performEach_ok room top h
  have unspent := ((Check.firstFault_charged _ _ (Nat.zero_le run.steps) room).mp passed).1
  obtain ⟨afresh, done⟩ : ∃ afresh, performEach settings body { world := run.world } =
      .ok () afresh := performEach_of_passed (Nat.zero_le _) rfl unspent
  have counted' := (performEach_ok (Nat.zero_le _) rfl done).2.1
  simp only [Nat.zero_add] at counted'
  exact ⟨afresh, done, world_performEach h done rfl, by omega⟩

/-- They are only missing from the account. -/
theorem performEach_charged (room : run.steps ≤ settings.stepLimit) (top : run.depth = 0)
    {afresh : Run} (h : performEach settings body { world := run.world } = .ok () afresh)
    (within : run.steps + afresh.steps ≤ settings.stepLimit) :
    ∃ later, performEach settings body run = .ok () later ∧ later.world = afresh.world := by
  obtain ⟨passed, counted, _, _⟩ := performEach_ok (Nat.zero_le _) rfl h
  simp only [Nat.zero_add] at counted
  have enough := (Check.firstFault_charged run.world.registry
    (checksEach body 1 run.world.bindings) (Nat.zero_le run.steps) room).mpr ⟨passed, by omega⟩
  obtain ⟨later, done⟩ := performEach_of_passed room top enough
  exact ⟨later, done, world_performEach h done rfl⟩

/-- An instruction that defines nothing leaves the registry as it is. -/
theorem Instruction.registry_of_plain {i : Instruction}
    (plain : i.definitions run.world.bindings = [])
    (h : i.perform settings run = .ok () later) :
    later.world.registry = run.world.registry := by
  have defined := registry_perform h
  rw [plain] at defined
  exact (Except.ok.inj defined).symm

end

namespace Session

variable {session later : Session} {statements : List Instruction}

/-- The steps that the statements take when they are performed on an account of their own. -/
def stepsTaken (session : Session) (statements : List Instruction) : Nat :=
  match performEach session.settings statements { world := session.world } with
  | .ok _ run | .error _ run => run.steps

theorem performAll_eq_ok :
    session.performAll statements = .ok later ↔
      ∃ run, performEach session.settings statements { world := session.world } = .ok () run ∧
        later = { session with world := run.world } := by
  unfold performAll
  cases performEach session.settings statements { world := session.world } with
  | error fault run => simp
  | ok _ run => simp [eq_comm]

theorem stepsTaken_eq {run : Run}
    (h : performEach session.settings statements { world := session.world } = .ok () run) :
    session.stepsTaken statements = run.steps := by
  rw [stepsTaken, h]

/-- A batch can be cut anywhere, as long as its account covers both parts. -/
theorem performAll_append (session last : Session) (first second : List Instruction) :
    session.performAll (first ++ second) = .ok last ↔
      ∃ between, session.performAll first = .ok between ∧
        between.performAll second = .ok last ∧
        session.stepsTaken first + between.stepsTaken second ≤ session.settings.stepLimit := by
  constructor
  · intro h
    obtain ⟨run, done, rfl⟩ := performAll_eq_ok.mp h
    rw [performEach_append] at done
    obtain ⟨_, between, begun, ended⟩ := Action.bind_eq_ok done
    obtain ⟨_, _, room, top⟩ := performEach_ok (Nat.zero_le _) rfl begun
    obtain ⟨afresh, done, left, within⟩ := performEach_afresh room top ended
    refine ⟨{ session with world := between.world }, performAll_eq_ok.mpr ⟨between, begun, rfl⟩,
      performAll_eq_ok.mpr ⟨afresh, done, by rw [left]⟩, ?_⟩
    rwa [stepsTaken_eq begun, stepsTaken_eq done]
  · rintro ⟨middle, first, second, within⟩
    obtain ⟨between, begun, rfl⟩ := performAll_eq_ok.mp first
    obtain ⟨afresh, done, rfl⟩ := performAll_eq_ok.mp second
    rw [stepsTaken_eq begun, stepsTaken_eq done] at within
    obtain ⟨_, _, room, top⟩ := performEach_ok (Nat.zero_le _) rfl begun
    obtain ⟨run, ended, left⟩ := performEach_charged room top done within
    refine performAll_eq_ok.mpr ⟨run, ?_, by rw [left]⟩
    rw [performEach_append, Action.bind_apply, begun]
    exact ended

/-- A single statement is performed as in a batch of its own. -/
theorem perform_of_performAll {statement : Instruction}
    (h : session.performAll [statement] = .ok later) :
    ∃ run, statement.perform session.settings { world := session.world } = .ok () run ∧
      later = { session with world := run.world } := by
  obtain ⟨run, done, rfl⟩ := performAll_eq_ok.mp h
  obtain ⟨_, between, ran, rest⟩ := Action.bind_eq_ok done
  cases rest
  exact ⟨run, ran, rfl⟩

/-- A batch works on the world alone. -/
theorem performAll_apart (h : session.performAll statements = .ok later)
    (parser : Parser) (count : Nat) (error : Option Diagnostic) :
    performAll { session with parser, statements := count, error } statements =
      .ok { later with parser, statements := count, error } := by
  obtain ⟨run, done, rfl⟩ := performAll_eq_ok.mp h
  exact performAll_eq_ok.mpr ⟨run, done, rfl⟩

/-- Words whose statements define nothing are read to the end if their statements succeed as a
batch, and what is performed between them does what the batch does. -/
theorem reading_of_performAll {tokens : List Token} {parser : Parser} (session : Session)
    (parsed : Parser.feedAll session.world.registry session.settings.maxDepth session.parser
      tokens = .ok (parser, statements))
    (plain : ∀ i ∈ statements, i.definitions session.world.bindings = [])
    (batch : session.performAll statements = .ok later) :
    ∃ done, Reading session tokens done { session with
      world := later.world, parser, statements := session.statements + statements.length } := by
  induction tokens generalizing session later statements with
  | nil =>
      cases parsed
      cases batch
      exact ⟨[], .nil session⟩
  | cons token tokens ih =>
      obtain ⟨next, completed, rest, fed, read, rfl⟩ := Parser.feedAll_cons parsed
      cases completed with
      | none =>
          obtain ⟨done, reading⟩ := ih { session with parser := next } read plain
            (performAll_apart batch next session.statements session.error)
          exact ⟨done, .opened fed reading⟩
      | some statement =>
          obtain ⟨between, begun, ended, _⟩ :=
            (performAll_append session later [statement] rest).mp batch
          obtain ⟨run, ran, rfl⟩ := perform_of_performAll begun
          have registry := Instruction.registry_of_plain (plain statement List.mem_cons_self) ran
          obtain ⟨_, _, _, bindings⟩ := Instruction.execute_expand_of_perform ran
          have read : Parser.feedAll run.world.registry session.settings.maxDepth next tokens =
              .ok (parser, rest) := by
            rw [registry]
            exact read
          have plain : ∀ i ∈ rest, i.definitions run.world.bindings = [] := by
            intro i among
            rw [bindings]
            exact plain i (List.mem_cons_of_mem _ among)
          obtain ⟨done, reading⟩ := ih (session.performed next run.world) read plain
            (performAll_apart ended next (session.statements + 1) session.error)
          have count : session.statements + (statement :: rest).length =
              session.statements + 1 + rest.length := by
            rw [List.length_cons]
            omega
          refine ⟨session.performed next run.world :: done, .completed fed ran ?_⟩
          simp only [Option.toList_some, List.singleton_append, count]
          exact reading

/-- Performing as a batch. A batch of two parts succeeds if and only if the first part does, the
second part does where the first has ended, and the steps of both are within the limit of one.
Where nothing is being read, submitting a text whose statements define nothing ends, if they
succeed as a batch, with the world that the batch leaves; only the statements are counted. -/
theorem performAll_composes (session : Session) :
    (∀ first second last, session.performAll (first ++ second) = .ok last ↔
      ∃ between, session.performAll first = .ok between ∧
        between.performAll second = .ok last ∧
        session.stepsTaken first + between.stepsTaken second ≤ session.settings.stepLimit) ∧
    (∀ text statements later, session.isPending = false →
      Parser.feedAll session.world.registry session.settings.maxDepth {} (tokenize text) =
        .ok ({}, statements) →
      (∀ i ∈ statements, i.definitions session.world.bindings = []) →
      session.performAll statements = .ok later →
      (session.submit text).error = none ∧ (session.submit text).isPending = false ∧
        (session.submit text).world = later.world ∧
        (session.submit text).statements = session.statements + statements.length ∧
        later.statements = session.statements) := by
  refine ⟨fun first second last => performAll_append session last first second, ?_⟩
  intro text statements later idle parsed plain batch
  obtain ⟨done, reading⟩ := reading_of_performAll { session with error := none }
    (by rw [parser_of_idle idle]; exact parsed) plain
    (performAll_apart batch session.parser session.statements none)
  have result : session.submit text = _ := reading.readAll_eq text rfl
  obtain ⟨run, _, rfl⟩ := performAll_eq_ok.mp batch
  rw [result]
  exact ⟨rfl, rfl, rfl, rfl, rfl⟩

/-- A loop of calls that takes nine steps and a statement that takes one, on an account that
just covers both and on one that covers each of them alone. -/
theorem performAll_composes_tight :
    let move : Instruction := ⟨.primitive .forward, .single (some (.parameter "n"))⟩
    let turn : Instruction := ⟨.primitive .right, .single (some (.constant 90))⟩
    let hop : Procedure := ⟨0, "hop", ["n"], [move, turn]⟩
    let call : Instruction := ⟨.procedure hop, .call [.constant 5]⟩
    let loop : Instruction := ⟨.primitive .loop, .loop (some (.constant 2)) (some ⟨[call], true⟩)⟩
    let up : Instruction := ⟨.primitive .penUp, .ready⟩
    let registry : Registry := ⟨Registry.primitives.commands.insert "hop" (.procedure hop), 1⟩
    let session (limit : Nat) : Session :=
      { world := { registry }, settings := { stepLimit := limit }, statements := 1 }
    (∃ later, (session 10).performAll [loop, up] = .ok later ∧
      ((session 10).submit "repeat 2 [ hop 5 ] pu").error = none ∧
      ((session 10).submit "repeat 2 [ hop 5 ] pu").world = later.world ∧
      ((session 10).submit "repeat 2 [ hop 5 ] pu").statements = 3 ∧ later.statements = 1) ∧
    (∃ between last, (session 9).performAll [loop] = .ok between ∧
      between.performAll [up] = .ok last ∧
      ¬ ∃ both, (session 9).performAll [loop, up] = .ok both) := by
  intro move turn hop call loop up registry session
  constructor
  · have words : tokenize "repeat 2 [ hop 5 ] pu" =
        [⟨"repeat", 0, 5⟩, ⟨"2", 7, 7⟩, ⟨"[", 9, 9⟩, ⟨"hop", 11, 13⟩, ⟨"5", 15, 15⟩, ⟨"]", 17, 17⟩,
          ⟨"pu", 19, 20⟩] := by
      decide +kernel
    have parsed : Parser.feedAll (session 10).world.registry (session 10).settings.maxDepth {}
        (tokenize "repeat 2 [ hop 5 ] pu") = .ok ({}, [loop, up]) := by
      rw [words]
      rfl
    have plain : ∀ i ∈ [loop, up], i.definitions (session 10).world.bindings = [] := by
      intro i among
      simp only [List.mem_cons, List.not_mem_nil, or_false] at among
      rcases among with rfl | rfl <;> rfl
    obtain ⟨later, batch⟩ : ∃ later, (session 10).performAll [loop, up] = .ok later := ⟨_, rfl⟩
    obtain ⟨error, _, world, count, kept⟩ :=
      (performAll_composes (session 10)).2 _ _ later rfl parsed plain batch
    exact ⟨later, batch, error, world, count, kept⟩
  · refine ⟨_, _, rfl, rfl, ?_⟩
    rintro ⟨both, done⟩
    obtain ⟨between, first, second, within⟩ :=
      ((performAll_composes (session 9)).1 [loop] [up] both).mp done
    cases first
    exact absurd within (by decide)

end Session

end Logo
