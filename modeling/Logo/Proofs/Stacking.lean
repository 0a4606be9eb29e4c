import Logo.Proofs.Completion
import Logo.Proofs.Nesting

/-!
The stack of open instructions is well formed, whatever words are read and whatever they are
looked up in. What stands in a block is complete, the instructions around the innermost one
hold blocks that have not been ended, and nothing is read out of order. So every word finds an
instruction that waits for it, and every finished instruction finds a block to go into.
-/
namespace Logo

/-- The instruction as a word leaves it. -/
def Step.instruction : Step → Instruction
  | .consumed i | .nested i => i

namespace Instruction

/-- The block of a loop or of a definition, once it has been begun. -/
def block? (i : Instruction) : Option Block :=
  match i.progress with
  | .loop _ body | .define _ _ body => body
  | .ready | .single _ | .call _ => none

/-- A loop has a block only if it has a count, and a definition has parameters or a block only
if it has a name. -/
def InOrder (i : Instruction) : Prop :=
  match i.progress with
  | .loop none body => body = none
  | .define none parameters body => parameters = [] ∧ body = none
  | _ => True

/-- The instruction and all that stands in it is complete, and its blocks have been ended. -/
inductive Sealed : Instruction → Prop
  | intro {i : Instruction} (complete : i.isComplete = true) (ordered : i.InOrder)
      (closed : ∀ block ∈ i.block?, block.closed = true)
      (inner : ∀ block ∈ i.block?, ∀ j ∈ block.instructions, Sealed j) : Sealed i

/-- What has been read of the instruction was read in order, and only finished instructions
stand in its block. -/
structure Kept (i : Instruction) : Prop where
  ordered : i.InOrder
  contents : ∀ block ∈ i.block?, ∀ j ∈ block.instructions, j.Sealed

theorem closed_eq_isComplete {i : Instruction} :
    ∀ block ∈ i.block?, block.closed = i.isComplete := by
  obtain ⟨command, progress⟩ := i
  intro block held
  cases progress with
  | ready | single _ | call _ => cases held
  | loop _ _ | define _ _ _ =>
      cases held
      rfl

theorem Kept.sealed {i : Instruction} (h : i.Kept) (complete : i.isComplete = true) : i.Sealed :=
  .intro complete h.ordered (fun block held => (closed_eq_isComplete block held).trans complete)
    h.contents

theorem kept_start (command : Command) : (start command).Kept := by
  cases command with
  | procedure p => exact ⟨trivial, fun _ held => nomatch held⟩
  | primitive p =>
      cases p with
      | loop => exact ⟨rfl, fun _ held => nomatch held⟩
      | define => exact ⟨⟨rfl, rfl⟩, fun _ held => nomatch held⟩
      | forward | backward | left | right | wait | penUp | penDown | clearScreen =>
          exact ⟨trivial, fun _ held => nomatch held⟩

theorem kept_holding {frame : Frame} {before : List Instruction} {closed : Bool} :
    (frame.holding before closed).Kept ↔ ∀ j ∈ before, j.Sealed := by
  cases frame with
  | loop _ | define _ _ =>
      refine ⟨fun h => h.contents _ rfl, fun all => ⟨trivial, fun block held => ?_⟩⟩
      cases held
      exact all

/-- A finished instruction goes to the end of a block that has not been ended. -/
theorem Holding.adopt {parent inner : Instruction} (h : parent.Holding) (kept : parent.Kept)
    (sealed : inner.Sealed) :
    (parent.adopt inner).Kept ∧
      ∃ block, parent.block? = some block ∧ block.closed = false ∧
        (parent.adopt inner).block? = some (block.push inner) := by
  obtain ⟨frame, before, rfl⟩ := h
  have held (instructions : List Instruction) :
      (frame.holding instructions false).block? = some ⟨instructions, false⟩ := by
    cases frame <;> rfl
  rw [Frame.adopt_holding]
  refine ⟨?_, _, held before, rfl, held (before ++ [inner])⟩
  refine kept_holding.mpr (List.forall_mem_append.mpr ⟨kept_holding.mp kept, ?_⟩)
  exact List.forall_mem_singleton.mpr sealed

/-- A word leaves what stands in the block as it is. -/
theorem Open.kept {registry : Registry} {token : Token} {i : Instruction} {step : Step}
    (h : i.Open) (kept : i.Kept) (taken : i.accept registry token = .ok step) :
    step.instruction.Kept := by
  have bare {i : Instruction} (ordered : i.InOrder) (none : i.block? = none) : i.Kept := by
    refine ⟨ordered, ?_⟩
    rw [none]
    exact fun _ held => nomatch held
  have opened (frame : Frame) (closed : Bool) : (frame.holding [] closed).Kept :=
    kept_holding.mpr fun _ among => nomatch among
  cases h with
  | single | count | arguments _ =>
      obtain ⟨value, _, rfl⟩ := Parser.value_of_taken taken
      exact bare trivial rfl
  | @bracket times =>
      simp only [Instruction.accept] at taken
      split at taken
      · cases taken
        exact opened (.loop times) false
      · cases taken
  | name =>
      simp only [Instruction.accept] at taken
      split at taken
      · cases taken
      · cases taken
        exact bare trivial rfl
  | @parameters name parameters =>
      simp only [Instruction.accept] at taken
      split at taken
      · cases taken
        exact bare trivial rfl
      · split at taken
        · cases taken
          exact opened (.define name parameters) true
        · cases taken
          exact opened (.define name parameters) false
  | block frame before =>
      have contents := kept_holding.mp kept
      rw [Frame.accept_holding] at taken
      split at taken <;> cases taken <;> exact kept_holding.mpr contents

/-- The instruction to which a word is given again: the first word that declares no parameter
opens the body of a definition, and is then read in it. -/
def reopened? (token : Token) (i : Instruction) : Option Instruction :=
  match i.progress, token.parameter? with
  | .define (some name) parameters none, none =>
    some { i with progress := .define (some name) parameters (some .empty) }
  | _, _ => none

theorem accept_reopened {registry : Registry} {token : Token} {i j : Instruction}
    (h : i.reopened? token = some j) :
    i.accept registry token = j.accept registry token ∧ j.reopened? token = none := by
  unfold reopened? at h
  split at h
  · next name parameters read declares =>
      obtain ⟨command, progress⟩ := i
      cases read
      cases h
      refine ⟨?_, rfl⟩
      simp only [accept, declares, Option.getD_none, Option.getD_some]
  · cases h

end Instruction

namespace Parser

/-- What words can lead to, each of them read with commands and a limit of its own. -/
inductive Reached : Parser → Prop
  | idle : Reached {}
  | feed {registry : Registry} {maxDepth : Nat} {token : Token} {parser next : Parser}
      {done : Option Instruction} (before : Reached parser)
      (fed : parser.feed registry maxDepth token = .ok (next, done)) : Reached next

theorem Reached.feedAll {registry : Registry} {maxDepth : Nat} {parser last : Parser}
    {tokens : List Token} {done : List Instruction} (h : Reached parser)
    (fed : feedAll registry maxDepth parser tokens = .ok (last, done)) : Reached last := by
  induction tokens generalizing parser done with
  | nil =>
      cases fed
      exact h
  | cons token tokens ih =>
      obtain ⟨next, _, rest, first, read, _⟩ := feedAll_cons fed
      exact ih (h.feed first) read

/-- The open instructions as a word leaves them before what it completes is moved: the innermost
one, which may be complete, and those around it. -/
def taken (registry : Registry) (token : Token) (parser : Parser) :
    Except Fault (Instruction × List Instruction) :=
  match parser.stack with
  | [] => do return (← begin registry token, [])
  | top :: below => do
    match ← top.accept registry token with
    | .consumed next => return (next, below)
    | .nested next => return (← begin registry token, next :: below)

/-- The instructions that are moved while the stack is settled, each with the one into whose
block it is moved. -/
def adoptions (top : Instruction) : List Instruction → List (Instruction × Instruction)
  | [] => []
  | parent :: below =>
    if top.isComplete then (top, parent) :: adoptions (parent.adopt top) below else []

variable {registry : Registry} {maxDepth : Nat} {token : Token} {parser : Parser}

/-- The innermost instruction waits for words, the others for the end of their blocks, and only
finished instructions stand in these. -/
structure Orderly (parser : Parser) : Prop where
  tidy : parser.Tidy
  kept : ∀ i ∈ parser.stack, i.Kept

theorem Orderly.taken {result : Parser × Option Instruction} (h : parser.Orderly)
    (fed : parser.feed registry maxDepth token = .ok result) :
    ∃ top below, parser.taken registry token = .ok (top, below) ∧ result = settle top below ∧
      top.Kept ∧ (∀ i ∈ below, i.Holding ∧ i.Kept) ∧ below.length ≤ parser.depth := by
  have started {first : Instruction} (begun : begin registry token = .ok first) : first.Kept := by
    obtain ⟨command, _, rfl⟩ := begin_eq_ok.mp begun
    exact Instruction.kept_start command
  obtain ⟨_ | ⟨top, below⟩⟩ := parser
  · obtain ⟨first, begun, rfl⟩ := feed_idle.mp fed
    refine ⟨first, [], ?_, rfl, started begun, (fun _ among => nomatch among), Nat.le_refl _⟩
    simp only [Parser.taken, begun]
    rfl
  · have waiting := h.tidy.top top rfl
    obtain ⟨kept, keptBelow⟩ := List.forall_mem_cons.mp h.kept
    have around : ∀ i ∈ below, i.Holding ∧ i.Kept :=
      fun i among => ⟨h.tidy.below i among, keptBelow i among⟩
    obtain ⟨_, ⟨next, accepted, rfl⟩ | ⟨next, first, accepted, _, begun, rfl⟩⟩ := feed_cases fed
    · refine ⟨next, below, ?_, rfl, waiting.kept kept accepted, around, Nat.le_succ _⟩
      simp only [Parser.taken, accepted]
      rfl
    · obtain ⟨_, same, _⟩ | ⟨_, same, holding⟩ := waiting.accept accepted
      · cases same
      · cases same
        refine ⟨first, next :: below, ?_, rfl, started begun,
          List.forall_mem_cons.mpr ⟨⟨holding, waiting.kept kept accepted⟩, around⟩, Nat.le_refl _⟩
        simp only [Parser.taken, accepted, begun]
        rfl

theorem kept_settle {top : Instruction} {below : List Instruction} (h : top.Kept)
    (blocks : ∀ i ∈ below, i.Holding ∧ i.Kept) : ∀ i ∈ (settle top below).1.stack, i.Kept := by
  cases complete : top.isComplete with
  | false =>
      rw [settle_of_incomplete complete]
      exact List.forall_mem_cons.mpr ⟨h, fun i among => (blocks i among).2⟩
  | true =>
      cases below with
      | nil =>
          rw [settle_last complete]
          exact fun _ among => nomatch among
      | cons parent below =>
          obtain ⟨⟨holding, kept⟩, others⟩ := List.forall_mem_cons.mp blocks
          rw [settle_of_complete complete]
          exact kept_settle (holding.adopt kept (h.sealed complete)).1 others

theorem sealed_of_adoptions {top : Instruction} {below : List Instruction} (h : top.Kept)
    (blocks : ∀ i ∈ below, i.Holding ∧ i.Kept) :
    ∀ inner parent, (inner, parent) ∈ adoptions top below → inner.Sealed ∧
      ∃ block, parent.block? = some block ∧ block.closed = false ∧
        (parent.adopt inner).block? = some (block.push inner) := by
  induction below generalizing top with
  | nil => exact fun _ _ among => nomatch among
  | cons parent below ih =>
      obtain ⟨⟨holding, kept⟩, others⟩ := List.forall_mem_cons.mp blocks
      intro inner outer among
      unfold adoptions at among
      split at among
      · next complete =>
          have sealed := h.sealed complete
          obtain ⟨keptAfter, moved⟩ := holding.adopt kept sealed
          rcases List.mem_cons.mp among with same | later
          · cases same
            exact ⟨sealed, moved⟩
          · exact ih keptAfter others inner outer later
      · cases among

theorem Orderly.feed {result : Parser × Option Instruction} (h : parser.Orderly)
    (fed : parser.feed registry maxDepth token = .ok result) : result.1.Orderly := by
  obtain ⟨top, below, _, rfl, kept, blocks, _⟩ := h.taken fed
  exact ⟨(h.tidy.feed fed).1, kept_settle kept blocks⟩

theorem Reached.orderly (h : Reached parser) : parser.Orderly := by
  induction h with
  | idle => exact ⟨tidy_idle, fun _ among => nomatch among⟩
  | feed before fed ih => exact ih.feed fed

/-- The stack of open instructions is well formed after any words. No open instruction is
complete. All but the innermost hold a block that has not been ended, and know the word that
ends it. What stands in blocks is complete, down to the last instruction in it. What has been
read of an instruction was read in order.

So a word is never given to an instruction that takes none, to one that is complete or to a
block that has been ended. It is given again at most once, when it opens the body of a
definition. A finished instruction is moved to the end of a block, and is never lost. And no
word opens more than one instruction. -/
theorem stack_of_reached (parser : Parser) (h : Reached parser) :
    (∀ i ∈ parser.stack, i.isComplete = false ∧ i.Kept) ∧
    (∀ i ∈ parser.stack.tail,
      (i.command = .primitive .loop ∨ i.command = .primitive .define) ∧
        (∃ block, i.block? = some block ∧ block.closed = false) ∧ i.terminator.isSome = true) ∧
    (∀ top ∈ parser.stack.head?, top.progress ≠ .ready ∧ top.isComplete = false ∧
      ∀ block ∈ top.block?, block.closed = false) ∧
    (∀ (registry : Registry) (token : Token) (i j : Instruction),
      i.reopened? token = some j →
        i.accept registry token = j.accept registry token ∧ j.reopened? token = none) ∧
    ∀ (registry : Registry) (maxDepth : Nat) (token : Token) (next : Parser)
        (done : Option Instruction),
      parser.feed registry maxDepth token = .ok (next, done) →
      next.depth ≤ parser.depth + 1 ∧
      ∃ top below, parser.taken registry token = .ok (top, below) ∧
        settle top below = (next, done) ∧
        ∀ inner parent, (inner, parent) ∈ adoptions top below → inner.Sealed ∧
          ∃ block, parent.block? = some block ∧ block.closed = false ∧
            (parent.adopt inner).block? = some (block.push inner) := by
  have orderly := h.orderly
  have waiting : ∀ top ∈ parser.stack.head?, top.isComplete = false :=
    fun top first => (orderly.tidy.top top first).isComplete
  refine ⟨fun i among => ⟨?_, orderly.kept i among⟩, fun i among => ?_, fun top first => ?_,
    fun registry token i j again => Instruction.accept_reopened again, ?_⟩
  · obtain ⟨_ | ⟨top, below⟩⟩ := parser
    · cases among
    · rcases List.mem_cons.mp among with rfl | among
      · exact waiting _ rfl
      · obtain ⟨frame, before, rfl⟩ := orderly.tidy.below i among
        exact frame.isComplete_holding before false
  · obtain ⟨frame, before, rfl⟩ := orderly.tidy.below i among
    rw [frame.terminator_holding]
    cases frame with
    | loop times => exact ⟨.inl rfl, ⟨_, rfl, rfl⟩, rfl⟩
    | define name parameters => exact ⟨.inr rfl, ⟨_, rfl, rfl⟩, rfl⟩
  · have unfinished := waiting top first
    have waits : top.progress ≠ .ready := by
      intro ready
      rw [Instruction.isComplete, ready] at unfinished
      cases unfinished
    exact ⟨waits, unfinished, fun block held =>
      (Instruction.closed_eq_isComplete block held).trans unfinished⟩
  · intro registry maxDepth token next done fed
    obtain ⟨top, below, taken, settled, kept, blocks, deep⟩ := orderly.taken fed
    refine ⟨?_, top, below, taken, settled.symm, sealed_of_adoptions kept blocks⟩
    have grown := depth_settle_le top below
    rw [← settled] at grown
    exact Nat.le_trans grown (Nat.succ_le_succ deep)

/-- In a definition in a loop, a statement is completed by a word that is read with no commands
at all and no room for further nesting. -/
theorem stack_of_reached_in_definition :
    let inner : Instruction := ⟨.primitive .forward, .single (some (.constant 5))⟩
    let outer := (Frame.define "f" ["n"]).holding [] false
    let parser : Parser := ⟨[⟨.primitive .forward, .single none⟩, outer,
      (Frame.loop (.constant 2)).holding [] false]⟩
    Reached parser ∧ (∀ i ∈ parser.stack, i.isComplete = false) ∧
      (∃ next, parser.feed .empty 0 ⟨"5", 0, 0⟩ = .ok (next, none) ∧
        next.depth ≤ parser.depth + 1) ∧
      inner.Sealed ∧ ∃ block, outer.block? = some block ∧
        (outer.adopt inner).block? = some (block.push inner) := by
  intro inner outer parser
  have loop : feedAll .primitives 1 {} [⟨"RP", 0, 0⟩, ⟨"2", 0, 0⟩, ⟨"[", 0, 0⟩] =
      .ok (⟨[(Frame.loop (.constant 2)).holding [] false]⟩, []) := rfl
  have definition : feedAll .primitives 3 ⟨[(Frame.loop (.constant 2)).holding [] false]⟩
      [⟨"to", 0, 0⟩, ⟨"F", 0, 0⟩, ⟨":n", 0, 0⟩, ⟨"fd", 0, 0⟩] = .ok (parser, []) := rfl
  have reached : Reached parser := (Reached.idle.feedAll loop).feedAll definition
  obtain ⟨unfinished, _, _, _, step⟩ := stack_of_reached parser reached
  have fed : parser.feed .empty 0 ⟨"5", 0, 0⟩ =
      .ok (⟨[(Frame.define "f" ["n"]).holding [inner] false,
        (Frame.loop (.constant 2)).holding [] false]⟩, none) := rfl
  obtain ⟨deep, top, below, taken, _, moved⟩ := step _ _ _ _ _ fed
  cases taken
  obtain ⟨sealed, block, held, _, pushed⟩ := moved inner outer List.mem_cons_self
  exact ⟨reached, fun i among => (unfinished i among).1, ⟨_, fed, deep⟩, sealed, block, held,
    pushed⟩

end Parser

end Logo
