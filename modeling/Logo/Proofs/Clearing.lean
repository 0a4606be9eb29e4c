import Logo.Proofs.Identity
import Logo.Proofs.Numbering
import Logo.Proofs.Words

/-!
Clearing the screen. What was drawn before is gone from the log, and turtle and pen are back
where they begin, so of the past only the registry, the bindings and the next number are left.
The number shifts those of the events that follow and changes nothing else. A statement that
fails after the clearing goes back to it, and not to what was before.
-/
namespace Logo

theorem Effect.relabel_cases {f : Nat → Nat} {effect effect' : Effect}
    (h : effect'.relabel f = effect.relabel f) :
    effect' = effect ∨ ∃ name parameters body body', effect = .define name parameters body ∧
      effect' = .define name parameters body' ∧ relabelEach f body' = relabelEach f body := by
  cases effect with
  | define name parameters body =>
      cases effect' with
      | define name' parameters' body' =>
          obtain ⟨rfl, rfl, same⟩ := Effect.define.inj h
          exact .inr ⟨_, _, _, _, rfl, rfl, same⟩
      | _ => simp [relabel] at h
  | _ => cases effect' <;> simp_all [relabel]

theorem DrawEvent.renumber_push {log log' : DrawLog} {g g' : Nat → Nat} {event event' : DrawEvent}
    (logs : log'.toList.map (renumber g') = log.toList.map (renumber g))
    (events : event'.renumber g' = event.renumber g) :
    (log'.push event').toList.map (renumber g') = (log.push event).toList.map (renumber g) := by
  simp only [Array.toList_push, List.map_append, List.map_cons, List.map_nil, logs, events]

namespace World

/-- The worlds are the same up to the identity of procedures, and but for the numbers in the
log. Those of the second one are ahead by as much as `n` is ahead of `m`. -/
structure Shifted (f : Nat → Nat) (m n : Nat) (a b : World) : Prop where
  turtle : b.turtle = a.turtle
  pen : b.pen = a.pen
  log : b.log.toList.map (DrawEvent.renumber (m + ·)) =
    a.log.toList.map (DrawEvent.renumber (n + ·))
  nextId : m + b.nextId = n + a.nextId
  registry : a.registry.Alike f b.registry
  bindings : b.bindings = a.bindings

variable {f : Nat → Nat} {m n : Nat} {settings : Settings}

theorem shifted_define {a b later later' : World} {name : String} {parameters : List String}
    {body body' : List Instruction} (h : Shifted f m n a b)
    (same : relabelEach f body' = relabelEach f body)
    (applied : a.apply settings (.define name parameters body) = .ok later)
    (applied' : b.apply settings (.define name parameters body') = .ok later') :
    Shifted f m n later later' := by
  obtain ⟨registry, defined, result⟩ := ok_of_bind applied
  obtain ⟨registry', defined', result'⟩ := ok_of_bind applied'
  cases result
  cases result'
  exact ⟨h.turtle, h.pen, h.log, h.nextId, h.registry.define same defined defined', h.bindings⟩

theorem keeps_shifted : Keeps settings settings (Shifted f m n) (Effect.relabel f) := by
  intro a b later later' effect effect' h same applied applied'
  have ⟨turtle, pen, log, nextId, registry, bindings⟩ := h
  have next : m + (b.nextId + 1) = n + (a.nextId + 1) := by omega
  obtain rfl | ⟨name, parameters, body, body', rfl, rfl, bodies⟩ := Effect.relabel_cases same
  · cases effect' with
    | move distance =>
        cases applied
        cases applied'
        simp only [move, turtle, pen]
        split
        · refine ⟨rfl, rfl, ?_, next, registry, bindings⟩
          exact DrawEvent.renumber_push log (congrArg (DrawEvent.line · _ _ _ _) nextId)
        · exact ⟨rfl, rfl, log, nextId, registry, bindings⟩
    | turn angle =>
        cases applied
        cases applied'
        simp only [turn, turtle]
        split
        · refine ⟨rfl, pen, ?_, next, registry, bindings⟩
          exact DrawEvent.renumber_push log (congrArg (DrawEvent.turn · _) nextId)
        · exact ⟨rfl, pen, log, nextId, registry, bindings⟩
    | wait seconds =>
        cases applied
        cases applied'
        exact ⟨turtle, pen, DrawEvent.renumber_push log rfl, nextId, registry, bindings⟩
    | pen down =>
        cases applied
        cases applied'
        exact ⟨turtle, rfl, log, nextId, registry, bindings⟩
    | clear =>
        cases applied
        cases applied'
        exact ⟨rfl, rfl, rfl, nextId, registry, bindings⟩
    | define name parameters body => exact shifted_define h rfl applied applied'
  · exact shifted_define h bodies applied applied'

theorem shifted_lockstep (f : Nat → Nat) (m n : Nat) (settings : Settings) :
    Lockstep (fun _ => False) settings settings (Shifted f m n) (Parser.Alike f)
      (Instruction.Alike f) where
  idle := rfl
  feed h same token := .inr (Parser.fed_of_alike h.registry same settings.maxDepth token)
  attempt := by
    intro a b i j h same
    have checks : j.checks 1 a.bindings = i.checks 1 a.bindings := by
      rw [← j.checks_relabel, same, i.checks_relabel]
    refine .inr (keeps_shifted.attempt h ?_ ?_)
    · rw [h.bindings, ← j.expand_relabel, same, i.expand_relabel]
    · rw [h.bindings, checks]
      exact Check.firstFault_congr rfl rfl h.registry.isProtected_eq 0 _

theorem shifted_clear {a b : World} (registry : a.registry.Alike f b.registry)
    (bindings : b.bindings = a.bindings) :
    Shifted f a.nextId b.nextId a.clear b.clear :=
  ⟨rfl, rfl, rfl, Nat.add_comm _ _, registry, bindings⟩

theorem attempt_clear {settings : Settings} (steps : 1 ≤ settings.stepLimit)
    (levels : 1 ≤ settings.maxDepth) (world : World) :
    world.attempt settings (.start (.primitive .clearScreen)) = (world.clear, none) := by
  obtain ⟨effects, later, _, expanded, executed, result⟩ | ⟨fault, failed, _⟩ :=
    attempt_cases settings (.start (.primitive .clearScreen)) world
  · cases expanded
    cases executed
    exact result
  · have passed : Check.firstFault settings world.registry 0 [.step, .level 1] = none := by
      rw [Check.firstFault_step, if_neg (by omega), Check.firstFault_level, if_neg (by omega)]
      rfl
    cases passed.symm.trans failed

end World

namespace Session

theorem read_clear (text : String) (session : Session) (token : Token)
    (idle : session.isPending = false)
    (known : session.world.registry.lookup token.text = some (.primitive .clearScreen))
    (steps : 1 ≤ session.settings.stepLimit) (levels : 1 ≤ session.settings.maxDepth) :
    session.read text token =
      { session with world := session.world.clear, statements := session.statements + 1 } := by
  have fed : session.parser.feed session.world.registry session.settings.maxDepth token =
      .ok (session.parser, some (.start (.primitive .clearScreen))) := by
    rw [parser_of_idle idle]
    exact Parser.feed_idle.mpr ⟨_, Parser.begin_eq_ok.mpr ⟨_, known, rfl⟩, rfl⟩
  simp only [read, fed, performStatement, World.attempt_clear steps levels]

theorem submit_clear {session : Session} (idle : session.isPending = false)
    (known : session.world.registry.lookup "cs" = some (.primitive .clearScreen))
    (steps : 1 ≤ session.settings.stepLimit) (levels : 1 ≤ session.settings.maxDepth)
    (text : String) :
    session.submit ("cs " ++ text) =
      { session with
        world := session.world.clear, statements := session.statements + 1,
        error := none }.readAll ("cs " ++ text) ((tokenize text).map (Token.shift 3)) := by
  have words : tokenize ("cs" ++ String.singleton ' ' ++ text) = _ :=
    tokenize_joined "cs" text (by decide)
  have one : tokenize "cs" = [⟨"cs", 0, 1⟩] := by decide +kernel
  have blank : "cs" ++ String.singleton ' ' = "cs " := by decide +kernel
  have size : "cs ".utf8ByteSize = 3 := by decide +kernel
  have first := read_clear ("cs " ++ text) { session with error := none } ⟨"cs", 0, 1⟩
    idle known steps levels
  rw [blank, one, size, List.singleton_append] at words
  rw [submit, words, readAll, first]
  rfl

/-- Clearing the screen makes the drawn past unobservable but for the numbers of events. Let two
sessions have any pasts that leave them idle, with the same bindings and with registries that
are alike. Then a text that begins by clearing ends in the same way for both, whether or not it
fails later on: with the same turtle, pen, bindings, statement left open and report, and with as
many statements performed. The events are the same, with their numbers apart by as much as the
next numbers were before. -/
theorem submit_cleared (f : Nat → Nat) (settings : Settings) (turtle turtle' : Turtle)
    (pen pen' : Pen) (bindings : Bindings) (texts texts' : List String) (text : String)
    (steps : 1 ≤ settings.stepLimit) (levels : 1 ≤ settings.maxDepth) :
    let a := (initial settings turtle pen bindings).submitAll texts
    let b := (initial settings turtle' pen' bindings).submitAll texts'
    a.isPending = false → b.isPending = false → a.world.registry.Alike f b.world.registry →
    let a' := a.submit ("cs " ++ text)
    let b' := b.submit ("cs " ++ text)
    b'.world.turtle = a'.world.turtle ∧ b'.world.pen = a'.world.pen ∧
      b'.world.bindings = a'.world.bindings ∧ a'.world.registry.Alike f b'.world.registry ∧
      a'.parser.Alike f b'.parser ∧ b'.error = a'.error ∧
      b'.statements + a.statements = a'.statements + b.statements ∧
      b'.world.log.toList.map (DrawEvent.renumber (a.world.nextId + ·)) =
        a'.world.log.toList.map (DrawEvent.renumber (b.world.nextId + ·)) := by
  intro a b idle idle' registry a' b'
  have sound := sound_submitAll settings turtle pen bindings texts
  have sound' := sound_submitAll settings turtle' pen' bindings texts'
  have named : Text.lowercase "cs" ∈ Primitive.clearScreen.names := by decide +kernel
  have kept : a.settings = settings := settings_submitAll _ texts
  have kept' : b.settings = settings := settings_submitAll _ texts'
  have first : a' = _ := submit_clear idle (sound.lookup_primitive named).1
    (kept.symm ▸ steps) (kept.symm ▸ levels) text
  have first' : b' = _ := submit_clear idle' (sound'.lookup_primitive named).1
    (kept'.symm ▸ steps) (kept'.symm ▸ levels) text
  have idles : a.parser.Alike f b.parser := by
    rw [parser_of_idle idle, parser_of_idle idle']
    rfl
  have scope : b.world.bindings = a.world.bindings := sound'.scope.trans sound.scope.symm
  -- from here on the sessions are in step
  have cleared : Beside settings settings (World.Shifted f a.world.nextId b.world.nextId)
      (Parser.Alike f) a.statements b.statements
      { a with world := a.world.clear, statements := a.statements + 1, error := none }
      { b with world := b.world.clear, statements := b.statements + 1, error := none } :=
    ⟨World.shifted_clear registry scope, idles, kept, kept', by dsimp only; omega, rfl⟩
  have last := (World.shifted_lockstep f a.world.nextId b.world.nextId settings).readAll cleared
    ("cs " ++ text) ((tokenize text).map (Token.shift 3)) fun _ _ => id
  rw [← first, ← first'] at last
  obtain ⟨⟨turtle, pen, log, _, registry, bindings⟩, parser, _, _, count, error⟩ := last
  exact ⟨turtle, pen, bindings, registry, parser, error, count, log⟩

/-- Submissions that perform no definitions leave the registry as it is. -/
theorem Sound.registry_submitAll {bindings : Bindings} {done : List Instruction}
    {session : Session} (h : Sound bindings done session) (texts : List String)
    (none : ((session.performedBy texts).flatMap (·.definitions bindings)).isEmpty = true) :
    (session.submitAll texts).world.registry = session.world.registry := by
  have later := (h.submitAll texts).registry
  rw [List.flatMap_append, List.isEmpty_iff.mp none, List.append_nil, h.registry] at later
  exact (Except.ok.inj later).symm

/-- One past has drawn a single line, the other one several with the pen up and down. What is
submitted after the clearing calls a procedure, clears again inside a loop, and fails. -/
theorem submit_cleared_failing :
    let text := "repeat 2 [ cs hop 5 ] wait 1 repeat 2 [ cs fd :x ]"
    let a := (initial {} {} {} {}).submitAll ["to hop :n fd :n end", "fd 10"]
    let b := (initial {} {} {} {}).submitAll
      ["to hop :n fd :n end", "pu fd 1 pd repeat 2 [ hop 9 ] pu"]
    let a' := a.submit ("cs " ++ text)
    let b' := b.submit ("cs " ++ text)
    a.world.numbers = [0] ∧ b.world.numbers = [0, 1] ∧
      a'.error.isSome = true ∧ a'.world.numbers = [2] ∧ b'.world.numbers = [3] ∧
      b'.error = a'.error ∧ b'.statements + a.statements = a'.statements + b.statements ∧
      b'.world.log.toList.map (DrawEvent.renumber (a.world.nextId + ·)) =
        a'.world.log.toList.map (DrawEvent.renumber (b.world.nextId + ·)) := by
  have sound := sound_submitAll {} {} {} {} ["to hop :n fd :n end"]
  have kept := sound.registry_submitAll ["fd 10"] (by decide +kernel)
  have kept' := sound.registry_submitAll ["pu fd 1 pd repeat 2 [ hop 9 ] pu"]
    (by decide +kernel)
  have split (session : Session) (first second : String) :
      (session.submitAll [first]).submitAll [second] = session.submitAll [first, second] := rfl
  rw [split] at kept kept'
  obtain ⟨_, _, _, _, _, error, count, log⟩ := submit_cleared id {} {} {} {} {} {}
    ["to hop :n fd :n end", "fd 10"]
    ["to hop :n fd :n end", "pu fd 1 pd repeat 2 [ hop 9 ] pu"]
    "repeat 2 [ cs hop 5 ] wait 1 repeat 2 [ cs fd :x ]"
    (by decide) (by decide) (by decide +kernel) (by decide +kernel) (.of_eq (kept'.trans kept.symm))
  refine ⟨?_, ?_, ?_, ?_, ?_, error, count, log⟩ <;> decide +kernel

end Session

end Logo
