import Logo.Proofs.Limits
import Logo.Proofs.Reaching

/-!
Two sessions side by side that read the same words. What performing a statement comes to is
decided by its checks and by its effects, so the worlds of two sessions stay related if single
effects keep them related and the checks find the same faults. If the parser keeps the two in
step as well, whole submissions do, and they end with the same report. A fault can be excused:
where the first session fails by it, nothing more is asked of the second one.
-/
namespace Logo

namespace Check

/-- Of the registry, only which names are protected matters, and of the settings the limits. -/
theorem firstFault_congr {settings settings' : Settings} {registry registry' : Registry}
    (steps : settings'.stepLimit = settings.stepLimit)
    (levels : settings'.maxDepth = settings.maxDepth)
    (names : ∀ name, registry'.isProtected name = registry.isProtected name)
    (charged : Nat) (checks : List Check) :
    firstFault settings' registry' charged checks =
      firstFault settings registry charged checks := by
  induction checks generalizing charged with
  | nil => rfl
  | cons check checks ih =>
      have here : check.fault? settings' registry' charged =
          check.fault? settings registry charged := by
        cases check <;> simp only [fault?, steps, levels, names]
      rw [firstFault, firstFault, here, ih]

end Check

namespace World

variable {settings settings' : Settings} {related : World → World → Prop}

/-- A statement whose checks hold leaves what its effects make of the world, and any other one
leaves the world as it was. -/
theorem attempt_cases (settings : Settings) (i : Instruction) (world : World) :
    (∃ effects later,
      Check.firstFault settings world.registry 0 (i.checks 1 world.bindings) = none ∧
      i.expand world.bindings = .ok effects ∧ world.execute settings effects = .ok later ∧
      world.attempt settings i = (later, none)) ∨
    ∃ fault, Check.firstFault settings world.registry 0 (i.checks 1 world.bindings) = some fault ∧
      world.attempt settings i = (world, some fault) := by
  cases ended : i.perform settings { world } with
  | ok _ run =>
      obtain ⟨effects, expanded, executed⟩ := i.executes_perform settings _ run ended
      exact .inl ⟨effects, run.world, (Instruction.perform_ok ended).1, expanded, executed,
        attempt_of_ok ended⟩
  | error fault run =>
      exact .inr ⟨fault, (Instruction.perform_error ended).1, attempt_of_error ended⟩

/-- The same effect leaves related worlds related. `view` is what is compared of effects. -/
def Keeps (settings settings' : Settings) (related : World → World → Prop)
    (view : Effect → Effect) : Prop :=
  ∀ ⦃a b later later' : World⦄ ⦃effect effect' : Effect⦄, related a b →
    view effect' = view effect → a.apply settings effect = .ok later →
    b.apply settings' effect' = .ok later' → related later later'

theorem Keeps.execute {view : Effect → Effect} (keeps : Keeps settings settings' related view)
    {effects effects' : List Effect} {a b later later' : World} (worlds : related a b)
    (same : effects'.map view = effects.map view)
    (executed : a.execute settings effects = .ok later)
    (executed' : b.execute settings' effects' = .ok later') : related later later' := by
  induction effects generalizing effects' a b with
  | nil =>
      cases List.map_eq_nil_iff.mp same
      cases executed
      cases executed'
      exact worlds
  | cons effect effects ih =>
      obtain ⟨effect', rest', rfl, first, rest⟩ := List.map_eq_cons_iff.mp same
      obtain ⟨between, applied, executed⟩ := execute_cons executed
      obtain ⟨between', applied', executed'⟩ := execute_cons executed'
      exact ih (keeps worlds first applied applied') rest executed executed'

/-- Statements with the same effects and the same first fault leave related worlds related. -/
theorem Keeps.attempt {view : Effect → Effect} (keeps : Keeps settings settings' related view)
    {a b : World} {i j : Instruction} (worlds : related a b)
    (expansions : (j.expand b.bindings).map (List.map view) =
      (i.expand a.bindings).map (List.map view))
    (faults : Check.firstFault settings' b.registry 0 (j.checks 1 b.bindings) =
      Check.firstFault settings a.registry 0 (i.checks 1 a.bindings)) :
    (b.attempt settings' j).2 = (a.attempt settings i).2 ∧
      related (a.attempt settings i).1 (b.attempt settings' j).1 := by
  obtain ⟨effects, later, passed, expanded, executed, result⟩ | ⟨fault, failed, result⟩ :=
    attempt_cases settings i a
  · obtain ⟨effects', later', _, expanded', executed', result'⟩ | ⟨fault, failed', _⟩ :=
      attempt_cases settings' j b
    · rw [expanded, expanded'] at expansions
      rw [result, result']
      exact ⟨rfl, keeps.execute worlds (Except.ok.inj expansions) executed executed'⟩
    · cases failed'.symm.trans (faults.trans passed)
  · obtain ⟨_, _, passed, _⟩ | ⟨fault', failed', result'⟩ := attempt_cases settings' j b
    · cases passed.symm.trans (faults.trans failed)
    · have same : some fault' = some fault := failed'.symm.trans (faults.trans failed)
      rw [result, result', same]
      exact ⟨rfl, worlds⟩

end World

/-- What two parsers make of a word: both refuse it for the same reason, or both take it in and
are related afterwards, and then the statements are related that it completes. -/
inductive Fed (parsers : Parser → Parser → Prop) (statements : Instruction → Instruction → Prop) :
    Except Fault (Parser × Option Instruction) → Except Fault (Parser × Option Instruction) → Prop
  | refused (fault : Fault) : Fed parsers statements (.error fault) (.error fault)
  | opened {p q : Parser} (h : parsers p q) : Fed parsers statements (.ok (p, none)) (.ok (q, none))
  | completed {p q : Parser} {i j : Instruction} (h : parsers p q) (done : statements i j) :
      Fed parsers statements (.ok (p, some i)) (.ok (q, some j))

theorem Fed.refl (result : Except Fault (Parser × Option Instruction)) :
    Fed Eq Eq result result := by
  obtain fault | ⟨p, _ | i⟩ := result
  · exact .refused fault
  · exact .opened rfl
  · exact .completed rfl rfl

/-- Relations between the worlds, the parsers and the statements of two sessions that are kept
by reading a word and by performing a statement. -/
structure Lockstep (excused : Fault → Prop) (settings settings' : Settings)
    (worlds : World → World → Prop) (parsers : Parser → Parser → Prop)
    (statements : Instruction → Instruction → Prop) : Prop where
  idle : parsers {} {}
  feed {a b : World} {p q : Parser} (h : worlds a b) (h' : parsers p q) (token : Token) :
    (∃ fault, p.feed a.registry settings.maxDepth token = .error fault ∧ excused fault) ∨
      Fed parsers statements (p.feed a.registry settings.maxDepth token)
        (q.feed b.registry settings'.maxDepth token)
  attempt {a b : World} {i j : Instruction} (h : worlds a b) (h' : statements i j) :
    (∃ fault, (a.attempt settings i).2 = some fault ∧ excused fault) ∨
      (b.attempt settings' j).2 = (a.attempt settings i).2 ∧
        worlds (a.attempt settings i).1 (b.attempt settings' j).1

namespace Session

/-- Two sessions in step. They have performed the same number of statements since their counts
were `m` and `n`. -/
structure Beside (settings settings' : Settings) (worlds : World → World → Prop)
    (parsers : Parser → Parser → Prop) (m n : Nat) (a b : Session) : Prop where
  world : worlds a.world b.world
  parser : parsers a.parser b.parser
  settings : a.settings = settings
  settings' : b.settings = settings'
  count : b.statements + m = a.statements + n
  error : b.error = a.error

/-- The session has not failed for a reason that is excused. -/
def Spared (excused : Fault → Prop) (session : Session) : Prop :=
  ∀ error, session.error = some error → ¬ excused error.fault

end Session

namespace Lockstep

variable {excused : Fault → Prop} {settings settings' : Settings} {worlds : World → World → Prop}
  {parsers : Parser → Parser → Prop} {statements : Instruction → Instruction → Prop}
  {m n : Nat} {a b : Session}

theorem performStatement (step : Lockstep excused settings settings' worlds parsers statements)
    (h : a.Beside settings settings' worlds parsers m n b) {i j : Instruction}
    (same : statements i j) (text : String)
    (spared : (a.performStatement text i).Spared excused) :
    (a.performStatement text i).Beside settings settings' worlds parsers m n
      (b.performStatement text j) := by
  obtain ⟨world, parser, rfl, rfl, count, error⟩ := h
  simp only [Session.performStatement] at spared ⊢
  cases attempted : a.world.attempt a.settings i with
  | mk later verdict =>
      rw [attempted] at spared
      obtain ⟨fault, failed, excuse⟩ | ⟨verdict', related⟩ := step.attempt world same
      · rw [attempted] at failed
        cases failed
        exact absurd excuse (spared _ rfl)
      · cases attempted' : b.world.attempt b.settings j with
        | mk later' verdict'' =>
            rw [attempted, attempted'] at verdict' related
            cases verdict'
            cases verdict with
            | none => exact ⟨related, parser, rfl, rfl, by dsimp only; omega, error⟩
            | some fault => exact ⟨related, step.idle, rfl, rfl, count, rfl⟩

theorem read (step : Lockstep excused settings settings' worlds parsers statements)
    (h : a.Beside settings settings' worlds parsers m n b) (text : String) (token : Token)
    (spared : (a.read text token).Spared excused) :
    (a.read text token).Beside settings settings' worlds parsers m n (b.read text token) := by
  have fed := step.feed h.world h.parser token
  rw [← h.settings, ← h.settings'] at fed
  obtain ⟨fault, refused, excuse⟩ | fed := fed
  · simp only [Session.read, refused] at spared
    exact absurd excuse (spared _ rfl)
  · simp only [Session.read] at spared ⊢
    generalize a.parser.feed a.world.registry a.settings.maxDepth token = result at fed spared ⊢
    generalize b.parser.feed b.world.registry b.settings.maxDepth token = result' at fed ⊢
    cases fed with
    | refused fault => exact ⟨h.world, step.idle, h.settings, h.settings', h.count, rfl⟩
    | opened parser => exact ⟨h.world, parser, h.settings, h.settings', h.count, h.error⟩
    | @completed p q i j parser same =>
        have next : { a with parser := p }.Beside settings settings' worlds parsers m n
            { b with parser := q } :=
          ⟨h.world, parser, h.settings, h.settings', h.count, h.error⟩
        exact step.performStatement next same text spared

theorem readAll (step : Lockstep excused settings settings' worlds parsers statements)
    (h : a.Beside settings settings' worlds parsers m n b) (text : String) (tokens : List Token)
    (spared : (a.readAll text tokens).Spared excused) :
    (a.readAll text tokens).Beside settings settings' worlds parsers m n
      (b.readAll text tokens) := by
  induction tokens generalizing a b with
  | nil => exact h
  | cons token tokens ih =>
      simp only [Session.readAll] at spared ⊢
      by_cases failed : (a.read text token).error.isSome
      · rw [if_pos failed] at spared ⊢
        have next := step.read h text token spared
        rw [if_pos (next.error ▸ failed)]
        exact next
      · rw [if_neg failed] at spared ⊢
        -- without an error there is nothing to excuse
        have none : (a.read text token).error = none := by simpa using failed
        have spares : (a.read text token).Spared excused := by
          intro error found
          rw [none] at found
          cases found
        have next := step.read h text token spares
        rw [if_neg (next.error ▸ failed)]
        exact ih next spared

theorem submit (step : Lockstep excused settings settings' worlds parsers statements)
    (h : a.Beside settings settings' worlds parsers m n b) (text : String)
    (spared : (a.submit text).Spared excused) :
    (a.submit text).Beside settings settings' worlds parsers m n (b.submit text) := by
  have start : { a with error := none }.Beside settings settings' worlds parsers m n
      { b with error := none } :=
    ⟨h.world, h.parser, h.settings, h.settings', h.count, rfl⟩
  exact step.readAll start text (tokenize text) spared

/-- Sessions that are in step stay so for as long as no submission to the first one ends with a
fault that is excused. -/
theorem submitAll (step : Lockstep excused settings settings' worlds parsers statements)
    (h : a.Beside settings settings' worlds parsers m n b) (texts : List String)
    (spared : ∀ k < texts.length, (a.submitAll (texts.take (k + 1))).Spared excused) :
    (a.submitAll texts).Beside settings settings' worlds parsers m n (b.submitAll texts) := by
  induction texts generalizing a b with
  | nil => exact h
  | cons text texts ih =>
      have first : (a.submit text).Spared excused := spared 0 (Nat.zero_lt_succ _)
      exact ih (step.submit h text first) fun k later => spared (k + 1) (Nat.succ_lt_succ later)

end Lockstep

end Logo
