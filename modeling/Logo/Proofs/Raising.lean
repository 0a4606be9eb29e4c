import Logo.Proofs.Lockstep

/-!
Higher limits. Limits are compared with what has been used up, and nothing else looks at them,
so the same words are read and the same statements performed with higher ones, for as long as
no lower one is reached. That holds of failures too: they come from the same check, are found
at the same word and take back the same statement.
-/
namespace Logo

/-- Whether the fault is that a limit has been reached. -/
def Fault.isLimit : Fault → Bool
  | .stepLimit _ | .tooDeep _ => true
  | _ => false

/-- The settings are the same but for limits, of which none is lower. -/
structure Settings.Raised (settings higher : Settings) : Prop where
  rotations : higher.recordRotations = settings.recordRotations
  steps : settings.stepLimit ≤ higher.stepLimit
  levels : settings.maxDepth ≤ higher.maxDepth

theorem Parser.feed_raised {maxDepth higher : Nat} (h : maxDepth ≤ higher) (registry : Registry)
    (token : Token) (parser : Parser) :
    parser.feed registry maxDepth token = .error (.tooDeep maxDepth) ∨
      parser.feed registry higher token = parser.feed registry maxDepth token := by
  obtain ⟨_ | ⟨top, below⟩⟩ := parser
  · exact .inr rfl
  · rw [feed_open, feed_open]
    by_cases ends : endsEnclosing token top below
    · rw [if_pos ends, if_pos ends]
      exact .inr rfl
    · rw [if_neg ends, if_neg ends]
      cases top.accept registry token with
      | error fault => exact .inr rfl
      | ok step =>
          cases step with
          | consumed next => exact .inr rfl
          | nested next =>
              by_cases deep : maxDepth ≤ below.length + 1
              · exact .inl (by simp only [if_pos deep])
              · have room : ¬ higher ≤ below.length + 1 := by omega
                exact .inr (by simp only [if_neg deep, if_neg room])

namespace Check

variable {settings higher : Settings}

theorem fault?_raised (h : settings.Raised higher) (registry : Registry) (charged : Nat)
    (check : Check) :
    (∃ fault, check.fault? settings registry charged = some fault ∧ fault.isLimit = true) ∨
      check.fault? higher registry charged = check.fault? settings registry charged := by
  have steps := h.steps
  have levels := h.levels
  cases check with
  | step =>
      by_cases spent : settings.stepLimit < charged + 1
      · exact .inl ⟨_, if_pos spent, rfl⟩
      · have left : ¬ higher.stepLimit < charged + 1 := by omega
        exact .inr ((if_neg left).trans (if_neg spent).symm)
  | level depth =>
      by_cases deep : settings.maxDepth < depth
      · exact .inl ⟨_, if_pos deep, rfl⟩
      · have room : ¬ higher.maxDepth < depth := by omega
        exact .inr ((if_neg room).trans (if_neg deep).symm)
  | bound value bindings | free name | shape => exact .inr rfl

/-- The first fault is that of a limit, or it is the same with higher limits. -/
theorem firstFault_raised (h : settings.Raised higher) (registry : Registry) (charged : Nat)
    (checks : List Check) :
    (∃ fault, firstFault settings registry charged checks = some fault ∧ fault.isLimit = true) ∨
      firstFault higher registry charged checks = firstFault settings registry charged checks := by
  induction checks generalizing charged with
  | nil => exact .inr rfl
  | cons check checks ih =>
      simp only [firstFault]
      obtain ⟨fault, found, limit⟩ | same := fault?_raised h registry charged check
      · exact .inl ⟨fault, by rw [found]; rfl, limit⟩
      · rw [same]
        cases check.fault? settings registry charged with
        | some fault => exact .inr rfl
        | none => exact ih (charged + check.steps)

end Check

theorem World.apply_raised {settings higher : Settings} (h : settings.Raised higher)
    (world : World) (effect : Effect) :
    world.apply higher effect = world.apply settings effect := by
  cases effect with
  | turn angle => simp only [apply, h.rotations]
  | move distance | wait seconds | pen down | clear | define name parameters body => rfl

theorem World.keeps_raised {settings higher : Settings} (h : settings.Raised higher) :
    Keeps settings higher Eq id := by
  rintro world _ later later' effect _ rfl rfl applied applied'
  rw [apply_raised h] at applied'
  exact Except.ok.inj (applied.symm.trans applied')

theorem Settings.Raised.lockstep {settings higher : Settings} (h : settings.Raised higher) :
    Lockstep (·.isLimit = true) settings higher Eq Eq Eq where
  idle := rfl
  feed := by
    rintro world _ parser _ rfl rfl token
    obtain deep | same := Parser.feed_raised h.levels world.registry token parser
    · exact .inl ⟨_, deep, rfl⟩
    · rw [same]
      exact .inr (.refl _)
  attempt := by
    rintro world _ i _ rfl rfl
    obtain ⟨fault, found, limit⟩ | same :=
      Check.firstFault_raised h world.registry 0 (i.checks 1 world.bindings)
    · obtain ⟨_, _, passed, _⟩ | ⟨fault', failed, result⟩ := world.attempt_cases settings i
      · cases passed.symm.trans found
      · cases failed.symm.trans found
        exact .inl ⟨fault, by rw [result], limit⟩
    · exact .inr ((World.keeps_raised h).attempt rfl rfl same)

namespace Session

theorem Beside.eq_withSettings {settings settings' : Settings} {m : Nat} {a b : Session}
    (h : a.Beside settings settings' Eq Eq m m b) : b = { a with settings := settings' } := by
  have count : b.statements = a.statements := Nat.add_right_cancel h.count
  change (⟨b.world, b.settings, b.parser, b.statements, b.error⟩ : Session) = _
  rw [← h.world, ← h.parser, h.settings', count, h.error]

/-- A session goes the same way with higher limits, as long as none of its submissions ends
because a limit has been reached: after each of them, all but the settings is the same, and so
is the report of any other failure. -/
theorem submitAll_raised (session : Session) (higher : Settings) (texts : List String)
    (raised : session.settings.Raised higher)
    (spared : ∀ k < texts.length, ∀ error ∈ (session.submitAll (texts.take (k + 1))).error,
      error.fault.isLimit = false) (n : Nat) :
    { session with settings := higher }.submitAll (texts.take n) =
      { session.submitAll (texts.take n) with settings := higher } := by
  have start : session.Beside session.settings higher Eq Eq 0 0
      { session with settings := higher } := ⟨rfl, rfl, rfl, rfl, rfl, rfl⟩
  refine (raised.lockstep.submitAll start (texts.take n) ?_).eq_withSettings
  intro k short error found limit
  rw [List.length_take] at short
  rw [List.take_take, Nat.min_eq_left (by omega)] at found
  cases limit.symm.trans (spared k (by omega) error found)

/-- The loop needs all seven steps and all three levels that the lower limits allow, and the
second submission fails for want of a parameter. -/
theorem submitAll_raised_tight :
    let session := initial ⟨false, 7, 3⟩ {} {} {}
    let texts := ["to hop :n fd :n end repeat 2 [ hop 5 ]", "pu repeat 2 [ cs fd :x ]", "hop 1 rt"]
    session.settings.Raised {} ∧
      (∀ k < texts.length, ∀ error ∈ (session.submitAll (texts.take (k + 1))).error,
        error.fault.isLimit = false) ∧
      (session.submitAll (texts.take 2)).error.isSome ∧
      { session with settings := {} }.submitAll (texts.take 2) =
        { session.submitAll (texts.take 2) with settings := {} } := by
  intro session texts
  have raised : session.settings.Raised {} := ⟨rfl, by decide, by decide⟩
  have spared : ∀ k < texts.length, ∀ error ∈ (session.submitAll (texts.take (k + 1))).error,
      error.fault.isLimit = false := by decide +kernel
  exact ⟨raised, spared, by decide +kernel, submitAll_raised session {} texts raised spared 2⟩

end Session

end Logo
