import Logo.Prompt
import Logo.Proofs.Effects
import Logo.Proofs.Numbering

/-!
What the prompt prints of the log. It keeps the number of entries that it has printed and takes
a log for a new one if it has become shorter. A line can clear the log and fill it again, though,
and then as many of the new entries are left out as there were old ones.
-/
namespace Logo

namespace World

variable {settings : Settings} {start world later : World} {effect : Effect}

/-- The entries after the effects, each with whether one of the effects has appended it, where
`entries` are those before them. -/
def marked (settings : Settings) (world : World) (entries : List (DrawEvent × Bool)) :
    List Effect → List (DrawEvent × Bool)
  | [] => entries
  | effect :: effects =>
    match world.apply settings effect with
    | .ok next =>
      let appended := next.log.toList.drop world.log.size
      next.marked settings (if effect.clears then [] else entries ++ appended.map (·, true)) effects
    | .error _ => entries

/-- Whether the entry is new since `world`: there was none of its number in the log or, for one
that has no number, it has been appended since. -/
def isNew (world : World) (entry : DrawEvent × Bool) : Bool :=
  match entry.1.id? with
  | some id => !world.numbers.contains id
  | none => entry.2

/-- The entries of the log after the effects that are new. -/
def news (settings : Settings) (world : World) (effects : List Effect) : List DrawEvent :=
  let entries := world.marked settings (world.log.toList.map (·, false)) effects
  (entries.filter world.isNew).map Prod.fst

theorem grows_apply (stays : effect.clears = false)
    (h : world.apply settings effect = .ok later) : Grows world later := by
  cases effect with
  | move distance =>
      cases h
      exact world.grows_move distance
  | turn angle =>
      cases h
      exact world.grows_turn _ angle
  | wait seconds =>
      cases h
      exact world.grows_wait seconds
  | pen down =>
      cases h
      exact world.grows_setPen down
  | clear => cases stays
  | define name parameters body =>
      obtain ⟨registry, _, same⟩ := ok_of_bind h
      cases same
      exact ⟨rfl, List.prefix_rfl⟩

/-- An effect that does not clear the log appends entries to it, and gives them numbers that come
after those given before. -/
theorem appended_apply (stays : effect.clears = false)
    (h : world.apply settings effect = .ok later) :
    ∃ appended, later.log.toList = world.log.toList ++ appended ∧
      ∀ event ∈ appended, ∀ id, event.id? = some id → world.nextId ≤ id := by
  obtain ⟨log, _⟩ | ⟨event, numbered, log, _⟩ | ⟨event, bare, log, _⟩ | ⟨log, _⟩ := apply_log h
  · exact ⟨[], by rw [log, List.append_nil], nofun⟩
  · refine ⟨[event], by rw [log, Array.toList_push], ?_⟩
    intro other only id same
    rw [List.mem_singleton.mp only, numbered] at same
    exact Nat.le_of_eq (Option.some.inj same)
  · refine ⟨[event], by rw [log, Array.toList_push], ?_⟩
    intro other only id same
    rw [List.mem_singleton.mp only, bare] at same
    cases same
  · -- the log is empty now, so it was empty before
    have kept := (grows_apply stays h).log
    rw [log] at kept ⊢
    exact ⟨[], by rw [List.prefix_nil.mp kept]; rfl, nofun⟩

/-- What is left of the log, depending on whether it has been cleared. -/
def kept (world : World) (cleared : Bool) : List DrawEvent :=
  if cleared then [] else world.log.toList

/-- The world has come from `start`, where `added` has been appended to what was kept. -/
structure Grown (start : World) (cleared : Bool) (added : List DrawEvent) (world : World) :
    Prop where
  log : world.log.toList = start.kept cleared ++ added
  next : start.nextId ≤ world.nextId
  above : ∀ event ∈ added, ∀ id, event.id? = some id → start.nextId ≤ id

/-- The entries of such a world, with what has been appended marked. -/
def grownEntries (start : World) (cleared : Bool) (added : List DrawEvent) :
    List (DrawEvent × Bool) :=
  (start.kept cleared).map (·, false) ++ added.map (·, true)

theorem Grown.apply {cleared : Bool} {added : List DrawEvent} (h : Grown start cleared added world)
    (applied : world.apply settings effect = .ok later) :
    ∃ more, Grown start (effect.clears || cleared) more later ∧
      (if effect.clears then [] else start.grownEntries cleared added ++
        (later.log.toList.drop world.log.size).map (·, true)) =
        start.grownEntries (effect.clears || cleared) more := by
  have next := Nat.le_trans h.next (continues_apply applied).nextId
  cases wipes : effect.clears with
  | true =>
      refine ⟨[], ⟨?_, next, nofun⟩, rfl⟩
      cases effect with
      | clear =>
          cases applied
          rfl
      | move _ | turn _ | wait _ | pen _ | define _ _ _ => cases wipes
  | false =>
      obtain ⟨appended, log, numbers⟩ := appended_apply wipes applied
      refine ⟨added ++ appended, ⟨?_, next, ?_⟩, ?_⟩
      · rw [log, h.log, List.append_assoc]
        rfl
      · intro event among id same
        rcases List.mem_append.mp among with earlier | among
        · exact h.above event earlier id same
        · exact Nat.le_trans h.next (numbers event among id same)
      · have drawn : later.log.toList.drop world.log.size = appended := by
          rw [log]
          exact List.drop_left
        rw [drawn]
        simp [grownEntries]

theorem Grown.execute {cleared : Bool} {added : List DrawEvent} {effects : List Effect}
    (h : Grown start cleared added world)
    (executed : world.execute settings effects = .ok later) :
    ∃ more, Grown start (effects.any Effect.clears || cleared) more later ∧
      world.marked settings (start.grownEntries cleared added) effects =
        start.grownEntries (effects.any Effect.clears || cleared) more := by
  induction effects generalizing world cleared added with
  | nil =>
      cases executed
      exact ⟨added, h, rfl⟩
  | cons effect effects ih =>
      obtain ⟨between, applied, executed⟩ := execute_cons executed
      obtain ⟨more, grown, entries⟩ := h.apply applied
      obtain ⟨last, grown, rest⟩ := ih grown executed
      rw [Bool.or_left_comm, ← Bool.or_assoc, ← List.any_cons] at grown rest
      refine ⟨last, grown, ?_⟩
      rw [marked, applied]
      simp only [entries, rest]

theorem grown_of_execute {effects : List Effect}
    (executed : world.execute settings effects = .ok later) :
    ∃ added, Grown world (effects.any Effect.clears) added later ∧
      world.marked settings (world.log.toList.map (·, false)) effects =
        world.grownEntries (effects.any Effect.clears) added := by
  have start : Grown world false [] world := ⟨(List.append_nil _).symm, Nat.le_refl _, nofun⟩
  obtain ⟨added, grown, entries⟩ := start.execute executed
  rw [Bool.or_false] at grown entries
  have begun : world.grownEntries false [] = world.log.toList.map (·, false) := by
    simp [grownEntries, kept]
  rw [begun] at entries
  exact ⟨added, grown, entries⟩

theorem size_le_of_execute {effects : List Effect} (stays : effects.any Effect.clears = false)
    (executed : world.execute settings effects = .ok later) : world.log.size ≤ later.log.size := by
  obtain ⟨added, grown, _⟩ := grown_of_execute executed
  have length := congrArg List.length grown.log
  rw [stays, List.length_append] at length
  change later.log.size = world.log.size + added.length at length
  omega

theorem isNew_of_mem {event : DrawEvent} (h : event ∈ world.log.toList) :
    world.isNew (event, false) = false := by
  cases number : event.id? with
  | none => simp [isNew, number]
  | some id =>
      have given : id ∈ world.numbers := List.mem_filterMap.mpr ⟨event, h, number⟩
      simp [isNew, number, given]

theorem isNew_of_above (numbered : world.Numbered) {event : DrawEvent}
    (h : ∀ id, event.id? = some id → world.nextId ≤ id) : world.isNew (event, true) = true := by
  cases number : event.id? with
  | none => simp [isNew, number]
  | some id =>
      have free : id ∉ world.numbers := fun given =>
        Nat.not_lt.mpr (h id number) (numbered.below id given)
      simp [isNew, number, free]

theorem mem_of_mem_kept {cleared : Bool} {event : DrawEvent} (h : event ∈ world.kept cleared) :
    event ∈ world.log.toList := by
  cases cleared with
  | true => cases h
  | false => exact h

/-- The new entries are those behind the old ones, or all of them if the log has been cleared. -/
theorem news_eq (numbered : world.Numbered) {effects : List Effect}
    (executed : world.execute settings effects = .ok later) :
    world.news settings effects =
      later.log.toList.drop (if effects.any Effect.clears then 0 else world.log.size) := by
  obtain ⟨added, grown, entries⟩ := grown_of_execute executed
  have old : ((world.kept (effects.any Effect.clears)).map (·, false)).filter world.isNew = [] := by
    simp only [List.filter_eq_nil_iff, List.forall_mem_map, Bool.not_eq_true]
    exact fun event held => isNew_of_mem (mem_of_mem_kept held)
  have fresh : (added.map (·, true)).filter world.isNew = added.map (·, true) := by
    simp only [List.filter_eq_self, List.forall_mem_map]
    exact fun event held => isNew_of_above numbered (grown.above event held)
  have length : (world.kept (effects.any Effect.clears)).length =
      if effects.any Effect.clears then 0 else world.log.size := by
    unfold kept
    split <;> rfl
  have news : world.news settings effects = added := by
    rw [World.news, entries, grownEntries, List.filter_append, old, fresh, List.nil_append,
      List.map_map]
    exact List.map_id added
  rw [news, grown.log, ← length, List.drop_left]

end World

/-- What a submission of the text adds to the log, as far as it is still there at the end. -/
def Session.news (session : Session) (text : String) : List DrawEvent :=
  session.world.news session.settings (session.effectsBy [text])

/-- Entries as the prompt prints them, each on a line of its own. -/
def listing (entries : List DrawEvent) : String :=
  String.join (entries.map (·.display ++ "\n"))

theorem listing_append (entries more : List DrawEvent) :
    listing (entries ++ more) = listing entries ++ listing more := by
  rw [listing, List.map_append, String.join_append]
  rfl

theorem length_le_listing (entries : List DrawEvent) :
    entries.length ≤ (listing entries).length := by
  induction entries with
  | nil => exact Nat.zero_le _
  | cons entry entries ih =>
      have first : listing [entry] = entry.display ++ "\n" := by simp [listing]
      have line : (entry.display ++ "\n").length = entry.display.length + 1 :=
        String.length_append _ _
      rw [← List.singleton_append, listing_append, String.length_append, first, line,
        List.length_append, List.length_singleton]
      omega

/-- Entries that are left out are missed. -/
theorem listing_drop_eq_iff (entries : List DrawEvent) (n : Nat) :
    listing (entries.drop n) = listing entries ↔ n = 0 ∨ entries = [] := by
  constructor
  · intro same
    have split := listing_append (entries.take n) (entries.drop n)
    rw [List.take_append_drop] at split
    have length := congrArg String.length (same.trans split)
    rw [String.length_append] at length
    have none : (entries.take n).length = 0 :=
      Nat.eq_zero_of_le_zero (Nat.le_trans (length_le_listing _) (by omega))
    exact List.take_eq_nil_iff.mp (List.eq_nil_of_length_eq_zero none)
  · rintro (rfl | rfl)
    · rfl
    · rw [List.drop_nil]

theorem History.present_submit (history : History) (text : String) :
    (history.submit text).present = history.present.submit text := by
  simp only [submit]
  split <;> rfl

namespace Prompt

/-- The line is submitted, and is not a request to the prompt itself. -/
def Submits (line : String) : Prop :=
  Text.trim line ≠ ".quit" ∧ Text.trim line ≠ ".undo" ∧ Text.trim line ≠ ".redo"

instance : DecidablePred Submits := fun _ => inferInstanceAs (Decidable (_ ∧ _))

/-- The prompt after the lines. -/
def handleAll (prompt : Prompt) (lines : List String) : Prompt :=
  lines.foldl (fun prompt line => (prompt.handle line).prompt) prompt

theorem handle_of_submits {line : String} (h : Submits line) (prompt : Prompt) :
    prompt.handle line = prompt.submit (withoutLineEnd line) := by
  obtain ⟨quit, undo, redo⟩ := h
  unfold handle
  split
  · next same => exact absurd same quit
  · next same => exact absurd same undo
  · next same => exact absurd same redo
  · rfl

theorem session_submit (prompt : Prompt) (text : String) :
    (prompt.submit text).prompt.session = prompt.session.submit text := by
  simp only [submit, report, session, History.present_submit]

/-- All of the log has been printed, or left out for good. -/
structure Settled (prompt : Prompt) : Prop where
  reported : prompt.reported = prompt.session.world.log.size
  numbered : prompt.session.world.Numbered

theorem Settled.submit {prompt : Prompt} (h : prompt.Settled) (text : String) :
    (prompt.submit text).prompt.Settled := by
  constructor
  · simp only [Prompt.submit, report, session]
  · rw [session_submit]
    exact (prompt.session.continues_submit text).numbered h.numbered

theorem Settled.handleLines {prompt : Prompt} (h : prompt.Settled) {lines : List String}
    (plain : ∀ line ∈ lines, Submits line) : (prompt.handleAll lines).Settled := by
  induction lines generalizing prompt with
  | nil => exact h
  | cons line lines ih =>
      obtain ⟨here, rest⟩ := List.forall_mem_cons.mp plain
      have next : (prompt.handle line).prompt.Settled := by
        rw [handle_of_submits here]
        exact h.submit _
      rw [handleAll, List.foldl_cons]
      exact ih next rest

/-- How many of the new entries are not printed. -/
def skipped (prompt : Prompt) (text : String) : Nat :=
  if (prompt.session.effectsBy [text]).any Effect.clears ∧
      prompt.session.world.log.size ≤ (prompt.session.submit text).world.log.size
  then prompt.session.world.log.size else 0

theorem Settled.news_eq {prompt : Prompt} (h : prompt.Settled) (text : String) :
    prompt.session.news text = (prompt.session.submit text).world.log.toList.drop
      (if (prompt.session.effectsBy [text]).any Effect.clears then 0
        else prompt.session.world.log.size) :=
  World.news_eq h.numbered (prompt.session.execute_effectsBy [text])

/-- The prompt goes by lengths alone, and so prints the new entries but for those it skips. -/
theorem Settled.unreported_submit {prompt : Prompt} (h : prompt.Settled) (text : String) :
    unreported { prompt with history := prompt.history.submit text } =
      (prompt.session.news text).drop (prompt.skipped text) := by
  have session : Prompt.session { prompt with history := prompt.history.submit text } =
      prompt.session.submit text := by
    simp only [session, History.present_submit]
  unfold unreported
  rw [session]
  dsimp only
  rw [h.reported, h.news_eq, skipped]
  cases cleared : (prompt.session.effectsBy [text]).any Effect.clears with
  | true =>
      by_cases shorter :
          (prompt.session.submit text).world.log.size < prompt.session.world.log.size
      · simp [shorter, Nat.not_le.mpr shorter]
      · simp [shorter, Nat.not_lt.mp shorter]
  | false =>
      have longer : prompt.session.world.log.size ≤ (prompt.session.submit text).world.log.size :=
        World.size_le_of_execute cleared (prompt.session.execute_effectsBy [text])
      simp [Nat.not_lt.mpr longer]

theorem Settled.output_submit {prompt : Prompt} (h : prompt.Settled) (text : String) :
    (prompt.submit text).output =
      listing ((prompt.session.news text).drop (prompt.skipped text)) ++
        ((prompt.session.submit text).error.map Diagnostic.describe).getD "" := by
  rw [← h.unreported_submit, ← session_submit]
  change "" ++ String.join _ ++ _ = _
  rw [String.empty_append]
  rfl

/-- Whether all that is new is printed. -/
theorem Settled.listing_eq_iff {prompt : Prompt} (h : prompt.Settled) (text : String) :
    listing ((prompt.session.news text).drop (prompt.skipped text)) =
        listing (prompt.session.news text) ↔
      ((prompt.session.effectsBy [text]).any Effect.clears →
        prompt.session.world.log.size = 0 ∨
          (prompt.session.submit text).world.log.size < prompt.session.world.log.size) := by
  rw [listing_drop_eq_iff, ← List.length_eq_zero_iff, h.news_eq, skipped]
  by_cases cleared : (prompt.session.effectsBy [text]).any Effect.clears
  · rw [if_pos cleared, List.drop_zero, Array.length_toList]
    simp only [cleared, true_and, true_imp_iff]
    split <;> omega
  · simp [cleared]

/-- What is printed for a line that is submitted, after any others from a session with an empty
log: the new entries of the log, in its order and each of them once, but for those that are
skipped, and then the report of the failure if there is one. All the new entries are there if and
only if the line has not cleared the log, or has found it empty, or has left it shorter than it
was. -/
theorem prints_news (session : Session) (svg json : Option String) (lines : List String)
    (line : String) (empty : session.world.log = #[]) (plain : ∀ line ∈ lines, Submits line)
    (submits : Submits line) :
    let prompt := handleAll { history := { present := session }, svg, json } lines
    let text := withoutLineEnd line
    let before := prompt.session
    let after := (prompt.handle line).prompt.session
    let printed := (before.news text).drop (prompt.skipped text)
    after = before.submit text ∧
      (prompt.handle line).output =
        listing printed ++ (after.error.map Diagnostic.describe).getD "" ∧
      (listing printed = listing (before.news text) ↔
        ((before.effectsBy [text]).any Effect.clears →
          before.world.log.size = 0 ∨ after.world.log.size < before.world.log.size)) := by
  intro prompt
  have start : Settled { history := { present := session }, svg, json } :=
    ⟨by rw [Prompt.session, empty]; rfl, World.numbered_of_empty empty⟩
  have settled : prompt.Settled := start.handleLines plain
  -- nothing else matters of the lines before this one
  clear_value prompt
  rw [handle_of_submits submits, session_submit]
  exact ⟨rfl, settled.output_submit _, settled.listing_eq_iff _⟩

/-- The line draws once more and then fails, so that the clearing is taken back. -/
theorem prints_news_failing :
    let prompt := handleAll { history := { present := {} } } ["fd 10 wait 2"]
    let line := "wait 3 fd 20 repeat 2 [ cs fd :x ]\r\n"
    let text := "wait 3 fd 20 repeat 2 [ cs fd :x ]"
    Submits "fd 10 wait 2" ∧ Submits line ∧ (prompt.session.news text).length = 2 ∧
      (prompt.session.submit text).error.isSome ∧
      (prompt.handle line).output = listing (prompt.session.news text) ++
        ((prompt.session.submit text).error.map Diagnostic.describe).getD "" := by
  intro prompt line text
  have plain : Submits "fd 10 wait 2" ∧ Submits line ∧ withoutLineEnd line = text := by
    decide +kernel
  have facts : (prompt.session.news text).length = 2 ∧
      (prompt.session.submit text).error.isSome ∧
      ¬ (prompt.session.effectsBy [text]).any Effect.clears := by decide +kernel
  obtain ⟨first, second, ends⟩ := plain
  obtain ⟨two, failed, stays⟩ := facts
  obtain ⟨submitted, output, all⟩ :=
    prints_news {} none none ["fd 10 wait 2"] line rfl (by simpa using first) second
  rw [ends] at submitted output all
  have complete := all.mpr fun cleared => absurd cleared stays
  rw [complete, submitted] at output
  exact ⟨first, second, two, failed, output⟩

/-- There is one old entry and there are two new ones, of which the first is not printed. -/
theorem clearing_hides_news :
    let prompt := handleAll { history := { present := {} } } ["fd 10"]
    let news := prompt.session.news "cs fd 20 fd 30"
    let reply := prompt.handle "cs fd 20 fd 30"
    Submits "fd 10" ∧ Submits "cs fd 20 fd 30" ∧ reply.prompt.session.error = none ∧
      news.length = 2 ∧ reply.output = listing (news.drop 1) ∧ reply.output ≠ listing news := by
  intro prompt news reply
  have plain : Submits "fd 10" ∧ Submits "cs fd 20 fd 30" ∧
      withoutLineEnd "cs fd 20 fd 30" = "cs fd 20 fd 30" := by decide +kernel
  have facts : news.length = 2 ∧ prompt.skipped "cs fd 20 fd 30" = 1 ∧
      (prompt.session.submit "cs fd 20 fd 30").error = none := by decide +kernel
  obtain ⟨first, second, ends⟩ := plain
  obtain ⟨two, one, fine⟩ := facts
  have start : Settled { history := { present := {} } } := ⟨rfl, World.numbered_of_empty rfl⟩
  have settled : prompt.Settled := start.handleLines (by simpa using first)
  have handled : reply = prompt.submit "cs fd 20 fd 30" := by
    change prompt.handle "cs fd 20 fd 30" = _
    rw [handle_of_submits second, ends]
  have output : reply.output = listing (news.drop 1) := by
    rw [handled, settled.output_submit, fine, one]
    exact String.append_empty
  refine ⟨first, second, ?_, two, output, ?_⟩
  · rw [handled, session_submit, fine]
  · rw [output, ne_eq, listing_drop_eq_iff, ← List.length_eq_zero_iff, two]
    decide

end Prompt

end Logo
