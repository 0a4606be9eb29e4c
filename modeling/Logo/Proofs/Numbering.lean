import Logo.Proofs.Expansion
import Logo.Proofs.Submission

/-!
The numbers of draw events. Clearing empties the log and keeps the counter, a failed statement
puts both back, and drawing advances both; through all of that a number that was once to be
seen in a log is never given to another event, for as long as a session goes on.
-/
namespace Logo

/-- The event with another number, if it has one. -/
def DrawEvent.renumber (f : Nat → Nat) : DrawEvent → DrawEvent
  | line id x1 y1 x2 y2 => line (f id) x1 y1 x2 y2
  | turn id change => turn (f id) change
  | wait seconds => wait seconds

namespace World

/-- The numbers of the events in the log, in its order. -/
def numbers (world : World) : List Nat := world.log.toList.filterMap DrawEvent.id?

/-- Numbers increase along the log, up to the one that comes next. -/
structure Numbered (world : World) : Prop where
  increasing : world.numbers.Pairwise (· < ·)
  below : ∀ id ∈ world.numbers, id < world.nextId

/-- `later` takes up the numbers where `world` has left off: an event of `later` that has one
of the numbers given before is an event that was there before. -/
structure Continues (world later : World) : Prop where
  numbered : world.Numbered → later.Numbered
  nextId : world.nextId ≤ later.nextId
  old : ∀ event ∈ later.log, ∀ id, event.id? = some id → id < world.nextId → event ∈ world.log

theorem Continues.refl (world : World) : Continues world world :=
  ⟨id, Nat.le_refl _, fun _ among _ _ _ => among⟩

theorem Continues.trans {a b c : World} (h : Continues a b) (h' : Continues b c) :
    Continues a c := by
  refine ⟨h'.numbered ∘ h.numbered, Nat.le_trans h.nextId h'.nextId, ?_⟩
  intro event among id numbered small
  have between := h'.old event among id numbered (Nat.lt_of_lt_of_le small h.nextId)
  exact h.old event between id numbered small

/-- All that an effect can do to the log and to the counter. -/
theorem apply_log {settings : Settings} {world later : World} {effect : Effect}
    (h : world.apply settings effect = .ok later) :
    (later.log = world.log ∧ later.nextId = world.nextId) ∨
    (∃ event, event.id? = some world.nextId ∧ later.log = world.log.push event ∧
      later.nextId = world.nextId + 1) ∨
    (∃ event, event.id? = none ∧ later.log = world.log.push event ∧
      later.nextId = world.nextId) ∨
    (later.log = #[] ∧ later.nextId = world.nextId) := by
  cases effect with
  | move distance =>
      cases h
      simp only [move]
      split
      · exact .inr (.inl ⟨_, rfl, rfl, rfl⟩)
      · exact .inl ⟨rfl, rfl⟩
  | turn angle =>
      cases h
      simp only [turn]
      split
      · exact .inr (.inl ⟨_, rfl, rfl, rfl⟩)
      · exact .inl ⟨rfl, rfl⟩
  | wait seconds =>
      cases h
      exact .inr (.inr (.inl ⟨_, rfl, rfl, rfl⟩))
  | pen down =>
      cases h
      exact .inl ⟨rfl, rfl⟩
  | clear =>
      cases h
      exact .inr (.inr (.inr ⟨rfl, rfl⟩))
  | define name parameters body =>
      obtain ⟨registry, _, same⟩ := ok_of_bind h
      cases same
      exact .inl ⟨rfl, rfl⟩

theorem numbers_push {world later : World} {event : DrawEvent}
    (h : later.log = world.log.push event) :
    later.numbers = world.numbers ++ event.id?.toList := by
  simp only [numbers, h, Array.toList_push, List.filterMap_append, List.filterMap_cons,
    List.filterMap_nil]
  cases event.id? <;> rfl

theorem Numbered.push {world later : World} {event : DrawEvent} (h : world.Numbered)
    (id : event.id? = some world.nextId) (log : later.log = world.log.push event)
    (next : later.nextId = world.nextId + 1) : later.Numbered := by
  have numbers : later.numbers = world.numbers ++ [world.nextId] := by
    rw [numbers_push log, id]
    rfl
  constructor
  · rw [numbers, List.pairwise_append]
    refine ⟨h.increasing, List.pairwise_singleton _ _, ?_⟩
    intro before among last same
    rw [List.mem_singleton.mp same]
    exact h.below before among
  · intro number among
    rw [numbers, List.mem_append, List.mem_singleton] at among
    rw [next]
    rcases among with among | rfl
    · exact Nat.lt_succ_of_lt (h.below number among)
    · exact Nat.lt_succ_self _

theorem Numbered.congr {world later : World} (h : world.Numbered)
    (numbers : later.numbers = world.numbers) (next : later.nextId = world.nextId) :
    later.Numbered := by
  constructor
  · rw [numbers]
    exact h.increasing
  · rw [numbers, next]
    exact h.below

theorem numbered_of_empty {world : World} (h : world.log = #[]) : world.Numbered := by
  have numbers : world.numbers = [] := by
    rw [World.numbers, h]
    rfl
  constructor
  · rw [numbers]
    exact List.Pairwise.nil
  · rw [numbers]
    exact fun _ among => nomatch among

theorem continues_apply {settings : Settings} {world later : World} {effect : Effect}
    (h : world.apply settings effect = .ok later) : Continues world later := by
  obtain ⟨log, next⟩ | ⟨event, id, log, next⟩ | ⟨event, id, log, next⟩ | ⟨log, next⟩ := apply_log h
  · have numbers : later.numbers = world.numbers := by rw [World.numbers, log, World.numbers]
    refine ⟨fun numbered => numbered.congr numbers next, Nat.le_of_eq next.symm, ?_⟩
    intro other among _ _ _
    rwa [log] at among
  · refine ⟨fun numbered => numbered.push id log next, by omega, ?_⟩
    intro other among number same small
    rw [log, Array.mem_push] at among
    rcases among with among | rfl
    · exact among
    · -- the event that was added has the first number that was not given before
      rw [id] at same
      cases same
      exact absurd small (Nat.lt_irrefl _)
  · have numbers : later.numbers = world.numbers := by
      rw [numbers_push log, id]
      exact List.append_nil _
    refine ⟨fun numbered => numbered.congr numbers next, Nat.le_of_eq next.symm, ?_⟩
    intro other among number same _
    rw [log, Array.mem_push] at among
    rcases among with among | rfl
    · exact among
    · rw [id] at same
      cases same
  · refine ⟨fun _ => numbered_of_empty log, Nat.le_of_eq next.symm, ?_⟩
    intro other among _ _ _
    rw [log] at among
    simp at among

theorem continues_execute {settings : Settings} {effects : List Effect} {world later : World}
    (h : world.execute settings effects = .ok later) : Continues world later := by
  induction effects generalizing world with
  | nil =>
      cases h
      exact .refl _
  | cons effect effects ih =>
      obtain ⟨between, applied, rest⟩ := execute_cons h
      exact (continues_apply applied).trans (ih rest)

/-- An event is known by its number. -/
theorem Numbered.event_eq {world : World} (h : world.Numbered) {event other : DrawEvent}
    (first : event ∈ world.log) (second : other ∈ world.log) {id : Nat}
    (same : event.id? = some id) (same' : other.id? = some id) : event = other := by
  have apart := List.pairwise_filterMap.mp h.increasing
  rw [← Array.mem_toList_iff] at first second
  obtain ⟨m, hm, rfl⟩ := List.getElem_of_mem first
  obtain ⟨n, hn, rfl⟩ := List.getElem_of_mem second
  rw [List.pairwise_iff_getElem] at apart
  obtain less | rfl | less := Nat.lt_trichotomy m n
  · exact absurd (apart m n hm hn less id same id same') (Nat.lt_irrefl id)
  · rfl
  · exact absurd (apart n m hn hm less id same' id same) (Nat.lt_irrefl id)

end World

namespace Session

theorem continues_perform {settings : Settings} {i : Instruction} {run later : Run}
    (h : i.perform settings run = .ok () later) : run.world.Continues later.world := by
  obtain ⟨effects, _, executed⟩ := i.executes_perform settings run later h
  exact World.continues_execute executed

theorem Reading.continues {session last : Session} {tokens : List Token} {done : List Session}
    (h : Reading session tokens done last) : session.world.Continues last.world := by
  induction h with
  | nil session => exact .refl _
  | opened fed rest ih => exact ih
  | completed fed ran rest ih => exact (continues_perform ran).trans ih

theorem continues_submit (session : Session) (text : String) :
    session.world.Continues (session.submit text).world := by
  obtain ⟨done, reading⟩ | ⟨before, token, after, done, last, error, _, reading, _, result⟩ :=
    readAll_cases text { session with error := none } rfl (tokenize text)
  · exact reading.continues
  · rw [submit, result]
    exact reading.continues

theorem continues_performAll {session later : Session} {statements : List Instruction}
    (h : session.performAll statements = .ok later) : session.world.Continues later.world := by
  simp only [performAll] at h
  split at h
  · next run performed =>
      cases h
      obtain ⟨effects, _, executed⟩ :=
        Executes.performEach (fun i _ => i.executes_perform session.settings) _ run performed
      exact World.continues_execute executed
  · cases h

/-- The session goes on to another one by submissions of any texts, and by performing finished
statements. -/
inductive Leads (session : Session) : Session → Prop
  | refl : Leads session session
  | submit {later : Session} (h : Leads session later) (text : String) :
      Leads session (later.submit text)
  | performAll {later last : Session} {statements : List Instruction}
      (h : Leads session later) (done : later.performAll statements = .ok last) :
      Leads session last

theorem Leads.continues {session later : Session} (h : Leads session later) :
    session.world.Continues later.world := by
  induction h with
  | refl => exact .refl _
  | submit h text ih => exact ih.trans (continues_submit _ text)
  | performAll h done ih => exact ih.trans (continues_performAll done)

/-- In every session `a` on the way from one with an empty log, numbers increase along the log
and are below the one that comes next, which never goes back. An event of `a` and an event of
any session `b` after it that have the same number are the same event. -/
theorem numbers_of_leads {start a b : Session} (empty : start.world.log = #[])
    (first : Leads start a) (second : Leads a b) :
    a.world.numbers.Pairwise (· < ·) ∧
      (∀ id ∈ a.world.numbers, id < a.world.nextId) ∧
      a.world.nextId ≤ b.world.nextId ∧
      ∀ event ∈ a.world.log, ∀ other ∈ b.world.log, ∀ id,
        event.id? = some id → other.id? = some id → event = other := by
  have numbered : a.world.Numbered := first.continues.numbered (World.numbered_of_empty empty)
  refine ⟨numbered.increasing, numbered.below, second.continues.nextId, ?_⟩
  intro event among other among' id same same'
  have given : id < a.world.nextId := by
    apply numbered.below
    exact List.mem_filterMap.mpr ⟨event, Array.mem_toList_iff.mpr among, same⟩
  have old : other ∈ a.world.log := second.continues.old other among' id same' given
  exact numbered.event_eq among old same same'

/-- A line that a failed statement drew and took back leaves no gap in the numbers, and clearing
does not start them again. -/
theorem numbers_of_leads_after_clearing :
    let a := submit {} "fd 10 repeat 2 [ fd 20 fd :x ]"
    let b := submit a "fd 30 cs fd 40"
    ({} : Session).world.log = #[] ∧ a.world.numbers = [0] ∧ a.error.isSome = true ∧
      b.world.numbers = [2] ∧ a.world.nextId ≤ b.world.nextId ∧
      ∀ event ∈ a.world.log, ∀ other ∈ b.world.log, ∀ id,
        event.id? = some id → other.id? = some id → event = other := by
  intro a b
  have first : Leads {} a := .submit .refl _
  have second : Leads a b := .submit .refl _
  obtain ⟨_, _, next, same⟩ := numbers_of_leads rfl first second
  exact ⟨rfl, by decide +kernel, by decide +kernel, by decide +kernel, next, same⟩

end Session

end Logo
