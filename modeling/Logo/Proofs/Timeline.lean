import Logo.History
import Logo.Proofs.Counting

/-!
Undo and redo walk along one timeline. The two lists of a history, put together around its
present entry, are a list of sessions with a cursor in it, and this list is all that matters:
the counts of statements increase along it, and an entry shows the same drawing for as long as
it is not cut off.
-/
namespace Logo

/-- What can be asked of a history. -/
inductive Request where
  | submit (text : String)
  | undo
  | redo

namespace History

/-- Nothing comes of a request to undo or redo where there is nothing to go to. -/
def serve? (history : History) : Request → Option History
  | .submit text => some (history.submit text)
  | .undo => history.undo?
  | .redo => history.redo?

def serve (history : History) (request : Request) : History :=
  (history.serve? request).getD history

def serveAll (history : History) (requests : List Request) : History :=
  requests.foldl serve history

end History

/-- Sessions in the order in which they came about, one of which is shown. -/
@[ext] structure Timeline where
  entries : List Session
  cursor : Nat
  inside : cursor < entries.length

namespace Timeline

def shown (timeline : Timeline) : Session := timeline.entries.get ⟨timeline.cursor, timeline.inside⟩

/-- The shown entry is exchanged for another one. -/
def exchange (timeline : Timeline) (session : Session) : Timeline where
  entries := timeline.entries.set timeline.cursor session
  cursor := timeline.cursor
  inside := by simpa using timeline.inside

/-- A new entry follows the shown one, and what followed it before is cut off. -/
def record (timeline : Timeline) (session : Session) : Timeline where
  entries := timeline.entries.take (timeline.cursor + 1) ++ [session]
  cursor := timeline.cursor + 1
  inside := by
    have inside := timeline.inside
    simp only [List.length_append, List.length_take, List.length_singleton]
    omega

/-- Whether submitting the text performs a statement. -/
def Performs (timeline : Timeline) (text : String) : Prop :=
  (timeline.shown.submit text).statements ≠ timeline.shown.statements

instance (timeline : Timeline) (text : String) : Decidable (timeline.Performs text) :=
  inferInstanceAs (Decidable (_ ≠ _))

def serve? (timeline : Timeline) : Request → Option Timeline
  | .submit text =>
    let next := timeline.shown.submit text
    some (if timeline.Performs text then timeline.record next else timeline.exchange next)
  | .undo =>
    if 0 < timeline.cursor then
      some { timeline with
        cursor := timeline.cursor - 1
        inside := Nat.lt_of_le_of_lt (Nat.sub_le _ _) timeline.inside }
    else none
  | .redo =>
    if h : timeline.cursor + 1 < timeline.entries.length then
      some { timeline with cursor := timeline.cursor + 1, inside := h }
    else none

def serve (timeline : Timeline) (request : Request) : Timeline :=
  (timeline.serve? request).getD timeline

def serveAll (timeline : Timeline) (requests : List Request) : Timeline :=
  requests.foldl serve timeline

end Timeline

namespace History

def timeline (history : History) : Timeline where
  entries := history.past.reverse ++ history.present :: history.future
  cursor := history.past.length
  inside := by simp

theorem shown_timeline (history : History) : history.timeline.shown = history.present := by
  simp [Timeline.shown, timeline]

theorem exchange_timeline (history : History) (session : Session) :
    history.timeline.exchange session = timeline { history with present := session } := by
  apply Timeline.ext
  · simp [Timeline.exchange, timeline]
  · rfl

theorem record_timeline (history : History) (session : Session) :
    history.timeline.record session =
      timeline ⟨history.present :: history.past, session, []⟩ := by
  have kept : (history.past.reverse ++ history.present :: history.future).take
      (history.past.length + 1) = history.past.reverse ++ [history.present] := by
    rw [List.append_cons, List.take_left' (by simp)]
  apply Timeline.ext
  · simp only [Timeline.record, timeline, kept, List.reverse_cons]
  · rfl

/-- The two lists do what the timeline does. -/
theorem timeline_serve? (history : History) (request : Request) :
    (history.serve? request).map timeline = history.timeline.serve? request := by
  cases request with
  | submit text =>
      simp only [serve?, submit, Timeline.serve?, Timeline.Performs, shown_timeline,
        exchange_timeline, record_timeline, Option.map_some, ne_eq, ite_not]
      split <;> rfl
  | undo =>
      obtain ⟨past, present, future⟩ := history
      cases past with
      | nil => rfl
      | cons previous past => simp [serve?, undo?, Timeline.serve?, timeline]
  | redo =>
      obtain ⟨past, present, future⟩ := history
      cases future with
      | nil => simp [serve?, redo?, Timeline.serve?, timeline]
      | cons next future => simp [serve?, redo?, Timeline.serve?, timeline]

theorem timeline_serve (history : History) (request : Request) :
    (history.serve request).timeline = history.timeline.serve request := by
  rw [serve, Timeline.serve, ← timeline_serve?]
  cases history.serve? request <;> rfl

theorem timeline_serveAll (history : History) (requests : List Request) :
    (history.serveAll requests).timeline = history.timeline.serveAll requests := by
  induction requests generalizing history with
  | nil => rfl
  | cons request requests ih =>
      change ((history.serve request).serveAll requests).timeline =
        (history.timeline.serve request).serveAll requests
      rw [ih, timeline_serve]

end History

namespace Timeline

/-- All that a request can do to a timeline. -/
theorem serve_cases (timeline : Timeline) (request : Request) :
    (∃ text, request = .submit text ∧ timeline.Performs text ∧
      timeline.serve request = timeline.record (timeline.shown.submit text)) ∨
    (∃ text, request = .submit text ∧
      (timeline.shown.submit text).statements = timeline.shown.statements ∧
      timeline.serve request = timeline.exchange (timeline.shown.submit text)) ∨
    (timeline.serve request).entries = timeline.entries := by
  cases request with
  | submit text =>
      by_cases performs : timeline.Performs text
      · exact .inl ⟨text, rfl, performs, by simp [serve, serve?, performs]⟩
      · have same := Decidable.of_not_not performs
        exact .inr (.inl ⟨text, rfl, same, by simp [serve, serve?, performs]⟩)
  | undo =>
      refine .inr (.inr ?_)
      simp only [serve, serve?]
      split <;> rfl
  | redo =>
      refine .inr (.inr ?_)
      simp only [serve, serve?]
      split <;> rfl

/-- How many statements have been performed at each entry. -/
def counts (timeline : Timeline) : List Nat := timeline.entries.map (·.statements)

theorem counts_exchange (timeline : Timeline) {session : Session}
    (same : session.statements = timeline.shown.statements) :
    (timeline.exchange session).counts = timeline.counts := by
  have here : timeline.shown.statements = timeline.counts.get
      ⟨timeline.cursor, by simpa [counts] using timeline.inside⟩ := by
    simp [counts, shown]
  simp only [counts, exchange, List.map_set, same]
  rw [here]
  exact List.set_getElem_self _

theorem take_counts (timeline : Timeline) :
    timeline.counts.take (timeline.cursor + 1) =
      timeline.counts.take timeline.cursor ++ [timeline.shown.statements] := by
  rw [List.take_add_one, counts, List.getElem?_map, List.getElem?_eq_getElem timeline.inside]
  rfl

theorem pairwise_counts_record {timeline : Timeline} (h : timeline.counts.Pairwise (· < ·))
    {session : Session} (more : timeline.shown.statements < session.statements) :
    (timeline.record session).counts.Pairwise (· < ·) := by
  have recorded : (timeline.record session).counts =
      timeline.counts.take (timeline.cursor + 1) ++ [session.statements] := by
    simp [counts, record, List.map_take]
  have kept := h.sublist (List.take_sublist (timeline.cursor + 1) timeline.counts)
  rw [recorded]
  rw [take_counts] at kept ⊢
  refine List.pairwise_append.mpr ⟨kept, List.pairwise_singleton _ _, ?_⟩
  intro before among last only
  rw [List.mem_singleton.mp only]
  rcases List.mem_append.mp among with earlier | shown
  · have less := (List.pairwise_append.mp kept).2.2 before earlier _ (List.mem_singleton_self _)
    exact Nat.lt_trans less more
  · rwa [List.mem_singleton.mp shown]

theorem statements_lt_of_performs {timeline : Timeline} {text : String}
    (h : timeline.Performs text) :
    timeline.shown.statements < (timeline.shown.submit text).statements := by
  have count := timeline.shown.count_submit text
  unfold Performs at h
  omega

theorem pairwise_counts_serve {timeline : Timeline} (h : timeline.counts.Pairwise (· < ·))
    (request : Request) : (timeline.serve request).counts.Pairwise (· < ·) := by
  obtain ⟨text, _, performs, result⟩ | ⟨text, _, idle, result⟩ | same :=
    timeline.serve_cases request
  · rw [result]
    exact pairwise_counts_record h (statements_lt_of_performs performs)
  · rw [result, counts_exchange timeline idle]
    exact h
  · rwa [counts, same]

theorem pairwise_counts_serveAll {timeline : Timeline} (h : timeline.counts.Pairwise (· < ·))
    (requests : List Request) : (timeline.serveAll requests).counts.Pairwise (· < ·) := by
  induction requests generalizing timeline with
  | nil => exact h
  | cons request requests ih => exact ih (pairwise_counts_serve h request)

/-- The request cuts off the entry at `index`: it performs a statement further to the front. -/
def Cuts (timeline : Timeline) (index : Nat) : Request → Prop
  | .submit text => timeline.cursor < index ∧ timeline.Performs text
  | .undo | .redo => False

/-- None of the requests cuts off the entry at `index`. -/
def Spares (index : Nat) : Timeline → List Request → Prop
  | _, [] => True
  | timeline, request :: requests =>
    ¬ timeline.Cuts index request ∧ Spares index (timeline.serve request) requests

instance (timeline : Timeline) (index : Nat) : DecidablePred (timeline.Cuts index)
  | .submit _ => inferInstanceAs (Decidable (_ ∧ _))
  | .undo | .redo => inferInstanceAs (Decidable False)

instance decidableSpares (index : Nat) :
    (timeline : Timeline) → (requests : List Request) → Decidable (Spares index timeline requests)
  | _, [] => inferInstanceAs (Decidable True)
  | timeline, request :: requests =>
    have := decidableSpares index (timeline.serve request) requests
    inferInstanceAs (Decidable (_ ∧ _))

variable {timeline : Timeline} {index : Nat} {entry : Session}

/-- An entry that is not cut off is left as it is, or is exchanged for one that agrees with it. -/
theorem agrees_serve {request : Request} (found : timeline.entries[index]? = some entry)
    (spared : ¬ timeline.Cuts index request) :
    ∃ later, (timeline.serve request).entries[index]? = some later ∧ entry.Agrees later := by
  obtain ⟨text, rfl, performs, result⟩ | ⟨text, rfl, idle, result⟩ | same :=
    timeline.serve_cases request
  · have front : index < timeline.cursor + 1 :=
      Nat.lt_of_not_le fun behind => spared ⟨behind, performs⟩
    refine ⟨entry, ?_, .refl entry⟩
    have within : index < (timeline.entries.take (timeline.cursor + 1)).length := by
      have inside := timeline.inside
      rw [List.length_take]
      omega
    rw [result, record, List.getElem?_append_left within, List.getElem?_take_of_lt front, found]
  · rw [result, exchange]
    by_cases here : timeline.cursor = index
    · subst here
      have shown : entry = timeline.shown := by
        rw [List.getElem?_eq_getElem timeline.inside] at found
        exact (Option.some.inj found).symm
      refine ⟨timeline.shown.submit text, List.getElem?_set_self timeline.inside, ?_⟩
      rw [shown]
      exact Session.agrees_submit idle
    · exact ⟨entry, by rw [List.getElem?_set_ne here, found], .refl entry⟩
  · exact ⟨entry, by rw [same, found], .refl entry⟩

theorem agrees_serveAll {requests : List Request} (found : timeline.entries[index]? = some entry)
    (spared : timeline.Spares index requests) :
    ∃ later, (timeline.serveAll requests).entries[index]? = some later ∧ entry.Agrees later := by
  induction requests generalizing timeline entry with
  | nil => exact ⟨entry, found, .refl entry⟩
  | cons request requests ih =>
      obtain ⟨next, found, first⟩ := agrees_serve found spared.1
      obtain ⟨later, found, rest⟩ := ih found spared.2
      exact ⟨later, found, first.trans rest⟩

end Timeline

/-- Whatever is asked of a history that begins with `session`, it keeps a timeline, of which it
shows the entry at the cursor. The counts of statements increase along the timeline. An entry
agrees with what stands in its place later, for as long as it has not been cut off, so that the
drawing which is shown on coming back to it is the one that was left. -/
theorem History.timeline_of_requests (session : Session) (requests : List Request) :
    let history := serveAll { present := session } requests
    let timeline := Timeline.serveAll ⟨[session], 0, Nat.zero_lt_one⟩ requests
    history.timeline = timeline ∧ history.present = timeline.shown ∧
    (∀ request, (history.serve? request).map History.timeline = timeline.serve? request) ∧
    timeline.counts.Pairwise (· < ·) ∧
    ∀ index entry more, timeline.entries[index]? = some entry → timeline.Spares index more →
      ∃ later, (history.serveAll more).timeline.entries[index]? = some later ∧
        entry.Agrees later ∧
        ((history.serveAll more).timeline.cursor = index →
          (history.serveAll more).present = later) := by
  intro history timeline
  have same : history.timeline = timeline := timeline_serveAll { present := session } requests
  refine ⟨same, ?_, ?_, ?_, ?_⟩
  · rw [← same, shown_timeline]
  · intro request
    rw [← same, timeline_serve?]
  · exact Timeline.pairwise_counts_serveAll (List.pairwise_singleton _ _) requests
  · intro index entry more found spared
    obtain ⟨later, found, agrees⟩ := Timeline.agrees_serveAll found spared
    rw [← same, ← timeline_serveAll] at found
    refine ⟨later, found, agrees, ?_⟩
    rintro rfl
    have inside := (history.serveAll more).timeline.inside
    rw [List.getElem?_eq_getElem inside] at found
    rw [← shown_timeline]
    exact Option.some.inj found

/-- Half a loop and its failing second half are submitted after an undo. The redo that follows
them still finds the later entry, and going back shows the drawing from before the loop. -/
theorem History.timeline_of_requests_after_undo :
    let history := serveAll { present := {} } [.submit "fd 10", .submit "fd 20"]
    let more := [.undo, .submit "repeat 2 [ cs", .submit "fd :x ]", .redo, .undo]
    history.timeline.entries[1]?.isSome ∧ history.timeline.Spares 1 more ∧
      (history.serveAll more).timeline.cursor = 1 ∧
      (history.serveAll more).timeline.counts = [0, 1, 2] ∧
      (history.serveAll more).present.error.isSome ∧
      (history.serveAll more).present.world = (Session.submit {} "fd 10").world := by
  intro history more
  obtain ⟨same, _, _, _, kept⟩ :=
    timeline_of_requests {} [.submit "fd 10", .submit "fd 20"]
  have found : history.timeline.entries[1]? = some (Session.submit {} "fd 10") := by
    have first : (Session.submit {} "fd 10").statements = 1 := by decide +kernel
    have second : (Session.submit (Session.submit {} "fd 10") "fd 20").statements = 2 := by
      decide +kernel
    simp [history, serveAll, serve, serve?, submit, timeline, first, second]
  have spared : history.timeline.Spares 1 more := by decide +kernel
  have cursor : (history.serveAll more).timeline.cursor = 1 := by decide +kernel
  refine ⟨by rw [found]; rfl, spared, cursor, by decide +kernel, by decide +kernel, ?_⟩
  rw [same] at found spared
  obtain ⟨later, _, agrees, shown⟩ := kept 1 _ more found spared
  rw [shown cursor]
  exact agrees.world

end Logo
