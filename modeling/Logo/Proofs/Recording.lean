import Logo.DrawEvent.Svg
import Logo.Proofs.Lockstep
import Logo.Proofs.Numbering

/-!
Turns in the log. Whether they are entered makes a difference to the length of the log and to
the numbers in it, and to nothing else. A statement that fails has to put back logs of different
lengths in the two cases, but in both of them it leaves the world as it was. The picture shows
lines only, so it is the same as well.
-/
namespace Logo

namespace DrawEvent

def isTurn : DrawEvent → Bool
  | turn _ _ => true
  | line _ _ _ _ _ | wait _ => false

/-- The event without its number. -/
def anonymous : DrawEvent → DrawEvent := renumber fun _ => 0

theorem element?_anonymous (event : DrawEvent) :
    Svg.element? event.anonymous = Svg.element? event := by
  cases event <;> rfl

end DrawEvent

/-- What is left of the log when turns are taken out and numbers are forgotten. -/
def DrawLog.outline (log : DrawLog) : List DrawEvent :=
  (log.toList.filter (! ·.isTurn)).map DrawEvent.anonymous

theorem DrawLog.outline_push (log : DrawLog) (event : DrawEvent) :
    outline (log.push event) =
      outline log ++ if event.isTurn then [] else [event.anonymous] := by
  cases h : event.isTurn <;> simp [outline, h]

/-- The outline is all that the picture shows. -/
theorem Svg.elements_outline (log : DrawLog) :
    (DrawLog.outline log).filterMap element? = log.toList.filterMap element? := by
  rw [DrawLog.outline, List.filterMap_map, List.filterMap_filter]
  congr 1
  funext event
  cases event <;> rfl

namespace World

/-- The worlds differ in that turns are entered into the log of the second one. -/
def Recorded (silent recording : World) : Prop :=
  ∃ log nextId, recording = { silent with log, nextId } ∧
    DrawLog.outline log = silent.log.toList.map DrawEvent.anonymous

theorem keeps_recorded {settings settings' : Settings} (off : settings.recordRotations = false)
    (on : settings'.recordRotations = true) : Keeps settings settings' Recorded id := by
  intro silent _ later later' effect effect' related view applied applied'
  obtain ⟨log, nextId, rfl, same⟩ := related
  obtain rfl : effect' = effect := view
  cases effect' with
  | move distance =>
      cases applied
      cases applied'
      simp only [move]
      split
      · refine ⟨_, _, rfl, ?_⟩
        rw [DrawLog.outline_push, same, Array.toList_push, List.map_append]
        rfl
      · exact ⟨_, _, rfl, same⟩
  | turn angle =>
      cases applied
      cases applied'
      simp only [turn, off, on, Bool.false_eq_true, if_false, if_true]
      refine ⟨_, _, rfl, ?_⟩
      rw [DrawLog.outline_push, same]
      exact List.append_nil _
  | wait seconds =>
      cases applied
      cases applied'
      refine ⟨_, _, rfl, ?_⟩
      rw [DrawLog.outline_push, same, wait, Array.toList_push, List.map_append]
      rfl
  | pen down =>
      cases applied
      cases applied'
      exact ⟨_, _, rfl, same⟩
  | clear =>
      cases applied
      cases applied'
      exact ⟨_, _, rfl, rfl⟩
  | define name parameters body =>
      obtain ⟨registry, defined, result⟩ := ok_of_bind applied
      obtain ⟨registry', defined', result'⟩ := ok_of_bind applied'
      cases defined.symm.trans defined'
      cases result
      cases result'
      exact ⟨_, _, rfl, same⟩

end World

/-- The settings with turns entered into the log, or not. -/
def Settings.recording (settings : Settings) (on : Bool) : Settings :=
  { settings with recordRotations := on }

theorem Settings.lockstep_recording (settings : Settings) :
    Lockstep (fun _ => False) (settings.recording false) (settings.recording true)
      World.Recorded Eq Eq where
  idle := rfl
  feed := by
    rintro silent _ parser _ ⟨log, nextId, rfl, same⟩ rfl token
    exact .inr (.refl _)
  attempt := by
    intro silent recording i j related h
    subst h
    have scope : recording.bindings = silent.bindings ∧ recording.registry = silent.registry := by
      obtain ⟨log, nextId, rfl, same⟩ := related
      exact ⟨rfl, rfl⟩
    have steps : (settings.recording true).stepLimit = (settings.recording false).stepLimit := rfl
    have levels : (settings.recording true).maxDepth = (settings.recording false).maxDepth := rfl
    refine .inr ((World.keeps_recorded rfl rfl).attempt related (by rw [scope.1]) ?_)
    rw [scope.1, scope.2]
    exact Check.firstFault_congr steps levels (fun _ => rfl) 0 _

namespace Session

theorem continues_submitAll (session : Session) (texts : List String) :
    session.world.Continues (session.submitAll texts).world := by
  induction texts generalizing session with
  | nil => exact .refl _
  | cons text texts ih => exact (session.continues_submit text).trans (ih _)

/-- The session with turns entered into its log, or not. -/
def recording (session : Session) (on : Bool) : Session :=
  { session with settings := session.settings.recording on }

/-- Entering turns into the log adds them to it and changes nothing else: from a session with an
empty log, any submissions lead to the same session with and without it, but for the log and the
next number. Without the turns and up to numbers the logs are the same, the numbers increase in
both, and both give the same picture. -/
theorem submitAll_recording (session : Session) (empty : session.world.log = #[])
    (texts : List String) :
    let silent := (session.recording false).submitAll texts
    let recording := (session.recording true).submitAll texts
    recording.world =
        { silent.world with log := recording.world.log, nextId := recording.world.nextId } ∧
      recording.parser = silent.parser ∧ recording.statements = silent.statements ∧
      recording.error = silent.error ∧
      silent.world.log.toList.map DrawEvent.anonymous =
        (recording.world.log.toList.filter (! ·.isTurn)).map DrawEvent.anonymous ∧
      silent.world.numbers.Pairwise (· < ·) ∧ recording.world.numbers.Pairwise (· < ·) ∧
      Svg.document silent.world.log = Svg.document recording.world.log := by
  intro silent recording
  have start : (session.recording false).Beside (session.settings.recording false)
      (session.settings.recording true) World.Recorded Eq 0 0 (session.recording true) :=
    ⟨⟨_, _, rfl, by rw [Session.recording, empty]; rfl⟩, rfl, rfl, rfl, rfl, rfl⟩
  obtain ⟨⟨log, nextId, world, same⟩, parser, _, _, count, error⟩ :=
    session.settings.lockstep_recording.submitAll start texts fun _ _ _ _ => id
  have increasing (on : Bool) :
      ((session.recording on).submitAll texts).world.numbers.Pairwise (· < ·) :=
    (((session.recording on).continues_submitAll texts).numbered
      (World.numbered_of_empty empty)).increasing
  have outline : DrawLog.outline recording.world.log =
      silent.world.log.toList.map DrawEvent.anonymous := by
    rw [world]
    exact same
  refine ⟨?_, parser.symm, count, error, outline.symm, increasing false, increasing true, ?_⟩
  · rw [world]
  · have elements : silent.world.log.toList.filterMap Svg.element? =
        recording.world.log.toList.filterMap Svg.element? := by
      rw [← Svg.elements_outline recording.world.log, outline, List.filterMap_map]
      congr 1
      funext event
      exact event.element?_anonymous.symm
    rw [Svg.document, Svg.document, elements]

/-- The second submission draws a line, and fails after it has turned twice and has cleared the
log. -/
theorem submitAll_recording_failing :
    let session : Session := {}
    let texts := ["rt 90 fd 10 lt 90", "fd 5 repeat 2 [ rt 1 cs rt 2 fd :x ]"]
    let silent := (session.recording false).submitAll texts
    let recording := (session.recording true).submitAll texts
    silent.error.isSome = true ∧ silent.world.numbers = [0, 1] ∧
      recording.world.numbers = [0, 1, 2, 3] ∧
      recording.error = silent.error ∧
      silent.world.log.toList.map DrawEvent.anonymous =
        (recording.world.log.toList.filter (! ·.isTurn)).map DrawEvent.anonymous ∧
      Svg.document silent.world.log = Svg.document recording.world.log := by
  obtain ⟨_, _, _, error, same, _, _, picture⟩ :=
    submitAll_recording {} rfl ["rt 90 fd 10 lt 90", "fd 5 repeat 2 [ rt 1 cs rt 2 fd :x ]"]
  exact ⟨by decide +kernel, by decide +kernel, by decide +kernel, error, same, picture⟩

end Session

end Logo
