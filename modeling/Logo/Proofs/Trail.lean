import Mathlib.Data.List.Chain
import Logo.Proofs.Effects

/-!
The trail of the turtle. As long as the pen is down, every move draws a line from where the
turtle was to where it is, so the lines in the log are one path that ends at the turtle. Clearing
begins the path anew, and a failed statement leaves log and turtle as they were, so they fit
together after it as before. Places are copied and never computed with.
-/
namespace Logo

/-- Where the turtle stands. -/
def Turtle.place (turtle : Turtle) : Float × Float := (turtle.x, turtle.y)

structure Segment where
  start : Float × Float
  stop : Float × Float

def DrawEvent.segment? : DrawEvent → Option Segment
  | line _ x1 y1 x2 y2 => some ⟨(x1, y1), (x2, y2)⟩
  | turn _ _ | wait _ => none

/-- The lines in the log, in its order. -/
def DrawLog.segments (log : DrawLog) : List Segment := log.toList.filterMap DrawEvent.segment?

theorem DrawLog.segments_push (log : DrawLog) (event : DrawEvent) :
    segments (log.push event) = segments log ++ event.segment?.toList := by
  simp only [segments, Array.toList_push, List.filterMap_append, List.filterMap_cons,
    List.filterMap_nil]
  cases event.segment? <;> rfl

namespace World

/-- The pen is down, and the lines in the log lead from `origin` to the turtle. -/
structure Trail (origin : Float × Float) (world : World) : Prop where
  down : world.pen.down = true
  linked : (DrawLog.segments world.log).IsChain fun line next => next.start = line.stop
  begins : ∀ line ∈ (DrawLog.segments world.log).head?, line.start = origin
  ends : ∀ line ∈ (DrawLog.segments world.log).getLast?, line.stop = world.turtle.place
  still : DrawLog.segments world.log = [] → world.turtle.place = origin

namespace Trail

variable {origin : Float × Float} {world later : World}

/-- The trail before anything is drawn. -/
theorem of_empty (empty : world.log = #[]) (down : world.pen.down = true) :
    Trail world.turtle.place world := by
  have none : DrawLog.segments world.log = [] := by
    rw [empty]
    rfl
  refine ⟨down, ?_, ?_, ?_, fun _ => rfl⟩
  · rw [none]
    exact .nil
  · rw [none]
    nofun
  · rw [none]
    nofun

/-- What adds no line and does not move the turtle leaves the trail as it is. -/
theorem congr (h : Trail origin world) (down : later.pen.down = true)
    (lines : DrawLog.segments later.log = DrawLog.segments world.log)
    (place : later.turtle.place = world.turtle.place) : Trail origin later := by
  obtain ⟨_, linked, begins, ends, still⟩ := h
  rw [← lines] at linked begins ends still
  rw [← place] at ends still
  exact ⟨down, linked, begins, ends, still⟩

/-- A line from the turtle to its next place continues the trail. -/
theorem extend (h : Trail origin world) {line : Segment} (down : later.pen.down = true)
    (lines : DrawLog.segments later.log = DrawLog.segments world.log ++ [line])
    (start : line.start = world.turtle.place) (stop : line.stop = later.turtle.place) :
    Trail origin later := by
  refine ⟨down, ?_, ?_, ?_, ?_⟩
  · rw [lines, List.isChain_append]
    refine ⟨h.linked, List.isChain_singleton _, ?_⟩
    intro before last next only
    cases only
    rw [start, h.ends before last]
  · rw [lines]
    cases drawn : DrawLog.segments world.log with
    | nil =>
        intro first only
        cases only
        rw [start, h.still drawn]
    | cons first rest =>
        have begins := h.begins
        rw [drawn] at begins
        exact begins
  · rw [lines]
    intro last only
    rw [List.getLast?_concat] at only
    cases only
    exact stop
  · rw [lines]
    intro none
    exact absurd none (by simp)

theorem move (h : Trail origin world) (distance : Int64) :
    Trail origin (world.move distance) := by
  have moved : world.move distance =
      { world with
        turtle := world.turtle.advance distance.toFloat
        log := world.log.push (.line world.nextId world.turtle.x world.turtle.y
          (world.turtle.advance distance.toFloat).x (world.turtle.advance distance.toFloat).y)
        nextId := world.nextId + 1 } := by
    simp only [World.move, h.down, if_true]
  rw [moved]
  exact h.extend h.down (DrawLog.segments_push _ _) rfl rfl

theorem turn (h : Trail origin world) (recorded : Bool) (angle : Int64) :
    Trail origin (world.turn recorded angle) := by
  cases recorded with
  | false => exact h.congr h.down rfl rfl
  | true =>
      refine h.congr h.down ?_ rfl
      exact (DrawLog.segments_push _ _).trans (List.append_nil _)

theorem wait (h : Trail origin world) (seconds : Int64) : Trail origin (world.wait seconds) := by
  refine h.congr h.down ?_ rfl
  exact (DrawLog.segments_push _ _).trans (List.append_nil _)

/-- What one effect makes of the trail. -/
theorem apply (h : Trail origin world) {settings : Settings} {effect : Effect}
    (kept : effect.lifts = false) (applied : world.apply settings effect = .ok later) :
    Trail (if effect.clears then (0, 0) else origin) later := by
  cases effect with
  | move distance =>
      cases applied
      exact h.move distance
  | turn angle =>
      cases applied
      exact h.turn _ angle
  | wait seconds =>
      cases applied
      exact h.wait seconds
  | pen down =>
      cases applied
      cases down with
      | false => cases kept
      | true => exact h.congr rfl rfl rfl
  | clear =>
      cases applied
      have wiped : Trail world.clear.turtle.place world.clear := of_empty rfl rfl
      exact wiped
  | define name parameters body =>
      obtain ⟨registry, _, same⟩ := ok_of_bind applied
      cases same
      exact h.congr h.down rfl rfl

/-- Along any effects the trail begins where it did, or at the centre once the log has been
wiped. -/
theorem execute (h : Trail origin world) {settings : Settings} {effects : List Effect}
    (kept : ∀ effect ∈ effects, effect.lifts = false)
    (executed : world.execute settings effects = .ok later) :
    Trail (if effects.any Effect.clears then (0, 0) else origin) later := by
  induction effects generalizing world origin with
  | nil =>
      cases executed
      exact h
  | cons effect effects ih =>
      obtain ⟨here, rest⟩ := List.forall_mem_cons.mp kept
      obtain ⟨between, applied, executed⟩ := execute_cons executed
      have trail := ih (h.apply here applied) rest executed
      rw [List.any_cons]
      cases wipes : effect.clears with
      | false =>
          rw [wipes] at trail
          exact trail
      | true =>
          rw [wipes] at trail
          simpa using trail

end Trail

end World

namespace Session

/-- Lines that are drawn without lifting the pen make one path, whatever was submitted and
however much of it failed: each begins where the one before it ends, the last one ends at the
turtle, and the first one begins where the session did, or at the centre if the screen has been
cleared. Where no line has been drawn, the turtle stands there still. -/
theorem lines_connected (session : Session) (texts : List String)
    (empty : session.world.log = #[]) (down : session.world.pen.down = true)
    (kept : ∀ effect ∈ session.effectsBy texts, effect.lifts = false) :
    let world := (session.submitAll texts).world
    let lines := DrawLog.segments world.log
    let origin := if (session.effectsBy texts).any Effect.clears then (0, 0)
      else session.world.turtle.place
    lines.IsChain (fun line next => next.start = line.stop) ∧
      (∀ line ∈ lines.head?, line.start = origin) ∧
      (∀ line ∈ lines.getLast?, line.stop = world.turtle.place) ∧
      (lines = [] → world.turtle.place = origin) := by
  intro world lines origin
  have trail : World.Trail origin world :=
    (World.Trail.of_empty empty down).execute kept (session.execute_effectsBy texts)
  exact ⟨trail.linked, trail.begins, trail.ends, trail.still⟩

/-- A call in a loop draws two lines, a statement that lifts the pen and wipes the log fails, and
a clearing is followed by a turn and one more line. -/
theorem lines_connected_after_failure :
    let session := initial { recordRotations := true } ⟨3, 4, 0⟩ {} {}
    let drawn := ["to hop :n fd :n wait 1 end repeat 2 [ hop 10 rt 90 ]",
      "repeat 2 [ pu fd 5 cs pd fd :x ] fd 1"]
    let wiped := drawn ++ ["bk 7 cs lt 45 fd 3 pd", "fd"]
    (session.submitAll drawn).error.isSome ∧
      (DrawLog.segments (session.submitAll drawn).world.log).length = 2 ∧
      (∀ effect ∈ session.effectsBy drawn, effect.lifts = false) ∧
      (∀ line ∈ (DrawLog.segments (session.submitAll drawn).world.log).head?,
        line.start = (3, 4)) ∧
      (DrawLog.segments (session.submitAll wiped).world.log).length = 1 ∧
      (∀ effect ∈ session.effectsBy wiped, effect.lifts = false) ∧
      (∀ line ∈ (DrawLog.segments (session.submitAll wiped).world.log).head?,
        line.start = (0, 0)) := by
  intro session drawn wiped
  have failed : (session.submitAll drawn).error.isSome ∧
      (DrawLog.segments (session.submitAll drawn).world.log).length = 2 ∧
      (∀ effect ∈ session.effectsBy drawn, effect.lifts = false) ∧
      (session.effectsBy drawn).any Effect.clears = false := by decide +kernel
  have cleared : (DrawLog.segments (session.submitAll wiped).world.log).length = 1 ∧
      (∀ effect ∈ session.effectsBy wiped, effect.lifts = false) ∧
      (session.effectsBy wiped).any Effect.clears = true := by decide +kernel
  obtain ⟨error, two, kept, same⟩ := failed
  obtain ⟨one, kept', wipes⟩ := cleared
  obtain ⟨_, begins, _, _⟩ := lines_connected session drawn rfl rfl kept
  obtain ⟨_, begins', _, _⟩ := lines_connected session wiped rfl rfl kept'
  rw [same] at begins
  rw [wipes] at begins'
  exact ⟨error, two, kept, begins, one, kept', begins'⟩

end Session

end Logo
