import Mathlib.Data.List.TakeWhile
import Logo.CommandLine.Shell

/-!
A script is read as if it were typed. A script is cut into lines as text, and what is typed is cut
as bytes and keeps its line ends; the prompt then makes no difference between a line with its end
and without.
-/
namespace Logo

section LineEnds

variable {tail : List Char}

/-- Nothing but line ends. -/
def LineEnds (tail : List Char) : Prop := ∀ c ∈ tail, c = '\r' ∨ c = '\n'

theorem LineEnds.isWhiteSpace (h : LineEnds tail) : ∀ c ∈ tail, Text.isWhiteSpace c := by
  intro c among
  rcases h c among with rfl | rfl <;> decide

theorem Text.trim_append (line : List Char) (h : ∀ c ∈ tail, isWhiteSpace c) :
    trim (String.ofList (line ++ tail)) = trim (String.ofList line) := by
  have none : tail.dropWhile isWhiteSpace = [] := List.dropWhile_eq_nil_iff.mpr h
  have backwards : ∀ c ∈ tail.reverse, isWhiteSpace c :=
    fun c among => h c (List.mem_reverse.mp among)
  simp only [trim, String.toList_ofList]
  rw [List.dropWhile_append]
  split
  · next blank => rw [none, List.isEmpty_iff.mp blank]
  · rw [List.reverse_append, List.dropWhile_append_of_pos backwards]

namespace Prompt

theorem withoutLineEnd_append (line : List Char) (h : LineEnds tail) :
    withoutLineEnd (String.ofList (line ++ tail)) = withoutLineEnd (String.ofList line) := by
  have backwards : ∀ c ∈ tail.reverse, (c == '\r' || c == '\n') = true := by
    intro c among
    simpa using h c (List.mem_reverse.mp among)
  simp only [withoutLineEnd, String.toList_ofList, List.reverse_append]
  rw [List.dropWhile_append_of_pos backwards]

theorem exists_lineEnds (line : String) :
    ∃ tail, LineEnds tail ∧ line = String.ofList ((withoutLineEnd line).toList ++ tail) := by
  refine ⟨(line.toList.reverse.takeWhile fun c => c == '\r' || c == '\n').reverse, ?_, ?_⟩
  · intro c among
    simpa using List.mem_takeWhile_imp (List.mem_reverse.mp among)
  · rw [withoutLineEnd, String.toList_ofList, ← List.reverse_append,
      List.takeWhile_append_dropWhile, List.reverse_reverse, String.ofList_toList]

/-- A line is handled the same without its end. -/
theorem handle_withoutLineEnd (prompt : Prompt) (line : String) :
    prompt.handle (withoutLineEnd line) = prompt.handle line := by
  obtain ⟨tail, ends, split⟩ := exists_lineEnds line
  have trimmed : Text.trim line = Text.trim (withoutLineEnd line) := by
    conv => lhs; rw [split, Text.trim_append _ ends.isWhiteSpace, String.ofList_toList]
  have stripped : withoutLineEnd line = withoutLineEnd (withoutLineEnd line) := by
    conv => lhs; rw [split, withoutLineEnd_append _ ends, String.ofList_toList]
  simp only [handle, ← trimmed, ← stripped]

end Prompt

end LineEnds

namespace CommandLine

section Pieces

variable {α β : Type} {mark : α} {piece : List α}

/-- There is nothing behind the last mark. -/
def Ended (mark : α) (l : List α) : Prop := ∀ a ∈ l.getLast?, a = mark

theorem ended_iff {l : List α} : Ended mark l ↔ l = [] ∨ l.getLast? = some mark := by
  rw [← List.getLast?_eq_none_iff, Ended]
  cases l.getLast? with
  | none => simp
  | some a => simp

/-- Puts a piece without its end in front of the pieces that follow. -/
def glue (piece : List α) : List (List α) → List (List α)
  | [] => [piece]
  | next :: pieces => (piece ++ next) :: pieces

theorem glue_glue (piece next : List α) (pieces : List (List α)) :
    glue piece (glue next pieces) = glue (piece ++ next) pieces := by
  cases pieces with
  | nil => rfl
  | cons _ _ => simp only [glue, List.append_assoc]

variable [DecidableEq α] [DecidableEq β]

theorem splitAfter_cons_mark (rest : List α) :
    splitAfter mark (mark :: rest) = [mark] :: splitAfter mark rest := by
  rw [splitAfter, if_pos rfl]

theorem splitAfter_cons_of_ne {a : α} (other : a ≠ mark) (rest : List α) :
    splitAfter mark (a :: rest) = glue [a] (splitAfter mark rest) := by
  rw [splitAfter, if_neg other]
  cases splitAfter mark rest <;> rfl

theorem splitAfter_of_not_mem (free : mark ∉ piece) (nonempty : piece ≠ []) (rest : List α) :
    splitAfter mark (piece ++ rest) = glue piece (splitAfter mark rest) := by
  induction piece with
  | nil => exact absurd rfl nonempty
  | cons a piece ih =>
      have other : a ≠ mark := fun same => free (same ▸ List.mem_cons_self)
      rw [List.cons_append, splitAfter_cons_of_ne other]
      cases piece with
      | nil => rfl
      | cons b piece =>
          rw [ih (fun among => free (List.mem_cons_of_mem a among)) (List.cons_ne_nil b piece),
            glue_glue]
          rfl

theorem splitAfter_append {first : List α} (ended : Ended mark first) (rest : List α) :
    splitAfter mark (first ++ rest) = splitAfter mark first ++ splitAfter mark rest := by
  induction first with
  | nil => rfl
  | cons a first ih =>
      have later : Ended mark first := by
        intro b last
        exact ended b (by rw [List.getLast?_cons, Option.mem_def.mp last]; rfl)
      rw [List.cons_append]
      by_cases same : a = mark
      · rw [same, splitAfter_cons_mark, splitAfter_cons_mark, ih later]
        rfl
      · rw [splitAfter_cons_of_ne same, splitAfter_cons_of_ne same, ih later]
        cases pieces : splitAfter mark first with
        | cons _ _ => rfl
        | nil =>
            -- then `a` is the last one, and so is the mark
            have none : first = [] := by
              rw [← flatten_splitAfter mark first, pieces]
              rfl
            exact absurd (ended a (by rw [none]; rfl)) same

/-- Whatever is not ended has a last piece that is not. -/
theorem exists_last_piece (mark : α) (l : List α) :
    ∃ first piece, l = first ++ piece ∧ Ended mark first ∧ mark ∉ piece := by
  induction l with
  | nil => exact ⟨[], [], rfl, nofun, List.not_mem_nil⟩
  | cons a l ih =>
      obtain ⟨first, piece, rfl, ended, free⟩ := ih
      cases first with
      | cons b first =>
          exact ⟨a :: b :: first, piece, rfl, by rwa [Ended, List.getLast?_cons_cons], free⟩
      | nil =>
          by_cases same : a = mark
          · exact ⟨[a], piece, rfl, by simpa [Ended] using same, free⟩
          · refine ⟨[], a :: piece, rfl, nofun, ?_⟩
            rw [List.mem_cons, not_or]
            exact ⟨Ne.symm same, free⟩

/-- An end that is added is seen in the last piece only. -/
theorem map_splitAfter_concat {γ : Type} {f : List α → γ}
    (blind : ∀ piece, f (piece ++ [mark]) = f piece) {l : List α} (unended : ¬ Ended mark l) :
    (splitAfter mark (l ++ [mark])).map f = (splitAfter mark l).map f := by
  obtain ⟨first, piece, rfl, ended, free⟩ := exists_last_piece mark l
  have nonempty : piece ≠ [] := by
    rintro rfl
    rw [List.append_nil] at unended
    exact unended ended
  have alone : splitAfter mark piece = [piece] := by
    simpa [splitAfter, glue] using splitAfter_of_not_mem free nonempty []
  rw [List.append_assoc, splitAfter_append ended, splitAfter_append ended,
    splitAfter_of_not_mem free nonempty, alone, splitAfter_cons_mark, splitAfter]
  simp [glue, blind]

/-- Cutting commutes with an encoding in which the mark is on its own. -/
theorem splitAfter_flatMap {encode : α → List β} {code : β} (marked : encode mark = [code])
    (nonempty : ∀ a, encode a ≠ []) (free : ∀ a, a ≠ mark → code ∉ encode a) (l : List α) :
    splitAfter code (l.flatMap encode) =
      (splitAfter mark l).map fun piece => piece.flatMap encode := by
  induction l with
  | nil => rfl
  | cons a l ih =>
      rw [List.flatMap_cons]
      by_cases same : a = mark
      · rw [same, marked, splitAfter_cons_mark, List.singleton_append, splitAfter_cons_mark, ih]
        simp [marked]
      · rw [splitAfter_of_not_mem (free a same) (nonempty a), splitAfter_cons_of_ne same, ih]
        cases splitAfter mark l <;> simp [glue]

end Pieces

section Bytes

theorem newline_not_mem {c : Char} (other : c ≠ '\n') : 10 ∉ String.utf8EncodeChar c := by
  have differs : c.val.toNat ≠ 10 := fun same => other (Char.ext (UInt32.toNat_inj.mp same))
  have byte : ∀ n, n < 256 → n ≠ 10 → (10 : UInt8) ≠ UInt8.ofNat n := by
    intro n small away same
    have value := congrArg UInt8.toNat same
    rw [UInt8.toNat_ofNat_of_lt' small] at value
    exact away value.symm
  unfold String.utf8EncodeChar
  generalize c.val.toNat = code at differs
  dsimp only
  -- in a code of several bytes, each of them is at least 128
  split
  · simpa using byte code (by omega) differs
  · repeat' split
    all_goals
      simp only [List.mem_cons, List.not_mem_nil, or_false, not_or]
      and_intros
    all_goals exact byte _ (by omega) (by omega)

/-- The text as it is typed. -/
def bytes (text : String) : List UInt8 := text.toUTF8.data.toList

theorem bytes_eq_flatMap (text : String) :
    bytes text = text.toList.flatMap String.utf8EncodeChar := by
  have encoded : text.toByteArray = text.toList.utf8Encode := by
    rw [← String.toByteArray_ofList, String.ofList_toList]
  rw [bytes, String.toUTF8_eq_toByteArray, encoded, List.utf8Encode, List.data_toByteArray]

theorem fromUTF8?_toUTF8 (text : String) : String.fromUTF8? text.toUTF8 = some text := by
  rw [String.fromUTF8?, String.toUTF8_eq_toByteArray, dif_pos text.isValidUTF8]
  rfl

theorem fromUTF8?_bytes (text : String) : String.fromUTF8? ⟨(bytes text).toArray⟩ = some text :=
  fromUTF8?_toUTF8 text

theorem ended_bytes {text : String} (h : Ended '\n' text.toList) : Ended 10 (bytes text) := by
  rw [ended_iff] at h ⊢
  rw [bytes_eq_flatMap]
  rcases h with none | last
  · exact .inl (by rw [none]; rfl)
  · obtain ⟨front, whole⟩ := List.getLast?_eq_some_iff.mp last
    refine .inr ?_
    rw [whole, List.flatMap_append]
    exact List.getLast?_concat

/-- The lines of a text, with their ends. -/
def typedLines (text : String) : List String := (splitAfter '\n' text.toList).map String.ofList

theorem splitAfter_bytes (text : String) :
    splitAfter 10 (bytes text) = (typedLines text).map bytes := by
  have cut : splitAfter 10 (text.toList.flatMap String.utf8EncodeChar) =
      (splitAfter '\n' text.toList).map fun piece => piece.flatMap String.utf8EncodeChar := by
    apply splitAfter_flatMap
    · rfl
    · exact fun _ => String.utf8EncodeChar_ne_nil
    · exact fun _ => newline_not_mem
  rw [bytes_eq_flatMap, cut, typedLines, List.map_map]
  exact List.map_congr_left fun piece _ => by simp [bytes_eq_flatMap]

end Bytes

section Lines

/-- The script with an end to its last line. -/
def completed (script : String) : String :=
  if script = "" ∨ script.toList.getLast? = some '\n' then script else script ++ "\n"

theorem withoutFeed_ends (line : List Char) :
    ∃ tail, LineEnds tail ∧ line = withoutFeed line ++ tail := by
  rw [← line.reverse_reverse]
  unfold withoutFeed
  generalize line.reverse = backwards
  rw [List.reverse_reverse]
  split
  · next rest => exact ⟨['\r', '\n'], by simp [LineEnds], by simp⟩
  · next rest _ => exact ⟨['\n'], by simp [LineEnds], by simp⟩
  · exact ⟨[], nofun, by simp⟩

theorem map_scriptLines (script : String) :
    (scriptLines script).map Prompt.withoutLineEnd =
      (typedLines script).map Prompt.withoutLineEnd := by
  simp only [scriptLines, typedLines, List.map_map]
  refine List.map_congr_left fun line _ => ?_
  obtain ⟨tail, ends, split⟩ := withoutFeed_ends line
  dsimp only [Function.comp_apply]
  rw [← Prompt.withoutLineEnd_append _ ends, ← split]

theorem ended_completed (script : String) : Ended '\n' (completed script).toList := by
  unfold completed
  split
  · rwa [ended_iff, String.toList_eq_nil_iff]
  · simp [Ended]

theorem map_typedLines_completed (script : String) :
    (typedLines (completed script)).map Prompt.withoutLineEnd =
      (typedLines script).map Prompt.withoutLineEnd := by
  unfold completed
  split
  · rfl
  · next unended =>
      simp only [typedLines, List.map_map, String.toList_append]
      apply map_splitAfter_concat
      · exact fun piece => Prompt.withoutLineEnd_append piece (by simp [LineEnds])
      · rwa [ended_iff, String.toList_eq_nil_iff]

end Lines

/-- The state and the text after a line, where the event is that a line was handled. -/
def Event.reply? : Event → Option (History × String)
  | asked _ => none
  | handled history output => some (history, output)

namespace Shell

variable (shell : Shell)

/-- What has followed on the lines so far. -/
def replies : List (History × String) := shell.transcript.reverse.filterMap Event.reply?

/-- The shell without what it has asked. -/
def quiet : Shell :=
  { shell with transcript := shell.transcript.filter (·.reply?.isSome) }

@[simp]
theorem status_quiet : shell.quiet.status = shell.status := rfl

@[simp]
theorem directory_quiet : shell.quiet.directory = shell.directory := rfl

theorem quiet_quiet : shell.quiet.quiet = shell.quiet := by
  simp only [quiet, List.filter_filter, Bool.and_self]

theorem replies_quiet : shell.quiet.replies = shell.replies := by
  have same : (fun event : Event => if event.reply?.isSome then event.reply? else none) =
      Event.reply? := by
    funext event
    cases event <;> rfl
  simp only [replies, quiet, ← List.filter_reverse, List.filterMap_filter, same]

theorem quiet_save (saves : List Save) : (shell.save saves).quiet = shell.quiet.save saves := by
  induction saves generalizing shell with
  | nil => rfl
  | cons write saves ih =>
      simp only [save, directory_quiet]
      cases shell.directory.write write.path write.text with
      | ok directory => exact ih _
      | error _ => rfl

theorem quiet_handle (line : String) : (shell.handle line).quiet = shell.quiet.handle line := by
  simp only [handle, apply_ite quiet, quiet_save]
  rfl

theorem handleAll_of_ended (ended : shell.status ≠ .running) (lines : List String) :
    shell.handleAll lines = shell := by
  cases lines with
  | nil => rfl
  | cons line lines =>
      unfold handleAll
      split
      · next running => exact absurd running ended
      · rfl

theorem converse_of_ended (ended : shell.status ≠ .running) (lines : List (List UInt8)) :
    shell.converse lines = shell := by
  cases lines with
  | nil | cons line lines =>
      unfold converse
      split
      · next running => exact absurd running ended
      · rfl

theorem handleAll_cons {shell : Shell} (running : shell.status = .running) (line : String)
    (lines : List String) :
    shell.handleAll (line :: lines) = (shell.handle line).handleAll lines := by
  rw [handleAll, running]

/-- A line end that is left out makes no difference. -/
theorem handleAll_withoutLineEnd (lines : List String) :
    shell.handleAll (lines.map Prompt.withoutLineEnd) = shell.handleAll lines := by
  induction lines generalizing shell with
  | nil => rfl
  | cons line lines ih =>
      have same : shell.handle (Prompt.withoutLineEnd line) = shell.handle line := by
        simp only [handle, Prompt.handle_withoutLineEnd]
      rw [List.map_cons, handleAll, handleAll, same, ih]

theorem quiet_asked (text : String) : (shell.record (.asked text)).quiet = shell.quiet := rfl

theorem quiet_stop (status : Status) : (shell.stop status).quiet = shell.quiet.stop status := rfl

/-- What has been asked before makes no difference to what follows. -/
theorem quiet_converse (lines : List (List UInt8)) :
    (shell.converse lines).quiet = (shell.quiet.converse lines).quiet := by
  induction lines generalizing shell with
  | nil =>
      simp only [converse, status_quiet]
      split
      · simp only [quiet_stop, quiet_asked, quiet_quiet]
      · exact shell.quiet_quiet.symm
  | cons line lines ih =>
      simp only [converse, status_quiet]
      split
      · split
        · rw [ih (handle (record shell _) _), ih (handle (record shell.quiet _) _)]
          simp only [quiet_handle, quiet_asked, quiet_quiet]
        · simp only [quiet_stop, quiet_asked, quiet_quiet]
      · exact shell.quiet_quiet.symm

/-- Lines that are typed are handled like those of a script. -/
theorem quiet_converse_append (lines : List String) (rest : List (List UInt8)) :
    (shell.converse (lines.map bytes ++ rest)).quiet =
      ((shell.quiet.handleAll lines).converse rest).quiet := by
  induction lines generalizing shell with
  | nil => exact shell.quiet_converse rest
  | cons line lines ih =>
      by_cases running : shell.status = .running
      · have typed : shell.converse ((line :: lines).map bytes ++ rest) =
            ((shell.record (.asked shell.prompt.ask)).handle line).converse
              (lines.map bytes ++ rest) := by
          rw [List.map_cons, List.cons_append, converse, running]
          simp only [fromUTF8?_bytes]
        rw [typed, ih, quiet_handle, quiet_asked,
          handleAll_cons (shell.status_quiet.trans running)]
      · have ended : shell.quiet.status ≠ .running := running
        rw [converse_of_ended _ running, handleAll_of_ended _ ended, converse_of_ended _ ended,
          quiet_quiet]

/-- Up to what is asked, it makes no difference whether the script is read from a file or is typed
in front of the rest. -/
theorem quiet_runWith (options : Options) (stdin : List UInt8) {directory : Directory}
    {path script : String} (read : directory.readText path = .ok script) :
    (runWith { options with script := some path } stdin directory).quiet =
      (runWith { options with script := none } (bytes (completed script) ++ stdin)
        directory).quiet := by
  let shell := start options directory
  have lines : shell.handleAll (typedLines (completed script)) =
      shell.handleAll (scriptLines script) := by
    rw [← handleAll_withoutLineEnd, map_typedLines_completed, ← map_scriptLines,
      handleAll_withoutLineEnd]
  have filed : shell.runScript path = shell.handleAll (scriptLines script) := by
    have found : shell.directory.readText path = .ok script := read
    simp only [runScript, found]
  have ended := ended_bytes (ended_completed script)
  change ((shell.runScript path).converse _).quiet = (shell.converse _).quiet
  rw [filed, splitAfter_append ended, splitAfter_bytes, quiet_converse_append, ← lines]
  rfl

theorem outcome_quiet :
    shell.quiet.outcome = { shell.outcome with stdout := shell.quiet.stdout } := by
  unfold outcome
  rw [status_quiet]
  split <;> rfl

/-- With a script, and with the same text typed in front of the rest: the states of the history and
the texts that follow on the lines are the same one by one, and so are the output without what is
asked, the files in the end and the way in which the run ends. -/
theorem runWith_script (options : Options) (stdin : List UInt8) {directory : Directory}
    {path script : String} (read : directory.readText path = .ok script) :
    let filed := runWith { options with script := some path } stdin directory
    let typed := runWith { options with script := none } (bytes (completed script) ++ stdin)
      directory
    filed.replies = typed.replies ∧ filed.quiet.stdout = typed.quiet.stdout ∧
      filed.outcome.directory = typed.outcome.directory ∧
      filed.outcome.exitCode = typed.outcome.exitCode ∧
      filed.outcome.stderr = typed.outcome.stderr := by
  intro filed typed
  have same : filed.quiet = typed.quiet := quiet_runWith options stdin read
  have outcomes := congrArg outcome same
  rw [outcome_quiet, outcome_quiet, Outcome.mk.injEq] at outcomes
  obtain ⟨exitCode, stdout, stderr, directory⟩ := outcomes
  refine ⟨?_, stdout, directory, exitCode, stderr⟩
  rw [← replies_quiet, same, replies_quiet]

/-- The loop is begun in the script and ended by what is typed. Then it is undone, and nothing is
handled after the run has been left. -/
theorem runWith_script_border :
    let script := "fd 10\r\nrepeat 2 [ rt 90\r\r"
    let directory : Directory := ⟨Dictionary.ofList [("a", script.toUTF8)]⟩
    let stdin := bytes " fd 5 ]\n\n.undo\r\n.quit\nfd 1\n"
    let filed := runWith { script := some "a", recordRotations := true } stdin directory
    let typed := runWith { recordRotations := true } (bytes (script ++ "\n") ++ stdin) directory
    directory.readText "a" = .ok script ∧ filed.replies = typed.replies ∧
      filed.replies.length = 6 ∧ filed.outcome.exitCode = 0 := by
  intro script directory stdin filed typed
  have steps : Directory.steps "a" = ["a"] := by
    rw [Directory.steps, String.splitOn, if_neg (by decide), String.splitOnAux,
      if_neg (by decide +kernel), if_neg (by decide +kernel), String.splitOnAux,
      if_pos (by decide +kernel)]
    decide +kernel
  have located : directory.locate "a" = .ok (.entry .here "a" false) := by
    rw [Directory.locate, steps]
    rfl
  have contents : directory.read "a" = .ok script.toUTF8 := by
    rw [Directory.read, located]
    rfl
  have read : directory.readText "a" = .ok script := by
    simp only [Directory.readText, contents, bind, Except.bind, fromUTF8?_toUTF8]
    rfl
  have ends : completed script = script ++ "\n" := by decide +kernel
  have facts : typed.replies.length = 6 ∧ typed.outcome.exitCode = 0 := by decide +kernel
  obtain ⟨six, zero⟩ := facts
  obtain ⟨replies, _, _, exitCode, _⟩ := runWith_script { recordRotations := true } stdin read
  rw [ends] at replies exitCode
  refine ⟨read, replies, ?_, exitCode.trans zero⟩
  rw [← six]
  exact congrArg List.length replies

end Shell

end CommandLine

end Logo
