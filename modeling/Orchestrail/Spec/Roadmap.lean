import Orchestrail.Spec.Contract
import Mathlib.Data.Finset.Filter

/-!
# The roadmap writer

`roadmap.rs` reads the optional `.work/roadmap.md`, finds its one current milestone, and writes the
derived signal into the section «Текущее состояние» once every task of the milestone has its heading
in `Tasks_Done.md`.

A line is its segment of `split_inclusive`; `lineText` is what the source keeps as its text. Where
the source keeps line or byte positions, the lines or the text on both sides are kept instead. The
replacement of the roadmap is the one durable step.
-/

namespace Orchestrail.Roadmap

open Text Outcome Durable

def currentStateHeading : List Char := "## Текущее состояние".toList

def milestonesHeading : List Char := "## Вехи".toList

/-- The one active milestone of a roadmap. -/
structure CurrentMilestone where
  id : List Char
  title : List Char
  tasks : Finset String
  deriving DecidableEq

inductive MilestoneProgress where
  | noTasks (milestone : CurrentMilestone)
  | incomplete (milestone : CurrentMilestone) (remaining : Finset String)
  | complete (milestone : CurrentMilestone)
  deriving DecidableEq

inductive ProgressWrite where
  | absent
  | notReady
  | unchanged
  | updated
  deriving DecidableEq

inductive RoadmapError where
  | io (error : IoError)
  | malformed (message : String)
  deriving DecidableEq

abbrev Parsed (α : Type) := Except RoadmapError α

def malformed {α : Type} (message : String) : Parsed α := .error (.malformed message)

/-! ## Lines and headings -/

def lines (text : List Char) : List (List Char) :=
  if text.isEmpty then [[]] else Outline.inclusive text

/-- `segment.trim_end_matches(['\r', '\n'])`. -/
def lineText (segment : List Char) : List Char :=
  segment.rdropWhile fun ch => ch = '\r' || ch = '\n'

/-- The line starts with a heading mark of this level. -/
def heading (level : Nat) (segment : List Char) : Bool :=
  (List.replicate level '#' ++ [' ']).isPrefixOf (lineText segment)

def uniqueHeading (ls : List (List Char)) (title : List Char) : Parsed Nat :=
  match (ls.zipIdx.filter fun e => lineText e.1 = title).map Prod.snd with
  | [index] => .ok index
  | [] => malformed s!"missing required heading {quoted (String.ofList title)}"
  | _ => malformed s!"required heading {quoted (String.ofList title)} appears more than once"

/-- `str::rsplit_once`: the text before the last match and the text behind it. -/
def rsplitOnce (pattern text : List Char) : Option (List Char × List Char) :=
  (splitOnce pattern.reverse text.reverse).map fun (behind, front) =>
    (front.reverse, behind.reverse)

def validMilestoneId (id : List Char) : Bool := wholeDecimal "M" (String.ofList id)

def invalidHeader {α : Type} (line : List Char) : Parsed α :=
  malformed s!"invalid current milestone header {quoted (String.ofList line)}"

/-- The id and the title, if the line is the header of a current milestone. -/
def parseCurrentHeader (line : List Char) : Parsed (Option (List Char × List Char)) :=
  if "### [".toList <+: line ∧ "статус: текущая".toList <:+: line then
    match splitOnce [']'] (line.drop 5) with
    | none => malformed
        s!"current milestone header has no closing ']': {quoted (String.ofList line)}"
    | some (id, behind) =>
      if validMilestoneId id then
        match stripFront [' '] behind with
        | none => invalidHeader line
        | some tail =>
          match rsplitOnce " — статус: ".toList tail with
          | none => invalidHeader line
          | some (title, status) =>
            if trim title = [] ∨ status ≠ "текущая".toList then invalidHeader line
            else .ok (some (id, title))
      else malformed s!"current milestone has invalid id {quoted (String.ofList id)}"
  else .ok none

/-- The headers of current milestones up to the next section, each with the lines behind it. -/
def currentHeaders : List (List Char) → Parsed (List (List Char × List Char × List (List Char)))
  | [] => .ok []
  | line :: rest =>
    if heading 2 line then .ok []
    else do
      match ← parseCurrentHeader (lineText line) with
      | some (id, title) => return (id, title, rest) :: (← currentHeaders rest)
      | none => currentHeaders rest

/-! ## The tasks of a milestone -/

/-- What a line lists as the tasks of its milestone. -/
def taskList (segment : List Char) : Option (List Char) :=
  (stripFront "Задачи:".toList (lineText segment)).orElse fun _ =>
    stripFront "Tasks:".toList (lineText segment)

def collectTasks (tasks : Finset String) : List (List Char) → Parsed (Finset String)
  | [] => .ok tasks
  | task :: more =>
    let id := String.ofList (trim task)
    if isTaskId id = true ∧ id ∉ tasks then collectTasks (insert id tasks) more
    else malformed s!"current milestone has invalid or duplicate task id {quoted id}"

def milestoneTasks (ls : List (List Char)) : Parsed (Finset String) :=
  match ls.filterMap taskList with
  | [raw] =>
    if trim raw = ['—'] then .ok ∅
    else if trim raw = [] then
      malformed "current milestone task list is empty; use — when it has no tasks"
    else collectTasks ∅ (Text.pieces (· == ',') (trim raw))
  | _ => malformed "current milestone must contain exactly one Задачи:/Tasks: line"

/-- The lines up to `body_end`: the next header of a milestone, and only where there is none, the
next section. -/
def milestoneBody (rest : List (List Char)) : List (List Char) :=
  if rest.any (heading 3) then rest.takeWhile fun line => !heading 3 line
  else rest.takeWhile fun line => !heading 2 line

/-! ## The document -/

/-- Where the parts of a roadmap stand: the lines up to the heading of the current state, those
between the two headings, and those from «Вехи» on, with the current milestone and the lines behind
its header. -/
structure Place where
  front : List (List Char)
  between : List (List Char)
  tail : List (List Char)
  id : List Char
  title : List Char
  rest : List (List Char)

/-- The heading is a whole line, if something follows it. -/
def endsLine (ls : List (List Char)) (index : Nat) : Prop :=
  ls.getD index [] ≠ [] ∧
    ((ls.drop (index + 1)).flatten = [] ∨ (ls.getD index []).getLast? = some '\n')

instance (ls : List (List Char)) (index : Nat) : Decidable (endsLine ls index) :=
  inferInstanceAs (Decidable (_ ∧ _))

/-- The first half of `parse_document`: the headings and the current milestone. -/
def locate (text : List Char) : Parsed Place := do
  let ls := lines text
  let currentState ← uniqueHeading ls currentStateHeading
  let milestones ← uniqueHeading ls milestonesHeading
  demand (currentState < milestones) (.malformed <|
    quoted (String.ofList currentStateHeading) ++ " must precede " ++
      quoted (String.ofList milestonesHeading))
  demand (endsLine ls currentState) (.malformed "current-state heading must end with a line break")
  match ← currentHeaders (ls.drop (milestones + 1)) with
  | [(id, title, rest)] =>
    return {
      front := ls.take (currentState + 1)
      between := (ls.take milestones).drop (currentState + 1)
      tail := ls.drop milestones
      id, title, rest }
  | _ => malformed "there must be exactly one current milestone in ## Вехи"

/-- The body that is replaced, with the text on both sides of it. -/
structure Document where
  before : List Char
  currentStateBody : List Char
  after : List Char
  current : CurrentMilestone
  deriving DecidableEq

def parseDocument (text : List Char) : Parsed Document := do
  let place ← locate text
  let tasks ← milestoneTasks (milestoneBody place.rest)
  return {
    before := place.front.flatten
    currentStateBody := place.between.flatten
    after := place.tail.flatten
    current := ⟨place.id, place.title, tasks⟩ }

def progressFor (document : Document) (completed : Finset String) : MilestoneProgress :=
  let milestone := document.current
  if milestone.tasks = ∅ then .noTasks milestone
  else
    let remaining := milestone.tasks.filter (· ∉ completed)
    if remaining = ∅ then .complete milestone else .incomplete milestone remaining

def completionSummary (milestone : CurrentMilestone) (eol : List Char) : List Char :=
  "Текущая веха: ".toList ++ milestone.id ++ " — ".toList ++ milestone.title ++ eol ++ eol ++
    "По ".toList ++ milestone.id ++
    (" все поставленные задачи находятся в Tasks_Done.md; " ++
      "критерий Достижение ждёт подтверждения оператором.").toList ++ eol ++ eol

/-- The line ending of the text that is written. -/
def eolOf (text : List Char) : List Char :=
  if "\r\n".toList <:+: text then "\r\n".toList else "\n".toList

/-! ## Files -/

structure RoadmapFiles where
  work : String
  roadmap : Option (List Char)
  done : Option (List Char)

namespace RoadmapFiles

def roadmapPath (s : RoadmapFiles) : String := s.work ++ "/roadmap.md"

def donePath (s : RoadmapFiles) : String := s.work ++ "/Tasks_Done.md"

def setRoadmap (s : RoadmapFiles) (text : List Char) : RoadmapFiles :=
  { s with roadmap := some text }

end RoadmapFiles

abbrev RoadmapProg (α : Type) := Prog RoadmapFiles Unit RoadmapError α

def oversize (kind : ErrorKind) (path : String) : RoadmapError :=
  .io ⟨kind, s!"control-plane artifact exceeds {maxControlBytes} bytes: {path}"⟩

/-- `work_fs::read_optional_text`. -/
def readOptional (path : String) : Option (List Char) → Parsed (Option (List Char))
  | none => .ok none
  | some text =>
    if textBytes text ≤ maxControlBytes then .ok (some text)
    else .error (oversize .invalidData path)

def loadDocument (s : RoadmapFiles) : Parsed (Option (List Char × Document)) := do
  match ← readOptional s.roadmapPath s.roadmap with
  | none => return none
  | some text => return some (text, ← parseDocument text)

section Progress

variable (alphanumeric : Char → Bool)

def completedIds (s : RoadmapFiles) : Parsed (Finset String) := do
  match ← readOptional s.donePath s.done with
  | some text => return ((textLines text).filterMap (archiveHeaderTaskId alphanumeric)).toFinset
  | none => return ∅

/-- The text with the signal in it. -/
def updatedText (text : List Char) (document : Document) : List Char :=
  document.before ++ completionSummary document.current (eolOf text) ++ document.after

/-- What `write_completion_progress` answers and writes. -/
def completionDecision (s : RoadmapFiles) : Parsed (ProgressWrite × Option (List Char)) := do
  match ← loadDocument s with
  | none => return (.absent, none)
  | some (text, document) =>
    let completed ← completedIds alphanumeric s
    match progressFor document completed with
    | .complete milestone =>
      if document.currentStateBody = completionSummary milestone (eolOf text) then
        return (.unchanged, none)
      else return (.updated, some (updatedText text document))
    | _ => return (.notReady, none)

/-- `work_fs::replace_file`. -/
def replaceRoadmap (s : RoadmapFiles) : Option (List Char) → RoadmapProg Unit
  | none => pure ()
  | some text =>
    if textBytes text ≤ maxControlBytes then atomically fun s => s.setRoadmap text
    else refuse (oversize .invalidInput s.roadmapPath)

def writeCompletionProgress : RoadmapProg ProgressWrite := do
  let s ← onDisk
  let decision ← attempt (completionDecision alphanumeric s)
  replaceRoadmap s decision.2
  return decision.1

end Progress

end Orchestrail.Roadmap
