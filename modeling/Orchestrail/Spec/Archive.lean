import Mathlib.Algebra.Ring.Nat
import Orchestrail.Lib.Outline
import Orchestrail.Spec.QueueInbox
import Mathlib.Data.Finset.Dedup
import Mathlib.Data.Finset.Insert
import Mathlib.Data.List.DropRight

/-!
# Archiving a completed task

The three steps of `control.rs` that retire a task: `mark_task_done_for_archive` sets the descriptor
to `done` and takes the task off the queue, `project_task_archive` writes the descriptor and its
metrics into `Tasks_Done.md`, and `remove_terminal_task_descriptor` drops the live descriptor. With
them the archive headings of `state/util.rs`, by which `try_completed_ids` reads the archive, and
the status line of a descriptor.

Texts are lists of characters, and where the source keeps byte offsets of a block, the block is kept
with the text on both sides. Every replacement of a file is one durable step; so is the removal of a
descriptor's directory. `char::is_alphanumeric` is a parameter.
-/

namespace Orchestrail

open Text Outcome Durable

/-! ## Lines -/

/-- `str::lines` strips the line ending of a line. -/
def stripLineEnding (line : List Char) : List Char :=
  match line.reverse with
  | '\n' :: '\r' :: rest => rest.reverse
  | '\n' :: rest => rest.reverse
  | _ => line

/-- `str::lines`. -/
def textLines (text : List Char) : List (List Char) := (Outline.inclusive text).map stripLineEnding

/-- `str::trim_end`. -/
def trimEnd (text : List Char) : List Char := text.rdropWhile isWhiteSpace

/-- `str::split_whitespace`. -/
def splitWhitespace (text : List Char) : List (List Char) :=
  (Text.pieces isWhiteSpace text).filter fun token => !token.isEmpty

/-- The text behind the first match of a pattern. -/
def afterFirst (pattern : List Char) : List Char → Option (List Char)
  | [] => if pattern.isEmpty then some [] else none
  | ch :: text =>
    if pattern.isPrefixOf (ch :: text) then some ((ch :: text).drop pattern.length)
    else afterFirst pattern text

/-- The bytes of a text. -/
def textBytes (text : List Char) : Nat := (text.map Char.utf8Size).sum

/-! ## Archive headings -/

/-- `char::to_lowercase`, on the characters that become a letter of the two keywords. -/
def lowerKeyword (ch : Char) : Char :=
  if 'A' ≤ ch ∧ ch ≤ 'Z' ∨ 'А' ≤ ch ∧ ch ≤ 'Я' then Char.ofNat (ch.toNat + 32)
  else if ch = '\u212A' then 'k'
  else ch

/-- Equality up to case, for keywords of English or Russian letters. -/
def eqCi (a : List Char) (b : String) : Bool := a.map lowerKeyword == b.toList.map lowerKeyword

section Archive

variable (alphanumeric : Char → Bool)

/-- The id inside a legacy H1 token: `T-` and digits, up to a word boundary. -/
def legacyIdToken (token : List Char) : Option String :=
  match stripFront "T-".toList token with
  | none => none
  | some digits =>
    let number := digits.takeWhile isAsciiDigit
    if number.isEmpty then none
    else if (digits.drop number.length).head?.any fun ch => alphanumeric ch || ch == '_' then none
    else
      let id := String.ofList ("T-".toList ++ number)
      if isTaskId id then some id else none

/-- Behind two or three hashes: a task id in brackets. -/
def bracketedTaskId (rest : List Char) : Option String :=
  match rest.dropWhile isWhiteSpace with
  | '[' :: inner =>
    if ']' ∈ inner then
      let id := String.ofList (trim (inner.takeWhile (· ≠ ']')))
      if isTaskId id then some id else none
    else none
  | _ => none

/-- Behind one hash: white space, the two words of the legacy heading, and the id. -/
def legacyTaskId (rest : List Char) : Option String :=
  if rest.head?.any isWhiteSpace then
    match splitWhitespace rest with
    | kw1 :: kw2 :: token :: _ =>
      if eqCi kw1 "Active" && eqCi kw2 "task" || eqCi kw1 "Активная" && eqCi kw2 "задача" then
        legacyIdToken alphanumeric token
      else none
    | _ => none
  else none

/-- The archived task id of one line, if it is an archive heading. -/
def archiveHeaderTaskId (line : List Char) : Option String :=
  let trimmed := line.dropWhile isWhiteSpace
  let hashes := (trimmed.takeWhile (· = '#')).length
  let rest := trimmed.dropWhile (· = '#')
  if hashes = 2 ∨ hashes = 3 then bracketedTaskId rest
  else if hashes = 1 then legacyTaskId alphanumeric rest
  else none

/-- A section of the archive and what stands on both sides of it. -/
structure ArchiveSection where
  taskId : String
  before : List Char
  text : List Char
  after : List Char

/-- The heading of a line as `archive_sections` reads it, its line ending cut off. -/
def archiveHeading (line : List Char) : Option String :=
  archiveHeaderTaskId alphanumeric (line.rdropWhile fun ch => ch = '\r' || ch = '\n')

/-- The pieces of `split_inclusive` are the whole text, so the tail the source looks at behind them
is empty. -/
def archiveSections (text : List Char) : List ArchiveSection :=
  (Outline.pieces (archiveHeading alphanumeric) [] (Outline.inclusive text)).map fun p =>
    ⟨p.key, p.before.flatten, p.lines.flatten, p.after.flatten⟩

def taskMetricsMarker (taskId batchId : String) : List Char :=
  ("<!-- orchestra/task-execution-metrics@1 task_id=" ++ taskId ++ " batch_id=" ++ batchId ++
    " status=").toList

/-- `section.matches(&marker).count()`. -/
def countMarkers (taskId batchId : String) (text : List Char) : Nat :=
  Outline.occurrences (taskMetricsMarker taskId batchId) 0 text

inductive ControlError where
  | io (error : IoError)
  | invalidInput (message : String)
  | contradiction (message : String)
  deriving DecidableEq

abbrev Control (α : Type) := Except ControlError α

def validateTaskMetricsBlock (metrics : List Char) (taskId batchId : String) : Control Unit :=
  demand ("#### Метрики выполнения\n".toList.isPrefixOf metrics ∧
      countMarkers taskId batchId metrics = 1 ∧
      ∀ line ∈ textLines metrics, archiveHeaderTaskId alphanumeric line = none)
    (.invalidInput
      s!"metrics block for {taskId} does not match orchestra/task-execution-metrics@1")

/-- The first line that is not blank is the task's own heading. -/
def descriptorHasHeader (taskId : String) (descriptor : List Char) : Bool :=
  ((textLines descriptor).find? fun line => !(trim line).isEmpty).bind
    (archiveHeaderTaskId alphanumeric) == some taskId

def formatArchiveSection (taskId : String) (descriptor metrics : List Char) : List Char :=
  (if descriptorHasHeader alphanumeric taskId descriptor then []
    else ("### [" ++ taskId ++ "] выполнена\n\n").toList) ++
    trimEnd descriptor ++ ['\n', '\n'] ++ trimEnd metrics ++ ['\n']

/-! ## Descriptors -/

/-- The lifecycle of a task as the control plane writes it. -/
inductive TaskState where
  | notStarted | working | inReview | ready | merged | published | done | escalated | conflict
  deriving DecidableEq

namespace TaskState

def asStr : TaskState → String
  | notStarted => "not-started"
  | working => "working"
  | inReview => "in-review"
  | ready => "ready"
  | merged => "merged"
  | published => "published"
  | done => "done"
  | escalated => "escalated"
  | conflict => "conflict"

/-- `task_literal`. -/
def literal : TaskState → String
  | notStarted => "не начата"
  | working => "в работе"
  | inReview => "на ревью"
  | ready => "готова к слиянию"
  | merged => "слита"
  | published => "опубликована"
  | done => "выполнена"
  | escalated => "эскалирована"
  | conflict => "конфликт"

def all : List TaskState :=
  [notStarted, working, inReview, ready, merged, published, done, escalated, conflict]

/-- Everything before the first suffix separator, trimmed. -/
def baseWord (literal : List Char) : List Char := trim (literal.takeWhile (· ≠ '·'))

def fromMarkdown (text : List Char) : Option TaskState :=
  all.find? fun state => baseWord text == state.literal.toList

end TaskState

def validTaskTransition : TaskState → TaskState → Bool
  | .notStarted, .working => true
  | .working, .inReview | .working, .escalated | .working, .conflict => true
  | .inReview, .working | .inReview, .ready | .inReview, .escalated => true
  | .ready, .merged | .ready, .conflict | .ready, .escalated => true
  | .merged, .published | .merged, .conflict | .merged, .escalated => true
  | .published, .done => true
  | .conflict, .notStarted => true
  | _, _ => false

/-- The value of the first line whose trimmed form starts with `key`. -/
def lineField (text : List Char) (key : String) : Option (List Char) :=
  (textLines text).findSome? fun line => (stripFront key.toList (trim line)).map trim

/-- The state `parse_descriptor` reads. -/
def descriptorState (text : List Char) : Option TaskState :=
  (lineField text "Статус:").bind TaskState.fromMarkdown

/-- The first line that starts with the field is replaced, or a line is added at the end. -/
def setLineField (text : List Char) (field value : String) : List Char :=
  let line := (field ++ " " ++ value).toList
  let lines := textLines text
  let starts : List Char → Bool := fun l => field.toList.isPrefixOf l
  let lines :=
    if lines.any starts then
      lines.takeWhile (fun l => !starts l) ++ line :: (lines.dropWhile fun l => !starts l).tail
    else if lines.getLast?.any (fun l => !l.isEmpty) then lines ++ [[], line]
    else lines ++ [line]
  (lines.intersperse ['\n']).flatten ++ ['\n']

/-- The descriptor as `mark_task_done_for_archive` leaves it. -/
def markedDescriptor (text : List Char) : List Char :=
  if descriptorState text = some .published then
    setLineField text "Статус:" (TaskState.literal .done)
  else text

/-! ## The queue -/

structure QueueBlock where
  before : List Char
  text : List Char
  after : List Char
  status : List Char

def queueHeading (line : List Char) : Option Unit :=
  if "### [".toList.isPrefixOf line then some () else none

/-- The text of a status, from the first line of a block. -/
def headerStatus (text : List Char) : Option (List Char) :=
  let header := text.takeWhile (· ≠ '\n')
  ((afterFirst "статус:".toList header).or (afterFirst "Статус:".toList header)).map trim

def noQueueBlock (taskId : String) : String := s!"queue has no task block for {taskId}"

/-- How the header of a task's block begins. -/
def wantedHeader (taskId : String) : List Char := ("### [" ++ taskId ++ "]").toList

def findQueueBlock (content : List Char) (taskId : String) : Control QueueBlock :=
  match (Outline.pieces queueHeading [] (Outline.inclusive content)).filter fun p =>
      (wantedHeader taskId).isPrefixOf (p.lines.flatten ++ p.after.flatten) with
  | [] => .error (.contradiction (noQueueBlock taskId))
  | [p] =>
    match headerStatus p.lines.flatten with
    | none => .error (.contradiction s!"queue task {taskId} has no статус field")
    | some status =>
      if status.isEmpty then .error (.contradiction s!"queue task {taskId} has an empty status")
      else .ok ⟨p.before.flatten, p.lines.flatten, p.after.flatten, status⟩
  | _ => .error (.contradiction s!"queue has duplicate task blocks for {taskId}")

/-- The block of a task, if it has one. -/
def queueEntry (content : List Char) (taskId : String) : Control (Option QueueBlock) :=
  match findQueueBlock content taskId with
  | .ok entry => .ok (some entry)
  | .error (.contradiction message) =>
    if message = noQueueBlock taskId then .ok none else .error (.contradiction message)
  | .error error => .error error

def removeBlock (block : QueueBlock) : List Char := block.before ++ block.after

def parseStatus (status : List Char) : Control TaskState :=
  match TaskState.fromMarkdown status with
  | some state => .ok state
  | none =>
    .error (.contradiction s!"unrecognized queue status {quoted (String.ofList status)}")

/-! ## Files -/

/-- The files of one `.work` directory that the three steps touch; a descriptor that is there is
the `task.md` of its directory. -/
structure ControlFiles where
  work : String
  queue : Option (List Char)
  done : Option (List Char)
  descriptor : String → Option (List Char)

namespace ControlFiles

def queuePath (s : ControlFiles) : String := s.work ++ "/Tasks_Queue.md"

def donePath (s : ControlFiles) : String := s.work ++ "/Tasks_Done.md"

def descriptorPath (s : ControlFiles) (taskId : String) : String :=
  s.work ++ "/tasks/" ++ taskId ++ "/task.md"

def setDescriptor (s : ControlFiles) (taskId : String) (text : Option (List Char)) :
    ControlFiles :=
  { s with descriptor := fun id => if id = taskId then text else s.descriptor id }

end ControlFiles

abbrev ControlProg (α : Type) := Prog ControlFiles Unit ControlError α

def oversize (kind : ErrorKind) (path : String) : ControlError :=
  .io ⟨kind, s!"control-plane artifact exceeds {maxControlBytes} bytes: {path}"⟩

def readOptionalText (path : String) : Option (List Char) → Control (Option (List Char))
  | none => .ok none
  | some text =>
    if textBytes text ≤ maxControlBytes then .ok (some text)
    else .error (oversize .invalidData path)

/-- `read_required`. -/
def readRequired (path : String) (file : Option (List Char)) : Control (List Char) := do
  match ← readOptionalText path file with
  | some text => return text
  | none => .error (.contradiction s!"required control-plane artifact is absent: {path}")

/-- `write_text`: the replacement of a file whose content is `text`. -/
def writeText (path : String) (text : List Char) (replace : ControlFiles → ControlFiles) :
    ControlProg Unit :=
  if textBytes text ≤ maxControlBytes then atomically replace
  else refuse (oversize .invalidInput path)

namespace ControlPlane

def validateTaskId (taskId : String) : Control Unit :=
  demand (isTaskId taskId)
    (.invalidInput s!"invalid task id {quoted taskId}; expected T-<digits>")

def validateBatchId (batchId : String) : Control Unit :=
  demand (batchId.toList ≠ [] ∧ startsWith batchId '-' = false ∧ contains batchId '\x00' = false ∧
      contains batchId '\r' = false ∧ contains batchId '\n' = false)
    (.invalidInput s!"invalid batch id {quoted batchId}")

/-- `read_required` of the live descriptor. -/
def readDescriptor (s : ControlFiles) (taskId : String) : Control (List Char) :=
  readRequired (s.descriptorPath taskId) (s.descriptor taskId)

/-- `patch_descriptor` with a state and nothing else. -/
def patchDescriptor (taskId : String) (state : TaskState) : ControlProg Unit := do
  attempt (validateTaskId taskId)
  let s ← onDisk
  let content ← attempt (readDescriptor s taskId)
  attempt (checkTransition taskId (descriptorState content) state)
  let content := setLineField content "Статус:" state.literal
  writeText (s.descriptorPath taskId) content fun s => s.setDescriptor taskId (some content)
where
  checkTransition (taskId : String) (old : Option TaskState) (state : TaskState) : Control Unit :=
    match old with
    | none => .ok ()
    | some previous =>
      demand (previous = state ∨ validTaskTransition previous state)
        (.contradiction <| "illegal descriptor transition for " ++ taskId ++ ": " ++
          previous.asStr ++ " -> " ++ state.asStr)

/-- The state of a descriptor that may be archived. -/
def publishable (taskId : String) (text : List Char) : Control TaskState :=
  match descriptorState text with
  | none =>
    .error (.contradiction s!"descriptor {taskId} has no recognized state for archive")
  | some state => do
    demand (state = .published ∨ state = .done) (.contradiction <|
      "descriptor task " ++ taskId ++ " is " ++ state.asStr ++ ", not publishable for archive")
    return state

/-- What the queue must say of a task that is archived. -/
def checkQueueEntry (taskId : String) (state : TaskState) : Option QueueBlock → Control Unit
  | some entry => do
    let queueState ← parseStatus entry.status
    demand (queueState ∈ [.working, .ready, .merged, .published, .done]) (.contradiction <|
      "queue task " ++ taskId ++ " is " ++ queueState.asStr ++ ", not publishable for archive")
  | none =>
    demand (state = .done)
      (.contradiction s!"published descriptor {taskId} has no queue block")

/-- The block goes, if there is one. -/
def dropQueueBlock (s : ControlFiles) : Option QueueBlock → ControlProg Unit
  | some entry =>
    writeText s.queuePath (removeBlock entry) fun s => { s with queue := some (removeBlock entry) }
  | none => pure ()

def markTaskDoneForArchive (taskId : String) : ControlProg Unit := do
  attempt (validateTaskId taskId)
  let s ← onDisk
  let text ← attempt (readDescriptor s taskId)
  let state ← attempt (publishable taskId text)
  let queue ← attempt (readRequired s.queuePath s.queue)
  let entry ← attempt (queueEntry queue taskId)
  attempt (checkQueueEntry taskId state entry)
  (if state = .published then patchDescriptor taskId .done else pure ())
  dropQueueBlock s entry

variable (alphanumeric : Char → Bool)

/-- The sections of one task. -/
def sectionsOf (taskId : String) (text : List Char) : List ArchiveSection :=
  (archiveSections alphanumeric text).filter fun p => p.taskId == taskId

/-- A text with two line endings at its end. -/
def withBlankLine (text : List Char) : List Char :=
  let text := if text.getLast? = some '\n' then text else text ++ ['\n']
  if ['\n', '\n'].isSuffixOf text then text else text ++ ['\n']

/-- The text `project_task_archive` writes, unless the archive is complete. -/
def projectedArchive (taskId batchId : String) (desired done : List Char) :
    Control (Option (List Char)) :=
  match sectionsOf alphanumeric taskId done with
  | [] => .ok (some (withBlankLine done ++ desired))
  | [existing] => do
    let markers := countMarkers taskId batchId existing.text
    demand (markers ≤ 1)
      (.contradiction s!"archive section {taskId} has duplicate metrics markers")
    return if markers = 0 then some (existing.before ++ desired ++ existing.after) else none
  | _ => .error (.contradiction s!"archive has duplicate task sections for {taskId}")

/-- The verification behind the write. -/
def verifyArchive (taskId batchId : String) (verified : List Char) : Control Unit :=
  let found := sectionsOf alphanumeric taskId verified
  match found with
  | [existing] =>
    demand (countMarkers taskId batchId existing.text = 1) (.contradiction <|
      s!"archive verification found an incomplete metrics block for {taskId}")
  | _ =>
    .error (.contradiction
      s!"archive verification found {found.length} sections for {taskId}")

def checkDone (taskId : String) (text : List Char) : Control Unit :=
  demand (descriptorState text = some .done)
    (.contradiction s!"descriptor {taskId} must be done before archive projection")

/-- The archive is replaced, if there is something to write. -/
def writeArchive (s : ControlFiles) : Option (List Char) → ControlProg Unit
  | some done => writeText s.donePath done fun s => { s with done := some done }
  | none => pure ()

def projectTaskArchive (taskId batchId : String) (metrics : List Char) : ControlProg Unit := do
  attempt (validateTaskId taskId)
  attempt (validateBatchId batchId)
  attempt (validateTaskMetricsBlock alphanumeric metrics taskId batchId)
  let s ← onDisk
  let text ← attempt (readDescriptor s taskId)
  attempt (checkDone taskId text)
  let desired := formatArchiveSection alphanumeric taskId text metrics
  let done ← attempt (readOptionalText s.donePath s.done)
  let projected ← attempt (projectedArchive alphanumeric taskId batchId desired
    (done.getD "# Completed tasks\n\n".toList))
  writeArchive s projected
  let s ← onDisk
  let verified ← attempt (readRequired s.donePath s.done)
  attempt (verifyArchive alphanumeric taskId batchId verified)

def taskArchiveComplete (s : ControlFiles) (taskId batchId : String) : Control Bool := do
  validateTaskId taskId
  validateBatchId batchId
  match ← readOptionalText s.donePath s.done with
  | none => return false
  | some done =>
    match sectionsOf alphanumeric taskId done with
    | [existing] => return countMarkers taskId batchId existing.text == 1
    | _ => return false

/-- `try_completed_ids`. -/
def tryCompletedIds (s : ControlFiles) : Control (Finset String) := do
  match ← readOptionalText s.donePath s.done with
  | some text =>
    return ((textLines text).filterMap (archiveHeaderTaskId alphanumeric)).toFinset
  | none => return ∅

/-- The state of a descriptor that may be removed. -/
def removable (taskId : String) (text : List Char) : Control Unit :=
  match descriptorState text with
  | none => .error (.contradiction <|
      "descriptor " ++ taskId ++ " has no recognized terminal status for cleanup")
  | some state =>
    demand (state ∈ [.done, .conflict, .escalated]) (.contradiction <|
      "descriptor " ++ taskId ++ " is " ++ state.asStr ++ ", not terminal for cleanup")

def removeTerminalTaskDescriptor (taskId : String) : ControlProg Unit := do
  attempt (validateTaskId taskId)
  let s ← onDisk
  if (s.descriptor taskId).isNone then pure ()
  else do
    let text ← attempt (readDescriptor s taskId)
    attempt (removable taskId text)
    atomically fun s => s.setDescriptor taskId none

/-- The three steps that retire a task, in their order. -/
def retireTask (taskId batchId : String) (metrics : List Char) : ControlProg Unit := do
  markTaskDoneForArchive taskId
  projectTaskArchive alphanumeric taskId batchId metrics
  removeTerminalTaskDescriptor taskId

end ControlPlane

end Archive

end Orchestrail
