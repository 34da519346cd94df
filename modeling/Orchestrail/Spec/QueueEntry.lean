import Orchestrail.Spec.ReviewCycle

/-!
# The queue entry of one task

The operations of `control.rs` that rewrite the status in the header of one queue block, and what
`parse_queue` reads there. An operation is a function of the text of the block; the rest of the
queue is copied. What the descriptor says at that moment is an argument: it is a file of its own,
which other operations change in between. What a capture writes there after the queue is left out.
-/

namespace Orchestrail.QueueEntry

open Text Outcome

/-- `suffix_field`: the value of the first segment of a status that starts with the key. -/
def suffixField (literal key : List Char) : Option (List Char) :=
  (Text.pieces (· == '·') literal).findSome? fun seg => (stripFront key (trim seg)).map trim

def attemptKey : List Char := "попытка=".toList

def queueAttempt (status : List Char) : Option Nat :=
  (suffixField status attemptKey).bind parseU32

/-- ` · попытка={attempt}`, if there is a counter. -/
def attemptSuffix : Option Nat → List Char
  | none => []
  | some attempt => " · попытка=".toList ++ Nat.toDigits 10 attempt

def sanitizeReason (reason : List Char) : List Char :=
  ([' '].intercalate (splitWhitespace reason)).take 240

/-! ## The header -/

def header (text : List Char) : List Char := text.takeWhile (· ≠ '\n')

/-- What stands behind the marker of the status. -/
def behindMarker (line : List Char) : Option (List Char) :=
  (afterFirst "статус:".toList line).or (afterFirst "Статус:".toList line)

deriving instance DecidableEq for QueueBlock

/-- The status of an entry, as `find_queue_block` reads it. -/
def entryStatus (taskId : String) (text : List Char) : Control (List Char) :=
  match headerStatus text with
  | none => .error (.contradiction s!"queue task {taskId} has no статус field")
  | some status =>
    if status.isEmpty then .error (.contradiction s!"queue task {taskId} has an empty status")
    else .ok status

/-- `replace_block_status`, inside the block. -/
def replaceStatus (text status : List Char) : List Char :=
  let line := header text
  let behind := (behindMarker line).getD []
  line.take (line.length - behind.length) ++ ' ' :: status ++ text.drop line.length

/-! ## What `parse_queue` reads -/

structure Parsed where
  id : String
  state : Option TaskState
  statusLiteral : List Char
  attempt : Option Nat
  quarantine : Option (List Char)
  escalationReason : Option (List Char)
  deriving DecidableEq

/-- The id and the status of a header line. -/
def parseHeader (line : List Char) : Option (String × List Char) := do
  let rest ← stripFront "###".toList line
  let inner ← stripFront ['['] (rest.dropWhile isWhiteSpace)
  let (id, after) ← splitOnce [']'] inner
  let id := String.ofList (trim id)
  if isTaskId id then
    let literal ← behindMarker after
    return (id, trim literal)
  else none

/-- The entry of a header line: its title and the fields of its body are left out. -/
def parseEntry (line : List Char) : Option Parsed := do
  let (id, literal) ← parseHeader line
  return ⟨id, TaskState.fromMarkdown literal, literal, queueAttempt literal,
    suffixField literal "карантин=".toList, suffixField literal "причина=".toList⟩

def parseQueue (content : List Char) : List Parsed := (textLines content).filterMap parseEntry

/-! ## The operations -/

def validateRef (value : List Char) (name : String) : Control Unit :=
  demand (trim value ≠ [] ∧ value.head? ≠ some '-' ∧ '\x00' ∉ value ∧ '\r' ∉ value ∧ '\n' ∉ value)
    (.invalidInput s!"invalid {name}: {quoted (String.ofList value)}")

def validateBatchId (batchId : List Char) : Control Unit :=
  demand (batchId ≠ [] ∧ batchId.head? ≠ some '-' ∧ '\x00' ∉ batchId ∧ '\r' ∉ batchId ∧
      '\n' ∉ batchId)
    (.invalidInput s!"invalid batch id {quoted (String.ofList batchId)}")

/-- What `parse_descriptor` reads of a descriptor. -/
structure Descriptor where
  state : Option TaskState
  batchId : Option (List Char)
  branch : Option (List Char)
  worktree : Option (List Char)

/-- The file of a task's descriptor, if there is one, read. -/
structure DescriptorFile where
  path : String
  found : Option Descriptor

/-- `value.replace('\\', "/")`. -/
def slashes (value : List Char) : List Char := value.map fun ch => if ch = '\\' then '/' else ch

/-- The coordinates of a capture. -/
structure Coordinates where
  batchId : List Char
  branch : List Char
  worktree : List Char

/-- The label of a captured task. -/
def captured (state : TaskState) (c : Coordinates) : List Char :=
  state.literal.toList ++ " · батч=".toList ++ c.batchId ++ " · worktree=".toList ++ c.worktree ++
    " · ветка=".toList ++ c.branch

/-- The label `patch_queue_state` writes in front of the counter. -/
def patched (state : TaskState) (reason : Option (List Char)) : List Char :=
  state.literal.toList ++
    match (reason.map sanitizeReason).filter fun value => !value.isEmpty with
    | some reason =>
      if state = .escalated ∨ state = .conflict then " · причина=".toList ++ reason else []
    | none => []

/-- A `u32`. -/
abbrev Attempt := { n : Nat // n ≤ u32Max }

inductive Op where
  | captureTask (coordinates : Coordinates)
  | patchQueueState (state : TaskState) (reason : Option (List Char))
  | reanchorMergedTask
  | returnOrphanedQueue (attempt : Option Attempt)
  | restoreQueueCapture (coordinates : Coordinates)
  | returnTask (reason : List Char) (attempt : Attempt)

section Operations

variable (taskId : String) (descriptor : DescriptorFile) (text : List Char)

def notEligible (state : TaskState) : ControlError :=
  .contradiction ("queue task " ++ taskId ++ " is " ++ state.asStr ++ ", not eligible for capture")

def captureTask (c : Coordinates) : Control (List Char) := do
  ControlPlane.validateTaskId taskId
  validateBatchId c.batchId
  validateRef c.branch "task branch"
  let status ← entryStatus taskId text
  let current ← parseStatus status
  demand (current = .notStarted) (notEligible taskId current)
  return replaceStatus text (captured .working c ++ attemptSuffix (queueAttempt status))

def patchQueueState (state : TaskState) (reason : Option (List Char)) : Control (List Char) := do
  ControlPlane.validateTaskId taskId
  let status ← entryStatus taskId text
  let previous ← parseStatus status
  demand (previous = state ∨ validTaskTransition previous state) (.contradiction <|
    "illegal queue transition for " ++ taskId ++ ": " ++ previous.asStr ++ " -> " ++ state.asStr)
  return replaceStatus text <| patched state reason ++
    if state = .escalated then [] else attemptSuffix (queueAttempt status)

/-- `read_required` of the descriptor. -/
def readDescriptor : Control Descriptor :=
  match descriptor.found with
  | some found => .ok found
  | none =>
    .error (.contradiction s!"required control-plane artifact is absent: {descriptor.path}")

/-- The state a descriptor must have. -/
def readableState (found : Descriptor) (message : String) : Control TaskState :=
  match found.state with
  | some state => .ok state
  | none => .error (.contradiction message)

def reanchorMergedTask : Control (List Char) := do
  ControlPlane.validateTaskId taskId
  let found ← readDescriptor descriptor
  let state ← readableState found s!"descriptor for re-anchor task {taskId} has no readable state"
  demand (state = .merged ∨ state = .ready) (.contradiction <| "descriptor task " ++ taskId ++
    " is " ++ state.asStr ++ ", not a re-anchorable merged candidate")
  let status ← entryStatus taskId text
  let current ← parseStatus status
  demand (current ∈ [.working, .merged, .ready]) (.contradiction <|
    "queue task " ++ taskId ++ " is " ++ current.asStr ++ ", not a re-anchorable merged candidate")
  return if current = .merged then
      replaceStatus text ((TaskState.literal .ready).toList ++ attemptSuffix (queueAttempt status))
    else text

def returnOrphanedQueue (attempt : Option Attempt) : Control (List Char) := do
  ControlPlane.validateTaskId taskId
  demand (descriptor.found.isNone) (.contradiction
    s!"queue task {taskId} is not orphaned because descriptor {descriptor.path} exists")
  let status ← entryStatus taskId text
  let current ← parseStatus status
  demand (current ∈ [.working, .inReview, .ready, .merged]) (.contradiction <|
    "queue task " ++ taskId ++ " cannot be recovered as an orphan from " ++ current.asStr)
  return replaceStatus text ((TaskState.literal .notStarted).toList ++
    attemptSuffix (attempt.map Subtype.val))

def restoreQueueCapture (c : Coordinates) : Control (List Char) := do
  ControlPlane.validateTaskId taskId
  validateBatchId c.batchId
  validateRef c.branch "task branch"
  demand (trim c.worktree ≠ [] ∧ c.worktree.head? ≠ some '-' ∧ '\x00' ∉ c.worktree ∧
      '\r' ∉ c.worktree ∧ '\n' ∉ c.worktree)
    (.invalidInput s!"invalid task worktree: {quoted (String.ofList c.worktree)}")
  let found ← readDescriptor descriptor
  let state ← readableState found
    s!"descriptor {taskId} has no recognized status for queue-capture recovery"
  demand (state = .working ∨ state = .inReview ∨ state = .ready) (.contradiction <|
    "descriptor " ++ taskId ++ " is " ++ state.asStr ++ ", not a live captured task")
  demand (found.batchId = some c.batchId ∧ found.branch.all (· = c.branch) ∧
      found.worktree.all (slashes · = slashes c.worktree))
    (.contradiction s!"descriptor {taskId} does not match the recovered batch coordinates")
  let status ← entryStatus taskId text
  let current ← parseStatus status
  demand (current = .notStarted ∧ afterFirst attemptKey status = none)
    (.contradiction s!"queue task {taskId} is not an uncaptured eligible entry")
  return replaceStatus text (captured state c)

def returnTask (reason : List Char) (attempt : Attempt) : Control (List Char) := do
  ControlPlane.validateTaskId taskId
  let status ← entryStatus taskId text
  let current ← parseStatus status
  demand (current ∈ [.conflict, .escalated, .working, .ready]) (.contradiction <|
    "queue task " ++ taskId ++ " cannot be returned from " ++ current.asStr)
  return replaceStatus text ((TaskState.literal .notStarted).toList ++
    attemptSuffix (some attempt.val) ++ " · карантин=".toList ++ sanitizeReason reason)

/-- One operation on the entry. -/
def apply : Op → Control (List Char)
  | .captureTask c => captureTask taskId text c
  | .patchQueueState state reason => patchQueueState taskId text state reason
  | .reanchorMergedTask => reanchorMergedTask taskId descriptor text
  | .returnOrphanedQueue attempt => returnOrphanedQueue taskId descriptor text attempt
  | .restoreQueueCapture c => restoreQueueCapture taskId descriptor text c
  | .returnTask reason attempt => returnTask taskId text reason attempt

end Operations

/-! ## Runs -/

/-- The returns that took effect since the entry was last escalated. -/
def returns (n : Nat) : Op → Nat
  | .returnTask _ _ => n + 1
  | .patchQueueState .escalated _ => 0
  | _ => n

/-- Where a run is: the text of the queue and the returns so far. -/
structure Place where
  queue : List Char
  returned : Nat

/-- An operation that is accepted. -/
def Place.Accepts (taskId : String) (p : Place) (op : Op) (q : Place) : Prop :=
  ∃ descriptor entry text, findQueueBlock p.queue taskId = .ok entry ∧
    apply taskId descriptor entry.text op = .ok text ∧
      q.queue = entry.before ++ text ++ entry.after ∧ q.returned = returns p.returned op

end Orchestrail.QueueEntry
