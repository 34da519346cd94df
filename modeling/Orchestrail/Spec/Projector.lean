import Orchestrail.Spec.Reducer

/-!
# Lifecycle events

`events/projector.rs`: the events one accepted command emits, from the state before and after it.
The identity of an event is a text of durable coordinates; `eventId` makes an id of it (a name-based
UUID of the standard library of the source, so a parameter here).
-/

namespace Orchestrail

open Table

/-- The closed set of event types; the last three are telemetry. -/
inductive EventType where
  | cohortOpened | cohortRoundStarted | cohortRoundClosed | cohortAdmissionClosed
  | cohortJoinStarted | cohortPublished | cohortClosed | taskCaptured | taskStatusChanged
  | codexAttempt | usageRecorded | operationCompleted
  deriving DecidableEq, Repr

def EventType.asStr : EventType → String
  | .cohortOpened => "cohort.opened"
  | .cohortRoundStarted => "cohort.round_started"
  | .cohortRoundClosed => "cohort.round_closed"
  | .cohortAdmissionClosed => "cohort.admission_closed"
  | .cohortJoinStarted => "cohort.join_started"
  | .cohortPublished => "cohort.published"
  | .cohortClosed => "cohort.closed"
  | .taskCaptured => "task.captured"
  | .taskStatusChanged => "task.status_changed"
  | .codexAttempt => "codex.attempt"
  | .usageRecorded => "usage.recorded"
  | .operationCompleted => "operation.completed"

/-- The JSON values a payload holds. -/
inductive PayloadValue where
  | text (value : String)
  | number (value : Nat)
  | bool (value : Bool)
  | texts (values : List String)
  deriving DecidableEq

abbrev Payload := StringMap PayloadValue

structure Event where
  schemaVersion : Nat := 1
  eventId : String
  occurredAt : String
  eventType : EventType
  actorKind : String := "agent"
  actorName : String := "engine"
  batchId : Option String
  taskId : Option String
  payloadVersion : Nat
  payload : Payload
  deriving DecidableEq

/-- The version of the payload contract of a type; the version of the first is not spelled out. -/
def EventType.payloadVersion : EventType → Nat
  | .cohortClosed => 2
  | _ => 1

/-- The durable identity of an event. -/
def eventIdentity (eventType : EventType) (batchId taskId : Option String) (coordinate : String) :
    String :=
  let batch := batchId.getD ""
  let task := taskId.getD ""
  let identity := s!"{eventType.asStr}|{batch}|{task}|{coordinate}"
  if 1 < eventType.payloadVersion then s!"{identity}|payload:v{eventType.payloadVersion}"
  else identity

section Projection

variable (eventId : String → String) (occurredAt : String)

def eventWithPayload (eventType : EventType) (batchId taskId : Option String) (payload : Payload)
    (coordinate : String) : Event :=
  { eventId := eventId (eventIdentity eventType batchId taskId coordinate)
    occurredAt := occurredAt
    eventType := eventType
    batchId := batchId
    taskId := taskId
    payloadVersion := eventType.payloadVersion
    payload := payload }

def cohortRoundEvent (eventType : EventType) (batchId : String) (wave : Nat)
    (admissionClosed : Bool) : Event :=
  eventWithPayload eventId occurredAt eventType (some batchId) none
    ((((∅ : Payload).insert "wave" (.number wave)).insert "admission"
      (.text (if admissionClosed then "closed" else "open"))))
    s!"round:{wave}"

/-- The status a task phase shows in the control plane. -/
def taskStatus : TaskPhase → String
  | .capturing | .implementing | .committing => "в работе"
  | .reviewing | .fixing => "на ревью"
  | .ready => "готова к слиянию"
  | .resolvingMerge => "разрешение конфликта"
  | .merged => "слита"
  | .published => "опубликована"
  | .done => "выполнена"
  | .conflict => "конфликт"
  | .escalated => "эскалирована"

/-- The status a task leaves. A fixer commits while its descriptor is already under review. -/
def statusBefore (previous current : TaskRuntime) : ProcessorCommand → String
  | .taskCommitted taskId _ =>
    if taskId = current.id ∧ previous.phase = .committing ∧ current.phase = .escalated ∧
        0 < previous.reviewCycles then "на ревью"
    else taskStatus previous.phase
  | _ => taskStatus previous.phase

/-- A review that sends its task round the review loop again. -/
def isReviewLoop (current : TaskRuntime) : ProcessorCommand → Bool
  | .taskReview taskId (.findings ..) | .taskReview taskId .incomplete => taskId = current.id
  | _ => false

def projectTaskStatus (previous current : TaskRuntime) (command : ProcessorCommand) : List Event :=
  let from_ := statusBefore previous current command
  let to_ := taskStatus current.phase
  if from_ ≠ to_ ∨ isReviewLoop current command ∧ from_ = "на ревью" ∧ to_ = "на ревью" then
    [eventWithPayload eventId occurredAt .taskStatusChanged none (some current.id)
      (((∅ : Payload).insert "from" (.text from_)).insert "to" (.text to_))
      s!"{current.id}:{current.reviewCycles}:{from_}>{to_}"]
  else []

def CiDisposition.literal : CiDisposition → String
  | .confirmed => "confirmed"
  | .disabled => "disabled"
  | .unconfirmedDegraded => "unconfirmed-degraded"

/-- The counters of the terminal task-id sets. -/
def cohortClosePayload (after : ProcessorState) : Payload :=
  (((∅ : Payload).insert "merged" (.number (after.idsInPhase .done).size)).insert "quarantined"
    (.number (after.idsInPhase .conflict).size)).insert "escalated"
    (.number (after.idsInPhase .escalated).size)

/-- The commands whose CI disposition is not the terminal accounting of a publication. -/
def publicationCiTerminal : ProcessorCommand → Bool
  | .archiveCiReconfirmed .. | .ciVerified (.requiredUnconfirmed _) => false
  | _ => true

variable (before after : ProcessorState) (command : ProcessorCommand)

def roundStartedEvents : List Event :=
  match command, before.batch with
  | .admitWave .., some batch =>
    if before.phase = .rolling then
      [cohortRoundEvent eventId occurredAt .cohortRoundStarted batch.id batch.wave
        batch.admissionClosed.isSome]
    else []
  | _, _ => []

def admissionClosedEvents (batchId : String) : List Event :=
  match before.batch, after.batch.bind (·.admissionClosed) with
  | some batch, some reason =>
    if batch.admissionClosed.isNone then
      [eventWithPayload eventId occurredAt .cohortAdmissionClosed (some batchId) none
        ((∅ : Payload).insert "reason" (.text reason.asLegacyLiteral))
        s!"admission-closed:{reason.asLegacyLiteral}"]
    else []
  | _, _ => []

def publishedEvents (batchId : String) : List Event :=
  let integration := after.integration
  match integration.ciDisposition, integration.publishedHead, integration.publicationPushed with
  | some disposition, some head, some pushed =>
    if publicationCiTerminal command ∧ before.integration.ciDisposition ≠ some disposition then
      [eventWithPayload eventId occurredAt .cohortPublished (some batchId) none
        (((((∅ : Payload).insert "main_sha" (.text head)).insert "pushed" (.bool pushed)).insert
          "tasks" (.texts (elems integration.mergedTasks))).insert "ci" (.text disposition.literal))
        head]
    else []
  | _, _, _ => []

def roundClosedEvents : List Event :=
  match command, (after.batch <|> before.batch) with
  | .advance _, some batch =>
    -- the wave of the batch is the next one; an empty close keeps the first
    [cohortRoundEvent eventId occurredAt .cohortRoundClosed batch.id (max (batch.wave - 1) 1)
      batch.admissionClosed.isSome]
  | _, _ => []

def taskEvents (batchId : Option String) (entry : String × TaskRuntime) : List Event :=
  let (id, current) := entry
  match before.tasks[id]? with
  | none => []
  | some previous =>
    (match batchId with
      | some batchId =>
        if previous.phase = .capturing ∧ current.phase = .implementing then
          [eventWithPayload eventId occurredAt .taskCaptured (some batchId) (some id) ∅ "capture"]
        else []
      | none => []) ++ projectTaskStatus eventId occurredAt previous current command

/-- The ordered events of one accepted command (`project_processor_transition`). -/
def projectProcessorTransition : List Event :=
  let batchId := (after.batch <|> before.batch).map (·.id)
  let cohort (events : String → List Event) : List Event := (batchId.map events).getD []
  cohort (fun id =>
      if before.batch.isNone ∧ after.batch.isSome then
        [eventWithPayload eventId occurredAt .cohortOpened (some id) none ∅ "open"]
      else []) ++
    roundStartedEvents eventId occurredAt before command ++
    cohort (admissionClosedEvents eventId occurredAt before after) ++
    cohort (fun id =>
      if before.phase ≠ .joining ∧ after.phase = .joining then
        [eventWithPayload eventId occurredAt .cohortJoinStarted (some id) none ∅ "join"]
      else []) ++
    cohort (publishedEvents eventId occurredAt before after command) ++
    roundClosedEvents eventId occurredAt before after command ++
    after.tasks.toList.flatMap (taskEvents eventId occurredAt before command batchId) ++
    cohort (fun id =>
      if before.batch.isSome ∧ after.batch.isNone ∧ after.phase = .idle then
        [eventWithPayload eventId occurredAt .cohortClosed (some id) none
          (cohortClosePayload after) "close"]
      else [])

end Projection

end Orchestrail
