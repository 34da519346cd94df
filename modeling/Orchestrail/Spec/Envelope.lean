import Orchestrail.Lib.Outcome
import Orchestrail.Spec.Runtime

/-!
# Event envelopes on the wire

`events/model.rs` and `events/parse.rs`: the envelope of one line of the event journal, the JSON
line it is written as, and the checks a line passes when it is read back.

The JSON library is not part of the repository. `Serde` stands for the two functions of it that the
journal uses, the compact rendering of a value and its reader. A JSON object keeps its keys sorted.
-/

namespace Orchestrail

open Text Outcome

inductive Json where
  | null
  | bool (value : Bool)
  | integer (value : Int)
  /-- a number that is not an integer, as it is spelled -/
  | decimal (literal : String)
  | text (value : String)
  | array (values : List Json)
  | object (fields : List (String × Json))

/-- `Value::to_string` and `serde_json::from_str`. -/
structure Serde where
  render : Json → String
  read : String → Except String Json

inductive ActorKind where
  | agent | human | tool
  deriving DecidableEq, Repr

def ActorKind.asStr : ActorKind → String
  | .agent => "agent"
  | .human => "human"
  | .tool => "tool"

def ActorKind.parse : String → Option ActorKind
  | "agent" => some .agent
  | "human" => some .human
  | "tool" => some .tool
  | _ => none

def EventType.parse : String → Option EventType
  | "cohort.opened" => some .cohortOpened
  | "cohort.round_started" => some .cohortRoundStarted
  | "cohort.round_closed" => some .cohortRoundClosed
  | "cohort.admission_closed" => some .cohortAdmissionClosed
  | "cohort.join_started" => some .cohortJoinStarted
  | "cohort.published" => some .cohortPublished
  | "cohort.closed" => some .cohortClosed
  | "task.captured" => some .taskCaptured
  | "task.status_changed" => some .taskStatusChanged
  | "codex.attempt" => some .codexAttempt
  | "usage.recorded" => some .usageRecorded
  | "operation.completed" => some .operationCompleted
  | _ => none

/-- One event of the journal (`Event` of the source, with a payload of any shape). -/
structure Envelope where
  schemaVersion : Int := 1
  eventId : String
  occurredAt : String
  eventType : EventType
  actorKind : ActorKind := .agent
  actorName : String := "engine"
  batchId : Option String := none
  taskId : Option String := none
  payloadVersion : Int := 1
  payload : List (String × Json) := []

namespace Envelope

/-- The value of `to_json_line`. -/
def toJson (event : Envelope) : Json :=
  .object <|
    [("actor", .object [("kind", .text event.actorKind.asStr), ("name", .text event.actorName)])] ++
    (event.batchId.map fun batch => ("batch_id", Json.text batch)).toList ++
    [("event_id", .text event.eventId), ("occurred_at", .text event.occurredAt),
      ("payload", .object event.payload), ("payload_version", .integer event.payloadVersion),
      ("schema_version", .integer event.schemaVersion)] ++
    (event.taskId.map fun task => ("task_id", Json.text task)).toList ++
    [("type", .text event.eventType.asStr)]

def toJsonLine (serde : Serde) (event : Envelope) : String := serde.render event.toJson

end Envelope

/-! ## Reading a line -/

/-- `i64`. -/
def isI64 (n : Int) : Bool := -9223372036854775808 ≤ n && n ≤ 9223372036854775807

structure ParseError where
  message : String
  deriving DecidableEq

abbrev Parsed (α : Type) := Except ParseError α

def requireStr (value : Option Json) (field : String) : Parsed String :=
  match value with
  | none | some .null => .error ⟨s!"missing required field '{field}'"⟩
  | some (.text s) => .ok s
  | some _ => .error ⟨s!"{field} must be a string"⟩

def requireInt (value : Option Json) (field : String) : Parsed Int :=
  match value with
  | none | some .null => .error ⟨s!"missing required field '{field}'"⟩
  | some (.integer n) => if isI64 n then .ok n else .error ⟨s!"{field} must be an integer"⟩
  | some _ => .error ⟨s!"{field} must be an integer"⟩

def parseActor (value : Option Json) : Parsed (ActorKind × String) :=
  match value with
  | none => .error ⟨"missing required field 'actor'"⟩
  | some (.object actor) => do
    let kindStr ← requireStr (actor.lookup "kind") "actor.kind"
    match ActorKind.parse kindStr with
    | none => .error ⟨s!"actor.kind '{kindStr}' is not agent/human/tool"⟩
    | some kind =>
      let name ← requireStr (actor.lookup "name") "actor.name"
      if name = "" then .error ⟨"actor.name is required"⟩ else .ok (kind, name)
  | some _ => .error ⟨"actor must be an object"⟩

/-- A task id, or one of the pseudo ids usage is recorded under. -/
def isTaskCoordinate (eventType : EventType) (value : String) : Bool :=
  isTaskId value ||
    decide (eventType = .usageRecorded ∧ value ∈ ["_cohort", "_integration", "_release"])

/-- A batch id as the reader checks it: the mark alone. -/
def looksLikeBatch (s : String) : Bool := ['B', '-'].isPrefixOf s.toList

/-- An id without white space, not empty. -/
def isEventId (id : String) : Bool := !id.toList.isEmpty && !id.toList.any isWhiteSpace

/-- Absent and null are no text; anything else is one that passes the check. -/
def optionalText (value : Option Json) (field : String) (check : String → Bool)
    (complaint : String → String) : Parsed (Option String) :=
  match value with
  | none | some .null => .ok none
  | some (.text s) => if check s then .ok (some s) else .error ⟨complaint s⟩
  | some _ => .error ⟨s!"{field} must be a string"⟩

def parsePayloadVersion : Option Json → Parsed Int
  | none | some .null => .ok 1
  | some (.integer n) =>
    if isI64 n then
      if n < 1 then .error ⟨"payload_version must be a positive integer"⟩ else .ok n
    else .error ⟨"payload_version must be an integer"⟩
  | some _ => .error ⟨"payload_version must be an integer"⟩

/-- The checks of `parse_line` on the fields of the decoded object, in the order of the source. -/
def parseEnvelope (obj : List (String × Json)) : Parsed Envelope := do
  let schemaVersion ← requireInt (obj.lookup "schema_version") "schema_version"
  demand (schemaVersion = 1)
    ⟨s!"unsupported schema_version {schemaVersion} (this reader speaks 1)"⟩
  let eventId ← requireStr (obj.lookup "event_id") "event_id"
  demand (isEventId eventId = true) ⟨"event_id must be a non-empty whitespace-free token"⟩
  let occurredAt ← requireStr (obj.lookup "occurred_at") "occurred_at"
  demand (isIsoUtc occurredAt = true) ⟨s!"occurred_at '{occurredAt}' is not ISO-8601 UTC (…Z)"⟩
  let typeStr ← requireStr (obj.lookup "type") "type"
  match EventType.parse typeStr with
  | none => .error ⟨s!"unknown type '{typeStr}'"⟩
  | some eventType =>
    let (actorKind, actorName) ← parseActor (obj.lookup "actor")
    match obj.lookup "payload" with
    | none => .error ⟨"missing required field 'payload'"⟩
    | some (.object payload) =>
      let batchId ← optionalText (obj.lookup "batch_id") "batch_id" looksLikeBatch
        fun s => s!"batch_id '{s}' does not look like a B-id"
      let taskId ← optionalText (obj.lookup "task_id") "task_id" (isTaskCoordinate eventType)
        fun s => s!"task_id '{s}' is not a T-id or documented usage pseudo-id for {typeStr}"
      let payloadVersion ← parsePayloadVersion (obj.lookup "payload_version")
      .ok
        { schemaVersion, eventId, occurredAt, eventType, actorKind, actorName, batchId, taskId,
          payloadVersion, payload }
    | some _ => .error ⟨"payload must be an object"⟩

/-- Decode and check one line (`parse_line`). -/
def parseLine (serde : Serde) (line : String) : Parsed Envelope :=
  let text := trimmed line
  if text = "" then .error ⟨"empty line"⟩
  else
    match serde.read text with
    | .error e => .error ⟨s!"not valid JSON: {e}"⟩
    | .ok (.object obj) => parseEnvelope obj
    | .ok _ => .error ⟨"event must be a JSON object"⟩

/-! ## Lifecycle events as envelopes -/

end Orchestrail
