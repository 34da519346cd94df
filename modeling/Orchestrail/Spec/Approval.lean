import Orchestrail.Spec.Lease

/-!
# Approval records

`ApprovalStore` of `approval.rs`: one JSON record for each approval under `.work/approvals`, with
the calls that create it, decide it, mark its notification and attach its manifest. The mutation
lock makes every mutating call one step, and a replacement of a file is atomic, so that a call has
one durable moment: the environment may stop it before that moment or after it.

`.work` and `.work/approvals` are plain directories, and every artifact is a plain UTF-8 file. The
hexadecimal half of the digest of an id is a parameter.
-/

namespace Orchestrail

open Text Outcome

inductive ApprovalDecision where
  | approve | reject
  deriving DecidableEq, Repr

structure ApprovalRequest where
  taskId : Option String
  batchId : Option String
  reason : String
  fingerprint : String
  policyHash : String
  nowSecs : Nat
  deadlineSecs : Nat
  deriving DecidableEq

structure ApprovalRecord where
  schema : String
  id : String
  subject : String
  taskId : Option String
  batchId : Option String
  reason : String
  fingerprint : String
  policyHash : String
  createdAtSecs : Nat
  deadlineAtSecs : Nat
  notificationPending : Bool
  decision : Option ApprovalDecision
  decidedBy : Option String
  decidedAtSecs : Option Nat
  note : Option String
  deriving DecidableEq

inductive ApprovalStatus where
  | approved (id : String)
  | pending (id : String) (deadlineAtSecs : Nat)
  | rejected (id : String)
  | expiredTimeout (id : String)
  | expiredStale (id : String)
  | missing (id : String)
  deriving DecidableEq

inductive ApprovalError where
  | io (error : IoError)
  | json (message : String)
  | invalid (message : String)
  | corrupt (message : String)
  | alreadyDecided (id : String)
  | expired (id : String)
  | missing (id : String)
  | busy (ageMs : Option Nat) (kind : String)
  deriving DecidableEq

abbrev Approval (α : Type) := Except ApprovalError α

def approvalSchema : String := "orchestrail/approval@1"

def approvalManifestSchema : String := "orchestrail/approval-manifest@1"

def maxApprovalBytes : Nat := 4 * 1024 * 1024

/-! ## The record as a document -/

def ApprovalDecision.asStr : ApprovalDecision → String
  | .approve => "approve"
  | .reject => "reject"

namespace ApprovalRecord

open LeaseRecord (textField optionalField numberField)

def optionalNumber : Option Nat → Json
  | none => .null
  | some n => .integer n

def toJson (record : ApprovalRecord) : Json :=
  .object
    [("schema", .text record.schema), ("id", .text record.id), ("subject", .text record.subject),
      ("task_id", LeaseRecord.optionalText record.taskId),
      ("batch_id", LeaseRecord.optionalText record.batchId), ("reason", .text record.reason),
      ("fingerprint", .text record.fingerprint), ("policy_hash", .text record.policyHash),
      ("created_at_secs", .integer record.createdAtSecs),
      ("deadline_at_secs", .integer record.deadlineAtSecs),
      ("notification_pending", .bool record.notificationPending),
      ("decision", LeaseRecord.optionalText (record.decision.map ApprovalDecision.asStr)),
      ("decided_by", LeaseRecord.optionalText record.decidedBy),
      ("decided_at_secs", optionalNumber record.decidedAtSecs),
      ("note", LeaseRecord.optionalText record.note)]

def optionalNumberField (obj : List (String × Json)) (field : String) :
    Except String (Option Nat) :=
  match obj.lookup field with
  | some .null | none => .ok none
  | some _ => (numberField u64Max obj field).map some

def pendingField (obj : List (String × Json)) : Except String Bool :=
  match obj.lookup "notification_pending" with
  | some (.bool b) => .ok b
  | some _ => .error "invalid type: notification_pending, expected a boolean"
  | none => .ok false

def decisionField (obj : List (String × Json)) : Except String (Option ApprovalDecision) := do
  match ← optionalField obj "decision" with
  | none => .ok none
  | some "approve" => .ok (some .approve)
  | some "reject" => .ok (some .reject)
  | some other => .error s!"unknown variant {other}"

def fromJson : Json → Except String ApprovalRecord
  | .object obj => do
    let schema ← textField obj "schema"
    let id ← textField obj "id"
    let subject ← textField obj "subject"
    let taskId ← optionalField obj "task_id"
    let batchId ← optionalField obj "batch_id"
    let reason ← textField obj "reason"
    let fingerprint ← textField obj "fingerprint"
    let policyHash ← textField obj "policy_hash"
    let createdAtSecs ← numberField u64Max obj "created_at_secs"
    let deadlineAtSecs ← numberField u64Max obj "deadline_at_secs"
    let notificationPending ← pendingField obj
    let decision ← decisionField obj
    let decidedBy ← optionalField obj "decided_by"
    let decidedAtSecs ← optionalNumberField obj "decided_at_secs"
    let note ← optionalField obj "note"
    .ok
      { schema, id, subject, taskId, batchId, reason, fingerprint, policyHash, createdAtSecs
        deadlineAtSecs, notificationPending, decision, decidedBy, decidedAtSecs, note }
  | _ => .error "invalid type, expected struct ApprovalRecord"

end ApprovalRecord

/-! ## Validators -/

def validateApprovalId (id : String) : Approval Unit :=
  match stripFront "apr-".toList id.toList with
  | none => .error (.invalid s!"invalid approval id {quoted id}")
  | some hex =>
    demand (isHex 32 (String.ofList hex) = true) (.invalid s!"invalid approval id {quoted id}")

/-- A character that ends a line, a field or a C string. -/
def isSeparator (ch : Char) : Bool := ch = '\x00' || ch = '\n' || ch = '\r' || ch = '|'

/-- Whether two dots stand side by side. -/
def hasDotDot : List Char → Bool
  | '.' :: '.' :: _ => true
  | _ :: chars => hasDotDot chars
  | [] => false

def validateSubjectId (value label : String) : Approval Unit :=
  demand (¬ (value = "" ∨ value.toList.any isSeparator = true ∨ startsWith value '-' = true ∨
      hasDotDot value.toList = true))
    (.invalid s!"invalid {label} {quoted value}")

def validateText (value label : String) : Approval Unit :=
  demand (¬ (isBlank value = true ∨ value.toList.any isSeparator = true))
    (.invalid s!"invalid {label} {quoted value}")

def validateNote (value : String) : Approval Unit :=
  demand (¬ (Text.contains value '\x00' = true ∨ 4096 < (utf8 value).length))
    (.invalid "invalid approval note")

/-- The check of a note, if there is one. -/
def validateOptionalNote : Option String → Approval Unit
  | some note => validateNote note
  | none => .ok ()

def validateIdentity (value label : String) : Approval Unit :=
  demand (isHex 64 value = true) (.invalid s!"invalid {label} {quoted value}")

def validateApprovalRequest (request : ApprovalRequest) : Approval Unit := do
  demand (request.deadlineSecs ≠ 0) (.invalid "approval deadline must be at least one second")
  validateText request.reason "approval reason"
  validateIdentity request.fingerprint "fingerprint"
  validateIdentity request.policyHash "policy hash"

def validateApprovalRecord (record : ApprovalRecord) (expectedId : String) : Approval Unit := do
  demand (record.schema = approvalSchema)
    (.corrupt s!"approval {quoted expectedId} has unsupported schema {quoted record.schema}")
  demand (record.id = expectedId)
    (.corrupt s!"approval file {quoted expectedId} contains mismatched id {quoted record.id}")
  validateApprovalId record.id
  validateText record.reason "approval reason"
  validateIdentity record.fingerprint "fingerprint"
  validateIdentity record.policyHash "policy hash"
  demand (¬ record.deadlineAtSecs < record.createdAtSecs)
    (.corrupt s!"approval {quoted expectedId} has a deadline before creation")
  demand (¬ (record.decision.isSome ∧ ((record.decidedBy.getD "") = "" ∨
      record.decidedAtSecs.isNone)))
    (.corrupt s!"approval {quoted expectedId} has an incomplete decision")

/-- The check of an id that is not empty. -/
def validatePresentId (value label : String) : Approval Unit :=
  if value = "" then .ok () else validateSubjectId value label

/-- The subject of a request: an absent id counts as an empty one. -/
def approvalSubject (request : ApprovalRequest) : Approval String := do
  let task := request.taskId.getD ""
  let batch := request.batchId.getD ""
  demand (¬ (task = "" ∧ batch = "")) (.invalid "approval needs a task ID and/or a batch ID")
  validatePresentId task "task ID"
  validatePresentId batch "batch ID"
  .ok s!"task:{task}|batch:{batch}"

/-! ## The store -/

/-- The files of `.work/approvals`, by name. -/
abbrev ApprovalFiles := String → Option String

/-- An artifact with its own content identity, and the document it is written as. -/
structure ApprovalManifest where
  fingerprint : String
  document : Json

/-- A file as a call would leave it. -/
structure Replacement where
  name : String
  content : String

def recordFile (id : String) : String := s!"{id}.json"

def manifestFile (id : String) : String := s!"{id}.manifest.json"

section Store

variable (serde : Serde) (digest : String → String)

/-- The text the id of a request is the digest of. -/
def approvalText (subject reason fingerprint policyHash : String) : String :=
  s!"{subject}|{reason}|{fingerprint}|{policyHash}"

def approvalId (subject reason fingerprint policyHash : String) : String :=
  s!"apr-{digest (approvalText subject reason fingerprint policyHash)}"

/-- What `replace_plain` writes, if it is not too long. -/
def replacePlain (name content : String) : Approval Replacement := do
  demand ((utf8 content).length ≤ maxApprovalBytes) (.corrupt "approval artifact is oversized")
  .ok ⟨name, content⟩

/-- The record a text holds, whatever is in it. -/
def readApproval (text : String) : Except String ApprovalRecord :=
  serde.read text >>= ApprovalRecord.fromJson

namespace ApprovalStore

variable (files : ApprovalFiles)

def load (id : String) : Approval (Option ApprovalRecord) := do
  validateApprovalId id
  match files (recordFile id) with
  | none => .ok none
  | some text =>
    demand ((utf8 text).length ≤ maxApprovalBytes)
      (.corrupt "approval artifact is invalid or oversized")
    let record ← (readApproval serde text).mapError ApprovalError.json
    validateApprovalRecord record id
    .ok (some record)

/-- The record of a call that needs one. -/
def existing (id : String) : Approval ApprovalRecord := do
  match ← load serde files id with
  | none => .error (.missing id)
  | some record => do
    validateApprovalRecord record id
    .ok record

def save (record : ApprovalRecord) : Approval Replacement := do
  validateApprovalRecord record record.id
  replacePlain (recordFile record.id) (serde.render record.toJson ++ "\n")

/-- The record a request opens. -/
def opened (request : ApprovalRequest) (subject id : String) : ApprovalRecord where
  schema := approvalSchema
  id := id
  subject := subject
  taskId := request.taskId
  batchId := request.batchId
  reason := request.reason
  fingerprint := request.fingerprint
  policyHash := request.policyHash
  createdAtSecs := request.nowSecs
  deadlineAtSecs := min (request.nowSecs + request.deadlineSecs) u64Max
  notificationPending := true
  decision := none
  decidedBy := none
  decidedAtSecs := none
  note := none

/-- Create or retrieve the record of this request: what it answers, and what it writes. -/
def request (request : ApprovalRequest) : Approval (ApprovalRecord × Option Replacement) := do
  validateApprovalRequest request
  let subject ← approvalSubject request
  let id := approvalId digest subject request.reason request.fingerprint request.policyHash
  match ← load serde files id with
  | some record => do
    validateApprovalRecord record id
    .ok (record, none)
  | none => do
    let record := opened request subject id
    let file ← save serde record
    .ok (record, some file)

/-- Decide an open approval. -/
def decide (id : String) (decision : ApprovalDecision) (decider : String) (note : Option String)
    (nowSecs : Nat) : Approval (ApprovalRecord × Option Replacement) := do
  validateApprovalId id
  validateText decider "decision maker"
  validateOptionalNote note
  let record ← existing serde files id
  demand (¬ record.decision.isSome) (.alreadyDecided id)
  demand (¬ record.deadlineAtSecs < nowSecs) (.expired id)
  let record :=
    { record with decision := some decision, decidedBy := some decider
                  decidedAtSecs := some nowSecs, note := note }
  let file ← save serde record
  .ok (record, some file)

def clearNotificationPending (id : String) : Approval (Unit × Option Replacement) := do
  validateApprovalId id
  let record ← existing serde files id
  if record.notificationPending then do
    let file ← save serde { record with notificationPending := false }
    .ok ((), some file)
  else .ok ((), none)

/-- Persist the manifest of an approval. -/
def saveManifest (id : String) (manifest : ApprovalManifest) :
    Approval (Unit × Option Replacement) := do
  validateApprovalId id
  let record ← existing serde files id
  validateIdentity manifest.fingerprint "manifest fingerprint"
  demand (manifest.fingerprint = record.fingerprint)
    (.invalid s!"approval manifest fingerprint does not match approval {quoted id}")
  let persisted : Json := .object
    [("schema", .text approvalManifestSchema), ("approval_id", .text id),
      ("fingerprint", .text manifest.fingerprint), ("manifest", manifest.document)]
  let file ← replacePlain (manifestFile id) (serde.render persisted ++ "\n")
  .ok ((), some file)

/-- A record against the current content, policy and clock. -/
def status (id fingerprint policyHash : String) (nowSecs : Nat) : Approval ApprovalStatus := do
  validateApprovalId id
  validateIdentity fingerprint "fingerprint"
  validateIdentity policyHash "policy hash"
  match ← load serde files id with
  | none => .ok (.missing id)
  | some record => do
    validateApprovalRecord record id
    if record.fingerprint ≠ fingerprint ∨ record.policyHash ≠ policyHash then
      .ok (.expiredStale id)
    else
      match record.decision with
      | some .approve => .ok (.approved id)
      | some .reject => .ok (.rejected id)
      | none =>
        if record.deadlineAtSecs < nowSecs then .ok (.expiredTimeout id)
        else .ok (.pending id record.deadlineAtSecs)

end ApprovalStore

/-! ## A store through its calls -/

inductive ApprovalCall where
  | request (request : ApprovalRequest)
  | decide (id : String) (decision : ApprovalDecision) (decider : String) (note : Option String)
      (nowSecs : Nat)
  | clearNotificationPending (id : String)
  | saveManifest (id : String) (manifest : ApprovalManifest)
  | status (id fingerprint policyHash : String) (nowSecs : Nat)

/-- What the environment does to a call: a crash, or a failure of the lock or of the file system. -/
inductive ApprovalFault where
  | none
  | before
  | after
  deriving DecidableEq

/-- The numbers a call is given are those of a `u64`. -/
def ApprovalCall.isU64 : ApprovalCall → Bool
  | .request asked => asked.nowSecs ≤ u64Max && asked.deadlineSecs ≤ u64Max
  | .decide _ _ _ _ nowSecs => nowSecs ≤ u64Max
  | .status _ _ _ nowSecs => nowSecs ≤ u64Max
  | .clearNotificationPending _ => true
  | .saveManifest _ _ => true

namespace ApprovalFiles

variable (files : ApprovalFiles)

def put (file : Replacement) : ApprovalFiles :=
  fun name => if name = file.name then some file.content else files name

/-- What a call writes, undisturbed. -/
def writes : ApprovalCall → Option Replacement
  | .request request => (ApprovalStore.request serde digest files request).toOption.bind (·.2)
  | .decide id decision decider note nowSecs =>
    (ApprovalStore.decide serde files id decision decider note nowSecs).toOption.bind (·.2)
  | .clearNotificationPending id =>
    (ApprovalStore.clearNotificationPending serde files id).toOption.bind (·.2)
  | .saveManifest id manifest =>
    (ApprovalStore.saveManifest serde files id manifest).toOption.bind (·.2)
  | .status _ _ _ _ => none

/-- What a call writes before the environment stops it. -/
def durable (step : ApprovalCall × ApprovalFault) : Option Replacement :=
  match step.2 with
  | .before => none
  | .none | .after => writes serde digest files step.1

/-- One call of any process. A call stopped after its durable moment gives no answer either. -/
def next (step : ApprovalCall × ApprovalFault) : Option ApprovalFiles :=
  if step.1.isU64 then
    match durable serde digest files step with
    | none => some files
    | some file => some (files.put file)
  else none

end ApprovalFiles

end Store

end Orchestrail
