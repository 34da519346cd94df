import Mathlib.Algebra.Ring.Nat
import Mathlib.Logic.Function.Basic
import Orchestrail.Spec.Lease

/-!
# Notifications

`NotificationDispatcher` of `notification.rs`: a receipt under `.work/notifications` is claimed
before the operator's command is launched, and finalized behind it. The notification lock makes each
of the two one step; the environment may refuse it, cut it short or fail it at its end.

Every character of a receipt is ASCII, so that a part of a written file is a part of its text.
`.work` and `.work/notifications` are plain directories, and every receipt is a plain file.
-/

namespace Orchestrail

open Text Outcome

def notificationSchema : String := "orchestrail/notification@1"

def notificationReceiptMaxBytes : Nat := 64 * 1024

def notificationClaimStaleAfter : Nat := 5 * 60

def u128Max : Nat := 2 ^ 128 - 1

inductive NotificationResolution where
  | resolved | retry
  deriving DecidableEq

inductive NotificationErrorClass where
  | redirected | lock | schemaMismatch | serialize | io
  deriving DecidableEq

inductive NotificationStatus where
  | disabled | sent | timeout | cancelled | crash | error | failed | inProgress | unknown
  deriving DecidableEq

inductive NotificationReason where
  | notConfigured | exitZero | deadline | cancelled | processKitCrash | processKitError
  | invalidOrUnavailable | claimInProgress | corruptClaim | staleClaim
  deriving DecidableEq

/-- How a supervised child ended. -/
inductive SuperviseReason where
  | ok | timeout | cancelled | crash | error
  deriving DecidableEq

inductive NotificationError where
  | io (redirected : Bool) (text : String)
  | lock (message : String)
  | serialize (message : String)
  | invalid (message : String)
  deriving DecidableEq

structure NotificationReceipt where
  schema : String
  id : String
  event : NotificationEvent
  subject : String
  status : Option NotificationStatus
  reason : Option NotificationReason
  durationMs : Option Nat
  claimedAtSecs : Option Nat
  deriving DecidableEq

structure NotificationOutcome where
  id : String
  event : NotificationEvent
  status : NotificationStatus
  reason : NotificationReason
  durationMs : Nat
  errorClass : Option NotificationErrorClass
  resolution : NotificationResolution
  deriving DecidableEq

def NotificationError.class : NotificationError → NotificationErrorClass
  | .io true _ => .redirected
  | .io false _ => .io
  | .lock _ => .lock
  | .serialize _ => .serialize
  | .invalid _ => .schemaMismatch

/-- The name of a status, in a receipt too. -/
def NotificationStatus.asStr : NotificationStatus → String
  | .disabled => "disabled"
  | .sent => "sent"
  | .timeout => "timeout"
  | .cancelled => "cancelled"
  | .crash => "crash"
  | .error => "error"
  | .failed => "failed"
  | .inProgress => "in_progress"
  | .unknown => "unknown"

def NotificationStatus.reason : NotificationStatus → NotificationReason
  | .disabled => .notConfigured
  | .sent => .exitZero
  | .timeout => .deadline
  | .cancelled => .cancelled
  | .crash => .processKitCrash
  | .error => .processKitError
  | .failed => .invalidOrUnavailable
  | .inProgress => .claimInProgress
  | .unknown => .staleClaim

/-- The name of a reason in a receipt. -/
def NotificationReason.snakeCase : NotificationReason → String
  | .notConfigured => "not_configured"
  | .exitZero => "exit_zero"
  | .deadline => "deadline"
  | .cancelled => "cancelled"
  | .processKitCrash => "process_kit_crash"
  | .processKitError => "process_kit_error"
  | .invalidOrUnavailable => "invalid_or_unavailable"
  | .claimInProgress => "claim_in_progress"
  | .corruptClaim => "corrupt_claim"
  | .staleClaim => "stale_claim"

/-- The status a verdict of the supervisor stands for. -/
def SuperviseReason.status : SuperviseReason → NotificationStatus
  | .ok => .sent
  | .timeout => .timeout
  | .cancelled => .cancelled
  | .crash => .crash
  | .error => .error

/-! ## The receipt as a document -/

namespace NotificationReceipt

open LeaseRecord (textField optionalField numberField)

def optionalNumber : Option Nat → Json
  | none => .null
  | some n => .integer n

def toJson (receipt : NotificationReceipt) : Json :=
  .object
    ([("schema", .text receipt.schema), ("id", .text receipt.id),
      ("event", .text receipt.event.asStr), ("subject", .text receipt.subject),
      ("status", LeaseRecord.optionalText (receipt.status.map NotificationStatus.asStr)),
      ("reason", LeaseRecord.optionalText (receipt.reason.map NotificationReason.snakeCase)),
      ("duration_ms", optionalNumber receipt.durationMs)] ++
      match receipt.claimedAtSecs with
      | some secs => [("claimed_at_secs", .integer secs)]
      | none => [])

def allEvents : List NotificationEvent := [.taskEscalated, .approvalPending, .publishCiFailed]

def allStatuses : List NotificationStatus :=
  [.disabled, .sent, .timeout, .cancelled, .crash, .error, .failed, .inProgress, .unknown]

def allReasons : List NotificationReason :=
  [.notConfigured, .exitZero, .deadline, .cancelled, .processKitCrash, .processKitError,
    .invalidOrUnavailable, .claimInProgress, .corruptClaim, .staleClaim]

/-- The variant a text names. -/
def variant {α : Type} (all : List α) (name : α → String) (text : String) : Except String α :=
  match all.find? fun a => name a == text with
  | some a => .ok a
  | none => .error s!"unknown variant {text}"

def optionalVariant {α : Type} (all : List α) (name : α → String) (obj : List (String × Json))
    (field : String) : Except String (Option α) := do
  match ← optionalField obj field with
  | none => .ok none
  | some text => (variant all name text).map some

def optionalNumberField (max : Nat) (obj : List (String × Json)) (field : String) :
    Except String (Option Nat) :=
  match obj.lookup field with
  | some .null | none => .ok none
  | some _ => (numberField max obj field).map some

def fromJson : Json → Except String NotificationReceipt
  | .object obj => do
    let schema ← textField obj "schema"
    let id ← textField obj "id"
    let event ← textField obj "event" >>= variant allEvents NotificationEvent.asStr
    let subject ← textField obj "subject"
    let status ← optionalVariant allStatuses NotificationStatus.asStr obj "status"
    let reason ← optionalVariant allReasons NotificationReason.snakeCase obj "reason"
    let durationMs ← optionalNumberField u128Max obj "duration_ms"
    let claimedAtSecs ← optionalNumberField u64Max obj "claimed_at_secs"
    .ok { schema, id, event, subject, status, reason, durationMs, claimedAtSecs }
  | _ => .error "invalid type, expected struct NotificationReceipt"

end NotificationReceipt

/-! ## What may be asked -/

def isAsciiAlphanumeric (ch : Char) : Bool := isAsciiAlpha ch || isAsciiDigit ch

def validSubject (event : NotificationEvent) (subject : String) : Bool :=
  match event with
  | .taskEscalated => isTaskId subject
  | .approvalPending =>
    match stripFront "apr-".toList subject.toList with
    | some hex => isHex 32 (String.ofList hex)
    | none => false
  | .publishCiFailed =>
    subject ≠ "" && decide ((utf8 subject).length ≤ 128) &&
      subject.toList.all fun ch => isAsciiAlphanumeric ch || ch = '.' || ch = '_' || ch = '-'

def safeContext (event : NotificationEvent) (subject : String) : String :=
  match event with
  | .taskEscalated => s!"task={subject} reached_terminal_escalation"
  | .approvalPending => s!"approval={subject} awaits_operator_decision"
  | .publishCiFailed => s!"published_head={subject} required_ci_failed"

def claimIsStale (claimedAtSecs : Option Nat) (now : Nat) : Bool :=
  match claimedAtSecs with
  | none => true
  | some claimedAtSecs =>
    decide (now < claimedAtSecs) || decide (notificationClaimStaleAfter ≤ now - claimedAtSecs)

/-! ## Receipts -/

/-- The files of `.work/notifications`, by the id they are named after. -/
abbrev Receipts := String → Option String

inductive Claim where
  | claimed (receipt : NotificationReceipt)
  | inProgress (receipt : NotificationReceipt)
  | stale (receipt : NotificationReceipt)
  | corrupt
  | final (outcome : NotificationOutcome)

/-- What the environment does to an operation under the lock. -/
inductive LockFault where
  | none
  /-- The lock is not taken, or the operation fails before it changes anything. -/
  | refused (error : NotificationError)
  /-- A new receipt is created, and only its first characters are written. -/
  | torn (kept : Nat) (error : NotificationError)
  /-- The operation is done, and its last flush or the release of the lock fails. -/
  | after (error : NotificationError)

def Receipts.put (receipts : Receipts) (id content : String) : Receipts :=
  fun other => if other = id then some content else receipts other

section Dispatcher

variable (serde : Serde) (digest : String → String) (work : String)

/-- The text the id of a pair is the digest of. -/
def notificationText (event : NotificationEvent) (subject : String) : String :=
  s!"{event.asStr}|{subject}"

def notificationId (event : NotificationEvent) (subject : String) : String :=
  s!"nfy-{digest (notificationText event subject)}"

def receiptPath (id : String) : String := s!"{work}/notifications/{id}.json"

namespace NotificationDispatcher

def outcome (event : NotificationEvent) (subject : String) (status : NotificationStatus)
    (durationMs : Nat) : NotificationOutcome where
  id := notificationId digest event subject
  event := event
  status := status
  reason := status.reason
  durationMs := durationMs
  errorClass := none
  resolution := .resolved

def retryableOutcome (event : NotificationEvent) (subject : String) (status : NotificationStatus)
    (durationMs : Nat) : NotificationOutcome :=
  { outcome digest event subject status durationMs with resolution := .retry }

def failureOutcome (event : NotificationEvent) (subject : String) (durationMs : Nat)
    (error : NotificationError) : NotificationOutcome :=
  { retryableOutcome digest event subject .failed durationMs with errorClass := some error.class }

def corruptClaimOutcome (event : NotificationEvent) (subject : String) : NotificationOutcome :=
  { outcome digest event subject .unknown 0 with reason := .corruptClaim }

/-- The receipt of a claim at `now`. -/
def claimReceipt (event : NotificationEvent) (subject : String) (now : Nat) :
    NotificationReceipt where
  schema := notificationSchema
  id := notificationId digest event subject
  event := event
  subject := subject
  status := none
  reason := none
  durationMs := none
  claimedAtSecs := some now

/-- The receipt of an outcome. -/
def finalReceipt (subject : String) (outcome : NotificationOutcome) : NotificationReceipt where
  schema := notificationSchema
  id := outcome.id
  event := outcome.event
  subject := subject
  status := some outcome.status
  reason := some outcome.reason
  durationMs := some outcome.durationMs
  claimedAtSecs := none

def content (receipt : NotificationReceipt) : String := serde.render receipt.toJson ++ "\n"

def loadExistingReceiptLocked (receipts : Receipts) (event : NotificationEvent) (subject : String)
    (expectedId : String) (now : Nat) : Except NotificationError Claim :=
  match receipts expectedId with
  | none => .error (.io false s!"required control-plane artifact is absent: {receiptPath work expectedId}")
  | some text =>
    if notificationReceiptMaxBytes < (utf8 text).length then
      .error (.io false s!"artifact exceeds {notificationReceiptMaxBytes} bytes")
    else
      match serde.read text >>= NotificationReceipt.fromJson with
      | .error _ => .ok .corrupt
      | .ok existing =>
        if existing.schema ≠ notificationSchema ∨ existing.id ≠ expectedId ∨
            existing.event ≠ event ∨ existing.subject ≠ subject then
          .error (.invalid
            s!"notification receipt does not match request: {receiptPath work expectedId}")
        else
          match existing.status, existing.durationMs with
          | some status, some durationMs =>
            .ok (.final
              { id := expectedId
                event := event
                status := status
                reason := existing.reason.getD status.reason
                durationMs := durationMs
                errorClass := none
                resolution := .resolved })
          | none, none =>
            if claimIsStale existing.claimedAtSecs now then .ok (.stale existing)
            else .ok (.inProgress existing)
          | _, _ => .error (.invalid
            s!"notification receipt has inconsistent completion fields: {receiptPath work expectedId}")

/-- Create the receipt, or load the one that exists. -/
def claimOrLoadLocked (receipts : Receipts) (event : NotificationEvent) (subject : String)
    (now : Nat) : Receipts × Except NotificationError Claim :=
  let expectedId := notificationId digest event subject
  let receipt := claimReceipt digest event subject now
  match receipts expectedId with
  | none => (receipts.put expectedId (content serde receipt), .ok (.claimed receipt))
  | some _ => (receipts, loadExistingReceiptLocked serde work receipts event subject expectedId now)

def claimOrLoad (receipts : Receipts) (event : NotificationEvent) (subject : String) (now : Nat)
    (fault : LockFault) : Receipts × Except NotificationError Claim :=
  match fault with
  | .none => claimOrLoadLocked serde digest work receipts event subject now
  | .refused error => (receipts, .error error)
  | .torn kept error =>
    let expectedId := notificationId digest event subject
    match receipts expectedId with
    | none =>
      let text := content serde (claimReceipt digest event subject now)
      (receipts.put expectedId (String.ofList (text.toList.take kept)), .error error)
    | some _ => (receipts, .error error)
  | .after error => ((claimOrLoadLocked serde digest work receipts event subject now).1, .error error)

/-- Replace a receipt by that of an outcome. -/
def writeFinalReceiptLocked (receipts : Receipts) (subject : String)
    (outcome : NotificationOutcome) : Receipts × Except NotificationError NotificationOutcome :=
  let text := content serde (finalReceipt subject outcome)
  if notificationReceiptMaxBytes < (utf8 text).length then
    (receipts, .error (.io false s!"artifact exceeds {notificationReceiptMaxBytes} bytes"))
  else (receipts.put outcome.id text, .ok outcome)

def saveFinalReceiptLocked (receipts : Receipts) (subject : String)
    (expectedClaim : NotificationReceipt) (outcome : NotificationOutcome) (now : Nat) :
    Receipts × Except NotificationError NotificationOutcome :=
  let changed := NotificationError.invalid
    s!"notification claim changed before finalization: {receiptPath work outcome.id}"
  match loadExistingReceiptLocked serde work receipts outcome.event subject outcome.id now with
  | .error error => (receipts, .error error)
  | .ok (.final existing) => (receipts, .ok existing)
  | .ok .corrupt => (receipts, .error (.invalid
    s!"notification receipt became corrupt before finalization: {receiptPath work outcome.id}"))
  | .ok (.claimed claim) | .ok (.inProgress claim) | .ok (.stale claim) =>
    if claim = expectedClaim then writeFinalReceiptLocked serde receipts subject outcome
    else (receipts, .error changed)

def finalizeCorruptReceiptLocked (receipts : Receipts) (subject : String)
    (outcome : NotificationOutcome) (now : Nat) :
    Receipts × Except NotificationError NotificationOutcome :=
  match loadExistingReceiptLocked serde work receipts outcome.event subject outcome.id now with
  | .error error => (receipts, .error error)
  | .ok (.final existing) => (receipts, .ok existing)
  | .ok .corrupt => writeFinalReceiptLocked serde receipts subject outcome
  | .ok _ => (receipts, .error (.invalid
    s!"corrupt notification receipt changed before recovery: {receiptPath work outcome.id}"))

/-- A finalization under the lock: its replacement is atomic. -/
def finalizing (receipts : Receipts) (fault : LockFault)
    (locked : Receipts × Except NotificationError NotificationOutcome) :
    Receipts × Except NotificationError NotificationOutcome :=
  match fault with
  | .none => locked
  | .refused error | .torn _ error => (receipts, .error error)
  | .after error => (locked.1, .error error)

end NotificationDispatcher

/-! ## Processes that dispatch -/

/-- Where a process is in `dispatch`, between its operations under the lock. -/
inductive DispatchPhase where
  | idle
  | claimed (command : List String) (event : NotificationEvent) (subject : String)
      (claim : NotificationReceipt)
  | running (argv : List String) (event : NotificationEvent) (subject : String)
      (claim : NotificationReceipt)
  | stale (event : NotificationEvent) (subject : String) (claim : NotificationReceipt)
  | corrupt (event : NotificationEvent) (subject : String)

structure NotificationWorld where
  receipts : Receipts
  procs : Nat → DispatchPhase

inductive NotificationAction where
  /-- A dispatch up to the end of `claim_or_load`. -/
  | dispatch (command : Option (List String)) (event : NotificationEvent) (subject : String)
      (now : Nat) (fault : LockFault)
  | launch
  /-- The child has ended: its dispatch is finalized. -/
  | finish (verdict : SuperviseReason) (durationMs : Nat) (now : Nat) (fault : LockFault)
  /-- A stale or corrupt claim is finalized. -/
  | recover (now : Nat) (fault : LockFault)
  | crash

namespace NotificationWorld

open NotificationDispatcher

variable (w : NotificationWorld)

def initial : NotificationWorld := ⟨fun _ => none, fun _ => .idle⟩

def set (p : Nat) (receipts : Receipts) (phase : DispatchPhase) : NotificationWorld :=
  ⟨receipts, Function.update w.procs p phase⟩

/-- The command of a dispatcher that can launch one, or the outcome without one. -/
def ready (command : Option (List String)) (event : NotificationEvent) (subject : String) :
    Except NotificationOutcome (List String) :=
  if validSubject event subject then
    match command with
    | none => .error (outcome digest event subject .disabled 0)
    | some [] => .error (retryableOutcome digest event subject .failed 0)
    | some (program :: args) =>
      if program = "" then .error (retryableOutcome digest event subject .failed 0)
      else .ok (program :: args)
  else .error (outcome digest event subject .failed 0)

/-- A dispatch up to the end of `claim_or_load`: the receipts, and the answer or the next phase. -/
def begin (receipts : Receipts) (command : Option (List String)) (event : NotificationEvent)
    (subject : String) (now : Nat) (fault : LockFault) :
    Receipts × (NotificationOutcome ⊕ DispatchPhase) :=
  match ready digest command event subject with
  | .error outcome => (receipts, .inl outcome)
  | .ok command =>
    let claimed := claimOrLoad serde digest work receipts event subject now fault
    (claimed.1, match claimed.2 with
      | .ok (.final outcome) => .inl outcome
      | .ok (.inProgress _) => .inl (retryableOutcome digest event subject .inProgress 0)
      | .ok (.stale claim) => .inr (.stale event subject claim)
      | .ok .corrupt => .inr (.corrupt event subject)
      | .ok (.claimed claim) => .inr (.claimed command event subject claim)
      | .error error => .inl (failureOutcome digest event subject 0 error))

/-- The arguments the command is launched with. -/
def launchArgv (command : List String) (event : NotificationEvent) (subject : String) :
    List String :=
  command ++ [event.asStr, safeContext event subject]

/-- The answer to a finalization. -/
def answered (event : NotificationEvent) (subject : String) (durationMs : Nat) :
    Except NotificationError NotificationOutcome → NotificationOutcome
  | .ok outcome => outcome
  | .error error => failureOutcome digest event subject durationMs error

/-- One action of one process: the world behind it, and the answer if a dispatch ends. -/
def act (p : Nat) : NotificationAction → Option (NotificationWorld × Option NotificationOutcome)
  | .dispatch command event subject now fault =>
    match w.procs p with
    | .idle =>
      if now ≤ u64Max then
        let begun := begin serde digest work w.receipts command event subject now fault
        match begun.2 with
        | .inl outcome => some (w.set p begun.1 .idle, some outcome)
        | .inr phase => some (w.set p begun.1 phase, none)
      else none
    | _ => none
  | .launch =>
    match w.procs p with
    | .claimed command event subject claim =>
      some (w.set p w.receipts (.running (launchArgv command event subject) event subject claim),
        none)
    | _ => none
  | .finish verdict durationMs now fault =>
    match w.procs p with
    | .running _ event subject claim =>
      if now ≤ u64Max ∧ durationMs ≤ u128Max then
        let done := finalizing w.receipts fault (saveFinalReceiptLocked serde work w.receipts subject
          claim (outcome digest event subject verdict.status durationMs) now)
        some (w.set p done.1 .idle, some (answered digest event subject durationMs done.2))
      else none
    | _ => none
  | .recover now fault =>
    if now ≤ u64Max then
      match w.procs p with
      | .stale event subject claim =>
        let done := finalizing w.receipts fault (saveFinalReceiptLocked serde work w.receipts subject
          claim (outcome digest event subject .unknown 0) now)
        some (w.set p done.1 .idle, some (answered digest event subject 0 done.2))
      | .corrupt event subject =>
        let done := finalizing w.receipts fault (finalizeCorruptReceiptLocked serde work w.receipts
          subject (corruptClaimOutcome digest event subject) now)
        some (w.set p done.1 .idle, some (answered digest event subject 0 done.2))
      | _ => none
    else none
  | .crash => some (w.set p w.receipts .idle, none)

def next (step : Nat × NotificationAction) : Option NotificationWorld :=
  (w.act serde digest work step.1 step.2).map (·.1)

end NotificationWorld

end Dispatcher

end Orchestrail
