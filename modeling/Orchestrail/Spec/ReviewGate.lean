import Orchestrail.Spec.Contract
import Orchestrail.Spec.Verification

/-!
# Review gates and their adapters

The gates of `resolvers/gate.rs` decide over a parsed artifact; the adapters of `outcome_adapter.rs`
turn a supervised review and the text it left into the outcome the reducer takes. Of the verdict the
adapters read only its reason.
-/

namespace Orchestrail

open Text Outcome

/-! ## Gates -/

inductive ReviewGate where
  | clean | findings | incomplete
  deriving DecidableEq

def reviewGate (parse : ReviewParse) (since until_ : String) : ReviewGate :=
  if parse.openReviewFindings ≠ [] then .findings
  else if parse.isCleanPass since until_ then .clean
  else .incomplete

def integrationGate (parse : ReviewParse) (since until_ : String) : ReviewGate :=
  if parse.openIntegrationFindings ≠ [] then .findings
  else if parse.isCleanIntegrationPass since until_ then .clean
  else .incomplete

/-! ## Adapters -/

def supervisorReason (reason : SuperviseReason) : String := s!"supervisor {reason.asStr}"

def reviewProtocolError (message : String) : ReviewOutcome :=
  .escalated s!"invalid review protocol: {message}"

def requiredReason (outcome : TerminalOutcome) : Option String :=
  ((outcome.field "причина").map trimmed).filter (· ≠ "")

/-- The lines of a report that are not blank, trimmed. -/
def activeLines (report : List Char) : List (List Char) :=
  ((textLines report).map trim).filter fun line => !line.isEmpty

def isTailLine (line : List Char) : Bool := "ИТОГ:".toList.isPrefixOf line

/-- The outcome of the one `ИТОГ:` line, which is the last that is not blank. -/
def strictOutcome (report : List Char) : Option TerminalOutcome :=
  let active := activeLines report
  if (active.getLast?.all fun line => !isTailLine line) || (active.filter isTailLine).length ≠ 1 then
    none
  else parseOutcome report

/-- One exact risk token. -/
def Risk.fromToken (token : List Char) : Option Risk :=
  let token := String.ofList (trim token)
  if token = "low" then some .low
  else if token = "medium" then some .medium
  else if token = "high" then some .high
  else none

def riskMarkers (report : List Char) : List (List Char) :=
  (textLines report).filterMap fun line => (stripFront "Риск-повышен:".toList (trim line)).map trim

/-- The risk a review raises, if its marker is well formed. -/
def reviewRiskElevation (report : List Char) : Except String (Option Risk) :=
  match riskMarkers report with
  | [] => .ok none
  | [marker] =>
    match splitOnce " — ".toList marker with
    | none => .error "reviewer risk marker must be \x60Риск-повышен: low|medium|high — <reason>\x60"
    | some (level, reason) =>
      if (trim reason).isEmpty then .error "reviewer risk marker must include a non-empty reason"
      else
        match Risk.fromToken level with
        | some risk => .ok (some risk)
        | none => .error "reviewer risk marker must name exactly low, medium, or high"
  | _ => .error "review report has duplicate Риск-повышен markers"

def Status.signed : Status → String
  | .new => "new"
  | .fixed => "fixed"
  | .rejected => "rejected"
  | .ready => "ready"
  | .other value => value

/-- A round is signed from the ids, titles and statuses of its findings. -/
def findingSignature (findings : List Finding) : String :=
  let fields := (findings.map fun finding =>
    (s!"{finding.id}|{finding.title}", finding.status.signed)).mergeSort fun a b =>
      decide (a.1 < b.1 ∨ a.1 = b.1 ∧ ¬b.2 < a.2)
  (AttemptSignature.ofFinding ("\n".intercalate (fields.map (·.1)))
    ("\n".intercalate (fields.map (·.2)))).asStr

/-- The words of a terminal line that a task review may end with. -/
def readyToMerge : String := "готово к слиянию"

def openFindingsClaim : String := "открытые находки"

def readyToPublish : String := "готово к публикации"

/-- The outcome of a task review, once the risk and the tail are known. -/
def taskReviewBranch (parsed : ReviewParse) (risk : Option Risk) (tail : Option TerminalOutcome)
    (since until_ reviewSha : String) : ReviewOutcome :=
  let found := parsed.openReviewFindings
  if found ≠ [] then
    let openFindings := toU32 found.length
    let openFindingIds := found.map (·.id)
    match risk with
    | some risk => .findingsRiskElevated (findingSignature found) risk openFindings openFindingIds
    | none => .findings (findingSignature found) openFindings openFindingIds
  else if tail.any (·.verdict = readyToMerge) && parsed.isCleanPass since until_ then
    match risk with
    | some risk => .cleanRiskElevated reviewSha risk
    | none => .clean reviewSha
  else
    match parsed.summaryAfterWindow until_ with
    | some mark => reviewProtocolError
      (s!"reviewer's latest SUMMARY-R {mark} is dated after this call's window end {until_}; " ++
        "summaries are never deleted, so no later pass can re-prove the clean gate")
    | none => .incomplete

/-- A supervised task review as an outcome of the reducer. -/
def taskReviewOutcome (reason : SuperviseReason) (report : List Char)
    (since until_ reviewSha : String) : Except SlicePanic ReviewOutcome :=
  if reason ≠ .ok then .ok (.escalated (supervisorReason reason))
  else
    match reviewRiskElevation report with
    | .error error => .ok (reviewProtocolError error)
    | .ok risk => do
      let parsed ← parseReview report
      let tail := strictOutcome report
      match tail with
      | none => .ok (taskReviewBranch parsed risk tail since until_ reviewSha)
      | some outcome =>
        if outcome.verdict = "эскалация codex" then
          .ok (.escalated ((requiredReason outcome).getD
            "Codex reviewer escalation without причина field"))
        else if outcome.verdict = readyToMerge ∨ outcome.verdict = openFindingsClaim then
          .ok (taskReviewBranch parsed risk tail since until_ reviewSha)
        else .ok (reviewProtocolError s!"unknown reviewer outcome {quoted outcome.verdict}")

/-- A supervised full review as an outcome of the reducer. -/
def integrationReviewOutcome (reason : SuperviseReason) (report : List Char)
    (since until_ reviewSha : String) : Except SlicePanic ReviewOutcome :=
  if reason ≠ .ok then .ok (.escalated (supervisorReason reason))
  else do
    let parsed ← parseReview report
    match strictOutcome report with
    | none => .ok (reviewProtocolError "missing machine-readable ИТОГ line")
    | some outcome =>
      let found := parsed.openIntegrationFindings
      if outcome.verdict = readyToPublish then
        if parsed.isCleanIntegrationPass since until_ then .ok (.clean reviewSha)
        else .ok (reviewProtocolError
          "full reviewer declared ready but did not provide a fresh clean SUMMARY-F gate")
      else if outcome.verdict = openFindingsClaim then
        if found ≠ [] then
          .ok (.findings (findingSignature found) (toU32 found.length) (found.map (·.id)))
        else .ok (reviewProtocolError
          "full reviewer declared open findings but no open F-* finding exists")
      else .ok (reviewProtocolError s!"unknown full-review outcome {quoted outcome.verdict}")

/-- The findings an outcome counts and lists. -/
def ReviewOutcome.listed : ReviewOutcome → Option (Nat × List String)
  | .findings _ count ids | .findingsRiskElevated _ _ count ids => some (count, ids)
  | _ => none

end Orchestrail
