import Orchestrail.Spec.State

/-!
# Commands, effects and errors

What the reducer is told (`ProcessorCommand` with the outcomes it carries), what it asks for
(`Effect`, with the typed continuation of a budget check, `ModelCall`), and how it refuses
(`ProcessorError`, `message` being its display text).
-/

namespace Orchestrail

/-- A structured leaf completion. -/
inductive LeafOutcome where
  | completed (author : Option String)
  | riskElevated (author : Option String) (risk : Risk) (wontFixed : Option Nat)
  | completedWithWontFix (author : Option String) (wontFixed : Nat)
  | retryableFailure (reason : String)
  | escalated (reason : String)
  deriving DecidableEq

inductive ReviewOutcome where
  | clean (reviewSha : String)
  | cleanRiskElevated (reviewSha : String) (risk : Risk)
  | findings (signature : String) (openFindings : Nat) (openFindingIds : List String)
  | findingsRiskElevated (signature : String) (risk : Risk) (openFindings : Nat)
      (openFindingIds : List String)
  | incomplete
  | escalated (reason : String)
  deriving DecidableEq

inductive MergeOutcome where
  | merged (integrationSha : String)
  | needsResolution (preMergeHead : String) (mergePaths paths : List String)
      (protectedPaths : List MergePathFingerprint)
  | quarantined (reason : String)
  | failed (reason : String)
  deriving DecidableEq

inductive CiOutcome where
  | passed
  | localOnly
  | disabled
  | bestEffortDegraded (reason : String)
  | requiredUnconfirmed (reason : String)
  | failed (signature reason : String)
  deriving DecidableEq

inductive CiFixPreparationOutcome where
  | skipped
  | completed
  | fallback
  | sandboxDowngraded (scope : CodexSandboxDowngrade)
  | escalated (reason : String)
  deriving DecidableEq

inductive KnowledgeCurationPreparationOutcome where
  | required | alreadyCompleted | skipped
  deriving DecidableEq

inductive ArchivalPreparationOutcome where
  | reconfirmRequired (requiredChecks : List String)
  | skipped
  deriving DecidableEq

inductive TaskLeafPreparationOutcome where
  | skipped
  | completed
  | completedWithWontFix (wontFixed : Nat)
  | riskElevated (risk : Risk) (wontFixed : Option Nat)
  | fallback
  | sandboxDowngraded (scope : CodexSandboxDowngrade)
  | escalated (reason : String)
  deriving DecidableEq

inductive TaskReviewPreparationOutcome where
  | dispatchClaude
  | sandboxDowngraded (scope : CodexSandboxDowngrade)
  | completed (outcome : ReviewOutcome)
  deriving DecidableEq

inductive VerificationOutcome where
  | passed
  | exempt (reason : String)
  | failed (signature reason : String)
  | blocked (reason : String)
  deriving DecidableEq

inductive TokenBudgetObservation where
  | actual (tokens : Nat)
  | unavailable
  deriving DecidableEq

/-- A model-bearing effect that must pass the cohort budget checks before it starts. -/
inductive ModelCall where
  | planner (freeSlots : Nat)
  | inboxCurator (freeSlots : Nat) (mode : InboxCurationMode)
  | dependencyCurator (boundary : RefreshBoundary)
  | taskReviewPreparation (taskId : String)
  | taskLeafPreparation (taskId : String) (kind : LeafKind)
  | ciFixPreparation
  | task (taskId : String) (kind : LeafKind)
  | integration (kind : LeafKind)
  deriving DecidableEq

/-- A concrete ordered effect for the impure runner. -/
inductive Effect where
  | persistCheckpoint
  | reconcile (taskId : String)
  | reconcileInbox (freeSlots : Nat)
  | reconcileInboxFinalization
  | dispatchDependencyCurator (boundary : RefreshBoundary)
  | dispatchInboxCurator (freeSlots : Nat) (mode : InboxCurationMode)
  | drainQueueInbox (freeSlots : Nat)
  | planNextWave (freeSlots : Nat)
  | checkTokenBudget (next : ModelCall)
  | checkCohortBudget (next : ModelCall)
  | ensureTaskWorkspace (taskId branch : String)
  | prepareTaskReview (taskId : String)
  | prepareTaskLeaf (taskId : String) (kind : LeafKind)
  | dispatchTask (taskId : String) (kind : LeafKind)
  | commitTask (taskId : String)
  | prepareIntegrationWorkspace (branch : String)
  | mergeTask (taskId : String)
  | finalizeMergeResolution (taskId : String)
  | abortMergeResolution (taskId reason : String)
  | verifyIntegration (head : String)
  | dispatchIntegration (kind : LeafKind)
  | commitIntegrationFix
  | publish (batchId : String)
  | reanchorPublication (batchId : String)
  | verifyCi (head : String)
  | notify (event : NotificationEvent) (subject : String)
  | prepareCiFix
  | commitCiFix
  | prepareKnowledgeCuration
  | prepareArchival
  | reconfirmCiBeforeArchive (head : String) (requiredChecks : List String)
  | returnTask (taskId reason : String)
  | escalateTask (taskId reason : String)
  | archiveTask (taskId : String)
  | cleanupTaskWorkspace (taskId : String)
  | cleanupIntegrationWorkspace
  | cleanupCohortControlPlane
  | writeJournalAndStatus
  | releaseLease
  | waitForOperator (reason : String)
  deriving DecidableEq

/-- One externally observed, structured processor input. -/
inductive ProcessorCommand where
  | openCohort (batchId base : String) (nowSecs : Nat)
  | recover (workspacesPresent : StringSet)
  | admitWave (candidates : List AdmissionCandidate) (nowSecs : Nat)
  | inboxReconciled (freeSlots : Nat) (curationRequired : Bool)
  | inboxFinalizationReconciled (curationRequired : Bool)
  | dependencyGraphRefreshed (boundary : RefreshBoundary) (outcome : LeafOutcome)
  | inboxCurated (freeSlots : Nat) (mode : InboxCurationMode) (outcome : LeafOutcome)
  | inboxDrained (freeSlots : Nat)
  | tokenBudgetChecked (next : ModelCall) (observation : TokenBudgetObservation)
  | cohortBudgetChecked (next : ModelCall) (nowSecs : Nat)
  | workspaceReady (taskId : String)
  | workspaceFailed (taskId reason : String)
  | taskLeafPrepared (taskId : String) (outcome : TaskLeafPreparationOutcome)
  | taskLeaf (taskId : String) (outcome : LeafOutcome)
  | taskCommitted (taskId commit : String)
  | taskReviewPrepared (taskId : String) (outcome : TaskReviewPreparationOutcome)
  | taskReview (taskId : String) (outcome : ReviewOutcome)
  | advance (nowSecs : Nat)
  | integrationWorkspaceReady
  | taskMerged (taskId : String) (outcome : MergeOutcome)
  | mergeResolution (taskId : String) (outcome : LeafOutcome)
  | mergeResolutionFinalized (taskId : String) (outcome : MergeOutcome)
  | mergeResolutionAborted (taskId reason : String)
  | integrationVerified (head : String) (outcome : VerificationOutcome)
  | integrationReview (outcome : ReviewOutcome)
  | integrationFix (outcome : LeafOutcome)
  | integrationFixCommitted (head : String)
  | published (head : String) (pushed : Bool)
  | publicationRejected (reason : String)
  | publicationAwaitingApproval (reason : String)
  | publicationReanchorRequired (reason : String) (target : PublicationReanchorTarget)
  | publicationReanchored
  | ciVerified (outcome : CiOutcome)
  | ciFix (outcome : LeafOutcome)
  | ciFixPrepared (outcome : CiFixPreparationOutcome)
  | ciFixCommitted (head : String)
  | knowledgeCurationPrepared (outcome : KnowledgeCurationPreparationOutcome)
  | knowledgeCurated (outcome : LeafOutcome)
  | archivalPrepared (outcome : ArchivalPreparationOutcome)
  | archiveCiReconfirmed (head : String) (outcome : CiOutcome)
  | cleanupComplete
  | pause
  | resume
  | block (reason : String)

inductive ProcessorError where
  | invalidConfig (message : String)
  | invalidCommand (message : String)
  | missingTask (taskId : String)
  | unexpectedTaskPhase (taskId expected : String) (actual : TaskPhase)
  | corruptCheckpoint (message : String)
  deriving DecidableEq

def ProcessorError.message : ProcessorError → String
  | .invalidConfig message | .invalidCommand message | .corruptCheckpoint message => message
  | .missingTask taskId => s!"unknown task {taskId}"
  | .unexpectedTaskPhase taskId expected actual =>
    s!"task {taskId} is {actual.debug}; expected state compatible with {expected}"

namespace ModelCall

/-- The continuation of a model-bearing effect, if it is one. -/
def fromEffect : Effect → Option ModelCall
  | .planNextWave freeSlots => some (.planner freeSlots)
  | .dispatchInboxCurator freeSlots mode => some (.inboxCurator freeSlots mode)
  | .dispatchDependencyCurator boundary => some (.dependencyCurator boundary)
  | .prepareTaskReview taskId => some (.taskReviewPreparation taskId)
  | .prepareTaskLeaf taskId kind => some (.taskLeafPreparation taskId kind)
  | .prepareCiFix => some .ciFixPreparation
  | .dispatchTask taskId .implement => some (.task taskId .implement)
  | .dispatchTask taskId .review => some (.task taskId .review)
  | .dispatchTask taskId .fix => some (.task taskId .fix)
  | .dispatchIntegration .merger => some (.integration .merger)
  | .dispatchIntegration .integrationReview => some (.integration .integrationReview)
  | .dispatchIntegration .integrationFix => some (.integration .integrationFix)
  | .dispatchIntegration .ciFix => some (.integration .ciFix)
  | _ => none

def intoEffect : ModelCall → Effect
  | .planner freeSlots => .planNextWave freeSlots
  | .inboxCurator freeSlots mode => .dispatchInboxCurator freeSlots mode
  | .dependencyCurator boundary => .dispatchDependencyCurator boundary
  | .taskReviewPreparation taskId => .prepareTaskReview taskId
  | .taskLeafPreparation taskId kind => .prepareTaskLeaf taskId kind
  | .ciFixPreparation => .prepareCiFix
  | .task taskId kind => .dispatchTask taskId kind
  | .integration kind => .dispatchIntegration kind

/-- The part of a budget key after its `check-…-budget:` tag. -/
def ledgerSubject : ModelCall → String
  | .planner _ => "planner"
  | .inboxCurator _ mode => s!"inbox-curator:{inboxCurationKey mode}"
  | .dependencyCurator boundary => s!"dependency-curator:{boundary.asStr}"
  | .taskReviewPreparation taskId => s!"task:{taskId}:review-augment"
  | .taskLeafPreparation taskId kind => s!"task:{taskId}:{kind.asStr}-codex"
  | .ciFixPreparation => "integration:ci-fix-codex"
  | .task taskId kind => s!"task:{taskId}:{kind.asStr}"
  | .integration kind => s!"integration:{kind.asStr}"

def ledgerKey (next : ModelCall) : String := "check-token-budget:" ++ next.ledgerSubject

/-- The token key with its tag replaced once; every token key starts with that tag. -/
def cohortBudgetLedgerKey (next : ModelCall) : String :=
  "check-cohort-budget:" ++ next.ledgerSubject

theorem fromEffect_intoEffect {effect : Effect} {next : ModelCall}
    (h : fromEffect effect = some next) : next.intoEffect = effect := by
  unfold fromEffect at h
  split at h <;> first | (obtain rfl := Option.some.inj h; rfl) | exact absurd h (by simp)

end ModelCall

end Orchestrail
