import Orchestrail.Spec.Reducer

/-!
# Ledger keys

The two tables of `runtime.rs` that tie the effects of the reducer to their answers: the durable key
of an effect (`effectKey`) and the key a command acknowledges in the present state
(`acknowledgementKey`); with them, the classes of effects the driver and Phase 0 distinguish.
-/

namespace Orchestrail

open Text

/-- What is wrong with a stored or a successor ledger (the cases of `CorruptCheckpoint`, whose texts
show the effects in their debug form). -/
inductive LedgerFault where
  | aliased (key : String) (existing effect : Effect)
  | unkeyed (effect : Effect)
  | misplaced (storedKey expectedKey : String) (effect : Effect)
  | notRetrySafe
  | authorityChanged (key : String)
  | reconstructedChanged (key : String)
  | notReproduced (effect : Effect)
  | reconciliationMissing (taskId : String)
  deriving DecidableEq

inductive RuntimeError where
  | processor (error : ProcessorError)
  | outbox (eventId : String)
  | corruptCheckpoint (fault : LedgerFault)
  | invalidEventTime (value : String)
  | pendingEffect (message : String)
  | unexpectedAcknowledgement (expected actual : String)
  | unknownEffect (message : String)
  deriving DecidableEq

/-- The result of one runtime operation. -/
abbrev Ran (α : Type) := Except RuntimeError α

/-- A reducer error as the runtime reports it. -/
def ofProcessor {α : Type} : Checked α → Ran α
  | .ok a => .ok a
  | .error error => .error (.processor error)

/-- The durable key of an effect; the two markers of the driver have none. -/
def effectKey : Effect → Option String
  | .persistCheckpoint | .waitForOperator _ => none
  | .reconcileInbox _ => some "reconcile-inbox"
  | .reconcileInboxFinalization => some "reconcile-inbox-finalization"
  | .dispatchDependencyCurator boundary => some ("dispatch-dependency-curator:" ++ boundary.asStr)
  | .dispatchInboxCurator _ mode => some (asciiLowercase ("dispatch-inbox-curator:" ++ mode.debug))
  | .drainQueueInbox _ => some "drain-queue-inbox"
  | .planNextWave _ => some "plan-next-wave"
  | .checkTokenBudget next => some next.ledgerKey
  | .checkCohortBudget next => some next.cohortBudgetLedgerKey
  | .reconcile taskId => some ("reconcile:" ++ taskId)
  | .ensureTaskWorkspace taskId _ => some ("ensure-workspace:" ++ taskId)
  | .prepareTaskReview taskId => some ("prepare-task-review:" ++ taskId)
  | .prepareTaskLeaf taskId kind => some ("prepare-task-leaf:" ++ taskId ++ ":" ++ kind.asStr)
  | .dispatchTask taskId kind => some ("dispatch-task:" ++ taskId ++ ":" ++ kind.asStr)
  | .commitTask taskId => some ("commit-task:" ++ taskId)
  | .prepareIntegrationWorkspace _ => some "prepare-integration"
  | .mergeTask taskId => some ("merge-task:" ++ taskId)
  | .finalizeMergeResolution taskId => some ("finalize-merge-resolution:" ++ taskId)
  | .abortMergeResolution taskId _ => some ("abort-merge-resolution:" ++ taskId)
  | .verifyIntegration _ => some "verify-integration"
  | .dispatchIntegration kind => some ("dispatch-integration:" ++ kind.asStr)
  | .commitIntegrationFix => some "commit-integration-fix"
  | .publish _ => some "publish"
  | .reanchorPublication _ => some "reanchor-publication"
  | .verifyCi _ => some "verify-ci"
  | .notify event subject => some ("notify:" ++ event.asStr ++ ":" ++ subject)
  | .prepareCiFix => some "prepare-ci-fix"
  | .commitCiFix => some "commit-ci-fix"
  | .prepareKnowledgeCuration => some "prepare-knowledge-curation"
  | .prepareArchival => some "prepare-archival"
  | .reconfirmCiBeforeArchive .. => some "reconfirm-ci-before-archive"
  | .returnTask taskId _ => some ("return-task:" ++ taskId)
  | .escalateTask taskId _ => some ("escalate-task:" ++ taskId)
  | .archiveTask taskId => some ("archive-task:" ++ taskId)
  | .cleanupTaskWorkspace taskId => some ("cleanup-workspace:" ++ taskId)
  | .cleanupIntegrationWorkspace => some "cleanup-integration-workspace"
  | .cleanupCohortControlPlane => some "cleanup-cohort-control-plane"
  | .writeJournalAndStatus => some "write-journal-and-status"
  | .releaseLease => some "release-lease"

/-- The leaf a task phase runs, if it runs one that is prepared and dispatched by kind. -/
def leafKindOf : TaskPhase → Option LeafKind
  | .implementing => some .implement
  | .fixing => some .fix
  | _ => none

/-- The key of a leaf result: its kind is read off the phase of the task, not off the command. -/
def taskLeafKey (p : Processor) (tag taskId : String) : Ran (Option String) := do
  let task ← ofProcessor (p.taskMut taskId)
  .ok ((leafKindOf task.phase).map fun kind => tag ++ taskId ++ ":" ++ kind.asStr)

/-- The key a command acknowledges. The commands of the scheduler acknowledge nothing. -/
def acknowledgementKey (p : Processor) : ProcessorCommand → Ran (Option String)
  | .workspaceReady taskId | .workspaceFailed taskId _ => .ok (some ("ensure-workspace:" ++ taskId))
  | .taskLeafPrepared taskId _ => taskLeafKey p "prepare-task-leaf:" taskId
  | .taskLeaf taskId _ => taskLeafKey p "dispatch-task:" taskId
  | .taskCommitted taskId _ => .ok (some ("commit-task:" ++ taskId))
  | .taskReviewPrepared taskId _ => .ok (some ("prepare-task-review:" ++ taskId))
  | .taskReview taskId _ => .ok (some ("dispatch-task:" ++ taskId ++ ":review"))
  | .integrationWorkspaceReady => .ok (some "prepare-integration")
  | .tokenBudgetChecked next _ => .ok (some next.ledgerKey)
  | .cohortBudgetChecked next _ => .ok (some next.cohortBudgetLedgerKey)
  | .taskMerged taskId _ => .ok (some ("merge-task:" ++ taskId))
  | .mergeResolution .. => .ok (some "dispatch-integration:merger")
  | .mergeResolutionFinalized taskId _ => .ok (some ("finalize-merge-resolution:" ++ taskId))
  | .mergeResolutionAborted taskId _ => .ok (some ("abort-merge-resolution:" ++ taskId))
  | .integrationVerified .. => .ok (some "verify-integration")
  | .integrationReview _ => .ok (some "dispatch-integration:integration-review")
  | .integrationFix _ => .ok (some "dispatch-integration:integration-fix")
  | .integrationFixCommitted _ => .ok (some "commit-integration-fix")
  | .published .. | .publicationRejected _ | .publicationAwaitingApproval _
  | .publicationReanchorRequired .. => .ok (some "publish")
  | .publicationReanchored => .ok (some "reanchor-publication")
  | .ciVerified _ => .ok (some "verify-ci")
  | .ciFixPrepared _ => .ok (some "prepare-ci-fix")
  | .ciFix _ => .ok (some "dispatch-integration:ci-fix")
  | .ciFixCommitted _ => .ok (some "commit-ci-fix")
  | .knowledgeCurationPrepared _ => .ok (some "prepare-knowledge-curation")
  | .knowledgeCurated _ => .ok (some "dispatch-integration:knowledge-curator")
  | .archivalPrepared _ => .ok (some "prepare-archival")
  | .archiveCiReconfirmed .. => .ok (some "reconfirm-ci-before-archive")
  | .admitWave .. => .ok (some "plan-next-wave")
  | .inboxReconciled .. => .ok (some "reconcile-inbox")
  | .inboxFinalizationReconciled _ => .ok (some "reconcile-inbox-finalization")
  | .dependencyGraphRefreshed boundary _ =>
    .ok (some ("dispatch-dependency-curator:" ++ boundary.asStr))
  | .inboxCurated _ mode _ => .ok (some (asciiLowercase ("dispatch-inbox-curator:" ++ mode.debug)))
  | .inboxDrained _ => .ok (some "drain-queue-inbox")
  | .openCohort .. | .recover _ | .advance _ | .cleanupComplete | .pause | .resume | .block _ =>
    .ok none

/-- Effects that are acknowledged without a command. -/
def acknowledgementOnlyEffect : Effect → Bool
  | .notify .. | .returnTask .. | .escalateTask .. | .archiveTask _ | .cleanupTaskWorkspace _
  | .cleanupIntegrationWorkspace | .cleanupCohortControlPlane | .writeJournalAndStatus
  | .releaseLease => true
  | _ => false

/-- A recovery answer names the task of its reconciliation. -/
def reconciliationMatchesTask : Effect → ProcessorCommand → Bool
  | .reconcile taskId, .workspaceReady candidate
  | .reconcile taskId, .workspaceFailed candidate _
  | .reconcile taskId, .taskLeafPrepared candidate _
  | .reconcile taskId, .taskLeaf candidate _
  | .reconcile taskId, .taskCommitted candidate _
  | .reconcile taskId, .taskReviewPrepared candidate _
  | .reconcile taskId, .taskReview candidate _ => candidate = taskId
  | _, _ => false

/-- Effects a restart may run again without inspection (`recovery_requirements`). -/
def retryIdempotently : Effect → Bool
  | .ensureTaskWorkspace .. | .prepareIntegrationWorkspace _ | .reanchorPublication _
  | .reconcile _ | .reconcileInbox _ | .reconcileInboxFinalization | .drainQueueInbox _
  | .checkTokenBudget _ | .checkCohortBudget _ | .verifyCi _ | .prepareKnowledgeCuration
  | .prepareArchival | .reconfirmCiBeforeArchive .. | .archiveTask _ | .cleanupTaskWorkspace _
  | .cleanupIntegrationWorkspace | .cleanupCohortControlPlane | .writeJournalAndStatus
  | .releaseLease => true
  | _ => false

end Orchestrail
