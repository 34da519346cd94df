import Orchestrail.Spec.Runtime

/-!
# The native executor

`NativeExecutor::execute` of `native.rs` over an arbitrary `ProcessorPort`, and the checks of
`apply_resolution` in `execution.rs`, which decide whether a resolution may answer its effect. One
call of the executor asks the port for one set of answers, so a port is a record of functions; the
lease is probed before and after.
-/

namespace Orchestrail

open Text

/-- The result of inspecting an interrupted operation in Phase 0. -/
inductive Reconciliation where
  | command (command : ProcessorCommand)
  | hold (reason : String)

inductive PublicationResult where
  | published (head : String) (pushed : Bool)
  | hold (reason : String)
  | rejected (reason : String)
  | reanchorRequired (reason : String) (target : PublicationReanchorTarget)

inductive PublicationReanchorResult where
  | reanchored
  | published (head : String)

/-- The impure services behind the effects: what each answers for its arguments and the state. -/
structure ProcessorPort (ε : Type) where
  /-- the display text of a port error -/
  errorText : ε → String
  nowSecs : Except ε Nat
  reconcile : String → ProcessorState → Except ε Reconciliation
  reconcileInbox : ProcessorState → Except ε Bool
  reconcileInboxFinalization : ProcessorState → Except ε Bool
  refreshDependencyGraph : RefreshBoundary → ProcessorState → Except ε LeafOutcome
  curateInbox : InboxCurationMode → ProcessorState → Except ε LeafOutcome
  drainQueueInbox : ProcessorState → Except ε Unit
  planCandidates : ProcessorState → Nat → Except ε (List AdmissionCandidate)
  tokenBudgetObservation : ProcessorState → Except ε TokenBudgetObservation
  ensureTaskWorkspace : String → String → ProcessorState → Except ε Unit
  taskLeaf : String → LeafKind → ProcessorState → Except ε LeafOutcome
  prepareTaskLeaf : String → LeafKind → ProcessorState → Except ε TaskLeafPreparationOutcome
  prepareTaskReview : String → ProcessorState → Except ε TaskReviewPreparationOutcome
  taskReview : String → ProcessorState → Except ε ReviewOutcome
  commitTask : String → ProcessorState → Except ε String
  ensureIntegrationWorkspace : String → ProcessorState → Except ε Unit
  mergeTask : String → ProcessorState → Except ε MergeOutcome
  resolveMergeConflict : String → ProcessorState → Except ε LeafOutcome
  finalizeMergeResolution : String → ProcessorState → Except ε MergeOutcome
  abortMergeResolution : String → ProcessorState → Except ε Unit
  verifyIntegration : String → ProcessorState → Except ε VerificationOutcome
  integrationReview : ProcessorState → Except ε ReviewOutcome
  integrationFix : ProcessorState → Except ε LeafOutcome
  commitIntegrationFix : ProcessorState → Except ε String
  publish : String → ProcessorState → Except ε PublicationResult
  reanchorPublication : String → ProcessorState → Except ε PublicationReanchorResult
  verifyCi : String → ProcessorState → Except ε CiOutcome
  reconfirmCiBeforeArchive : String → List String → ProcessorState → Except ε CiOutcome
  notify : NotificationEvent → String → Except ε Unit
  prepareCiFix : ProcessorState → Except ε CiFixPreparationOutcome
  ciFix : ProcessorState → Except ε LeafOutcome
  commitCiFix : ProcessorState → Except ε String
  prepareKnowledgeCuration : ProcessorState → Except ε KnowledgeCurationPreparationOutcome
  prepareArchival : ProcessorState → Except ε ArchivalPreparationOutcome
  curateKnowledge : ProcessorState → Except ε LeafOutcome
  returnTask : String → String → ProcessorState → Except ε Unit
  escalateTask : String → String → ProcessorState → Except ε Unit
  archiveTask : String → ProcessorState → Except ε Unit
  cleanupTaskWorkspace : String → ProcessorState → Except ε Unit
  cleanupIntegrationWorkspace : ProcessorState → Except ε Unit
  cleanupCohortControlPlane : ProcessorState → Except ε Unit
  writeJournalAndStatus : ProcessorState → Except ε Unit
  releaseLease : Except ε Unit

/-- The outcome of executing one effect. -/
inductive EffectResolution where
  | command (command : ProcessorCommand)
  | reconciled (command : ProcessorCommand)
  | acknowledge
  | hold (reason : String)

inductive NativeError (ε : Type) where
  | port (error : ε)
  | leaseLost
  | invalidEffect (message : String)

variable {ε : Type}

/-- A port answer, its failure as the executor reports it. -/
def fromPort {α : Type} : Except ε α → Except (NativeError ε) α
  | .ok a => .ok a
  | .error error => .error (.port error)

/-- The answer of a port turned into the command that carries it. -/
def answer {α : Type} (make : α → ProcessorCommand) (result : Except ε α) :
    Except (NativeError ε) EffectResolution := do
  .ok (.command (make (← fromPort result)))

/-- The end of an effect without a reducer result. -/
def done (result : Except ε Unit) : Except (NativeError ε) EffectResolution := do
  fromPort result
  .ok .acknowledge

namespace ProcessorPort

variable (port : ProcessorPort ε) (state : ProcessorState)

def dispatchTaskLeaf (taskId : String) : LeafKind → Except (NativeError ε) EffectResolution
  | .review => answer (.taskReview taskId) (port.taskReview taskId state)
  | .implement => answer (.taskLeaf taskId) (port.taskLeaf taskId .implement state)
  | .fix => answer (.taskLeaf taskId) (port.taskLeaf taskId .fix state)
  | other => .error (.invalidEffect s!"task dispatch cannot use leaf kind {other.asStr}")

def dispatchIntegrationLeaf : LeafKind → Except (NativeError ε) EffectResolution
  | .merger =>
    match state.integration.pendingMergeResolution with
    | none => .error (.invalidEffect "merger dispatch has no pending merge resolution")
    | some pending =>
      answer (.mergeResolution pending.taskId) (port.resolveMergeConflict pending.taskId state)
  | .integrationReview => answer .integrationReview (port.integrationReview state)
  | .integrationFix => answer .integrationFix (port.integrationFix state)
  | .ciFix => answer .ciFix (port.ciFix state)
  | .knowledgeCurator => answer .knowledgeCurated (port.curateKnowledge state)
  | other => .error (.invalidEffect s!"integration dispatch cannot use leaf kind {other.asStr}")

/-- The command of each publication result; a hold is a command too. -/
def publicationCommand : PublicationResult → ProcessorCommand
  | .published head pushed => .published head pushed
  | .hold reason => .publicationAwaitingApproval reason
  | .rejected reason => .publicationRejected reason
  | .reanchorRequired reason target => .publicationReanchorRequired reason target

def reanchorCommand : PublicationReanchorResult → ProcessorCommand
  | .reanchored => .publicationReanchored
  | .published head => .published head true

/-- One effect, one port call, one resolution. -/
def resolve : Effect → Except (NativeError ε) EffectResolution
  | .reconcile taskId => do
    match ← fromPort (port.reconcile taskId state) with
    | .command command => .ok (.reconciled command)
    | .hold reason => .ok (.hold reason)
  | .reconcileInbox freeSlots => answer (.inboxReconciled freeSlots) (port.reconcileInbox state)
  | .reconcileInboxFinalization =>
    answer .inboxFinalizationReconciled (port.reconcileInboxFinalization state)
  | .dispatchDependencyCurator boundary =>
    answer (.dependencyGraphRefreshed boundary) (port.refreshDependencyGraph boundary state)
  | .dispatchInboxCurator freeSlots mode =>
    answer (.inboxCurated freeSlots mode) (port.curateInbox mode state)
  | .drainQueueInbox freeSlots =>
    answer (fun _ => .inboxDrained freeSlots) (port.drainQueueInbox state)
  | .planNextWave freeSlots => do
    let candidates ← fromPort (port.planCandidates state freeSlots)
    answer (.admitWave candidates) port.nowSecs
  | .checkTokenBudget next =>
    -- a failed observation is an observation: the budget counts as used up
    match port.tokenBudgetObservation state with
    | .ok observation => .ok (.command (.tokenBudgetChecked next observation))
    | .error _ => .ok (.command (.tokenBudgetChecked next .unavailable))
  | .checkCohortBudget next => answer (.cohortBudgetChecked next) port.nowSecs
  | .ensureTaskWorkspace taskId branch =>
    match port.ensureTaskWorkspace taskId branch state with
    | .ok () => .ok (.command (.workspaceReady taskId))
    | .error error => .ok (.command (.workspaceFailed taskId (port.errorText error)))
  | .prepareTaskReview taskId =>
    answer (.taskReviewPrepared taskId) (port.prepareTaskReview taskId state)
  | .prepareTaskLeaf taskId kind =>
    answer (.taskLeafPrepared taskId) (port.prepareTaskLeaf taskId kind state)
  | .dispatchTask taskId kind => port.dispatchTaskLeaf state taskId kind
  | .commitTask taskId => answer (.taskCommitted taskId) (port.commitTask taskId state)
  | .prepareIntegrationWorkspace branch =>
    answer (fun _ => .integrationWorkspaceReady) (port.ensureIntegrationWorkspace branch state)
  | .mergeTask taskId => answer (.taskMerged taskId) (port.mergeTask taskId state)
  | .finalizeMergeResolution taskId =>
    answer (.mergeResolutionFinalized taskId) (port.finalizeMergeResolution taskId state)
  | .abortMergeResolution taskId reason =>
    answer (fun _ => .mergeResolutionAborted taskId reason) (port.abortMergeResolution taskId state)
  | .verifyIntegration head =>
    answer (.integrationVerified head) (port.verifyIntegration head state)
  | .dispatchIntegration kind => port.dispatchIntegrationLeaf state kind
  | .commitIntegrationFix => answer .integrationFixCommitted (port.commitIntegrationFix state)
  | .publish batchId => answer publicationCommand (port.publish batchId state)
  | .reanchorPublication batchId => answer reanchorCommand (port.reanchorPublication batchId state)
  | .verifyCi head => answer .ciVerified (port.verifyCi head state)
  | .notify event subject => done (port.notify event subject)
  | .prepareCiFix => answer .ciFixPrepared (port.prepareCiFix state)
  | .commitCiFix => answer .ciFixCommitted (port.commitCiFix state)
  | .prepareKnowledgeCuration =>
    answer .knowledgeCurationPrepared (port.prepareKnowledgeCuration state)
  | .prepareArchival => answer .archivalPrepared (port.prepareArchival state)
  | .reconfirmCiBeforeArchive head requiredChecks =>
    answer (.archiveCiReconfirmed head) (port.reconfirmCiBeforeArchive head requiredChecks state)
  | .returnTask taskId reason => done (port.returnTask taskId reason state)
  | .escalateTask taskId reason => done (port.escalateTask taskId reason state)
  | .archiveTask taskId => done (port.archiveTask taskId state)
  | .cleanupTaskWorkspace taskId => done (port.cleanupTaskWorkspace taskId state)
  | .cleanupIntegrationWorkspace => done (port.cleanupIntegrationWorkspace state)
  | .cleanupCohortControlPlane => done (port.cleanupCohortControlPlane state)
  | .writeJournalAndStatus => done (port.writeJournalAndStatus state)
  | .releaseLease => done port.releaseLease
  | .persistCheckpoint | .waitForOperator _ =>
    .error (.invalidEffect "driver-owned marker leaked to native executor")

end ProcessorPort

/-- The executor: its port, and what the lease probe says before and after the effect. -/
structure NativeExecutor (ε : Type) where
  port : ProcessorPort ε
  cancelledBefore : Bool := false
  cancelledAfter : Bool := false

/-- `NativeExecutor::execute`. -/
def NativeExecutor.execute (executor : NativeExecutor ε) (effect : Effect)
    (state : ProcessorState) : Except (NativeError ε) EffectResolution :=
  if executor.cancelledBefore then .error .leaseLost
  else do
    let resolution ← executor.port.resolve state effect
    -- an observation finished after the lease was lost answers nothing
    if executor.cancelledAfter then .error .leaseLost
    else .ok resolution

/-- Why the driver refuses a resolution, or that the runtime did. -/
inductive DriveError where
  | runtime (error : RuntimeError)
  | wrongAcknowledgement (effect : Effect) (expected actual : Option String)
  | invalidResolution (effect : Effect) (reason : String)

def ofRuntime {α : Type} : Ran α → Except DriveError α
  | .ok a => .ok a
  | .error error => .error (.runtime error)

/-- The command acknowledges exactly the key of the effect. -/
def ensureMatchingCommand (p : Processor) (effect : Effect) (command : ProcessorCommand) :
    Except DriveError Unit := do
  let actual ← ofRuntime (acknowledgementKey p command)
  if effectKey effect = actual then .ok ()
  else .error (.wrongAcknowledgement effect (effectKey effect) actual)

/-- What `apply_resolution` checks before it touches the runtime. -/
def checkResolution (p : Processor) (effect : Effect) : EffectResolution → Except DriveError Unit
  | .command command => ensureMatchingCommand p effect command
  | .reconciled command => do
    match effect with
    | .reconcile _ =>
      if (← ofRuntime (acknowledgementKey p command)).isNone then
        .error (.invalidResolution effect
          "recovery may only reconcile a recorded command that acknowledges an outstanding mutation")
      else if reconciliationMatchesTask effect command then .ok ()
      else
        .error (.invalidResolution effect
          "recovery command does not belong to the task named by its reconciliation effect")
    | _ => .error (.invalidResolution effect "only a recovery inspection may use Reconciled")
  | .acknowledge =>
    if (effectKey effect).isNone then
      .error (.invalidResolution effect "an informational effect cannot be acknowledged")
    else if acknowledgementOnlyEffect effect then .ok ()
    else
      .error (.invalidResolution effect
        "this effect requires a typed reducer command and cannot be acknowledged without its result")
  | .hold _ => .ok ()

end Orchestrail
