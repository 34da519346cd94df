import Orchestrail.Spec.Recovery
import Orchestrail.Spec.TaskTurns

/-!
# The reducer

`Processor::apply`: a blocked or paused processor answers every command but its own exits with a
wait; any other command is dispatched to its transition, the model-bearing effects of the result
are put behind the enabled budget check, and a non-empty result starts with the checkpoint. A run of
the reducer (`ProcessorStep`, `Processor.next`) is made of accepted commands, acknowledged effects
and restarts from the stored state.
-/

namespace Orchestrail

namespace Processor

/-- The transition of each command. -/
def dispatch (p : Processor) : ProcessorCommand → Turn
  | .pause => p.pause
  | .resume => p.resume
  | .block reason => .ok (p.blocked reason, [.waitForOperator reason])
  | .recover workspacesPresent => p.recover workspacesPresent
  | .openCohort batchId base nowSecs => p.openCohort batchId base nowSecs
  | .admitWave candidates nowSecs => p.admitWave candidates nowSecs
  | .inboxReconciled freeSlots curationRequired => p.inboxReconciled freeSlots curationRequired
  | .inboxFinalizationReconciled curationRequired => p.inboxFinalizationReconciled curationRequired
  | .dependencyGraphRefreshed boundary outcome => p.dependencyGraphRefreshed boundary outcome
  | .inboxCurated freeSlots mode outcome => p.inboxCurated freeSlots mode outcome
  | .inboxDrained freeSlots => p.inboxDrained freeSlots
  | .tokenBudgetChecked next observation => p.tokenBudgetChecked next observation
  | .cohortBudgetChecked next nowSecs => p.cohortBudgetChecked next nowSecs
  | .workspaceReady taskId => p.workspaceReady taskId
  | .workspaceFailed taskId reason => p.workspaceFailed taskId reason
  | .taskLeafPrepared taskId outcome => p.taskLeafPrepared taskId outcome
  | .taskLeaf taskId outcome => p.taskLeaf taskId outcome
  | .taskCommitted taskId commit => p.taskCommitted taskId commit
  | .taskReviewPrepared taskId outcome => p.taskReviewPrepared taskId outcome
  | .taskReview taskId outcome => p.taskReview taskId outcome
  | .advance nowSecs => p.advance nowSecs
  | .integrationWorkspaceReady => p.integrationWorkspaceReady
  | .taskMerged taskId outcome => p.taskMerged taskId outcome
  | .mergeResolution taskId outcome => p.mergeResolution taskId outcome
  | .mergeResolutionFinalized taskId outcome => p.mergeResolutionFinalized taskId outcome
  | .mergeResolutionAborted taskId reason => p.mergeResolutionAborted taskId reason
  | .integrationVerified head outcome => p.integrationVerified head outcome
  | .integrationReview outcome => p.integrationReview outcome
  | .integrationFix outcome => p.integrationFix outcome
  | .integrationFixCommitted head => p.integrationFixCommitted head
  | .published head pushed => p.published head pushed
  | .publicationRejected reason => p.publicationRejected reason
  | .publicationAwaitingApproval reason => p.publicationAwaitingApproval reason
  | .publicationReanchorRequired reason target => p.publicationReanchorRequired reason target
  | .publicationReanchored => p.publicationReanchored
  | .ciVerified outcome => p.ciVerified outcome
  | .ciFix outcome => p.ciFix outcome
  | .ciFixPrepared outcome => p.ciFixPrepared outcome
  | .ciFixCommitted head => p.ciFixCommitted head
  | .knowledgeCurationPrepared outcome => p.knowledgeCurationPrepared outcome
  | .knowledgeCurated outcome => p.knowledgeCurated outcome
  | .archivalPrepared outcome => p.archivalPrepared outcome
  | .archiveCiReconfirmed head outcome => p.archiveCiReconfirmed head outcome
  | .cleanupComplete => p.cleanupComplete

/-- Put a model-bearing effect behind the first enabled budget check. -/
def guardModelEffect (config : ProcessorConfig) (effect : Effect) : Effect :=
  match ModelCall.fromEffect effect with
  | some next =>
    if config.cohortBudgetSecs.isSome then .checkCohortBudget next
    else if config.cohortTokenBudget.isSome then .checkTokenBudget next
    else effect
  | none => effect

def guardModelEffects (p : Processor) (effects : List Effect) : List Effect :=
  effects.map (guardModelEffect p.config)

/-- The checkpoint comes first, unless there is nothing to do but wait. -/
def persistFirst : List Effect → List Effect
  | [] => []
  | .waitForOperator reason :: effects => .waitForOperator reason :: effects
  | effects => .persistCheckpoint :: effects

/-- The reply of a blocked or paused processor to a command that does not leave that phase. -/
def standingReply (p : Processor) (command : ProcessorCommand) : Option (List Effect) :=
  match p.state.phase, command with
  | .blocked, .recover _ => none
  | .blocked, _ => some [.waitForOperator (p.state.blockedReason.getD "processor is blocked")]
  | .paused, .resume | .paused, .block _ => none
  | .paused, _ => some [.waitForOperator "PAUSE is active"]
  | _, _ => none

def isBudgetCheck : ProcessorCommand → Bool
  | .tokenBudgetChecked .. | .cohortBudgetChecked .. => true
  | _ => false

/-- Apply one structured input (`Processor::apply`). -/
def apply (p : Processor) (command : ProcessorCommand) : Turn :=
  match p.standingReply command with
  | some reply => .ok (p, reply)
  | none => do
    let (next, effects) ← p.dispatch command
    .ok (next, persistFirst
      (if isBudgetCheck command then effects else next.guardModelEffects effects))

end Processor

/-- One step in the life of a reducer. -/
inductive ProcessorStep where
  | apply (command : ProcessorCommand)
  | acknowledge (effect : Effect)
  | restart

namespace Processor

/-- The reducer after a step it accepts. -/
def next (p : Processor) : ProcessorStep → Option Processor
  | .apply command => (p.apply command).toOption.map (·.1)
  | .acknowledge effect => (p.acknowledgeNonCommandEffect effect).toOption
  | .restart => (fromCheckpoint p.config p.state).toOption

end Processor

end Orchestrail
