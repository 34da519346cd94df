import Orchestrail.Spec.Progress

/-!
# Cohort turns

The transitions of the cohort as a whole: opening it, the inbox and dependency boundaries, the
admission of a wave, the budget checks with their halt, and the end of admission.
-/

namespace Orchestrail

namespace Processor

def openCohort (p : Processor) (batchId base : String) (nowSecs : Nat) : Turn := do
  require ((p.state.phase = .idle ∨ p.state.phase = .opening) ∧ p.state.batch = none)
    (.invalidCommand "open requires an idle processor with no existing cohort")
  validateBatchId batchId
  validateRef base "base"
  let batch : CohortRuntime :=
    { id := batchId
      base := base
      startedAtSecs := nowSecs
      wave := 1
      admittedTotal := 0
      admissionClosed := none
      cohortBudgetSecs := p.config.cohortBudgetSecs
      cohortTokenBudget := p.config.cohortTokenBudget
      cohortTokenBudgetStrict := p.config.cohortTokenBudgetStrict
      tokenBudgetActualTokens := none
      eventsOutboxEnabled := p.config.eventsOutboxEnabled }
  let integration : IntegrationRuntime :=
    { pendingKnowledgeCurations := p.state.integration.pendingKnowledgeCurations }
  .ok ((((p.withBatch (some batch)).withIntegration integration).withTasks ∅).withPhase .rolling,
    [.dispatchDependencyCurator .cohortOpen])

def inboxReconciliationEffect (p : Processor) : Effect := .reconcileInbox p.freeSlots

def rollingBoundaryEffect (p : Processor) : Effect :=
  if p.state.integration.dependencyGraphRefreshedOpen then p.inboxReconciliationEffect
  else .dispatchDependencyCurator .cohortOpen

def dependencyGraphRefreshed (p : Processor) (boundary : RefreshBoundary) (outcome : LeafOutcome) :
    Turn :=
  let failure := nonSuccessLeafReason "dependency graph curator" outcome
  match boundary with
  | .cohortOpen => do
    p.requirePhase .rolling "opening dependency graph refresh"
    require (p.state.integration.dependencyGraphRefreshedOpen = false)
      (.invalidCommand "opening dependency graph refresh was already acknowledged")
    let integration := { p.state.integration with dependencyGraphRefreshedOpen := true }
    match failure with
    | some reason =>
      let note := s!"dependency graph refresh at cohort open failed: {reason}"
      let p := p.withIntegration
        { integration with degradations := integration.degradations ++ [note] }
      .ok (p, [.writeJournalAndStatus, p.inboxReconciliationEffect])
    | none =>
      let p := p.withIntegration integration
      .ok (p, [p.inboxReconciliationEffect])
  | .postArchive => do
    p.requirePhase .cleaning "post-archive dependency graph refresh"
    require (p.state.integration.dependencyGraphRefreshedPostArchive = false)
      (.invalidCommand "post-archive dependency graph refresh was already acknowledged")
    let integration := { p.state.integration with dependencyGraphRefreshedPostArchive := true }
    match failure with
    | some reason =>
      let note := s!"dependency graph refresh after archive failed: {reason}"
      .ok (p.withIntegration
          { integration with degradations := integration.degradations ++ [note] },
        [.writeJournalAndStatus, .reconcileInboxFinalization])
    | none => .ok (p.withIntegration integration, [.reconcileInboxFinalization])

def validateInboxWave (p : Processor) (freeSlots : Nat) (operation : String) : Checked Unit := do
  p.requirePhase .rolling operation
  require (freeSlots = p.freeSlots) (.invalidCommand
    s!"{operation} free_slots={freeSlots} does not match the current deterministic capacity {p.freeSlots}")

def inboxReconciled (p : Processor) (freeSlots : Nat) (curationRequired : Bool) : Turn := do
  p.validateInboxWave freeSlots "inbox reconciliation"
  .ok (p, [if curationRequired then .dispatchInboxCurator freeSlots .intake
    else .drainQueueInbox freeSlots])

/-- Stop in `Blocked` and wait, with the same reason. -/
def holdInbox (p : Processor) (reason : String) : Turn :=
  .ok (p.blocked reason, [.waitForOperator reason])

/-- The phase and the capacity a curation belongs to. -/
def validateCuration (p : Processor) (freeSlots : Nat) : InboxCurationMode → Checked Unit
  | .intake => p.validateInboxWave freeSlots "inbox curation"
  | .finalize => do
    p.requirePhase .cleaning "post-archive inbox finalization"
    require (freeSlots = 0)
      (.invalidCommand s!"inbox finalization free_slots={freeSlots} must be zero")

def inboxCurated (p : Processor) (freeSlots : Nat) (mode : InboxCurationMode)
    (outcome : LeafOutcome) : Turn := do
  p.validateCuration freeSlots mode
  match outcome with
  | .completed _ =>
    match mode with
    | .intake => .ok (p, [.drainQueueInbox freeSlots])
    | .finalize => .ok (p, [])
  | .retryableFailure reason | .escalated reason =>
    p.holdInbox s!"inbox curator {mode.debug}: {reason}"
  | .riskElevated _ risk _ =>
    p.holdInbox s!"inbox curator reported unsupported task risk elevation {risk.asStr}"
  | .completedWithWontFix .. =>
    p.holdInbox "inbox curator reported unsupported fix-cycle won't-fix metadata"

def inboxDrained (p : Processor) (freeSlots : Nat) : Turn := do
  p.validateInboxWave freeSlots "queue inbox drain"
  .ok (p, [.planNextWave freeSlots])

def inboxFinalizationReconciled (p : Processor) (curationRequired : Bool) : Turn := do
  p.requirePhase .cleaning "post-archive inbox reconciliation"
  .ok (p, if curationRequired then [.dispatchInboxCurator 0 .finalize] else [])

/-- What the planner is shown of a candidate. -/
def resolverCandidate (candidate : AdmissionCandidate) : Candidate :=
  { id := candidate.id
    ready := candidate.ready
    domain := Domain.parse candidate.conflictDomain
    delivery := if candidate.currentDeliveryLane then .current else .nextMajor }

/-- Insert the selected candidates, each once. -/
def insertWave (wave : Nat) :
    List AdmissionCandidate → StringMap TaskRuntime → Checked (StringMap TaskRuntime)
  | [], tasks => .ok tasks
  | candidate :: rest, tasks => do
    validateTaskId candidate.id
    require (tasks[candidate.id]? = none)
      (.invalidCommand s!"task {candidate.id} was admitted twice in one cohort")
    insertWave wave rest (tasks.insert candidate.id (TaskRuntime.new candidate wave))

/-- Admission of a rolling wave (`Processor::admit`). -/
def admitWave (p : Processor) (candidates : List AdmissionCandidate) (nowSecs : Nat) : Turn := do
  p.requirePhase .rolling "rolling admission"
  checkAll (fun candidate => validateConflictDomain candidate.conflictDomain) candidates
  let p := p.closeForBudgetIfNeeded nowSecs
  let batch ← orError p.state.batch (.invalidCommand "rolling requires a cohort")
  if batch.admissionClosed.isSome then p.afterAdmissionClosed
  else
    let capacity := min p.freeSlots (p.config.cohortSize.toNat - batch.admittedTotal)
    match planAdmission (candidates.map resolverCandidate) p.activeTasks capacity with
    | .admitted ids => do
      let selected := candidates.filter fun candidate => ids.contains candidate.id
      let tasks ← insertWave batch.wave selected p.state.tasks
      let batch :=
        { batch with
          admittedTotal := satAdd batch.admittedTotal (ids.length % (u32Max + 1))
          wave := satAdd batch.wave 1 }
      .ok (((p.withTasks tasks).withBatch (some batch)).closeForBudgetIfNeeded nowSecs,
        selected.map fun candidate => .ensureTaskWorkspace candidate.id s!"task/{candidate.id}")
    | .empty reason =>
      match reason.toCloseReason with
      | some close => (p.closeAdmission close).afterAdmissionClosed
      | none => .ok (p, [])

def advance (p : Processor) (nowSecs : Nat) : Turn := do
  p.requirePhase .rolling "advance"
  let p := p.closeForBudgetIfNeeded nowSecs
  if p.state.batch.any (·.admissionClosed.isNone) then .ok (p, [p.inboxReconciliationEffect])
  else p.afterAdmissionClosed

/-- Close admission, escalate every active task, and leave phase 2 (`halt_for_token_budget` and
`halt_for_cohort_budget`, which differ in the close reason). -/
def haltFor (p : Processor) (close : CloseReason) (reason : String) : Turn := do
  let p := if p.state.batch.any (·.admissionClosed.isNone) then p.closeAdmission close else p
  let activeIds := (p.taskList.filter (·.phase.isActive)).map (·.id)
  let (p, escalations) ← p.escalateEach activeIds reason
  let (p, effects) ← p.afterAdmissionClosed
  .ok (p, escalations ++ effects)

def haltForTokenBudget (p : Processor) (reason : String) : Turn :=
  p.haltFor .cohortTokenBudget reason

def haltForCohortBudget (p : Processor) (reason : String) : Turn :=
  p.haltFor .cohortMaxAge reason

def cohortBudgetChecked (p : Processor) (next : ModelCall) (nowSecs : Nat) : Turn := do
  let limit ← orError p.config.cohortBudgetSecs
    (.invalidCommand "received cohort-budget check while COHORT_BUDGET_SEC is disabled")
  let batch ← orError p.state.batch
    (.invalidCommand "cohort-budget check requires an active cohort")
  require (batch.cohortBudgetSecs = some limit) (.corruptCheckpoint
    "active cohort wall-clock budget snapshot differs from processor configuration")
  let elapsed := nowSecs - batch.startedAtSecs
  if limit ≤ elapsed then
    p.haltForCohortBudget s!"COHORT_BUDGET_SEC elapsed={elapsed} limit={limit}"
  else
    .ok (p, [if p.config.cohortTokenBudget.isSome then .checkTokenBudget next else next.intoEffect])

def tokenBudgetChecked (p : Processor) (next : ModelCall) (observation : TokenBudgetObservation) :
    Turn := do
  let limit ← orError p.config.cohortTokenBudget
    (.invalidCommand "received token-budget check while COHORT_TOKEN_BUDGET is disabled")
  let batch ← orError p.state.batch
    (.invalidCommand "token-budget check requires an active cohort")
  require (batch.cohortTokenBudget = some limit) (.corruptCheckpoint
    "active cohort token-budget snapshot differs from processor configuration")
  match observation with
  | .actual tokens =>
    let p := p.withBatch (some { batch with tokenBudgetActualTokens := some tokens })
    if tokens < limit then .ok (p, [next.intoEffect])
    else p.haltForTokenBudget s!"COHORT_TOKEN_BUDGET actual={tokens} limit={limit}"
  | .unavailable =>
    let p := p.withBatch (some { batch with tokenBudgetActualTokens := none })
    p.haltForTokenBudget "COHORT_TOKEN_BUDGET telemetry-unavailable"

def pause (p : Processor) : Turn :=
  if p.state.phase = .paused then .ok (p, [.waitForOperator "PAUSE is already active"])
  else
    .ok ({ p with state := { p.state with pausedFrom := some p.state.phase, phase := .paused } },
      [.writeJournalAndStatus])

def resume (p : Processor) : Turn := do
  require (p.state.phase = .paused) (.invalidCommand "resume requires PAUSE")
  let phase := p.state.pausedFrom.getD .recovery
  let p := { p with state := { p.state with pausedFrom := none, phase := phase } }
  match phase with
  | .rolling => .ok (p, [p.rollingBoundaryEffect])
  | .joining => p.nextMergeOrReview
  | .publishing => do
    let (p, effect) ← p.publishingResumeEffect
    .ok (p, [effect])
  | .cleaning | .recovery | .opening | .idle | .paused | .blocked =>
    .ok (p, [.writeJournalAndStatus])

end Processor

end Orchestrail
