import Orchestrail.Spec.CleaningTurns
import Orchestrail.Spec.CohortTurns

/-!
# Restart

`Processor::new`, `Processor::from_checkpoint` with every check it makes of a stored state, and the
Phase-0 turn `recover`: one pass over the tasks in id order, then the phase to return to and the
effects that resume it.
-/

namespace Orchestrail

open Table Text

def ProcessorConfig.validate (config : ProcessorConfig) : Checked Unit := do
  require (config.maxParallel ≠ 0) (.invalidConfig "MAX_PARALLEL must be at least 1")
  require (config.cohortSize ≠ 0) (.invalidConfig "COHORT_SIZE must be at least 1")
  require (config.cohortMaxAgeMinutes ≠ 0)
    (.invalidConfig "COHORT_MAX_AGE must be at least one minute")
  require (2 ≤ config.stagnationLimit) (.invalidConfig "STAGNATION_LIMIT must be at least 2")
  require (config.reviewLoopMax ≠ 0 ∧ config.integrationLoopMax ≠ 0 ∧ config.ciFixMax ≠ 0 ∧
      config.leafMaxAttempts ≠ 0)
    (.invalidConfig "review, integration, CI, and leaf-attempt limits must be at least 1")

namespace ProcessorState

def corrupt (message : String) : ProcessorError := .corruptCheckpoint message

/-- A stored optional reference, if there is one, is a valid reference. -/
def checkCoordinate (context label : String) : Option String → Checked Unit
  | some coordinate => orCorrupt context (validateRef coordinate label)
  | none => .ok ()

def checkBatch (batch : CohortRuntime) : Checked Unit := do
  orCorrupt s!"invalid active batch id {quoted batch.id}: " (validateBatchId batch.id)
  orCorrupt s!"invalid active batch {batch.id}: " (validateRef batch.base "active batch base")
  require (batch.wave ≠ 0) (corrupt s!"active batch {batch.id} has zero wave")

def checkTask (entry : String × TaskRuntime) : Checked Unit := do
  let (storedId, task) := entry
  orCorrupt s!"invalid task map key {quoted storedId}: " (validateTaskId storedId)
  orCorrupt s!"invalid task id {quoted task.id}: " (validateTaskId task.id)
  require (storedId = task.id)
    (corrupt s!"task map key {quoted storedId} does not match embedded id {quoted task.id}")
  require (task.wave ≠ 0) (corrupt s!"task {task.id} has zero admission wave")
  require (isBlank task.conflictDomain = false)
    (corrupt s!"task {task.id} has an empty conflict domain")
  checkCoordinate s!"invalid previous review coordinate for {task.id}: " "previous review"
    task.previousReviewSha
  checkCoordinate s!"invalid review coordinate for {task.id}: " "review" task.reviewSha

def checkMerged (state : ProcessorState) (taskId : String) : Checked Unit := do
  orCorrupt s!"invalid merged task id {quoted taskId}: " (validateTaskId taskId)
  require (taskId ∈ state.tasks) (corrupt s!"merged task set references missing task {taskId}")

def checkPendingMerge (state : ProcessorState) (pending : MergeResolutionRuntime) :
    Checked Unit := do
  orCorrupt s!"invalid pending merge task {quoted pending.taskId}: " (validateTaskId pending.taskId)
  orCorrupt s!"invalid pending merge for {pending.taskId}: "
    (validateRef pending.preMergeHead "pending merge base")
  let task ← orError state.tasks[pending.taskId]?
    (corrupt s!"pending merge references missing task {pending.taskId}")
  require (task.phase = .resolvingMerge)
    (corrupt s!"pending merge task {pending.taskId} is {task.phase.debug}, not ResolvingMerge")

def checkSafetySnapshot (config : ProcessorConfig) (batch : CohortRuntime) : Checked Unit :=
  require (batch.cohortBudgetSecs = config.cohortBudgetSecs ∧
      batch.cohortTokenBudget = config.cohortTokenBudget ∧
      batch.cohortTokenBudgetStrict = config.cohortTokenBudgetStrict ∧
      batch.eventsOutboxEnabled = config.eventsOutboxEnabled)
    (corrupt
      "processor configuration affecting cohort safety differs from the active cohort snapshot")

def checkCuration (entry : String × PendingKnowledgeCuration) : Checked Unit := do
  let (batchId, pending) := entry
  orCorrupt s!"invalid deferred knowledge batch {quoted batchId}: " (validateBatchId batchId)
  orCorrupt s!"invalid deferred knowledge batch {batchId}: "
    (validateRef pending.base "deferred knowledge base")
  orCorrupt s!"invalid deferred knowledge batch {batchId}: "
    (validateRef pending.publishedHead "deferred knowledge head")
  checkAll (fun taskId =>
      orCorrupt s!"invalid deferred knowledge task {quoted taskId} in {batchId}: "
        (validateTaskId taskId))
    (elems pending.mergedTasks ++ elems pending.quarantinedTasks ++ elems pending.escalatedTasks)

/-- The archive boundary a stored gate belongs to: an active, journaled phase 6. -/
def inCleaning (state : ProcessorState) : Prop :=
  (state.phase = .cleaning ∨ state.phase = .paused ∧ state.pausedFrom = some .cleaning) ∧
    state.batch ≠ none ∧ state.integration.cleanupJournaled = true

instance (state : ProcessorState) : Decidable state.inCleaning := by
  unfold inCleaning; infer_instance

def checkGatedTask (state : ProcessorState) (taskId : String) : Checked Unit := do
  let task ← orError state.tasks[taskId]?
    (corrupt s!"archive CI gate references missing task {taskId}")
  require (task.phase = .published)
    (corrupt s!"archive CI gate references {taskId} in {task.phase.debug}, not Published")

/-- What a stored archive gate must come with. -/
def checkGate (state : ProcessorState) (gate : ArchiveCiGate) : Checked Unit := do
  let integration := state.integration
  require state.inCleaning
    (corrupt "archive CI gate exists outside a journaled active cleaning boundary")
  require ((vals state.tasks).any (·.phase = .merged) = false)
    (corrupt "archive CI gate exists while merged work is still unpublished")
  checkAll state.checkGatedTask (elems integration.mergedTasks)
  requireNone (vals state.tasks)
    (fun task => task.phase = .published ∧ task.id ∉ integration.mergedTasks)
    fun task => corrupt s!"archive CI gate omits published task {task.id}"
  require (integration.mergedTasks.isEmpty = true ∨ (integration.publishedHead ≠ none ∧
      integration.publicationPushed ≠ none ∧ integration.ciDisposition ≠ none))
    (corrupt "archive CI gate lacks its terminal publication context")
  require (gate = .confirmed → integration.publicationPushed = some true ∧
      integration.ciDisposition = some .confirmed ∧ integration.publishedHead ≠ none)
    (corrupt "confirmed archive CI gate lacks its exact remote publication evidence")
  if gate = .confirmed then
    orCorrupt "invalid confirmed archive CI evidence: "
      (validateRef (integration.publishedHead.getD "") "confirmed archive CI head")

/-- Every check `from_checkpoint` makes, in order. -/
def check (config : ProcessorConfig) (state : ProcessorState) : Checked Unit := do
  let integration := state.integration
  require (state.schemaVersion = processorStateVersion)
    (corrupt s!"unsupported processor checkpoint version {state.schemaVersion}")
  checkAll checkBatch state.batch.toList
  checkAll checkTask state.tasks.toList
  checkCoordinate "invalid integration coordinate: " "integration" integration.integrationHead
  checkCoordinate "invalid integration review coordinate: " "integration review"
    integration.reviewSha
  checkCoordinate "invalid integration verification coordinate: " "integration verification"
    integration.verificationHead
  checkCoordinate "invalid publication coordinate: " "publication" integration.publishedHead
  checkAll state.checkMerged (elems integration.mergedTasks)
  checkAll state.checkPendingMerge integration.pendingMergeResolution.toList
  checkAll (checkSafetySnapshot config) state.batch.toList
  checkAll checkCuration integration.pendingKnowledgeCurations.toList
  checkAll state.checkGate integration.archiveCiGate.toList

end ProcessorState

namespace Processor

def new (config : ProcessorConfig) : Checked Processor := do
  config.validate
  .ok { config := config, state := {} }

/-- Restore a stored state behind the recovery gate. -/
def fromCheckpoint (config : ProcessorConfig) (state : ProcessorState) : Checked Processor := do
  config.validate
  state.check config
  .ok
    { config := config
      state := { state with phase := .recovery }
      recoveryTarget := some state.phase }

/-- What Phase 0 makes of one task: keep it with some effects, or stop for an operator. -/
inductive TaskRecovery where
  | keep (task : TaskRuntime) (effects : List Effect)
  | hold (reason : String)

def taskWorkspace (task : TaskRuntime) : Effect := .ensureTaskWorkspace task.id s!"task/{task.id}"

/-- The continuation of a legacy import, consumed by Phase 0. -/
def recoverImported (present : Bool) (task : TaskRuntime) : ImportedRecoveryIntent → Checked TaskRecovery
  | .ensureWorkspace => do
    require (task.phase = .capturing) (.corruptCheckpoint
      s!"legacy recovery intent for {task.id} requires Capturing, found {task.phase.debug}")
    .ok (.keep task [taskWorkspace task])
  | .ensureWorkspaceForReview => do
    require (task.phase = .reviewing) (.corruptCheckpoint
      s!"legacy recovery intent for {task.id} requires Reviewing, found {task.phase.debug}")
    .ok (.keep task [taskWorkspace task])
  | .dispatchImplementation =>
    if task.phase ≠ .implementing ∨ ¬present then
      .ok (.hold s!"recovery: imported implementation {task.id} has no verified managed workspace")
    else
      .ok (.keep ({ task with importedRecoveryIntent := none }.leafAttempt .implement)
        [.prepareTaskLeaf task.id .implement])
  | .dispatchReview =>
    if task.phase ≠ .reviewing ∨ ¬present then
      .ok (.hold s!"recovery: imported review {task.id} has no verified managed workspace")
    else
      .ok (.keep ({ task with importedRecoveryIntent := none }.leafAttempt .review)
        [.prepareTaskReview task.id])
  | .returnConflictToQueue => do
    require (task.phase = .conflict) (.corruptCheckpoint
      s!"legacy recovery intent for {task.id} requires Conflict, found {task.phase.debug}")
    let reason ← orError task.reason
      (.corruptCheckpoint s!"legacy conflict {task.id} has no quarantine reason")
    .ok (.keep task [.returnTask task.id reason])

def recoverTask (workspacesPresent : StringSet) (task : TaskRuntime) : Checked TaskRecovery :=
  let present := workspacesPresent.contains task.id
  match task.importedRecoveryIntent with
  | some intent => recoverImported present task intent
  | none =>
    if task.phase.isActive ∧ ¬present then
      .ok (.hold s!"recovery: active task {task.id} has no verified managed workspace")
    else if task.phase ≠ .done ∧ task.phase ≠ .conflict ∧ task.phase ≠ .escalated ∧ present then
      .ok (.keep task [.reconcile task.id])
    else .ok (.keep task [])

/-- The pass over the tasks: their new entries and effects so far, and the reason of the first
task that must wait for an operator. -/
def recoverTasks (workspacesPresent : StringSet) :
    List (String × TaskRuntime) → StringMap TaskRuntime → List Effect →
      Checked (StringMap TaskRuntime × List Effect × Option String)
  | [], tasks, effects => .ok (tasks, effects, none)
  | (id, task) :: rest, tasks, effects => do
    match ← recoverTask workspacesPresent task with
    | .hold reason => .ok (tasks, effects, some reason)
    | .keep task more => recoverTasks workspacesPresent rest (tasks.insert id task) (effects ++ more)

def pushUniqueEffect (effects : List Effect) (effect : Effect) : List Effect :=
  if effects.contains effect then effects else effects ++ [effect]

/-- The cleanup sequence with the recovery work it does not contain, after the journal. -/
def orderCleanup (cleanup effects : List Effect) : List Effect :=
  let (journal, rest) : List Effect × List Effect := match cleanup with
    | .writeJournalAndStatus :: rest => ([.writeJournalAndStatus], rest)
    | cleanup => ([], cleanup)
  rest.foldl pushUniqueEffect
    ((effects.filter fun effect => !cleanup.contains effect).foldl pushUniqueEffect journal)

/-- The phase Phase 0 returns to. -/
def recoveredPhase (p : Processor) (target : Option Phase) : Phase :=
  if p.state.batch = none then .idle
  else if target = some .paused then .paused
  else if target = some .cleaning then .cleaning
  else if target = some .publishing then
    -- a proved integration whose checkout was lost is rebuilt before it is reviewed
    if p.state.integration.importedWorkspaceRestorePending then .joining else .publishing
  else if p.state.integration.workspacePrepared ∨ p.tasksReadyToMerge ≠ [] then .joining
  else .rolling

/-- The effects of a recovery whose tasks asked for none. -/
def resumePhase (p : Processor) : Turn :=
  match p.state.phase with
  | .rolling => .ok (p, [p.rollingBoundaryEffect])
  | .joining => p.nextMergeOrReview
  | .publishing => do
    let (p, effect) ← p.publishingResumeEffect
    .ok (p, [effect])
  | _ => .ok (p, [.writeJournalAndStatus])

def recover (p : Processor) (workspacesPresent : StringSet) : Turn := do
  require (p.state.phase = .recovery)
    (.invalidCommand "recovery is allowed only in phase 0")
  if p.recoveryTarget = some .blocked then
    .ok ({ p.withPhase .blocked with recoveryTarget := none },
      [.waitForOperator (p.state.blockedReason.getD "processor is blocked")])
  else do
    let (tasks, effects, hold) ←
      recoverTasks workspacesPresent p.state.tasks.toList p.state.tasks []
    let scanned := p.withTasks tasks
    match hold with
    | some reason => .ok (scanned.blocked reason, [.waitForOperator reason])
    | none =>
      let target := p.recoveryTarget
      let restore := decide (target = some .publishing) &&
        scanned.state.integration.importedWorkspaceRestorePending
      let p := { scanned.withPhase (scanned.recoveredPhase target) with recoveryTarget := none }
      if p.state.phase = .cleaning then .ok (p, orderCleanup p.cleanupEffects effects)
      else if restore then do
        let (p, more) ← p.nextMergeOrReview
        .ok (p, effects ++ more)
      else if effects = [] then p.resumePhase
      else if p.state.phase = .publishing then do
        let (p, effect) ← p.publishingResumeEffect
        .ok (p, effects ++ [effect])
      else .ok (p, effects)

end Processor

end Orchestrail
