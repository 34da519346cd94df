import Orchestrail.Spec.Cycles
import Orchestrail.Spec.Validate

/-!
# Queries and boundaries shared by the reducer

What every transition of `processor.rs` reads (active and ready tasks, free slots, the branch of
the integration), the elementary updates of the state, and the boundaries several transitions end
at: closing admission, the next merge, the cleanup sequence, the resumption of phase 5.
-/

namespace Orchestrail

open Table

/-- The result of one reducer function: the successor and the effects it asks for. -/
abbrev Turn := Checked (Processor × List Effect)

namespace Processor

def withPhase (p : Processor) (phase : Phase) : Processor :=
  { p with state := { p.state with phase := phase } }

def withIntegration (p : Processor) (integration : IntegrationRuntime) : Processor :=
  { p with state := { p.state with integration := integration } }

def withTasks (p : Processor) (tasks : StringMap TaskRuntime) : Processor :=
  { p with state := { p.state with tasks := tasks } }

def withTask (p : Processor) (id : String) (task : TaskRuntime) : Processor :=
  p.withTasks (p.state.tasks.insert id task)

def withBatch (p : Processor) (batch : Option CohortRuntime) : Processor :=
  { p with state := { p.state with batch := batch } }

/-- Stop in `Blocked` with a durable reason. -/
def blocked (p : Processor) (reason : String) : Processor :=
  { p with state := { p.state with phase := .blocked, blockedReason := some reason } }

def requirePhase (p : Processor) (expected : Phase) (operation : String) : Checked Unit :=
  require (p.state.phase = expected)
    (.invalidCommand
      s!"{operation} requires {expected.debug}, current phase is {p.state.phase.debug}")

/-- The entry of a task (`task_mut`). -/
def taskMut (p : Processor) (id : String) : Checked TaskRuntime :=
  orError p.state.tasks[id]? (.missingTask id)

def batchId (p : Processor) : Checked String :=
  orError (p.state.batch.map (·.id)) (.invalidCommand "active cohort is missing")

def taskList (p : Processor) : List TaskRuntime := vals p.state.tasks

def anyActive (p : Processor) : Bool := p.taskList.any (·.phase.isActive)

/-- The tasks waiting for their merge, in id order (`tasks_ready_to_merge`). -/
def tasksReadyToMerge (p : Processor) : List TaskRuntime :=
  p.taskList.filter (·.phase = .ready)

def freeSlots (p : Processor) : Nat :=
  p.config.maxParallel - (p.taskList.filter (·.phase.isActive)).length

def activeTasks (p : Processor) : List ActiveTask :=
  p.taskList.filterMap fun task =>
    task.phase.blocksAdmission.map fun cls => ⟨Domain.parse task.conflictDomain, cls⟩

def closeAdmission (p : Processor) (reason : CloseReason) : Processor :=
  p.withBatch (p.state.batch.map fun batch => { batch with admissionClosed := some reason.toWire })

def closeForBudgetIfNeeded (p : Processor) (nowSecs : Nat) : Processor :=
  match p.state.batch with
  | none => p
  | some batch =>
    if batch.admissionClosed.isSome then p
    else
      let elapsed := nowSecs - batch.startedAtSecs
      match admissionGate ⟨batch.admittedTotal, elapsed / 60, elapsed⟩
          ⟨p.config.cohortSize.toNat, p.config.cohortMaxAgeMinutes, p.config.cohortBudgetSecs⟩ with
      | some reason => p.closeAdmission reason
      | none => p

def integrationBranch (p : Processor) : Checked String := do
  let id ← p.batchId
  .ok s!"integration/{id}"

/-- Reserve the attempt of an integration leaf before its effect is exposed. -/
def dispatchIntegration (p : Processor) (kind : LeafKind) : Processor × Effect :=
  (p.withIntegration (p.state.integration.leafAttempt kind), .dispatchIntegration kind)

/-- The cleanup of one task in phase 6. -/
def cleanupOf (task : TaskRuntime) : List Effect :=
  match task.phase with
  | .published | .done => [.archiveTask task.id, .cleanupTaskWorkspace task.id]
  | .conflict | .escalated => [.cleanupTaskWorkspace task.id]
  | _ => []

/-- Journal first; nothing is deleted before the archive gate. -/
def cleanupEffects (p : Processor) : List Effect :=
  let journal : List Effect :=
    if p.state.integration.cleanupJournaled then [] else [.writeJournalAndStatus]
  if p.state.integration.archiveCiGate.isNone then journal ++ [.prepareArchival]
  else journal ++ p.taskList.flatMap cleanupOf ++
    [.cleanupIntegrationWorkspace, .cleanupCohortControlPlane]

def afterAdmissionClosed (p : Processor) : Turn :=
  if p.anyActive then .ok (p, [])
  else if p.tasksReadyToMerge ≠ [] then do
    let branch ← p.integrationBranch
    .ok (p.withPhase .joining, [.prepareIntegrationWorkspace branch])
  else
    let cleaning := p.withPhase .cleaning
    .ok (cleaning, cleaning.cleanupEffects)

/-- The next step of phase 4: prepare, resolve, merge, or leave for phase 5 or 6. -/
def nextMergeOrReview (p : Processor) : Turn :=
  if ¬p.state.integration.workspacePrepared then do
    let branch ← p.integrationBranch
    .ok (p, [.prepareIntegrationWorkspace branch])
  else if p.state.integration.pendingMergeResolution.isSome then
    let (p, effect) := p.dispatchIntegration .merger
    .ok (p, [effect])
  else match p.tasksReadyToMerge with
    | task :: _ => .ok (p, [.mergeTask task.id])
    | [] =>
      if p.state.integration.mergedTasks.isEmpty then
        .ok (p.withPhase .cleaning, [.writeJournalAndStatus])
      else
        let (p, effect) := (p.withPhase .publishing).dispatchIntegration .integrationReview
        .ok (p, [effect])

def failIntegration (p : Processor) (reason : String) : Turn :=
  let hold := s!"integration failed: {reason}"
  let p := p.withIntegration { p.state.integration with failedReason := some reason }
  .ok (p.blocked hold, [.writeJournalAndStatus, .waitForOperator hold])

/-- Resume phase 5 from durable evidence only. -/
def publishingResumeEffect (p : Processor) : Checked (Processor × Effect) :=
  let integration := p.state.integration
  if integration.publicationReanchorReason.isSome then do
    let id ← p.batchId
    .ok (p, .reanchorPublication id)
  else match integration.publishedHead with
    | some head => .ok (p, .verifyCi head)
    | none =>
      if integration.integrationHead.isSome ∧
          integration.integrationHead = integration.verificationHead then do
        let id ← p.batchId
        .ok (p, .publish id)
      else if p.config.integrationLoopMax.toNat ≤ integration.fCycles then
        let reason := s!"не сходится ревью после {integration.fCycles} циклов"
        .ok (p.blocked s!"integration review failed: {reason}", .waitForOperator reason)
      else .ok (p.dispatchIntegration .integrationReview)

/-- Escalate every task of the list: the phase, the reason, and the effect. -/
def escalateEach (p : Processor) (ids : List String) (reason : String) : Turn := do
  let tasks ← updateEach .missingTask
    (fun _ task => .ok { task with phase := .escalated, reason := some reason }) ids p.state.tasks
  .ok (p.withTasks tasks, ids.map fun id => .escalateTask id reason)

/-- Escalate one task. -/
def escalate (p : Processor) (taskId : String) (task : TaskRuntime) (reason : String) :
    Processor × List Effect :=
  (p.withTask taskId { task with phase := .escalated, reason := some reason },
    [.escalateTask taskId reason])

def expectTaskPhase (task : TaskRuntime) (expected : TaskPhase) (operation : String) :
    Checked Unit :=
  require (task.phase = expected) (.unexpectedTaskPhase task.id operation task.phase)

end Processor

end Orchestrail
