import Orchestrail.Spec.IntegrationTurns

/-!
# Cleaning turns

Phases 5.5 and 6: knowledge curation, the archive preflight with its CI reconfirmation, the end of
the cohort, and the acknowledgement of effects that answer with no command.
-/

namespace Orchestrail

open Table Text

/-- The ids of the tasks in one phase. -/
def ProcessorState.idsInPhase (state : ProcessorState) (phase : TaskPhase) : StringSet :=
  (((vals state.tasks).filter (·.phase = phase)).map (·.id)).foldl (·.insert ·) ∅

namespace Processor

/-- The findings fixed in the published tasks; each merged task must be published. -/
def countFixedFindings (p : Processor) : List String → Nat → Checked Nat
  | [], total => .ok total
  | taskId :: rest, total => do
    let task ← p.taskMut taskId
    expectTaskPhase task .published "knowledge curation"
    p.countFixedFindings rest (satAdd total (toU32 task.reviewSignatures.length))

def currentKnowledgeCurationRetry (p : Processor) : Checked (String × PendingKnowledgeCuration) := do
  let batch ← orError p.state.batch
    (.invalidCommand "knowledge curation retry requires an active batch")
  validateBatchId batch.id
  validateRef batch.base "knowledge curation base"
  let integration := p.state.integration
  let head ← orError integration.publishedHead
    (.invalidCommand "knowledge curation retry requires a published head")
  validateRef head "knowledge curation published head"
  let fixedTaskFindings ← p.countFixedFindings (elems integration.mergedTasks) 0
  .ok (batch.id,
    { base := batch.base
      publishedHead := head
      mergedTasks := integration.mergedTasks
      fixedTaskFindings := fixedTaskFindings
      integrationOrCiSignatures := toU32 integration.signatures.length
      ciFailureCycles := integration.ciCycles
      quarantinedTasks := p.state.idsInPhase .conflict
      escalatedTasks := p.state.idsInPhase .escalated
      degradations := toU32 integration.degradations.length })

def withCurations (p : Processor) (curations : StringMap PendingKnowledgeCuration) : Processor :=
  p.withIntegration { p.state.integration with pendingKnowledgeCurations := curations }

def knowledgeCurated (p : Processor) (outcome : LeafOutcome) : Turn := do
  p.requirePhase .cleaning "knowledge curation"
  let (batchId, pending) ← p.currentKnowledgeCurationRetry
  let note := match outcome with
    | .completed _ => none
    | .retryableFailure reason | .escalated reason => some s!"knowledge curation failed: {reason}"
    | .riskElevated _ risk _ =>
      some s!"knowledge curator reported unsupported task risk elevation {risk.asStr}"
    | .completedWithWontFix .. =>
      some "knowledge curator reported unsupported fix-cycle won't-fix metadata"
  match note with
  | none =>
    let p := p.withCurations ∅
    .ok (p, p.cleanupEffects)
  | some note =>
    let pending := { pending with degradations := satAdd pending.degradations 1 }
    let p := (p.withIntegration
      { p.state.integration with degradations := p.state.integration.degradations ++ [note] })
    let p := p.withCurations (p.state.integration.pendingKnowledgeCurations.insert batchId pending)
    .ok (p, p.cleanupEffects)

def knowledgeCurationPrepared (p : Processor) (outcome : KnowledgeCurationPreparationOutcome) :
    Turn := do
  p.requirePhase .cleaning "knowledge curation preflight"
  let _ ← p.currentKnowledgeCurationRetry
  match outcome with
  | .required =>
    let (p, effect) := p.dispatchIntegration .knowledgeCurator
    .ok (p, [effect])
  | .alreadyCompleted =>
    let p := p.withCurations ∅
    .ok (p, p.cleanupEffects)
  | .skipped => .ok (p, p.cleanupEffects)

/-- Every member of the merged set is published, or done after a terminal recovery. -/
def requireArchivable (p : Processor) : List String → Checked Unit :=
  checkAll fun taskId => do
    let task ← p.taskMut taskId
    require (task.phase = .published ∨ task.phase = .done) (.invalidCommand
      s!"archive preflight requires {task.id} to be published or terminal-recovery done, found {task.phase.debug}")

/-- A published archive cohort carries its head and its terminal publication and CI results. -/
def requirePublicationContext (integration : IntegrationRuntime) : Checked Unit :=
  if integration.mergedTasks.isEmpty then .ok ()
  else do
    let head ← orError integration.publishedHead
      (.invalidCommand "published archive cohort requires an exact head")
    validateRef head "archive preflight published head"
    require (integration.publicationPushed ≠ none ∧ integration.ciDisposition ≠ none)
      (.invalidCommand "published archive cohort lacks its terminal publication/CI disposition")

def archivalPrepared (p : Processor) (outcome : ArchivalPreparationOutcome) : Turn := do
  p.requirePhase .cleaning "archive preflight"
  let integration := p.state.integration
  require (integration.cleanupJournaled = true)
    (.invalidCommand "archive preflight requires the Phase-6 journal acknowledgement")
  let batch ← orError p.state.batch
    (.invalidCommand "archive preflight requires an active batch")
  validateBatchId batch.id
  validateRef batch.base "archive preflight base"
  requireNone p.taskList (·.phase = .merged) fun task =>
    .invalidCommand s!"cannot prepare archive while {task.id} is merged but not published"
  p.requireArchivable (elems integration.mergedTasks)
  requireNone p.taskList
    (fun task => task.phase = .published ∧ task.id ∉ integration.mergedTasks) fun task =>
    .invalidCommand s!"published task {task.id} is absent from the archive cohort"
  requirePublicationContext integration
  require (integration.archiveCiGate = none)
    (.invalidCommand "archive preflight was already completed for this published head")
  match outcome with
  | .skipped =>
    let p := p.withIntegration { integration with archiveCiGate := some .skipped }
    .ok (p, p.cleanupEffects)
  | .reconfirmRequired requiredChecks => do
    validateRequiredCiCheckNames requiredChecks
    require (integration.publicationPushed = some true ∧
        integration.ciDisposition = some .confirmed)
      (.invalidCommand "required archive CI reconfirmation needs a remotely published head with confirmed Phase-5.4 CI")
    let head ← orError integration.publishedHead
      (.invalidCommand "archive CI reconfirmation requires a published head")
    validateRef head "archive CI head"
    .ok (p, [.reconfirmCiBeforeArchive head requiredChecks])

def validateReconfirmation : CiOutcome → Checked Unit
  | .requiredUnconfirmed reason => validateCiObservationReason reason
  | .failed signature _ => validateSignature signature
  | .passed => .ok ()
  | .localOnly | .disabled | .bestEffortDegraded _ =>
    .error (.invalidCommand "required archive CI reconfirmation returned a non-required disposition")

def archiveCiReconfirmed (p : Processor) (head : String) (outcome : CiOutcome) : Turn := do
  p.requirePhase .cleaning "archive CI reconfirmation"
  let integration := p.state.integration
  let publishedHead ← orError integration.publishedHead
    (.invalidCommand "archive CI result arrived without a durable published head")
  validateRef head "archive CI result head"
  require (head = publishedHead)
    (.invalidCommand s!"archive CI result names stale head {head}, expected {publishedHead}")
  require (integration.archiveCiGate = none)
    (.invalidCommand "archive CI gate was already completed for this published head")
  require (integration.cleanupJournaled = true ∧ integration.publicationPushed = some true ∧
      integration.ciDisposition = some .confirmed)
    (.invalidCommand "archive CI result requires a journaled remotely published head with confirmed Phase-5.4 CI")
  validateReconfirmation outcome
  let attempted :=
    { integration with
      archiveCiWaitAttempts := satAdd integration.archiveCiWaitAttempts 1 }
  let reopened := (p.withIntegration { attempted with cleanupJournaled := false }).withPhase
    .publishing
  match outcome with
  | .passed =>
    let p := p.withIntegration { attempted with archiveCiGate := some .confirmed }
    .ok (p, p.cleanupEffects)
  | .requiredUnconfirmed reason => reopened.ciVerified (.requiredUnconfirmed reason)
  | .failed signature reason => reopened.ciVerified (.failed signature reason)
  | .localOnly | .disabled | .bestEffortDegraded _ =>
    .error (.invalidCommand "required archive CI reconfirmation returned a non-required disposition")

/-- The end of the cohort, or the dependency refresh that must come before it. -/
def cleanupComplete (p : Processor) : Turn := do
  p.requirePhase .cleaning "cleanup"
  requireNone p.taskList (·.phase = .merged) fun task =>
    .invalidCommand s!"cannot clean batch while {task.id} is merged but not published"
  require (p.state.integration.archiveCiGate ≠ none)
    (.invalidCommand "cannot complete cleanup before the archive CI preflight")
  if p.state.integration.dependencyGraphRefreshedPostArchive = false then
    .ok (p, [.dispatchDependencyCurator .postArchive])
  else
    let tasks := p.state.tasks.map fun _ task =>
      if task.phase = .published then { task with phase := .done } else task
    let integration : IntegrationRuntime :=
      { pendingKnowledgeCurations := p.state.integration.pendingKnowledgeCurations }
    .ok ((((p.withTasks tasks).withPhase .idle).withBatch none).withIntegration integration,
      [.writeJournalAndStatus, .releaseLease])

/-- Retire recovery-only metadata after a non-command effect has completed. -/
def acknowledgeNonCommandEffect (p : Processor) (effect : Effect) : Checked Processor :=
  match effect with
  | .writeJournalAndStatus =>
    if p.state.phase = .cleaning then
      .ok (p.withIntegration { p.state.integration with cleanupJournaled := true })
    else .ok p
  | .returnTask taskId _ => do
    let task ← p.taskMut taskId
    if task.importedRecoveryIntent = some .returnConflictToQueue then do
      require (task.phase = .conflict) (.corruptCheckpoint
        s!"legacy conflict return for {taskId} was acknowledged from {task.phase.debug}")
      .ok (p.withTask taskId { task with importedRecoveryIntent := none })
    else .ok p
  | _ => .ok p

end Processor

end Orchestrail
