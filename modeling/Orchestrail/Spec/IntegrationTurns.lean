import Orchestrail.Spec.Progress

/-!
# Integration turns

Phases 4 and 5: the merge of each ready task with its conflict resolution, the integration review
and its fixes, the final verification, publication with its re-anchor, and CI with its repair.
-/

namespace Orchestrail

open Table Text

namespace Processor

def integrationWorkspaceReady (p : Processor) : Turn := do
  p.requirePhase .joining "integration workspace"
  (p.withIntegration
    { p.state.integration with
      workspacePrepared := true, importedWorkspaceRestorePending := false }).nextMergeOrReview

def recordMergedTask (p : Processor) (taskId integrationSha : String) : Turn := do
  validateRef integrationSha "integration SHA"
  let task ← p.taskMut taskId
  let p := p.withTask taskId { task with phase := .merged, reviewSha := some integrationSha }
  (p.withIntegration
    { p.state.integration with
      integrationHead := some integrationSha
      verificationHead := none
      mergedTasks := p.state.integration.mergedTasks.insert taskId }).nextMergeOrReview

def quarantineMergedTask (p : Processor) (taskId reason : String) : Turn := do
  let task ← p.taskMut taskId
  let p := p.withTask taskId { task with phase := .conflict, reason := some reason }
  let (p, effects) ← p.nextMergeOrReview
  .ok (p, .returnTask taskId reason :: effects)

def taskMerged (p : Processor) (taskId : String) (outcome : MergeOutcome) : Turn := do
  p.requirePhase .joining "merger result"
  let task ← p.taskMut taskId
  expectTaskPhase task .ready "merger result"
  match outcome with
  | .merged integrationSha => p.recordMergedTask taskId integrationSha
  | .needsResolution preMergeHead mergePaths paths protectedPaths => do
    validateRef preMergeHead "pre-merge integration SHA"
    validateMergeConflictPaths mergePaths
    validateMergeConflictPaths paths
    require (∀ path ∈ paths, path ∈ mergePaths)
      (.invalidCommand "merge conflict paths are not contained in the typed merge surface")
    validateMergeProtectedPaths mergePaths paths protectedPaths
    let expected ← orError (p.state.integration.integrationHead <|> p.state.batch.map (·.base))
      (.invalidCommand "merge conflict has no durable cohort base")
    require (expected = preMergeHead) (.invalidCommand
      s!"merge conflict pre-merge SHA {quoted preMergeHead} differs from durable integration tip {quoted expected}")
    require (p.state.integration.pendingMergeResolution = none)
      (.invalidCommand "another merge resolution is already pending")
    let p := p.withTask taskId { task with phase := .resolvingMerge }
    let p := p.withIntegration
      { p.state.integration with
        pendingMergeResolution := some ⟨taskId, preMergeHead, mergePaths, paths, protectedPaths⟩ }
    let (p, effect) := p.dispatchIntegration .merger
    .ok (p, [effect])
  | .quarantined reason => p.quarantineMergedTask taskId reason
  | .failed reason =>
    p.failIntegration s!"merger did not produce a reliable result for {taskId}: {reason}"

/-- The pending merge resolution is the one of this task. -/
def requirePendingMergeResolution (p : Processor) (taskId : String) : Checked Unit := do
  let pending ← orError p.state.integration.pendingMergeResolution
    (.invalidCommand "no merge resolution is pending")
  require (pending.taskId = taskId) (.invalidCommand
    s!"merge resolution for {taskId} does not match pending task {pending.taskId}")

def mergeResolution (p : Processor) (taskId : String) (outcome : LeafOutcome) : Turn := do
  p.requirePhase .joining "merge resolution"
  p.requirePendingMergeResolution taskId
  let task ← p.taskMut taskId
  expectTaskPhase task .resolvingMerge "merge resolution"
  match outcome with
  | .completed _ => .ok (p, [.finalizeMergeResolution taskId])
  | .retryableFailure reason | .escalated reason =>
    .ok (p, [.abortMergeResolution taskId s!"merger could not resolve conflict: {reason}"])
  | .riskElevated _ risk _ =>
    .ok (p, [.abortMergeResolution taskId
      s!"merger reported unsupported task risk elevation {risk.asStr}"])
  | .completedWithWontFix .. =>
    .ok (p, [.abortMergeResolution taskId
      "merger reported unsupported fix-cycle won't-fix metadata"])

def mergeResolutionFinalized (p : Processor) (taskId : String) (outcome : MergeOutcome) : Turn := do
  p.requirePhase .joining "resolved merger result"
  p.requirePendingMergeResolution taskId
  let task ← p.taskMut taskId
  expectTaskPhase task .resolvingMerge "resolved merger result"
  let settled := p.withIntegration { p.state.integration with pendingMergeResolution := none }
  match outcome with
  | .merged integrationSha => settled.recordMergedTask taskId integrationSha
  | .quarantined reason => settled.quarantineMergedTask taskId reason
  | .failed reason =>
    p.failIntegration s!"resolved merger did not produce a reliable result for {taskId}: {reason}"
  | .needsResolution .. =>
    .error (.invalidCommand "resolved merger cannot request another conflict resolution")

def mergeResolutionAborted (p : Processor) (taskId reason : String) : Turn := do
  p.requirePhase .joining "merge resolution abort"
  p.requirePendingMergeResolution taskId
  let task ← p.taskMut taskId
  expectTaskPhase task .resolvingMerge "merge resolution abort"
  (p.withIntegration
    { p.state.integration with pendingMergeResolution := none }).quarantineMergedTask taskId reason

def validateVerification : VerificationOutcome → Checked Unit
  | .failed signature _ => validateSignature signature
  | _ => .ok ()

def integrationVerified (p : Processor) (head : String) (outcome : VerificationOutcome) :
    Turn := do
  p.requirePhase .publishing "integration verification"
  validateRef head "integration verification head"
  require (p.state.integration.integrationHead = some head) (.invalidCommand
    s!"integration verification belongs to {quoted head}, not current tip {quotedOption p.state.integration.integrationHead}")
  validateVerification outcome
  let attempted :=
    { p.state.integration with
      verificationAttempts := satAdd p.state.integration.verificationAttempts 1 }
  match outcome with
  | .passed | .exempt _ => do
    let id ← p.batchId
    .ok (p.withIntegration { attempted with verificationHead := some head }, [.publish id])
  | .failed signature reason =>
    (p.withIntegration attempted).failIntegration
      s!"integration verification failed ({signature}): {reason}"
  | .blocked reason =>
    .ok ((p.withIntegration attempted).blocked s!"integration verification blocked: {reason}",
      [.waitForOperator reason])

def integrationReview (p : Processor) (outcome : ReviewOutcome) : Turn := do
  p.requirePhase .publishing "integration review"
  let integration := p.state.integration
  let limit := p.config.integrationLoopMax.toNat
  match outcome with
  | .clean reviewSha => do
    validateRef reviewSha "integration review SHA"
    require (integration.integrationHead = some reviewSha) (.invalidCommand
      s!"integration review belongs to {quoted reviewSha}, not current tip {quotedOption integration.integrationHead}")
    let cycled := { integration with fCycles := satAdd integration.fCycles 1 }
    if limit < cycled.fCycles then
      (p.withIntegration cycled).failIntegration s!"не сходится ревью после {limit} циклов"
    else
      .ok (p.withIntegration { cycled with reviewSha := some reviewSha, verificationHead := none },
        [.verifyIntegration reviewSha])
  | .findings signature _ _ => do
    validateSignature signature
    let cycled :=
      { integration with verificationHead := none, fCycles := satAdd integration.fCycles 1 }
    if limit < cycled.fCycles then
      (p.withIntegration cycled).failIntegration s!"не сходится ревью после {limit} циклов"
    else
      let signed := { cycled with signatures := cycled.signatures ++ [signature] }
      match stagnationReason (signaturesFrom signed.signatures) p.config.stagnationLimit.toNat with
      | some reason => (p.withIntegration signed).failIntegration reason
      | none =>
        let (p, effect) := (p.withIntegration signed).dispatchIntegration .integrationFix
        .ok (p, [effect])
  | .incomplete =>
    let cycled := { integration with fCycles := satAdd integration.fCycles 1 }
    if limit ≤ cycled.fCycles then
      (p.withIntegration cycled).failIntegration
        s!"не сходится ревью после {cycled.fCycles} циклов"
    else
      let (p, effect) := (p.withIntegration cycled).dispatchIntegration .integrationReview
      .ok (p, [effect])
  | .escalated reason => p.failIntegration reason
  | .cleanRiskElevated _ risk | .findingsRiskElevated _ risk _ _ =>
    p.failIntegration
      s!"integration reviewer reported unsupported task risk elevation {risk.asStr}"

def integrationFix (p : Processor) (outcome : LeafOutcome) : Turn := do
  p.requirePhase .publishing "integration fix"
  match outcome with
  | .completed _ | .completedWithWontFix .. => .ok (p, [.commitIntegrationFix])
  | .retryableFailure reason | .escalated reason =>
    p.failIntegration s!"integration fix failed: {reason}"
  | .riskElevated _ risk _ =>
    p.failIntegration s!"integration fix reported unsupported task risk elevation {risk.asStr}"

def integrationFixCommitted (p : Processor) (head : String) : Turn := do
  p.requirePhase .publishing "integration fix commit"
  validateRef head "integration fix head"
  let p := p.withIntegration
    { p.state.integration with integrationHead := some head, verificationHead := none }
  if p.config.integrationLoopMax.toNat ≤ p.state.integration.fCycles then
    p.failIntegration s!"не сходится ревью после {p.state.integration.fCycles} циклов"
  else
    let (p, effect) := p.dispatchIntegration .integrationReview
    .ok (p, [effect])

/-- Move every merged task to its next phase; each must still be `Merged`. -/
def moveMerged (p : Processor) (operation : String) (move : TaskRuntime → TaskRuntime) :
    Checked (StringMap TaskRuntime) :=
  updateEach .missingTask
    (fun _ task => do
      expectTaskPhase task .merged operation
      .ok (move task))
    (elems p.state.integration.mergedTasks) p.state.tasks

def published (p : Processor) (head : String) (pushed : Bool) : Turn := do
  p.requirePhase .publishing "publication result"
  validateRef head "published head"
  let integration := p.state.integration
  require (integration.mergedTasks.isEmpty = false)
    (.invalidCommand "cannot publish a batch with no merged tasks")
  require (integration.integrationHead = some head ∧ integration.verificationHead = some head)
    (.invalidCommand
      s!"publication head {quoted head} lacks matching final verification for integration tip {quotedOption integration.integrationHead}")
  let tasks ← p.moveMerged "publication" fun task => { task with phase := .published }
  .ok ((p.withTasks tasks).withIntegration
      { integration with
        publishAttempts := satAdd integration.publishAttempts 1
        publicationReanchorReason := none
        publicationReanchorTarget := none
        publishedHead := some head
        publicationPushed := some pushed
        ciDisposition := none
        archiveCiGate := none },
    [.verifyCi head])

def publicationRejected (p : Processor) (reason : String) : Turn := do
  p.requirePhase .publishing "publication rejection"
  require (isSafeReason reason)
    (.invalidCommand "publication rejection must carry a non-empty safe reason")
  require (p.state.integration.mergedTasks.isEmpty = false)
    (.invalidCommand "cannot reject publication for a batch with no merged tasks")
  let escalations := (elems p.state.integration.mergedTasks).map fun id =>
    Effect.escalateTask id reason
  let tasks ← p.moveMerged "publication rejection" fun task =>
    { task with phase := .escalated, reason := some reason }
  let p := ((p.withTasks tasks).withIntegration
    { p.state.integration with mergedTasks := ∅, failedReason := some reason }).withPhase .cleaning
  match p.cleanupEffects with
  | .writeJournalAndStatus :: cleanup =>
    .ok (p, .writeJournalAndStatus :: (escalations ++ cleanup))
  | _ =>
    .error (.invalidCommand "publication rejection cleanup must start with a journal boundary")

def publicationAwaitingApproval (p : Processor) (reason : String) : Turn := do
  p.requirePhase .publishing "publication approval hold"
  require (isSafeReason reason)
    (.invalidCommand "publication approval hold must carry a non-empty safe reason")
  require (p.state.integration.mergedTasks.isEmpty = false ∧
      p.state.integration.publishedHead = none)
    (.invalidCommand "publication approval hold requires a verified but unpublished merged batch")
  .ok (p, [.waitForOperator reason])

def publicationReanchorRequired (p : Processor) (reason : String)
    (target : PublicationReanchorTarget) : Turn := do
  p.requirePhase .publishing "publication re-anchor requirement"
  require (isSafeReason reason)
    (.invalidCommand "publication re-anchor must carry a non-empty safe reason")
  let integration := p.state.integration
  require (integration.mergedTasks.isEmpty = false ∧ integration.publishedHead = none ∧
      integration.integrationHead ≠ none ∧
      integration.verificationHead = integration.integrationHead)
    (.invalidCommand "publication re-anchor requires a verified but unpublished merged batch")
  let attempted := { integration with publishAttempts := satAdd integration.publishAttempts 1 }
  if p.config.integrationLoopMax.toNat ≤ integration.publicationReanchorCycles then
    let hold :=
      s!"publication re-anchor did not converge after {integration.publicationReanchorCycles} attempts; manual intervention is required"
    .ok ((p.withIntegration attempted).blocked hold,
      [.writeJournalAndStatus, .waitForOperator hold])
  else do
    let id ← p.batchId
    .ok (p.withIntegration
        { attempted with
          publicationReanchorCycles := integration.publicationReanchorCycles + 1
          publicationReanchorReason := some reason
          publicationReanchorTarget := some target },
      [.reanchorPublication id])

def publicationReanchored (p : Processor) : Turn := do
  p.requirePhase .publishing "publication re-anchor completion"
  require (p.state.integration.publicationReanchorReason ≠ none)
    (.invalidCommand "publication re-anchor completed without a durable requirement")
  require (p.state.integration.mergedTasks.isEmpty = false)
    (.invalidCommand "cannot re-anchor a batch with no merged tasks")
  let tasks ← p.moveMerged "publication re-anchor" fun task =>
    { task with phase := .ready, reason := none }
  let p := ((p.withTasks tasks).withIntegration
    { p.state.integration with
      workspacePrepared := false
      importedWorkspaceRestorePending := false
      mergedTasks := ∅
      fCycles := 0
      ciCycles := 0
      ciDisposition := none
      pendingMergeResolution := none
      signatures := []
      integrationHead := none
      reviewSha := none
      verificationHead := none
      publishedHead := none
      publicationPushed := none
      publicationReanchorReason := none
      publicationReanchorTarget := none
      failedReason := none }).withPhase .joining
  let branch ← p.integrationBranch
  .ok (p, [.prepareIntegrationWorkspace branch])

/-- Keep a published head whose CI could not be repaired, in `Blocked`. -/
def holdFailedPublishedCi (p : Processor) (reason : String) : Turn := do
  validateCiObservationReason reason
  require (p.state.integration.publishedHead ≠ none ∧
      p.state.integration.publicationPushed = some true)
    (.invalidCommand "terminal CI repair failure requires a remotely published head")
  let hold := s!"published CI requires manual intervention: {reason}"
  let integration :=
    { p.state.integration with ciDisposition := some .unconfirmedDegraded }.noteOnce
      s!"required publication CI remains unconfirmed: {reason}"
  .ok ((p.withIntegration integration).blocked hold,
    [.writeJournalAndStatus, .waitForOperator hold])

def validateCiOutcome : CiOutcome → Checked Unit
  | .bestEffortDegraded reason | .requiredUnconfirmed reason => validateCiObservationReason reason
  | .failed signature _ => validateSignature signature
  | .passed | .localOnly | .disabled => .ok ()

/-- A required check failed: notify, then repair, unless the repairs are used up or stagnate. -/
def repairFailedCi (p : Processor) (head signature : String) : Turn := do
  let integration :=
    { p.state.integration with
      ciDisposition := none
      ciCycles := satAdd p.state.integration.ciCycles 1
      signatures := p.state.integration.signatures ++ [signature] }
  let p := p.withIntegration integration
  let notification := Effect.notify .publishCiFailed head
  match (reviewCycleDecision integration.ciCycles p.config.ciFixMax.toNat).escalationReason with
  | some reason => do
    let (p, effects) ← p.holdFailedPublishedCi s!"required CI repair limit reached: {reason}"
    .ok (p, notification :: effects)
  | none =>
    match stagnationReason (signaturesFrom integration.signatures)
        p.config.stagnationLimit.toNat with
    | some reason => do
      let (p, effects) ← p.holdFailedPublishedCi s!"required CI repair stagnated: {reason}"
      .ok (p, notification :: effects)
    | none => .ok (p, [notification, .prepareCiFix])

def ciVerified (p : Processor) (outcome : CiOutcome) : Turn := do
  p.requirePhase .publishing "CI result"
  let head ← orError p.state.integration.publishedHead
    (.invalidCommand "CI result arrived without a durable published head")
  validateRef head "published CI head"
  validateCiOutcome outcome
  let inferredPushed := decide (outcome ≠ .localOnly)
  let pushed := p.state.integration.publicationPushed.getD inferredPushed
  require (pushed = inferredPushed)
    (.invalidCommand "CI disposition contradicts the durable local/remote publication route")
  let integration :=
    { p.state.integration with
      publicationPushed := some pushed
      ciWaitAttempts := satAdd p.state.integration.ciWaitAttempts 1 }
  let p := p.withIntegration integration
  match outcome with
  | .passed =>
    .ok ((p.withIntegration { integration with ciDisposition := some .confirmed }).withPhase
      .cleaning, [.prepareKnowledgeCuration])
  | .localOnly | .disabled =>
    .ok ((p.withIntegration { integration with ciDisposition := some .disabled }).withPhase
      .cleaning, [.prepareKnowledgeCuration])
  | .bestEffortDegraded reason =>
    .ok ((p.withIntegration
        ({ integration with ciDisposition := some .unconfirmedDegraded }.noteOnce
          s!"publication CI was not confirmed: {reason}")).withPhase .cleaning,
      [.prepareKnowledgeCuration])
  | .requiredUnconfirmed reason =>
    .ok (p.withIntegration
        ({ integration with ciDisposition := some .unconfirmedDegraded }.noteOnce
          s!"required publication CI is unconfirmed: {reason}"),
      [.writeJournalAndStatus,
        .waitForOperator s!"published CI requires manual confirmation: {reason}"])
  | .failed signature _ => p.repairFailedCi head signature

def ciFixPrepared (p : Processor) (outcome : CiFixPreparationOutcome) : Turn := do
  p.requirePhase .publishing "Codex CI fix preparation"
  let yielded := p.withIntegration
    { p.state.integration with ciFixProviderFallback := decide (outcome = .fallback) }
  match outcome with
  | .completed => .ok (yielded, [.commitCiFix])
  | .skipped | .fallback =>
    let (p, effect) := yielded.dispatchIntegration .ciFix
    .ok (p, [effect])
  | .sandboxDowngraded scope =>
    let (p, effect) := (yielded.withIntegration
      (yielded.state.integration.noteOnce scope.degradation)).dispatchIntegration .ciFix
    .ok (p, [.writeJournalAndStatus, effect])
  | .escalated reason => yielded.holdFailedPublishedCi s!"Codex CI fix failed: {reason}"

/-- The commit of a CI repair, or the hold of its failure. -/
def settleCiFix (p : Processor) : LeafOutcome → Turn
  | .completed _ => .ok (p, [.commitCiFix])
  | .retryableFailure reason | .escalated reason =>
    p.holdFailedPublishedCi s!"CI fix failed: {reason}"
  | .riskElevated _ risk _ =>
    p.holdFailedPublishedCi s!"CI fix reported unsupported task risk elevation {risk.asStr}"
  | .completedWithWontFix .. =>
    p.holdFailedPublishedCi "CI fix reported unsupported fix-cycle won't-fix metadata"

def ciFix (p : Processor) (outcome : LeafOutcome) : Turn := do
  p.requirePhase .publishing "CI fix"
  let (p, effects) ← p.settleCiFix outcome
  .ok (p.withIntegration { p.state.integration with ciFixProviderFallback := false }, effects)

def ciFixCommitted (p : Processor) (head : String) : Turn := do
  p.requirePhase .publishing "CI fix commit"
  validateRef head "CI fix head"
  .ok (p.withIntegration
      { p.state.integration with
        publishedHead := some head, ciDisposition := none, archiveCiGate := none },
    [.verifyCi head])

end Processor

end Orchestrail
