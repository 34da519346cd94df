import Orchestrail.Spec.Progress

/-!
# Task turns

The transitions of one task in phase 2: its workspace, its implementation or fix leaf, its commit
and its review. `finishLeaf`, `concludeReview` and `recordFindings` are the parts that the arms of
`task_leaf`, `task_leaf_prepared` and `task_review` share.
-/

namespace Orchestrail

namespace Processor

def workspaceReady (p : Processor) (taskId : String) : Turn := do
  p.requirePhase .rolling "task workspace completion"
  let task ← p.taskMut taskId
  match task.importedRecoveryIntent with
  | some .ensureWorkspaceForReview =>
    expectTaskPhase task .reviewing "review workspace creation"
    let task := { task with importedRecoveryIntent := none }
    .ok (p.withTask taskId (task.leafAttempt .review), [.prepareTaskReview taskId])
  | some .ensureWorkspace | none =>
    expectTaskPhase task .capturing "workspace creation"
    let task := { task with importedRecoveryIntent := none, phase := .implementing }
    .ok (p.withTask taskId (task.leafAttempt .implement), [.prepareTaskLeaf taskId .implement])
  | some .dispatchImplementation | some .dispatchReview | some .returnConflictToQueue =>
    .error (.corruptCheckpoint
      s!"task {taskId} received WorkspaceReady for an incompatible legacy recovery intent")

/-- The one task result the source accepts in every phase. -/
def workspaceFailed (p : Processor) (taskId reason : String) : Turn := do
  let task ← p.taskMut taskId
  expectTaskPhase task .capturing "workspace failure"
  .ok (p.escalate taskId task reason)

/-- The leaf a task is running, from its phase. -/
def leafOf (task : TaskRuntime) (taskId operation : String) : Checked LeafKind :=
  match task.phase with
  | .implementing => .ok .implement
  | .fixing => .ok .fix
  | actual => .error (.unexpectedTaskPhase taskId operation actual)

/-- A successful leaf: the empty-fixed-set check of a fix round that declined findings, then the
commit. The open-finding coordinates of the round end here. -/
def finishLeaf (p : Processor) (taskId : String) (task : TaskRuntime) (kind : LeafKind)
    (author : Option String) (wontFixed : Option Nat) : Turn := do
  let cleared :=
    { task with pendingFixOpenFindings := none, pendingFixOpenFindingIds := none }
  let committing :=
    { cleared with implementationAuthor := author <|> task.implementationAuthor, phase := .committing }
  match wontFixed with
  | none => .ok (p.withTask taskId committing, [.commitTask taskId])
  | some wontFixed =>
    require (kind = .fix) (.invalidCommand
      s!"task {taskId} reported fix-cycle won't-fix metadata outside a fix leaf")
    match task.pendingFixOpenFindings.bind fun openFindings =>
        (emptyFixedSetDecision wontFixed openFindings).escalationReason with
    | some reason => .ok (p.escalate taskId cleared reason)
    | none => .ok (p.withTask taskId committing, [.commitTask taskId])

/-- A successful leaf that also raises the risk; a raise that is not strict escalates the task. -/
def finishRaised (p : Processor) (taskId : String) (task : TaskRuntime) (kind : LeafKind)
    (author : Option String) (risk : Risk) (wontFixed : Option Nat) : Turn :=
  match validateTaskRiskElevation task.risk risk with
  | some reason => .ok (p.escalate taskId task reason)
  | none => p.finishLeaf taskId { task with risk := some risk } kind author wontFixed

def taskLeaf (p : Processor) (taskId : String) (outcome : LeafOutcome) : Turn := do
  p.requirePhase .rolling "task leaf result"
  let task ← p.taskMut taskId
  let kind ← leafOf task taskId "implementation or fix leaf"
  match outcome with
  | .completed author => p.finishLeaf taskId task kind author none
  | .riskElevated author risk wontFixed => p.finishRaised taskId task kind author risk wontFixed
  | .completedWithWontFix author wontFixed => p.finishLeaf taskId task kind author (some wontFixed)
  | .retryableFailure reason =>
    if (task.leafAttempts[kind.asStr]?).getD 0 < p.config.leafMaxAttempts.toNat then
      .ok (p.withTask taskId (task.leafAttempt kind), [.prepareTaskLeaf taskId kind])
    else .ok (p.escalate taskId task s!"{reason}; retry limit exhausted")
  | .escalated reason => .ok (p.escalate taskId task reason)

def taskLeafPrepared (p : Processor) (taskId : String) (outcome : TaskLeafPreparationOutcome) :
    Turn := do
  p.requirePhase .rolling "Codex task leaf preparation"
  let task ← p.taskMut taskId
  let kind ← leafOf task taskId "implementation or fix Codex preparation"
  let author := some "coder_codex"
  match outcome with
  | .completed => p.finishLeaf taskId task kind author none
  | .completedWithWontFix wontFixed => p.finishLeaf taskId task kind author (some wontFixed)
  | .riskElevated risk wontFixed => p.finishRaised taskId task kind author risk wontFixed
  | .skipped | .fallback => .ok (p, [.dispatchTask taskId kind])
  | .sandboxDowngraded scope =>
    .ok (p.withIntegration (p.state.integration.noteOnce scope.degradation),
      [.writeJournalAndStatus, .dispatchTask taskId kind])
  | .escalated reason => .ok (p.escalate taskId task reason)

def taskCommitted (p : Processor) (taskId commit : String) : Turn := do
  validateRef commit "task commit"
  let task ← p.taskMut taskId
  expectTaskPhase task .committing "task commit"
  let task :=
    { task with phase := .reviewing, previousReviewSha := task.reviewSha, reviewSha := some commit }
  -- the last permitted findings pass may run its fixer, but no further review
  if p.config.reviewLoopMax.toNat ≤ task.reviewCycles then
    .ok (p.escalate taskId task s!"не сходится ревью после {task.reviewCycles} циклов")
  else .ok (p.withTask taskId (task.leafAttempt .review), [.prepareTaskReview taskId])

/-- A clean pass on the committed tip: the task is ready, unless the pass was over the limit. -/
def concludeReview (p : Processor) (taskId : String) (task : TaskRuntime) (reviewSha : String) :
    Turn :=
  let task := { task with reviewCycles := satAdd task.reviewCycles 1 }
  if p.config.reviewLoopMax.toNat < task.reviewCycles then
    .ok (p.escalate taskId task s!"не сходится ревью после {p.config.reviewLoopMax.toNat} циклов")
  else .ok (p.withTask taskId { task with phase := .ready, reviewSha := some reviewSha }, [])

def requireReviewedTip (task : TaskRuntime) (taskId reviewSha : String) : Checked Unit := do
  validateRef reviewSha "review SHA"
  require (task.reviewSha = some reviewSha) (.invalidCommand
    s!"task {taskId} review belongs to {Text.quoted reviewSha}, not committed tip {Text.quotedOption task.reviewSha}")

/-- A findings pass: the cycle limit, then stagnation, then the fix leaf. -/
def recordFindings (p : Processor) (taskId : String) (task : TaskRuntime) (signature : String)
    (openFindings : Nat) (openFindingIds : List String) : Turn :=
  let task :=
    { task with
      reviewCycles := satAdd task.reviewCycles 1
      reviewSignatures := task.reviewSignatures ++ [signature] }
  match (reviewCycleDecision task.reviewCycles p.config.reviewLoopMax.toNat).escalationReason with
  | some reason => .ok (p.escalate taskId task reason)
  | none =>
    match stagnationReason (signaturesFrom task.reviewSignatures) p.config.stagnationLimit.toNat with
    | some reason => .ok (p.escalate taskId task reason)
    | none =>
      let task :=
        { task with
          pendingFixOpenFindings := some openFindings
          pendingFixOpenFindingIds := some openFindingIds
          phase := .fixing }
      .ok (p.withTask taskId (task.leafAttempt .fix), [.prepareTaskLeaf taskId .fix])

def taskReview (p : Processor) (taskId : String) (outcome : ReviewOutcome) : Turn := do
  p.requirePhase .rolling "task review"
  let task ← p.taskMut taskId
  expectTaskPhase task .reviewing "task review"
  match outcome with
  | .clean reviewSha =>
    requireReviewedTip task taskId reviewSha
    p.concludeReview taskId task reviewSha
  | .cleanRiskElevated reviewSha risk =>
    requireReviewedTip task taskId reviewSha
    match validateTaskRiskElevation task.risk risk with
    | some reason => .ok (p.escalate taskId task reason)
    | none => p.concludeReview taskId { task with risk := some risk } reviewSha
  | .findings signature openFindings openFindingIds =>
    validateSignature signature
    p.recordFindings taskId task signature openFindings openFindingIds
  | .findingsRiskElevated signature risk openFindings openFindingIds =>
    validateSignature signature
    match validateTaskRiskElevation task.risk risk with
    | some reason => .ok (p.escalate taskId task reason)
    | none =>
      p.recordFindings taskId { task with risk := some risk } signature openFindings openFindingIds
  | .incomplete =>
    let task := { task with reviewCycles := satAdd task.reviewCycles 1 }
    if p.config.reviewLoopMax.toNat ≤ task.reviewCycles then
      .ok (p.escalate taskId task s!"не сходится ревью после {task.reviewCycles} циклов")
    else .ok (p.withTask taskId (task.leafAttempt .review), [.prepareTaskReview taskId])
  | .escalated reason =>
    .ok (p.escalate taskId { task with reviewCycles := satAdd task.reviewCycles 1 } reason)

def taskReviewPrepared (p : Processor) (taskId : String) (outcome : TaskReviewPreparationOutcome) :
    Turn := do
  p.requirePhase .rolling "task review preparation"
  let task ← p.taskMut taskId
  expectTaskPhase task .reviewing "task review preparation"
  if p.config.reviewLoopMax.toNat ≤ task.reviewCycles then
    .ok (p.escalate taskId task s!"не сходится ревью после {task.reviewCycles} циклов")
  else
    -- a checkpoint older than the reserved attempt keeps its one safe continuation
    let p :=
      if (task.leafAttempts[LeafKind.review.asStr]?).getD 0 = 0 then
        p.withTask taskId (task.leafAttempt .review)
      else p
    match outcome with
    | .completed outcome => p.taskReview taskId outcome
    | .dispatchClaude => .ok (p, [.dispatchTask taskId .review])
    | .sandboxDowngraded scope =>
      .ok (p.withIntegration (p.state.integration.noteOnce scope.degradation),
        [.writeJournalAndStatus, .dispatchTask taskId .review])

end Processor

end Orchestrail
