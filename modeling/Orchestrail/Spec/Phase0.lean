import Orchestrail.Spec.Descriptor
import Orchestrail.Spec.Readiness

/-!
# The plan of Phase 0

`plan_recovery` of `recovery.rs` over a snapshot of the Markdown control plane and what was observed
of the repository, and the loop of `native_port.rs` that carries out the safe part of a plan and
plans again. Every step of the planner returns what it pushes. Fields the planner does not read are
left out of the observations.

A repair reads and writes the snapshot; what else the control plane or the VCS adapter may refuse is
up to the environment, and so is every observation of the repository.
-/

namespace Orchestrail

open Text Outcome

/-- The name of a state in a debug rendering. -/
def TaskState.debug : TaskState → String
  | .notStarted => "NotStarted"
  | .working => "Working"
  | .inReview => "InReview"
  | .ready => "Ready"
  | .merged => "Merged"
  | .published => "Published"
  | .done => "Done"
  | .escalated => "Escalated"
  | .conflict => "Conflict"

namespace Phase0

open Readiness (QueueEntry)
open Manifest (BatchTask BatchState)
open Orchestrail.QueueEntry (slashes)

/-! ## Evidence -/

/-- A decoded descriptor. -/
abbrev Decoded := Descriptor.Parsed

structure Snapshot where
  queue : List QueueEntry
  descriptors : List Decoded
  batch : Option BatchState

structure TaskRepositoryObservation where
  branchExists : Bool
  workspacePresent : Bool
  commitsAfterBase : Bool

inductive PublicationObservation where
  | published | notPublished | unknown
  deriving DecidableEq

structure IntegrationRepositoryObservation where
  branchExists : Bool
  workspacePresent : Bool
  workspaceClean : Option Bool
  mergeReportPresent : Bool
  publication : PublicationObservation

structure RecoveryInventory where
  tasks : StringMap TaskRepositoryObservation
  integration : Option IntegrationRepositoryObservation

/-! ## Plans -/

inductive TaskResumePoint where
  | implementation
  | implementationWithCommittedWork
  | review (reviewSha lastImplementationAuthor : Option (List Char))
  deriving DecidableEq

inductive IntegrationResumePoint where
  | rolling | merge | publish | accounting
  deriving DecidableEq

inductive RecoveryAction where
  | returnOrphanedQueue (taskId : String) (attempt : Option Nat)
  | restoreQueueCapture (taskId : String) (batchId branch worktree : List Char)
  | removeUncapturedDescriptor (taskId reason : String)
  | ensureTaskWorkspace (taskId : String) (branch : List Char) (createBranch : Bool)
  | resumeTask (taskId : String) (point : TaskResumePoint)
  | requeueConflict (taskId : String) (previousAttempt : Option Nat)
  | accountPublished (taskId : String)
  | accountDone (taskId : String)
  | continueIntegration (batchId : List Char) (point : IntegrationResumePoint)
  deriving DecidableEq

inductive RecoveryDisposition where
  | idle | rolling | joining | publishing | cleaning | blocked
  deriving DecidableEq

structure RecoveryPlan where
  actions : List RecoveryAction
  disposition : RecoveryDisposition
  blockers : List String
  deriving DecidableEq

def RecoveryPlan.isBlocked (plan : RecoveryPlan) : Bool := !plan.blockers.isEmpty

/-- What a step of the planner pushes. -/
structure Pushed where
  actions : List RecoveryAction := []
  blockers : List String := []

namespace Pushed

def act (action : RecoveryAction) : Pushed := { actions := [action] }

def block (blocker : String) : Pushed := { blockers := [blocker] }

def append (p q : Pushed) : Pushed := ⟨p.actions ++ q.actions, p.blockers ++ q.blockers⟩

instance : Append Pushed := ⟨append⟩

/-- What a loop over the entries pushes. -/
def collect {α : Type} (push : α → Pushed) (entries : List α) : Pushed :=
  ⟨entries.flatMap fun e => (push e).actions, entries.flatMap fun e => (push e).blockers⟩

end Pushed

open Pushed

/-! ## Identity -/

/-- `validate_unique`, with the ids seen so far. -/
def validateUnique (kind : String) : List String → List String → List String
  | _, [] => []
  | seen, id :: ids =>
    if id ∈ seen then s!"duplicate {kind} record for {id}" :: validateUnique kind seen ids
    else validateUnique kind (id :: seen) ids

def validateSnapshotIdentity (snapshot : Snapshot) : List String :=
  validateUnique "queue" [] (snapshot.queue.map (·.id)) ++
    validateUnique "descriptor" [] (snapshot.descriptors.map (·.id)) ++
    match snapshot.batch with
    | some batch => validateUnique "batch" [] (batch.tasks.map (·.id))
    | none => []

/-- The first entry of an id, as in the map of `unique_by_id`. -/
def uniqueById {α : Type} (idOf : α → String) (entries : List α) (id : String) : Option α :=
  entries.find? fun e => idOf e == id

/-! ## Tasks -/

/-- A queue row of a task the engine has captured. -/
def isCaptured (state : TaskState) : Bool := state ∈ [.working, .inReview, .ready, .merged]

def reconcileQueue (snapshot : Snapshot) (entry : QueueEntry) : Pushed :=
  match entry.state with
  | none => block s!"queue task {entry.id} has an unknown status"
  | some state =>
    if (uniqueById Descriptor.Parsed.id snapshot.descriptors entry.id).isSome then {}
    else if isCaptured state then act (.returnOrphanedQueue entry.id entry.attempt)
    else {}

/-- The debug rendering of the state of a queue row. -/
def debugState : Option TaskState → String
  | none => "None"
  | some state => "Some(" ++ state.debug ++ ")"

/-- The descriptor names another batch. -/
def foreign (descriptor : Decoded) (batchId : List Char) : Bool :=
  descriptor.batchId.any (· ≠ batchId)

def foreignBlocker (descriptor : Decoded) (batchId : List Char) : String :=
  s!"descriptor {descriptor.id} belongs to {quotedOption (descriptor.batchId.map String.ofList)}" ++
    s!", not active batch {String.ofList batchId}"

def belongsToActiveBatch (descriptor : Decoded) (snapshot : Snapshot) : Except String Unit :=
  match snapshot.batch with
  | none => .error s!"descriptor {descriptor.id} requires an active batch manifest"
  | some batch =>
    match batch.batchId with
    | none => .error "batch manifest has no batch id"
    | some batchId =>
      if foreign descriptor batchId then .error (foreignBlocker descriptor batchId)
      else if (uniqueById BatchTask.id batch.tasks descriptor.id).isNone then
        .error s!"descriptor {descriptor.id} is absent from active batch {String.ofList batchId}"
      else .ok ()

def taskBranch (id : String) : List Char := ("task/" ++ id).toList

def taskWorktree (id : String) : List Char := (".work/worktrees/" ++ id).toList

def taskCoordinates (descriptor : Decoded) (task : BatchTask) :
    Except String (List Char × List Char) :=
  let branch := (descriptor.branch.or task.branch).getD (taskBranch descriptor.id)
  let worktree := (descriptor.worktree.or task.worktree).getD (taskWorktree descriptor.id)
  if branch ≠ taskBranch descriptor.id then
    .error (s!"task {descriptor.id} records branch {quoted (String.ofList branch)}, " ++
      s!"expected {quoted (String.ofList (taskBranch descriptor.id))}")
  else if slashes worktree ≠ taskWorktree descriptor.id then
    .error (s!"task {descriptor.id} records worktree {quoted (String.ofList worktree)}, " ++
      s!"expected {quoted (String.ofList (taskWorktree descriptor.id))}")
  else .ok (branch, worktree)

/-- The queue row carries no capture: it is not started, unreadable or absent. -/
def isUncaptured (state : Option TaskState) : Bool := state = some .notStarted || state = none

def restoreQueueCaptureIfLost (queue : Option QueueEntry) (descriptor : Decoded)
    (batchId branch worktree : List Char) : Pushed :=
  if queue.any fun entry => entry.attempt.isSome && isUncaptured entry.state then
    block (s!"descriptor {descriptor.id} is live while its queue capture is absent and carries " ++
      "a quarantine attempt")
  else if isUncaptured (queue.bind (·.state)) then
    act (.restoreQueueCapture descriptor.id batchId branch worktree)
  else {}

/-- Where a live task continues. A review without a commit to look at is not made up. -/
def resumePoint (review : Bool) (descriptor : Decoded) (observation : TaskRepositoryObservation) :
    Except String TaskResumePoint :=
  match review, observation.commitsAfterBase with
  | false, true => .ok .implementationWithCommittedWork
  | false, false => .ok .implementation
  | true, true => .ok (.review descriptor.reviewSha descriptor.implementationAuthors.getLast?)
  | true, false => .error
      s!"task {descriptor.id} is in review but its branch has no commit after the batch base"

/-- A live task of the batch, from its observation on. -/
def resumeLive (review : Bool) (descriptor : Decoded) (branch base : List Char)
    (inventory : RecoveryInventory) : Pushed :=
  match inventory.tasks[descriptor.id]? with
  | none => block
      s!"no VCS observation for active task {descriptor.id} at base {String.ofList base}"
  | some observation =>
    (if observation.branchExists && observation.workspacePresent then {}
      else act (.ensureTaskWorkspace descriptor.id branch (!observation.branchExists))) ++
    match resumePoint review descriptor observation with
    | .ok point => act (.resumeTask descriptor.id point)
    | .error blocker => block blocker

/-- The arm of the states `Working` and `InReview`. -/
def reconcileLive (review : Bool) (descriptor : Decoded) (queue : Option QueueEntry)
    (snapshot : Snapshot) (inventory : RecoveryInventory) : Pushed :=
  match snapshot.batch with
  | none =>
    if isUncaptured (queue.bind (·.state)) then
      act (.removeUncapturedDescriptor descriptor.id
        "live descriptor exists without batch manifest")
    else block (s!"descriptor {descriptor.id} is live without batch manifest but queue is " ++
      debugState (queue.bind (·.state)))
  | some batch =>
    match batch.batchId, batch.base with
    | none, _ => block "batch manifest has no batch id"
    | some batchId, none => block s!"batch {String.ofList batchId} has no immutable base"
    | some batchId, some base =>
      if foreign descriptor batchId then block (foreignBlocker descriptor batchId)
      else
        match uniqueById BatchTask.id batch.tasks descriptor.id with
        | none => act (.removeUncapturedDescriptor descriptor.id
            "descriptor is absent from active batch manifest")
        | some task =>
          match taskCoordinates descriptor task with
          | .error blocker => block blocker
          | .ok coordinates =>
            restoreQueueCaptureIfLost queue descriptor batchId coordinates.1 coordinates.2 ++
              resumeLive review descriptor coordinates.1 base inventory

/-- The arm of the state `Ready`. -/
def reconcileReady (descriptor : Decoded) (queue : Option QueueEntry) (snapshot : Snapshot) :
    Pushed :=
  match belongsToActiveBatch descriptor snapshot with
  | .error blocker => block blocker
  | .ok () =>
    if isUncaptured (queue.bind (·.state)) then
      match snapshot.batch.bind (·.batchId) with
      | none => {}
      | some batchId =>
        restoreQueueCaptureIfLost queue descriptor batchId
          (descriptor.branch.getD (taskBranch descriptor.id))
          (descriptor.worktree.getD (taskWorktree descriptor.id))
    else {}

/-- What a task of the active batch asks for. -/
def inActiveBatch (descriptor : Decoded) (snapshot : Snapshot) (then_ : Pushed) : Pushed :=
  match belongsToActiveBatch descriptor snapshot with
  | .error blocker => block blocker
  | .ok () => then_

def reconcileDescriptor (snapshot : Snapshot) (inventory : RecoveryInventory)
    (descriptor : Decoded) : Pushed :=
  let queue := uniqueById QueueEntry.id snapshot.queue descriptor.id
  let queueState := queue.bind (·.state)
  match descriptor.state with
  | none => block s!"descriptor {descriptor.id} has no recognized status"
  | some .working => reconcileLive false descriptor queue snapshot inventory
  | some .inReview => reconcileLive true descriptor queue snapshot inventory
  | some .ready => reconcileReady descriptor queue snapshot
  | some .conflict =>
    if queueState = some .escalated then {}
    else act (.requeueConflict descriptor.id (queue.bind (·.attempt)))
  | some .published => inActiveBatch descriptor snapshot (act (.accountPublished descriptor.id))
  | some .done => inActiveBatch descriptor snapshot <|
    if queueState ∈ [none, some .working, some .published, some .done] then
      act (.accountDone descriptor.id)
    else block (s!"done descriptor {descriptor.id} has contradictory queue state " ++
      debugState queueState)
  | some .merged => inActiveBatch descriptor snapshot {}
  | some .notStarted => act (.removeUncapturedDescriptor descriptor.id
      "descriptor has not-started state and must not reserve a task")
  | some .escalated => {}

/-! ## Integration -/

def isLive (descriptor : Decoded) : Bool :=
  descriptor.state = some .working || descriptor.state = some .inReview

/-- The disposition of the integration branch, with what is pushed for it. -/
def reconcileBranch (batchId : List Char) (integration : IntegrationRepositoryObservation) :
    RecoveryDisposition × Pushed :=
  if integration.workspacePresent && integration.workspaceClean ≠ some true then
    (.blocked, block
      s!"integration workspace for batch {String.ofList batchId} is dirty or conflicted")
  else
    match integration.publication with
    | .published => (.cleaning, act (.continueIntegration batchId .accounting))
    | .notPublished =>
      if integration.mergeReportPresent then
        (.publishing, act (.continueIntegration batchId .publish))
      else (.joining, act (.continueIntegration batchId .merge))
    | .unknown => (.blocked, block
        s!"publication boundary for integration/{String.ofList batchId} is unknown")

def reconcileIntegration (snapshot : Snapshot) (inventory : RecoveryInventory) :
    RecoveryDisposition × Pushed :=
  let hasMerged := snapshot.descriptors.any (·.state = some .merged)
  let hasLive := snapshot.descriptors.any isLive
  match snapshot.batch with
  | none =>
    if hasLive then
      (.blocked, block "live descriptors exist without an active batch manifest")
    else (.idle, {})
  | some batch =>
    match batch.batchId with
    | none => (.blocked, block "batch manifest has no batch id")
    | some batchId =>
      match inventory.integration with
      | none =>
        if hasMerged then (.blocked, block (s!"batch {String.ofList batchId} has merged tasks " ++
          "but no integration VCS observation"))
        else if hasLive then (.rolling, {})
        else (.joining, {})
      | some integration =>
        if integration.branchExists then reconcileBranch batchId integration
        else if hasLive then (.rolling, {})
        else if hasMerged then (.blocked, block (s!"batch {String.ofList batchId} has merged " ++
          "descriptors but integration branch is absent"))
        else (.joining, {})

/-! ## The plan -/

/-- What is pushed before the integration is looked at. -/
def reconcileTasks (snapshot : Snapshot) (inventory : RecoveryInventory) : Pushed :=
  { blockers := validateSnapshotIdentity snapshot } ++
    collect (reconcileQueue snapshot) snapshot.queue ++
    collect (reconcileDescriptor snapshot inventory) snapshot.descriptors

def planRecovery (snapshot : Snapshot) (inventory : RecoveryInventory) : RecoveryPlan :=
  let tasks := reconcileTasks snapshot inventory
  if tasks.blockers = [] then
    let reached := reconcileIntegration snapshot inventory
    let pushed := tasks ++ reached.2
    ⟨pushed.actions, if pushed.blockers = [] then reached.1 else .blocked, pushed.blockers⟩
  else ⟨tasks.actions, .blocked, tasks.blockers⟩

/-! ## Safe repairs -/

inductive PortError where
  | missingState (message : String)
  | control (error : ControlError)
  | vcs (message : String)
  deriving DecidableEq

/-- What the repairs do not decide themselves: where a descriptor lies, what the control plane and
the VCS adapter refuse for other reasons, and what is observed before a plan. -/
structure Environment where
  descriptorPath : String → String
  refuses : Nat → RecoveryAction → Option PortError
  observes : Nat → Except PortError RecoveryInventory

section Repairs

variable (env : Environment) (snapshot : Snapshot) (taskId : String)

/-- The one row of a task with a new state and attempt, the rest of its status gone. -/
def setStatus (state : TaskState) (attempt : Option Nat) : Snapshot :=
  { snapshot with
    queue := snapshot.queue.map fun entry =>
      if entry.id = taskId then
        { entry with state := some state, attempt, quarantine := none, escalationReason := none }
      else entry }

/-- `find_queue_block` and `parse_status`. -/
def queueState : Control (QueueEntry × TaskState) :=
  match uniqueById QueueEntry.id snapshot.queue taskId with
  | none => .error (.contradiction s!"queue has no task block for {taskId}")
  | some entry =>
    match entry.state with
    | none => .error (.contradiction s!"queue task {taskId} has an unknown status")
    | some state => .ok (entry, state)

def returnOrphanedQueue (attempt : Option Nat) : Control Snapshot := do
  ControlPlane.validateTaskId taskId
  demand ((uniqueById Descriptor.Parsed.id snapshot.descriptors taskId).isNone) (.contradiction
    s!"queue task {taskId} is not orphaned because descriptor {env.descriptorPath taskId} exists")
  let found ← queueState snapshot taskId
  demand (isCaptured found.2) (.contradiction <|
    "queue task " ++ taskId ++ " cannot be recovered as an orphan from " ++ found.2.asStr)
  return setStatus snapshot taskId .notStarted attempt

def restoreQueueCapture (batchId branch worktree : List Char) : Control Snapshot := do
  ControlPlane.validateTaskId taskId
  QueueEntry.validateBatchId batchId
  QueueEntry.validateRef branch "task branch"
  demand (trim worktree ≠ [] ∧ worktree.head? ≠ some '-' ∧ '\x00' ∉ worktree ∧ '\r' ∉ worktree ∧
      '\n' ∉ worktree)
    (.invalidInput s!"invalid task worktree: {quoted (String.ofList worktree)}")
  match uniqueById Descriptor.Parsed.id snapshot.descriptors taskId with
  | none => .error (.contradiction
      s!"required control-plane artifact is absent: {env.descriptorPath taskId}")
  | some descriptor =>
    match descriptor.state with
    | none => .error (.contradiction
        s!"descriptor {taskId} has no recognized status for queue-capture recovery")
    | some state => do
      demand (state = .working ∨ state = .inReview ∨ state = .ready) (.contradiction <|
        "descriptor " ++ taskId ++ " is " ++ state.asStr ++ ", not a live captured task")
      demand (descriptor.batchId = some batchId ∧ descriptor.branch.all (· = branch) ∧
          descriptor.worktree.all (slashes · = slashes worktree))
        (.contradiction s!"descriptor {taskId} does not match the recovered batch coordinates")
      let found ← queueState snapshot taskId
      demand (found.2 = .notStarted ∧ found.1.attempt = none)
        (.contradiction s!"queue task {taskId} is not an uncaptured eligible entry")
      return setStatus snapshot taskId state none

/-- The task is not in the active batch. -/
def absentFromBatch : Control Unit :=
  match snapshot.batch with
  | none => .ok ()
  | some batch => demand (batch.tasks.all (·.id ≠ taskId)) (.contradiction
      (s!"refusing to remove {taskId}: it is still present in active batch " ++
        quotedOption (batch.batchId.map String.ofList)))

/-- The row of the task, if there is one, holds nothing that is finished or failed. -/
def removableRow : Control Unit :=
  match uniqueById QueueEntry.id snapshot.queue taskId with
  | none => .ok ()
  | some entry =>
    demand (entry.state.any fun state => decide (state = .notStarted) || isCaptured state)
      (.contradiction (s!"refusing to remove uncaptured descriptor {taskId}: queue is " ++
        debugState entry.state))

def removeUncapturedDescriptor : Control Snapshot := do
  ControlPlane.validateTaskId taskId
  match uniqueById Descriptor.Parsed.id snapshot.descriptors taskId with
  | none => .ok snapshot
  | some descriptor => do
    absentFromBatch snapshot taskId
    removableRow snapshot taskId
    demand (descriptor.state ∈ [some .notStarted, some .working, some .inReview]) (.contradiction
      (s!"descriptor {taskId} is {debugState descriptor.state}, not an uncaptured Phase-0 state"))
    return { snapshot with descriptors := snapshot.descriptors.filter (·.id ≠ taskId) }

end Repairs

/-- The repair one action asks for; nothing for the actions that are left to an importer. -/
def repair (env : Environment) (snapshot : Snapshot) : RecoveryAction → Option (Control Snapshot)
  | .returnOrphanedQueue taskId attempt => some (returnOrphanedQueue env snapshot taskId attempt)
  | .restoreQueueCapture taskId batchId branch worktree =>
    some (restoreQueueCapture env snapshot taskId batchId branch worktree)
  | .removeUncapturedDescriptor taskId _ => some (removeUncapturedDescriptor snapshot taskId)
  | _ => none

/-- What a port refuses on its own account. -/
def admitted (env : Environment) (round : Nat) (action : RecoveryAction) : Except PortError Unit :=
  match env.refuses round action with
  | some refusal => .error refusal
  | none => .ok ()

/-- The loop over the actions of a plan, with the number of repairs done. -/
def executeActions (env : Environment) (round : Nat) :
    List RecoveryAction → Snapshot → Except PortError (Snapshot × Nat)
  | [], snapshot => .ok (snapshot, 0)
  | action :: actions, snapshot =>
    match repair env snapshot action with
    | none => executeActions env round actions snapshot
    | some outcome => do
      admitted env round action
      let repaired ← outcome.mapError .control
      let rest ← executeActions env round actions repaired
      return (rest.1, rest.2 + 1)

def executeSafeControlRecoveryActions (env : Environment) (round : Nat) (plan : RecoveryPlan)
    (snapshot : Snapshot) : Except PortError (Snapshot × Nat) :=
  if plan.isBlocked then
    .error (.missingState "Phase-0 control repair refuses a plan with blockers")
  else executeActions env round plan.actions snapshot

/-- `recovery_plan`: a fresh observation of the snapshot that was written. -/
def recoveryPlan (env : Environment) (round : Nat) (snapshot : Snapshot) :
    Except PortError RecoveryPlan :=
  (env.observes round).map (planRecovery snapshot)

def maxSafeControlRecoveryRounds : Nat := 64

def stalled : PortError :=
  .missingState "Phase-0 safe repair reported progress but its re-read plan did not change"

def exceeded : PortError :=
  .missingState s!"Phase-0 safe recovery exceeded {maxSafeControlRecoveryRounds} replan rounds"

/-- The rounds that are left: repair, plan again, and stop at the first plan without a repair. -/
def stabilize (env : Environment) :
    Nat → RecoveryPlan → Nat → Snapshot → Except PortError (RecoveryPlan × Nat × Snapshot)
  | 0, _, _, _ => .error exceeded
  | rounds + 1, plan, total, snapshot =>
    if plan.isBlocked then .ok (plan, total, snapshot)
    else do
      let executed ← executeSafeControlRecoveryActions env rounds plan snapshot
      if executed.2 = 0 then return (plan, total, executed.1)
      let next ← recoveryPlan env rounds executed.1
      if next = plan then .error stalled
      else stabilize env rounds next (total + executed.2) executed.1

def stabilizeSafeControlRecovery (env : Environment) (plan : RecoveryPlan) (snapshot : Snapshot) :
    Except PortError (RecoveryPlan × Nat × Snapshot) :=
  stabilize env maxSafeControlRecoveryRounds plan 0 snapshot

end Phase0

end Orchestrail
