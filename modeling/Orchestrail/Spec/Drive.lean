import Orchestrail.Spec.Native
import Orchestrail.Spec.RuntimeCalls

/-!
# The driver

`drive` of `execution.rs`: the effects of an accepted command are executed from the front of a
queue, their answers are checked and applied, and what the reducer asks for next joins the queue at
the back. Leaves of different tasks at the front are executed together and answered in the order of
their task ids.

The executor is a record of functions on a state of its own. The effects a drive is done with are
kept as a list, whose length is the counter of the source; what has been dispatched and is not
answered is kept too, where the source drops it together with the queue. The conversations and the
timings stay beside the runtime, as everywhere.
-/

namespace Orchestrail

/-- The executor of effects: what it answers, and its own state after it. -/
structure EffectExecutor (σ ε : Type) where
  eventOccurredAt : σ → String → Except ε String × σ
  execute : σ → Effect → ProcessorState → Except ε EffectResolution × σ
  takeLeafSession : σ → String → Option LeafSessionUpdate × σ
  executeBatch : σ → List Effect → ProcessorState → Except ε (List EffectResolution) × σ

/-- A refusal of the driver, with those that need no effect. -/
inductive DriveFailure (ε : Type) where
  | refused (error : DriveError)
  | executor (error : ε)
  | batchResolutionCount (expected actual : Nat)
  | stepLimit (limit : Nat)

/-- The variables of a drive. -/
structure Driver (σ : Type) where
  runtime : ProcessorRuntime
  queue : List Effect
  /-- dispatched and not answered -/
  inHand : List Effect := []
  completed : List Effect := []
  executor : σ

def Driver.unanswered {σ : Type} (d : Driver σ) : List Effect := d.inHand ++ d.queue

/-- A turn goes on, or ends the drive with the reason it was held for, if it was. -/
inductive DriveTurn (σ ε : Type) where
  | next (d : Driver σ)
  | ended (d : Driver σ) (result : Except (DriveFailure ε) (Option String))

variable {σ ε : Type}

def DriveTurn.andThen (turn : DriveTurn σ ε) (f : Driver σ → DriveTurn σ ε) : DriveTurn σ ε :=
  match turn with
  | .next d => f d
  | .ended d result => .ended d result

/-! ## Task leaves -/

/-- Only the leaves of a task carry a conversation. -/
def leafSessionTaskId : Effect → Option String
  | .prepareTaskLeaf taskId _ | .prepareTaskReview taskId | .dispatchTask taskId _ => some taskId
  | _ => none

def isTaskLeafEffect (effect : Effect) : Bool := (leafSessionTaskId effect).isSome

def taskEffectId (effect : Effect) : String := (leafSessionTaskId effect).getD ""

/-- Leaves to execute together, the length of the queue they were collected from, and the markers
absorbed on the way. -/
structure TaskBatch where
  effects : List Effect := []
  consumed : Nat := 0
  markers : Nat := 0

/-- The loop of `task_batch_at_front`, `ids` being those it has seen. -/
def collectTaskBatch (ids : List String) : List Effect → TaskBatch
  | [] => {}
  | effect :: queue =>
    match leafSessionTaskId effect with
    | some taskId =>
      if taskId ∈ ids then {}
      else
        let batch := collectTaskBatch (taskId :: ids) queue
        { batch with effects := effect :: batch.effects, consumed := batch.consumed + 1 }
    | none =>
      if effect = .persistCheckpoint then
        let batch := collectTaskBatch ids queue
        { batch with consumed := batch.consumed + 1, markers := batch.markers + 1 }
      else {}

/-- The leaves of different tasks at the front of the queue, by task id, if there are two. -/
def taskBatchAtFront (queue : List Effect) : Option TaskBatch :=
  let batch := collectTaskBatch [] queue
  if 2 ≤ batch.effects.length then
    some { batch with
      effects := batch.effects.mergeSort fun a b => decide (taskEffectId a ≤ taskEffectId b) }
  else none

/-! ## Answers -/

namespace ProcessorRuntime

/-- What `record_leaf_session` refuses. -/
def recordLeafSession (r : ProcessorRuntime) (taskId : String) (update : LeafSessionUpdate) :
    Ran Unit := do
  let _ ← ofProcessor (r.processor.taskMut taskId)
  match update with
  | .observed key id =>
    if isValidSessionId id then .ok ()
    else .error (.processor (.invalidCommand
      s!"task {taskId} reported a malformed provider session id for {key.asDurableKey}"))
  | .invalidated _ => .ok ()

/-- The refusal of an unkeyed effect does not show it. -/
def acknowledgeEffect (r : ProcessorRuntime) (effect : Effect) : Ran ProcessorRuntime :=
  match effectKey effect with
  | none => .error (.unknownEffect "effect has no durable ledger key and cannot be acknowledged")
  | some key => r.completeEffect key

end ProcessorRuntime

namespace EffectExecutor

variable (executor : EffectExecutor σ ε)

/-- The conversation the leaf of an effect observed is recorded before its result is applied. -/
def recordLeafSession (d : Driver σ) (effect : Effect) : Ran Unit × Driver σ :=
  match leafSessionTaskId effect with
  | none => (.ok (), d)
  | some taskId =>
    match executor.takeLeafSession d.executor taskId with
    | (none, own) => (.ok (), { d with executor := own })
    | (some update, own) =>
      (d.runtime.recordLeafSession taskId update, { d with executor := own })

/-- The conversations of a failed turn are taken from the executor; that one is forgotten is
written beside the runtime, whatever comes of it. -/
def forgetStagedLeafSessions (d : Driver σ) (effects : List Effect) : Driver σ :=
  (effects.filterMap leafSessionTaskId).foldl
    (fun d taskId => { d with executor := (executor.takeLeafSession d.executor taskId).2 }) d

end EffectExecutor

section Drive

variable (eventId : String → String) (executor : EffectExecutor σ ε)

/-- `apply_resolution`: the runtime, what it asks for, and the reason of a hold. -/
def applyResolution (r : ProcessorRuntime) (effect : Effect) (resolution : EffectResolution)
    (occurredAt : String) :
    ProcessorRuntime × List Effect × Except DriveError (Option String) :=
  match checkResolution r.processor effect resolution with
  | .error error => (r, [], .error error)
  | .ok () =>
    match resolution with
    | .command command =>
      match r.applyAt eventId command occurredAt with
      | .ok (r, effects) => (r, effects, .ok none)
      | .error error => (r, [], .error (.runtime error))
    | .reconciled command =>
      match r.applyAt eventId command occurredAt with
      | .ok (applied, effects) =>
        -- the command stays applied if its inspection is no longer outstanding
        match applied.acknowledgeEffect effect with
        | .ok r => (r, effects, .ok none)
        | .error error => (applied, effects, .error (.runtime error))
      | .error error => (r, [], .error (.runtime error))
    | .acknowledge =>
      match r.acknowledgeEffect effect with
      | .ok r => (r, [], .ok none)
      | .error error => (r, [], .error (.runtime error))
    | .hold reason => (r, [], .ok (some reason))

/-- Record and apply the answer to the first effect in hand; `rest` are the others. -/
def answerEffect (d : Driver σ) (occurredAt : String) (effect : Effect)
    (resolution : EffectResolution) (rest : List Effect) : DriveTurn σ ε :=
  match executor.recordLeafSession d effect with
  | (.error error, d) => .ended d (.error (.refused (.runtime error)))
  | (.ok (), d) =>
    match applyResolution eventId d.runtime effect resolution occurredAt with
    | (r, effects, result) =>
      let d := { d with runtime := r, queue := d.queue ++ effects }
      match result with
      | .error error => .ended d (.error (.refused error))
      | .ok (some reason) => .ended d (.ok (some reason))
      | .ok none => .next { d with inHand := rest, completed := d.completed ++ [effect] }

/-- The answers to all effects in hand, one by one. -/
def answerBatch (occurredAt : String) : List (Effect × EffectResolution) → Driver σ → DriveTurn σ ε
  | [], d => .next d
  | (effect, resolution) :: answers, d =>
    (answerEffect eventId executor d occurredAt effect resolution (answers.map Prod.fst)).andThen
      (answerBatch occurredAt answers)

variable (occurredAt : String)

/-- Execute leaves of different tasks together. -/
def dispatchBatch (d : Driver σ) (batch : TaskBatch) : DriveTurn σ ε :=
  match executor.executeBatch d.executor batch.effects d.runtime.processor.state with
  | (.error error, own) =>
    .ended (executor.forgetStagedLeafSessions { d with executor := own } batch.effects)
      (.error (.executor error))
  | (.ok resolutions, own) =>
    if resolutions.length ≠ batch.effects.length then
      .ended { d with executor := own }
        (.error (.batchResolutionCount batch.effects.length resolutions.length))
    else
      match executor.eventOccurredAt own occurredAt with
      | (answer, own) =>
        let d := { d with
          executor := own
          inHand := batch.effects
          completed := d.completed ++ List.replicate batch.markers .persistCheckpoint }
        match answer with
        | .error error => .ended d (.error (.executor error))
        | .ok eventOccurredAt =>
          answerBatch eventId executor eventOccurredAt (batch.effects.zip resolutions) d

/-- Execute one effect; the markers are the driver's own. -/
def dispatchOne (d : Driver σ) (effect : Effect) : DriveTurn σ ε :=
  match effect with
  | .persistCheckpoint => .next { d with inHand := [], completed := d.completed ++ [effect] }
  | .waitForOperator reason => .ended d (.ok (some reason))
  | _ =>
    match executor.execute d.executor effect d.runtime.processor.state with
    | (.error error, own) =>
      .ended (executor.forgetStagedLeafSessions { d with executor := own } [effect])
        (.error (.executor error))
    | (.ok resolution, own) =>
      match executor.eventOccurredAt own occurredAt with
      | (.error error, own) => .ended { d with executor := own } (.error (.executor error))
      | (.ok eventOccurredAt, own) =>
        let d := { d with executor := own }
        answerEffect eventId executor d eventOccurredAt effect resolution []

variable (maxSteps : Nat)

/-- One round of the loop of `drive`. -/
def driveTurn (d : Driver σ) : DriveTurn σ ε :=
  match d.queue with
  | [] => .ended d (.ok none)
  | effect :: queue =>
    if maxSteps ≤ d.completed.length then .ended d (.error (.stepLimit maxSteps))
    else
      match if isTaskLeafEffect effect then taskBatchAtFront d.queue else none with
      | some batch =>
        if maxSteps < d.completed.length + batch.consumed then
          .ended d (.error (.stepLimit maxSteps))
        else
          dispatchBatch eventId executor occurredAt
            { d with inHand := d.queue.take batch.consumed, queue := d.queue.drop batch.consumed }
            batch
      | none =>
        dispatchOne eventId executor occurredAt { d with inHand := [effect], queue := queue } effect

def driveLoop : Nat → Driver σ → Option (Driver σ × Except (DriveFailure ε) (Option String))
  | 0, _ => none
  | fuel + 1, d =>
    match driveTurn eventId executor occurredAt maxSteps d with
    | .next d => driveLoop fuel d
    | .ended d result => some (d, result)

/-- `drive`: its variables at the end, and its result. Every round counts a step. -/
def drive (r : ProcessorRuntime) (initialEffects : List Effect) (own : σ) :
    Option (Driver σ × Except (DriveFailure ε) (Option String)) :=
  driveLoop eventId executor occurredAt maxSteps (maxSteps + 1)
    { runtime := r, queue := initialEffects, executor := own }

end Drive

end Orchestrail
