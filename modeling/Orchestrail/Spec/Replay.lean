import Orchestrail.Spec.Drive

/-!
# One command and its drive

`run_command` of `native_loop.rs`, which `run_until_idle` repeats turn by turn: a command of the
scheduler is applied and its effects are driven. Phase 0 first looks at what an interrupted turn
left in the ledger. What must be inspected holds it; the rest is run again, in the place of what the
reducer reconstructs for it.

The probes of the lease and of the pause come before all this and end the call without it.
-/

namespace Orchestrail

open Table

/-- What the port proves of the effects a restart may run again. -/
structure ReplaySafety where
  taskPreparationReplaySafe : Bool := false
  notificationReplaySafe : Bool := false

def ReplaySafety.interruptedEffectRetrySafe (safety : ReplaySafety) : Effect → Bool
  | .prepareTaskLeaf .. | .prepareTaskReview _ => safety.taskPreparationReplaySafe
  | .notify .. => safety.notificationReplaySafe
  | _ => false

inductive RecoveryRequirement where
  | retryIdempotently (key : String) (effect : Effect)
  | inspectBeforeContinuing (key : String) (effect : Effect)

namespace ProcessorRuntime

def recoveryRequirements (r : ProcessorRuntime) : List RecoveryRequirement :=
  r.pending.toList.map fun entry =>
    if retryIdempotently entry.2 then .retryIdempotently entry.1 entry.2
    else .inspectBeforeContinuing entry.1 entry.2

variable (safety : ReplaySafety) (debug : Effect → String)

/-- The first outstanding effect an operator has to look at; `debug` is its debug form. -/
def inspectionRecoveryHold (r : ProcessorRuntime) : Option String :=
  r.recoveryRequirements.findSome? fun requirement =>
    match requirement with
    | .inspectBeforeContinuing key effect =>
      if safety.interruptedEffectRetrySafe effect then none
      else some s!"phase-0 inspection required for outstanding effect {key}: {debug effect}"
    | .retryIdempotently .. => none

/-- The task whose reconciliation an effect replaces. -/
def supersedingTask : Effect → Option String
  | .ensureTaskWorkspace taskId _ | .prepareTaskLeaf taskId _ | .prepareTaskReview taskId =>
    some taskId
  | _ => none

/-- The outstanding effects that may be run again. -/
def interruptedEffects (r : ProcessorRuntime) : List Effect :=
  r.recoveryRequirements.filterMap fun requirement =>
    match requirement with
    | .retryIdempotently _ effect => some effect
    | .inspectBeforeContinuing _ effect =>
      if safety.interruptedEffectRetrySafe effect then some effect else none

/-- A reconciliation gives way to the effect of its task. -/
def replayableRecoveryEffectsFor (r : ProcessorRuntime) : List Effect :=
  let effects := r.interruptedEffects safety
  let supersedingTasks := effects.filterMap supersedingTask
  effects.filter fun effect =>
    match effect with
    | .reconcile taskId => !supersedingTasks.contains taskId
    | _ => true

end ProcessorRuntime

inductive NativeLoopError (ε : Type) where
  | runtime (error : RuntimeError)
  /-- a knowledge preflight replayed into something else than a cleanup -/
  | cleanupProjection (effects : List Effect)
  | port (error : ε)
  | drive (failure : DriveFailure ε)

variable {σ ε : Type}

def ofRuntimeCall {α : Type} : Ran α → Except (NativeLoopError ε) α
  | .ok a => .ok a
  | .error error => .error (.runtime error)

/-- What Phase 0 reconstructs at the start of a cleanup. -/
def isCleanupProjection : Effect → Bool
  | .writeJournalAndStatus | .prepareArchival => true
  | _ => false

/-- One effect to run again that Phase 0 has not reproduced. -/
def activateRecoveryEffect (r : ProcessorRuntime) (effects : List Effect) :
    Effect → Except (NativeLoopError ε) (ProcessorRuntime × List Effect)
  | .releaseLease => .ok (r, effects ++ [.releaseLease])
  | .notify event subject => .ok (r, effects ++ [.notify event subject])
  | .prepareKnowledgeCuration =>
    let reconstructed := effects.filter isCleanupProjection
    if reconstructed.length ≠ 2 ∨
        ∃ effect ∈ effects, effect ≠ .persistCheckpoint ∧ isCleanupProjection effect = false then
      .error (.cleanupProjection effects)
    else do
      let r ← ofRuntimeCall
        (r.supersedeRecoveryEffectsWithPending .prepareKnowledgeCuration reconstructed)
      .ok (r, effects.filter (fun effect => !reconstructed.contains effect) ++
        [.prepareKnowledgeCuration])
  | replay =>
    match ProcessorRuntime.supersedingTask replay with
    | none => .error (.runtime (.corruptCheckpoint (.notReproduced replay)))
    | some taskId =>
      if .reconcile taskId ∈ effects then do
        let r ← ofRuntimeCall (r.supersedeReconcileWithPendingTaskEffect replay)
        .ok (r, effects.replace (.reconcile taskId) replay)
      else .error (.runtime (.corruptCheckpoint (.reconciliationMissing taskId)))

def activateRecoveryEffects : List Effect → ProcessorRuntime → List Effect →
    ProcessorRuntime × Except (NativeLoopError ε) (List Effect)
  | [], r, effects => (r, .ok effects)
  | replay :: replayable, r, effects =>
    if replay ∈ effects then activateRecoveryEffects replayable r effects
    else
      match activateRecoveryEffect r effects replay with
      | .ok (r, effects) => activateRecoveryEffects replayable r effects
      | .error error => (r, .error error)

structure DriveReport where
  completedSteps : Nat := 0
  held : Option String := none

def driveReport (d : Driver σ) :
    Except (DriveFailure ε) (Option String) → Except (NativeLoopError ε) DriveReport
  | .ok held => .ok { completedSteps := d.completed.length, held := held }
  | .error failure => .error (.drive failure)

section RunCommand

variable (eventId : String → String) (executor : EffectExecutor σ ε) (occurredAt : String)
  (maxEffects : Nat)

/-- Apply a command and drive its effects and those to run again. -/
def driveCommand (command : ProcessorCommand) (replayable : List Effect) (r : ProcessorRuntime)
    (own : σ) : Option (ProcessorRuntime × σ × Except (NativeLoopError ε) DriveReport) :=
  match executor.eventOccurredAt own occurredAt with
  | (.error error, own) => some (r, own, .error (.port error))
  | (.ok eventOccurredAt, own) =>
    match r.applyAt eventId command eventOccurredAt with
    | .error error => some (r, own, .error (.runtime error))
    | .ok (r, effects) =>
      match activateRecoveryEffects replayable r effects with
      | (r, .error error) => some (r, own, .error error)
      | (r, .ok effects) =>
        (drive eventId executor occurredAt maxEffects r effects own).map fun driven =>
          (driven.1.runtime, driven.1.executor, driveReport driven.1 driven.2)

variable (safety : ReplaySafety) (debug : Effect → String)

/-- A workspace that is ensured again counts as present. -/
def addEnsuredWorkspace (workspacesPresent : StringSet) : Effect → StringSet
  | .ensureTaskWorkspace taskId _ => workspacesPresent.insert taskId
  | _ => workspacesPresent

def runCommand (command : ProcessorCommand) (r : ProcessorRuntime) (own : σ) :
    Option (ProcessorRuntime × σ × Except (NativeLoopError ε) DriveReport) :=
  match command with
  | .recover workspacesPresent =>
    match r.inspectionRecoveryHold safety debug with
    | some reason => some (r, own, .ok { held := some reason })
    | none =>
      let replayable := r.replayableRecoveryEffectsFor safety
      driveCommand eventId executor occurredAt maxEffects
        (.recover (replayable.foldl addEnsuredWorkspace workspacesPresent)) replayable r own
  | command => driveCommand eventId executor occurredAt maxEffects command [] r own

end RunCommand

end Orchestrail
