import Orchestrail.Spec.QueueEntry

/-!
# The native loop

The three loops of `native_loop.rs` over the runtime: `run_until_idle` drives one cohort,
`run_until_queue_exhausted` goes on with the next ones, `run_watching` waits for new work in
between. An invocation of them is a process: what it counts is in memory, and a crash, a hold or an
error leaves the runtime alone. What the ports answer is part of the actions.
-/

namespace Orchestrail

open Text

/-! ## Batch ids -/

/-- The id of the cohort that follows some completed ones: `{first_batch_id}-{number}`. -/
def descendantBatchId (firstBatchId : String) (completedCohortCount : Nat) : String :=
  firstBatchId ++ "-" ++ (satAdd completedCohortCount 1).repr

/-- `{batch_id}-w{wave_number}`. -/
def waveBatchId (batchId : String) (waveNumber : Nat) : String :=
  batchId ++ "-w" ++ waveNumber.repr

/-- `is_batch_id` of `state/util.rs`. -/
def isBatchToken (token : List Char) : Bool :=
  match stripFront "B-".toList token with
  | some rest => rest.head?.any isAsciiDigit
  | none => false

/-- `find_batch_id`. -/
def findBatchId (text : List Char) : Option (List Char) := (splitWhitespace text).find? isBatchToken

/-- `valid_batch_id` of `telemetry.rs`. -/
def validBatchId (value : List Char) : Bool :=
  match stripFront "B-".toList value with
  | some suffix =>
    !suffix.isEmpty && suffix.all fun ch =>
      isAsciiAlpha ch || isAsciiDigit ch || ch == '.' || ch == '_' || ch == '-'
  | none => false

/-! ## Invocations -/

/-- `current_queue_readiness`. -/
inductive QueueReadiness where
  | pending
  | exhausted (escalated : Nat)

/-- Where an invocation stands: at a turn of `run_until_idle`, or in
`wait_for_current_lane_work`. -/
inductive LoopPoint where
  | running (opened : Bool)
  | waiting
  deriving DecidableEq

/-- The variables of the loops of one invocation. -/
structure NativeLoop where
  waveNumber : Nat
  firstBatchId : String
  batchId : String
  completedCohortCount : Nat
  resumedExistingCohort : Bool
  point : LoopPoint

/-- A call of `run_until_queue_exhausted`, at the first turn of its first cohort. -/
def enterWave (batchId : String) (waveNumber : Nat) (r : ProcessorRuntime) : NativeLoop where
  waveNumber := waveNumber
  firstBatchId := batchId
  batchId := batchId
  completedCohortCount := 0
  resumedExistingCohort := r.processor.state.batch.isSome
  point := .running r.processor.state.batch.isSome

/-- An opened cohort: its id, and the pass over the queue, the wave and the count it was opened
at. -/
structure OpenedCohort where
  batchId : String
  pass : Nat
  waveNumber : Nat
  completedCohortCount : Nat
  deriving DecidableEq

/-- The checkpoint, the running invocation if there is one, and the history: the number of passes
over the queue so far and the cohorts opened in them, the last one first. -/
structure LoopWorld where
  runtime : ProcessorRuntime
  invocation : Option NativeLoop := none
  passes : Nat := 0
  opened : List OpenedCohort := []

inductive LoopAction where
  | start
  | turn (step : RuntimeStep)
  | openCohort (base : String) (nowSecs : Nat) (occurredAt : String)
  | nothingToOpen (escalated : Nat)
  | completed (readiness : QueueReadiness) (occurredAt : String)
  | currentLaneWork
  | stop

/-- The step of a runtime that opens a cohort. -/
def opensCohort : RuntimeStep → Bool
  | .apply (.openCohort ..) _ => true
  | _ => false

def blockedReason : String :=
  "planner completed a fresh cohort without admitting a current-lane task while queue entries remain not-started"

namespace LoopWorld

variable (eventId : String → String) (watch : Bool) (batchId : String) (w : LoopWorld)

/-- A drained queue ends the invocation, or lets it wait. -/
def drained (loop : NativeLoop) (escalated : Nat) : LoopWorld :=
  { w with
    invocation := if watch ∧ escalated = 0 then some { loop with point := .waiting } else none }

/-- `run_until_idle` has answered `Completed`. -/
def cohortCompleted (loop : NativeLoop) (occurredAt : String) : QueueReadiness → Option LoopWorld
  | .exhausted escalated => some (w.drained watch loop escalated)
  | .pending =>
    let completed := satAdd loop.completedCohortCount 1
    if loop.resumedExistingCohort = false ∧ w.runtime.processor.state.tasks.isEmpty then
      (w.runtime.next eventId (.apply (.block blockedReason) occurredAt)).map fun r =>
        { w with runtime := r, invocation := none }
    else
      let resumed := w.runtime.processor.state.batch.isSome
      some { w with
        invocation := some { loop with
          batchId := descendantBatchId loop.firstBatchId completed
          completedCohortCount := completed
          resumedExistingCohort := resumed
          point := .running resumed } }

/-- The invocation, if it stands there. -/
def standingAt (stands : LoopPoint → Bool) : Option NativeLoop :=
  w.invocation.filter fun loop => stands loop.point

/-- The invocation at a turn that finds the processor in `Idle`. -/
def idleTurn (opened : Bool) : Option NativeLoop :=
  if w.runtime.processor.state.phase = .idle then w.standingAt (· = .running opened) else none

/-- One step of the loops; `batchId` and `watch` are those of the command line. -/
def next : LoopAction → Option LoopWorld
  | .start =>
    if w.invocation.isSome then none
    else (w.runtime.next eventId .resume).map fun r =>
      { w with runtime := r, invocation := some (enterWave batchId 1 r), passes := w.passes + 1 }
  | .turn step =>
    if opensCohort step then none
    else do
      let _ ← w.standingAt (· ≠ .waiting)
      let r ← w.runtime.next eventId step
      return { w with runtime := r }
  | .openCohort base nowSecs occurredAt => do
    let loop ← w.idleTurn false
    let r ← w.runtime.next eventId (.apply (.openCohort loop.batchId base nowSecs) occurredAt)
    return { w with
      runtime := r
      invocation := some { loop with point := .running true }
      opened := ⟨loop.batchId, w.passes, loop.waveNumber, loop.completedCohortCount⟩ :: w.opened }
  | .nothingToOpen escalated => (w.idleTurn false).map fun loop => w.drained watch loop escalated
  | .completed readiness occurredAt =>
    (w.idleTurn true).bind fun loop => w.cohortCompleted eventId watch loop occurredAt readiness
  | .currentLaneWork => do
    let loop ← w.standingAt (· = .waiting)
    let wave := satAdd loop.waveNumber 1
    return { w with
      invocation := some (enterWave (waveBatchId batchId wave) wave w.runtime)
      passes := w.passes + 1 }
  | .stop => some { w with invocation := none }

end LoopWorld

end Orchestrail
