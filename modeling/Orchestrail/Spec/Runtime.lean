import Orchestrail.Spec.Ledger
import Orchestrail.Spec.Projector

/-!
# The durable runtime

`ProcessorRuntime` of `runtime.rs`: the reducer, the ledger of effects nobody has answered yet, and
the event outbox. The outbox is written before the checkpoint and the checkpoint before the memory,
so what a crash leaves is the state of the last accepted operation, perhaps with more events
(`appendOnly`); `resume` restarts from it.

The start of a conversation and the timing of an operation change neither the reducer nor the
ledger nor a lifecycle event; they are left out.
-/

namespace Orchestrail

open Std Table Text

/-- `YYYY-MM-DDTHH:MM:SS(.d{1,3})?Z`, by its characters. -/
def isIsoUtc (s : String) : Bool :=
  let cs := s.toList
  let digit (i : Nat) : Bool := cs[i]?.any isAsciiDigit
  let lit (i : Nat) (expected : Char) : Bool := cs[i]? == some expected
  let fraction (rest : List Char) : Bool :=
    let digits := (rest.takeWhile isAsciiDigit).length
    1 ≤ digits && digits ≤ 3 && rest.drop digits == ['Z']
  20 ≤ cs.length && digit 0 && digit 1 && digit 2 && digit 3 && lit 4 '-' && digit 5 && digit 6 &&
    lit 7 '-' && digit 8 && digit 9 && lit 10 'T' && digit 11 && digit 12 && lit 13 ':' &&
    digit 14 && digit 15 && lit 16 ':' && digit 17 && digit 18 &&
    match cs.drop 19 with
    | '.' :: rest => fraction rest
    | rest => rest == ['Z']

/-- The content two events with one id must share. -/
def Event.semantic (event : Event) : Event := { event with occurredAt := "" }

/-- Append an event once (`append_idempotent`); the id of an event with other content is refused. -/
def appendIdempotent (outbox : List Event) (event : Event) : Ran (List Event) :=
  match outbox.find? (·.eventId = event.eventId) with
  | some existing =>
    if existing.semantic = event.semantic then .ok outbox else .error (.outbox event.eventId)
  | none => .ok (outbox ++ [event])

def appendAll : List Event → List Event → Ran (List Event)
  | outbox, [] => .ok outbox
  | outbox, event :: events => do appendAll (← appendIdempotent outbox event) events

/-- The one writer of a reducer, its ledger and its outbox. -/
structure ProcessorRuntime where
  processor : Processor
  pending : StringMap Effect := ∅
  outbox : List Event := []

/-- Everything one command decides before anything is written. -/
structure Transition where
  processor : Processor
  pending : StringMap Effect
  effects : List Effect
  events : List Event

/-- Enter the effects of a turn into the ledger; a key may not change its effect. -/
def enterEffects : List Effect → StringMap Effect → Ran (StringMap Effect)
  | [], pending => .ok pending
  | effect :: effects, pending =>
    match effectKey effect with
    | none => enterEffects effects pending
    | some key =>
      match pending[key]? with
      | some existing =>
        if existing = effect then enterEffects effects (pending.insert key effect)
        else .error (.corruptCheckpoint (.aliased key existing effect))
      | none => enterEffects effects (pending.insert key effect)

namespace ProcessorRuntime

variable (eventId : String → String)

def new (config : ProcessorConfig) : Ran ProcessorRuntime := do
  .ok { processor := ← ofProcessor (Processor.new config) }

/-- The acknowledged key is outstanding; a command without one waits for an empty ledger, unless it
is Phase 0. -/
def checkAcknowledgement (r : ProcessorRuntime) (command : ProcessorCommand) :
    Option String → Ran Unit
  | some actual =>
    if actual ∈ r.pending then .ok ()
    else .error (.unexpectedAcknowledgement
      ((r.pending.toList.map Prod.fst).head?.getD "no outstanding effect") actual)
  | none =>
    match command with
    | .recover _ => .ok ()
    | _ =>
      if r.pending.isEmpty then .ok ()
      else
        let names := ", ".intercalate (r.pending.toList.map Prod.fst)
        .error (.pendingEffect
          s!"cannot apply command while {r.pending.size} effect(s) remain outstanding: {names}")

/-- The ledger without the acknowledged key. -/
def answered (r : ProcessorRuntime) : Option String → StringMap Effect
  | some key => r.pending.erase key
  | none => r.pending

/-- The pure part of `apply_internal`. -/
def transition (r : ProcessorRuntime) (command : ProcessorCommand) (occurredAt : String) :
    Ran Transition :=
  if isIsoUtc occurredAt = false then .error (.invalidEventTime occurredAt)
  else do
    let acknowledgement ← acknowledgementKey r.processor command
    r.checkAcknowledgement command acknowledgement
    let (processor, effects) ← ofProcessor (r.processor.apply command)
    let pending ← enterEffects effects (r.answered acknowledgement)
    let before := r.processor.state
    .ok
      { processor := processor
        pending := pending
        effects := effects
        events := projectProcessorTransition eventId occurredAt before processor.state command }

/-- `apply_at`: the events, then the checkpoint, then the memory. -/
def applyAt (r : ProcessorRuntime) (command : ProcessorCommand) (occurredAt : String) :
    Ran (ProcessorRuntime × List Effect) := do
  let t ← r.transition eventId command occurredAt
  let outbox ← appendAll r.outbox t.events
  .ok ({ processor := t.processor, pending := t.pending, outbox := outbox }, t.effects)

/-- What is left of a command whose checkpoint was never written: some of its events. -/
def appendOnly (r : ProcessorRuntime) (command : ProcessorCommand) (occurredAt : String)
    (count : Nat) : Ran ProcessorRuntime := do
  let t ← r.transition eventId command occurredAt
  let outbox ← appendAll r.outbox (t.events.take count)
  .ok { r with outbox := outbox }

/-- Acknowledge an effect that has no reducer result (`complete_effect`). -/
def completeEffect (r : ProcessorRuntime) (key : String) : Ran ProcessorRuntime := do
  match r.pending[key]? with
  | none => .error (.unknownEffect s!"no outstanding effect named {quoted key}")
  | some effect =>
    let processor ← ofProcessor (r.processor.acknowledgeNonCommandEffect effect)
    .ok { r with processor := processor, pending := r.pending.erase key }

/-- Drop the reconstructed effects of Phase 0 one by one; none may be the authority. -/
def dropReconstructed (pendingKey : String) :
    List Effect → StringMap Effect → Ran (StringMap Effect)
  | [], pending => .ok pending
  | effect :: effects, pending =>
    match effectKey effect with
    | none => .error (.corruptCheckpoint (.unkeyed effect))
    | some key =>
      if key = pendingKey ∨ pending[key]? ≠ some effect then
        .error (.corruptCheckpoint (.reconstructedChanged key))
      else dropReconstructed pendingKey effects (pending.erase key)

/-- An older exact effect is the authority over freshly reconstructed ones. -/
def supersedeRecoveryEffectsWithPending (r : ProcessorRuntime) (pendingEffect : Effect)
    (reconstructed : List Effect) : Ran ProcessorRuntime := do
  match effectKey pendingEffect with
  | none => .error (.corruptCheckpoint (.unkeyed pendingEffect))
  | some pendingKey =>
    if r.pending[pendingKey]? ≠ some pendingEffect then
      .error (.corruptCheckpoint (.authorityChanged pendingKey))
    else
      .ok { r with pending := ← dropReconstructed pendingKey reconstructed r.pending }

/-- The retry-safe task effect in the ledger replaces the reconciliation of its task. -/
def supersedeReconcileWithPendingTaskEffect (r : ProcessorRuntime) (taskEffect : Effect) :
    Ran ProcessorRuntime :=
  match taskEffect with
  | .ensureTaskWorkspace taskId _ | .prepareTaskLeaf taskId _ | .prepareTaskReview taskId =>
    match effectKey taskEffect with
    | none => .error (.corruptCheckpoint (.unkeyed taskEffect))
    | some key =>
      if r.pending[key]? ≠ some taskEffect then .error (.corruptCheckpoint (.authorityChanged key))
      else if r.pending["reconcile:" ++ taskId]? ≠ some (.reconcile taskId) then
        .error (.corruptCheckpoint (.reconstructedChanged ("reconcile:" ++ taskId)))
      else r.supersedeRecoveryEffectsWithPending taskEffect [.reconcile taskId]
  | _ => .error (.corruptCheckpoint .notRetrySafe)

/-- Every entry of a stored ledger stands under its own key. -/
def checkLedger : List (String × Effect) → Ran Unit
  | [] => .ok ()
  | (storedKey, effect) :: entries =>
    match effectKey effect with
    | none => .error (.corruptCheckpoint (.unkeyed effect))
    | some expectedKey =>
      if storedKey = expectedKey then checkLedger entries
      else .error (.corruptCheckpoint (.misplaced storedKey expectedKey effect))

/-- A restart from the written checkpoint, with the same configuration. -/
def resume (r : ProcessorRuntime) : Ran ProcessorRuntime := do
  checkLedger r.pending.toList
  let processor ← ofProcessor (Processor.fromCheckpoint r.processor.config r.processor.state)
  .ok { r with processor := processor }

end ProcessorRuntime

/-- One step in the life of a runtime. -/
inductive RuntimeStep where
  | apply (command : ProcessorCommand) (occurredAt : String)
  | appendOnly (command : ProcessorCommand) (occurredAt : String) (count : Nat)
  | complete (key : String)
  | supersede (pendingEffect : Effect) (reconstructed : List Effect)
  | resume

namespace ProcessorRuntime

/-- The runtime after a step it accepts. -/
def next (eventId : String → String) (r : ProcessorRuntime) : RuntimeStep → Option ProcessorRuntime
  | .apply command occurredAt => (r.applyAt eventId command occurredAt).toOption.map (·.1)
  | .appendOnly command occurredAt count =>
    (r.appendOnly eventId command occurredAt count).toOption
  | .complete key => (r.completeEffect key).toOption
  | .supersede pendingEffect reconstructed =>
    (r.supersedeRecoveryEffectsWithPending pendingEffect reconstructed).toOption
  | .resume => r.resume.toOption

/-- What a step asks of the reducer. -/
def reducerStep (r : ProcessorRuntime) : RuntimeStep → Option ProcessorStep
  | .apply command _ => some (.apply command)
  | .complete key => r.pending[key]?.map .acknowledge
  | .resume => some .restart
  | .appendOnly .. | .supersede .. => none

end ProcessorRuntime

end Orchestrail
