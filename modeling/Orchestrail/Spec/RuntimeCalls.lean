import Mathlib.Algebra.Ring.Nat
import Orchestrail.Lib.Retry
import Orchestrail.Spec.Rotation

/-!
# Calls of the durable runtime

`apply_at`, `complete_effect`, `record_leaf_session` and
`supersede_recovery_effects_with_pending` of `runtime.rs` with every durable step they take: the
events of a command one by one, what is told of a finished operation, the checkpoint, and last the
memory. All four decide on a copy (`Decision`) and
write in that order (`perform`).

An event that is there already is only looked up, so its step changes nothing, but may fail like any
other. The events of a finished operation are best effort, their failure is swallowed; what they say
(`project_completed_operations`) is a parameter, and so is the length of a written checkpoint. The
conversations of a task are kept beside the reducer, which neither reads nor writes them: a task
that leaves takes its own along, a new one has none.
-/

namespace Orchestrail

open Table Text Durable

structure OperationTiming where
  startedAt : String
  endedAt : String
  durationMs : Nat
  deriving DecidableEq

/-- A runtime in memory. -/
structure RuntimeMemory where
  processor : Processor
  /-- the conversations of each task, by provider and lineage -/
  sessions : StringMap (StringMap String) := ∅
  pending : StringMap Effect := ∅
  ciFixProviderSpan : Option OperationTiming := none

structure RuntimeCheckpoint where
  processor : ProcessorState
  sessions : StringMap (StringMap String)
  pending : StringMap Effect
  ciFixProviderSpan : Option OperationTiming

/-- The two files a runtime writes. -/
structure RuntimeDisk where
  outbox : List Event := []
  checkpoint : Option RuntimeCheckpoint := none

inductive RuntimeCallError where
  | runtime (error : RuntimeError)
  /-- `InvalidData`: the checkpoint is too long to be written -/
  | oversizeCheckpoint
  deriving DecidableEq

abbrev RuntimeProg (α : Type) := Prog RuntimeDisk RuntimeMemory RuntimeCallError α

def maxCheckpointBytes : Nat := 64 * 1024 * 1024

namespace RuntimeMemory

/-- The reducer and its ledger, without the outbox. -/
def runtime (m : RuntimeMemory) : ProcessorRuntime := ⟨m.processor, m.pending, []⟩

/-- What `persist` writes. -/
def checkpoint (m : RuntimeMemory) : RuntimeCheckpoint :=
  ⟨m.processor.state, m.sessions, m.pending, m.ciFixProviderSpan⟩

end RuntimeMemory

/-! ## What a call decides -/

/-- What a call has decided on its copy: the memory to come, the events of the transition, those of
the finished operation, and the effects it answers. -/
structure Decision where
  memory : RuntimeMemory
  events : List Event := []
  operations : List Event := []
  effects : List Effect := []

def ofRan {α : Type} : Ran α → Except RuntimeCallError α
  | .ok a => .ok a
  | .error error => .error (.runtime error)

/-- The conversations of the tasks that stay. -/
def keptSessions (before after : ProcessorState) (sessions : StringMap (StringMap String)) :
    StringMap (StringMap String) :=
  sessions.filter fun id _ => before.tasks.contains id && after.tasks.contains id

/-- The timing that is told of an operation, and the provider span that is kept for the next. -/
def operationSpan (before : ProcessorState) (effect : Effect) (command : ProcessorCommand)
    (timing : OperationTiming) (span : Option OperationTiming) :
    OperationTiming × Option OperationTiming :=
  match effect, command with
  | .prepareCiFix, .ciFixPrepared .fallback => (timing, some timing)
  | .prepareCiFix, .ciFixPrepared .completed => (timing, none)
  | .dispatchIntegration .ciFix, .ciFix _ =>
    if before.integration.ciFixProviderFallback then
      match span with
      | none => (timing, none)
      | some provider =>
        ({ startedAt := provider.startedAt
           endedAt := timing.endedAt
           durationMs := min (provider.durationMs + timing.durationMs) u64Max }, none)
    else (timing, span)
  | _, _ => (timing, span)

inductive SessionProvider where
  | claude | codex
  deriving DecidableEq

def SessionProvider.asStr : SessionProvider → String
  | .claude => "claude"
  | .codex => "codex"

def SessionProvider.other : SessionProvider → SessionProvider
  | .claude => .codex
  | .codex => .claude

inductive SessionLineage where
  | coder | reviewer
  deriving DecidableEq

def SessionLineage.asStr : SessionLineage → String
  | .coder => "coder"
  | .reviewer => "reviewer"

structure LeafSessionKey where
  provider : SessionProvider
  lineage : SessionLineage
  deriving DecidableEq

namespace LeafSessionKey

def asDurableKey (key : LeafSessionKey) : String :=
  key.provider.asStr ++ ":" ++ key.lineage.asStr

def peer (key : LeafSessionKey) : LeafSessionKey := ⟨key.provider.other, key.lineage⟩

end LeafSessionKey

inductive LeafSessionUpdate where
  | observed (key : LeafSessionKey) (id : String)
  | invalidated (key : LeafSessionKey)

def LeafSessionUpdate.key : LeafSessionUpdate → LeafSessionKey
  | .observed key _ | .invalidated key => key

def isValidSessionId (id : String) : Bool :=
  !id.toList.isEmpty && (id.toList.map Char.utf8Size).sum ≤ 128 && !startsWith id '-' &&
    id.toList.all fun ch => isAsciiAlpha ch || isAsciiDigit ch || ch == '-' || ch == '_'

section Calls

variable (eventId : String → String)
variable (operations :
  ProcessorState → ProcessorState → Effect → ProcessorCommand → OperationTiming → List Event)

/-- The pure part of `apply_internal`. -/
def decideApply (m : RuntimeMemory) (command : ProcessorCommand) (occurredAt : String)
    (operation : Option (Effect × OperationTiming)) : Except RuntimeCallError Decision := do
  let t ← ofRan (m.runtime.transition eventId command occurredAt)
  let before := m.processor.state
  let after := t.processor.state
  let memory : RuntimeMemory :=
    { processor := t.processor
      sessions := keptSessions before after m.sessions
      pending := t.pending
      ciFixProviderSpan := m.ciFixProviderSpan }
  match operation with
  | none => return { memory, events := t.events, effects := t.effects }
  | some (effect, timing) =>
    let (told, span) := operationSpan before effect command timing m.ciFixProviderSpan
    return {
      memory := { memory with ciFixProviderSpan := span }
      events := t.events
      operations := operations before after effect command told
      effects := t.effects }

/-- The pure part of `complete_effect`. -/
def decideComplete (m : RuntimeMemory) (key : String) : Except RuntimeCallError Decision := do
  let r ← ofRan (m.runtime.completeEffect key)
  return { memory := { m with processor := r.processor, pending := r.pending } }

/-- The pure part of `record_leaf_session`: the peer of the lineage is stale either way. -/
def decideSession (m : RuntimeMemory) (taskId : String) (update : LeafSessionUpdate) :
    Except RuntimeCallError Decision := do
  let key := update.key.asDurableKey
  let peerKey := update.key.peer.asDurableKey
  let _ ← ofRan (ofProcessor (m.processor.taskMut taskId))
  let sessions := (m.sessions[taskId]?.getD ∅).erase peerKey
  match update with
  | .observed _ id =>
    if isValidSessionId id then
      return { memory := { m with sessions := m.sessions.insert taskId (sessions.insert key id) } }
    else
      .error (.runtime (.processor (.invalidCommand
        s!"task {taskId} reported a malformed provider session id for {key}")))
  | .invalidated _ =>
    return { memory := { m with sessions := m.sessions.insert taskId (sessions.erase key) } }

/-- The pure part of `supersede_recovery_effects_with_pending`. -/
def decideSupersede (m : RuntimeMemory) (pendingEffect : Effect) (reconstructed : List Effect) :
    Except RuntimeCallError Decision := do
  let r ← ofRan (m.runtime.supersedeRecoveryEffectsWithPending pendingEffect reconstructed)
  return { memory := { m with pending := r.pending } }

/-! ## Writing -/

/-- One event, once; the step of an event that is there already changes nothing. -/
def appendEvent (event : Event) : RuntimeProg Unit := do
  let disk ← onDisk
  let outbox ← attempt (ofRan (appendIdempotent disk.outbox event))
  atomically fun disk => { disk with outbox := outbox }

def appendEvents : List Event → RuntimeProg Unit
  | [] => pure ()
  | event :: events => do
    appendEvent event
    appendEvents events

/-- The events of a finished operation, whatever becomes of each. -/
def tellOperations : List Event → RuntimeProg Unit
  | [] => pure ()
  | event :: events => do
    quietly (appendEvent event)
    tellOperations events

variable (checkpointBytes : RuntimeCheckpoint → Nat)

def persist (checkpoint : RuntimeCheckpoint) : RuntimeProg Unit :=
  if checkpointBytes checkpoint + 1 ≤ maxCheckpointBytes then
    atomically fun disk => { disk with checkpoint := some checkpoint }
  else refuse .oversizeCheckpoint

/-- Write what was decided: the events, the checkpoint, the memory. -/
def perform (decide : RuntimeMemory → Except RuntimeCallError Decision) :
    RuntimeProg (List Effect) := do
  let m ← remembered
  let d ← attempt (decide m)
  appendEvents d.events
  tellOperations d.operations
  persist checkpointBytes d.memory.checkpoint
  remember d.memory
  pure d.effects

/-- `apply_at` and `apply_effect_at_with_timing`. -/
def applyInternal (command : ProcessorCommand) (occurredAt : String)
    (operation : Option (Effect × OperationTiming)) : RuntimeProg (List Effect) :=
  perform checkpointBytes fun m => decideApply eventId operations m command occurredAt operation

def completeEffect (key : String) : RuntimeProg (List Effect) :=
  perform checkpointBytes fun m => decideComplete m key

def recordLeafSession (taskId : String) (update : LeafSessionUpdate) :
    RuntimeProg (List Effect) :=
  perform checkpointBytes fun m => decideSession m taskId update

def supersedeRecoveryEffectsWithPending (pendingEffect : Effect) (reconstructed : List Effect) :
    RuntimeProg (List Effect) :=
  perform checkpointBytes fun m => decideSupersede m pendingEffect reconstructed

/-- A call of the runtime. -/
inductive RuntimeCall where
  | apply (command : ProcessorCommand) (occurredAt : String)
      (operation : Option (Effect × OperationTiming))
  | complete (key : String)
  | recordSession (taskId : String) (update : LeafSessionUpdate)
  | supersede (pendingEffect : Effect) (reconstructed : List Effect)

namespace RuntimeCall

/-- What a call decides. -/
def decide (m : RuntimeMemory) : RuntimeCall → Except RuntimeCallError Decision
  | .apply command occurredAt operation =>
    decideApply eventId operations m command occurredAt operation
  | .complete key => decideComplete m key
  | .recordSession taskId update => decideSession m taskId update
  | .supersede pendingEffect reconstructed => decideSupersede m pendingEffect reconstructed

/-- What a call does. -/
def run : RuntimeCall → RuntimeProg (List Effect)
  | .apply command occurredAt operation =>
    applyInternal eventId operations checkpointBytes command occurredAt operation
  | .complete key => completeEffect checkpointBytes key
  | .recordSession taskId update => recordLeafSession checkpointBytes taskId update
  | .supersede pendingEffect reconstructed =>
    supersedeRecoveryEffectsWithPending checkpointBytes pendingEffect reconstructed

end RuntimeCall

end Calls

end Orchestrail
