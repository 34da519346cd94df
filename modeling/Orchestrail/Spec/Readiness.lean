import Orchestrail.Spec.Archive

/-!
# Readiness, as the engine and the console answer it

The console's decision inbox (`inbox.rs`) lists the queue entries that wait for a predecessor; the
headless engine admits the entries whose predecessors are complete. Both read the same snapshot and
the same archive. The approvals, which another function of the console adds, are left out.
-/

namespace Orchestrail.Readiness

open Text ControlPlane

/-! ## The snapshot -/

structure QueueEntry where
  id : String
  title : String
  state : Option TaskState
  attempt : Option Nat
  quarantine : Option String
  escalationReason : Option String
  prerequisites : List String
  deliveryTarget : DeliveryTarget

structure Descriptor where
  id : String
  state : Option TaskState
  conflictDomain : Option (List String)
  level : Option Level
  risk : Option Risk

structure Snapshot where
  queue : List QueueEntry
  descriptors : List Descriptor

/-! ## The engine -/

/-- The prerequisites of an entry are all archived. -/
def ready (completed : Finset String) (queued : QueueEntry) : Bool :=
  queued.prerequisites.all fun id => decide (id ∈ completed)

/-- The candidate of one queue entry. -/
def admissionCandidate (descriptors : StringMap Descriptor) (completed : Finset String)
    (queued : QueueEntry) : Option AdmissionCandidate :=
  if queued.state ≠ some .notStarted ∨ queued.deliveryTarget ≠ .current then none
  else match descriptors[queued.id]? with
    | none => none
    | some descriptor =>
      match descriptor.conflictDomain, descriptor.level, descriptor.risk with
      | some domain, some level, some risk =>
        some ⟨queued.id, ",".intercalate domain, level, risk, ready completed queued, true⟩
      | _, _, _ => none

/-- The map of the descriptors by id, the last one of an id kept. -/
def descriptorsById (snapshot : Snapshot) : StringMap Descriptor :=
  snapshot.descriptors.foldl (fun m d => m.insert d.id d) ∅

/-! ## The console -/

structure EscalatedCard where
  id : String
  title : String
  reason : Option String
  blocks : List String

structure QuarantineCard where
  id : String
  title : String
  attempt : Option Nat
  reason : Option String
  blocks : List String

structure BlockedCard where
  id : String
  title : String
  blockingOn : String
  blockingInfeasible : Bool
  blockingUnknown : Bool
  deriving DecidableEq

structure DecisionInbox where
  paused : Bool
  pauseNote : Option String
  escalated : List EscalatedCard
  quarantined : List QuarantineCard
  blocked : List BlockedCard

/-- The states of the queue headers, and over them those of the descriptors. -/
def stateById (snapshot : Snapshot) : StringMap TaskState :=
  let queued := snapshot.queue.foldl (fun m q => match q.state with
    | some state => m.insert q.id state
    | none => m) ∅
  snapshot.descriptors.foldl (fun m d => match d.state with
    | some state => m.insert d.id state
    | none => m) queued

/-- The first predecessor that is not resolved, whether it is escalated, and whether nothing knows
it. -/
def firstUnresolvedPrerequisite (states : StringMap TaskState) (doneIds : Finset String) :
    List String → Option (String × Bool × Bool)
  | [] => none
  | p :: prerequisites =>
    match states[p]? with
    | some .done => firstUnresolvedPrerequisite states doneIds prerequisites
    | some .escalated => some (p, true, false)
    | some _ => some (p, false, false)
    | none =>
      if p ∈ doneIds then firstUnresolvedPrerequisite states doneIds prerequisites
      else some (p, false, true)

def dependentsOf (id : String) (snapshot : Snapshot) : List String :=
  (snapshot.queue.filter fun q => q.prerequisites.any (· == id)).map QueueEntry.id

def escalatedCard (snapshot : Snapshot) (q : QueueEntry) : Option EscalatedCard :=
  if q.state = some .escalated then
    some ⟨q.id, q.title, q.escalationReason, dependentsOf q.id snapshot⟩
  else none

def quarantineCard (snapshot : Snapshot) (q : QueueEntry) : Option QuarantineCard :=
  if q.state = some .notStarted ∧ q.quarantine.isSome then
    some ⟨q.id, q.title, q.attempt, q.quarantine, dependentsOf q.id snapshot⟩
  else none

def blockedCard (states : StringMap TaskState) (doneIds : Finset String) (q : QueueEntry) :
    Option BlockedCard :=
  if q.state = some .notStarted ∧ q.quarantine = none then
    (firstUnresolvedPrerequisite states doneIds q.prerequisites).map
      fun (on, infeasible, unknown) => ⟨q.id, q.title, on, infeasible, unknown⟩
  else none

/-- The three lists are filled by one pass over the queue. -/
def build (snapshot : Snapshot) (paused : Bool) (pauseNote : Option String)
    (doneIds : Finset String) : DecisionInbox where
  paused := paused
  pauseNote := pauseNote
  escalated := snapshot.queue.filterMap (escalatedCard snapshot)
  quarantined := snapshot.queue.filterMap (quarantineCard snapshot)
  blocked := snapshot.queue.filterMap (blockedCard (stateById snapshot) doneIds)

/-- `done_task_ids` of the console: an archive that cannot be read counts as empty. -/
def doneTaskIds (alphanumeric : Char → Bool) (s : ControlFiles) : Finset String :=
  match readOptionalText s.donePath s.done with
  | .ok text =>
    ((textLines (text.getD [])).filterMap (archiveHeaderTaskId alphanumeric)).toFinset
  | .error _ => ∅

end Orchestrail.Readiness
