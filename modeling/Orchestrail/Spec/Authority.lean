import Orchestrail.Spec.Lease

/-!
# Processors over one control plane

`acquire_processor_lease` of `main.rs` with the life of the lease around it, for any number of
`processor` and `release-sync` processes: the acquisition, the renewals of `LeaseHeartbeat`, the
effects that its cancellation probe lets through, `stop` and the final release. Every call of the
lease store is one step, and the time an acquisition reads once is the time of all its calls.
-/

namespace Orchestrail

open LeaseStore

/-- The command line and the environment of a process; `--resume` of a release sync is its
`continueRequested`. -/
structure EngineStart where
  host : Host
  continueRequested : Bool
  requestedOwner : String
  root : String
  ttlSeconds : Nat

inductive EnginePoint where
  /-- before the first call -/
  | asking
  /-- a live record was seen: renew it as it stood then -/
  | renewing (ownerId : String) (generation : Nat)
  /-- a stale record was seen -/
  | adopting
  /-- anything else was seen -/
  | creating
  /-- the record of the last renewal, and whether the worker has failed -/
  | running (record : LeaseRecord) (failed : Bool)
  | stopped (owner : String)

structure EngineProcess where
  start : EngineStart
  /-- `now_secs` of the acquisition -/
  asked : Nat
  point : EnginePoint

/-- A process that has ended, or has not begun, is none. -/
structure EngineWorld (ι : Type) where
  lock : LockEntry
  clock : Nat
  procs : ι → Option EngineProcess

inductive EngineAction (ι : Type) where
  | begin (process : ι) (start : EngineStart)
  /-- the next call of the acquisition -/
  | go (process : ι)
  | effect (process : ι)
  /-- the worker renews, at a time it has read -/
  | beat (process : ι) (now : Nat)
  /-- `LeaseHeartbeat::stop` -/
  | stop (process : ι)
  | release (process : ι) (now : Nat)
  /-- a store call fails before it does anything -/
  | fail (process : ι)
  | crash (process : ι)
  | tick (clock : Nat)

def processorResumeAddressMatches (host : Host) (record : LeaseRecord) (root : String) : Bool :=
  record.role = engineRole && rootsEquivalent host record.root root

/-- What a `--continue` does next, by the status it has read. -/
def resumePoint (start : EngineStart) : LeaseStatus → EnginePoint
  | .live record _ =>
    if processorResumeAddressMatches start.host record start.root then
      .renewing record.ownerId record.generation
    else .creating
  | .stale record _ =>
    if processorResumeAddressMatches start.host record start.root then .adopting else .creating
  | .vacant | .legacyLock _ | .corrupt _ => .creating

/-- The call that would get the lease, for a process that is about to make it. -/
def EngineProcess.acquisition (proc : EngineProcess) : Option LeaseCall :=
  let start := proc.start
  match proc.point with
  | .asking =>
    if start.continueRequested then none
    else some (.acquire start.requestedOwner start.root start.ttlSeconds)
  | .renewing ownerId generation => some (.heartbeat ownerId (some generation))
  | .adopting =>
    some (.takeoverAddressed start.requestedOwner start.root engineRole start.ttlSeconds)
  | .creating => some (.acquire start.requestedOwner start.root start.ttlSeconds)
  | .running _ _ | .stopped _ => none

namespace EngineWorld

variable {ι : Type} [DecidableEq ι]

def setProc (w : EngineWorld ι) (p : ι) (proc : Option EngineProcess) : EngineWorld ι :=
  { w with procs := fun q => if q = p then proc else w.procs q }

def setPoint (w : EngineWorld ι) (p : ι) (proc : EngineProcess) (point : EnginePoint) :
    EngineWorld ι :=
  w.setProc p (some { proc with point })

variable (serde : Serde)

/-- The answer to a store call of `p`: with a record it runs, otherwise it is over. -/
def granted (w : EngineWorld ι) (p : ι) (proc : EngineProcess) :
    Leased (LeaseAnswer × LockEntry) → EngineWorld ι
  | .ok (.record record, lock) => { w with lock }.setPoint p proc (.running record false)
  | .ok _ | .error _ => w.setProc p none

/-- The next call of an acquisition. -/
def proceed (w : EngineWorld ι) (p : ι) (proc : EngineProcess) : Option (EngineWorld ι) :=
  match proc.acquisition with
  | some call => some (w.granted p proc (call.run serde proc.start.host w.lock proc.asked))
  | none =>
    match proc.point with
    | .asking =>
      match readStatus serde w.lock proc.asked with
      | .ok status => some (w.setPoint p proc (resumePoint proc.start status))
      | .error _ => some (w.setProc p none)
    | _ => none

/-- The answer to a renewal of the worker; it ends with the first failure. -/
def renewed (w : EngineWorld ι) (p : ι) (proc : EngineProcess) (record : LeaseRecord) :
    Leased (LeaseAnswer × LockEntry) → EngineWorld ι
  | .ok (.record record, lock) => { w with lock }.setPoint p proc (.running record false)
  | .ok _ | .error _ => w.setPoint p proc (.running record true)

/-- A process at work makes a step. -/
def act (w : EngineWorld ι) (proc : EngineProcess) : EngineAction ι → Option (EngineWorld ι)
  | .go p => w.proceed serde p proc
  | .effect _ =>
    match proc.point with
    | .running _ false => some w
    | _ => none
  | .beat p now =>
    match proc.point with
    | .running record false =>
      if now ≤ w.clock then
        let call : LeaseCall := .heartbeat record.ownerId (some record.generation)
        some (w.renewed p proc record (call.run serde proc.start.host w.lock now))
      else none
    | _ => none
  | .stop p =>
    match proc.point with
    | .running record _ => some (w.setPoint p proc (.stopped record.ownerId))
    | _ => none
  | .release p now =>
    match proc.point with
    | .stopped owner =>
      let call : LeaseCall := .release owner
      some ({ w with lock := call.after serde proc.start.host w.lock now }.setProc p none)
    | _ => none
  | .fail p =>
    match proc.point with
    | .running record false => some (w.setPoint p proc (.running record true))
    | .running _ true => none
    | _ => some (w.setProc p none)
  | .crash p => some (w.setProc p none)
  | .begin _ _ | .tick _ => none

def next (w : EngineWorld ι) (a : EngineAction ι) : Option (EngineWorld ι) :=
  match a with
  | .tick clock => if w.clock ≤ clock then some { w with clock } else none
  | .begin p start =>
    if (w.procs p).isNone ∧ start.ttlSeconds ≤ u64Max then
      some (w.setProc p (some ⟨start, w.clock, .asking⟩))
    else none
  | .go p | .effect p | .beat p _ | .stop p | .release p _ | .fail p | .crash p =>
    (w.procs p).bind fun proc => w.act serde proc a

end EngineWorld

end Orchestrail
