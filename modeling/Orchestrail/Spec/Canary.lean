import Orchestrail.Spec.Vocab
import Orchestrail.Lib.Steps

/-!
# The Codex canary

A knowledge base may retain that Codex could not start in a task's worktree. One task then tries
again as the canary of the session, and the others wait for its result. `headless.rs` keeps the
session in one record behind a lock: each function here that takes the record is one section under
that lock. A batch is armed before its preparations start; from then on they run side by side, each
between its sections, and so do reviewers, which also probe the host and report its limits.

What a preparation reads (its level, its network need, the knowledge base, its reservation) and what
Codex answers are parts of the actions.
-/

namespace Orchestrail.Canary

/-! ## Routing a coder -/

inductive CodexCoder where
  | off
  | fast
  | fastStd
  deriving DecidableEq

inductive Ecosystem where
  | managed
  | other
  deriving DecidableEq

def Ecosystem.pathAvailable : Ecosystem → Bool → Bool
  | .managed, _ => true
  | .other, codexNetwork => codexNetwork

structure NetworkNeed where
  ecosystem : Ecosystem
  deriving DecidableEq

inductive EnvLimitClass where
  | vcsWrite
  | network
  | tlsSchannel
  | profileDenied
  | sandboxInitWorktree
  | unknown
  deriving DecidableEq

structure CoderRouteInput where
  codexCoder : CodexCoder
  level : Level
  codexNetwork : Bool
  network : Option NetworkNeed
  kbPitfall : Option EnvLimitClass

inductive StayClaude where
  | codexOff
  | levelExcluded
  | networkGate
  | kbPitfall (limit : EnvLimitClass)
  deriving DecidableEq

inductive CoderRoute where
  | codex
  | claude (reason : StayClaude)
  deriving DecidableEq

def pitfallBlocks (limit : EnvLimitClass) (network : Option NetworkNeed) (codexNetwork : Bool) :
    Bool :=
  match limit with
  | .vcsWrite | .profileDenied | .unknown => true
  | .sandboxInitWorktree => false
  | .network | .tlsSchannel =>
    !((network.map NetworkNeed.ecosystem).getD Ecosystem.other).pathAvailable codexNetwork

/-- The first stage of the resolver: why the level keeps the task on Claude. -/
def levelGate (codexCoder : CodexCoder) (level : Level) : Option StayClaude :=
  match codexCoder with
  | .off => some .codexOff
  | .fast => if level = .coderFast then none else some .levelExcluded
  | .fastStd => if level = .coderFast ∨ level = .coder then none else some .levelExcluded

def routeCoder (inp : CoderRouteInput) : CoderRoute :=
  match levelGate inp.codexCoder inp.level with
  | some reason => .claude reason
  | none =>
    if inp.network.any fun need => !need.ecosystem.pathAvailable inp.codexNetwork then
      .claude .networkGate
    else match inp.kbPitfall with
      | some limit =>
        if pitfallBlocks limit inp.network inp.codexNetwork then .claude (.kbPitfall limit)
        else .codex
      | none => .codex

/-! ## The session -/

inductive CodexPreflightState where
  | pending
  | enabled
  | disabled
  deriving DecidableEq

inductive CodexCanaryState where
  | pending
  | enabled
  | disabled
  deriving DecidableEq

inductive CodexSandboxDowngrade where
  | host
  | worktree
  deriving DecidableEq

inductive CodexProbeDecision where
  | unchanged
  | downgradeHost
  | downgradeWorktree
  deriving DecidableEq

inductive CodexCanaryRoute where
  | proceed
  | canary
  | stayClaude
  | downgraded (scope : CodexSandboxDowngrade)
  deriving DecidableEq

structure CodexPreflightSession where
  host : CodexPreflightState := .pending
  worktree : CodexPreflightState := .pending
  canary : CodexCanaryState := .pending
  canaryTask : Option String := none
  deriving DecidableEq

namespace CodexPreflightSession

def disableWorktreeCodex (s : CodexPreflightSession) : CodexPreflightSession :=
  { s with worktree := .disabled, canary := .disabled, canaryTask := none }

def disableHostCodex (s : CodexPreflightSession) : CodexPreflightSession :=
  { s with host := .disabled, canaryTask := none }

def disable (s : CodexPreflightSession) : CodexSandboxDowngrade → CodexPreflightSession
  | .host => s.disableHostCodex
  | .worktree => s.disableWorktreeCodex

/-- The first probe of `codex_preflight`, in a workspace of its own. -/
def probeHost (s : CodexPreflightSession) (decision : CodexProbeDecision) : CodexPreflightSession :=
  if s.host = .pending then
    match decision with
    | .unchanged => { s with host := .enabled }
    | .downgradeHost => { s with host := .disabled, canaryTask := none }
    | .downgradeWorktree =>
      { s with host := .enabled, worktree := .disabled, canary := .disabled, canaryTask := none }
  else s

/-- The second probe, in the worktree of the task. -/
def probeWorktree (s : CodexPreflightSession) (decision : CodexProbeDecision) :
    CodexPreflightSession :=
  if s.worktree = .pending then
    match decision with
    | .unchanged => { s with worktree := .enabled }
    | .downgradeHost => { s with host := .disabled, canaryTask := none }
    | .downgradeWorktree =>
      { s with worktree := .disabled, canary := .disabled, canaryTask := none }
  else s

/-- `codex_preflight`; a reviewer has no task worktree to probe. -/
def codexPreflight (s : CodexPreflightSession) (host : CodexProbeDecision)
    (taskWorktree : Option CodexProbeDecision) :
    CodexPreflightSession × Option CodexSandboxDowngrade :=
  let s := s.probeHost host
  if s.host = .disabled then (s, some .host)
  else match taskWorktree with
    | none => (s, none)
    | some worktree =>
      let s := s.probeWorktree worktree
      if s.host = .disabled then (s, some .host)
      else if s.worktree = .disabled then (s, some .worktree)
      else (s, none)

def codexCanaryRoute (s : CodexPreflightSession) (taskId : String) (retainedWorktreeLimit : Bool) :
    CodexPreflightSession × CodexCanaryRoute :=
  if s.host = .disabled then (s, .downgraded .host)
  else if s.worktree = .disabled then (s, .downgraded .worktree)
  else match s.canary with
    | .enabled => (s, .proceed)
    | .disabled => (s, .downgraded .worktree)
    | .pending =>
      match s.canaryTask with
      | some canaryTask => (s, if canaryTask = taskId then .canary else .stayClaude)
      | none =>
        if retainedWorktreeLimit then ({ s with canaryTask := some taskId }, .canary)
        else (s, .proceed)

def finishCodexCanary (s : CodexPreflightSession) (taskId : String) (result : CodexCanaryState) :
    CodexPreflightSession :=
  if s.canaryTask ≠ some taskId then s
  else
    { s with
      canaryTask := none
      canary := result
      worktree := if result = .disabled then .disabled else s.worktree }

end CodexPreflightSession

/-! ## Arming a batch -/

abbrev Reads (α : Type) := Except String α

/-- `config.codex`, as far as coders are routed by it. -/
structure CodexConfig where
  coder : CodexCoder
  network : Bool

/-- What is read of a task: its level from the state, its network need from the descriptor, and the
limit that the knowledge base retains for it. -/
structure TaskReads where
  level : Reads Level
  network : Reads (Option NetworkNeed)
  kbPitfall : Reads (Option EnvLimitClass)
  deriving DecidableEq

/-- A request to prepare a leaf of a task. -/
structure PrepareLeaf where
  taskId : String
  reads : TaskReads
  deriving DecidableEq

/-- Whether a task may go to Codex, and then whether its limit is the worktree's. -/
def codexRoute (config : CodexConfig) (task : TaskReads) : Reads (Option Bool) := do
  let level ← task.level
  let base : CoderRouteInput := ⟨config.coder, level, config.network, none, none⟩
  if routeCoder base ≠ .codex then return none
  else
    let network ← task.network
    let kbPitfall ← task.kbPitfall
    if routeCoder { base with network := network, kbPitfall := kbPitfall } ≠ .codex then return none
    else return some (decide (kbPitfall = some .sandboxInitWorktree))

/-- The first task of the batch, in request order, whose limit is the worktree's. -/
def selectCanary (config : CodexConfig) : List PrepareLeaf → Reads (Option String)
  | [] => .ok none
  | request :: requests => do
    match ← codexRoute config request.reads with
    | some true => return some request.taskId
    | _ => selectCanary config requests

def armCodexCanary (config : CodexConfig) (requests : List PrepareLeaf)
    (s : CodexPreflightSession) : Reads CodexPreflightSession :=
  if s.canary ≠ .pending ∨ s.canaryTask.isSome then .ok s
  else do
    match ← selectCanary config requests with
    | some taskId => return { s with canaryTask := some taskId }
    | none => return s

/-! ## Preparations -/

/-- What is on record of an attempt: nothing, a child that was started, or its finalized result,
which may be a downgrade. -/
inductive Reservation where
  | absent
  | started
  | finalized (downgrade : Option CodexSandboxDowngrade)
  deriving DecidableEq

/-- How an invocation that ran ends. -/
inductive Ending where
  | success
  /-- a fallback, a failure, or an error on the way -/
  | failed
  | limited (scope : CodexSandboxDowngrade)
  deriving DecidableEq

/-- Where a preparation stands between its sections. -/
inductive Point where
  | starting
  | routing (retainedWorktreeLimit : Bool)
  | preflighting (canary : Bool)
  | invoking (canary : Bool)
  | replaying (downgrade : Option CodexSandboxDowngrade)
  | settling (canary : Bool) (ending : Ending)
  | returned
  deriving DecidableEq

structure Preparation where
  taskId : String
  point : Point
  deriving DecidableEq

/-- The session, the preparations of the batch at hand, and how the batch began. -/
structure Headless where
  session : CodexPreflightSession
  preparations : List Preparation
  batches : Nat
  opening : CodexPreflightSession
  requests : List PrepareLeaf
  deriving DecidableEq

def Headless.initial : Headless := ⟨{}, [], 0, {}, []⟩

inductive Action where
  /-- a batch is armed and its preparations start -/
  | begin (requests : List PrepareLeaf)
  | start (i : Nat) (attempt : Reads Reservation) (reads : TaskReads)
  | route (i : Nat)
  | preflight (i : Nat) (host worktree : CodexProbeDecision)
  /-- Codex is spawned and ends so, or it is refused before -/
  | invoke (i : Nat) (ending : Option Ending)
  /-- a finalized result is taken up, unless its usage cannot be recorded -/
  | replay (i : Nat) (recorded : Bool)
  | settle (i : Nat)
  /-- a reviewer probes the host -/
  | review (host : CodexProbeDecision)
  /-- a reviewer reports a limit -/
  | report (scope : CodexSandboxDowngrade)

/-- What a preparation does first. -/
def startPoint (config : CodexConfig) (attempt : Reads Reservation) (reads : TaskReads) : Point :=
  match attempt with
  | .error _ => .returned
  | .ok .started => .invoking false
  | .ok (.finalized downgrade) => .replaying downgrade
  | .ok .absent =>
    match codexRoute config reads with
    | .ok (some retained) => .routing retained
    | _ => .returned

def routePoint : CodexCanaryRoute → Point
  | .proceed => .preflighting false
  | .canary => .preflighting true
  | .stayClaude | .downgraded _ => .returned

/-- The section behind an invocation. -/
def settleSession (s : CodexPreflightSession) (taskId : String) (canary : Bool) :
    Ending → CodexPreflightSession
  | .limited scope => s.disable scope
  | .success => if canary then s.finishCodexCanary taskId .enabled else s
  | .failed => if canary then s.finishCodexCanary taskId .pending else s

/-- The session and the point behind a preparation's action at its own point. -/
def turn (config : CodexConfig) (s : CodexPreflightSession) (p : Preparation) :
    Action → Option (CodexPreflightSession × Point)
  | .start _ attempt reads =>
    if p.point = .starting then some (s, startPoint config attempt reads) else none
  | .route _ =>
    match p.point with
    | .routing retained =>
      let (s, route) := s.codexCanaryRoute p.taskId retained
      some (s, routePoint route)
    | _ => none
  | .preflight _ host worktree =>
    match p.point with
    | .preflighting canary =>
      let (s, downgrade) := s.codexPreflight host (some worktree)
      some (s, if downgrade.isSome then .returned else .invoking canary)
    | _ => none
  | .invoke _ ending =>
    match p.point with
    | .invoking canary => some (s, .settling canary (ending.getD .failed))
    | _ => none
  | .replay _ recorded =>
    match p.point with
    | .replaying downgrade =>
      some (if recorded then downgrade.elim s s.disable else s, .returned)
    | _ => none
  | .settle _ =>
    match p.point with
    | .settling canary ending => some (settleSession s p.taskId canary ending, .returned)
    | _ => none
  | .begin _ | .review _ | .report _ => none

/-- The preparation that an action belongs to. -/
def Action.index : Action → Option Nat
  | .start i _ _ | .route i | .preflight i _ _ | .invoke i _ | .replay i _ | .settle i => some i
  | .begin _ | .review _ | .report _ => none

/-- Whoever is not a preparation acts on the session alone. -/
def aside (s : CodexPreflightSession) : Action → Option CodexPreflightSession
  | .review host => some (s.codexPreflight host none).1
  | .report scope => some (s.disable scope)
  | _ => none

def beginBatch (config : CodexConfig) (s : Headless) (requests : List PrepareLeaf) :
    Option Headless :=
  if s.preparations.all fun p => p.point = .returned then
    match armCodexCanary config requests s.session with
    | .ok session => some
        { session := session
          preparations := requests.map fun request => ⟨request.taskId, .starting⟩
          batches := s.batches + 1
          opening := s.session
          requests := requests }
    | .error _ => none
  else none

def next (config : CodexConfig) (s : Headless) (a : Action) : Option Headless :=
  match a with
  | .begin requests => beginBatch config s requests
  | a =>
    match a.index with
    | none => (aside s.session a).map fun session => { s with session := session }
    | some i => do
      let p ← s.preparations[i]?
      let (session, point) ← turn config s.session p a
      return { s with
        session := session
        preparations := s.preparations.set i { p with point := point } }

end Orchestrail.Canary
