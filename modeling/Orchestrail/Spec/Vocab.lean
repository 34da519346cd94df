import Orchestrail.Lib.Text

/-!
# Vocabulary of the processor

The enumerations of `processor.rs` and of the resolvers it uses, with their durable literals
(`asStr`) and, where an error text shows them, their debug names.
-/

namespace Orchestrail

/-- Coarse, durable phase of one processor session. -/
inductive Phase where
  | recovery | opening | rolling | joining | publishing | cleaning | idle | paused | blocked
  deriving DecidableEq, Repr

def Phase.debug : Phase → String
  | .recovery => "Recovery"
  | .opening => "Opening"
  | .rolling => "Rolling"
  | .joining => "Joining"
  | .publishing => "Publishing"
  | .cleaning => "Cleaning"
  | .idle => "Idle"
  | .paused => "Paused"
  | .blocked => "Blocked"

/-- Per-task state internal to the engine. -/
inductive TaskPhase where
  | capturing | implementing | committing | reviewing | fixing
  | ready | resolvingMerge | merged | published | done | conflict | escalated
  deriving DecidableEq, Repr

def TaskPhase.debug : TaskPhase → String
  | .capturing => "Capturing"
  | .implementing => "Implementing"
  | .committing => "Committing"
  | .reviewing => "Reviewing"
  | .fixing => "Fixing"
  | .ready => "Ready"
  | .resolvingMerge => "ResolvingMerge"
  | .merged => "Merged"
  | .published => "Published"
  | .done => "Done"
  | .conflict => "Conflict"
  | .escalated => "Escalated"

def TaskPhase.isActive : TaskPhase → Bool
  | .capturing | .implementing | .committing | .reviewing | .fixing => true
  | _ => false

/-- How an already-active task's domain blocks a candidate. -/
inductive ActiveClass where
  | active | terminal
  deriving DecidableEq, Repr

def TaskPhase.blocksAdmission : TaskPhase → Option ActiveClass
  | .capturing | .implementing | .committing | .reviewing | .fixing => some .active
  | .ready | .resolvingMerge | .escalated | .conflict => some .terminal
  | .merged | .published | .done => none

/-- One-shot continuation created only by a legacy import. -/
inductive ImportedRecoveryIntent where
  | ensureWorkspace | ensureWorkspaceForReview | dispatchImplementation | dispatchReview
  | returnConflictToQueue
  deriving DecidableEq, Repr

/-- A supervised leaf role. -/
inductive LeafKind where
  | implement | review | fix | merger | integrationReview | integrationFix | ciFix
  | knowledgeCurator
  deriving DecidableEq, Repr

def LeafKind.asStr : LeafKind → String
  | .implement => "implement"
  | .review => "review"
  | .fix => "fix"
  | .merger => "merger"
  | .integrationReview => "integration-review"
  | .integrationFix => "integration-fix"
  | .ciFix => "ci-fix"
  | .knowledgeCurator => "knowledge-curator"

/-- Which narrow inbox operation a checkpointed curator may perform. -/
inductive InboxCurationMode where
  | intake | finalize
  deriving DecidableEq, Repr

def InboxCurationMode.debug : InboxCurationMode → String
  | .intake => "Intake"
  | .finalize => "Finalize"

/-- The mode in a ledger key (`inbox_curation_key`). -/
def inboxCurationKey : InboxCurationMode → String
  | .intake => "intake"
  | .finalize => "finalize"

inductive RefreshBoundary where
  | cohortOpen | postArchive
  deriving DecidableEq, Repr

def RefreshBoundary.asStr : RefreshBoundary → String
  | .cohortOpen => "cohort-open"
  | .postArchive => "post-archive"

inductive NotificationEvent where
  | taskEscalated | approvalPending | publishCiFailed
  deriving DecidableEq, Repr

def NotificationEvent.asStr : NotificationEvent → String
  | .taskEscalated => "task.escalated"
  | .approvalPending => "approval.pending"
  | .publishCiFailed => "publish.ci_failed"

/-- The planner's executor level. -/
inductive Level where
  | coderFast | coder | coderDeep
  deriving DecidableEq, Repr

/-- The planner's blast-radius classification, in increasing order. -/
inductive Risk where
  | low | medium | high
  deriving DecidableEq, Repr

def Risk.asStr : Risk → String
  | .low => "low"
  | .medium => "medium"
  | .high => "high"

/-- The order derived from the declaration. -/
def Risk.rank : Risk → Nat
  | .low => 0
  | .medium => 1
  | .high => 2

inductive DeliveryTarget where
  | current | nextMajor
  deriving DecidableEq, Repr

/-- Why admission was latched closed (`CloseReason`). -/
inductive CloseReason where
  | cohortSize | cohortMaxAge | cohortTokenBudget | queueEmpty | onlyConflictsWithReady
  deriving DecidableEq, Repr

/-- The serializable counterpart of `CloseReason`. -/
inductive CloseReasonWire where
  | cohortSize | cohortMaxAge | cohortTokenBudget | legacyCohortStateAbsent | queueEmpty
  | onlyConflictsWithReady
  deriving DecidableEq, Repr

def CloseReason.toWire : CloseReason → CloseReasonWire
  | .cohortSize => .cohortSize
  | .cohortMaxAge => .cohortMaxAge
  | .cohortTokenBudget => .cohortTokenBudget
  | .queueEmpty => .queueEmpty
  | .onlyConflictsWithReady => .onlyConflictsWithReady

def CloseReasonWire.asLegacyLiteral : CloseReasonWire → String
  | .cohortSize => "COHORT_SIZE"
  | .cohortMaxAge => "COHORT_MAX_AGE"
  | .cohortTokenBudget => "COHORT_TOKEN_BUDGET"
  | .legacyCohortStateAbsent => "LEGACY_COHORT_STATE_ABSENT"
  | .queueEmpty => "очередь-пуста"
  | .onlyConflictsWithReady => "только-конфликты-с-готовыми"

/-- Durable classification of the publication CI boundary. -/
inductive CiDisposition where
  | confirmed | disabled | unconfirmedDegraded
  deriving DecidableEq, Repr

/-- Durable result of the Phase-6 archive preflight. -/
inductive ArchiveCiGate where
  | skipped | confirmed
  deriving DecidableEq, Repr

/-- The authoritative primary coordinate of a publication re-anchor. -/
inductive PublicationReanchorTarget where
  | remotePublication | localPrimary
  deriving DecidableEq, Repr

/-- Scope of a session-local Codex sandbox downgrade. -/
inductive CodexSandboxDowngrade where
  | host | worktree
  deriving DecidableEq, Repr

def CodexSandboxDowngrade.degradation : CodexSandboxDowngrade → String
  | .host =>
    "Codex sandbox-init preflight: live host limit; Codex routing downgraded for this session"
  | .worktree =>
    "Codex sandbox-init-worktree preflight: live task-worktree limit; Codex coder routing downgraded for this session"

end Orchestrail
