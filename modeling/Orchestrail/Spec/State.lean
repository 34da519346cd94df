import Orchestrail.Lib.Table
import Orchestrail.Spec.Vocab

/-!
# The durable state of the processor

The records of `processor.rs`: configuration, per-task runtime, cohort, integration progress and
the checkpoint. A `u32` limit of the configuration is a `UInt32`; a `u32` counter of the state is a
`Nat` that saturates at `u32Max`, as every update of the source does. `BTreeMap` and `BTreeSet` are
ordered tables. The provider conversation ids of a task (`leaf_sessions`) are not part of the
model: no transition reads them.
-/

namespace Orchestrail

open Std

abbrev StringMap (β : Type) := ExtTreeMap String β
abbrev StringSet := ExtTreeSet String

def u32Max : Nat := 4294967295

/-- `u32::saturating_add`. -/
def satAdd (a b : Nat) : Nat := min (a + b) u32Max

/-- `u32::try_from(n).unwrap_or(u32::MAX)`. -/
def toU32 (n : Nat) : Nat := min n u32Max

def processorStateVersion : Nat := 1

structure ProcessorConfig where
  maxParallel : Nat := 3
  cohortSize : UInt32 := 9
  cohortMaxAgeMinutes : Nat := 90
  cohortBudgetSecs : Option Nat := none
  cohortTokenBudget : Option Nat := none
  cohortTokenBudgetStrict : Bool := false
  eventsOutboxEnabled : Bool := true
  reviewLoopMax : UInt32 := 8
  integrationLoopMax : UInt32 := 8
  ciFixMax : UInt32 := 3
  stagnationLimit : UInt32 := 2
  leafMaxAttempts : UInt32 := 2
  deriving DecidableEq

/-- A task proposed for admission by the planner boundary. -/
structure AdmissionCandidate where
  id : String
  conflictDomain : String
  level : Level
  risk : Risk
  ready : Bool
  currentDeliveryLane : Bool
  deriving DecidableEq

structure TaskRuntime where
  id : String
  conflictDomain : String
  level : Option Level
  risk : Option Risk
  wave : Nat
  phase : TaskPhase
  leafAttempts : StringMap Nat := ∅
  reviewCycles : Nat := 0
  reviewSignatures : List String := []
  pendingFixOpenFindings : Option Nat := none
  pendingFixOpenFindingIds : Option (List String) := none
  dimensionsWithFindingsLastRound : List String := []
  implementationAuthor : Option String := none
  previousReviewSha : Option String := none
  reviewSha : Option String := none
  reason : Option String := none
  importedRecoveryIntent : Option ImportedRecoveryIntent := none
  deriving DecidableEq

namespace TaskRuntime

def new (candidate : AdmissionCandidate) (wave : Nat) : TaskRuntime :=
  { id := candidate.id
    conflictDomain := candidate.conflictDomain
    level := some candidate.level
    risk := some candidate.risk
    wave := wave
    phase := .capturing }

/-- Reserve one more attempt of a leaf. -/
def leafAttempt (task : TaskRuntime) (kind : LeafKind) : TaskRuntime :=
  { task with
    leafAttempts :=
      task.leafAttempts.insert kind.asStr (satAdd ((task.leafAttempts[kind.asStr]?).getD 0) 1) }

end TaskRuntime

structure CohortRuntime where
  id : String
  base : String
  startedAtSecs : Nat
  wave : Nat
  admittedTotal : Nat
  admissionClosed : Option CloseReasonWire
  cohortBudgetSecs : Option Nat
  cohortTokenBudget : Option Nat
  cohortTokenBudgetStrict : Bool
  tokenBudgetActualTokens : Option Nat
  eventsOutboxEnabled : Bool
  deriving DecidableEq

/-- Compact retry context for a published batch whose knowledge sentinel is still absent. -/
structure PendingKnowledgeCuration where
  base : String
  publishedHead : String
  mergedTasks : StringSet
  fixedTaskFindings : Nat
  integrationOrCiSignatures : Nat
  ciFailureCycles : Nat
  quarantinedTasks : StringSet
  escalatedTasks : StringSet
  degradations : Nat
  deriving DecidableEq

structure MergePathFingerprint where
  path : String
  sha256 : Option String
  deriving DecidableEq

/-- Durable coordinates of one integration merge conflict. -/
structure MergeResolutionRuntime where
  taskId : String
  preMergeHead : String
  mergePaths : List String
  paths : List String
  protectedPaths : List MergePathFingerprint
  deriving DecidableEq

/-- Integration progress across phases 4–6. -/
structure IntegrationRuntime where
  workspacePrepared : Bool := false
  importedWorkspaceRestorePending : Bool := false
  mergedTasks : StringSet := ∅
  fCycles : Nat := 0
  ciCycles : Nat := 0
  ciFixProviderFallback : Bool := false
  ciDisposition : Option CiDisposition := none
  leafAttempts : StringMap Nat := ∅
  verificationAttempts : Nat := 0
  publishAttempts : Nat := 0
  ciWaitAttempts : Nat := 0
  archiveCiWaitAttempts : Nat := 0
  pendingMergeResolution : Option MergeResolutionRuntime := none
  signatures : List String := []
  integrationHead : Option String := none
  reviewSha : Option String := none
  verificationHead : Option String := none
  publishedHead : Option String := none
  publicationPushed : Option Bool := none
  publicationReanchorReason : Option String := none
  publicationReanchorTarget : Option PublicationReanchorTarget := none
  publicationReanchorCycles : Nat := 0
  cleanupJournaled : Bool := false
  archiveCiGate : Option ArchiveCiGate := none
  dependencyGraphRefreshedOpen : Bool := false
  dependencyGraphRefreshedPostArchive : Bool := false
  pendingKnowledgeCurations : StringMap PendingKnowledgeCuration := ∅
  failedReason : Option String := none
  degradations : List String := []
  deriving DecidableEq

namespace IntegrationRuntime

def leafAttempt (integration : IntegrationRuntime) (kind : LeafKind) : IntegrationRuntime :=
  { integration with
    leafAttempts :=
      integration.leafAttempts.insert kind.asStr
        (satAdd ((integration.leafAttempts[kind.asStr]?).getD 0) 1) }

/-- Record a degradation note once. -/
def noteOnce (integration : IntegrationRuntime) (degradation : String) : IntegrationRuntime :=
  if integration.degradations.contains degradation then integration
  else { integration with degradations := integration.degradations ++ [degradation] }

end IntegrationRuntime

/-- The complete durable checkpoint of the reducer. -/
structure ProcessorState where
  schemaVersion : Nat := processorStateVersion
  phase : Phase := .recovery
  pausedFrom : Option Phase := none
  batch : Option CohortRuntime := none
  tasks : StringMap TaskRuntime := ∅
  integration : IntegrationRuntime := {}
  blockedReason : Option String := none
  deriving DecidableEq

/-- The reducer: its configuration, its durable state, and the phase a restart interrupted. -/
structure Processor where
  config : ProcessorConfig
  state : ProcessorState
  recoveryTarget : Option Phase := none
  deriving DecidableEq

end Orchestrail
