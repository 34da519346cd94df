import Orchestrail.Lib.Steps
import Orchestrail.Spec.Reducer

/-!
# The course of a cohort

An abstract view of the reducer: the phase and where it will return to, the phase and reviewed tip
of every task, the evidence of the integration, and nothing that only counts or explains. `Shift`
says what one accepted command may do to it.

The reducer refines this system (`dispatch_shift`), so what holds along every course holds of every
run of the program.
-/

namespace Orchestrail

/-- The phase of a task and the tip recorded for it. -/
structure Mark where
  phase : TaskPhase
  tip : Option String
  deriving DecidableEq

/-- What the safety of a cohort depends on. -/
structure Course where
  phase : Phase
  pausedFrom : Option Phase
  /-- the phase a restart interrupted, until Phase 0 is done -/
  target : Option Phase
  batch : Option CohortRuntime
  task : String → Option Mark
  /-- the number of tasks of the cohort -/
  size : Nat
  prepared : Bool
  merged : StringSet
  /-- the task whose merge is being resolved -/
  resolving : Option String
  head : Option String
  reviewed : Option String
  verified : Option String
  publishedHead : Option String
  pushed : Option Bool
  ci : Option CiDisposition
  reanchor : Bool
  journaled : Bool
  gate : Option ArchiveCiGate
  refreshedOpen : Bool
  refreshedPost : Bool

namespace Course

variable (c : Course)

/-- Task `id` is in phase `ph`. -/
def In (id : String) (ph : TaskPhase) : Prop := (c.task id).map (·.phase) = some ph

/-- No task is in a phase of the given kind. -/
def No (kind : TaskPhase → Bool) : Prop :=
  ∀ id m, c.task id = some m → kind m.phase = false

def setTask (id : String) (m : Mark) : Course :=
  { c with task := fun k => if id = k then some m else c.task k }

/-- Move every task of the set to a phase, keeping its tip. -/
def moveAll (s : StringSet) (ph : TaskPhase) : Course :=
  { c with task := fun k => if k ∈ s then (c.task k).map fun m => { m with phase := ph } else c.task k }

/-- Every merged task still is in phase `Merged`. -/
def MergedIn (ph : TaskPhase) : Prop := ∀ id ∈ c.merged, c.In id ph

/-- Escalate every active task. -/
def escalateActive : Course :=
  { c with task := fun k => (c.task k).map fun m =>
      if m.phase.isActive then { m with phase := .escalated } else m }

end Course

/-- The batch with its admission closed, unless it already was. -/
def closedFor (reason : CloseReason) (b : CohortRuntime) : CohortRuntime :=
  if b.admissionClosed.isNone then { b with admissionClosed := some reason.toWire } else b

/-- The admission of a batch may have been closed, nothing else. -/
inductive Closes : Option CohortRuntime → Option CohortRuntime → Prop
  | same {b} : Closes b b
  | close {b : CohortRuntime} {reason : CloseReason} :
      b.admissionClosed = none →
        Closes (some b) (some { b with admissionClosed := some reason.toWire })

/-- Where phase 4 goes next: it stays until the workspace is prepared, no resolution is pending and
no task is ready; then it leaves for phase 6 or 5. -/
inductive Next (c : Course) : Course → Prop
  | unprepared : c.prepared = false → Next c c
  | resolve : c.prepared = true → c.resolving.isSome = true → Next c c
  | merge {id} : c.prepared = true → c.resolving = none → c.In id .ready → Next c c
  | clean : c.prepared = true → c.resolving = none → c.No (· = .ready) → c.merged.isEmpty = true →
      Next c { c with phase := .cleaning }
  | review : c.prepared = true → c.resolving = none → c.No (· = .ready) →
      c.merged.isEmpty = false → Next c { c with phase := .publishing }

/-- Where a cohort with closed admission goes. -/
inductive Closed (c : Course) : Course → Prop
  | wait {id m} : c.task id = some m → m.phase.isActive = true → Closed c c
  | join {id} : c.No (·.isActive) → c.In id .ready → Closed c { c with phase := .joining }
  | clean : c.No (·.isActive) → c.No (· = .ready) → Closed c { c with phase := .cleaning }

/-- The phase steps of one task that a result may cause in a given cohort phase. -/
inductive Arrow : Phase → TaskPhase → TaskPhase → Prop
  | start : Arrow .rolling .capturing .implementing
  | finish {ph} : ph = .implementing ∨ ph = .fixing → Arrow .rolling ph .committing
  | commit {phase} : Arrow phase .committing .reviewing
  | fix : Arrow .rolling .reviewing .fixing
  | fail {ph} : ph ≠ .capturing → ph ≠ .committing → ph.isActive = true →
      Arrow .rolling ph .escalated
  | failEarly {phase ph} : ph = .capturing ∨ ph = .committing → Arrow phase ph .escalated

/-- Commands that may be answered with no change of the course. -/
def silent : ProcessorCommand → Bool
  | .recover _ | .openCohort .. | .workspaceReady _ | .workspaceFailed .. | .taskCommitted ..
  | .integrationWorkspaceReady | .taskMerged .. | .mergeResolutionFinalized ..
  | .mergeResolutionAborted .. | .integrationVerified .. | .integrationFixCommitted _
  | .published .. | .publicationRejected _ | .publicationReanchorRequired .. | .publicationReanchored
  | .ciVerified _ | .ciFixCommitted _ | .archiveCiReconfirmed .. | .resume | .block _ => false
  | .integrationReview (.clean _) => false
  | _ => true

/-- Commands that, in a phase, may stop the processor with the course otherwise unchanged. -/
def mayHold (phase : Phase) : ProcessorCommand → Bool
  | .block _ => true
  | .inboxCurated _ _ (.completed _) => false
  | .inboxCurated _ .intake _ => phase = .rolling
  | .inboxCurated _ .finalize _ => phase = .cleaning
  | .taskMerged .. | .mergeResolutionFinalized .. => phase = .joining
  | .integrationVerified .. | .integrationReview _ | .integrationFix _
  | .publicationReanchorRequired .. => phase = .publishing
  | _ => false

/-- A budget check answered as exhausted or unavailable. -/
def exhausts (config : ProcessorConfig) (batch : Option CohortRuntime) : ProcessorCommand → Bool
  | .cohortBudgetChecked _ nowSecs =>
    match config.cohortBudgetSecs, batch with
    | some limit, some b => decide (limit ≤ nowSecs - b.startedAtSecs)
    | _, _ => false
  | .tokenBudgetChecked _ (.actual tokens) =>
    match config.cohortTokenBudget with
    | some limit => decide (limit ≤ tokens)
    | none => false
  | .tokenBudgetChecked _ .unavailable => true
  | _ => false

/-- A clean review of a task and the tip it names. -/
def cleanReview (taskId : String) : ProcessorCommand → Option String
  | .taskReview id (.clean sha) | .taskReview id (.cleanRiskElevated sha _)
  | .taskReviewPrepared id (.completed (.clean sha))
  | .taskReviewPrepared id (.completed (.cleanRiskElevated sha _)) =>
    if id = taskId then some sha else none
  | _ => none

/-- A CI observation that leaves the head unconfirmed: of phase 5, or of the archive preflight, which
takes the cohort back to phase 5. -/
inductive Observed (c : Course) : ProcessorCommand → CiOutcome → Course → Prop
  | publish {outcome} : c.phase = .publishing → Observed c (.ciVerified outcome) outcome c
  | archive {head outcome} : c.phase = .cleaning → c.publishedHead = some head → c.gate = none →
      c.journaled = true → c.pushed = some true → c.ci = some .confirmed →
      Observed c (.archiveCiReconfirmed head outcome) outcome
        { c with journaled := false, phase := .publishing }

/-- The batch after a wave of `n` tasks. -/
def CohortRuntime.withWave (b : CohortRuntime) (n : Nat) : CohortRuntime :=
  { b with admittedTotal := b.admittedTotal + n, wave := satAdd b.wave 1 }

/-- Phase 0 computes the phase to return to from the evidence, not from the interrupted phase. -/
def rebuilt : Option Phase → Bool
  | some .blocked | some .paused | some .cleaning | some .publishing => false
  | _ => true

/-- **What one accepted command may do to the course.** -/
inductive Shift (config : ProcessorConfig) (c : Course) : ProcessorCommand → Course → Prop
  | stay {cmd} : silent cmd = true → Shift config c cmd c
  | hold {cmd} : mayHold c.phase cmd = true → Shift config c cmd { c with phase := .blocked }
  | pause : c.phase ≠ .paused →
      Shift config c .pause { c with pausedFrom := some c.phase, phase := .paused }
  | resumeStay {phase} : c.phase = .paused → phase = c.pausedFrom.getD .recovery →
      phase ≠ .joining → Shift config c .resume { c with pausedFrom := none, phase := phase }
  | resumeHold : c.phase = .paused → c.pausedFrom = some .publishing →
      Shift config c .resume { c with pausedFrom := none, phase := .blocked }
  | resumeJoin {d} : c.phase = .paused → c.pausedFrom = some .joining →
      Next { c with pausedFrom := none, phase := .joining } d → Shift config c .resume d
  | recoverHold {ws target} : c.phase = .recovery →
      (target = none ∧ c.target = some .blocked ∨
        target = c.target ∧ ∃ id m, c.task id = some m ∧ m.phase.isActive = true ∧ id ∉ ws) →
      Shift config c (.recover ws) { c with phase := .blocked, target := target }
  | recoverIdle {ws} : c.phase = .recovery → c.target ≠ some .blocked → c.batch = none →
      Shift config c (.recover ws) { c with phase := .idle, target := none }
  | recoverTo {ws ph} : c.phase = .recovery → c.batch.isSome = true → c.target = some ph →
      (ph = .paused ∨ ph = .cleaning ∨ ph = .publishing) →
      (∀ id m, c.task id = some m → m.phase.isActive = true → id ∈ ws) →
      Shift config c (.recover ws) { c with phase := ph, target := none }
  | recoverStop {ws} : c.phase = .recovery → c.batch.isSome = true → c.target = some .publishing →
      Shift config c (.recover ws) { c with phase := .blocked, target := none }
  | recoverJoin {ws} : c.phase = .recovery → c.batch.isSome = true →
      rebuilt c.target = true →
      (∀ id m, c.task id = some m → m.phase.isActive = true → id ∈ ws) →
      (c.prepared = true ∨ ∃ id, c.In id .ready) →
      Shift config c (.recover ws) { c with phase := .joining, target := none }
  | recoverNext {ws d} : c.phase = .recovery → c.batch.isSome = true →
      rebuilt c.target = true →
      c.No (·.isActive) → (c.prepared = true ∨ ∃ id, c.In id .ready) →
      Next { c with phase := .joining, target := none } d → Shift config c (.recover ws) d
  | recoverRoll {ws} : c.phase = .recovery → c.batch.isSome = true →
      rebuilt c.target = true →
      (∀ id m, c.task id = some m → m.phase.isActive = true → id ∈ ws) →
      c.prepared = false → c.No (· = .ready) →
      Shift config c (.recover ws) { c with phase := .rolling, target := none }
  | openCohort {b : CohortRuntime} : c.phase = .idle ∨ c.phase = .opening → c.batch = none →
      b.admittedTotal = 0 → b.admissionClosed = none →
      Shift config c (.openCohort b.id b.base b.startedAtSecs)
        { phase := .rolling, pausedFrom := c.pausedFrom, target := c.target, batch := some b
          task := fun _ => none, size := 0, prepared := false, merged := ∅, resolving := none
          head := none, reviewed := none, verified := none, publishedHead := none, pushed := none
          ci := none, reanchor := false, journaled := false, gate := none
          refreshedOpen := false, refreshedPost := false }
  | admitWave {candidates now b batch} {ids : List String} : c.phase = .rolling →
      c.batch = some b → b.admissionClosed = none → ids.Nodup → (∀ id ∈ ids, c.task id = none) →
      b.admittedTotal + ids.length ≤ config.cohortSize.toNat →
      Closes (some (b.withWave ids.length)) batch →
      Shift config c (.admitWave candidates now)
        { c with
          batch := batch
          size := c.size + ids.length
          task := fun k => if k ∈ ids then some ⟨.capturing, none⟩ else c.task k }
  | closeWave {candidates now batch d} : c.phase = .rolling → Closes c.batch batch →
      batch.any (·.admissionClosed.isSome) = true → Closed { c with batch := batch } d →
      Shift config c (.admitWave candidates now) d
  | advance {now batch d} : c.phase = .rolling → Closes c.batch batch →
      batch.any (·.admissionClosed.isNone) = false → Closed { c with batch := batch } d →
      Shift config c (.advance now) d
  | refreshOpen {outcome} : c.phase = .rolling → c.refreshedOpen = false →
      Shift config c (.dependencyGraphRefreshed .cohortOpen outcome) { c with refreshedOpen := true }
  | refreshPost {outcome} : c.phase = .cleaning → c.refreshedPost = false →
      Shift config c (.dependencyGraphRefreshed .postArchive outcome) { c with refreshedPost := true }
  | halt {cmd b reason d} : c.batch = some b → exhausts config c.batch cmd = true →
      Closed { c.escalateActive with batch := some (closedFor reason b) } d → Shift config c cmd d
  | task {cmd id from_ to_} : Arrow c.phase from_.phase to_ → c.task id = some from_ →
      (∀ id sha, cmd ≠ .taskCommitted id sha) → silent cmd = true ∨ cmd = .workspaceReady id ∨
        (∃ reason, cmd = .workspaceFailed id reason) →
      Shift config c cmd (c.setTask id ⟨to_, from_.tip⟩)
  | taskReady {cmd id tip} : c.phase = .rolling → c.task id = some ⟨.reviewing, some tip⟩ →
      cleanReview id cmd = some tip → Shift config c cmd (c.setTask id ⟨.ready, some tip⟩)
  | taskCommitted {id from_ to_ tip} : Arrow c.phase .committing to_ →
      c.task id = some ⟨.committing, from_⟩ →
      Shift config c (.taskCommitted id tip) (c.setTask id ⟨to_, some tip⟩)
  | workspaceReady {d} : c.phase = .joining → Next { c with prepared := true } d →
      Shift config c .integrationWorkspaceReady d
  | merged {id tip sha d} : c.phase = .joining → c.task id = some ⟨.ready, tip⟩ →
      Next { c.setTask id ⟨.merged, some sha⟩ with
        head := some sha, verified := none, merged := c.merged.insert id } d →
      Shift config c (.taskMerged id (.merged sha)) d
  | quarantined {id tip reason d} : c.phase = .joining → c.task id = some ⟨.ready, tip⟩ →
      Next (c.setTask id ⟨.conflict, tip⟩) d →
      Shift config c (.taskMerged id (.quarantined reason)) d
  | needsResolution {id tip pre all paths fingerprints} : c.phase = .joining →
      c.task id = some ⟨.ready, tip⟩ → c.resolving = none →
      Shift config c (.taskMerged id (.needsResolution pre all paths fingerprints))
        { c.setTask id ⟨.resolvingMerge, tip⟩ with resolving := some id }
  | resolved {id tip sha d} : c.phase = .joining → c.task id = some ⟨.resolvingMerge, tip⟩ →
      c.resolving = some id →
      Next { c.setTask id ⟨.merged, some sha⟩ with
        resolving := none, head := some sha, verified := none, merged := c.merged.insert id } d →
      Shift config c (.mergeResolutionFinalized id (.merged sha)) d
  | unresolved {cmd id tip d} : c.phase = .joining → c.task id = some ⟨.resolvingMerge, tip⟩ →
      c.resolving = some id →
      (∃ reason, cmd = .mergeResolutionFinalized id (.quarantined reason) ∨
        cmd = .mergeResolutionAborted id reason) →
      Next { c.setTask id ⟨.conflict, tip⟩ with resolving := none } d → Shift config c cmd d
  | verified {head outcome} : c.phase = .publishing → c.head = some head →
      (outcome = .passed ∨ ∃ reason, outcome = .exempt reason) →
      Shift config c (.integrationVerified head outcome) { c with verified := some head }
  | reviewed {head} : c.phase = .publishing → c.head = some head →
      Shift config c (.integrationReview (.clean head))
        { c with reviewed := some head, verified := none }
  | findings {signature count ids phase} : c.phase = .publishing →
      (phase = .publishing ∨ phase = .blocked) →
      Shift config c (.integrationReview (.findings signature count ids))
        { c with verified := none, phase := phase }
  | fixCommitted {head phase} : c.phase = .publishing → (phase = .publishing ∨ phase = .blocked) →
      Shift config c (.integrationFixCommitted head)
        { c with head := some head, verified := none, phase := phase }
  | published {head pushed} : c.phase = .publishing → c.merged.isEmpty = false →
      c.head = some head → c.verified = some head → c.MergedIn .merged →
      Shift config c (.published head pushed)
        { c.moveAll c.merged .published with
          reanchor := false, publishedHead := some head, pushed := some pushed, ci := none
          gate := none }
  | rejected {reason} : c.phase = .publishing → c.merged.isEmpty = false → c.MergedIn .merged →
      c.journaled = false →
      Shift config c (.publicationRejected reason)
        { c.moveAll c.merged .escalated with merged := ∅, phase := .cleaning }
  | reanchorRequired {reason target} : c.phase = .publishing → c.merged.isEmpty = false →
      c.publishedHead = none → c.head.isSome = true → c.verified = c.head →
      Shift config c (.publicationReanchorRequired reason target) { c with reanchor := true }
  | reanchored : c.phase = .publishing → c.reanchor = true → c.merged.isEmpty = false →
      c.MergedIn .merged →
      Shift config c .publicationReanchored
        { c.moveAll c.merged .ready with
          prepared := false, merged := ∅, ci := none, resolving := none, head := none
          reviewed := none, verified := none, publishedHead := none, pushed := none
          reanchor := false, phase := .joining }
  | ciSettled {outcome head pushed d} : c.phase = .publishing → c.publishedHead = some head →
      (∀ b, c.pushed = some b → pushed = b) →
      (outcome = .passed ∧ d = .confirmed ∨
        (outcome = .localOnly ∨ outcome = .disabled) ∧ d = .disabled ∨
        (∃ reason, outcome = .bestEffortDegraded reason) ∧ d = .unconfirmedDegraded) →
      Shift config c (.ciVerified outcome)
        { c with pushed := some pushed, ci := some d, phase := .cleaning }
  | ciOpen {cmd reason head d} : Observed c cmd (.requiredUnconfirmed reason) d →
      d.publishedHead = some head → (∀ b, d.pushed = some b → b = true) →
      Shift config c cmd { d with pushed := some true, ci := some .unconfirmedDegraded }
  | ciFailed {cmd signature reason head d} : Observed c cmd (.failed signature reason) d →
      d.publishedHead = some head → (∀ b, d.pushed = some b → b = true) →
      Shift config c cmd { d with pushed := some true, ci := none }
  | ciGivenUp {cmd signature reason head d} : Observed c cmd (.failed signature reason) d →
      d.publishedHead = some head → (∀ b, d.pushed = some b → b = true) →
      Shift config c cmd
        { d with pushed := some true, ci := some .unconfirmedDegraded, phase := .blocked }
  | ciHold {cmd head} : c.phase = .publishing → c.publishedHead = some head →
      c.pushed = some true → (∃ outcome, cmd = .ciFix outcome) ∨ (∃ outcome, cmd = .ciFixPrepared outcome) →
      Shift config c cmd { c with ci := some .unconfirmedDegraded, phase := .blocked }
  | repaired {head} : c.phase = .publishing →
      Shift config c (.ciFixCommitted head)
        { c with publishedHead := some head, ci := none, gate := none }
  | skipped : c.phase = .cleaning → c.journaled = true → c.gate = none → c.batch.isSome = true →
      c.No (· = .merged) → (∀ id ∈ c.merged, c.In id .published ∨ c.In id .done) →
      (∀ id, c.In id .published → id ∈ c.merged) →
      (c.merged.isEmpty = false → c.publishedHead.isSome = true ∧ c.pushed.isSome = true ∧
        c.ci.isSome = true) →
      Shift config c (.archivalPrepared .skipped) { c with gate := some .skipped }
  | reconfirmed {head} : c.phase = .cleaning → c.journaled = true → c.gate = none →
      c.publishedHead = some head → c.pushed = some true → c.ci = some .confirmed →
      Shift config c (.archiveCiReconfirmed head .passed) { c with gate := some .confirmed }
  | finished : c.phase = .cleaning → c.No (· = .merged) → c.gate.isSome = true →
      c.refreshedPost = true →
      Shift config c .cleanupComplete
        { phase := .idle, pausedFrom := c.pausedFrom, target := c.target, batch := none
          task := fun k => (c.task k).map fun m =>
            if m.phase = .published then { m with phase := .done } else m
          size := c.size, prepared := false, merged := ∅, resolving := none
          head := none, reviewed := none, verified := none, publishedHead := none, pushed := none
          ci := none, reanchor := false, journaled := false, gate := none
          refreshedOpen := false, refreshedPost := false }

/-- A blocked or paused processor answers everything but its own exits with a wait. -/
def Course.stands (c : Course) : ProcessorCommand → Bool
  | .recover _ => decide (c.phase = .paused)
  | .resume | .block _ => decide (c.phase = .blocked)
  | _ => decide (c.phase = .blocked ∨ c.phase = .paused)

/-- One step in the life of a cohort. -/
inductive Moves (config : ProcessorConfig) (c : Course) : ProcessorStep → Course → Prop
  | stand {cmd} : c.stands cmd = true → Moves config c (.apply cmd) c
  | shift {cmd d} : c.stands cmd = false → Shift config c cmd d → Moves config c (.apply cmd) d
  | noted {effect} : Moves config c (.acknowledge effect) c
  | journal : c.phase = .cleaning →
      Moves config c (.acknowledge .writeJournalAndStatus) { c with journaled := true }
  | restart : Moves config c .restart { c with phase := .recovery, target := some c.phase }

/-- The course before anything happened. -/
def Course.initial : Course :=
  { phase := .recovery, pausedFrom := none, target := none, batch := none
    task := fun _ => none, size := 0, prepared := false, merged := ∅, resolving := none
    head := none, reviewed := none, verified := none, publishedHead := none, pushed := none
    ci := none, reanchor := false, journaled := false, gate := none
    refreshedOpen := false, refreshedPost := false }

end Orchestrail
