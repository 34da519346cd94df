import Orchestrail.Proof.Docking

/-!
# What stops the processor

A few commands leave the processor blocked or paused. Which, depends on the state before them
(`mayStop`), and what such a turn asks for is acknowledged without a command (`dispatch_halts`).
-/

namespace Orchestrail

open Std Table Outcome Steps

/-- Only the result a command brings answers the effect. -/
def awaitsCommand : Effect → Bool
  | .persistCheckpoint | .waitForOperator _ | .reconcile _ => false
  | effect => !acknowledgementOnlyEffect effect

namespace Processor

variable (p : Processor)

def Stopped : Prop := p.state.phase = .blocked ∨ p.state.phase = .paused

/-- The CI repairs are used up by another failure, or stagnate. -/
def repairsUsedUp (signature : String) : Bool :=
  (reviewCycleDecision (satAdd p.state.integration.ciCycles 1)
      p.config.ciFixMax.toNat).escalationReason.isSome ||
    (stagnationReason (signaturesFrom (p.state.integration.signatures ++ [signature]))
      p.config.stagnationLimit.toNat).isSome

/-- **The commands that stop the processor**, by what they report and the state before them. -/
def mayStop : ProcessorCommand → Bool
  | .pause | .resume | .block _ => true
  | .recover workspacesPresent =>
    p.recoveryTarget = some .blocked || p.recoveryTarget = some .paused ||
      p.taskList.any (fun t => t.phase.isActive && !workspacesPresent.contains t.id) ||
      (p.recoveryTarget = some .publishing &&
        p.config.integrationLoopMax.toNat ≤ p.state.integration.fCycles)
  | .inboxCurated _ _ (.completed _) => false
  | .inboxCurated .. => true
  | .taskMerged _ (.failed _) | .mergeResolutionFinalized _ (.failed _) => true
  | .integrationVerified _ (.failed ..) | .integrationVerified _ (.blocked _) => true
  | .integrationReview (.clean _) =>
    p.config.integrationLoopMax.toNat < satAdd p.state.integration.fCycles 1
  | .integrationReview (.findings signature _ _) =>
    p.config.integrationLoopMax.toNat < satAdd p.state.integration.fCycles 1 ||
      (stagnationReason (signaturesFrom (p.state.integration.signatures ++ [signature]))
        p.config.stagnationLimit.toNat).isSome
  | .integrationReview .incomplete =>
    p.config.integrationLoopMax.toNat ≤ satAdd p.state.integration.fCycles 1
  | .integrationReview _ => true
  | .integrationFix (.completed _) | .integrationFix (.completedWithWontFix ..) => false
  | .integrationFix _ => true
  | .integrationFixCommitted _ =>
    p.config.integrationLoopMax.toNat ≤ p.state.integration.fCycles
  | .publicationReanchorRequired .. =>
    p.config.integrationLoopMax.toNat ≤ p.state.integration.publicationReanchorCycles
  | .ciVerified (.failed signature _) | .archiveCiReconfirmed _ (.failed signature _) =>
    p.repairsUsedUp signature
  | .ciFixPrepared (.escalated _) => true
  | .ciFix (.completed _) => false
  | .ciFix _ => true
  | _ => false

/-- A turn that stops was one that may, and asks for nothing a command must answer. -/
def Halts (cmd : ProcessorCommand) (x : Processor × List Effect) : Prop :=
  x.1.Stopped → p.mayStop cmd = true ∧ ∀ e ∈ x.2, awaitsCommand e = false

variable {p} {q : Processor} {cmd : ProcessorCommand} {effects : List Effect}

theorem halts_of_phase {ph : Phase} (h : q.state.phase = ph) (hph : ph ≠ .blocked ∧ ph ≠ .paused) :
    p.Halts cmd (q, effects) := by
  rintro (hq | hq)
  · exact absurd (h.symm.trans hq) hph.1
  · exact absurd (h.symm.trans hq) hph.2

theorem halts_one {e : Effect} (h : p.mayStop cmd = true) (he : awaitsCommand e = false) :
    p.Halts cmd (q, [e]) := fun _ => ⟨h, by simpa using he⟩

theorem halts_two {e e' : Effect} (h : p.mayStop cmd = true) (he : awaitsCommand e = false)
    (he' : awaitsCommand e' = false) : p.Halts cmd (q, [e, e']) := fun _ => ⟨h, by simp [he, he']⟩

/-! ## The boundaries -/

theorem failIntegration_halts {p' : Processor} {reason : String} (h : p.mayStop cmd = true) :
    Post (p'.failIntegration reason) (p.Halts cmd) := post_ok.2 (halts_two h rfl rfl)

/-- Phase 4 goes on, or to one of the next two phases. -/
theorem nextMergeOrReview_halts {p' : Processor} (hp : p'.state.phase = .joining) :
    Post p'.nextMergeOrReview (p.Halts cmd) := by
  unfold nextMergeOrReview
  split
  · simp only [post_bind]
    exact post_of_forall fun branch => post_ok.2 (halts_of_phase hp (by decide))
  split
  · exact post_ok.2 (halts_of_phase hp (by decide))
  split
  · exact post_ok.2 (halts_of_phase hp (by decide))
  split
  · exact post_ok.2 (halts_of_phase (rfl : Phase.cleaning = .cleaning) (by decide))
  · exact post_ok.2 (halts_of_phase (rfl : Phase.publishing = .publishing) (by decide))

theorem publishingResumeEffect_halts {p' : Processor} (hp : p'.state.phase = .publishing)
    (h : p'.config.integrationLoopMax.toNat ≤ p'.state.integration.fCycles → p.mayStop cmd = true) :
    Post p'.publishingResumeEffect fun x =>
      x.1.Stopped → p.mayStop cmd = true ∧ awaitsCommand x.2 = false := by
  have hgo : ∀ e : Effect, p'.Stopped → p.mayStop cmd = true ∧ awaitsCommand e = false := by
    rintro e (hq | hq) <;> (rw [hp] at hq; cases hq)
  unfold publishingResumeEffect
  dsimp only
  split
  · simp only [post_bind]
    exact post_of_forall fun id => post_ok.2 (hgo _)
  split
  · exact post_ok.2 (hgo _)
  split
  · simp only [post_bind]
    exact post_of_forall fun id => post_ok.2 (hgo _)
  split
  · rename_i hlimit
    exact post_ok.2 fun _ => ⟨h hlimit, rfl⟩
  · exact post_ok.2 (hgo _)

/-! ## The turns -/

theorem pause_halts : Post p.pause (p.Halts .pause) := by
  simp only [pause, post_ite, post_ok]
  exact ⟨fun _ => halts_one rfl rfl, fun _ => halts_one rfl rfl⟩

theorem resume_halts : Post p.resume (p.Halts .resume) := by
  simp only [resume, post_bind, post_require]
  intro _
  split
  · rename_i hph
    exact post_ok.2 (halts_of_phase hph (by decide))
  · rename_i hph
    exact nextMergeOrReview_halts hph
  · rename_i hph
    simp only [post_bind]
    refine (publishingResumeEffect_halts hph fun _ => show p.mayStop .resume = true from rfl).mono fun x h =>
      post_ok.2 fun hs => ⟨rfl, by simpa using (h hs).2⟩
  all_goals exact post_ok.2 (halts_one rfl rfl)

theorem inboxCurated_halts {n : Nat} {mode : InboxCurationMode} {outcome : LeafOutcome}
    (hp : ¬p.Stopped) : Post (p.inboxCurated n mode outcome) (p.Halts (.inboxCurated n mode outcome)) := by
  have hhold : ∀ {cmd : ProcessorCommand} (reason : String), p.mayStop cmd = true →
      Post (p.holdInbox reason) (p.Halts cmd) := fun reason h => post_ok.2 (halts_one h rfl)
  simp only [inboxCurated, post_bind]
  refine post_check ?_
  cases outcome with
  | completed author => cases mode <;> exact post_ok.2 fun hs => absurd hs hp
  | retryableFailure reason | escalated reason => exact hhold _ rfl
  | riskElevated author risk wontFixed => exact hhold _ rfl
  | completedWithWontFix author count => exact hhold _ rfl

theorem recordMergedTask_halts {p' : Processor} {id sha : String} (hp : p'.state.phase = .joining) :
    Post (p'.recordMergedTask id sha) (p.Halts cmd) := by
  simp only [recordMergedTask, post_bind, post_taskMut]
  exact post_check fun t _ => nextMergeOrReview_halts hp

theorem quarantineMergedTask_halts {p' : Processor} {id reason : String}
    (hp : p'.state.phase = .joining) :
    Post (p'.quarantineMergedTask id reason) (p.Halts cmd) := by
  simp only [quarantineMergedTask, post_bind, post_taskMut]
  intro t _
  refine (@nextMergeOrReview_halts p cmd (p'.withTask id _) hp).mono fun x h =>
    post_ok.2 fun hs => ?_
  obtain ⟨hm, hq⟩ := h hs
  exact ⟨hm, List.forall_mem_cons.2 ⟨rfl, hq⟩⟩

theorem taskMerged_halts {id : String} {outcome : MergeOutcome} :
    Post (p.taskMerged id outcome) (p.Halts (.taskMerged id outcome)) := by
  simp only [taskMerged, post_bind, post_requirePhase, post_taskMut, post_expectTaskPhase]
  intro hp t _ _
  cases outcome with
  | merged sha => exact recordMergedTask_halts hp
  | needsResolution pre mergePaths paths protectedPaths =>
    simp only [post_bind, post_require, post_orError]
    refine post_check (post_check (post_check fun _ => post_check fun _ _ _ _ => ?_))
    exact post_ok.2 (halts_of_phase hp (by decide))
  | quarantined reason => exact quarantineMergedTask_halts hp
  | failed reason => exact failIntegration_halts rfl

theorem mergeResolutionFinalized_halts {id : String} {outcome : MergeOutcome} :
    Post (p.mergeResolutionFinalized id outcome) (p.Halts (.mergeResolutionFinalized id outcome)) := by
  simp only [mergeResolutionFinalized, post_bind, post_requirePhase, post_pending, post_taskMut,
    post_expectTaskPhase]
  intro hp _ t _ _
  cases outcome with
  | merged sha => exact recordMergedTask_halts hp
  | quarantined reason => exact quarantineMergedTask_halts hp
  | failed reason => exact failIntegration_halts rfl
  | needsResolution pre mergePaths paths protectedPaths => exact post_error

theorem integrationVerified_halts {head : String} {outcome : VerificationOutcome} :
    Post (p.integrationVerified head outcome) (p.Halts (.integrationVerified head outcome)) := by
  simp only [integrationVerified, post_bind, post_requirePhase, post_require]
  intro hp
  refine post_check fun _ => post_check ?_
  cases outcome with
  | passed | exempt reason =>
    simp only [post_bind]
    exact post_of_forall fun id => post_ok.2 (halts_of_phase hp (by decide))
  | failed signature reason => exact failIntegration_halts rfl
  | blocked reason => exact post_ok.2 (halts_one rfl rfl)

theorem integrationReview_halts {outcome : ReviewOutcome} :
    Post (p.integrationReview outcome) (p.Halts (.integrationReview outcome)) := by
  simp only [integrationReview, post_bind, post_requirePhase]
  intro hp
  cases outcome with
  | clean sha =>
    simp only [post_bind, post_require, post_ite, post_ok]
    refine post_check fun _ => ⟨fun hlimit => failIntegration_halts (by simpa [mayStop] using hlimit),
      fun _ => halts_of_phase hp (by decide)⟩
  | findings signature n ids =>
    simp only [post_bind, post_ite]
    refine post_check ⟨fun hlimit => failIntegration_halts (by simp [mayStop, hlimit]), fun _ => ?_⟩
    split
    · rename_i reason hstagnant
      exact failIntegration_halts (by simp [mayStop, hstagnant])
    · exact post_ok.2 (halts_of_phase hp (by decide))
  | incomplete =>
    simp only [post_ite]
    exact ⟨fun hlimit => failIntegration_halts (by simpa [mayStop] using hlimit),
      fun _ => post_ok.2 (halts_of_phase hp (by decide))⟩
  | escalated reason => exact failIntegration_halts rfl
  | cleanRiskElevated sha risk => exact failIntegration_halts rfl
  | findingsRiskElevated signature risk n ids => exact failIntegration_halts rfl

theorem integrationFix_halts {outcome : LeafOutcome} :
    Post (p.integrationFix outcome) (p.Halts (.integrationFix outcome)) := by
  simp only [integrationFix, post_bind, post_requirePhase]
  intro hp
  cases outcome with
  | completed author => exact post_ok.2 (halts_of_phase hp (by decide))
  | completedWithWontFix author n => exact post_ok.2 (halts_of_phase hp (by decide))
  | retryableFailure reason | escalated reason => exact failIntegration_halts rfl
  | riskElevated author risk wontFixed => exact failIntegration_halts rfl

theorem integrationFixCommitted_halts {head : String} :
    Post (p.integrationFixCommitted head) (p.Halts (.integrationFixCommitted head)) := by
  simp only [integrationFixCommitted, post_bind, post_requirePhase, post_ite]
  intro hp
  refine post_check ⟨fun hlimit => ?_, fun _ => post_ok.2 (halts_of_phase hp (by decide))⟩
  exact failIntegration_halts (decide_eq_true hlimit)

theorem publicationReanchorRequired_halts {reason : String} {target : PublicationReanchorTarget} :
    Post (p.publicationReanchorRequired reason target)
      (p.Halts (.publicationReanchorRequired reason target)) := by
  simp only [publicationReanchorRequired, post_bind, post_requirePhase, post_require, post_ite]
  intro hp _ _
  refine ⟨fun hlimit => post_ok.2 (halts_two (by simpa [mayStop] using hlimit) rfl rfl), fun _ => ?_⟩
  exact post_of_forall fun id => post_ok.2 (halts_of_phase hp (by decide))

/-- A hold asks for its record only. -/
theorem holdFailedPublishedCi_quiet {p' : Processor} {reason : String} :
    Post (p'.holdFailedPublishedCi reason) fun x => ∀ e ∈ x.2, awaitsCommand e = false := by
  simp only [holdFailedPublishedCi, post_bind, post_require, post_ok]
  exact post_check fun _ => by simp [awaitsCommand, acknowledgementOnlyEffect]

theorem repairFailedCi_halts {p' : Processor} {head signature : String}
    (hp : p'.state.phase = .publishing)
    (hused : p'.repairsUsedUp signature = true → p.mayStop cmd = true) :
    Post (p'.repairFailedCi head signature) (p.Halts cmd) := by
  have hhold : ∀ (p'' : Processor) (reason : String), p.mayStop cmd = true →
      Post (p''.holdFailedPublishedCi reason) fun x =>
        p.Halts cmd (x.1, Effect.notify .publishCiFailed head :: x.2) := fun p'' reason h =>
    holdFailedPublishedCi_quiet.mono fun x hx _ => ⟨h, List.forall_mem_cons.2 ⟨rfl, hx⟩⟩
  unfold repairFailedCi
  dsimp only
  split
  · rename_i reason hreason
    simp only [post_bind]
    refine (hhold _ _ (hused ?_)).mono fun x hx => post_ok.2 hx
    exact Bool.or_eq_true_iff.2 (.inl (congrArg Option.isSome hreason))
  split
  · rename_i reason hreason
    simp only [post_bind]
    refine (hhold _ _ (hused ?_)).mono fun x hx => post_ok.2 hx
    exact Bool.or_eq_true_iff.2 (.inr (congrArg Option.isSome hreason))
  · exact post_ok.2 (halts_of_phase hp (by decide))

theorem ciVerified_halts {p' : Processor} {outcome : CiOutcome}
    (hused : ∀ signature reason, outcome = .failed signature reason →
      p'.repairsUsedUp signature = true → p.mayStop cmd = true) :
    Post (p'.ciVerified outcome) (p.Halts cmd) := by
  simp only [ciVerified, post_bind, post_requirePhase, post_orError, post_require]
  intro hp head _
  refine post_check (post_check fun _ => ?_)
  cases outcome with
  | passed => exact post_ok.2 (halts_of_phase (rfl : Phase.cleaning = .cleaning) (by decide))
  | localOnly | disabled => exact post_ok.2 (halts_of_phase (rfl : Phase.cleaning = .cleaning) (by decide))
  | bestEffortDegraded reason => exact post_ok.2 (halts_of_phase (rfl : Phase.cleaning = .cleaning) (by decide))
  | requiredUnconfirmed reason => exact post_ok.2 (halts_of_phase hp (by decide))
  | failed signature reason => exact repairFailedCi_halts hp fun h => hused _ _ rfl h

theorem archiveCiReconfirmed_halts {head : String} {outcome : CiOutcome} :
    Post (p.archiveCiReconfirmed head outcome) (p.Halts (.archiveCiReconfirmed head outcome)) := by
  simp only [archiveCiReconfirmed, post_bind, post_requirePhase, post_require, post_orError]
  intro hp published _
  refine post_check fun _ _ _ => post_check ?_
  cases outcome with
  | passed => exact post_ok.2 (halts_of_phase hp (by decide))
  | requiredUnconfirmed reason => exact ciVerified_halts fun _ _ heq => by cases heq
  | failed signature reason =>
    refine ciVerified_halts fun _ _ heq h => ?_
    obtain ⟨rfl, -⟩ := CiOutcome.failed.inj heq
    exact h
  | localOnly | disabled | bestEffortDegraded reason => exact post_error

theorem ciFixPrepared_halts {outcome : CiFixPreparationOutcome} :
    Post (p.ciFixPrepared outcome) (p.Halts (.ciFixPrepared outcome)) := by
  simp only [ciFixPrepared, post_bind, post_requirePhase]
  intro hp
  cases outcome with
  | completed => exact post_ok.2 (halts_of_phase hp (by decide))
  | skipped | fallback => exact post_ok.2 (halts_of_phase hp (by decide))
  | sandboxDowngraded scope => exact post_ok.2 (halts_of_phase hp (by decide))
  | escalated reason => exact holdFailedPublishedCi_quiet.mono fun x h _ => ⟨rfl, h⟩

theorem ciFix_halts {outcome : LeafOutcome} : Post (p.ciFix outcome) (p.Halts (.ciFix outcome)) := by
  simp only [ciFix, post_bind, post_requirePhase, post_ok]
  intro hp
  cases outcome with
  | completed author => exact post_ok.2 (halts_of_phase hp (by decide))
  | retryableFailure reason | escalated reason =>
    exact holdFailedPublishedCi_quiet.mono fun x h _ => ⟨rfl, h⟩
  | riskElevated author risk wontFixed =>
    exact holdFailedPublishedCi_quiet.mono fun x h _ => ⟨rfl, h⟩
  | completedWithWontFix author n =>
    exact holdFailedPublishedCi_quiet.mono fun x h _ => ⟨rfl, h⟩

theorem recoveryWork_quiet {ws : StringSet} {ts : List TaskRuntime} :
    ∀ e ∈ ts.flatMap (recoveryWork ws), awaitsCommand e = false := by
  intro e he
  obtain ⟨t, -, he⟩ := List.mem_flatMap.1 he
  unfold recoveryWork at he
  split at he
  · obtain rfl := List.mem_singleton.1 he
    rfl
  · cases he

/-- Phase 0 stops where it was stopped, for a task without a workspace, and behind a review that
does not converge. -/
theorem recover_halts {ws : StringSet} (hs : Sound p) : Post (p.recover ws) (p.Halts (.recover ws)) := by
  simp only [recover, post_bind, post_require, post_ite, post_ok]
  intro _
  refine ⟨fun htarget => halts_one (by simp [mayStop, htarget]) rfl, fun hblocked => ?_⟩
  rintro ⟨tasks, work, hold⟩ hscan
  obtain ⟨rfl, hnone, hsome⟩ := recoverTasks_sound hs hscan
  dsimp only
  cases hold with
  | some reason =>
    obtain ⟨id, m, hm, hact, hws⟩ := hsome (by simp)
    obtain ⟨t, ht, rfl⟩ := Option.map_eq_some_iff.1 hm
    refine post_ok.2 (halts_one ?_ rfl)
    have hlost : p.taskList.any (fun t => t.phase.isActive && !ws.contains t.id) = true := by
      refine List.any_eq_true.2 ⟨t, mem_vals.2 ⟨id, ht⟩, ?_⟩
      rw [(hs.tasks id t ht).key]
      have hact' : t.phase.isActive = true := hact
      have habsent : ws.contains id = false :=
        Bool.eq_false_iff.2 fun h => hws (ExtTreeSet.mem_iff_contains.2 h)
      rw [hact', habsent]
      rfl
    simp [mayStop, hlost]
  | none =>
    obtain ⟨-, rfl⟩ := hnone rfl
    have hwork := @recoveryWork_quiet ws p.taskList
    generalize hq : ({ (p.withTasks p.state.tasks).withPhase
      ((p.withTasks p.state.tasks).recoveredPhase p.recoveryTarget) with recoveryTarget := none } :
        Processor) = q
    have hphase : q.state.phase = p.recoveredPhase p.recoveryTarget := by rw [← hq]; rfl
    -- the pass itself stops only where the processor was paused
    have hpaused : q.Stopped → p.mayStop (.recover ws) = true := by
      intro hstop
      unfold Stopped at hstop
      rw [hphase] at hstop
      unfold recoveredPhase at hstop
      split at hstop
      · rcases hstop with h | h <;> cases h
      split at hstop
      · rename_i htarget
        simp [mayStop, htarget]
      split at hstop
      · rcases hstop with h | h <;> cases h
      split at hstop
      · split at hstop <;> (rcases hstop with h | h <;> cases h)
      · split at hstop <;> (rcases hstop with h | h <;> cases h)
    have hreview : q.state.phase = .publishing →
        q.config.integrationLoopMax.toNat ≤ q.state.integration.fCycles →
        p.mayStop (.recover ws) = true := by
      intro hpub hlimit
      have htarget : p.recoveryTarget = some .publishing := by
        rw [hphase] at hpub
        unfold recoveredPhase at hpub
        split at hpub
        · cases hpub
        split at hpub
        · cases hpub
        split at hpub
        · cases hpub
        split at hpub
        · assumption
        · split at hpub <;> cases hpub
      have hlimit' : p.config.integrationLoopMax.toNat ≤ p.state.integration.fCycles := by
        rw [← hq] at hlimit
        exact hlimit
      simp [mayStop, htarget, hlimit']
    simp only [post_ite]
    refine ⟨fun hclean => post_ok.2 ?_, fun _ => ⟨fun hrest => ?_,
      fun _ => ⟨fun _ => ?_, fun _ => ⟨fun hpub => ?_, fun _ => post_ok.2 fun hstop =>
        ⟨hpaused hstop, hwork⟩⟩⟩⟩⟩
    · subst hq
      exact halts_of_phase hclean (show Phase.cleaning ≠ _ ∧ _ from by decide)
    · -- a lost checkout exists only after a legacy import
      have hno : p.state.integration.importedWorkspaceRestorePending = false := hs.integration.restore
      rw [Bool.and_eq_true] at hrest
      exact absurd (hno.symm.trans hrest.2) (by simp)
    · unfold resumePhase
      split
      · rename_i hph
        exact post_ok.2 (halts_of_phase hph (by decide))
      · rename_i hph
        exact nextMergeOrReview_halts hph
      · rename_i hph
        simp only [post_bind]
        refine (publishingResumeEffect_halts hph (hreview hph)).mono
          fun x h => post_ok.2 fun hstop => ?_
        exact ⟨(h hstop).1, by simpa using (h hstop).2⟩
      · exact post_ok.2 fun hstop => ⟨hpaused hstop, by simp [awaitsCommand, acknowledgementOnlyEffect]⟩
    · have hq' : q.state.phase = .publishing := by rw [← hq]; exact hpub
      simp only [post_bind]
      refine (publishingResumeEffect_halts hq' (hreview hq')).mono
        fun x h => post_ok.2 fun hstop => ⟨(h hstop).1, fun e he => ?_⟩
      rcases List.mem_append.1 he with he | he
      · exact hwork e he
      · exact List.mem_singleton.1 he ▸ (h hstop).2

end Processor

/-! ## The other commands -/

/-- The commands that may stop the processor in some state. -/
def stopsBy : ProcessorCommand → Bool
  | .pause | .resume | .block _ | .recover _ | .inboxCurated .. | .taskMerged ..
  | .mergeResolutionFinalized .. | .integrationVerified .. | .integrationReview _
  | .integrationFix _ | .integrationFixCommitted _ | .publicationReanchorRequired ..
  | .ciVerified _ | .archiveCiReconfirmed .. | .ciFixPrepared _ | .ciFix _ => true
  | _ => false

theorem Next.runs {c d : Course} (h : Next c d) (hc : c.phase ≠ .blocked ∧ c.phase ≠ .paused) :
    d.phase ≠ .blocked ∧ d.phase ≠ .paused := by
  cases h with
  | unprepared | resolve | merge => exact hc
  | clean | review => exact ⟨by simp, by simp⟩

theorem Closed.runs {c d : Course} (h : Closed c d) (hc : c.phase ≠ .blocked ∧ c.phase ≠ .paused) :
    d.phase ≠ .blocked ∧ d.phase ≠ .paused := by
  cases h with
  | wait => exact hc
  | join | clean => exact ⟨by simp, by simp⟩

/-- **Every other command leaves a running processor running.** -/
theorem Shift.runs {config : ProcessorConfig} {c d : Course} {cmd : ProcessorCommand}
    (h : Shift config c cmd d) (hcmd : stopsBy cmd = false)
    (hc : c.phase ≠ .blocked ∧ c.phase ≠ .paused) : d.phase ≠ .blocked ∧ d.phase ≠ .paused := by
  cases h with
  | stay | openCohort | admitWave | refreshOpen | refreshPost | task | taskReady | taskCommitted
  | published | rejected | reanchored | ciSettled | repaired | skipped | reconfirmed | finished
  | needsResolution | verified | reviewed | reanchorRequired =>
    first | exact hc | exact ⟨by simp, by simp⟩
  | @hold cmd hm => cases cmd <;> simp [mayHold, stopsBy] at hm hcmd
  | pause | resumeStay | resumeHold | resumeJoin | recoverHold | recoverIdle | recoverTo | recoverStop
  | recoverJoin | recoverNext | recoverRoll | findings | fixCommitted => cases hcmd
  | closeWave _ _ _ hcl | advance _ _ _ hcl | halt _ _ hcl => exact hcl.runs hc
  | workspaceReady _ hn | merged _ _ hn | quarantined _ _ hn | resolved _ _ _ hn =>
    exact hn.runs hc
  | unresolved _ _ _ _ hn => exact hn.runs hc
  | ciOpen hobs | ciFailed hobs | ciGivenUp hobs => cases hobs <;> cases hcmd
  | ciHold _ _ _ hfix =>
    rcases hfix with ⟨_, rfl⟩ | ⟨_, rfl⟩ <;> cases hcmd

namespace Processor

variable {p q : Processor} {cmd : ProcessorCommand} {effects : List Effect}

/-- **A transition that stops the processor was one that may**, and asks for nothing that a command
must answer. -/
theorem dispatch_halts (hs : Sound p) (hstand : p.standingReply cmd = none) :
    Post (p.dispatch cmd) (p.Halts cmd) := by
  cases hcmd : stopsBy cmd with
  | true =>
    have hrun : ∀ n mode outcome, cmd = .inboxCurated n mode outcome → ¬p.Stopped := by
      rintro n mode outcome rfl (hp | hp) <;> simp [standingReply, hp] at hstand
    cases cmd with
    | pause => exact pause_halts
    | resume => exact resume_halts
    | block reason => exact post_ok.2 (halts_one rfl rfl)
    | recover ws => exact recover_halts hs
    | inboxCurated n mode outcome => exact inboxCurated_halts (hrun n mode outcome rfl)
    | taskMerged id outcome => exact taskMerged_halts
    | mergeResolutionFinalized id outcome => exact mergeResolutionFinalized_halts
    | integrationVerified head outcome => exact integrationVerified_halts
    | integrationReview outcome => exact integrationReview_halts
    | integrationFix outcome => exact integrationFix_halts
    | integrationFixCommitted head => exact integrationFixCommitted_halts
    | publicationReanchorRequired reason target => exact publicationReanchorRequired_halts
    | ciVerified outcome =>
      refine ciVerified_halts fun signature reason heq h => ?_
      subst heq
      exact h
    | archiveCiReconfirmed head outcome => exact archiveCiReconfirmed_halts
    | ciFixPrepared outcome => exact ciFixPrepared_halts
    | ciFix outcome => exact ciFix_halts
    | _ => cases hcmd
  | false =>
    intro x hx hstop
    obtain ⟨-, hshift⟩ := dispatch_refines hs hx
    have hc : p.course.phase ≠ .blocked ∧ p.course.phase ≠ .paused := by
      constructor <;>
      · intro hp
        have hp' : p.state.phase = _ := hp
        cases cmd <;> first | (cases hcmd; done) | simp [standingReply, hp'] at hstand
    obtain ⟨hb, hp⟩ := hshift.runs hcmd hc
    exact (hstop.elim hb hp).elim

theorem guardModelEffect_quiet {config : ProcessorConfig} {e : Effect} (h : awaitsCommand e = false) :
    awaitsCommand (guardModelEffect config e) = false := by
  cases e <;> first | exact h | cases h

/-- **A command that stops the processor** is one that may, and leaves it nothing to wait for but
acknowledgements. -/
theorem apply_halts (hs : Sound p) (h : p.apply cmd = .ok (q, effects))
    (hstand : p.standingReply cmd = none) (hstop : q.Stopped) :
    p.mayStop cmd = true ∧ ∀ e ∈ effects, awaitsCommand e = false := by
  unfold apply at h
  rw [hstand] at h
  simp only [bind_eq_ok] at h
  obtain ⟨⟨next, more⟩, hd, h⟩ := h
  obtain ⟨rfl, rfl⟩ := Prod.mk.inj (Except.ok.inj h)
  obtain ⟨hmay, hquiet⟩ := dispatch_halts hs hstand _ hd hstop
  refine ⟨hmay, ?_⟩
  have hguarded : ∀ e ∈ (if isBudgetCheck cmd then more else next.guardModelEffects more),
      awaitsCommand e = false := by
    split
    · exact hquiet
    · intro e he
      obtain ⟨e', he', rfl⟩ := List.mem_map.1 he
      exact guardModelEffect_quiet (hquiet e' he')
  unfold persistFirst
  split
  · exact fun e he => hguarded e (by simp_all)
  · exact fun e he => hguarded e (by simp_all)
  · exact List.forall_mem_cons.2 ⟨rfl, hguarded⟩

end Processor

end Orchestrail
