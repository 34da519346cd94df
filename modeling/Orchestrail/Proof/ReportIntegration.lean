import Orchestrail.Proof.ReportCohort

/-!
# Reports of phases 4 to 6

The turns of the integration, of the cleanup and of Phase 0, and with them the report of every
transition (`dispatch_report`).
-/

namespace Orchestrail

open Std Table Outcome

namespace Processor

variable {p q : Processor} {clean : Option String} {effects : List Effect}

section IntegrationTurns

theorem integrationWorkspaceReady_report (hs : Sound p) :
    Post p.integrationWorkspaceReady (p.Report none) := by
  simp only [integrationWorkspaceReady, post_bind, post_requirePhase]
  intro hp
  exact Post.mono (nextMergeOrReview_asks (p := p.withIntegration _) (keyed (p := p) hs) hp) fun x h =>
    Asks.report h .refl

theorem recordMergedTask_report {id sha : String} {p' : Processor} {t : TaskRuntime} (hs : Sound p)
    (hp : p.state.phase = .joining) (ht : p.state.tasks[id]? = some t) (hrank : t.phase.rank < 6)
    (htasks : p'.state.tasks = p.state.tasks) (hphase : p'.state.phase = p.state.phase) :
    Post (p'.recordMergedTask id sha) (p.Report none) := by
  simp only [recordMergedTask, post_bind, post_taskMut]
  refine post_check fun u hu => ?_
  rw [htasks] at hu
  obtain rfl : t = u := Option.some.inj (ht.symm.trans hu)
  have hk : Keyed (p'.state.tasks.insert id
      { t with phase := .merged, reviewSha := some sha }) :=
    (htasks ▸ keyed hs : Keyed p'.state.tasks).insert (keyed hs id t ht)
  refine (nextMergeOrReview_asks (p := (p'.withTask id _).withIntegration _) hk
    (hphase.trans hp)).mono fun x h => h.report ?_
  have hframe : Frame p.config.reviewLoopMax.toNat p.state.tasks (p.state.tasks.insert id
      { t with phase := .merged, reviewSha := some sha }) :=
    .insert ht (.rise .merged ⟨rfl, rfl, rfl⟩ rfl hrank (by decide))
  exact htasks ▸ hframe

theorem quarantineMergedTask_report {id reason : String} {p' : Processor} {t : TaskRuntime}
    (hs : Sound p) (hp : p.state.phase = .joining) (ht : p.state.tasks[id]? = some t)
    (hrank : t.phase.rank < 7) (htasks : p'.state.tasks = p.state.tasks)
    (hphase : p'.state.phase = p.state.phase) :
    Post (p'.quarantineMergedTask id reason) (p.Report none) := by
  simp only [quarantineMergedTask, post_bind, post_taskMut]
  intro u hu
  rw [htasks] at hu
  obtain rfl : t = u := Option.some.inj (ht.symm.trans hu)
  have hk : Keyed (p'.state.tasks.insert id { t with phase := .conflict, reason := some reason }) :=
    (htasks ▸ keyed hs : Keyed p'.state.tasks).insert (keyed hs id t ht)
  have hframe : Frame p.config.reviewLoopMax.toNat p.state.tasks (p'.state.tasks.insert id
      { t with phase := .conflict, reason := some reason }) := by
    rw [htasks]
    exact .insert ht (.rise .conflict ⟨rfl, rfl, rfl⟩ rfl hrank (by decide))
  refine (nextMergeOrReview_asks (p := p'.withTask id _) hk (hphase.trans hp)).mono fun x h =>
    post_ok.2 ⟨(h.report hframe).frame, fun e he => ?_⟩
  rcases List.mem_cons.1 he with rfl | he
  · trivial
  · exact h.due e he

theorem taskMerged_report {id : String} {outcome : MergeOutcome} (hs : Sound p) :
    Post (p.taskMerged id outcome) (p.Report none) := by
  simp only [taskMerged, post_bind, post_requirePhase, post_taskMut, post_expectTaskPhase]
  intro hp t ht hph
  cases outcome with
  | merged sha => exact recordMergedTask_report hs hp ht (by rw [hph]; decide) rfl rfl
  | needsResolution pre mergePaths paths protectedPaths =>
    simp only [post_bind, post_require, post_orError]
    refine post_check (post_check (post_check fun _ => post_check fun expected _ _ _ => ?_))
    refine post_ok.2 (report_one (.insert ht ?_) ⟨hp, rfl⟩)
    exact .rise .resolvingMerge ⟨rfl, rfl, rfl⟩ rfl (by rw [hph]; decide) (by decide)
  | quarantined reason => exact quarantineMergedTask_report hs hp ht (by rw [hph]; decide) rfl rfl
  | failed reason => exact failIntegration_asks.mono fun x h => h.report .refl

theorem post_pending {id : String} {Q : Unit → Prop} :
    Post (p.requirePendingMergeResolution id) Q ↔
      (p.state.integration.pendingMergeResolution.map (·.taskId) = some id → Q ()) := by
  simp only [requirePendingMergeResolution, post_bind, post_orError, post_require]
  cases p.state.integration.pendingMergeResolution with
  | none => simp
  | some pending => simp

theorem mergeResolution_report {id : String} {outcome : LeafOutcome} :
    Post (p.mergeResolution id outcome) (p.Report none) := by
  simp only [mergeResolution, post_bind, post_requirePhase, post_pending, post_taskMut,
    post_expectTaskPhase]
  intro hp hpend t ht hph
  cases outcome <;> exact post_ok.2 (report_one .refl ⟨hp, ⟨t, ht, hph⟩, hpend⟩)

theorem mergeResolutionFinalized_report {id : String} {outcome : MergeOutcome} (hs : Sound p) :
    Post (p.mergeResolutionFinalized id outcome) (p.Report none) := by
  simp only [mergeResolutionFinalized, post_bind, post_requirePhase, post_pending, post_taskMut,
    post_expectTaskPhase]
  intro hp _ t ht hph
  cases outcome with
  | merged sha => exact recordMergedTask_report hs hp ht (by rw [hph]; decide) rfl rfl
  | quarantined reason => exact quarantineMergedTask_report hs hp ht (by rw [hph]; decide) rfl rfl
  | failed reason => exact failIntegration_asks.mono fun x h => h.report .refl
  | needsResolution pre mergePaths paths protectedPaths => exact post_error

theorem mergeResolutionAborted_report {id reason : String} (hs : Sound p) :
    Post (p.mergeResolutionAborted id reason) (p.Report none) := by
  simp only [mergeResolutionAborted, post_bind, post_requirePhase, post_pending, post_taskMut,
    post_expectTaskPhase]
  intro hp _ t ht hph
  exact quarantineMergedTask_report hs hp ht (by rw [hph]; decide) rfl rfl

theorem integrationVerified_report {head : String} {outcome : VerificationOutcome} :
    Post (p.integrationVerified head outcome) (p.Report none) := by
  simp only [integrationVerified, post_bind, post_requirePhase, post_require]
  intro hp
  refine post_check fun hhead => post_check ?_
  cases outcome with
  | passed | exempt reason =>
    simp only [post_bind]
    refine post_of_forall fun id => post_ok.2 (report_one .refl ⟨hp, ?_, hhead.symm⟩)
    exact (congrArg Option.isSome hhead).trans rfl
  | failed signature reason => exact failIntegration_asks.mono fun x h => h.report .refl
  | blocked reason => exact post_ok.2 (report_one .refl trivial)

/-- The clean tip of the review is the one that is verified next. -/
theorem integrationReview_report {outcome : ReviewOutcome} :
    Post (p.integrationReview outcome)
      (p.Report (match outcome with | .clean sha => some sha | _ => none)) := by
  have hfail : ∀ (p' : Processor) (reason : String) (clean : Option String),
      p'.state.tasks = p.state.tasks → Post (p'.failIntegration reason) (p.Report clean) := by
    intro p' reason clean h
    refine failIntegration_asks.mono fun x hx => (hx.report ?_).mono
    rw [h]; exact .refl
  simp only [integrationReview, post_bind, post_requirePhase]
  intro hp
  cases outcome with
  | clean sha =>
    simp only [post_bind, post_require, post_ite, post_ok]
    refine post_check fun hhead => ⟨fun _ => hfail _ _ _ rfl, fun _ => ?_⟩
    exact report_one .refl ⟨rfl, hp, hhead, rfl⟩
  | findings signature n ids =>
    simp only [post_bind, post_ite]
    refine post_check ⟨fun _ => hfail _ _ _ rfl, fun _ => ?_⟩
    split
    · exact hfail _ _ _ rfl
    · exact post_ok.2 (report_one .refl hp)
  | incomplete =>
    simp only [post_ite]
    exact ⟨fun _ => hfail _ _ _ rfl, fun _ => post_ok.2 (report_one .refl hp)⟩
  | escalated reason => exact hfail _ _ _ rfl
  | cleanRiskElevated sha risk => exact hfail _ _ _ rfl
  | findingsRiskElevated signature risk n ids => exact hfail _ _ _ rfl

theorem integrationFix_report {outcome : LeafOutcome} :
    Post (p.integrationFix outcome) (p.Report none) := by
  simp only [integrationFix, post_bind, post_requirePhase]
  intro hp
  cases outcome with
  | completed author => exact post_ok.2 (report_one .refl hp)
  | completedWithWontFix author n => exact post_ok.2 (report_one .refl hp)
  | retryableFailure reason | escalated reason =>
    exact failIntegration_asks.mono fun x h => h.report .refl
  | riskElevated author risk wontFixed => exact failIntegration_asks.mono fun x h => h.report .refl

theorem integrationFixCommitted_report {head : String} :
    Post (p.integrationFixCommitted head) (p.Report none) := by
  simp only [integrationFixCommitted, post_bind, post_requirePhase, post_ite]
  intro hp
  refine post_check ⟨fun _ => ?_, fun _ => post_ok.2 (report_one .refl hp)⟩
  exact failIntegration_asks.mono fun x h => h.report .refl

/-- A move of every merged task. -/
theorem moveMerged_frame {operation : String} {move : TaskRuntime → TaskRuntime}
    (hmove : ∀ t : TaskRuntime, t.phase = .merged → Evolves p.config.reviewLoopMax.toNat t (move t)) :
    Post (p.moveMerged operation move) (Frame p.config.reviewLoopMax.toNat p.state.tasks) := by
  intro tasks h
  refine .updateEach (nodup_elems _) (fun id t u _ hf => ?_) h
  simp only [bind_unit_eq_ok, expectTaskPhase_eq_ok] at hf
  obtain ⟨hph, hf⟩ := hf
  obtain rfl := Except.ok.inj hf
  exact hmove t hph

theorem published_report {head : String} {pushed : Bool} :
    Post (p.published head pushed) (p.Report none) := by
  simp only [published, post_bind, post_requirePhase, post_require]
  intro hp
  refine post_check fun _ _ => ?_
  refine (moveMerged_frame fun t ht => ?_).mono fun tasks h => post_ok.2 (report_one h ⟨hp, rfl⟩)
  exact .rise .published ⟨rfl, rfl, rfl⟩ rfl (by rw [ht]; decide) (by decide)

theorem publicationRejected_report {reason : String} (hs : Sound p) :
    Post (p.publicationRejected reason) (p.Report none) := by
  simp only [publicationRejected, post_bind, post_requirePhase, post_require]
  intro _ _ _
  refine (moveMerged_frame fun t ht => ?_).mono fun tasks hframe => ?_
  · exact .rise .escalated ⟨rfl, rfl, rfl⟩ rfl (by rw [ht]; decide) (by decide)
  generalize hq : ((p.withTasks tasks).withIntegration
    { p.state.integration with mergedTasks := ∅, failedReason := some reason }).withPhase .cleaning = q
  have hk : Keyed q.state.tasks := by
    intro id u hu
    rw [← hq] at hu
    obtain ⟨t, ht, hev⟩ := hframe id u hu
    exact hev.id.trans (keyed hs id t ht)
  have hclean := cleanupEffects_due hk (by rw [← hq]; rfl)
  split
  · rename_i cleanup hcleanup
    rw [hcleanup] at hclean
    refine post_ok.2 ⟨by rw [← hq]; exact hframe, fun e he => ?_⟩
    simp only [List.mem_cons, List.mem_append, List.mem_map] at he
    rcases he with rfl | ⟨id, -, rfl⟩ | he
    · trivial
    · trivial
    · exact hclean e (List.mem_cons_of_mem _ he)
  · exact post_error

theorem publicationAwaitingApproval_report {reason : String} :
    Post (p.publicationAwaitingApproval reason) (p.Report none) := by
  simp only [publicationAwaitingApproval, post_bind, post_requirePhase, post_require, post_ok]
  intro _ _ _
  exact report_one .refl trivial

theorem publicationReanchorRequired_report {reason : String} {target : PublicationReanchorTarget} :
    Post (p.publicationReanchorRequired reason target) (p.Report none) := by
  simp only [publicationReanchorRequired, post_bind, post_requirePhase, post_require, post_ite]
  intro hp _ _
  refine ⟨fun _ => post_ok.2 (report_two .refl trivial trivial), fun _ => ?_⟩
  exact post_of_forall fun id => post_ok.2 (report_one .refl ⟨hp, rfl⟩)

theorem publicationReanchored_report : Post p.publicationReanchored (p.Report none) := by
  simp only [publicationReanchored, post_bind, post_requirePhase, post_require]
  intro _ _ _
  refine (moveMerged_frame fun t ht => ?_).mono fun tasks h =>
    post_of_forall fun branch => post_ok.2 (report_one h (by exact (rfl : Phase.joining = .joining)))
  exact ⟨rfl, rfl, .reopened ht rfl rfl⟩

/-- A hold or a wait asks for nothing that could be due. -/
def Waits (p : Processor) (x : Processor × List Effect) : Prop :=
  x.1.state.tasks = p.state.tasks ∧ ∀ q : Processor, ∀ e ∈ x.2, q.Due none e

theorem Waits.report {p' : Processor} {x : Processor × List Effect} (h : p'.Waits x)
    (htasks : p'.state.tasks = p.state.tasks) : p.Report none x :=
  ⟨by rw [h.1, htasks]; exact .refl, h.2 _⟩

theorem holdFailedPublishedCi_waits {reason : String} :
    Post (p.holdFailedPublishedCi reason) p.Waits := by
  simp only [holdFailedPublishedCi, post_bind, post_require, post_ok]
  refine post_check fun _ => ⟨rfl, fun q e he => ?_⟩
  simp only [List.mem_cons, List.not_mem_nil, or_false] at he
  rcases he with rfl | rfl <;> trivial

theorem repairFailedCi_report {head signature : String} {p' : Processor}
    (hp : p'.state.phase = .publishing) (htasks : p'.state.tasks = p.state.tasks) :
    Post (p'.repairFailedCi head signature) (p.Report none) := by
  have hframe : Frame p.config.reviewLoopMax.toNat p.state.tasks p'.state.tasks := by
    rw [htasks]; exact .refl
  have hhold : ∀ (p'' : Processor) (reason : String), p''.state.tasks = p.state.tasks →
      Post (p''.holdFailedPublishedCi reason) fun x =>
        p.Report none (x.1, Effect.notify .publishCiFailed head :: x.2) := by
    intro p'' reason h
    refine holdFailedPublishedCi_waits.mono fun x hx => ⟨?_, fun e he => ?_⟩
    · rw [hx.1, h]; exact .refl
    · rcases List.mem_cons.1 he with rfl | he
      · trivial
      · exact hx.2 _ e he
  unfold repairFailedCi
  dsimp only
  split
  · simp only [post_bind]
    exact Post.mono (hhold _ _ htasks) fun x hx => post_ok.2 hx
  split
  · simp only [post_bind]
    exact Post.mono (hhold _ _ htasks) fun x hx => post_ok.2 hx
  · exact post_ok.2 (report_two hframe trivial hp)

theorem ciVerified_report {outcome : CiOutcome} {p' : Processor}
    (htasks : p'.state.tasks = p.state.tasks) : Post (p'.ciVerified outcome) (p.Report none) := by
  have hframe : Frame p.config.reviewLoopMax.toNat p.state.tasks p'.state.tasks := by
    rw [htasks]; exact .refl
  simp only [ciVerified, post_bind, post_requirePhase, post_orError, post_require]
  intro hp head _
  refine post_check (post_check fun _ => ?_)
  cases outcome with
  | passed => exact post_ok.2 (report_one hframe (by exact (rfl : Phase.cleaning = .cleaning)))
  | localOnly | disabled =>
    exact post_ok.2 (report_one hframe (by exact (rfl : Phase.cleaning = .cleaning)))
  | bestEffortDegraded reason =>
    exact post_ok.2 (report_one hframe (by exact (rfl : Phase.cleaning = .cleaning)))
  | requiredUnconfirmed reason => exact post_ok.2 (report_two hframe trivial trivial)
  | failed signature reason => exact repairFailedCi_report hp htasks

theorem ciFixPrepared_report {outcome : CiFixPreparationOutcome} :
    Post (p.ciFixPrepared outcome) (p.Report none) := by
  simp only [ciFixPrepared, post_bind, post_requirePhase]
  intro hp
  cases outcome with
  | completed => exact post_ok.2 (report_one .refl hp)
  | skipped | fallback => exact post_ok.2 (report_one .refl hp)
  | sandboxDowngraded scope => exact post_ok.2 (report_two .refl trivial hp)
  | escalated reason => exact holdFailedPublishedCi_waits.mono fun x h => h.report rfl

theorem ciFix_report {outcome : LeafOutcome} : Post (p.ciFix outcome) (p.Report none) := by
  simp only [ciFix, post_bind, post_requirePhase, post_ok]
  intro hp
  have hhold : ∀ reason, Post (p.holdFailedPublishedCi reason) fun x =>
      p.Report none (x.1.withIntegration
        { x.1.state.integration with ciFixProviderFallback := false }, x.2) := fun reason =>
    holdFailedPublishedCi_waits.mono fun x h =>
      ⟨(h.report rfl : p.Report none x).frame, h.2 _⟩
  cases outcome with
  | completed author => exact post_ok.2 (report_one .refl hp)
  | retryableFailure reason | escalated reason => exact hhold _
  | riskElevated author risk wontFixed => exact hhold _
  | completedWithWontFix author n => exact hhold _

theorem ciFixCommitted_report {head : String} : Post (p.ciFixCommitted head) (p.Report none) := by
  simp only [ciFixCommitted, post_bind, post_requirePhase, post_ok]
  intro hp
  exact post_check (report_one .refl ⟨hp, rfl⟩)

end IntegrationTurns

section CleaningTurns

/-- The cleanup of a processor in phase 6 whose tasks did not change. -/
theorem cleanup_report {p' : Processor} (hs : Sound p) (htasks : p'.state.tasks = p.state.tasks)
    (hp : p'.state.phase = .cleaning) : p.Report none (p', p'.cleanupEffects) := by
  refine ⟨by rw [htasks]; exact .refl, cleanupEffects_due ?_ hp⟩
  rw [htasks]; exact keyed hs

theorem knowledgeCurated_report {outcome : LeafOutcome} (hs : Sound p) :
    Post (p.knowledgeCurated outcome) (p.Report none) := by
  simp only [knowledgeCurated, post_bind, post_requirePhase]
  intro hp
  refine post_of_forall fun x => ?_
  split
  · exact post_ok.2 (cleanup_report hs rfl hp)
  · exact post_ok.2 (cleanup_report hs rfl hp)

theorem knowledgeCurationPrepared_report {outcome : KnowledgeCurationPreparationOutcome}
    (hs : Sound p) : Post (p.knowledgeCurationPrepared outcome) (p.Report none) := by
  simp only [knowledgeCurationPrepared, post_bind, post_requirePhase]
  intro hp
  refine post_of_forall fun x => ?_
  cases outcome with
  | required => exact post_ok.2 (report_one .refl hp)
  | alreadyCompleted => exact post_ok.2 (cleanup_report hs rfl hp)
  | skipped => exact post_ok.2 (cleanup_report hs rfl hp)

theorem archivalPrepared_report {outcome : ArchivalPreparationOutcome} (hs : Sound p) :
    Post (p.archivalPrepared outcome) (p.Report none) := by
  simp only [archivalPrepared, post_bind, post_requirePhase, post_require, post_orError]
  intro hp _ batch _
  refine post_check (post_check (post_check (post_check (post_check (post_check fun _ => ?_)))))
  cases outcome with
  | skipped => exact post_ok.2 (cleanup_report hs rfl hp)
  | reconfirmRequired checks =>
    simp only [post_bind, post_require, post_orError, post_ok]
    refine post_check fun _ head hhead => post_check (report_one .refl ⟨hp, hhead⟩)

theorem archiveCiReconfirmed_report {head : String} {outcome : CiOutcome} (hs : Sound p) :
    Post (p.archiveCiReconfirmed head outcome) (p.Report none) := by
  simp only [archiveCiReconfirmed, post_bind, post_requirePhase, post_require, post_orError]
  intro hp published _
  refine post_check fun _ _ _ => post_check ?_
  cases outcome with
  | passed => exact post_ok.2 (cleanup_report hs rfl hp)
  | requiredUnconfirmed reason => exact ciVerified_report rfl
  | failed signature reason => exact ciVerified_report rfl
  | localOnly | disabled | bestEffortDegraded reason => exact post_error

theorem cleanupComplete_report : Post p.cleanupComplete (p.Report none) := by
  simp only [cleanupComplete, post_bind, post_requirePhase, post_require, post_ite, post_ok]
  intro hp
  refine post_check fun _ => ⟨fun h => report_one .refl ⟨hp, h⟩, fun _ => ?_⟩
  refine report_two (fun id u hu => ?_) trivial trivial
  have hu : (p.state.tasks.map fun _ t => if t.phase = .published then { t with phase := .done } else t)[id]?
      = some u := hu
  rw [ExtTreeMap.getElem?_map, Option.map_eq_some_iff] at hu
  obtain ⟨t, ht, rfl⟩ := hu
  refine ⟨t, ht, ?_⟩
  split
  · rename_i hph
    exact .rise .done ⟨rfl, rfl, rfl⟩ rfl (by rw [hph]; decide) (by decide)
  · exact .refl

end CleaningTurns

section Recovery

theorem mem_pushUnique {es more : List Effect} {e : Effect}
    (h : e ∈ more.foldl pushUniqueEffect es) : e ∈ es ∨ e ∈ more := by
  induction more generalizing es with
  | nil => exact .inl h
  | cons a more ih =>
    rcases ih h with h | h
    · unfold pushUniqueEffect at h
      split at h
      · exact .inl h
      · rcases List.mem_append.1 h with h | h
        · exact .inl h
        · exact .inr (List.mem_singleton.1 h ▸ List.mem_cons_self)
    · exact .inr (List.mem_cons_of_mem _ h)

theorem mem_orderCleanup {cleanup es : List Effect} {e : Effect} (h : e ∈ orderCleanup cleanup es) :
    e ∈ cleanup ∨ e ∈ es := by
  have hparts : ∀ (journal rest : List Effect), (∀ a ∈ journal ++ rest, a ∈ cleanup) →
      e ∈ rest.foldl pushUniqueEffect
        ((es.filter fun effect => !cleanup.contains effect).foldl pushUniqueEffect journal) →
      e ∈ cleanup ∨ e ∈ es := by
    intro journal rest hsub he
    rcases mem_pushUnique he with he | he
    · rcases mem_pushUnique he with he | he
      · exact .inl (hsub e (List.mem_append_left _ he))
      · exact .inr (List.mem_filter.1 he).1
    · exact .inl (hsub e (List.mem_append_right _ he))
  unfold orderCleanup at h
  dsimp only at h
  split at h
  · exact hparts _ _ (by simp) h
  · exact hparts _ _ (by simp) h

theorem resumePhase_asks (hk : Keyed p.state.tasks) : Post p.resumePhase p.Asks := by
  unfold resumePhase
  split
  · rename_i hp
    exact post_ok.2 (asks_one rfl (rollingBoundaryEffect_due hp))
  · rename_i hp
    exact nextMergeOrReview_asks hk hp
  · rename_i hp
    simp only [post_bind]
    exact Post.mono (publishingResumeEffect_asks hp) fun x h => post_ok.2 h
  · exact post_ok.2 (asks_one rfl trivial)

theorem recover_report {ws : StringSet} (hs : Sound p) :
    Post (p.recover ws) (p.Report none) := by
  simp only [recover, post_bind, post_require, post_ite, post_ok]
  intro _
  refine ⟨fun _ => report_one .refl trivial, fun _ => ?_⟩
  rintro ⟨tasks, work, hold⟩ hscan
  obtain ⟨rfl, hnone, -⟩ := recoverTasks_sound hs hscan
  dsimp only
  cases hold with
  | some reason => exact post_ok.2 (report_one .refl trivial)
  | none =>
    obtain ⟨-, rfl⟩ := hnone rfl
    -- the work of the pass is reconciliation only, which is always due
    have hwork : ∀ q : Processor, ∀ e ∈ p.taskList.flatMap (recoveryWork ws), q.Due none e := by
      intro q e he
      obtain ⟨t, -, he⟩ := List.mem_flatMap.1 he
      unfold recoveryWork at he
      split at he
      · obtain rfl := List.mem_singleton.1 he
        trivial
      · cases he
    generalize hq : ({ (p.withTasks p.state.tasks).withPhase
      ((p.withTasks p.state.tasks).recoveredPhase p.recoveryTarget) with recoveryTarget := none } :
        Processor) = q
    have htasks : q.state.tasks = p.state.tasks := by rw [← hq]; rfl
    have hframe : Frame p.config.reviewLoopMax.toNat p.state.tasks q.state.tasks := by
      rw [htasks]; exact .refl
    have hk : Keyed q.state.tasks := by rw [htasks]; exact keyed hs
    simp only [post_ite]
    refine ⟨fun hclean => post_ok.2 ⟨hframe, fun e he => ?_⟩, fun _ => ⟨fun hrest => ?_, fun _ =>
      ⟨fun _ => ?_, fun _ => ⟨fun hpub => ?_, fun _ => post_ok.2 ⟨hframe, hwork q⟩⟩⟩⟩⟩
    · rcases mem_orderCleanup he with he | he
      · exact cleanupEffects_due hk (by rw [← hq]; exact hclean) e he
      · exact hwork q e he
    · -- a lost checkout exists only after a legacy import
      have hno : p.state.integration.importedWorkspaceRestorePending = false := hs.integration.restore
      rw [Bool.and_eq_true] at hrest
      exact absurd (hno.symm.trans hrest.2) (by simp)
    · exact Post.mono (resumePhase_asks hk) fun x h => h.report hframe
    · simp only [post_bind]
      refine Post.mono (publishingResumeEffect_asks (by rw [← hq]; exact hpub)) fun x h =>
        post_ok.2 ⟨?_, fun e he => ?_⟩
      · exact (h.report hframe).frame
      · rcases List.mem_append.1 he with he | he
        · exact hwork _ e he
        · exact h.due e he

end Recovery

/-- The tip of a clean integration review. -/
def cleanHead : ProcessorCommand → Option String
  | .integrationReview (.clean sha) => some sha
  | _ => none

/-- The call a budget check was about. -/
def handed : ProcessorCommand → Option ModelCall
  | .tokenBudgetChecked next _ | .cohortBudgetChecked next _ => some next
  | _ => none

/-- An effect of a command: due after it, or what a budget check hands on. -/
def Owed (cmd : ProcessorCommand) (q : Processor) (e : Effect) : Prop :=
  q.Due (cleanHead cmd) e ∨
    ∃ next, handed cmd = some next ∧ (e = next.intoEffect ∨ e = .checkTokenBudget next)

/-- The report of an accepted command. -/
structure Reports (p : Processor) (cmd : ProcessorCommand) (x : Processor × List Effect) : Prop where
  frame : Frame p.config.reviewLoopMax.toNat p.state.tasks x.1.state.tasks
  owed : ∀ e ∈ x.2, Owed cmd x.1 e

theorem Report.reports {cmd : ProcessorCommand} {x : Processor × List Effect} (h : p.Report none x) :
    p.Reports cmd x := ⟨h.frame, fun e he => .inl (due_mono (h.due e he))⟩

theorem Hands.reports {cmd : ProcessorCommand} {next : ModelCall} {x : Processor × List Effect}
    (h : p.Hands next x) (hcmd : handed cmd = some next) : p.Reports cmd x :=
  ⟨h.frame, fun e he => (h.due e he).imp due_mono fun h => ⟨next, hcmd, h⟩⟩

/-- **Every transition but the admission of a wave makes a report.** -/
theorem dispatch_report {cmd : ProcessorCommand} (hs : Sound p)
    (hcmd : ∀ candidates now, cmd ≠ .admitWave candidates now) :
    Post (p.dispatch cmd) (p.Reports cmd) := by
  cases cmd with
  | pause => exact pause_report.mono fun x => Report.reports
  | resume => exact (resume_report hs).mono fun x => Report.reports
  | block reason => exact post_ok.2 (Report.reports (report_one .refl trivial))
  | recover ws => exact (recover_report hs).mono fun x => Report.reports
  | openCohort id base now => exact openCohort_report.mono fun x => Report.reports
  | admitWave candidates now => exact absurd rfl (hcmd candidates now)
  | inboxReconciled n curation => exact inboxReconciled_report.mono fun x => Report.reports
  | inboxFinalizationReconciled curation =>
    exact inboxFinalizationReconciled_report.mono fun x => Report.reports
  | dependencyGraphRefreshed boundary outcome =>
    exact dependencyGraphRefreshed_report.mono fun x => Report.reports
  | inboxCurated n mode outcome => exact inboxCurated_report.mono fun x => Report.reports
  | inboxDrained n => exact inboxDrained_report.mono fun x => Report.reports
  | tokenBudgetChecked next observation =>
    exact (tokenBudgetChecked_hands hs).mono fun x h => h.reports rfl
  | cohortBudgetChecked next now =>
    exact (cohortBudgetChecked_hands hs).mono fun x h => h.reports rfl
  | workspaceReady id => exact (workspaceReady_report hs).mono fun x => Report.reports
  | workspaceFailed id reason => exact workspaceFailed_report.mono fun x => Report.reports
  | taskLeafPrepared id outcome => exact taskLeafPrepared_report.mono fun x => Report.reports
  | taskLeaf id outcome => exact taskLeaf_report.mono fun x => Report.reports
  | taskCommitted id commit => exact taskCommitted_report.mono fun x => Report.reports
  | taskReviewPrepared id outcome => exact taskReviewPrepared_report.mono fun x => Report.reports
  | taskReview id outcome => exact taskReview_report.mono fun x => Report.reports
  | advance now => exact (advance_report hs).mono fun x => Report.reports
  | integrationWorkspaceReady =>
    exact (integrationWorkspaceReady_report hs).mono fun x => Report.reports
  | taskMerged id outcome => exact (taskMerged_report hs).mono fun x => Report.reports
  | mergeResolution id outcome => exact mergeResolution_report.mono fun x => Report.reports
  | mergeResolutionFinalized id outcome =>
    exact (mergeResolutionFinalized_report hs).mono fun x => Report.reports
  | mergeResolutionAborted id reason =>
    exact (mergeResolutionAborted_report hs).mono fun x => Report.reports
  | integrationVerified head outcome => exact integrationVerified_report.mono fun x => Report.reports
  | integrationReview outcome =>
    refine integrationReview_report.mono fun x h => ⟨h.frame, fun e he => .inl ?_⟩
    cases outcome <;> exact h.due e he
  | integrationFix outcome => exact integrationFix_report.mono fun x => Report.reports
  | integrationFixCommitted head =>
    exact integrationFixCommitted_report.mono fun x => Report.reports
  | published head pushed => exact published_report.mono fun x => Report.reports
  | publicationRejected reason => exact (publicationRejected_report hs).mono fun x => Report.reports
  | publicationAwaitingApproval reason =>
    exact publicationAwaitingApproval_report.mono fun x => Report.reports
  | publicationReanchorRequired reason target =>
    exact publicationReanchorRequired_report.mono fun x => Report.reports
  | publicationReanchored => exact publicationReanchored_report.mono fun x => Report.reports
  | ciVerified outcome => exact (ciVerified_report rfl).mono fun x => Report.reports
  | ciFix outcome => exact ciFix_report.mono fun x => Report.reports
  | ciFixPrepared outcome => exact ciFixPrepared_report.mono fun x => Report.reports
  | ciFixCommitted head => exact ciFixCommitted_report.mono fun x => Report.reports
  | knowledgeCurationPrepared outcome =>
    exact (knowledgeCurationPrepared_report hs).mono fun x => Report.reports
  | knowledgeCurated outcome => exact (knowledgeCurated_report hs).mono fun x => Report.reports
  | archivalPrepared outcome => exact (archivalPrepared_report hs).mono fun x => Report.reports
  | archiveCiReconfirmed head outcome =>
    exact (archiveCiReconfirmed_report hs).mono fun x => Report.reports
  | cleanupComplete => exact cleanupComplete_report.mono fun x => Report.reports

/-- A budget check is due when the call behind it is. -/
theorem owed_guard {cmd : ProcessorCommand} {e : Effect} (h : Owed cmd q e)
    (hcmd : handed cmd = none) : Owed cmd q (guardModelEffect p.config e) := by
  rcases h with h | ⟨next, hnext, -⟩
  · left
    unfold guardModelEffect
    split
    · rename_i next hnext
      have hdue : q.DueNow (cleanHead cmd) next.intoEffect := by
        rw [ModelCall.fromEffect_intoEffect hnext]
        cases e <;> first | exact h | (simp [ModelCall.fromEffect] at hnext)
      split
      · exact hdue
      split
      · exact hdue
      · exact h
    · exact h
  · rw [hcmd] at hnext
    cases hnext

theorem owed_persistFirst {cmd : ProcessorCommand} (h : ∀ e ∈ effects, Owed cmd q e) :
    ∀ e ∈ persistFirst effects, Owed cmd q e := by
  unfold persistFirst
  split
  · exact h
  · exact h
  · intro e he
    rcases List.mem_cons.1 he with rfl | he
    · exact .inl trivial
    · exact h e he

/-- **Every effect of an accepted command is due in the state the command leads to**, or is what a
budget check hands on. -/
theorem dispatch_owed {cmd : ProcessorCommand} (hs : Sound p) :
    Post (p.dispatch cmd) fun x => ∀ e ∈ x.2, Owed cmd x.1 e := by
  by_cases hcmd : ∃ candidates now, cmd = .admitWave candidates now
  · obtain ⟨candidates, now, rfl⟩ := hcmd
    refine (admitWave_report hs).mono fun x h e he => .inl ?_
    rcases h with h | ⟨selected, h⟩
    · exact h.due e he
    · exact h.due e he
  · exact (dispatch_report hs fun candidates now h => hcmd ⟨candidates, now, h⟩).mono fun x h => h.owed

theorem apply_owed {cmd : ProcessorCommand} (hs : Sound p) (h : p.apply cmd = .ok (q, effects))
    (hstand : p.standingReply cmd = none) : ∀ e ∈ effects, Owed cmd q e := by
  unfold apply at h
  rw [hstand] at h
  simp only [bind_eq_ok] at h
  obtain ⟨⟨next, more⟩, hd, h⟩ := h
  obtain ⟨rfl, rfl⟩ := Prod.mk.inj (Except.ok.inj h)
  have howed := dispatch_owed hs _ hd
  refine owed_persistFirst ?_
  split
  · exact howed
  · rename_i hcheck
    intro e he
    obtain ⟨e', he', rfl⟩ := List.mem_map.1 he
    refine owed_guard (howed e' he') ?_
    cases cmd <;> first | rfl | exact absurd rfl hcheck

/-- The reply of a stopped processor has no ledger entry. -/
theorem apply_standing {cmd : ProcessorCommand} (h : p.apply cmd = .ok (q, effects))
    (hstand : (p.standingReply cmd).isSome = true) :
    q = p ∧ ∀ e ∈ effects, ∃ reason, e = .waitForOperator reason := by
  obtain ⟨reply, hreply⟩ := Option.isSome_iff_exists.1 hstand
  unfold apply at h
  rw [hreply] at h
  obtain ⟨rfl, rfl⟩ := Prod.mk.inj (Except.ok.inj h)
  refine ⟨rfl, fun e he => ?_⟩
  unfold standingReply at hreply
  split at hreply <;> first
    | cases hreply; done
    | (obtain rfl := Option.some.inj hreply; exact ⟨_, List.mem_singleton.1 he⟩)

end Processor

end Orchestrail
